/-!
Patterns for names. `?` stands for any character, `*` for any run of characters, and brackets for
one of several characters; `**`, alone between slashes, stands for any way down.
-/

namespace Conform.Glob

/-- The characters from one to another. -/
structure CharRange where
  first : Char
  last : Char
deriving DecidableEq, Repr

def CharRange.contains (range : CharRange) (c : Char) : Bool :=
  range.first ≤ c && c ≤ range.last

inductive Token where
  | char (c : Char)
  | anyChar
  | anyRun
  | anyWay
  /-- One of the characters, or, if `negated`, none of them. -/
  | oneOf (negated : Bool) (ranges : List CharRange)
deriving DecidableEq, Repr

inductive Problem where
  | invalidRange
  | wildcards
  | recursiveWildcards
deriving DecidableEq, Repr

def Problem.text : Problem → String
  | invalidRange => "invalid range pattern"
  | wildcards => "wildcards are either regular \x60*\x60 or recursive \x60**\x60"
  | recursiveWildcards => "recursive wildcards must form a single path component"

/-- What is wrong with a pattern, and where. -/
structure PatternFault where
  position : Nat
  problem : Problem
deriving DecidableEq, Repr

def PatternFault.message (fault : PatternFault) : String :=
  "Pattern syntax error near position " ++ toString fault.position ++ ": " ++ fault.problem.text

/-- A hyphen between two characters makes a range of them. -/
def rangesOf : List Char → List CharRange
  | first :: '-' :: last :: rest => ⟨first, last⟩ :: rangesOf rest
  | c :: rest => ⟨c, c⟩ :: rangesOf rest
  | [] => []

/-- The length up to the bracket that closes a set. The first character of a set is never its
end. -/
def setLength? : List Char → Option Nat
  | [] => none
  | _ :: rest => if ']' ∈ rest then some (rest.idxOf ']' + 1) else none

/-- A set after its opening bracket, and its length with the closing one. -/
def readSet? : List Char → Option (Token × Nat)
  | '!' :: rest =>
    (setLength? rest).map fun length => (.oneOf true (rangesOf (rest.take length)), length + 2)
  | text =>
    (setLength? text).map fun length => (.oneOf false (rangesOf (text.take length)), length + 1)

/-- The tokens from a position on, where `before` stands in front of it. The first `skip` characters
belong to the token before. -/
def tokensFrom (position skip : Nat) (before : Option Char) :
    List Char → Except PatternFault (List Token)
  | [] => .ok []
  | c :: rest =>
    if skip > 0 then tokensFrom (position + 1) (skip - 1) (some c) rest
    else if c = '?' then
      return .anyChar :: (← tokensFrom (position + 1) 0 (some c) rest)
    else if c = '*' then
      let more := (rest.takeWhile (· == '*')).length
      let next := (rest.drop more).head?
      if more = 0 then
        return .anyRun :: (← tokensFrom (position + 1) 0 (some c) rest)
      else if more > 1 then .error ⟨position + 2, .wildcards⟩
      else if before.isSome && before != some '/' then
        .error ⟨position - 1, .recursiveWildcards⟩
      else if next.isSome && next != some '/' then
        .error ⟨position + 2, .recursiveWildcards⟩
      else
        return .anyWay ::
          (← tokensFrom (position + 1) (if next.isSome then 2 else 1) (some c) rest)
    else if c = '[' then
      match readSet? rest with
      | some (token, length) =>
        return token :: (← tokensFrom (position + 1) length (some c) rest)
      | none => .error ⟨position, .invalidRange⟩
    else
      return .char c :: (← tokensFrom (position + 1) 0 (some c) rest)

def tokens (pattern : List Char) : Except PatternFault (List Token) :=
  tokensFrom 0 0 none pattern

def Token.holds (c : Char) : Token → Bool
  | char d => c == d
  | oneOf negated ranges => ranges.any (·.contains c) != negated
  | _ => true

/-- What can be left of a text after a run of characters from its front. -/
def suffixes : List Char → List (List Char)
  | [] => [[]]
  | c :: rest => (c :: rest) :: suffixes rest

/-- Whether tokens stand for the whole of a name. -/
def accepts : List Token → List Char → Bool
  | [], name => name.isEmpty
  | .anyRun :: rest, name => (suffixes name).any (accepts rest)
  | .anyWay :: rest, name => (suffixes name).any (accepts rest)
  | _ :: _, [] => false
  | token :: rest, c :: name => token.holds c && accepts rest name

def spelled? : Token → Option Char
  | .char c => some c
  | _ => none

/-- The name that tokens spell, when they stand for no other. -/
def literal? (tokens : List Token) : Option String :=
  (tokens.mapM spelled?).map String.ofList

end Conform.Glob
