import Conform.Json.Reader
import Conform.Text.Blank

/-! The tokens of a filter. -/

namespace Conform.Filter

inductive Token where
  | word (name : String)
  /-- A name right after a dot. -/
  | field (name : String)
  | variable (name : String)
  | format (name : String)
  | number (text : String)
  /-- An operator, a mark or a bracket. -/
  | symbol (text : String)
  /-- The beginning of a string; its pieces follow, up to the end. -/
  | openString
  | piece (text : String)
  /-- What stands between here and the matching parenthesis is a filter. -/
  | openPart
  | closePart
  | closeString
deriving DecidableEq, Repr

/-- What is open around the place that is read. -/
inductive Enclosure where
  | bracket (closer : Char)
  | string
  | part
deriving DecidableEq, Repr

def isIdentifierStart (c : Char) : Bool :=
  c.isAlpha || c == '_'

def isIdentifierPart (c : Char) : Bool :=
  c.isAlphanum || c == '_'

def isOperatorPart (c : Char) : Bool :=
  "|=!<>+-*/%".contains c

/-- The length of a number that begins here, if it is well formed. -/
def numberLength? (text : List Char) : Option Nat :=
  let whole := (text.takeWhile Char.isDigit).length
  let rest := text.drop whole
  let fraction? := match rest with
    | '.' :: rest =>
      let digits := (rest.takeWhile Char.isDigit).length
      if digits = 0 then none else some (digits + 1)
    | _ => some 0
  fraction?.bind fun fraction =>
    let rest := rest.drop fraction
    let exponent? := match rest with
      | c :: rest =>
        if c = 'e' ∨ c = 'E' then
          let sign := if rest.head? = some '+' ∨ rest.head? = some '-' then 1 else 0
          let digits := ((rest.drop sign).takeWhile Char.isDigit).length
          if digits = 0 then none else some (digits + sign + 1)
        else some 0
      | [] => some 0
    exponent?.map fun exponent => whole + fraction + exponent

/-- A word, with the part after a double colon, and its length. -/
def wordLength (text : List Char) : Nat :=
  let first := (text.takeWhile isIdentifierPart).length
  match text.drop first with
  | ':' :: ':' :: c :: rest =>
    if isIdentifierStart c then first + 3 + (rest.takeWhile isIdentifierPart).length else first
  | _ => first

/-- A character that a backslash begins in a string, and its length without the backslash. -/
def escaped? : List Char → Option (Char × Nat)
  | 'u' :: rest =>
    if rest.length < 4 then none
    else do
      let digits ← (rest.take 4).mapM Json.hexValue?
      let code := digits.foldl (fun value digit => 16 * value + digit) 0
      if 0xD800 ≤ code ∧ code ≤ 0xDFFF then none else some (Char.ofNat code, 5)
  | c :: _ =>
    ([('"', '"'), ('\\', '\\'), ('/', '/'), ('b', '\x08'), ('f', '\x0c'), ('n', '\n'), ('r', '\r'),
      ('t', '\t')].lookup c).map (·, 1)
  | [] => none

/-- The tokens of a text, inside what is `enclosed`. The first `skip` characters belong to the token
before. -/
def tokensFrom (enclosed : List Enclosure) (skip : Nat) (comment : Bool) :
    List Char → Option (List Token)
  | [] => if enclosed.isEmpty then some [] else none
  | c :: rest =>
    let text := c :: rest
    if skip > 0 then tokensFrom enclosed (skip - 1) false rest
    else if comment then tokensFrom enclosed 0 (c != '\n') rest
    else
      match enclosed with
      | .string :: around =>
        if c = '"' then (tokensFrom around 0 false rest).map (.closeString :: ·)
        else if c = '\\' then
          if rest.head? = some '(' then
            (tokensFrom (.part :: enclosed) 1 false rest).map (.openPart :: ·)
          else
            match escaped? rest with
            | some (meant, length) =>
              (tokensFrom enclosed length false rest).map (.piece (String.singleton meant) :: ·)
            | none => none
        else (tokensFrom enclosed 0 false rest).map (.piece (String.singleton c) :: ·)
      | _ =>
        let open_ (closer : Char) :=
          (tokensFrom (.bracket closer :: enclosed) 0 false rest).map
            (.symbol (String.singleton c) :: ·)
        if Text.isBlank c then tokensFrom enclosed 0 false rest
        else if c = '#' then tokensFrom enclosed 0 true rest
        else if c = '"' then (tokensFrom (.string :: enclosed) 0 false rest).map (.openString :: ·)
        else if c = '(' then open_ ')'
        else if c = '[' then open_ ']'
        else if c = '{' then open_ '}'
        else if c = ')' ∨ c = ']' ∨ c = '}' then
          match enclosed with
          | .part :: around =>
            if c = ')' then (tokensFrom around 0 false rest).map (.closePart :: ·) else none
          | .bracket closer :: around =>
            if c = closer then
              (tokensFrom around 0 false rest).map (.symbol (String.singleton c) :: ·)
            else none
          | _ => none
        else if isIdentifierStart c then
          let length := wordLength text
          (tokensFrom enclosed (length - 1) false rest).map
            (.word (String.ofList (text.take length)) :: ·)
        else if c = '$' ∨ c = '@' then
          let name := rest.takeWhile isIdentifierPart
          let token := if c = '$' then Token.variable (String.ofList name)
            else Token.format (String.ofList name)
          if !rest.head?.any isIdentifierStart then none
          else (tokensFrom enclosed name.length false rest).map (token :: ·)
        else if c.isDigit then
          match numberLength? text with
          | some length =>
            (tokensFrom enclosed (length - 1) false rest).map
              (.number (String.ofList (text.take length)) :: ·)
          | none => none
        else if isOperatorPart c then
          let length := (text.takeWhile isOperatorPart).length
          (tokensFrom enclosed (length - 1) false rest).map
            (.symbol (String.ofList (text.take length)) :: ·)
        else if c = '.' then
          if rest.head? = some '.' then (tokensFrom enclosed 1 false rest).map (.symbol ".." :: ·)
          else if rest.head?.any isIdentifierStart then
            let name := rest.takeWhile isIdentifierPart
            (tokensFrom enclosed name.length false rest).map
              (.field (String.ofList name) :: ·)
          else (tokensFrom enclosed 0 false rest).map (.symbol "." :: ·)
        else if ":;,?".contains c then
          (tokensFrom enclosed 0 false rest).map (.symbol (String.singleton c) :: ·)
        else none

def tokens (text : List Char) : Option (List Token) :=
  tokensFrom [] 0 false text

end Conform.Filter
