import Conform.Text.Blank
import Conform.Text.Word

/-!
`type Name = Body` in a file. The body goes on over line breaks as long as an operator joins it, and
ends before the first character that belongs to something else.
-/

namespace Conform

/-- The answer of a reader at the first place where it has one, from the left. It sees the character
before its place and the text from there on. -/
def Text.firstMatch? (read : Option Char → List Char → Option α) (before : Option Char) :
    List Char → Option α
  | [] => read before []
  | c :: rest =>
    match read before (c :: rest) with
    | some found => some found
    | none => firstMatch? read (some c) rest

namespace Declaration

open Text

/-- Why a declaration that is there cannot be read. -/
inductive ScanFault where
  | unterminated
  | unbalanced
deriving DecidableEq, Repr

def ScanFault.message : ScanFault → String
  | unterminated => "declaration runs to end of file without terminating"
  | unbalanced => "mismatched braces"

/-- Where a character of an alias body stands. -/
inductive Place where
  /-- Between operands; `awaiting` when one has to follow. -/
  | outside (awaiting : Bool)
  /-- In a bare operand, or right after a closed group or literal; `angle` counts open `<`. -/
  | token (angle : Nat)
  | quoted (quote : Char)
  /-- In a group that `opener` began; brackets in a literal, opened by `quote`, do not count. -/
  | nested (opener : Char) (depth : Nat) (quote : Option Char)
deriving DecidableEq, Repr

namespace Place

def start : Place := outside true

def isTerminator (c : Char) : Bool :=
  c == ';' || c == ',' || c == ')' || c == '}'

def closer (opener : Char) : Char :=
  if opener = '{' then '}' else ')'

/-- The place after the character that begins an operand. -/
def openOperand (c : Char) : Place :=
  if c = '{' ∨ c = '(' then nested c 1 none
  else if c = '\'' ∨ c = '"' then quoted c
  else if c = '<' then token 1
  else token 0

/-- The place after `c`, or `none` when `c` is not part of the body. -/
def step : Place → Char → Option Place
  | outside awaiting, c =>
    if isBlank c then some (outside awaiting)
    else if c = '&' ∨ c = '|' then some (outside true)
    else if !awaiting || isTerminator c then none
    else some (openOperand c)
  | token 0, c =>
    if isBlank c then some (outside false)
    else if c = '&' ∨ c = '|' then some (outside true)
    else if isTerminator c then none
    else some (openOperand c)
  | token (angle + 1), c =>
    if c = '<' then some (token (angle + 2))
    else if c = '>' then some (token angle)
    else some (token (angle + 1))
  | quoted quote, c => if c = quote then some (token 0) else some (quoted quote)
  | nested opener depth (some quote), c =>
    if c = quote then some (nested opener depth none) else some (nested opener depth (some quote))
  | nested opener depth none, c =>
    if c = '\'' ∨ c = '"' then some (nested opener depth (some c))
    else if c = opener then some (nested opener (depth + 1) none)
    else if c = closer opener then
      if depth = 1 then some (token 0) else some (nested opener (depth - 1) none)
    else some (nested opener depth none)

/-- Whether a body may end here. -/
def mayEnd : Place → Bool
  | outside awaiting => !awaiting
  | token angle => angle == 0
  | quoted _ => false
  | nested _ _ _ => false

end Place

/-- The body that begins here, and the place where it ends. -/
def readBody (place : Place) : List Char → List Char × Place
  | [] => ([], place)
  | c :: rest =>
    match place.step c with
    | none => ([], place)
    | some next =>
      let (body, last) := readBody next rest
      (c :: body, last)

/-- The text after `type Name =`, when the text begins so. -/
def afterAliasHeader? (name : List Char) (before : Option Char) (text : List Char) :
    Option (List Char) := do
  if !isBoundary before text.head? then none
  let rest ← after? "type".toList text
  (blankSplitsSome rest).findSome? fun rest => do
    let rest ← after? name rest
    after? ['='] (trimStart rest)

/-- The body of the alias `name`, or nothing when the text declares none. -/
def alias? (name text : List Char) : Except ScanFault (Option (List Char)) :=
  match firstMatch? (afterAliasHeader? name) none text with
  | none => .ok none
  | some rest =>
    let (body, last) := readBody .start rest
    let body := trim body
    if last.mayEnd && !body.isEmpty then .ok (some body) else .error .unterminated

end Declaration

end Conform
