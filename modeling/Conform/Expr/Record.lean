import Conform.Text.Blank
import Conform.Text.Parens
import Conform.Text.Word

/-! The shape of record types: `interface Name extends Parent { ... }` and inline `{ ... }`. -/

namespace Conform.Expr

open Text

/-- A record type taken apart; the body is what stands between its braces. -/
structure RecordParts where
  name : Option (List Char)
  parent : Option (List Char)
  body : List Char
deriving DecidableEq, Repr

/-- The inside of a text that begins and ends with a brace. -/
def bracedBody? : List Char → Option (List Char)
  | '{' :: rest => if rest.getLast? = some '}' then some rest.dropLast else none
  | _ => none

/-- `extends Parent { ... }`, with the name of the parent and the body. -/
def extension? (text : List Char) : Option (List Char × List Char) := do
  let rest ← after? "extends".toList text
  let first ← rest.head?
  if !isBlank first then none
  let rest := trimStart rest
  let isParentPart := fun c => isNamePart c || c == '.'
  let parent := rest.takeWhile isParentPart
  if parent.isEmpty then none
  let body ← bracedBody? (trimStart (rest.dropWhile isParentPart))
  return (parent, body)

/-- A name that runs into the keyword, as in `interface Aextends B { ... }`: the name is what
stands before the last seven characters of the run. -/
def joinedExtension? (run rest : List Char) : Option RecordParts := do
  let name := run.take (run.length - "extends".length)
  if name.isEmpty then none
  let (parent, body) ← extension? (run.drop name.length ++ rest)
  return ⟨some name, some parent, body⟩

/-- What follows the keyword `interface`. -/
def interfaceParts? (text : List Char) : Option RecordParts := do
  let first ← text.head?
  if !isBlank first then none
  let text := trimStart text
  let name := text.takeWhile isNamePart
  if name.isEmpty then none
  let rest := text.dropWhile isNamePart
  match extension? (trimStart rest) with
  | some (parent, body) => return ⟨some name, some parent, body⟩
  | none =>
    match bracedBody? (trimStart rest) with
    | some body => return ⟨some name, none, body⟩
    | none => joinedExtension? name rest

/-- Takes a record type apart, when the expression is one. -/
def recordParts? (expr : List Char) : Option RecordParts :=
  match (after? "interface".toList expr).bind interfaceParts? with
  | some parts => some parts
  | none => (bracedBody? expr).map fun body => ⟨none, none, body⟩

def isRecord (expr : List Char) : Bool :=
  (recordParts? expr).isSome

/-- One member of a record body. -/
inductive Member where
  | field (name : List Char) (optional : Bool) (type : List Char)
  /-- An index signature; the name and type of its key mean nothing. -/
  | index (type : List Char)
deriving DecidableEq, Repr

/-- Drops `readonly` and the white space after it. -/
def afterReadonly? (member : List Char) : Option (List Char) := do
  let rest ← after? "readonly".toList member
  let first ← rest.head?
  if isBlank first then some (trimStart rest) else none

/-- What follows an optional question mark and a colon: whether the mark is there, and the type. -/
def annotation? (text : List Char) : Option (Bool × List Char) := do
  let text := trimStart text
  let optional := text.head? == some '?'
  let rest ← after? [':'] (trimStart (if optional then text.drop 1 else text))
  let type := trimStart rest
  if type.isEmpty then none else some (optional, type)

/-- The name that begins a field: an identifier, or a literal for its text. -/
def fieldName? (text : List Char) : Option (List Char × List Char) :=
  match text with
  | [] => none
  | c :: rest =>
    if isNameStart c then some (c :: rest.takeWhile isNamePart, rest.dropWhile isNamePart)
    else if isQuote c then
      match rest.dropWhile (· != c) with
      | _ :: rest' => some (rest.takeWhile (· != c), rest')
      | [] => none
    else none

def plainField? (member : List Char) : Option Member := do
  let (name, rest) ← fieldName? member
  let (optional, type) ← annotation? rest
  return .field name optional type

def field? (member : List Char) : Option Member :=
  match (afterReadonly? member).bind plainField? with
  | some field => some field
  | none => plainField? member

def plainIndex? (member : List Char) : Option Member := do
  let rest := trimStart (← after? ['['] member)
  if (rest.takeWhile isNamePart).isEmpty then none
  let rest ← after? [':'] (trimStart (rest.dropWhile isNamePart))
  if (rest.takeWhile (· != ']')).isEmpty then none
  let rest ← after? [']'] (rest.dropWhile (· != ']'))
  let (_, type) ← annotation? rest
  return .index type

def index? (member : List Char) : Option Member :=
  plainIndex? ((afterReadonly? member).getD member)

/-- Reads a member; an index signature is tried first. -/
def member? (member : List Char) : Option Member :=
  match index? member with
  | some index => some index
  | none => field? member

end Conform.Expr
