import Conform.Json.Reader
import Conform.Json.Writer
import Conform.Resolver.Basic
import Conform.Text.Visible

/-!
The settings file: `{ "strictNullChecks": true, "extensions": [".ts", ".d.ts"] }`, or the two values
in an array. Both may be missing. An error names the place in the document as well as in the text.
-/

namespace Conform

structure Settings where
  strictNullChecks : Bool := false
  extensions : Option (List String) := none
deriving DecidableEq, Repr

namespace Settings

/-- A step from a document to a part of it. -/
inductive PathStep where
  | key (name : String)
  | index (position : Nat)
  /-- A key that cannot be read. -/
  | unknown
deriving DecidableEq, Repr

/-- Keys are joined by dots; the whole document is a dot. -/
def pathText : List PathStep → String
  | [] => "."
  | first :: rest => stepText first ++ String.join (rest.map joined)
where
  stepText : PathStep → String
    | .key name => name
    | .index position => "[" ++ toString position ++ "]"
    | .unknown => "?"
  joined : PathStep → String
    | .index position => "[" ++ toString position ++ "]"
    | .key name => "." ++ name
    | .unknown => ".?"

inductive SettingsFault where
  | unreadable (fault : Json.ReadFault)
  | wrongType (found expected : String)
  | unknownField (name : String)
  | duplicateField (name : String)
deriving DecidableEq, Repr

def SettingsFault.message : SettingsFault → String
  | unreadable fault => fault.message
  | wrongType found expected => "invalid type: " ++ found ++ ", expected " ++ expected
  | unknownField name =>
    "unknown field " ++ quotedName name ++ ", expected " ++ quotedName "strictNullChecks" ++ " or " ++
      quotedName "extensions"
  | duplicateField name => "duplicate field " ++ quotedName name

structure SettingsError where
  path : List PathStep
  error : Json.Located SettingsFault
deriving DecidableEq, Repr

def SettingsError.message (error : SettingsError) : String :=
  "at JSON path " ++ pathText error.path ++ " → " ++
    error.error.position.describe error.error.cause.message

abbrev Decoding := Except SettingsError

open Json (Cursor Reading)

def failAt (path : List PathStep) (cursor : Cursor) (fault : SettingsFault) : Decoding α :=
  .error ⟨path, ⟨fault, cursor.position⟩⟩

def ofReading (path : List PathStep) (answer : Reading α) : Decoding α :=
  answer.mapError fun error => ⟨path, ⟨.unreadable error.cause, error.position⟩⟩

/-- The value at the cursor as a message names it. -/
def describe : Json → String
  | .null => "null"
  | .bool value => "boolean " ++ quotedName (if value then "true" else "false")
  | .number (.integer value) => "integer " ++ quotedName (toString value)
  | .number number => "floating point " ++ quotedName (Json.numberText number)
  | .string text => "string " ++ Text.quoteVisibly text
  | .array _ => "sequence"
  | .object _ => "map"

/-- A value of a type that does not belong at the cursor. A value without parts is read first. -/
def unexpected (path : List PathStep) (expected : String) (cursor : Cursor) : Decoding α :=
  match Json.readScalar? cursor with
  | some scalar => do
    let (value, cursor) ← ofReading path scalar
    failAt path cursor (.wrongType (describe value) expected)
  | none =>
    match cursor.next? with
    | some '[' => failAt path cursor (.wrongType (describe (.array [])) expected)
    | some '{' => failAt path cursor (.wrongType (describe (.object [])) expected)
    | some _ => ofReading path (cursor.failNext .expectedValue)
    | none => ofReading path (cursor.fail .eofInValue)

def decodeBool (path : List PathStep) (cursor : Cursor) : Decoding (Bool × Cursor) :=
  let cursor := cursor.skipSpaces
  match Json.readScalar? cursor with
  | some (.ok (.bool value, cursor)) => .ok (value, cursor)
  | _ => unexpected path "a boolean" cursor

def decodeString (path : List PathStep) (cursor : Cursor) : Decoding (String × Cursor) :=
  let cursor := cursor.skipSpaces
  match Json.readScalar? cursor with
  | some (.ok (.string text, cursor)) => .ok (text, cursor)
  | _ => unexpected path "a string" cursor

/-- The strings of a list from its item `position` on. Each takes a character or more, so `bound` may
be the length of the text. -/
def decodeStrings (path : List PathStep) (position : Nat) (cursor : Cursor) :
    Nat → Decoding (List String × Cursor)
  | 0 => ofReading path (cursor.fail .eofInList)
  | bound + 1 => do
    let (more, cursor) ← ofReading path (Json.readListJoint (position = 0) cursor)
    if more then
      let (text, cursor) ← decodeString (path ++ [.index position]) cursor
      let (rest, cursor) ← decodeStrings path (position + 1) cursor bound
      return (text :: rest, cursor)
    else return ([], cursor.advance)

/-- A list of strings, or `null` for none. -/
def decodeExtensions (path : List PathStep) (cursor : Cursor) :
    Decoding (Option (List String) × Cursor) :=
  let cursor := cursor.skipSpaces
  match cursor.next? with
  | some 'n' => do
    return (none, ← ofReading path (Json.readWord cursor.advance "ull".toList))
  | some '[' => do
    let (texts, cursor) ← decodeStrings path 0 cursor.advance (cursor.rest.length + 1)
    return (some texts, cursor)
  | _ => unexpected path "a sequence" cursor

/-- An error about a key is placed where the object could have ended: after white space, and after
a brace if one follows. -/
def failAfterKey (path : List PathStep) (cursor : Cursor) (fault : SettingsFault) : Decoding α :=
  let cursor := cursor.skipSpaces
  failAt path (if cursor.next? = some '}' then cursor.advance else cursor) fault

/-- The entries of an object; `seen` holds the keys read so far. There are no more than two. -/
def decodeEntries (settings : Settings) (seen : List String) (cursor : Cursor) :
    Nat → Decoding (Settings × Cursor)
  | 0 => failAt [] cursor (.unreadable .expectedObjectEnd)
  | bound + 1 => do
    let (key, cursor) ← ofReading [.unknown] (Json.readKey seen.isEmpty cursor)
    match key with
    | none => return (settings, cursor.advance)
    | some key =>
      let path := [PathStep.key key]
      if key ≠ "strictNullChecks" ∧ key ≠ "extensions" then
        failAfterKey path cursor (.unknownField key)
      else if key ∈ seen then failAfterKey [] cursor (.duplicateField key)
      else
        let cursor ← ofReading [] (Json.readColon cursor)
        let (settings, cursor) ←
          if key = "strictNullChecks" then do
            let (value, cursor) ← decodeBool path cursor
            pure ({ settings with strictNullChecks := value }, cursor)
          else do
            let (value, cursor) ← decodeExtensions path cursor
            pure ({ settings with extensions := value }, cursor)
        decodeEntries settings (key :: seen) cursor bound

/-- The end of an array that has its two items. -/
def decodeEnd (cursor : Cursor) : Decoding Cursor :=
  let cursor := cursor.skipSpaces
  match cursor.next? with
  | some ']' => .ok cursor.advance
  | none => ofReading [] (cursor.fail .eofInList)
  | some ',' =>
    let cursor := cursor.advance.skipSpaces
    if cursor.next? = some ']' then ofReading [] (cursor.failNext .trailingComma)
    else ofReading [] (cursor.failNext .trailingCharacters)
  | some _ => ofReading [] (cursor.failNext .trailingCharacters)

/-- The settings as an array. -/
def decodeArray (cursor : Cursor) : Decoding (Settings × Cursor) := do
  let (more, cursor) ← ofReading [] (Json.readListJoint true cursor)
  if !more then return ({}, ← decodeEnd cursor)
  let (strict, cursor) ← decodeBool [.index 0] cursor
  let (more, cursor) ← ofReading [] (Json.readListJoint false cursor)
  if !more then return ({ strictNullChecks := strict }, ← decodeEnd cursor)
  let (extensions, cursor) ← decodeExtensions [.index 1] cursor
  return ({ strictNullChecks := strict, extensions := extensions }, ← decodeEnd cursor)

/-- Reads settings. What follows the first value is not looked at. -/
def ofText (text : List Char) : Decoding Settings := do
  let cursor := (Cursor.ofText text).skipSpaces
  let (settings, _) ← match cursor.next? with
    | some '[' => decodeArray cursor.advance
    | some '{' => decodeEntries {} [] cursor.advance 3
    | _ => unexpected [] "struct Config" cursor
  return settings

/-- The options that settings stand for. -/
def options (settings : Settings) : Options :=
  { strict := settings.strictNullChecks,
    extensions := settings.extensions.getD ({} : Options).extensions }

end Settings

end Conform
