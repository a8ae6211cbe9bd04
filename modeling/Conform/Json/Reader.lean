import Conform.Json.Basic
import Conform.Json.Cursor

/-! Reading JSON. Errors say what was expected and where. -/

namespace Conform.Json

inductive ReadFault where
  | eofInList
  | eofInObject
  | eofInString
  | eofInValue
  | expectedColon
  | expectedListEnd
  | expectedObjectEnd
  | expectedWord
  | expectedValue
  | invalidEscape
  | invalidNumber
  | numberOutOfRange
  | controlCharacter
  | keyNotString
  | loneSurrogate
  | trailingComma
  | trailingCharacters
  | endOfHexEscape
  | tooDeep
deriving DecidableEq, Repr

def ReadFault.message : ReadFault → String
  | eofInList => "EOF while parsing a list"
  | eofInObject => "EOF while parsing an object"
  | eofInString => "EOF while parsing a string"
  | eofInValue => "EOF while parsing a value"
  | expectedColon => "expected \x60:\x60"
  | expectedListEnd => "expected \x60,\x60 or \x60]\x60"
  | expectedObjectEnd => "expected \x60,\x60 or \x60\x7d\x60"
  | expectedWord => "expected ident"
  | expectedValue => "expected value"
  | invalidEscape => "invalid escape"
  | invalidNumber => "invalid number"
  | numberOutOfRange => "number out of range"
  | controlCharacter => "control character (\\u0000-\\u001F) found while parsing a string"
  | keyNotString => "key must be a string"
  | loneSurrogate => "lone leading surrogate in hex escape"
  | trailingComma => "trailing comma"
  | trailingCharacters => "trailing characters"
  | endOfHexEscape => "unexpected end of hex escape"
  | tooDeep => "recursion limit exceeded"

/-- A message with the place it is about. -/
def Position.describe (position : Position) (message : String) : String :=
  message ++ " at line " ++ toString position.line ++ " column " ++ toString position.column

abbrev ReadError := Located ReadFault

def ReadError.message (error : ReadError) : String :=
  error.position.describe error.cause.message

/-- A reader gives a value and the place after it. -/
abbrev Reading := Except ReadError

/-- The rest of a word whose first letter has been read. -/
def readWord (cursor : Cursor) : List Char → Except ReadError Cursor
  | [] => .ok cursor
  | expected :: word =>
    match cursor.next? with
    | none => cursor.fail .eofInValue
    | some c => if c = expected then readWord cursor.advance word else cursor.failNext .expectedWord

/-! ### Strings -/

def hexValue? (c : Char) : Option Nat :=
  if c.isDigit then some (c.toNat - '0'.toNat)
  else if 'a' ≤ c ∧ c ≤ 'f' then some (c.toNat - 'a'.toNat + 10)
  else if 'A' ≤ c ∧ c ≤ 'F' then some (c.toNat - 'A'.toNat + 10)
  else none

/-- Four hexadecimal digits. -/
def readHex (cursor : Cursor) : Reading (Nat × Cursor) :=
  let bytes := (cursor.rest.take 4).foldl (fun count c => count + c.utf8Size) 0
  if bytes < 4 then (cursor.advanceBy cursor.rest.length).fail .eofInString
  else
    match (cursor.rest.take 4).mapM hexValue? with
    | some digits => .ok (digits.foldl (fun value digit => 16 * value + digit) 0, cursor.advanceBy 4)
    | none => .error ⟨.invalidEscape, cursor.position.afterBytes 4 cursor.rest⟩

/-- What has to stand between the two halves of a surrogate pair. -/
def readMark (cursor : Cursor) (expected : Char) : Except ReadError Cursor :=
  match cursor.next? with
  | none => cursor.fail .eofInString
  | some c => if c = expected then .ok cursor.advance else cursor.failNext .endOfHexEscape

/-- A character given by one or two groups of digits; surrogates come in pairs. -/
def readUnicode (cursor : Cursor) : Reading (Char × Cursor) := do
  let (high, cursor) ← readHex cursor
  if 0xDC00 ≤ high ∧ high ≤ 0xDFFF then cursor.fail .loneSurrogate
  else if high < 0xD800 ∨ 0xDBFF < high then return (Char.ofNat high, cursor)
  else
    let cursor ← readMark cursor '\\'
    let cursor ← readMark cursor 'u'
    let (low, cursor) ← readHex cursor
    if low < 0xDC00 ∨ 0xDFFF < low then cursor.fail .loneSurrogate
    else return (Char.ofNat (0x10000 + (high - 0xD800) * 0x400 + (low - 0xDC00)), cursor)

/-- What follows a backslash. -/
def readEscape (cursor : Cursor) : Reading (Char × Cursor) :=
  match cursor.next? with
  | none => cursor.fail .eofInString
  | some c =>
    let plain := [('"', '"'), ('\\', '\\'), ('/', '/'), ('b', '\x08'), ('f', '\x0c'), ('n', '\n'),
      ('r', '\r'), ('t', '\t')]
    if c = 'u' then readUnicode cursor.advance
    else
      match plain.lookup c with
      | some meant => .ok (meant, cursor.advance)
      | none => cursor.failNext .invalidEscape

/-- The characters up to the closing quote. Each step moves over at least one, so `bound` may be the
length of the text. -/
def readCharacters (bound : Nat) (cursor : Cursor) : Reading (List Char × Cursor) :=
  match bound, cursor.next? with
  | 0, _ => cursor.fail .eofInString
  | _ + 1, none => cursor.fail .eofInString
  | _ + 1, some '"' => .ok ([], cursor.advance)
  | bound + 1, some '\\' => do
    let (c, cursor) ← readEscape cursor.advance
    let (rest, cursor) ← readCharacters bound cursor
    return (c :: rest, cursor)
  | bound + 1, some c => do
    if c.toNat < 0x20 then cursor.failNext .controlCharacter
    else
      let (rest, cursor) ← readCharacters bound cursor.advance
      return (c :: rest, cursor)

/-- A string whose opening quote has been read. -/
def readString (cursor : Cursor) : Reading (String × Cursor) := do
  let (text, cursor) ← readCharacters (cursor.rest.length + 1) cursor
  return (String.ofList text, cursor)

/-! ### Numbers -/

def digitValue (c : Char) : Nat :=
  c.toNat - '0'.toNat

/-- Takes digits as long as the value stays within `limit`: the value and the digits left over. -/
def takeDigits (limit value : Nat) : List Char → Nat × List Char
  | [] => (value, [])
  | c :: rest =>
    if value * 10 + digitValue c ≤ limit then takeDigits limit (value * 10 + digitValue c) rest
    else (value, c :: rest)

/-- The largest significand that is kept exactly. -/
def maxSignificand : Nat := Nat.pow 2 64 - 1

/-- Ten to a power that binary64 reaches. -/
def powerOfTen (exponent : Nat) : Float :=
  OfScientific.ofScientific 1 false exponent

/-- Divides by a power of ten, by steps that binary64 can hold; zero stays zero. -/
def divideByPower (value : Float) (exponent : Nat) : Float :=
  if exponent ≤ 308 then value / powerOfTen exponent
  else if value == 0.0 then value
  else divideByPower (value / powerOfTen 308) (exponent - 308)
termination_by exponent

/-- The number `significand * 10 ^ exponent` by one operation on binary64 numbers, or by a few for
a very small one; nothing when it is too large. -/
def scale? (significand : Nat) (exponent : Int) : Option Float :=
  let value := significand.toUInt64.toFloat
  if exponent < 0 then some (divideByPower value exponent.natAbs)
  else if exponent ≤ 308 then
    let scaled := value * powerOfTen exponent.natAbs
    if scaled.isInf then none else some scaled
  else if value == 0.0 then some value
  else none

def signed (positive : Bool) (value : Float) : JsonNumber :=
  .float (if positive then value else -value).toBits

def finish (positive : Bool) (significand : Nat) (exponent : Int) (cursor : Cursor) :
    Reading (JsonNumber × Cursor) :=
  match scale? significand exponent with
  | some value => .ok (signed positive value, cursor)
  | none => cursor.fail .numberOutOfRange

/-- An exponent, from its sign on. One that is too large to count makes the number zero or too
large. -/
def readExponent (positive : Bool) (significand : Nat) (start : Int) (cursor : Cursor) :
    Reading (JsonNumber × Cursor) :=
  let negative := cursor.next? == some '-'
  let cursor := if negative || cursor.next? == some '+' then cursor.advance else cursor
  match cursor.next? with
  | none => cursor.fail .eofInValue
  | some c =>
    let digits := cursor.rest.takeWhile Char.isDigit
    let (exponent, left) := takeDigits (Nat.pow 2 31 - 1) 0 digits
    let after := cursor.advanceBy digits.length
    if !c.isDigit then cursor.failNext .invalidNumber
    else if left.isEmpty then
      finish positive significand (if negative then start - exponent else start + exponent) after
    else if significand ≠ 0 ∧ !negative then
      (cursor.advanceBy (digits.length - left.length + 1)).fail .numberOutOfRange
    else .ok (signed positive 0.0, after)

def isExponentMark (c : Option Char) : Bool :=
  c == some 'e' || c == some 'E'

/-- The digits after the point. Those that the significand has no room for are dropped. -/
def readFraction (positive : Bool) (significand : Nat) (start : Int) (cursor : Cursor) :
    Reading (JsonNumber × Cursor) :=
  let digits := cursor.rest.takeWhile Char.isDigit
  let (significand, left) := takeDigits maxSignificand significand digits
  let exponent := start - ((digits.length - left.length : Nat) : Int)
  let after := cursor.advanceBy digits.length
  if digits.isEmpty then
    match cursor.next? with
    | some _ => cursor.failNext .invalidNumber
    | none => cursor.fail .eofInValue
  else if isExponentMark after.next? then readExponent positive significand exponent after.advance
  else finish positive significand exponent after

/-- An integer of 64 bits stays one; zero with a sign does not. -/
def wholeNumber (positive : Bool) (significand : Nat) : JsonNumber :=
  if positive then .integer significand
  else if 1 ≤ significand ∧ significand ≤ Nat.pow 2 63 then .integer (-significand)
  else signed false significand.toUInt64.toFloat

/-- A number, its minus sign read. Digits that the significand has no room for count as zeros. -/
def readNumber (positive : Bool) (cursor : Cursor) : Reading (JsonNumber × Cursor) :=
  match cursor.next? with
  | none => cursor.fail .eofInValue
  | some c =>
    let digits := cursor.rest.takeWhile Char.isDigit
    if !c.isDigit then cursor.failNext .invalidNumber
    else if c = '0' ∧ digits.length > 1 then cursor.advance.failNext .invalidNumber
    else
      let (significand, left) := takeDigits maxSignificand 0 digits
      let after := cursor.advanceBy digits.length
      if after.next? = some '.' then readFraction positive significand left.length after.advance
      else if isExponentMark after.next? then
        readExponent positive significand left.length after.advance
      else if left.isEmpty then .ok (wholeNumber positive significand, after)
      else finish positive significand left.length after

/-! ### Values -/

/-- After an item of a list: whether another follows. -/
def readListJoint (first : Bool) (cursor : Cursor) : Reading (Bool × Cursor) :=
  let cursor := cursor.skipSpaces
  match cursor.next? with
  | none => cursor.fail .eofInList
  | some c =>
    if c = ']' then .ok (false, cursor)
    else if first then .ok (true, cursor)
    else if c = ',' then
      let cursor := cursor.advance.skipSpaces
      match cursor.next? with
      | none => cursor.fail .eofInValue
      | some c => if c = ']' then cursor.failNext .trailingComma else .ok (true, cursor)
    else cursor.failNext .expectedListEnd

/-- The key of the next entry of an object, if there is one. -/
def readKey (first : Bool) (cursor : Cursor) : Reading (Option String × Cursor) :=
  let cursor := cursor.skipSpaces
  match cursor.next? with
  | none => cursor.fail .eofInObject
  | some c =>
    let key (cursor : Cursor) : Reading (Option String × Cursor) := do
      let (key, cursor) ← readString cursor.advance
      return (some key, cursor)
    if c = '}' then .ok (none, cursor)
    else if first then if c = '"' then key cursor else cursor.failNext .keyNotString
    else if c = ',' then
      let cursor := cursor.advance.skipSpaces
      match cursor.next? with
      | none => cursor.fail .eofInValue
      | some c =>
        if c = '"' then key cursor
        else if c = '}' then cursor.failNext .trailingComma
        else cursor.failNext .keyNotString
    else cursor.failNext .expectedObjectEnd

def readColon (cursor : Cursor) : Except ReadError Cursor :=
  let cursor := cursor.skipSpaces
  match cursor.next? with
  | none => cursor.fail .eofInObject
  | some c => if c = ':' then .ok cursor.advance else cursor.failNext .expectedColon

/-- A value without parts, if one begins here. -/
def readScalar? (cursor : Cursor) : Option (Reading (Json × Cursor)) :=
  match cursor.next? with
  | some 'n' => some do return (.null, ← readWord cursor.advance "ull".toList)
  | some 't' => some do return (.bool true, ← readWord cursor.advance "rue".toList)
  | some 'f' => some do return (.bool false, ← readWord cursor.advance "alse".toList)
  | some '"' => some do
    let (text, cursor) ← readString cursor.advance
    return (.string text, cursor)
  | some '-' => some do
    let (value, cursor) ← readNumber false cursor.advance
    return (.number value, cursor)
  | some c =>
    if c.isDigit then some do
      let (value, cursor) ← readNumber true cursor
      return (.number value, cursor)
    else none
  | none => none

mutual

/-- A value, with at most `depth` arrays and objects around its innermost part, one more than are
allowed. Every second step moves over a character, so `bound` may be twice the length of the
text. -/
def readValue (bound depth : Nat) (cursor : Cursor) : Reading (Json × Cursor) :=
  let cursor := cursor.skipSpaces
  match bound, readScalar? cursor with
  | _, some scalar => scalar
  | 0, none => cursor.fail .tooDeep
  | bound + 1, none =>
    match cursor.next? with
    | none => cursor.fail .eofInValue
    | some '[' =>
      if depth ≤ 1 then cursor.failNext .tooDeep
      else do
        let (items, cursor) ← readItems bound (depth - 1) true cursor.advance
        return (.array items, cursor)
    | some '{' =>
      if depth ≤ 1 then cursor.failNext .tooDeep
      else do
        let (entries, cursor) ← readEntries bound (depth - 1) true cursor.advance
        return (.object (entriesOf entries), cursor)
    | some _ => cursor.failNext .expectedValue

def readItems (bound depth : Nat) (first : Bool) (cursor : Cursor) : Reading (List Json × Cursor) :=
  match bound with
  | 0 => cursor.fail .tooDeep
  | bound + 1 => do
    let (more, cursor) ← readListJoint first cursor
    if more then
      let (item, cursor) ← readValue bound depth cursor
      let (rest, cursor) ← readItems bound depth false cursor
      return (item :: rest, cursor)
    else return ([], cursor.advance)

def readEntries (bound depth : Nat) (first : Bool) (cursor : Cursor) :
    Reading (List (String × Json) × Cursor) :=
  match bound with
  | 0 => cursor.fail .tooDeep
  | bound + 1 => do
    match ← readKey first cursor with
    | (none, cursor) => return ([], cursor.advance)
    | (some key, cursor) =>
      let cursor ← readColon cursor
      let (value, cursor) ← readValue bound depth cursor
      let (rest, cursor) ← readEntries bound depth false cursor
      return ((key, value) :: rest, cursor)

end

/-- Arrays and objects may nest 127 deep. -/
def depthLimit : Nat := 128

/-- Reads a document with another limit on nesting. -/
def readNested (limit : Nat) (text : List Char) : Except ReadError Json := do
  let (value, cursor) ← readValue (2 * text.length + 2) limit (.ofText text)
  let cursor := cursor.skipSpaces
  if cursor.rest.isEmpty then return value else cursor.failNext .trailingCharacters

/-- Reads a document: one value and white space around it. -/
def read (text : List Char) : Except ReadError Json :=
  readNested depthLimit text

end Conform.Json
