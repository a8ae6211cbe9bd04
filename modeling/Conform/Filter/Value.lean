import Conform.Filter.Basic
import Conform.Json.Reader
import Conform.Json.Writer

/-!
The values that filters work on. A number of a document that is no 64-bit integer keeps its text
until it is computed with; what is computed is an integer of 64 bits or a binary64 number.
-/

namespace Conform.Filter

inductive Value where
  | null
  | bool (value : Bool)
  | integer (value : Int)
  | float (value : Float)
  | decimal (text : String)
  | string (text : String)
  | array (items : List Value)
  | object (entries : List (String × Value))
deriving Inhabited, Repr

/-- What a filter gives: values, or errors, which are values too. -/
abbrev Answer := Except Value Value

def fault (message : String) : Except Value α :=
  .error (.string message)

namespace Value

def inRange (value : Int) : Bool :=
  -Int.pow 2 63 ≤ value && value < Int.pow 2 63

mutual

def ofJson : Json → Value
  | .null => null
  | .bool value => bool value
  | .number (.integer value) => if inRange value then integer value else decimal (toString value)
  | .number other => decimal (Json.numberText other)
  | .string text => string text
  | .array items => array (ofItems items)
  | .object entries => object (ofEntries entries)

def ofItems : List Json → List Value
  | [] => []
  | item :: rest => ofJson item :: ofItems rest

def ofEntries : List (String × Json) → List (String × Value)
  | [] => []
  | (key, value) :: rest => (key, ofJson value) :: ofEntries rest

end

mutual

/-- The value as JSON text. A number that is not finite is written as `null`. -/
def text : Value → String
  | null => "null"
  | bool value => if value then "true" else "false"
  | integer value => toString value
  | float value => Json.numberText (.float value.toBits)
  | decimal text => text
  | string text => Json.quote text
  | array items => "[" ++ ",".intercalate (textItems items) ++ "]"
  | object entries => "\x7b" ++ ",".intercalate (textEntries entries) ++ "\x7d"

def textItems : List Value → List String
  | [] => []
  | item :: rest => item.text :: textItems rest

def textEntries : List (String × Value) → List String
  | [] => []
  | (key, value) :: rest => (Json.quote key ++ ":" ++ value.text) :: textEntries rest

end

/-- The value as a document, read from its text. -/
def toJson (value : Value) : Except Json.ReadError Json :=
  Json.read value.text.toList

def typeName : Value → String
  | null => "null"
  | bool _ => "boolean"
  | integer _ => "number"
  | float _ => "number"
  | decimal _ => "number"
  | string _ => "string"
  | array _ => "array"
  | object _ => "object"

/-- `null` and `false` do not hold. -/
def holds : Value → Bool
  | null => false
  | bool value => value
  | _ => true

/-! ### Numbers -/

/-- The number that a decimal text stands for, correctly rounded. -/
def decimalFloat (text : String) : Float :=
  let negative := text.startsWith "-"
  let body := if negative then text.toList.drop 1 else text.toList
  let mantissa := body.takeWhile fun c => c.isDigit || c == '.'
  let exponent := ((String.ofList ((body.drop (mantissa.length + 1)).filter (· != '+'))).toInt?).getD 0
  let digits := (mantissa.filter Char.isDigit).foldl (fun n c => 10 * n + Json.digitValue c) 0
  let fraction := ((mantissa.dropWhile (· != '.')).drop 1).length
  let exponent := exponent - fraction
  let magnitude :=
    if digits = 0 ∨ exponent < -100000 then 0.0
    else if exponent > 100000 then 1.0 / 0.0
    else OfScientific.ofScientific digits (decide (exponent < 0)) exponent.natAbs
  if negative then -magnitude else magnitude

def intFloat (value : Int) : Float :=
  Float.ofInt value

/-- A number, computed with: an integer or a float. -/
inductive Number where
  | integer (value : Int)
  | float (value : Float)

def number? : Value → Option Number
  | .integer value => some (.integer value)
  | .float value => some (.float value)
  | .decimal text => some (.float (decimalFloat text))
  | _ => none

def Number.toFloat : Number → Float
  | .integer value => intFloat value
  | .float value => value

/-- An integer result, or the float one when it needs more than 64 bits. -/
def fit (exact : Int) (rounded : Float) : Value :=
  if inRange exact then .integer exact else .float rounded

/-- An operation that has an exact form on integers. -/
def combine (exact : Int → Int → Int) (rounded : Float → Float → Float) (left right : Number) :
    Value :=
  match left, right with
  | .integer a, .integer b => fit (exact a b) (rounded (intFloat a) (intFloat b))
  | left, right => .float (rounded left.toFloat right.toFloat)

/-! ### Order -/

/-- Inserts an entry before the first with a greater key. -/
def insertEntry (entry : String × Value) : List (String × Value) → List (String × Value)
  | [] => [entry]
  | other :: rest =>
    if entry.1 < other.1 then entry :: other :: rest else other :: insertEntry entry rest

def sortEntries (entries : List (String × Value)) : List (String × Value) :=
  entries.foldr insertEntry []

mutual

/-- The value with the keys of its objects in order. -/
def sorted : Value → Value
  | array items => array (sortedItems items)
  | object entries => object (sortEntries (sortedEntries entries))
  | value => value

def sortedItems : List Value → List Value
  | [] => []
  | item :: rest => item.sorted :: sortedItems rest

def sortedEntries : List (String × Value) → List (String × Value)
  | [] => []
  | (key, value) :: rest => (key, value.sorted) :: sortedEntries rest

end

def rank : Value → Nat
  | null => 0
  | bool false => 1
  | bool true => 2
  | integer _ => 3
  | float _ => 3
  | decimal _ => 3
  | string _ => 4
  | array _ => 5
  | object _ => 6

def compareNumbers (left right : Value) : Ordering :=
  match left.number?, right.number? with
  | some (.integer a), some (.integer b) => compare a b
  | some a, some b =>
    let (a, b) := (a.toFloat, b.toFloat)
    if a < b then .lt else if a == b then .eq else if a.isNaN then .lt else .gt
  | _, _ => .eq

def compareStrings (left right : String) : Ordering :=
  if left < right then .lt else if left = right then .eq else .gt

mutual

/-- The order of values whose keys are in order: by kind, then by content. Objects are compared by
their keys first. -/
def compareSorted : Value → Value → Ordering
  | string a, string b => compareStrings a b
  | array items, array others => compareItems items others
  | object entries, object others =>
    (compareKeys entries others).then (compareEntries entries others)
  | left, right => (compare left.rank right.rank).then (compareNumbers left right)

def compareItems : List Value → List Value → Ordering
  | [], [] => .eq
  | [], _ :: _ => .lt
  | _ :: _, [] => .gt
  | item :: rest, other :: others => (compareSorted item other).then (compareItems rest others)

def compareEntries : List (String × Value) → List (String × Value) → Ordering
  | (_, value) :: rest, (_, other) :: others =>
    (compareSorted value other).then (compareEntries rest others)
  | _, _ => .eq

def compareKeys : List (String × Value) → List (String × Value) → Ordering
  | [], [] => .eq
  | [], _ :: _ => .lt
  | _ :: _, [] => .gt
  | (key, _) :: rest, (other, _) :: others =>
    (compareStrings key other).then (compareKeys rest others)

end

def order (left right : Value) : Ordering :=
  compareSorted left.sorted right.sorted

def atMost (left right : Value) : Bool :=
  left.order right != .gt

def equals (left right : Value) : Bool :=
  left.order right == .eq

/-! ### Operations -/

/-- Merges two objects; values under one key are merged in turn when both are objects. -/
def merge (bound : Nat) (entries others : List (String × Value)) : List (String × Value) :=
  match bound with
  | 0 => entries
  | bound + 1 =>
    others.foldl (fun merged (key, value) =>
      match Json.lookup key merged, value with
      | some (object inner), object new => Json.assign key (object (merge bound inner new)) merged
      | _, _ => Json.assign key value merged) entries

def mismatch (operation : String) (left right : Value) : Answer :=
  fault ("cannot calculate " ++ left.text ++ " " ++ operation ++ " " ++ right.text)

def add (left right : Value) : Answer :=
  match left, right with
  | null, value => .ok value
  | value, null => .ok value
  | string a, string b => .ok (string (a ++ b))
  | array a, array b => .ok (array (a ++ b))
  | object a, object b =>
    .ok (object (b.foldl (fun entries (key, value) => Json.assign key value entries) a))
  | left, right =>
    match left.number?, right.number? with
    | some a, some b => .ok (combine (· + ·) (· + ·) a b)
    | _, _ => mismatch "+" left right

def subtract (left right : Value) : Answer :=
  match left, right with
  | array a, array b => .ok (array (a.filter fun item => !b.any (equals item)))
  | left, right =>
    match left.number?, right.number? with
    | some a, some b => .ok (combine (· - ·) (· - ·) a b)
    | _, _ => mismatch "-" left right

/-- A text that many times over; none for zero times. -/
def repeated (text : String) (count : Int) : Value :=
  if count ≤ 0 then null else string (String.join (List.replicate count.toNat text))

def multiply (left right : Value) : Answer :=
  match left, right with
  | string text, integer count => .ok (repeated text count)
  | integer count, string text => .ok (repeated text count)
  | object a, object b => .ok (object (merge 128 a b))
  | left, right =>
    match left.number?, right.number? with
    | some a, some b => .ok (combine (· * ·) (· * ·) a b)
    | _, _ => mismatch "*" left right

/-- The pieces of a text between occurrences of another one; its characters, if that is empty. -/
def splitText (text separator : String) : List Value :=
  if separator.isEmpty then text.toList.map fun c => string (String.singleton c)
  else (text.splitOn separator).map string

def divide (left right : Value) : Answer :=
  match left, right with
  | string text, string separator => .ok (array (splitText text separator))
  | left, right =>
    match left.number?, right.number? with
    | some a, some b => .ok (.float (a.toFloat / b.toFloat))
    | _, _ => mismatch "/" left right

def floatRemainder (a b : Float) : Float :=
  let quotient := a / b
  let whole := if quotient < 0.0 then quotient.ceil else quotient.floor
  a - whole * b

def remainder (left right : Value) : Answer :=
  match left.number?, right.number? with
  | some (.integer a), some (.integer b) =>
    if b = 0 then mismatch "%" left right else .ok (integer (a.tmod b))
  | some a, some b => .ok (.float (floatRemainder a.toFloat b.toFloat))
  | _, _ => mismatch "%" left right

def calculate (op : ArithmeticOp) (left right : Value) : Answer :=
  match op with
  | .add => left.add right
  | .subtract => left.subtract right
  | .multiply => left.multiply right
  | .divide => left.divide right
  | .remainder => left.remainder right

def test (op : ComparisonOp) (left right : Value) : Bool :=
  match op with
  | .equal => left.order right == .eq
  | .different => left.order right != .eq
  | .less => left.order right == .lt
  | .atMost => left.order right != .gt
  | .greater => left.order right == .gt
  | .atLeast => left.order right != .lt

/-! ### Parts -/

/-- An index counts from the end when it is negative. -/
def position? (length : Nat) (index : Int) : Option Nat :=
  let position := if index < 0 then index + length else index
  if 0 ≤ position ∧ position < length then some position.toNat else none

def noIndex (value index : Value) : Except Value α :=
  fault ("cannot index " ++ value.text ++ " with " ++ index.text)

def get (value index : Value) : Answer :=
  match value, index with
  | array items, integer i => .ok (((position? items.length i).bind fun n => items[n]?).getD null)
  | object entries, string key => .ok ((Json.lookup key entries).getD null)
  | value, index => noIndex value index

def parts (value : Value) : Except Value (List Value) :=
  match value with
  | array items => .ok items
  | object entries => .ok (entries.map (·.2))
  | value => fault ("cannot use " ++ value.text ++ " as iterable")

/-- A bound of a slice; a missing one is where the list begins or ends. -/
def sliceBound (length missing : Nat) : Option Value → Except Value Nat
  | none => .ok missing
  | some (integer i) => .ok (if i < 0 then (i + length).toNat else min i.toNat length)
  | some value => fault ("cannot use " ++ value.text ++ " as integer")

def sliceOf (items : List α) (first last : Option Value) : Except Value (List α) := do
  let start ← sliceBound items.length 0 first
  let stop ← sliceBound items.length items.length last
  return (items.drop start).take (stop - start)

def slice (value : Value) (first last : Option Value) : Answer :=
  match value with
  | array items => (sliceOf items first last).map array
  | string text => (sliceOf text.toList first last).map fun cs => string (String.ofList cs)
  | value => fault ("cannot use " ++ value.text ++ " as range")

/-- Removes an entry; the last one takes its place. -/
def swapRemove (key : String) (entries : List (String × Value)) : List (String × Value) :=
  match entries.getLast? with
  | none => entries
  | some last =>
    if last.1 = key then entries.dropLast
    else entries.dropLast.map fun entry => if entry.1 = key then last else entry

/-- The first answer, if there is one and it is no error. -/
def firstAnswer : List Answer → Except Value (Option Value)
  | [] => .ok none
  | .ok value :: _ => .ok (some value)
  | .error error :: _ => .error error

/-- Changes the part under an index. No answer removes the part. -/
def changeAt (value index : Value) (change : Value → List Answer) : Answer :=
  match value, index with
  | object entries, string key => do
    let answer ← firstAnswer (change ((Json.lookup key entries).getD null))
    match answer with
    | some new => return object (Json.assign key new entries)
    | none => return object (if (Json.lookup key entries).isSome then swapRemove key entries else entries)
  | array items, integer i =>
    match position? items.length i with
    | none => fault ("index " ++ toString i ++ " out of bounds")
    | some n => do
      match ← firstAnswer (change ((items[n]?).getD null)) with
      | some new => return array (items.set n new)
      | none => return array (items.eraseIdx n)
  | value, index => noIndex value index

/-- Changes every part. An item of an array may become several. -/
def changeEach (value : Value) (change : Value → List Answer) : Answer :=
  match value with
  | array items => do
    let changed ← items.mapM fun item => (change item).mapM id
    return array changed.flatten
  | object entries => do
    let changed ← entries.mapM fun (key, part) => do
      return (← firstAnswer (change part)).map fun new => (key, new)
    return object (changed.filterMap id)
  | value => fault ("cannot use " ++ value.text ++ " as iterable")

/-- Changes the slice of an array. -/
def changeSlice (value : Value) (first last : Option Value) (change : Value → List Answer) :
    Answer :=
  match value with
  | array items => do
    let start ← sliceBound items.length 0 first
    let stop ← sliceBound items.length items.length last
    let middle := (items.drop start).take (stop - start)
    match ← firstAnswer (change (array middle)) with
    | some (array new) => return array (items.take start ++ new ++ items.drop (max start stop))
    | some other => fault ("cannot use " ++ other.text ++ " as array")
    | none => return array (items.take start ++ items.drop (max start stop))
  | value => fault ("cannot use " ++ value.text ++ " as array")

/-! ### Named operations -/

def negate (value : Value) : Answer :=
  match value with
  | integer i => .ok (fit (-i) (-(intFloat i)))
  | value =>
    match value.number? with
    | some operand => .ok (float (-operand.toFloat))
    | none => fault ("cannot use " ++ value.text ++ " as number")

/-- A string as it is, another value as its text. -/
def shown : Value → String
  | string text => text
  | value => value.text

def size (value : Value) : Answer :=
  match value with
  | null => .ok (integer 0)
  | integer i => .ok (integer i.natAbs)
  | float x => .ok (float x.abs)
  | decimal text => .ok (float (decimalFloat text).abs)
  | string text => .ok (integer text.length)
  | array items => .ok (integer items.length)
  | object entries => .ok (integer entries.length)
  | value => fault (value.text ++ " has no length")

def keys (value : Value) : Answer :=
  match value with
  | array items => .ok (array ((List.range items.length).map fun i : Nat => integer i))
  | object entries => .ok (array (entries.map fun entry => string entry.1))
  | value => fault (value.text ++ " has no keys")

def has (value key : Value) : Answer :=
  match value, key with
  | array items, integer i =>
    if 0 ≤ i then .ok (bool (i < items.length)) else noIndex value key
  | object entries, string key => .ok (bool (Json.lookup key entries).isSome)
  | value, key => noIndex value key

def reversed (value : Value) : Answer :=
  match value with
  | array items => .ok (array items.reverse)
  | value => fault ("cannot use " ++ value.text ++ " as array")

/-- Changes the characters of a string. -/
def mapText (change : Char → Char) (value : Value) : Answer :=
  match value with
  | string text => .ok (string (text.map change))
  | value => fault ("cannot use " ++ value.text ++ " as string")

def textTest (test : String → String → Bool) (value other : Value) : Answer :=
  match value, other with
  | string text, string part => .ok (bool (test text part))
  | value, _ => fault ("cannot use " ++ value.text ++ " as string")

/-- Sorts items by their keys. Items with equal keys keep their order. -/
def sortByKeys (pairs : List (Value × Value)) : List Value :=
  (pairs.mergeSort fun pair other => pair.1.atMost other.1).map (·.2)

/-- The values from `start` on, `step` apart, before `stop` is reached. -/
def progression (bound : Nat) (start stop step : Value) : List Answer :=
  match bound with
  | 0 => [fault "too many values"]
  | bound + 1 =>
    let goesOn : Bool :=
      match step.order (integer 0) with
      | .gt => start.order stop == .lt
      | .lt => start.order stop == .gt
      | .eq => start.order stop != .eq
    if goesOn then
      .ok start :: match start.add step with
        | .ok next => progression bound next stop step
        | .error error => [.error error]
    else []

end Value

end Conform.Filter
