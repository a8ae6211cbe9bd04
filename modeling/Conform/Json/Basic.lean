/-!
JSON values. An object keeps the order of its document; writing a key again changes the value in
its first place.
-/

namespace Conform

/-- A number is an integer of 64 bits, signed or not, or a binary64 number given by its bits. -/
inductive JsonNumber where
  | integer (value : Int)
  | float (bits : UInt64)
deriving DecidableEq, Repr

inductive Json where
  | null
  | bool (value : Bool)
  | number (value : JsonNumber)
  | string (text : String)
  | array (items : List Json)
  | object (entries : List (String × Json))
deriving Inhabited, Repr

namespace Json

def lookup (key : String) (entries : List (String × α)) : Option α :=
  (entries.find? fun entry => entry.1 == key).map (·.2)

/-- Gives `key` the value, in its first place or at the end. -/
def assign (key : String) (value : α) : List (String × α) → List (String × α)
  | [] => [(key, value)]
  | entry :: rest =>
    if entry.1 == key then (key, value) :: rest else entry :: assign key value rest

/-- The entries in order, each key once. -/
def entriesOf (pairs : List (String × α)) : List (String × α) :=
  pairs.foldl (fun entries (key, value) => assign key value entries) []

mutual

/-- How deeply arrays and objects nest. -/
def depth : Json → Nat
  | array items => depthItems items + 1
  | object entries => depthEntries entries + 1
  | _ => 0

def depthItems : List Json → Nat
  | [] => 0
  | item :: rest => max item.depth (depthItems rest)

def depthEntries : List (String × Json) → Nat
  | [] => 0
  | (_, value) :: rest => max value.depth (depthEntries rest)

end

end Json

end Conform
