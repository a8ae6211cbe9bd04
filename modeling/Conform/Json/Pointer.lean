import Conform.Json.Basic

/-! Pointers, which select a part of a document: `/items/0/name`. -/

namespace Conform.Json

/-- A step as the document has it: `~1` stands for a slash, and `~0` for a tilde. -/
def pointerStep : List Char → List Char
  | '~' :: '1' :: rest => '/' :: pointerStep rest
  | '~' :: '0' :: rest => '~' :: pointerStep rest
  | c :: rest => c :: pointerStep rest
  | [] => []

/-- An index has no sign and no leading zero. -/
def pointerIndex? (step : List Char) : Option Nat :=
  if step.isEmpty || !step.all Char.isDigit || (step.head? == some '0' && step.length != 1) then none
  else some (step.foldl (fun value c => 10 * value + (c.toNat - '0'.toNat)) 0)

def part? (step : List Char) : Json → Option Json
  | object entries => lookup (String.ofList step) entries
  | array items => (pointerIndex? step).bind fun index => items[index]?
  | _ => none

/-- The part that a pointer selects. The empty pointer selects the whole document. -/
def select? (pointer : List Char) (document : Json) : Option Json :=
  match pointer with
  | [] => some document
  | '/' :: rest =>
    (rest.splitOn '/').foldlM (fun value step => part? (pointerStep step) value) document
  | _ => none

end Conform.Json
