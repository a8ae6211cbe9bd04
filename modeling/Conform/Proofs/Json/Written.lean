import Conform.Json.Writer
import Mathlib.Tactic.SplitIfs

/-!
What is written stays on one line: whatever control characters a document has, its text has none.
-/

namespace Conform

def Printable (text : List Char) : Prop :=
  ∀ c ∈ text, 0x20 ≤ c.toNat

instance (text : List Char) : Decidable (Printable text) :=
  decidable_of_iff (text.all fun c => 0x20 ≤ c.toNat) (by simp [Printable])

namespace Printable

variable {text rest : List Char}

theorem append (first : Printable text) (second : Printable rest) : Printable (text ++ rest) :=
  List.forall_mem_append.mpr ⟨first, second⟩

theorem newline_not_mem (printable : Printable text) : '\n' ∉ text := by
  intro member
  have bound := printable '\n' member
  revert bound
  decide

theorem sublist (printable : Printable text) (part : rest.Sublist text) : Printable rest :=
  fun c member => printable c (part.mem member)

theorem replicate (count : Nat) : Printable (List.replicate count '0') := by
  intro c member
  rw [List.eq_of_mem_replicate member]
  decide

theorem intercalate {parts : List (List Char)} (printable : ∀ part ∈ parts, Printable part) :
    Printable ([','].intercalate parts) := by
  induction parts with
  | nil => simp [Printable]
  | cons part parts ih =>
      obtain ⟨first, others⟩ := List.forall_mem_cons.mp printable
      by_cases none_ : parts = []
      · rwa [none_, List.intercalate_singleton]
      · rw [List.intercalate_cons_of_ne_nil none_]
        exact (first.append (by decide)).append (ih others)

end Printable

namespace Json

/-! ## Strings and numbers -/

theorem printable_escape (c : Char) : Printable (escape c) := by
  have digits : ∀ value < 16, 0x20 ≤ (hexDigit value).toNat := by decide
  unfold escape
  iterate 7
    split
    · decide
  split
  next control =>
    have bounds := And.intro (digits (c.toNat / 16) (by omega)) (digits (c.toNat % 16) (by omega))
    have front : Printable ['\\', 'u', '0', '0'] := by decide
    exact front.append (by simpa [Printable] using bounds)
  next control => simpa [Printable] using control

theorem printable_quote (text : String) : Printable (quote text).toList := by
  have inside : Printable (text.toList.flatMap escape) := by
    intro c member
    obtain ⟨d, _, written⟩ := List.mem_flatMap.mp member
    exact printable_escape d c written
  simp only [quote, String.toList_append, String.toList_ofList]
  exact (Printable.append (by decide) inside).append (by decide)

theorem printable_nat (number : Nat) : Printable (toString number).toList := by
  intro c member
  have digit : c.isDigit := by
    refine Nat.isDigit_of_mem_toDigits (b := 10) (n := number) (by decide) (by decide) ?_
    simpa [toString, Nat.repr] using member
  simp only [Char.isDigit, Bool.and_eq_true, decide_eq_true_eq] at digit
  have bound : '0'.toNat ≤ c.toNat := digit.1
  exact Nat.le_trans (by decide) bound

theorem printable_int (number : Int) : Printable (toString number).toList := by
  cases number with
  | ofNat number => exact printable_nat number
  | negSucc number =>
      have sign : Printable ['-'] := by decide
      have text : (toString (Int.negSucc number)).toList = ['-'] ++ (toString (number + 1)).toList := by
        simp [toString, Int.repr]
      rw [text]
      exact sign.append (printable_nat (number + 1))

end Json

namespace Decimal

theorem Scientific.printable_text (number : Scientific) : Printable number.text.toList := by
  have digits := Json.printable_nat number.digits
  have front (count : Nat) := digits.sublist (List.take_sublist count _)
  have back (count : Nat) := digits.sublist (List.drop_sublist count _)
  have point : Printable ".".toList := by decide
  have nothing : Printable "0.".toList := by decide
  have mark : Printable "e".toList := by decide
  unfold text
  dsimp only
  split_ifs
  all_goals simp only [String.toList_append, String.toList_ofList]
  · exact (digits.append (.replicate _)).append (by decide)
  · exact ((front _).append point).append (back _)
  · exact (nothing.append (.replicate _)).append digits
  · exact (((front 1).append (by decide)).append mark).append (Json.printable_int _)
  · exact (((front 1).append (point.append (back 1))).append mark).append (Json.printable_int _)

theorem printable_binary64Text (bits : UInt64) : Printable (binary64Text bits).toList := by
  unfold binary64Text
  dsimp only
  rw [String.toList_append]
  refine Printable.append ?sign ?magnitude
  case sign => split <;> decide
  case magnitude =>
    split
    next => decide
    next => exact Scientific.printable_text _

end Decimal

namespace Json

theorem printable_number (number : JsonNumber) : Printable (numberText number).toList := by
  cases number with
  | integer value => exact printable_int value
  | float bits =>
      rw [numberText]
      split
      next => decide
      next => exact Decimal.printable_binary64Text bits

/-! ## Values -/

theorem write_object_cons_cons (key key' : String) (value value' : Json) (rest : List (String × Json)) :
    ∃ tail, (object ((key, value) :: (key', value') :: rest)).write.toList =
      '{' :: ((quote key).toList ++ ':' :: (value.write.toList ++ ',' :: ((quote key').toList ++
        ':' :: (value'.write.toList ++ tail)))) := by
  cases others : writeEntries rest with
  | nil => exact ⟨['}'], by simp [write, writeEntries, others]⟩
  | cons text texts =>
      exact ⟨',' :: ((",".intercalate (text :: texts)).toList ++ ['}']), by simp [write, writeEntries, others]⟩

mutual

theorem printable_write : (value : Json) → Printable value.write.toList
  | null => by decide
  | bool true => by decide
  | bool false => by decide
  | number value => by
      rw [write]
      exact printable_number value
  | string text => by
      rw [write]
      exact printable_quote text
  | array items => by
      rw [write]
      simp only [String.toList_append, String.toList_intercalate]
      exact (Printable.append (by decide) (.intercalate (printable_writeItems items))).append (by decide)
  | object entries => by
      rw [write]
      simp only [String.toList_append, String.toList_intercalate]
      exact (Printable.append (by decide) (.intercalate (printable_writeEntries entries))).append (by decide)

theorem printable_writeItems : (items : List Json) → ∀ text ∈ (writeItems items).map String.toList, Printable text
  | [] => by simp [writeItems]
  | item :: rest => by
      rw [writeItems, List.map_cons, List.forall_mem_cons]
      exact ⟨printable_write item, printable_writeItems rest⟩

theorem printable_writeEntries :
    (entries : List (String × Json)) → ∀ text ∈ (writeEntries entries).map String.toList, Printable text
  | [] => by simp [writeEntries]
  | (key, value) :: rest => by
      rw [writeEntries, List.map_cons, List.forall_mem_cons, String.toList_append, String.toList_append]
      exact ⟨((printable_quote key).append (by decide)).append (printable_write value), printable_writeEntries rest⟩

end

end Json

end Conform
