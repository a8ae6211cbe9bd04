import Conform.Proofs.Json.Leaves
import Conform.Text.Blank

/-!
A document is the same with a carriage return at its end and without: what can follow a value is white space, and no
part of a value can hold the return.
-/

namespace Conform.Json

section Parts

variable {cursor : Cursor}

/-! ## Joints -/

theorem agrees_readListJoint {first : Bool} :
    Agrees (fun result result' => Read cursor 0 result result' ∧ (result.1 = false → result'.2.next? = some ']'))
      (readListJoint first cursor.returned) (readListJoint first cursor) := by
  unfold readListJoint
  dsimp only
  rcases cursor.skip_cases with ⟨none_, none_'⟩ | ⟨same, c, here⟩
  · rw [none_, none_']
    exact .error
  · have skipped := cursor.length_skipSpaces
    obtain ⟨onward, length⟩ := Cursor.advance_returned here
    rw [same, Cursor.next?_returned_of_next here, here, onward]
    dsimp only
    split
    next closing => exact .ok ⟨⟨rfl, rfl, skipped⟩, fun _ => closing ▸ here⟩
    next =>
      split
      next => exact .ok ⟨⟨rfl, rfl, skipped⟩, (absurd · (by simp))⟩
      next =>
        split
        next =>
          rcases cursor.skipSpaces.advance.skip_cases with ⟨none_, none_'⟩ | ⟨same', d, here'⟩
          · rw [none_, none_']
            exact .error
          · have skipped' := cursor.skipSpaces.advance.length_skipSpaces
            have further : cursor.skipSpaces.advance.skipSpaces.rest.length ≤ cursor.rest.length := by omega
            rw [same', Cursor.next?_returned_of_next here', here']
            dsimp only
            split
            next => exact .error
            next => exact .ok ⟨⟨rfl, rfl, further⟩, (absurd · (by simp))⟩
        next => exact .error

theorem agrees_readColon : Agrees (Moved cursor 0) (readColon cursor.returned) (readColon cursor) := by
  unfold readColon
  dsimp only
  rcases cursor.skip_cases with ⟨none_, none_'⟩ | ⟨same, c, here⟩
  · rw [none_, none_']
    exact .error
  · have skipped := cursor.length_skipSpaces
    obtain ⟨onward, length⟩ := Cursor.advance_returned here
    rw [same, Cursor.next?_returned_of_next here, here, onward]
    dsimp only
    split
    next => exact .ok ⟨rfl, by omega⟩
    next => exact .error

theorem agrees_readKey {first : Bool} :
    Agrees (fun result result' => Read cursor 0 result result' ∧ (result.1 = none → result'.2.next? = some '}'))
      (readKey first cursor.returned) (readKey first cursor) := by
  have key {cursor' : Cursor} (enough : cursor'.rest.length ≤ cursor.rest.length) :
      Agrees (fun result result' => Read cursor 0 result result' ∧ (result.1 = none → result'.2.next? = some '}'))
        (do let found ← readString cursor'.returned; return (some found.1, found.2))
        (do let found ← readString cursor'; return (some found.1, found.2)) :=
    agrees_readString.bindRead fun key left shorter =>
      have further : left.rest.length ≤ cursor.rest.length := by omega
      .ok ⟨⟨rfl, rfl, further⟩, (absurd · (by simp))⟩
  unfold readKey
  dsimp only
  rcases cursor.skip_cases with ⟨none_, none_'⟩ | ⟨same, c, here⟩
  · rw [none_, none_']
    exact .error
  · have skipped := cursor.length_skipSpaces
    obtain ⟨onward, length⟩ := Cursor.advance_returned here
    rw [same, Cursor.next?_returned_of_next here, here, onward]
    dsimp only
    split
    next closing => exact .ok ⟨⟨rfl, rfl, skipped⟩, fun _ => closing ▸ here⟩
    next =>
      split
      next =>
        split
        next => exact key (by omega)
        next => exact .error
      next =>
        split
        next =>
          rcases cursor.skipSpaces.advance.skip_cases with ⟨none_, none_'⟩ | ⟨same', d, here'⟩
          · rw [none_, none_']
            exact .error
          · have skipped' := cursor.skipSpaces.advance.length_skipSpaces
            obtain ⟨onward', length'⟩ := Cursor.advance_returned here'
            rw [same', Cursor.next?_returned_of_next here', here', onward']
            dsimp only
            split
            next => exact key (by omega)
            next =>
              split
              next => exact .error
              next => exact .error
        next => exact .error

/-! ## Values -/

theorem readScalar?_eq {c : Char} (next : cursor.next? = some c) : readScalar? cursor =
    if c = 'n' then some do return (.null, ← readWord cursor.advance "ull".toList)
    else if c = 't' then some do return (.bool true, ← readWord cursor.advance "rue".toList)
    else if c = 'f' then some do return (.bool false, ← readWord cursor.advance "alse".toList)
    else if c = '"' then some do
      let (text, cursor) ← readString cursor.advance
      return (.string text, cursor)
    else if c = '-' then some do
      let (value, cursor) ← readNumber false cursor.advance
      return (.number value, cursor)
    else if c.isDigit then some do
      let (value, cursor) ← readNumber true cursor
      return (.number value, cursor)
    else none := by
  rw [readScalar?, next]
  split
  all_goals simp_all

theorem agrees_readScalar? {c : Char} (next : cursor.next? = some c) :
    (readScalar? cursor.returned = none ∧ readScalar? cursor = none) ∨
      ∃ answer answer', readScalar? cursor.returned = some answer ∧ readScalar? cursor = some answer' ∧
        Agrees (Read cursor 1) answer answer' := by
  obtain ⟨onward, length⟩ := Cursor.advance_returned next
  have word {word : List Char} (plain : '\r' ∉ word) (constant : Json) : Agrees (Read cursor 1)
      (do return (constant, ← readWord cursor.advance.returned word))
      (do return (constant, ← readWord cursor.advance word)) :=
    (agrees_readWord plain).bindMoved fun left shorter => .read (by omega)
  rw [readScalar?_eq (Cursor.next?_returned_of_next next), readScalar?_eq next, onward]
  split_ifs
  · exact .inr ⟨_, _, rfl, rfl, word (by decide) .null⟩
  · exact .inr ⟨_, _, rfl, rfl, word (by decide) (.bool true)⟩
  · exact .inr ⟨_, _, rfl, rfl, word (by decide) (.bool false)⟩
  · exact .inr ⟨_, _, rfl, rfl, agrees_readString.bindRead fun text left shorter => .read (by omega)⟩
  · exact .inr ⟨_, _, rfl, rfl, agrees_readNumber.bindRead fun number left shorter => .read (by omega)⟩
  · exact .inr ⟨_, _, rfl, rfl, agrees_readNumber.bindRead fun number left shorter => .read (by omega)⟩
  · exact .inl ⟨rfl, rfl⟩

end Parts

theorem readValue_scalar {bound depth : Nat} {cursor : Cursor} {answer : Reading (Json × Cursor)}
    (scalar : readScalar? cursor.skipSpaces = some answer) : readValue bound depth cursor = answer := by
  rw [readValue.eq_def]
  dsimp only
  rw [scalar]

theorem readValue_succ {bound depth : Nat} {cursor : Cursor} {c : Char}
    (scalar : readScalar? cursor.skipSpaces = none) (next : cursor.skipSpaces.next? = some c) :
    readValue (bound + 1) depth cursor =
      if c = '[' then
        if depth ≤ 1 then cursor.skipSpaces.failNext .tooDeep
        else do
          let (items, cursor) ← readItems bound (depth - 1) true cursor.skipSpaces.advance
          return (.array items, cursor)
      else if c = '{' then
        if depth ≤ 1 then cursor.skipSpaces.failNext .tooDeep
        else do
          let (entries, cursor) ← readEntries bound (depth - 1) true cursor.skipSpaces.advance
          return (.object (entriesOf entries), cursor)
      else cursor.skipSpaces.failNext .expectedValue := by
  rw [readValue.eq_def]
  dsimp only
  rw [scalar, next]
  by_cases opens : c = '['
  · subst opens
    rfl
  · by_cases opens' : c = '{'
    · subst opens'
      rfl
    · rw [if_neg opens, if_neg opens']
      dsimp only
      split
      all_goals simp_all

theorem readValue_end (bound depth : Nat) {cursor : Cursor} (none_ : cursor.skipSpaces.next? = none) :
    ∃ error, readValue bound depth cursor = .error error := by
  have scalar : readScalar? cursor.skipSpaces = none := by rw [readScalar?, none_]
  rw [readValue.eq_def]
  dsimp only
  rw [scalar]
  cases bound with
  | zero => exact ⟨_, rfl⟩
  | succ bound =>
      rw [none_]
      exact ⟨_, rfl⟩

mutual

theorem agrees_readValue : (bound : Nat) → {bound' depth : Nat} → {cursor : Cursor} →
    2 * cursor.rest.length ≤ bound → 2 * cursor.rest.length ≤ bound' →
      Agrees (Read cursor 1) (readValue bound depth cursor.returned) (readValue bound' depth cursor) := by
  intro bound bound' depth cursor enough enough'
  have skipped := cursor.length_skipSpaces
  rcases cursor.skip_cases with ⟨none_, none_'⟩ | ⟨same, c, here⟩
  · obtain ⟨error, failed⟩ := readValue_end bound depth none_'
    obtain ⟨error', failed'⟩ := readValue_end bound' depth none_
    rw [failed, failed']
    exact .error
  · obtain ⟨onward, length⟩ := Cursor.advance_returned here
    rcases agrees_readScalar? here with ⟨none_, none_'⟩ | ⟨answer, answer', scalar, scalar', agrees⟩
    · have here' := Cursor.next?_returned_of_next here
      obtain ⟨bound', rfl⟩ : ∃ count, bound' = count + 1 := Nat.exists_eq_succ_of_ne_zero (by omega)
      cases bound with
      | zero => omega
      | succ bound =>
          rw [← same] at none_ here'
          rw [readValue_succ none_ here', readValue_succ none_' here, same, onward]
          split
          next =>
            split
            next => exact .error
            next =>
              refine (agrees_readItems bound (by omega) (by omega)).bindRead fun items left shorter => ?_
              exact .read (by omega)
          next =>
            split
            next =>
              split
              next => exact .error
              next =>
                refine (agrees_readEntries bound (by omega) (by omega)).bindRead fun entries left shorter => ?_
                exact .read (by omega)
            next => exact .error
    · rw [← same] at scalar
      rw [readValue_scalar scalar, readValue_scalar scalar']
      exact agrees.behind (by omega)

theorem agrees_readItems : (bound : Nat) → {bound' depth : Nat} → {first : Bool} → {cursor : Cursor} →
    2 * cursor.rest.length + 1 ≤ bound → 2 * cursor.rest.length + 1 ≤ bound' →
      Agrees (Read cursor 0) (readItems bound depth first cursor.returned) (readItems bound' depth first cursor)
  | 0, _, _, _, _, enough, _ => absurd enough (Nat.not_succ_le_zero _)
  | bound + 1, bound', depth, first, cursor, enough, enough' => by
      obtain ⟨bound', rfl⟩ : ∃ count, bound' = count + 1 := Nat.exists_eq_succ_of_ne_zero (by omega)
      rw [readItems, readItems]
      refine agrees_readListJoint.bind ?_
      rintro ⟨more, after⟩ ⟨more', left⟩ ⟨⟨sameMore, moved, shorter⟩, ends⟩
      dsimp only at sameMore moved shorter ends ⊢
      subst sameMore moved
      split
      next =>
        refine (agrees_readValue bound (by omega) (by omega)).bindRead fun item behind further => ?_
        refine (agrees_readItems bound (by omega) (by omega)).bindRead fun rest after further' => ?_
        exact .read (by omega)
      next none_ =>
        obtain ⟨onward, length⟩ := Cursor.advance_returned (ends (eq_false_of_ne_true none_))
        rw [onward]
        exact .read (by omega)

theorem agrees_readEntries : (bound : Nat) → {bound' depth : Nat} → {first : Bool} → {cursor : Cursor} →
    2 * cursor.rest.length + 1 ≤ bound → 2 * cursor.rest.length + 1 ≤ bound' →
      Agrees (Read cursor 0) (readEntries bound depth first cursor.returned) (readEntries bound' depth first cursor)
  | 0, _, _, _, _, enough, _ => absurd enough (Nat.not_succ_le_zero _)
  | bound + 1, bound', depth, first, cursor, enough, enough' => by
      obtain ⟨bound', rfl⟩ : ∃ count, bound' = count + 1 := Nat.exists_eq_succ_of_ne_zero (by omega)
      rw [readEntries, readEntries]
      refine agrees_readKey.bind ?_
      rintro ⟨key, after⟩ ⟨key', left⟩ ⟨⟨sameKey, moved, shorter⟩, ends⟩
      dsimp only at sameKey moved shorter ends ⊢
      subst sameKey moved
      cases key with
      | none =>
          obtain ⟨onward, length⟩ := Cursor.advance_returned (ends rfl)
          dsimp only
          rw [onward]
          exact .read (by omega)
      | some key =>
          refine agrees_readColon.bindMoved fun colon further => ?_
          refine (agrees_readValue bound (by omega) (by omega)).bindRead fun value behind further' => ?_
          refine (agrees_readEntries bound (by omega) (by omega)).bindRead fun rest after further'' => ?_
          exact .read (by omega)

end

/-- A text is the same document with a carriage return at its end and without. -/
theorem agrees_read (text : List Char) : Agrees (· = ·) (read (text ++ ['\r'])) (read text) := by
  have length : (text ++ ['\r']).length = text.length + 1 := List.length_append
  have enough : 2 * (Cursor.ofText text).rest.length ≤ 2 * (text ++ ['\r']).length + 2 := by
    show 2 * text.length ≤ _
    omega
  unfold read readNested
  refine (agrees_readValue _ enough (Nat.le_add_right _ 2)).bindRead fun value left shorter => ?_
  rcases left.skip_cases with ⟨none_, none_'⟩ | ⟨same, c, here⟩
  · rw [Cursor.next?, List.head?_eq_none_iff] at none_ none_'
    dsimp only
    rw [none_, none_']
    exact .ok rfl
  · obtain ⟨rest, here⟩ := List.head?_eq_some_iff.mp here
    dsimp only
    rw [same, Cursor.returned, here]
    exact .error

theorem read_return_eq_ok {text : List Char} {value : Json} :
    read (text ++ ['\r']) = .ok value ↔ read text = .ok value := by
  have agrees := agrees_read text
  generalize read (text ++ ['\r']) = answer, read text = answer' at agrees
  cases agrees with
  | ok same => rw [same]
  | error => simp

/-- White space alone is no document. -/
theorem exists_visible_of_read {text : List Char} {value : Json} (read_ : read text = .ok value) :
    ∃ c ∈ text, Text.isBlank c = false := by
  by_contra none_
  have blank : ∀ c ∈ text, Text.isBlank c := by simpa using none_
  have failed : ∃ error, readValue (2 * text.length + 2) depthLimit (.ofText text) = .error error := by
    cases next : (Cursor.ofText text).skipSpaces.next? with
    | none => exact readValue_end _ _ next
    | some c =>
        have among : c ∈ text := by
          rw [Cursor.skipSpaces, Cursor.next?, Cursor.rest_advanceBy] at next
          exact (List.drop_sublist _ _).mem (List.mem_of_mem_head? next)
        have marks : ∀ mark ∈ ['n', 't', 'f', '"', '-', '[', '\x7b'], Text.isBlank mark = false := by simp [Text.isBlank]
        have other {mark : Char} (member : mark ∈ ['n', 't', 'f', '"', '-', '[', '\x7b']) : c ≠ mark := by
          rintro rfl
          exact absurd (blank c among) (by simp [marks c member])
        have digit : c.isDigit = false := by
          refine eq_false_of_ne_true fun digit => ?_
          have bounds : 48 ≤ c.toNat ∧ c.toNat ≤ 57 := by
            simpa [Char.isDigit, UInt32.le_iff_toNat_le] using digit
          have white := blank c among
          simp only [Text.isBlank, Bool.or_eq_true, Bool.and_eq_true, decide_eq_true_eq, beq_iff_eq] at white
          omega
        have scalar : readScalar? (Cursor.ofText text).skipSpaces = none := by
          rw [readScalar?_eq next]
          simp [other, digit]
        rw [readValue_succ scalar next, if_neg (other (by simp)), if_neg (other (by simp))]
        exact ⟨_, rfl⟩
  obtain ⟨error, failed⟩ := failed
  rw [read, readNested, failed] at read_
  cases read_

end Conform.Json
