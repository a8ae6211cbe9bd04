import Conform.Proofs.Expr.Length
import Conform.Proofs.Text.Squeezed

/-! No type expression ends with an operator. -/

namespace Conform

open Text

namespace Expr

def isOperator (c : Char) : Bool :=
  (Connective.ofChar? c).isSome

theorem isOperator_iff {c : Char} : isOperator c ↔ c = '&' ∨ c = '|' := by
  simp only [isOperator, Connective.ofChar?]
  split
  · simp_all
  · split <;> simp_all

theorem isBlank_of_isOperator {c : Char} (operator : isOperator c) : isBlank c = false := by
  rcases isOperator_iff.mp operator with rfl | rfl <;> rfl

theorem isBlank_of_isQuote {c : Char} (opens : isQuote c) : isBlank c = false := by
  have mark : c = '\'' ∨ c = '"' := by simpa [isQuote] using opens
  rcases mark with rfl | rfl <;> rfl

theorem Nesting.after?_blank (nesting : Nesting) {c : Char} (blank : isBlank c) :
    nesting.after? c = some nesting := by
  unfold Nesting.after?
  split
  all_goals first | rfl | simp [isBlank] at blank

theorem Nesting.after?_cases {nesting inner : Nesting} {c : Char} (after : nesting.after? c = some inner) :
    (c = '(' ∧ inner = { nesting with round := nesting.round + 1 }) ∨
      (c = '{' ∧ inner = { nesting with curly := nesting.curly + 1 }) ∨
      (c = '<' ∧ inner = { nesting with angle := nesting.angle + 1 }) ∨
      (c = ')' ∧ nesting.round ≠ 0 ∧ inner = { nesting with round := nesting.round - 1 }) ∨
      (c = '}' ∧ nesting.curly ≠ 0 ∧ inner = { nesting with curly := nesting.curly - 1 }) ∨
      (c = '>' ∧ nesting.angle ≠ 0 ∧ inner = { nesting with angle := nesting.angle - 1 }) ∨
      (c ∉ ['(', '{', '<', ')', '}', '>'] ∧ inner = nesting) := by
  unfold Nesting.after? at after
  split at after
  all_goals grind

theorem isQuote_of_isOperator {c : Char} (operator : isOperator c) : isQuote c = false := by
  rcases isOperator_iff.mp operator with rfl | rfl <;> rfl

theorem bare_nil : bare [] = [] :=
  List.eq_nil_of_length_eq_zero (Nat.le_zero.mp (length_bare []))

theorem getLast?_untilClose? {depth : Nat} {quote : Option Char} {text inner : List Char}
    (found : untilClose? depth quote text = some inner) : text.getLast? = some ')' := by
  induction text generalizing depth quote inner with
  | nil => simp [untilClose?] at found
  | cons c rest ih =>
      have later {depth : Nat} {quote : Option Char}
          (found : (untilClose? depth quote rest).map (c :: ·) = some inner) :
          (c :: rest).getLast? = some ')' := by
        obtain ⟨inner, found, _⟩ := Option.map_eq_some_iff.mp found
        have last := ih found
        cases rest with
        | nil => simp at last
        | cons d rest => exact last
      simp only [untilClose?] at found
      split at found
      · exact later found
      · split at found
        · exact later found
        · split at found
          · rename_i closes
            split at found
            · split at found
              · rename_i none_
                simp [List.isEmpty_iff.mp none_, closes]
              · cases found
            · exact later found
          · exact later found

variable {operator : Char} (ends : isOperator operator)

include ends

theorem getLast?_trim {text : List Char} (last : text.getLast? = some operator) :
    (trim text).getLast? = some operator := by
  obtain ⟨before, after, blank, parts⟩ := exists_trim text
  have visible := isBlank_of_isOperator ends
  have none_ : after = [] := by
    by_contra some_
    rw [parts, List.getLast?_append_of_ne_nil _ some_] at last
    have spaces := blank operator (List.mem_append_right _ (List.mem_of_getLast? last))
    simp [visible] at spaces
  have some_ : trim text ≠ [] := by
    intro empty
    rw [parts, empty, none_, List.append_nil, List.append_nil] at last
    have spaces := blank operator (List.mem_append_left _ (List.mem_of_getLast? last))
    simp [visible] at spaces
  rw [parts, none_, List.append_nil, List.getLast?_append_of_ne_nil _ some_] at last
  exact last

theorem getLast?_trimParens {text : List Char} (last : text.getLast? = some operator) :
    (trimParens text).getLast? = some operator := by
  have trimmed := getLast?_trim ends last
  unfold trimParens
  split
  · rename_i inner found
    unfold wrapped? at found
    split at found
    · rename_i rest starts
      have closes := getLast?_untilClose? found
      rw [starts] at trimmed
      cases rest with
      | nil => simp at closes
      | cons c rest =>
          rw [List.getLast?_cons_cons, closes] at trimmed
          obtain rfl := Option.some.inj trimmed
          cases ends
    · cases found
  · exact trimmed

theorem getLast?_bare {text : List Char} (last : text.getLast? = some operator) :
    bare text = [] ∨ (bare text).getLast? = some operator := by
  fun_induction bare text with
  | case1 => exact .inl rfl
  | case2 text c rest found joins ih =>
      have last := getLast?_trimParens ends last
      rw [found] at last
      cases rest with
      | nil => exact .inl bare_nil
      | cons d rest => exact ih (by simpa using last)
  | case3 text c rest found inner =>
      have last := getLast?_trimParens ends last
      rw [found] at last
      exact .inr last

theorem cutFrom?_concat {nesting : Nesting} {quote : Option Char} {text : List Char} {cut : Cut}
    (opened : ∀ c ∈ quote, isQuote c) (found : cutFrom? nesting quote (text ++ [operator]) = some cut) :
    ∃ connective, (connective, []) ∈ cut.rest := by
  have unquoted := isQuote_of_isOperator ends
  induction text generalizing nesting quote cut with
  | nil =>
      cases quote with
      | some quote =>
          have other : operator ≠ quote := by
            rintro rfl
            simp [opened operator rfl] at unquoted
          simp [cutFrom?, quoteAfter, other] at found
      | none =>
          have after : nesting.after? operator = some nesting := by
            rcases isOperator_iff.mp ends with rfl | rfl <;> rfl
          obtain ⟨connective, joins⟩ := Option.isSome_iff_exists.mp ends
          simp only [List.nil_append, cutFrom?, unquoted, Option.isSome_none, Bool.or_self,
            Bool.false_eq_true, if_false, after, joins] at found
          by_cases outside : nesting = {}
          · simp only [outside, if_true] at found
            cases found
            exact ⟨connective, List.mem_cons_self⟩
          · simp [outside] at found
  | cons c text ih =>
      simp only [List.cons_append, cutFrom?] at found
      split at found
      · obtain ⟨inner, found', rfl⟩ := Option.map_eq_some_iff.mp found
        change ∃ connective, (connective, []) ∈ inner.rest
        refine ih (fun d open_ => ?_) found'
        cases quote with
        | none =>
            simp only [quoteAfter] at open_
            split at open_
            · rename_i opens
              exact Option.mem_some.mp open_ ▸ opens
            · cases open_
        | some quote =>
            simp only [quoteAfter] at open_
            split at open_
            · cases open_
            · exact opened d open_
      · split at found
        · cases found
        · split at found
          · obtain ⟨inner, found', rfl⟩ := Option.map_eq_some_iff.mp found
            obtain ⟨connective, empty⟩ := ih (by simp) found'
            exact ⟨connective, List.mem_cons_of_mem _ empty⟩
          · obtain ⟨inner, found', rfl⟩ := Option.map_eq_some_iff.mp found
            change ∃ connective, (connective, []) ∈ inner.rest
            exact ih (by simp) found'

theorem shape_concat {text : List Char} {found : Shape} (read : shape (text ++ [operator]) = .ok found) :
    found = .group := by
  unfold shape at read
  split at read
  · cases read
  · split at read
    · cases read
    · rename_i cut cutting
      obtain ⟨connective, empty⟩ := cutFrom?_concat ends (by simp) cutting
      have some_ : cut.rest ≠ [] := List.ne_nil_of_mem empty
      rw [if_pos (by simpa using some_)] at read
      exact (Except.ok.inj read).symm

theorem tokens_concat (text : List Char) : ∃ fault, tokens (text ++ [operator]) = .error fault := by
  unfold tokens
  split
  · exact ⟨_, rfl⟩
  · rename_i cut cutting
    obtain ⟨connective, empty⟩ := cutFrom?_concat ends (by simp) cutting
    dsimp only
    rw [if_pos]
    · exact ⟨_, rfl⟩
    · refine Bool.or_eq_true_iff.mpr (.inr (List.any_eq_true.mpr ?_))
      exact ⟨(connective, trim []), List.mem_map.mpr ⟨_, empty, rfl⟩, rfl⟩

end Expr

namespace Form

open Conform.Expr

variable {text : List Char} {form : Form} (read : Form.read text = .ok form)

include read

theorem ne_nil_of_read : stripComments text ≠ [] := by
  intro empty
  rw [Form.read, empty, bare_nil] at read
  cases read

theorem isOperator_of_read : ∀ c ∈ (stripComments text).getLast?, isOperator c = false := by
  intro c last
  by_contra operator
  have ends : isOperator c := by simpa using operator
  unfold Form.read Form.ofBare at read
  rcases getLast?_bare ends last with none_ | last
  · rw [none_] at read
    cases read
  · generalize Expr.bare (stripComments text) = expr at read last
    obtain ⟨front, rfl⟩ := List.getLast?_eq_some_iff.mp last
    cases shaped : shape (front ++ [c]) with
    | error fault =>
        rw [shaped] at read
        cases read
    | ok found =>
        obtain rfl := shape_concat ends shaped
        obtain ⟨fault, failed⟩ := tokens_concat ends front
        rw [shaped] at read
        change (Expr.tokens (front ++ [c])).bind _ = _ at read
        rw [failed] at read
        cases read

end Form

end Conform
