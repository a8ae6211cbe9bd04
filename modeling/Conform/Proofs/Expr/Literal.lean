import Conform.Proofs.Expr.Union

/-!
The forms of expressions that hold a literal: by itself, as the element of an array, and as an operand
of a union. No scanner looks into a literal, so nothing but white space in it matters.
-/

namespace Conform

open Conform.Text Conform.Expr

namespace Expr

variable {quote : Char} {text before after : List Char}

theorem inner_of_literal (isLiteral : IsLiteral quote text) : quote ≠ '(' ∧ isOperator quote = false := by
  rcases isQuote_cases isLiteral.opens with rfl | rfl <;> decide

theorem trimmed_literal (isLiteral : IsLiteral quote text) : Trimmed (literal quote text) where
  starts c head := by
    cases head
    exact isLiteral.visible
  ends c last := by
    rw [getLast?_literal] at last
    cases last
    exact isLiteral.visible

theorem bare_literal (isLiteral : IsLiteral quote text) : bare (literal quote text) = literal quote text :=
  bare_eq (trimmed_literal isLiteral).trim_eq (wrapped?_cons (inner_of_literal isLiteral).1 _) fun c head => by
    cases head
    exact (inner_of_literal isLiteral).2

theorem element?_of_or {whole inner : List Char}
    (found : (suffixedElement? whole).or (genericElement? whole) = some inner) (some_ : trim inner ≠ []) :
    element? whole = some (trim inner) := by
  simp [element?, found, some_]

theorem getLast?_eq_of_concat {whole front : List Char} {c d : Char} (parts : whole = front ++ [c])
    (last : whole.getLast? = some d) : d = c := by
  rw [parts, List.getLast?_concat] at last
  exact (Option.some.inj last).symm

inductive IsElement : List Char → List Char → Prop where
  | suffixed {run : List Char} (blank : ∀ c ∈ run, isBlank c) : IsElement [] (run ++ ['[', ']'])
  | generic {run first last : List Char} (blank : ∀ c ∈ run ++ first ++ last, isBlank c) :
      IsElement ("Array".toList ++ run ++ '<' :: first) (last ++ ['>'])

theorem ofBare_element {whole item : List Char} (segment : Segment whole) (trimmed : Trimmed whole)
    (leads : ∀ c ∈ whole.head?, c ≠ '(' ∧ isOperator c = false) (element : element? whole = some item) :
    Form.ofBare (bare whole) = .ok (.array item) := by
  have visible : whole ≠ [] := by
    rintro rfl
    simp [element?, suffixedElement?, genericElement?, after?] at element
  have unwrapped : wrapped? whole = none := by
    cases whole with
    | nil => exact absurd rfl visible
    | cons c rest => exact wrapped?_cons (leads c rfl).1 rest
  rw [bare_eq trimmed.trim_eq unwrapped fun c head => (leads c head).2, Form.ofBare,
    shape_uncut segment.cut? visible, element]
  rfl

section Element

variable (isLiteral : IsLiteral quote text) {run first last : List Char}

include isLiteral

theorem ofBare_suffixed (blank : ∀ c ∈ run, isBlank c) :
    Form.ofBare (bare (literal quote text ++ (run ++ ['[', ']']))) = .ok (.array (literal quote text)) := by
  have brackets : Segment ['[', ']'] := ⟨by decide, uncut_of_all (by decide)⟩
  have ends : literal quote text ++ (run ++ ['[', ']']) = (literal quote text ++ run ++ ['[']) ++ [']'] := by
    simp
  have suffix : suffixedElement? (literal quote text ++ (run ++ ['[', ']'])) =
      some (literal quote text ++ run) := by
    simp [suffixedElement?]
  have inner : trim (literal quote text ++ run) = literal quote text :=
    (trimmed_literal isLiteral).trim_pad (by simp [literal]) [] run (by simpa using blank)
  have some_ : trim (literal quote text ++ run) ≠ [] := by
    rw [inner]
    simp [literal]
  apply ofBare_element
  · exact (Segment.literal isLiteral).append ((Segment.blank blank).append brackets)
  · constructor
    · intro c head
      cases head
      exact isLiteral.visible
    · intro c last
      rw [getLast?_eq_of_concat ends last]
      rfl
  · intro c head
    cases head
    exact inner_of_literal isLiteral
  · rw [element?_of_or (by rw [suffix]; rfl) some_, inner]

theorem ofBare_generic (blank : ∀ c ∈ run ++ first ++ last, isBlank c) :
    Form.ofBare (bare ("Array".toList ++ (run ++ '<' :: (first ++ literal quote text ++ last ++ ['>'])))) =
      .ok (.array (literal quote text)) := by
  have blankRun : ∀ c ∈ run, isBlank c := fun c member => blank c (by simp [member])
  have blankFirst : ∀ c ∈ first, isBlank c := fun c member => blank c (by simp [member])
  have blankLast : ∀ c ∈ last, isBlank c := fun c member => blank c (by simp [member])
  have inner : trim (first ++ literal quote text ++ last) = literal quote text := by
    refine (trimmed_literal isLiteral).trim_pad (by simp [literal]) first last fun c member => ?_
    exact (List.mem_append.mp member).elim (blankFirst c) (blankLast c)
  have inside : Segment (first ++ literal quote text ++ last) :=
    ((Segment.blank blankFirst).append (.literal isLiteral)).append (.blank blankLast)
  generalize first ++ literal quote text ++ last = argument at inner inside
  have word : Segment "Array".toList := ⟨by decide, uncut_of_all (by decide)⟩
  have angles : Segment ('<' :: (argument ++ ['>'])) :=
    .enclosed ⟨0, 0, 1⟩ (by decide) (by decide) (by decide) (by decide) (by decide) inside.balanced
  have ends : "Array".toList ++ (run ++ '<' :: (argument ++ ['>'])) =
      ("Array".toList ++ (run ++ '<' :: argument)) ++ ['>'] := by
    simp
  have suffix : suffixedElement? ("Array".toList ++ (run ++ '<' :: (argument ++ ['>']))) = none := by
    rw [ends]
    simp [suffixedElement?]
  have generic : genericElement? ("Array".toList ++ (run ++ '<' :: (argument ++ ['>']))) = some argument := by
    have start : trimStart (run ++ '<' :: (argument ++ ['>'])) = '<' :: (argument ++ ['>']) := by
      rw [trimStart, List.dropWhile_append_of_pos blankRun]
      rfl
    have opened : after? ['<'] ('<' :: (argument ++ ['>'])) = some (argument ++ ['>']) :=
      after?_eq_some.mpr rfl
    rw [genericElement?, after?_eq_some.mpr rfl]
    simp only [Option.bind_eq_bind, Option.bind_some, start, opened, List.getLast?_concat, if_true,
      List.dropLast_concat]
  apply ofBare_element
  · exact word.append ((Segment.blank blankRun).append angles)
  · constructor
    · intro c head
      obtain rfl : 'A' = c := by simpa using head
      rfl
    · intro c last
      rw [getLast?_eq_of_concat ends last]
      rfl
  · intro c head
    obtain rfl : 'A' = c := by simpa using head
    decide
  · rw [element?_of_or (by rw [suffix, generic]; rfl) (by simp [inner, literal]), inner]

theorem IsElement.ofBare (place : IsElement before after) :
    Form.ofBare (bare (before ++ literal quote text ++ after)) = .ok (.array (literal quote text)) := by
  cases place with
  | suffixed blank => exact ofBare_suffixed isLiteral blank
  | generic blank =>
      have whole := ofBare_generic isLiteral blank
      simpa using whole

end Element

inductive Preceding : List Char → List (List Char) → Prop where
  | nothing : Preceding [] []
  | leading {run text : List Char} {texts : List (List Char)} (blank : ∀ c ∈ run, isBlank c)
      (rest : Preceding text texts) : Preceding ('|' :: (run ++ text)) texts
  | operands {run text : List Char} {texts : List (List Char)} (union : IsUnion text texts)
      (starts : ∀ c ∈ text.head?, isBlank c = false) (blank : ∀ c ∈ run, isBlank c) :
      Preceding (text ++ '|' :: run) texts

inductive Following : List Char → List (List Char) → Prop where
  | nothing : Following [] []
  | operands {run text : List Char} {texts : List (List Char)} (blank : ∀ c ∈ run, isBlank c)
      (union : IsUnion text texts) (ends : ∀ c ∈ text.getLast?, isBlank c = false) :
      Following (run ++ '|' :: text) texts

theorem Following.visible {texts : List (List Char)} (following : Following after texts) :
    ∀ c ∈ after.getLast?, isBlank c = false := by
  cases following with
  | nothing => simp
  | @operands run text _ blank union ends =>
      intro c last
      rw [List.getLast?_append_of_ne_nil _ (by simp)] at last
      cases text with
      | nil =>
          cases last
          rfl
      | cons d text => exact ends c (by simpa using last)

theorem Following.isUnion {texts : List (List Char)} (following : Following after texts)
    (isLiteral : IsLiteral quote text) {run : List Char} (blank : ∀ c ∈ run, isBlank c) :
    IsUnion (run ++ literal quote text ++ after) (literal quote text :: texts) := by
  have alone {run' : List Char} (blank' : ∀ c ∈ run', isBlank c) :
      IsUnion (run ++ literal quote text ++ run') [literal quote text] := by
    have trimmed : trim (run ++ literal quote text ++ run') = literal quote text := by
      refine (trimmed_literal isLiteral).trim_pad (by simp [literal]) run run' fun c member => ?_
      exact (List.mem_append.mp member).elim (blank c) (blank' c)
    have segment : Segment (run ++ literal quote text ++ run') :=
      ((Segment.blank blank).append (.literal isLiteral)).append (.blank blank')
    have some_ : literal quote text ≠ [] := by simp [literal]
    have union := IsUnion.single segment (by rwa [trimmed])
    rwa [trimmed] at union
  cases following with
  | nothing => exact alone (by simp)
  | operands blank' union _ =>
      have joined := (alone blank').join union
      simpa using joined

theorem Preceding.ofBare {texts texts' : List (List Char)} (preceding : Preceding before texts)
    (following : Following after texts') (isLiteral : IsLiteral quote text)
    (some_ : texts ++ texts' ≠ []) :
    Form.ofBare (bare (before ++ literal quote text ++ after)) =
      .ok (.group .or (texts ++ literal quote text :: texts')) := by
  have ends (front : List Char) : ∀ c ∈ (front ++ literal quote text ++ after).getLast?,
      isBlank c = false := by
    intro c last
    rw [List.getLast?_append, List.getLast?_append] at last
    cases final : after.getLast? with
    | none =>
        obtain rfl : quote = c := by simpa [final] using last
        exact isLiteral.visible
    | some d =>
        obtain rfl : d = c := by simpa [final] using last
        exact following.visible d final
  -- Leading operators go one by one; what is left begins with the literal or with operands before it.
  induction preceding with
  | nothing =>
      have union : IsUnion (literal quote text ++ after) (literal quote text :: texts') :=
        following.isUnion isLiteral (List.forall_mem_nil _)
      refine union.ofBare_bare ?_ ⟨fun c head => ?_, ends []⟩
      · have others : texts' ≠ [] := some_
        have positive := List.length_pos_of_ne_nil others
        simp only [List.length_cons]
        omega
      · cases head
        exact isLiteral.visible
  | @leading run front texts blank _ ih =>
      have whole : '|' :: (run ++ front) ++ literal quote text ++ after =
          '|' :: (run ++ (front ++ literal quote text ++ after)) := by
        simp
      have trimmed : Trimmed ('|' :: (run ++ (front ++ literal quote text ++ after))) := by
        refine ⟨fun c head => ?_, ?_⟩
        · cases head
          rfl
        · rw [← whole]
          exact ends _
      rw [whole, bare_operator (by decide) blank trimmed]
      exact ih some_
  | @operands run front texts union starts blank =>
      have whole : front ++ '|' :: run ++ literal quote text ++ after =
          front ++ '|' :: (run ++ literal quote text ++ after) := by
        simp
      have joined := union.join (following.isUnion isLiteral blank)
      have trimmed : Trimmed (front ++ '|' :: (run ++ literal quote text ++ after)) := by
        refine ⟨fun c head => ?_, ?_⟩
        · cases front with
          | nil =>
              cases head
              rfl
          | cons d front => exact starts c head
        · rw [← whole]
          exact ends _
      rw [whole]
      refine joined.ofBare_bare ?_ trimmed
      have positive := List.length_pos_of_ne_nil union.ne_nil
      simp only [List.length_append, List.length_cons]
      omega

end Expr

end Conform
