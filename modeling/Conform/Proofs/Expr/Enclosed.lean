import Conform.Proofs.Expr.Forms
import Conform.Proofs.Expr.Precedence
import Conform.Proofs.Text.Cleaned

/-!
Text that holds together. Literals, white space and what stands in brackets can be put side by side
without a scan for operators finding more. And when parentheses around an expression are dropped.
-/

namespace Conform

open Conform.Text Conform.Expr

namespace Expr

section Segments

variable {quote : Char} {text rest : List Char} {context context' : Context}

theorem Uncut.append (uncut : Uncut context text) (passed : context.through? text = some context')
    (uncut' : Uncut context' rest) : Uncut context (text ++ rest) := by
  induction text generalizing context with
  | nil =>
      cases passed
      exact uncut'
  | cons c text ih =>
      rw [Context.through?_cons] at passed
      obtain ⟨next, step, passed⟩ := Option.bind_eq_some_iff.mp passed
      obtain ⟨first, others⟩ := uncut_cons.mp uncut
      refine uncut_cons.mpr ⟨first, fun other step' => ?_⟩
      rw [step] at step'
      cases step'
      exact ih (others next step) passed

theorem uncut_of_inner (inner : ∀ c ∈ text, isOperator c = false) : Uncut context text := by
  rintro before c after rfl _
  exact inner c (by simp)

theorem uncut_of_all (inner : text.all fun c => !isOperator c) : Uncut context text :=
  uncut_of_inner (by simpa using inner)

theorem isOperator_of_isBlank {c : Char} (blank : isBlank c) : isOperator c = false := by
  by_contra operator
  simp [isBlank_of_isOperator (by simpa using operator)] at blank

theorem Segment.append (segment : Segment text) (segment' : Segment rest) : Segment (text ++ rest) where
  balanced := (IsOutside.append_iff segment.balanced rest).mpr segment'.balanced
  uncut := segment.uncut.append segment.balanced segment'.uncut

theorem Segment.blank (blank : ∀ c ∈ text, isBlank c) : Segment text where
  balanced := isOutside_blank blank
  uncut := uncut_of_inner fun c member => isOperator_of_isBlank (blank c member)

section Quoted

variable (isLiteral : IsLiteral quote text) (nesting : Nesting)

include isLiteral

theorem Context.quoted : (⟨nesting, some quote⟩ : Context).through? (text ++ [quote]) =
      some ⟨nesting, none⟩ ∧ Uncut ⟨nesting, some quote⟩ (text ++ [quote]) := by
  obtain ⟨opens, open_⟩ := isLiteral
  induction text with
  | nil =>
      have step : (⟨nesting, some quote⟩ : Context).after? quote = some ⟨nesting, none⟩ := by
        simp [Context.after?, quoteAfter]
      refine ⟨by simp [step], uncut_cons.mpr ⟨by simp, ?_⟩⟩
      rintro _ _ before c after parts
      simp at parts
  | cons c text ih =>
      obtain ⟨passed, uncut⟩ := ih fun d member => open_ d (by simp [member])
      have step : (⟨nesting, some quote⟩ : Context).after? c = some ⟨nesting, some quote⟩ := by
        simp [Context.after?, quoteAfter, (open_ c (by simp)).1]
      refine ⟨by simpa [step] using passed, uncut_cons.mpr ⟨by simp, fun next step' => ?_⟩⟩
      rw [step] at step'
      cases step'
      exact uncut

theorem Context.through?_literal :
    (⟨nesting, none⟩ : Context).through? (literal quote text) = some ⟨nesting, none⟩ := by
  have step : (⟨nesting, none⟩ : Context).after? quote = some ⟨nesting, some quote⟩ := by
    simp [Context.after?, quoteAfter, isLiteral.opens]
  simpa [literal, step] using (Context.quoted isLiteral nesting).1

theorem uncut_literal : Uncut ⟨nesting, none⟩ (literal quote text) := by
  refine uncut_cons.mpr ⟨fun _ => ?_, fun next step => ?_⟩
  · rcases isQuote_cases isLiteral.opens with rfl | rfl <;> rfl
  · simp only [Context.after?, isLiteral.opens, Bool.or_true, if_true, Option.some.injEq, quoteAfter]
      at step
    subst step
    exact (Context.quoted isLiteral nesting).2

end Quoted

theorem Segment.literal (isLiteral : IsLiteral quote text) : Segment (literal quote text) where
  balanced := Context.through?_literal isLiteral {}
  uncut := uncut_literal isLiteral {}

def Nesting.within (outer inner : Nesting) : Nesting :=
  ⟨outer.round + inner.round, outer.curly + inner.curly, outer.angle + inner.angle⟩

theorem Nesting.after?_within {inner next : Nesting} {c : Char} (after : inner.after? c = some next)
    (outer : Nesting) : (outer.within inner).after? c = some (outer.within next) := by
  rcases Nesting.after?_cases after with ⟨rfl, rfl⟩ | ⟨rfl, rfl⟩ | ⟨rfl, rfl⟩ | ⟨rfl, some_, rfl⟩ |
    ⟨rfl, some_, rfl⟩ | ⟨rfl, some_, rfl⟩ | ⟨other, rfl⟩
  · rfl
  · rfl
  · rfl
  · simp [Nesting.after?, Nesting.within, some_, Nat.add_sub_assoc (Nat.pos_of_ne_zero some_)]
  · simp [Nesting.after?, Nesting.within, some_, Nat.add_sub_assoc (Nat.pos_of_ne_zero some_)]
  · simp [Nesting.after?, Nesting.within, some_, Nat.add_sub_assoc (Nat.pos_of_ne_zero some_)]
  · unfold Nesting.after?
    split <;> simp_all

theorem Context.through?_within {inner : Nesting} {quote : Option Char} {next : Context}
    (passed : (⟨inner, quote⟩ : Context).through? text = some next) (outer : Nesting) :
    (⟨outer.within inner, quote⟩ : Context).through? text =
      some ⟨outer.within next.nesting, next.quote⟩ := by
  induction text generalizing inner quote with
  | nil =>
      cases passed
      rfl
  | cons c text ih =>
      rw [Context.through?_cons] at passed ⊢
      obtain ⟨⟨nesting, quote'⟩, step, passed⟩ := Option.bind_eq_some_iff.mp passed
      have step' : (⟨outer.within inner, quote⟩ : Context).after? c =
          some ⟨outer.within nesting, quote'⟩ := by
        unfold Context.after? at step ⊢
        split at step
        · rename_i inside
          cases step
          simp [inside]
        · rename_i outside
          obtain ⟨opened, after, same⟩ := Option.map_eq_some_iff.mp step
          cases same
          simp [outside, Nesting.after?_within after outer]
      rw [step', Option.bind_some]
      exact ih passed

theorem uncut_within {outer : Nesting} (open_ : outer ≠ {}) (balanced : IsOutside text) :
    Uncut ⟨outer, none⟩ text := by
  rintro before c after rfl passed
  rw [IsOutside, Context.through?_append] at balanced
  obtain ⟨context, passed', _⟩ := Option.bind_eq_some_iff.mp balanced
  rw [show (⟨outer, none⟩ : Context).through? before = _ from Context.through?_within passed' outer] at passed
  simp only [Option.some.injEq, Context.mk.injEq, Nesting.within, Nesting.mk.injEq] at passed
  refine absurd ?_ open_
  rw [show outer = ⟨outer.round, outer.curly, outer.angle⟩ from rfl, Nesting.mk.injEq]
  omega

theorem Segment.enclosed {opener closer : Char} (outer : Nesting) (open_ : outer ≠ {})
    (opens : ({} : Context).after? opener = some ⟨outer, none⟩)
    (closes : (⟨outer, none⟩ : Context).after? closer = some {}) (inner : isOperator opener = false)
    (inner' : isOperator closer = false) (balanced : IsOutside text) :
    Segment (opener :: (text ++ [closer])) := by
  have passed : (⟨outer, none⟩ : Context).through? text = some ⟨outer, none⟩ :=
    Context.through?_within balanced outer
  constructor
  · rw [IsOutside, Context.through?_cons, opens, Option.bind_some, Context.through?_append_of passed,
      Context.through?_cons, closes]
    rfl
  · refine uncut_cons.mpr ⟨fun _ => inner, fun next step => ?_⟩
    rw [opens] at step
    cases step
    exact (uncut_within open_ balanced).append passed (uncut_of_inner (by simp [inner']))

end Segments

section Bare

variable {text : List Char}

theorem bare_eq (trimmed : trim text = text) (unwrapped : wrapped? text = none)
    (leads : ∀ c ∈ text.head?, isOperator c = false) : bare text = text := by
  refine bare_of_trimParens ?_ fun c head => ?_
  · unfold trimParens
    rw [trimmed]
    split
    · simp_all
    · rfl
  · change Connective.ofChar? c = none
    simpa [isOperator] using leads c head

theorem untilClose?_inside {depth : Nat} {quote : Option Char} {inner : List Char}
    (found : untilClose? depth quote text = some inner) {before after : List Char}
    (parts : text = before ++ after) (some_ : after ≠ []) {nesting : Nesting} {context : Context}
    (deep : nesting.round = depth + 1)
    (passed : (⟨nesting, quote⟩ : Context).through? before = some context) : context ≠ {} := by
  -- As long as the group has not closed, one round bracket more is open than its depth says.
  induction before generalizing text depth quote inner nesting with
  | nil =>
      cases passed
      rintro ⟨⟩
      simp at deep
  | cons c before ih =>
      subst parts
      rw [Context.through?_cons] at passed
      obtain ⟨next, step, passed⟩ := Option.bind_eq_some_iff.mp passed
      have onward {depth' : Nat} {next : Context} (round : next.nesting.round = depth' + 1)
          (found : (untilClose? depth' next.quote (before ++ after)).map (c :: ·) = some inner)
          (passed : next.through? before = some context) : context ≠ {} := by
        obtain ⟨rest, found, _⟩ := Option.map_eq_some_iff.mp found
        exact ih found rfl round passed
      simp only [List.cons_append, untilClose?] at found
      unfold Context.after? at step
      split at found
      · rename_i literal
        simp only [literal, if_true, Option.some.injEq] at step
        subst step
        exact onward deep found passed
      · rename_i code
        obtain rfl : quote = none := by
          cases quote <;> simp_all
        simp only [code, Bool.false_eq_true, if_false, Option.map_eq_some_iff] at step
        obtain ⟨opened, after?, rfl⟩ := step
        split at found
        · rename_i opens
          subst opens
          cases after?
          exact onward (by simp [deep]) found passed
        · split at found
          · rename_i closes
            subst closes
            have closed : opened = { nesting with round := nesting.round - 1 } := by
              simpa [Nesting.after?, deep, eq_comm] using after?
            subst closed
            cases depth with
            | zero =>
                -- Here the group closes, and more text follows.
                cases before <;> cases after <;> simp_all
            | succ depth => exact onward (by simp [deep]) found passed
          · rename_i notOpen notClosed
            have same : opened.round = nesting.round := by
              unfold Nesting.after? at after?
              split at after? <;> grind
            exact onward (same.trans deep) found passed

theorem wrapped?_none {cut : Cut} (cutting : cut? text = some cut) (operators : cut.rest ≠ []) :
    wrapped? text = none := by
  obtain ⟨rfl, segment, _⟩ := cut?_eq_some.mp cutting
  obtain ⟨⟨connective, second⟩, rest, joined⟩ := List.exists_cons_of_ne_nil operators
  by_contra wrapped
  obtain ⟨inner, found⟩ := Option.ne_none_iff_exists'.mp wrapped
  have source : cut.source = cut.first ++ connective.symbol :: Cut.source ⟨second, rest⟩ := by
    simp [Cut.source, joined]
  rw [source] at found
  obtain ⟨first, _⟩ := cut
  cases first with
  | nil => cases connective <;> simp [wrapped?, Connective.symbol] at found
  | cons c first =>
      unfold wrapped? at found
      split at found
      · rename_i parts
        rw [List.cons_append] at parts
        obtain ⟨rfl, rfl⟩ := List.cons.inj parts
        have balanced : (⟨{ round := 1 }, none⟩ : Context).through? first = some {} := segment.balanced
        exact untilClose?_inside found rfl (List.cons_ne_nil _ _) rfl balanced rfl
      · cases found

theorem wrapped?_cons {c : Char} (other : c ≠ '(') (rest : List Char) : wrapped? (c :: rest) = none := by
  unfold wrapped?
  split <;> simp_all

theorem bare_of_cons {c : Char} {rest : List Char} (parens : trimParens text = c :: rest) :
    bare text = if c = '|' ∨ c = '&' then bare rest else c :: rest := by
  rw [bare]
  split <;> simp_all

theorem bare_congr {text text' : List Char} (same : trimParens text = trimParens text') :
    bare text = bare text' := by
  cases parens : trimParens text' with
  | nil =>
      unfold bare
      split <;> split <;> simp_all
  | cons c rest => rw [bare_of_cons parens, bare_of_cons (same.trans parens)]

theorem trimParens_congr {text text' : List Char} (same : trim text = trim text') :
    trimParens text = trimParens text' := by
  unfold trimParens
  split <;> split <;> simp_all

theorem bare_operator {operator : Char} {run : List Char} (operates : isOperator operator)
    (blank : ∀ c ∈ run, isBlank c) (trimmed : Trimmed (operator :: (run ++ text))) :
    bare (operator :: (run ++ text)) = bare text := by
  have mark : operator = '|' ∨ operator = '&' := (isOperator_iff.mp operates).symm
  have other : operator ≠ '(' := by
    rintro rfl
    simp at mark
  have parens : trimParens (operator :: (run ++ text)) = operator :: (run ++ text) := by
    unfold trimParens
    rw [trimmed.trim_eq]
    split
    · simp_all [wrapped?_cons]
    · rfl
  have inner : bare (run ++ text) = bare text :=
    bare_congr (trimParens_congr (trim_blank_append blank text))
  rw [bare_of_cons parens, if_pos mark, inner]

end Bare

end Expr

end Conform
