import Conform.Proofs.Expr.Enclosed
import Conform.Proofs.Expr.Precedence
import Conform.Proofs.Text.Stripped

/-!
Parentheses that mean nothing. A text that closes all it opens may stand in parentheses, with white space
inside them; once the comments are removed and the parentheses trimmed, nothing of that is left.
-/

namespace Conform

namespace Text

section Layer

variable {text before after : List Char}

theorem trimmed_parens (text : List Char) : Trimmed ('(' :: (text ++ [')'])) := by
  refine ⟨fun c head => ?_, fun c last => ?_⟩
  · cases head
    rfl
  · rw [← List.cons_append, List.getLast?_concat] at last
    cases last
    rfl

theorem Commentless.append_inert {quote : Option Char} (clean : Commentless quote text) {more : List Char}
    (inert : ∀ c ∈ more, c ≠ '/' ∧ c ≠ '*') : Commentless quote (text ++ more) := by
  induction more using List.reverseRecOn with
  | nil => rwa [List.append_nil]
  | append_singleton more c ih =>
      rw [← List.append_assoc]
      exact (ih fun d member => inert d (by simp [member])).concat (inert c (by simp))

theorem Commentless.layer (clean : Commentless none text) (blank : ∀ c ∈ before ++ after, isBlank c) :
    Commentless none ('(' :: (before ++ text ++ after ++ [')'])) := by
  refine commentless_cons.mpr ⟨by simp [Marks], ?_⟩
  have inert : ∀ c ∈ after ++ [')'], c ≠ '/' ∧ c ≠ '*' := by
    intro c member
    rcases List.mem_append.mp member with among | last
    · have space := blank c (List.mem_append_right _ among)
      constructor <;> rintro rfl <;> cases space
    · rw [List.mem_singleton.mp last]
      decide
  rw [List.append_assoc, List.append_assoc, show literalAfter none '(' = none from rfl,
    commentless_blank_append (by simp) fun c member => blank c (List.mem_append_left _ member), ite_self]
  exact clean.append_inert inert

theorem stripComments_layer (clean : Commentless none text) (blank : ∀ c ∈ before ++ after, isBlank c) :
    ∃ inner, stripComments ('(' :: (before ++ text ++ after ++ [')'])) = '(' :: (inner ++ [')']) ∧
      trim inner = stripComments text := by
  have kept {run : List Char} (spaces : ∀ c ∈ run, isBlank c) : ∀ c ∈ run.filter (· != '\r'), isBlank c :=
    fun c member => spaces c (List.mem_filter.mp member).1
  have lead := kept fun c member => blank c (List.mem_append_left _ member)
  have trail := kept fun c member => blank c (List.mem_append_right _ member)
  refine ⟨squeeze ((before ++ text ++ after).filter (· != '\r')), ?_, ?_⟩
  · rw [stripComments_commentless (clean.layer blank)]
    generalize before ++ text ++ after = inner
    have parts : ('(' :: (inner ++ [')'])).filter (· != '\r') = '(' :: (inner.filter (· != '\r') ++ [')']) := by
      simp
    rw [parts, (trimmed_parens _).trim_eq]
    rw [show '(' :: (inner.filter (· != '\r') ++ [')']) = [] ++ '(' :: (inner.filter (· != '\r') ++ [')']) from rfl,
      squeeze_append_cons (by decide), squeeze_append_cons (by decide)]
    rfl
  · rw [trim_squeeze, List.filter_append, List.filter_append, trim_append_blank trail, trim_blank_append lead,
      stripComments_commentless clean]

end Layer

end Text

namespace Expr

open Text

def parenthesized (layers : List (List Char × List Char)) (expr : List Char) : List Char :=
  layers.foldr (fun (before, after) inner => '(' :: (before ++ inner ++ after ++ [')'])) expr

theorem isOutside_of_cut? {text : List Char} {cut : Cut} (cutting : cut? text = some cut) : IsOutside text := by
  obtain ⟨rfl, segment, others⟩ := cut?_eq_some.mp cutting
  obtain ⟨first, rest⟩ := cut
  clear cutting
  induction rest generalizing first with
  | nil => simpa [Cut.source] using segment.balanced
  | cons part rest ih =>
      obtain ⟨second, later⟩ := List.forall_mem_cons.mp others
      have inner := (isOutside_symbol part.1).append_iff (Cut.source ⟨part.2, rest⟩)
      have whole : Cut.source ⟨first, part :: rest⟩ = first ++ ([part.1.symbol] ++ Cut.source ⟨part.2, rest⟩) := by
        simp [Cut.source]
      rw [whole, segment.balanced.append_iff, inner]
      exact ih part.2 second later

section Wrapped

variable {text : List Char}

theorem untilClose?_through {nesting : Nesting} {quote : Option Char} {context : Context}
    (passed : (⟨nesting, quote⟩ : Context).through? text = some context) (rest : List Char) :
    untilClose? nesting.round quote (text ++ rest) =
      (untilClose? context.nesting.round context.quote rest).map (text ++ ·) := by
  induction text generalizing nesting quote with
  | nil =>
      cases passed
      simp
  | cons c text ih =>
      rw [Context.through?_cons] at passed
      obtain ⟨⟨nesting', quote'⟩, step, passed⟩ := Option.bind_eq_some_iff.mp passed
      have onward := ih passed
      rw [List.cons_append]
      by_cases literal : quote.isSome || isQuote c
      · simp only [Context.after?, literal, if_true, Option.some.injEq, Context.mk.injEq] at step
        obtain ⟨rfl, rfl⟩ := step
        simp [untilClose?, literal, onward, Function.comp_def]
      · obtain rfl : quote = none := by
          cases quote <;> simp_all
        simp only [Context.after?, literal, Bool.false_eq_true, if_false, Option.map_eq_some_iff,
          Context.mk.injEq] at step
        obtain ⟨opened, after, rfl, rfl⟩ := step
        simp only [untilClose?, literal, Bool.false_eq_true, if_false]
        by_cases opening : c = '('
        · subst opening
          cases after
          simp [onward, Function.comp_def]
        · by_cases closing : c = ')'
          · subst closing
            obtain ⟨some_, rfl⟩ : nesting.round ≠ 0 ∧ { nesting with round := nesting.round - 1 } = opened := by
              simpa [Nesting.after?] using after
            obtain ⟨depth, same⟩ := Nat.exists_eq_succ_of_ne_zero some_
            simp only [same, Nat.succ_eq_add_one, Nat.add_sub_cancel] at onward ⊢
            simp [onward, Function.comp_def]
          · have same : opened.round = nesting.round := by
              rcases Nesting.after?_cases after with ⟨round, _⟩ | ⟨_, rfl⟩ | ⟨_, rfl⟩ | ⟨round, _⟩ |
                ⟨_, _, rfl⟩ | ⟨_, _, rfl⟩ | ⟨_, rfl⟩
              all_goals first | rfl | contradiction
            rw [same] at onward
            simp [opening, closing, onward, Function.comp_def]

theorem wrapped?_parens (outside : IsOutside text) : wrapped? ('(' :: (text ++ [')'])) = some text := by
  have passed := untilClose?_through outside [')']
  rw [wrapped?, passed]
  simp [untilClose?, isQuote]

theorem isOutside_parens (outside : IsOutside text) : IsOutside ('(' :: (text ++ [')'])) :=
  (Segment.enclosed { round := 1 } (by decide) rfl rfl rfl rfl outside).balanced

theorem trimParens_parens (outside : IsOutside text) :
    trimParens ('(' :: (text ++ [')'])) = trimParens text := by
  conv_lhs => unfold trimParens
  rw [(trimmed_parens text).trim_eq]
  split
  next inner found =>
    rw [wrapped?_parens outside] at found
    cases found
    rfl
  next unwrapped =>
    rw [wrapped?_parens outside] at unwrapped
    cases unwrapped

theorem isOutside_trim (text : List Char) : IsOutside (trim text) ↔ IsOutside text := by
  obtain ⟨before, after, blank, parts⟩ := exists_trim text
  have lead := isOutside_blank fun c member => blank c (List.mem_append_left _ member)
  conv_rhs => rw [parts, isOutside_append_blank fun c member => blank c (List.mem_append_right _ member)]
  exact (lead.append_iff _).symm

end Wrapped

section Layers

variable {expr : List Char}

theorem parenthesized_stripped {layers : List (List Char × List Char)} (stripped : Stripped expr)
    (outside : IsOutside expr) (blank : ∀ layer ∈ layers, ∀ c ∈ layer.1 ++ layer.2, isBlank c) :
    Commentless none (parenthesized layers expr) ∧ IsOutside (stripComments (parenthesized layers expr)) ∧
      trimParens (stripComments (parenthesized layers expr)) = trimParens expr := by
  induction layers with
  | nil =>
      rw [show parenthesized [] expr = expr from rfl, stripped.eq]
      exact ⟨stripped.commentless, outside, rfl⟩
  | cons layer layers ih =>
      obtain ⟨first, others⟩ := List.forall_mem_cons.mp blank
      obtain ⟨clean, within, same⟩ := ih others
      obtain ⟨inner, parts, trims⟩ := stripComments_layer clean first
      have balanced : IsOutside inner := (isOutside_trim inner).mp (trims ▸ within)
      have whole : parenthesized (layer :: layers) expr =
          '(' :: (layer.1 ++ parenthesized layers expr ++ layer.2 ++ [')']) := rfl
      rw [whole, parts, trimParens_parens balanced]
      refine ⟨clean.layer first, isOutside_parens balanced, Eq.trans ?_ same⟩
      exact trimParens_congr (trims.trans (trims ▸ (trimmed_trim inner).trim_eq.symm))

/-- What is left of an expression to be resolved is the same with parentheses around it. -/
theorem bare_parenthesized {layers : List (List Char × List Char)} (stripped : Stripped expr)
    (outside : IsOutside expr) (blank : ∀ layer ∈ layers, ∀ c ∈ layer.1 ++ layer.2, isBlank c) :
    bare (stripComments (parenthesized layers expr)) = bare (stripComments expr) := by
  rw [stripped.eq]
  exact bare_congr (parenthesized_stripped stripped outside blank).2.2

end Layers

end Expr

end Conform
