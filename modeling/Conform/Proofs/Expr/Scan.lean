import Conform.Expr.Members
import Conform.Expr.Operators
import Conform.Proofs.Text.Tidy
import Conform.Proofs.Text.Woven

/-!
Scanning woven text for operators and for the ends of members. What was joined comes apart again.
-/

namespace Conform.Expr

open Text

def Cut.prepend (text : List Char) (cut : Cut) : Cut :=
  { cut with first := text ++ cut.first }

@[simp] theorem Cut.prepend_nil (cut : Cut) : cut.prepend [] = cut := rfl

@[simp] theorem Cut.prepend_cons (c : Char) (text : List Char) (cut : Cut) :
    (cut.prepend text).extend c = cut.prepend (c :: text) := rfl

@[simp] theorem Cut.prepend_append (text rest : List Char) (cut : Cut) :
    (cut.prepend rest).prepend text = cut.prepend (text ++ rest) := by
  simp [prepend]

structure Item (allowed : Char → Prop) (text : List Char) : Prop where
  woven : Woven allowed text
  tidy : Tidy text
  some_ : text ≠ []

theorem trim_space (text : List Char) : trim (' ' :: text) = trim text := by
  simp [trim, trimStart, isBlank]

theorem Item.trim_space_after {allowed : Char → Prop} {text : List Char} (item : Item allowed text) :
    trim (text ++ [' ']) = text := by
  simpa using item.tidy.trimmed.trim_pad item.some_ [] [' '] (by simp [isBlank])

section Operators

def IsInner (c : Char) : Prop :=
  Connective.ofChar? c = none

theorem cutFrom?_quoted {quote : Char} {text : List Char} (nesting : Nesting) (rest : List Char)
    (open_ : ∀ c ∈ text, c ≠ quote ∧ c ≠ '\n') :
    cutFrom? nesting (some quote) (text ++ quote :: rest) =
      (cutFrom? nesting none rest).map (Cut.prepend (text ++ [quote])) := by
  induction text with
  | nil =>
      simp only [List.nil_append, cutFrom?, quoteAfter, Option.isSome_some, Bool.true_or, if_true]
      rfl
  | cons c text ih =>
      have first := open_ c (by simp)
      simp only [List.cons_append, cutFrom?, quoteAfter, first, if_false, Option.isSome_some,
        Bool.true_or, if_true]
      rw [ih fun d member => open_ d (by simp [member])]
      simp [Function.comp_def]

theorem Nesting.after?_plain {c : Char} (plain : isPlain c) (nesting : Nesting) :
    nesting.after? c = some nesting := by
  have marks := ne_of_isPlain plain
  unfold Nesting.after?
  split <;> simp_all

theorem cutFrom?_append {allowed : Char → Prop} {text : List Char} (woven : Woven allowed text)
    (nesting : Nesting) (none_ : nesting = {} → ∀ c, allowed c → Connective.ofChar? c = none)
    (rest : List Char) :
    cutFrom? nesting none (text ++ rest) = (cutFrom? nesting none rest).map (Cut.prepend text) := by
  induction woven generalizing nesting rest with
  | nil =>
      rw [show Cut.prepend [] = id from rfl]
      simp
  | @char _ c _ plain fits _ ih =>
      have marks := ne_of_isPlain plain
      have passes : (if nesting = {} then Connective.ofChar? c else none) = none := by
        split
        · exact none_ (by assumption) c fits
        · rfl
      simp [cutFrom?, marks, Nesting.after?_plain plain, passes, ih nesting none_,
        Function.comp_def]
  | literal opens open_ _ ih =>
      simp only [List.cons_append, List.append_assoc, cutFrom?, quoteAfter, opens, Bool.or_true,
        if_true]
      rw [cutFrom?_quoted _ _ open_, ih nesting none_]
      simp [Function.comp_def]
  | @round _ inner rest' _ _ inside ih =>
      have inner' := inside { nesting with round := nesting.round + 1 } (by simp)
      simp [cutFrom?, isQuote, Nesting.after?, inner', ih nesting none_, Connective.ofChar?,
        Function.comp_def]
  | curly _ _ inside ih =>
      have inner' := inside { nesting with curly := nesting.curly + 1 } (by simp)
      simp [cutFrom?, isQuote, Nesting.after?, inner', ih nesting none_, Connective.ofChar?,
        Function.comp_def]
  | square _ _ inside ih =>
      simp [cutFrom?, isQuote, Nesting.after?, inside nesting none_, ih nesting none_,
        Connective.ofChar?, Function.comp_def]

theorem cut?_woven {allowed : Char → Prop} {text : List Char} (woven : Woven allowed text)
    (none_ : ∀ c, allowed c → Connective.ofChar? c = none) : cut? text = some ⟨text, []⟩ := by
  have whole := cutFrom?_append woven {} (fun _ => none_) []
  simpa [cut?, cutFrom?, Cut.prepend] using whole

theorem cutFrom?_space (rest : List Char) :
    cutFrom? {} none (' ' :: rest) = (cutFrom? {} none rest).map (Cut.extend ' ') := by
  simp [cutFrom?, isQuote, Nesting.after?, Connective.ofChar?]

theorem cutFrom?_symbol (connective : Connective) (rest : List Char) :
    cutFrom? {} none (connective.symbol :: rest) =
      (cutFrom? {} none rest).map fun cut => ⟨[], (connective, cut.first) :: cut.rest⟩ := by
  cases connective <;>
    simp [cutFrom?, isQuote, Nesting.after?, Connective.ofChar?, Connective.symbol]

def joined (connective : Connective) (operands : List (List Char)) : List Char :=
  [' ', connective.symbol, ' '].intercalate operands

theorem cut?_joined (connective : Connective) (first : List Char) (rest : List (List Char))
    (each : ∀ operand ∈ first :: rest, Item IsInner operand) :
    ∃ cut, cut? (joined connective (first :: rest)) = some cut ∧ trim cut.first = first ∧
      cut.rest.map (Prod.map id trim) = rest.map (connective, ·) := by
  induction rest generalizing first with
  | nil =>
      have operand := each first (by simp)
      refine ⟨⟨first, []⟩, ?_, operand.tidy.trim_eq, rfl⟩
      simpa [joined] using cut?_woven operand.woven fun _ none_ => none_
  | cons second rest ih =>
      have operand := each first (by simp)
      obtain ⟨cut, found, head, tail⟩ := ih second fun text member => each text (by simp_all)
      refine ⟨⟨first ++ [' '], (connective, ' ' :: cut.first) :: cut.rest⟩, ?_, ?_, ?_⟩
      · have apart : joined connective (first :: second :: rest) =
            first ++ ' ' :: connective.symbol :: ' ' :: joined connective (second :: rest) := by
          simp [joined]
        unfold cut? at found ⊢
        rw [apart, cutFrom?_append operand.woven _ fun _ _ none_ => none_, cutFrom?_space,
          cutFrom?_symbol, cutFrom?_space, found]
        rfl
      · exact operand.trim_space_after
      · simp [trim_space, head, tail]

/-- The tokens of a group are its operands and what joins them. -/
theorem tokens_joined (connective : Connective) (first : List Char) (rest : List (List Char))
    (each : ∀ operand ∈ first :: rest, Item IsInner operand) :
    tokens (joined connective (first :: rest)) =
      .ok (.operand first :: rest.flatMap fun text => [.operator connective, .operand text]) := by
  obtain ⟨cut, found, head, tail⟩ := cut?_joined connective first rest each
  have visible : first.isEmpty = false := by simpa using (each first (by simp)).some_
  have visible' : [] ∉ rest := fun member => (each [] (by simp [member])).some_ rfl
  have tail' : (cut.rest.map fun part => (part.1, trim part.2)) = rest.map (connective, ·) := tail
  simp only [tokens, found, head, visible, tail', Bool.false_or]
  rw [if_neg (by simpa [List.any_map, Function.comp_def] using visible')]
  simp [List.flatMap_map]

end Operators

section Members

def prependFirst (text : List Char) (cut : List Char × List (List Char)) :
    List Char × List (List Char) :=
  (text ++ cut.1, cut.2)

theorem cutMembers_quoted {quote : Char} {text : List Char} (depth : Int) (last : Option Char)
    (rest : List Char) (open_ : ∀ c ∈ text, c ≠ quote ∧ c ≠ '\n') :
    ∃ last', cutMembers depth (some quote) last (text ++ quote :: rest) =
      prependFirst (text ++ [quote]) (cutMembers depth none last' rest) := by
  induction text generalizing last with
  | nil => exact ⟨_, by simp only [List.nil_append, cutMembers, quoteAfter]; rfl⟩
  | cons c text ih =>
      have first := open_ c (by simp)
      obtain ⟨last', found⟩ := ih (if isBlank c then last else some c)
        fun d member => open_ d (by simp [member])
      refine ⟨last', ?_⟩
      simp only [List.cons_append, cutMembers, quoteAfter, first, if_false, Option.isSome_some,
        Bool.true_or, if_true]
      rw [found]
      rfl

theorem bracketStep_plain {c : Char} (plain : isPlain c) : bracketStep c = 0 := by
  have marks := ne_of_isPlain plain
  simp [bracketStep, marks]

theorem bracketStep_cases {c : Char} (bracket : bracketStep c ≠ 0) :
    isQuote c = false ∧ c ≠ ';' ∧ c ≠ ',' ∧ c ≠ '\n' := by
  refine ⟨?_, ?_, ?_, ?_⟩
  · by_contra quote
    rcases isQuote_cases (by simpa using quote) with rfl | rfl <;> exact bracket (by decide)
  all_goals
    rintro rfl
    exact bracket (by decide)

theorem cutMembers_brackets {opening closing : Char} (opens : bracketStep opening = 1)
    (closes : bracketStep closing = -1) {depth : Int} (positive : 0 ≤ depth) {inner text rest : List Char}
    (inside : ∀ last rest, ∃ last', cutMembers (depth + 1) none last (inner ++ rest) =
      prependFirst inner (cutMembers (depth + 1) none last' rest))
    (beyond : ∀ last, ∃ last', cutMembers depth none last (text ++ rest) =
      prependFirst text (cutMembers depth none last' rest)) (last : Option Char) :
    ∃ last', cutMembers depth none last (opening :: (inner ++ closing :: text) ++ rest) =
      prependFirst (opening :: (inner ++ closing :: text)) (cutMembers depth none last' rest) := by
  have opening' := bracketStep_cases (c := opening) (by omega)
  have closing' := bracketStep_cases (c := closing) (by omega)
  obtain ⟨last', found⟩ := inside (if isBlank opening then last else some opening)
    (closing :: (text ++ rest))
  obtain ⟨last'', found'⟩ := beyond (if isBlank closing then last' else some closing)
  have deeper : (depth + 1 == 0) = false := by
    simp only [beq_eq_false_iff_ne]
    omega
  have back : depth + 1 + -1 = depth := by omega
  refine ⟨last'', ?_⟩
  simp only [List.cons_append, List.append_assoc, cutMembers, endsMember, opening', closing', opens,
    closes, found, found', deeper, back, prependFirst, Option.isSome_none, Bool.or_self,
    Bool.false_and, Bool.and_false, beq_eq_false_iff_ne.mpr, ne_eq, not_false_eq_true,
    Bool.false_eq_true, if_false]

theorem cutMembers_append {allowed : Char → Prop} {text : List Char} (woven : Woven allowed text)
    (depth : Int) (positive : 0 ≤ depth)
    (none_ : depth = 0 → ∀ c, allowed c → c ≠ ';' ∧ c ≠ ',') (last : Option Char)
    (rest : List Char) :
    ∃ last', cutMembers depth none last (text ++ rest) =
      prependFirst text (cutMembers depth none last' rest) := by
  induction woven generalizing depth last rest with
  | nil => exact ⟨last, rfl⟩
  | @char _ c text plain fits _ ih =>
      have marks := ne_of_isPlain plain
      obtain ⟨last', found⟩ := ih depth positive none_ (if isBlank c then last else some c) rest
      have passes : endsMember depth last c (text ++ rest) = false := by
        by_cases outside : depth = 0
        · simp [endsMember, none_ outside c fits, marks]
        · simp [endsMember, outside]
      refine ⟨last', ?_⟩
      simp only [List.cons_append, cutMembers, marks, passes, bracketStep_plain plain,
        Option.isSome_none, Bool.or_self, Bool.false_eq_true, if_false, Int.add_zero]
      rw [found]
      rfl
  | @literal _ quote text rest' opens open_ _ ih =>
      obtain ⟨last', found⟩ := cutMembers_quoted depth (if isBlank quote then last else some quote)
        (rest' ++ rest) open_
      obtain ⟨last'', found'⟩ := ih depth positive none_ last' rest
      refine ⟨last'', ?_⟩
      simp only [List.cons_append, List.append_assoc, cutMembers, quoteAfter, opens, Bool.or_true,
        if_true]
      rw [found, found']
      simp [prependFirst]
  | round _ _ inside ih =>
      exact cutMembers_brackets (by decide) (by decide) positive
        (inside (depth + 1) (by omega) (by omega)) (fun last => ih depth positive none_ last rest) last
  | curly _ _ inside ih =>
      exact cutMembers_brackets (by decide) (by decide) positive
        (inside (depth + 1) (by omega) (by omega)) (fun last => ih depth positive none_ last rest) last
  | square _ _ inside ih =>
      exact cutMembers_brackets (by decide) (by decide) positive
        (inside (depth + 1) (by omega) (by omega)) (fun last => ih depth positive none_ last rest) last

def IsMemberPart (c : Char) : Prop :=
  c ≠ ';' ∧ c ≠ ','

theorem cutMembers_joined (first : List Char) (rest : List (List Char))
    (each : ∀ member ∈ first :: rest, Item IsMemberPart member) (last : Option Char) :
    ∃ head tail, cutMembers 0 none last ([';', ' '].intercalate (first :: rest) ++ [' ']) =
      (head, tail) ∧ (head :: tail).map trim = first :: rest := by
  induction rest generalizing first last with
  | nil =>
      have item := each first (by simp)
      obtain ⟨last', found⟩ := cutMembers_append item.woven 0 (by decide)
        (fun _ _ allowed => allowed) last [' ']
      refine ⟨first ++ [' '], [], ?_, by simp [item.trim_space_after]⟩
      rw [List.intercalate_singleton, found]
      rfl
  | cons second rest ih =>
      have item := each first (by simp)
      obtain ⟨last', found⟩ := cutMembers_append item.woven 0 (by decide)
        (fun _ _ allowed => allowed) last
        (';' :: ' ' :: ([';', ' '].intercalate (second :: rest) ++ [' ']))
      obtain ⟨head, tail, found', trimmed⟩ := ih second (fun member among =>
        each member (List.mem_cons_of_mem _ among)) none
      refine ⟨first, (' ' :: head) :: tail, ?_, by simpa [trim_space, item.tidy.trim_eq] using trimmed⟩
      rw [List.intercalate_cons_cons, List.append_assoc, List.append_assoc]
      simp only [List.cons_append, List.nil_append]
      rw [found]
      simp [cutMembers, isQuote, endsMember, bracketStep, isBlank, found', prependFirst]

theorem members_joined (first : List Char) (rest : List (List Char))
    (each : ∀ member ∈ first :: rest, Item IsMemberPart member) :
    members (' ' :: ([';', ' '].intercalate (first :: rest) ++ [' '])) = first :: rest := by
  obtain ⟨head, tail, found, trimmed⟩ := cutMembers_joined first rest each none
  have body : cutMembers 0 none none (' ' :: ([';', ' '].intercalate (first :: rest) ++ [' '])) =
      (' ' :: head, tail) := by
    simp [cutMembers, isQuote, endsMember, bracketStep, isBlank, found]
  have trimmed' : ((' ' :: head) :: tail).map trim = first :: rest := by
    simpa [trim_space] using trimmed
  simp only [members, body, trimmed']
  refine List.filter_eq_self.mpr fun member among => ?_
  simpa using (each member among).some_

end Members

end Conform.Expr
