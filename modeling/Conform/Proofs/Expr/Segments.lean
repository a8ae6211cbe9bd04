import Conform.Proofs.Expr.Endings
import Conform.Proofs.Expr.Scan

/-!
Expressions cut at their operators. A cut is right when each of its segments closes all that it opens
and holds no operator outside; there is one such cut at most, and cutting finds it.
-/

namespace Conform.Expr

open Text

structure Context where
  nesting : Nesting := {}
  quote : Option Char := none
deriving DecidableEq

namespace Context

def after? (context : Context) (c : Char) : Option Context :=
  if context.quote.isSome || isQuote c then
    some { context with quote := quoteAfter context.quote c }
  else (context.nesting.after? c).map fun nesting => { nesting }

def through? (context : Context) (text : List Char) : Option Context :=
  text.foldlM after? context

@[simp] theorem through?_nil (context : Context) : context.through? [] = some context := rfl

@[simp] theorem through?_cons (context : Context) (c : Char) (text : List Char) :
    context.through? (c :: text) = (context.after? c).bind fun context => context.through? text := rfl

theorem through?_append (context : Context) (text rest : List Char) :
    context.through? (text ++ rest) =
      (context.through? text).bind fun context => context.through? rest :=
  List.foldlM_append

theorem through?_append_of {context middle : Context} {text : List Char}
    (passed : context.through? text = some middle) (rest : List Char) :
    context.through? (text ++ rest) = middle.through? rest := by
  rw [through?_append, passed]
  rfl

end Context

def IsOutside (before : List Char) : Prop :=
  ({} : Context).through? before = some {}

instance (before : List Char) : Decidable (IsOutside before) :=
  inferInstanceAs (Decidable (_ = _))

theorem IsOutside.append_iff {before : List Char} (outside : IsOutside before) (text : List Char) :
    IsOutside (before ++ text) ↔ IsOutside text := by
  rw [IsOutside, Context.through?_append_of outside]
  rfl

def Uncut (context : Context) (text : List Char) : Prop :=
  ∀ before c after, text = before ++ c :: after → context.through? before = some {} →
    isOperator c = false

theorem uncut_cons {context : Context} {c : Char} {text : List Char} :
    Uncut context (c :: text) ↔ (context = {} → isOperator c = false) ∧
      ∀ next, context.after? c = some next → Uncut next text := by
  constructor
  · intro uncut
    refine ⟨fun outside => uncut [] c text rfl (by rw [outside]; rfl), ?_⟩
    rintro next step before d after rfl passed
    refine uncut (c :: before) d after rfl ?_
    rw [Context.through?_cons, step]
    exact passed
  · rintro ⟨first, others⟩ before d after parts passed
    cases before with
    | nil =>
        cases parts
        exact first (Option.some.inj passed)
    | cons e before =>
        cases parts
        rw [Context.through?_cons] at passed
        obtain ⟨next, step, passed⟩ := Option.bind_eq_some_iff.mp passed
        exact others next step before d after rfl passed

structure Segment (text : List Char) : Prop where
  balanced : IsOutside text
  uncut : Uncut {} text

section Step

variable {context next : Context} {c : Char}

theorem cutFrom?_literal (literal : context.quote.isSome || isQuote c)
    (step : context.after? c = some next) (rest : List Char) :
    cutFrom? context.nesting context.quote (c :: rest) =
      (cutFrom? next.nesting next.quote rest).map (Cut.extend c) := by
  simp only [Context.after?, literal, if_true, Option.some.injEq] at step
  subst step
  simp only [cutFrom?, literal, if_true]

theorem Nesting.after?_operator {c : Char} (operator : isOperator c) (nesting : Nesting) :
    nesting.after? c = some nesting := by
  rcases isOperator_iff.mp operator with rfl | rfl <;> rfl

theorem cutFrom?_inner (step : context.after? c = some next)
    (inner : context = {} → isOperator c = false) (rest : List Char) :
    cutFrom? context.nesting context.quote (c :: rest) =
      (cutFrom? next.nesting next.quote rest).map (Cut.extend c) := by
  by_cases literal : context.quote.isSome || isQuote c
  · exact cutFrom?_literal literal step rest
  · obtain ⟨nesting, quote⟩ := context
    obtain rfl : quote = none := by
      cases quote <;> simp_all
    simp only [Context.after?, literal, Bool.false_eq_true, if_false, Option.map_eq_some_iff] at step
    obtain ⟨nesting', opened, rfl⟩ := step
    -- An operator opens nothing, so one that is outside afterwards was outside before.
    have passes : (if nesting' = {} then Connective.ofChar? c else none) = none := by
      split
      · rename_i outside
        cases operator : Connective.ofChar? c with
        | none => rfl
        | some connective =>
            have isOp : isOperator c := by simp [isOperator, operator]
            rw [Nesting.after?_operator isOp, Option.some.injEq] at opened
            have none_ := inner (by rw [opened, outside])
            rw [isOp] at none_
            cases none_
      · rfl
    simp only [cutFrom?, literal, opened, passes, Bool.false_eq_true, if_false]

end Step

theorem cutFrom?_segment {context context' : Context} {text : List Char}
    (passed : context.through? text = some context') (uncut : Uncut context text) (rest : List Char) :
    cutFrom? context.nesting context.quote (text ++ rest) =
      (cutFrom? context'.nesting context'.quote rest).map (Cut.prepend text) := by
  induction text generalizing context with
  | nil =>
      cases passed
      rw [show Cut.prepend [] = id from rfl]
      simp
  | cons c text ih =>
      rw [Context.through?_cons] at passed
      obtain ⟨next, step, passed⟩ := Option.bind_eq_some_iff.mp passed
      obtain ⟨first, others⟩ := uncut_cons.mp uncut
      rw [List.cons_append, cutFrom?_inner step first, ih passed (others next step), Option.map_map]
      rfl

def Cut.source (cut : Cut) : List Char :=
  cut.first ++ cut.rest.flatMap fun (connective, text) => connective.symbol :: text

theorem symbol_of_ofChar? {c : Char} {connective : Connective}
    (found : Connective.ofChar? c = some connective) : connective.symbol = c := by
  unfold Connective.ofChar? at found
  split at found
  · cases found
    simp_all [Connective.symbol]
  · split at found
    · cases found
      simp_all [Connective.symbol]
    · cases found

structure Found (context : Context) (text : List Char) (cut : Cut) : Prop where
  source : cut.source = text
  balanced : context.through? cut.first = some {}
  uncut : Uncut context cut.first
  others : ∀ part ∈ cut.rest, Segment part.2

theorem Found.extend {context next : Context} {c : Char} {text : List Char} {cut : Cut}
    (step : context.after? c = some next) (inner : context = {} → isOperator c = false)
    (found : Found next text cut) : Found context (c :: text) (cut.extend c) where
  source := congrArg (c :: ·) found.source
  balanced := by
    rw [Cut.extend, Context.through?_cons, step]
    exact found.balanced
  uncut := by
    refine uncut_cons.mpr ⟨inner, fun other step' => ?_⟩
    rw [step] at step'
    cases step'
    exact found.uncut
  others := found.others

theorem found_of_cutFrom? {context : Context} {text : List Char} {cut : Cut}
    (found : cutFrom? context.nesting context.quote text = some cut) : Found context text cut := by
  induction text generalizing context cut with
  | nil =>
      simp only [cutFrom?] at found
      split at found
      · rename_i closed
        cases found
        obtain ⟨nesting, quote⟩ := context
        simp only [Bool.and_eq_true, decide_eq_true_eq, Option.isNone_iff_eq_none] at closed
        obtain ⟨rfl, rfl⟩ := closed
        exact ⟨rfl, rfl, fun before c after parts => by simp at parts, by simp⟩
      · cases found
  | cons c text ih =>
      obtain ⟨nesting, quote⟩ := context
      -- The scanner extends the first segment unless it is at an operator outside, where a new one begins.
      by_cases literal : quote.isSome || isQuote c
      · have step : (⟨nesting, quote⟩ : Context).after? c = some ⟨nesting, quoteAfter quote c⟩ := by
          simp only [Context.after?, literal, if_true]
        simp only [cutFrom?, literal, if_true] at found
        obtain ⟨inner, inside, rfl⟩ := Option.map_eq_some_iff.mp found
        have known : Found ⟨nesting, quoteAfter quote c⟩ text inner := ih inside
        refine known.extend step fun outside => ?_
        cases outside
        by_contra operator
        simp [isQuote_of_isOperator (by simpa using operator)] at literal
      · obtain rfl : quote = none := by
          cases quote <;> simp_all
        simp only [cutFrom?, literal, Bool.false_eq_true, if_false] at found
        split at found
        · cases found
        · rename_i nesting' opened
          have step : (⟨nesting, none⟩ : Context).after? c = some ⟨nesting', none⟩ := by
            simp only [Context.after?, literal, opened, Bool.false_eq_true, if_false, Option.map_some]
          split at found
          · rename_i connective joins
            obtain ⟨inner, inside, rfl⟩ := Option.map_eq_some_iff.mp found
            split at joins
            · rename_i outside
              have operator : isOperator c := by simp [isOperator, joins]
              rw [Nesting.after?_operator operator, Option.some.injEq] at opened
              subst opened
              subst outside
              have known : Found {} text inner := ih inside
              obtain ⟨source, balanced, uncut, others⟩ := known
              refine ⟨?_, rfl, fun before d after parts => by simp at parts, ?_⟩
              · rw [← source, ← symbol_of_ofChar? joins]
                rfl
              · exact List.forall_mem_cons.mpr ⟨⟨balanced, uncut⟩, others⟩
            · cases joins
          · rename_i joins
            obtain ⟨inner, inside, rfl⟩ := Option.map_eq_some_iff.mp found
            have known : Found ⟨nesting', none⟩ text inner := ih inside
            refine known.extend step fun outside => ?_
            cases outside
            by_contra operator
            have isOp : isOperator c := by simpa using operator
            rw [Nesting.after?_operator isOp, Option.some.injEq] at opened
            subst opened
            simp only [if_true] at joins
            simp [isOperator, joins] at isOp

/-- Cutting finds the segments of an expression and what is between them. -/
theorem cut?_eq_some {text : List Char} {cut : Cut} : cut? text = some cut ↔
    cut.source = text ∧ Segment cut.first ∧ ∀ part ∈ cut.rest, Segment part.2 := by
  constructor
  · intro found
    have known : Found {} text cut := found_of_cutFrom? found
    exact ⟨known.source, ⟨known.balanced, known.uncut⟩, known.others⟩
  · rintro ⟨rfl, segment, others⟩
    obtain ⟨first, rest⟩ := cut
    induction rest generalizing first with
    | nil =>
        have whole := cutFrom?_segment segment.balanced segment.uncut []
        simpa [cut?, cutFrom?, Cut.source, Cut.prepend] using whole
    | cons part rest ih =>
        obtain ⟨second, later⟩ := List.forall_mem_cons.mp others
        have found := ih part.2 second later
        have joined := cutFrom?_segment segment.balanced segment.uncut
          (part.1.symbol :: Cut.source ⟨part.2, rest⟩)
        rw [cutFrom?_symbol, show cutFrom? {} none _ = _ from found] at joined
        simpa [cut?, Cut.prepend, Cut.source] using joined

theorem Segment.cut? {text : List Char} (segment : Segment text) : cut? text = some ⟨text, []⟩ :=
  cut?_eq_some.mpr ⟨by simp [Cut.source], segment, by simp⟩

section Blank

theorem Context.after?_blank {context : Context} (opened : ∀ c ∈ context.quote, isQuote c) {c : Char}
    (blank : isBlank c) : context.after? c = some context := by
  obtain ⟨nesting, quote⟩ := context
  cases quote with
  | none =>
      have unquoted : isQuote c = false := by
        by_contra opens
        simp [isBlank_of_isQuote (by simpa using opens)] at blank
      simp [Context.after?, unquoted, Nesting.after?_blank nesting blank]
  | some quote =>
      have other : c ≠ quote := by
        rintro rfl
        simp [isBlank_of_isQuote (opened c rfl)] at blank
      simp [Context.after?, quoteAfter, other]

theorem Context.through?_blank {context : Context} (opened : ∀ c ∈ context.quote, isQuote c)
    {run : List Char} (blank : ∀ c ∈ run, isBlank c) : context.through? run = some context := by
  induction run with
  | nil => rfl
  | cons c run ih =>
      obtain ⟨first, others⟩ := List.forall_mem_cons.mp blank
      rw [Context.through?_cons, Context.after?_blank opened first]
      exact ih others

theorem Context.opened_through? {context context' : Context} {text : List Char}
    (opened : ∀ c ∈ context.quote, isQuote c) (passed : context.through? text = some context') :
    ∀ c ∈ context'.quote, isQuote c := by
  induction text generalizing context with
  | nil =>
      cases passed
      exact opened
  | cons c text ih =>
      rw [Context.through?_cons] at passed
      obtain ⟨next, step, passed⟩ := Option.bind_eq_some_iff.mp passed
      refine ih (fun d open_ => ?_) passed
      unfold Context.after? at step
      split at step
      · cases step
        cases known : context.quote with
        | none =>
            simp only [known, quoteAfter] at open_
            split at open_
            · rename_i opens
              exact Option.mem_some.mp open_ ▸ opens
            · cases open_
        | some quote =>
            simp only [known, quoteAfter] at open_
            split at open_
            · cases open_
            · exact opened d (known ▸ open_)
      · obtain ⟨nesting, _, rfl⟩ := Option.map_eq_some_iff.mp step
        cases open_

theorem isOutside_blank {run : List Char} (blank : ∀ c ∈ run, isBlank c) : IsOutside run :=
  Context.through?_blank (by simp) blank

variable {run before text after : List Char}

theorem isOutside_append_blank (blank : ∀ c ∈ run, isBlank c) :
    IsOutside (text ++ run) ↔ IsOutside text := by
  constructor
  · intro outside
    rw [IsOutside, Context.through?_append] at outside
    obtain ⟨context, passed, rest⟩ := Option.bind_eq_some_iff.mp outside
    rw [Context.through?_blank (Context.opened_through? (by simp) passed) blank] at rest
    cases rest
    exact passed
  · intro outside
    exact (outside.append_iff run).mpr (isOutside_blank blank)

theorem Segment.inner (segment : Segment (before ++ text ++ after)) (outside : IsOutside before)
    (outside' : IsOutside (before ++ text)) : Segment text where
  balanced := (outside.append_iff text).mp outside'
  uncut earlier c later parts passed := by
    subst parts
    refine segment.uncut (before ++ earlier) c (later ++ after) (by simp) ?_
    exact (outside.append_iff earlier).mpr passed

theorem Segment.trim (segment : Segment text) : Segment (trim text) := by
  obtain ⟨before, after, blank, parts⟩ := exists_trim text
  rw [parts] at segment
  refine segment.inner (isOutside_blank fun c member => blank c (by simp [member])) ?_
  exact (isOutside_append_blank fun c member => blank c (by simp [member])).mp segment.balanced

end Blank

structure IsOperand (text : List Char) : Prop extends Segment text where
  some_ : text ≠ []
  trimmed : trim text = text

def interleaved (first : List Char) (rest : List (Connective × List Char)) : List Token :=
  .operand first :: rest.flatMap fun (connective, text) => [.operator connective, .operand text]

/-- The tokens of an expression are the trimmed segments of its cut, if none of them is blank. -/
theorem tokens_eq_ok {text : List Char} {found : List Token} : tokens text = .ok found ↔
    ∃ cut, cut? text = some cut ∧ trim cut.first ≠ [] ∧ (∀ part ∈ cut.rest, trim part.2 ≠ []) ∧
      found = interleaved (trim cut.first) (cut.rest.map fun part => (part.1, trim part.2)) := by
  unfold tokens
  cases cut? text with
  | none => simp
  | some cut =>
      have visible : ((trim cut.first).isEmpty ||
            (cut.rest.map fun part => (part.1, trim part.2)).any fun part => part.2.isEmpty) = false ↔
          trim cut.first ≠ [] ∧ ∀ part ∈ cut.rest, trim part.2 ≠ [] := by
        simp [List.any_eq_false]
      constructor
      · intro split
        dsimp only at split
        split at split
        · cases split
        · rename_i none_
          obtain ⟨some_, others⟩ := visible.mp (by simpa using none_)
          exact ⟨cut, rfl, some_, others, (Except.ok.inj split).symm⟩
      · rintro ⟨_, ⟨⟩, some_, others, rfl⟩
        dsimp only
        rw [visible.mpr ⟨some_, others⟩]
        rfl

theorem exists_cut {text : List Char} {found : List Token} (split : tokens text = .ok found) :
    ∃ cut, cut? text = some cut ∧ IsOperand (trim cut.first) ∧
      (∀ part ∈ cut.rest, IsOperand (trim part.2)) ∧
      found = interleaved (trim cut.first) (cut.rest.map fun part => (part.1, trim part.2)) := by
  obtain ⟨cut, cutting, some_, visible, rfl⟩ := tokens_eq_ok.mp split
  obtain ⟨_, segment, others⟩ := cut?_eq_some.mp cutting
  refine ⟨cut, cutting, ⟨segment.trim, some_, (trimmed_trim _).trim_eq⟩, ?_, rfl⟩
  exact fun part member => ⟨(others part member).trim, visible part member, (trimmed_trim _).trim_eq⟩

theorem tokens_source {first : List Char} {rest : List (Connective × List Char)}
    (operand : IsOperand first) (others : ∀ part ∈ rest, IsOperand part.2) :
    tokens (Cut.source ⟨first, rest⟩) = .ok (interleaved first rest) := by
  have cutting : cut? (Cut.source ⟨first, rest⟩) = some ⟨first, rest⟩ :=
    cut?_eq_some.mpr ⟨rfl, operand.toSegment, fun part member => (others part member).toSegment⟩
  have trimmed : rest.map (fun part => (part.1, trim part.2)) = rest := by
    refine (List.map_congr_left fun part member => ?_).trans (List.map_id rest)
    rw [(others part member).trimmed]
    rfl
  refine tokens_eq_ok.mpr ⟨_, cutting, ?_, fun part member => ?_, ?_⟩
  · rw [operand.trimmed]
    exact operand.some_
  · rw [(others part member).trimmed]
    exact (others part member).some_
  · rw [operand.trimmed, trimmed]

theorem tokens_join {text text' : List Char} {found found' : List Token} (connective : Connective)
    (split : tokens text = .ok found) (split' : tokens text' = .ok found') :
    tokens (text ++ connective.symbol :: text') = .ok (found ++ .operator connective :: found') := by
  obtain ⟨cut, cutting, some_, visible, rfl⟩ := tokens_eq_ok.mp split
  obtain ⟨cut', cutting', some', visible', rfl⟩ := tokens_eq_ok.mp split'
  obtain ⟨rfl, segment, others⟩ := cut?_eq_some.mp cutting
  obtain ⟨rfl, segment', others'⟩ := cut?_eq_some.mp cutting'
  refine tokens_eq_ok.mpr
    ⟨⟨cut.first, cut.rest ++ (connective, cut'.first) :: cut'.rest⟩, cut?_eq_some.mpr ⟨?_, segment, ?_⟩,
      some_, ?_, ?_⟩
  · simp [Cut.source]
  · exact List.forall_mem_append.mpr ⟨others, List.forall_mem_cons.mpr ⟨segment', others'⟩⟩
  · exact List.forall_mem_append.mpr ⟨visible, List.forall_mem_cons.mpr ⟨some', visible'⟩⟩
  · simp [interleaved]

end Conform.Expr
