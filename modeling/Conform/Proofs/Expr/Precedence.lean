import Conform.Proofs.Expr.Segments
import Conform.Resolver.Resolve

/-!
What becomes of an expression when it is split at its operators and its `&` are joined again: only
white space is lost, and the parts of every run of `&` can be had again.
-/

namespace Conform.Expr

open Text

def Token.text : Token → List Char
  | operand text => text
  | operator connective => [connective.symbol]

section Tight

def isSpare (before after : List Char) : Bool :=
  (trimEnd before).isEmpty || (trimStart after).isEmpty ||
    ((trimStart after).head?.any isOperator && decide (IsOutside before)) ||
    ((trimEnd before).getLast?.any isOperator && decide (IsOutside (trimEnd before).dropLast))

def tightAfter (before : List Char) : List Char → List Char
  | [] => []
  | c :: after =>
    if isBlank c && isSpare before after then tightAfter (before ++ [c]) after
    else c :: tightAfter (before ++ [c]) after

/-- The expression without the white space at its ends and around its operators. -/
def tight (expr : List Char) : List Char :=
  tightAfter [] expr

variable {before text after run : List Char}

theorem tightAfter_spare (blank : ∀ c ∈ run, isBlank c)
    (spare : ∀ earlier c later, run = earlier ++ c :: later → isSpare (before ++ earlier) (later ++ after)) :
    tightAfter before (run ++ after) = tightAfter (before ++ run) after := by
  induction run generalizing before with
  | nil => simp
  | cons c run ih =>
      obtain ⟨first, others⟩ := List.forall_mem_cons.mp blank
      have here : isSpare before (run ++ after) := by simpa using spare [] c run rfl
      rw [List.cons_append, tightAfter, if_pos (by simp [first, here]), ih others]
      · simp
      · rintro earlier d later rfl
        simpa using spare (c :: earlier) d later rfl

theorem tightAfter_kept
    (kept : ∀ earlier c later, text = earlier ++ c :: later → isBlank c →
      isSpare (before ++ earlier) (later ++ after) = false) :
    tightAfter before (text ++ after) = text ++ tightAfter (before ++ text) after := by
  induction text generalizing before with
  | nil => simp
  | cons c text ih =>
      have here : (isBlank c && isSpare before (text ++ after)) = false := by
        by_cases blank : isBlank c
        · have spare := kept [] c text rfl blank
          simpa [blank] using spare
        · simp [blank]
      rw [List.cons_append, tightAfter, here, if_neg (by simp), ih]
      · simp
      · rintro earlier d later rfl
        simpa using kept (c :: earlier) d later rfl

theorem trimEnd_append (blank : ∀ c ∈ run, isBlank c) : trimEnd (before ++ run) = trimEnd before := by
  unfold trimEnd
  rw [List.reverse_append,
    List.dropWhile_append_of_pos fun c member => blank c (List.mem_reverse.mp member)]

theorem trimStart_append (blank : ∀ c ∈ run, isBlank c) : trimStart (run ++ after) = trimStart after :=
  List.dropWhile_append_of_pos fun c member => blank c member

theorem exists_first (visible : ¬∀ c ∈ text, isBlank c) :
    ∃ earlier c later, text = earlier ++ c :: later ∧ (∀ d ∈ earlier, isBlank d) ∧ isBlank c = false := by
  have parts : text = text.takeWhile isBlank ++ trimStart text := List.takeWhile_append_dropWhile.symm
  cases rest : trimStart text with
  | nil =>
      rw [rest, List.append_nil] at parts
      rw [parts] at visible
      exact absurd (isBlank_takeWhile text) visible
  | cons c later =>
      refine ⟨text.takeWhile isBlank, c, later, rest ▸ parts, isBlank_takeWhile text, ?_⟩
      exact trimStart_head text c (by rw [rest]; rfl)

theorem exists_last (visible : ¬∀ c ∈ text, isBlank c) :
    ∃ earlier c later, text = earlier ++ c :: later ∧ isBlank c = false ∧ ∀ d ∈ later, isBlank d := by
  have reversed : ¬∀ c ∈ text.reverse, isBlank c := by simpa using visible
  obtain ⟨later, c, earlier, parts, blank, visible⟩ := exists_first reversed
  refine ⟨earlier.reverse, c, later.reverse, ?_, visible, by simpa using blank⟩
  rw [← List.reverse_reverse text, parts]
  simp

theorem visible_start (trimmed : Trimmed (text ++ after)) (some_ : text ≠ []) :
    ¬∀ c ∈ text, isBlank c := by
  intro white
  obtain ⟨c, rest, rfl⟩ := List.exists_cons_of_ne_nil some_
  have visible := trimmed.starts c rfl
  simp [white c (by simp)] at visible

theorem visible_end (trimmed : Trimmed (before ++ text)) (some_ : text ≠ []) :
    ¬∀ c ∈ text, isBlank c := by
  intro white
  have last : text.getLast some_ ∈ (before ++ text).getLast? := by
    rw [List.getLast?_append_of_ne_nil before some_]
    exact List.getLast?_eq_some_getLast some_
  have visible := trimmed.ends _ last
  simp [white _ (List.getLast_mem some_)] at visible

theorem isSpare_inside {lead earlier later trail : List Char} (segment : Segment text) {c : Char}
    (blank : isBlank c) (parts : text = lead ++ (earlier ++ c :: later) ++ trail)
    (outside : IsOutside before) (starts : ¬∀ d ∈ earlier, isBlank d) (ends : ¬∀ d ∈ later, isBlank d) :
    isSpare (before ++ lead ++ earlier) (later ++ (trail ++ after)) = false := by
  obtain ⟨first, d, middle, rfl, visible, white⟩ := exists_last starts
  obtain ⟨white', e, last, rfl, blanks, visible'⟩ := exists_first ends
  have left : trimEnd (before ++ lead ++ (first ++ d :: middle)) = before ++ lead ++ first ++ [d] := by
    have apart : before ++ lead ++ (first ++ d :: middle) = before ++ lead ++ first ++ [d] ++ middle := by
      simp
    rw [apart, trimEnd_append white]
    exact trimEnd_eq (by simpa using visible)
  have right : trimStart (white' ++ e :: last ++ (trail ++ after)) = e :: last ++ (trail ++ after) := by
    rw [List.append_assoc, trimStart_append blanks]
    exact trimStart_cons visible' _
  have notLeft : (isOperator d && decide (IsOutside (before ++ lead ++ first))) = false := by
    by_contra both
    simp only [Bool.not_eq_false, Bool.and_eq_true, decide_eq_true_eq] at both
    have reached : IsOutside (before ++ (lead ++ first)) := by simpa using both.2
    have inner := segment.uncut (lead ++ first) d (middle ++ c :: (white' ++ e :: last) ++ trail)
      (by simp [parts]) ((outside.append_iff _).mp reached)
    simp [inner] at both
  have notRight :
      (isOperator e && decide (IsOutside (before ++ lead ++ (first ++ d :: middle)))) = false := by
    by_contra both
    simp only [Bool.not_eq_false, Bool.and_eq_true, decide_eq_true_eq] at both
    -- The white space up to the operator changes nothing.
    have reached : IsOutside (before ++ (lead ++ (first ++ d :: middle) ++ c :: white')) := by
      rw [← List.append_assoc]
      refine (isOutside_append_blank (List.forall_mem_cons.mpr ⟨blank, blanks⟩)).mpr ?_
      simpa using both.2
    have inner := segment.uncut (lead ++ (first ++ d :: middle) ++ c :: white') e (last ++ trail)
      (by simp [parts]) ((outside.append_iff _).mp reached)
    simp [inner] at both
  simp only [isSpare, left, right, List.getLast?_concat, List.dropLast_concat, Option.any_some, notLeft,
    List.cons_append, List.head?_cons, notRight, Bool.or_false, List.isEmpty_cons]
  simp

def Begins (before : List Char) : Prop :=
  before = [] ∨ ∃ front c, before = front ++ [c] ∧ isOperator c ∧ IsOutside front

def Ends (after : List Char) : Prop :=
  after = [] ∨ ∃ c rest, after = c :: rest ∧ isOperator c

theorem isSpare_before (begins : Begins before) (blank : ∀ c ∈ run, isBlank c) (after : List Char) :
    isSpare (before ++ run) after := by
  have left : trimEnd (before ++ run) = trimEnd before := trimEnd_append blank
  unfold isSpare
  rw [left]
  rcases begins with rfl | ⟨front, c, rfl, operator, outside⟩
  · simp [trimEnd]
  · have ends : trimEnd (front ++ [c]) = front ++ [c] :=
      trimEnd_eq (by simpa using isBlank_of_isOperator operator)
    simp [ends, operator, outside]

theorem isSpare_after (ends : Ends after) (outside : IsOutside before) (blank : ∀ c ∈ run, isBlank c) :
    isSpare before (run ++ after) := by
  have right : trimStart (run ++ after) = trimStart after := trimStart_append blank
  unfold isSpare
  rw [right]
  rcases ends with rfl | ⟨c, rest, rfl, operator⟩
  · simp [trimStart]
  · have starts : trimStart (c :: rest) = c :: rest := trimStart_cons (isBlank_of_isOperator operator) rest
    simp [starts, operator, outside]

theorem tightAfter_segment (segment : Segment text) (begins : Begins before)
    (outside : IsOutside before) (ends : Ends after) :
    tightAfter before (text ++ after) = trim text ++ tightAfter (before ++ text) after := by
  obtain ⟨lead, trail, blank, parts⟩ := exists_trim text
  have trimmed := trimmed_trim text
  generalize trim text = core at parts trimmed ⊢
  obtain ⟨blankLead, blankTrail⟩ := List.forall_mem_append.mp blank
  have first : tightAfter before (lead ++ (core ++ (trail ++ after))) =
      tightAfter (before ++ lead) (core ++ (trail ++ after)) := by
    refine tightAfter_spare blankLead fun earlier c later run => ?_
    rw [run] at blankLead
    exact isSpare_before begins (fun d member => blankLead d (by simp [member])) _
  have second : tightAfter (before ++ lead) (core ++ (trail ++ after)) =
      core ++ tightAfter (before ++ lead ++ core) (trail ++ after) := by
    refine tightAfter_kept fun earlier c later inner blank => ?_
    rw [inner] at parts trimmed
    refine isSpare_inside segment blank parts outside (fun white => ?_) fun white => ?_
    · rw [List.append_cons] at trimmed
      refine visible_start trimmed (by simp) fun d member => ?_
      rcases List.mem_append.mp member with member | member
      · exact white d member
      · rwa [List.mem_singleton.mp member]
    · exact visible_end trimmed (List.cons_ne_nil c later) (List.forall_mem_cons.mpr ⟨blank, white⟩)
  have third : tightAfter (before ++ lead ++ core) (trail ++ after) =
      tightAfter (before ++ lead ++ core ++ trail) after := by
    refine tightAfter_spare blankTrail fun earlier c later run => ?_
    rw [run] at blankTrail
    refine isSpare_after ends ?_ fun d member => blankTrail d (by simp [member])
    have balanced := segment.balanced
    rw [parts, isOutside_append_blank (fun d member => blank d (by simp [member]))] at balanced
    rw [isOutside_append_blank (fun d member => blankTrail d (by simp [member])), List.append_assoc]
    exact (outside.append_iff _).mpr balanced
  rw [parts, List.append_assoc, List.append_assoc, first, second, third]
  simp

theorem tightAfter_symbol (connective : Connective) :
    tightAfter before (connective.symbol :: after) =
      connective.symbol :: tightAfter (before ++ [connective.symbol]) after := by
  have visible : isBlank connective.symbol = false := by cases connective <;> rfl
  simp [tightAfter, visible]

theorem isOutside_symbol (connective : Connective) : IsOutside [connective.symbol] := by
  cases connective <;> rfl

theorem isOperator_symbol (connective : Connective) : isOperator connective.symbol := by
  cases connective <;> rfl

theorem tightAfter_source {first : List Char} {rest : List (Connective × List Char)}
    (segment : Segment first) (others : ∀ part ∈ rest, Segment part.2) (begins : Begins before)
    (outside : IsOutside before) :
    tightAfter before (Cut.source ⟨first, rest⟩) =
      (interleaved (trim first) (rest.map fun part => (part.1, trim part.2))).flatMap Token.text := by
  induction rest generalizing first before with
  | nil =>
      have whole := tightAfter_segment segment begins outside (.inl rfl)
      simpa [Cut.source, interleaved, Token.text, tightAfter] using whole
  | cons part rest ih =>
      obtain ⟨connective, second⟩ := part
      obtain ⟨segment', later⟩ := List.forall_mem_cons.mp others
      have reached : IsOutside (before ++ first) := (outside.append_iff _).mpr segment.balanced
      have begins' : Begins (before ++ first ++ [connective.symbol]) :=
        .inr ⟨_, _, rfl, isOperator_symbol connective, reached⟩
      have onward := ih segment' later begins' ((reached.append_iff _).mpr (isOutside_symbol connective))
      have source : Cut.source ⟨first, (connective, second) :: rest⟩ =
          first ++ connective.symbol :: Cut.source ⟨second, rest⟩ := by
        simp [Cut.source]
      rw [source, tightAfter_segment segment begins outside
        (.inr ⟨_, _, rfl, isOperator_symbol connective⟩), tightAfter_symbol, onward]
      simp [interleaved, Token.text]

end Tight

section Merged

open Resolve (operands)

def runs (tokens : List Token) : List (List Token) :=
  tokens.splitOn (.operator .or)

def fused (run : List Token) : Token :=
  .operand (['&'].intercalate (operands run))

variable {first : List Char} {rest : List (Connective × List Char)}

@[simp] theorem operands_operand (text : List Char) (tokens : List Token) :
    operands (.operand text :: tokens) = text :: operands tokens := rfl

@[simp] theorem operands_operator (connective : Connective) (tokens : List Token) :
    operands (.operator connective :: tokens) = operands tokens := rfl

theorem interleaved_cons (connective : Connective) (second : List Char) :
    interleaved first ((connective, second) :: rest) =
      .operand first :: .operator connective :: interleaved second rest := rfl

def conjunction (first : List Char) (others : List (List Char)) : List Token :=
  interleaved first (others.map fun text => (.and, text))

theorem operands_conjunction (others : List (List Char)) :
    operands (conjunction first others) = first :: others := by
  induction others generalizing first with
  | nil => rfl
  | cons second others ih => simpa [conjunction, interleaved_cons] using ih

theorem runs_single (first : List Char) : runs (interleaved first []) = [conjunction first []] := by
  simp [runs, List.splitOn_cons_eq_if_modifyHead, interleaved, conjunction]

theorem runs_or (second : List Char) :
    runs (interleaved first ((.or, second) :: rest)) =
      conjunction first [] :: runs (interleaved second rest) := by
  simp [runs, List.splitOn_cons_eq_if_modifyHead, interleaved_cons]
  rfl

theorem runs_and (second : List Char) :
    runs (interleaved first ((.and, second) :: rest)) =
      (runs (interleaved second rest)).modifyHead fun run => .operand first :: .operator .and :: run := by
  simp [runs, List.splitOn_cons_eq_if_modifyHead, interleaved_cons, List.modifyHead_modifyHead,
    Function.comp_def]

theorem exists_runs (first : List Char) (rest : List (Connective × List Char)) :
    ∃ (others : List (List Char)) (later : List (List Char × List (List Char))),
      runs (interleaved first rest) =
        conjunction first others :: later.map (fun run => conjunction run.1 run.2) ∧
      others ++ later.flatMap (fun run => run.1 :: run.2) = rest.map Prod.snd := by
  induction rest generalizing first with
  | nil => exact ⟨[], [], runs_single first, rfl⟩
  | cons part rest ih =>
      obtain ⟨connective, second⟩ := part
      obtain ⟨others, later, found, same⟩ := ih second
      cases connective with
      | and =>
          refine ⟨second :: others, later, ?_, by simp [← same]⟩
          rw [runs_and, found]
          rfl
      | or =>
          refine ⟨[], (second, others) :: later, ?_, by simp [← same]⟩
          rw [runs_or, found]
          rfl

theorem mem_interleaved {text : List Char} :
    .operand text ∈ interleaved first rest ↔ text ∈ first :: rest.map Prod.snd := by
  simp only [interleaved, List.mem_cons, Token.operand.injEq, List.mem_flatMap, List.not_mem_nil,
    reduceCtorEq, false_or, or_false, List.mem_map]
  apply or_congr_right
  constructor
  · rintro ⟨part, member, rfl⟩
    exact ⟨part, member, rfl⟩
  · rintro ⟨part, member, rfl⟩
    exact ⟨part, member, rfl⟩

theorem mem_interleaved_operator {connective : Connective} :
    .operator connective ∈ interleaved first rest ↔ ∃ part ∈ rest, part.1 = connective := by
  simp only [interleaved, List.mem_cons, List.mem_flatMap, List.not_mem_nil, reduceCtorEq, false_or,
    or_false, Token.operator.injEq]
  constructor
  · rintro ⟨part, member, rfl⟩
    exact ⟨part, member, rfl⟩
  · rintro ⟨part, member, rfl⟩
    exact ⟨part, member, rfl⟩

theorem exists_of_mem_runs {run : List Token} (among : run ∈ runs (interleaved first rest)) :
    ∃ head others, run = conjunction head others ∧
      ∀ text ∈ head :: others, text ∈ first :: rest.map Prod.snd := by
  obtain ⟨others, later, found, same⟩ := exists_runs first rest
  rw [found] at among
  rw [← same]
  rcases List.mem_cons.mp among with rfl | among
  · refine ⟨first, others, rfl, fun text member => ?_⟩
    rw [← List.cons_append]
    exact List.mem_append_left _ member
  · obtain ⟨⟨head, others'⟩, member, rfl⟩ := List.mem_map.mp among
    refine ⟨head, others', rfl, fun text inside => ?_⟩
    refine List.mem_cons_of_mem first (List.mem_append_right others ?_)
    exact List.mem_flatMap.mpr ⟨_, member, inside⟩

theorem fuseAnds_interleaved (first : List Char) (rest : List (Connective × List Char)) :
    fuseAnds (interleaved first rest) =
      ((runs (interleaved first rest)).map fused).intersperse (.operator .or) := by
  induction rest generalizing first with
  | nil =>
      rw [runs_single]
      simp [fused, operands_conjunction, interleaved, fuseAnds]
  | cons part rest ih =>
      obtain ⟨connective, second⟩ := part
      obtain ⟨others, later, found, _⟩ := exists_runs second rest
      have onward := ih second
      rw [found] at onward
      cases connective with
      | and =>
          rw [runs_and, interleaved_cons, fuseAnds, onward, found]
          cases later with
          | nil => simp [fused, operands_conjunction]
          | cons run later => simp [fused, operands_conjunction]
      | or =>
          rw [runs_or, interleaved_cons, fuseAnds, fuseAnds, onward, found]
          · simp [fused, operands_conjunction]
          · simp
          · simp

/-- A run is had again from the operand that it is joined to. -/
theorem tokens_fused (others : List (List Char)) (each : ∀ text ∈ first :: others, IsOperand text) :
    tokens (['&'].intercalate (first :: others)) = .ok (conjunction first others) := by
  have source : ['&'].intercalate (first :: others) =
      Cut.source ⟨first, others.map fun text => (.and, text)⟩ := by
    clear each
    induction others generalizing first with
    | nil => simp [Cut.source]
    | cons second others ih =>
        rw [List.intercalate_cons_cons, ih]
        simp [Cut.source, Connective.symbol]
  rw [source]
  refine tokens_source (each first (by simp)) fun part member => ?_
  obtain ⟨text, among, rfl⟩ := List.mem_map.mp member
  exact each text (by simp [among])

theorem mem_intersperse {α : Type} {separator item : α} {items : List α}
    (member : item ∈ items.intersperse separator) : item = separator ∨ item ∈ items := by
  induction items with
  | nil => cases member
  | cons first items ih =>
      cases items with
      | nil => exact .inr member
      | cons second items =>
          rw [List.intersperse_cons_cons, List.mem_cons, List.mem_cons] at member
          rcases member with rfl | rfl | member
          · exact .inr (by simp)
          · exact .inl rfl
          · exact (ih member).imp id (List.mem_cons_of_mem first)

/-- Where both operators occur, the operands are the runs of `&`, joined. -/
theorem mergeAnds_interleaved_both (both : .operator .and ∈ interleaved first rest ∧
      .operator .or ∈ interleaved first rest) :
    mergeAnds (interleaved first rest) =
      ((runs (interleaved first rest)).map fused).intersperse (.operator .or) :=
  (if_pos both).trans (fuseAnds_interleaved first rest)

theorem mergeAnds_uniform (first : List Char) (rest : List (Connective × List Char)) :
    ∃ connective, ∀ other, .operator other ∈ mergeAnds (interleaved first rest) →
      other = connective := by
  by_cases both : .operator .and ∈ interleaved first rest ∧ .operator .or ∈ interleaved first rest
  · refine ⟨.or, fun other member => ?_⟩
    rw [mergeAnds_interleaved_both both] at member
    rcases mem_intersperse member with same | among
    · cases same
      rfl
    · obtain ⟨run, _, same⟩ := List.mem_map.mp among
      cases same
  · rw [mergeAnds, if_neg both]
    by_cases ands : .operator .and ∈ interleaved first rest
    · refine ⟨.and, fun other member => ?_⟩
      cases other with
      | and => rfl
      | or => exact absurd ⟨ands, member⟩ both
    · refine ⟨.or, fun other member => ?_⟩
      cases other with
      | and => exact absurd member ands
      | or => rfl

end Merged

end Conform.Expr
