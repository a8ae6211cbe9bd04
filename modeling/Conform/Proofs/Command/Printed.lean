import Conform.Proofs.Command.Lines
import Conform.Proofs.Validator.Steps

/-!
What is printed, line by line. A document in the other format cannot print more than its own line. In the format for
readers the path of a failure is printed as it is, and where it has a line break, what follows looks like a line of
its own.
-/

namespace Conform.Command

open Validator (KeysHold StepsHold)

def Unbroken (text : String) : Prop :=
  '\n' ∉ text.toList

instance (text : String) : Decidable (Unbroken text) :=
  inferInstanceAs (Decidable ('\n' ∉ text.toList))

/-! ## Texts in lines -/

theorem length_splitOn (text : List Char) : (text.splitOn '\n').length = text.count '\n' + 1 := by
  unfold List.splitOn
  induction text with
  | nil => rfl
  | cons c text ih =>
      rw [List.splitOnP_cons_eq_if_modifyHead, List.count_cons]
      split
      next => rw [List.length_cons, ih]
      next => rw [List.length_modifyHead, ih, Nat.add_zero]

theorem count_flatMap_append (lines : List (List Char)) :
    (lines.flatMap (· ++ ['\n'])).count '\n' = lines.length + lines.flatten.count '\n' := by
  induction lines with
  | nil => rfl
  | cons line lines ih =>
      rw [List.flatMap_cons, List.count_append, List.count_append, ih, List.length_cons, List.flatten_cons,
        List.count_append, List.count_singleton_self]
      omega

theorem newline_not_mem_of_splitOn {lines lines' : List (List Char)} (same : lines.length = lines'.length)
    (splits : (lines.flatMap (· ++ ['\n'])).splitOn '\n' = lines' ++ [[]]) : ∀ line ∈ lines, '\n' ∉ line := by
  have counts := congrArg List.length splits
  rw [length_splitOn, count_flatMap_append, List.length_append, List.length_singleton] at counts
  have none_ : '\n' ∉ lines.flatten := List.count_eq_zero.mp (by omega)
  exact fun line member inside => none_ (List.mem_flatten.mpr ⟨line, member, inside⟩)

theorem toList_join (lines : List String) :
    (String.join (lines.map (· ++ "\n"))).toList = (lines.map String.toList).flatMap (· ++ ['\n']) := by
  simp [String.toList_join, List.flatMap_map]

/-! ## Labels and paths -/

theorem unbroken_nat (number : Nat) : Unbroken (toString number) :=
  (Json.printable_nat number).newline_not_mem

theorem Unbroken.append {text text' : String} (first : Unbroken text) (second : Unbroken text') :
    Unbroken (text ++ text') := by
  rw [Unbroken, String.toList_append, List.mem_append]
  exact not_or.mpr ⟨first, second⟩

theorem Unbroken.intercalate {separator : String} {parts : List String} (between : Unbroken separator)
    (each : ∀ part ∈ parts, Unbroken part) : Unbroken (separator.intercalate parts) := by
  rw [Unbroken, String.toList_intercalate]
  induction parts with
  | nil => exact List.not_mem_nil
  | cons part parts ih =>
      obtain ⟨first, others⟩ := List.forall_mem_cons.mp each
      by_cases none_ : parts = []
      · rw [none_, List.map_singleton, List.intercalate_singleton]
        exact first
      · rw [List.map_cons, List.intercalate_cons_of_ne_nil (by simpa using none_), List.mem_append, List.mem_append]
        exact not_or.mpr ⟨not_or.mpr ⟨first, between⟩, ih others⟩

section Labels

variable {surroundings : Surroundings} {choice : InputChoice}

theorem unbroken_pieces {lines : Bool} {path : FilePath} {text : String} (named : Unbroken path.text) :
    ∀ piece ∈ pieces lines path text, Unbroken piece.label := by
  intro piece member
  unfold pieces at member
  split at member
  next =>
    obtain ⟨⟨line, number⟩, _, rfl⟩ := List.mem_map.mp member
    have colon : Unbroken ":" := by decide
    exact (named.append colon).append (unbroken_nat number)
  next =>
    rw [List.mem_singleton.mp member]
    exact named

theorem unbroken_labelled {label : String} {outputs : List Json} (named : Unbroken label) :
    ∀ document ∈ labelled label outputs, Unbroken document.label := by
  intro document member
  unfold labelled at member
  split at member
  next =>
    obtain ⟨value, _, rfl⟩ := List.mem_map.mp member
    exact named
  next =>
    obtain ⟨⟨value, i⟩, _, rfl⟩ := List.mem_map.mp member
    have mark : Unbroken "#" := by decide
    exact (named.append mark).append (unbroken_nat i)

theorem unbroken_labels {documents : List Document} (loads : Loads surroundings choice documents)
    (named : ∀ paths, Expands surroundings choice.inputs paths → ∀ path ∈ paths, Unbroken path.text) :
    ∀ document ∈ documents, Unbroken document.label := by
  obtain ⟨paths, texts, groups, expands, all, gives, rfl⟩ := loads
  intro document member
  obtain ⟨group, among, member⟩ := List.mem_flatten.mp member
  obtain ⟨piece, inside, given⟩ := exists_of_forall₂ gives.flip among
  obtain ⟨before, path, after, text, rfl, _, own⟩ := all.of_mem inside
  obtain ⟨value, part, outputs, _, _, _, rfl⟩ := given
  exact unbroken_labelled (unbroken_pieces (named _ expands path (by simp)) piece own) document member

end Labels

theorem unbroken_message (code : Code) : Unbroken code.message := by
  cases code <;> decide

theorem unbroken_text_iff (outcome : Outcome) : Unbroken outcome.text ↔ Unbroken outcome.path := by
  unfold Outcome.text
  dsimp only
  split
  next nothing =>
    rw [String.isEmpty_iff.mp nothing]
    exact iff_of_true (unbroken_message _) (by decide)
  next =>
    have message := unbroken_message outcome.innermost
    have colon : Unbroken ": " := by decide
    refine ⟨fun whole inside => whole ?_, fun path => (path.append colon).append message⟩
    rw [String.toList_append, String.toList_append]
    exact List.mem_append_left _ (List.mem_append_left _ inside)

theorem unbroken_path {resolved : Resolved} {value : Json} {outcome : Outcome}
    (declares : Validator.Declares resolved.references Unbroken resolved.validator)
    (keys : KeysHold Unbroken (some value))
    (judged : resolved.validator.validate resolved.references (some value) = some outcome) :
    Unbroken outcome.path := by
  have operand (position : Nat) : Unbroken ("<Condition" ++ toString position ++ ">") := by
    have opens : Unbroken "<Condition" := by decide
    have closes : Unbroken ">" := by decide
    exact (opens.append (unbroken_nat position)).append closes
  have steps : StepsHold Unbroken outcome :=
    Validator.stepsHold_validate unbroken_nat operand declares keys judged
  have point : Unbroken "." := by decide
  exact point.intercalate steps

/-! ## Lines of a report -/

/-- A document that is refused at a path with a line break. -/
def Breaks (resolved : Resolved) (document : Document) : Prop :=
  ∃ outcome, resolved.validator.validate resolved.references (some document.value) = some outcome ∧
    outcome.isSuccess = false ∧ ¬Unbroken outcome.path

def reported (resolved : Resolved) (quiet : Bool) (documents : List Document) : List Document :=
  documents.filter fun document => !quiet || resolved.rejects document.value

/-- Each document has one line of the output, marked as its own, and there are no others. -/
def OneLineEach (resolved : Resolved) (format : Format) (documents : List Document) (output : String) : Prop :=
  ∃ lines, output.toList.splitOn '\n' = lines ++ [[]] ∧ List.Forall₂ (fun document line =>
    Marked format document.label (!resolved.rejects document.value) (String.ofList line)) documents lines

section Report

variable {resolved : Resolved} {documents : List Document} {verdicts : List Verdict} {format : Format} {quiet : Bool}

theorem Verdict.unbroken_line_iff {verdict : Verdict} (labelled : Unbroken verdict.label) :
    Unbroken (verdict.line format) ↔ format = .json ∨ verdict.outcome.isSuccess ∨ Unbroken verdict.outcome.path := by
  cases format with
  | json =>
      have written : Unbroken (verdict.line .json) := (Json.printable_write _).newline_not_mem
      exact iff_of_true written (.inl rfl)
  | text =>
      have mark : Unbroken "✓ " := by decide
      have mark' : Unbroken "✗ " := by decide
      have colon : Unbroken ": " := by decide
      simp only [line, text, reduceCtorEq, false_or]
      split
      next conforms => exact iff_of_true (mark.append labelled) (.inl conforms)
      next failed =>
        rw [← unbroken_text_iff, or_iff_right failed]
        refine ⟨fun whole inside => whole ?_, (((mark'.append labelled).append colon).append ·)⟩
        rw [String.toList_append]
        exact List.mem_append_right _ inside

theorem Checks.breaks_iff {document : Document} {verdict : Verdict} (checks : Checks resolved document verdict) :
    Breaks resolved document ↔ ¬(verdict.outcome.isSuccess ∨ Unbroken verdict.outcome.path) := by
  rw [not_or, Bool.not_eq_true]
  constructor
  · rintro ⟨outcome, found, failed⟩
    cases found.symm.trans checks.2
    exact failed
  · exact fun failed => ⟨verdict.outcome, checks.2, failed⟩

theorem oneLineEach_iff {lines : List (List Char)} {output : String}
    (marked : List.Forall₂ (fun document line =>
      Marked format document.label (!resolved.rejects document.value) (String.ofList line)) documents lines)
    (written : output.toList = lines.flatMap (· ++ ['\n'])) :
    OneLineEach resolved format documents output ↔ ∀ line ∈ lines, '\n' ∉ line := by
  rw [OneLineEach, written]
  constructor
  · rintro ⟨lines', splits, own⟩
    exact newline_not_mem_of_splitOn (marked.length_eq.symm.trans own.length_eq) splits
  · intro unbroken
    have splits := splitOn_flatMap_append unbroken List.not_mem_nil
    rw [List.append_nil] at splits
    exact ⟨lines, splits, marked⟩

theorem Checks.unbroken_line_iff {document : Document} {verdict : Verdict} (checks : Checks resolved document verdict)
    (labelled : Unbroken document.label) :
    Unbroken (verdict.line format) ↔ format = .json ∨ ¬Breaks resolved document := by
  have own : Unbroken verdict.label := by rwa [checks.1]
  rw [Verdict.unbroken_line_iff own, checks.breaks_iff, not_not]

theorem Checks.shown {document : Document} {verdict : Verdict} (checks : Checks resolved document verdict)
    (breaks : Breaks resolved document) : !quiet || !verdict.outcome.isSuccess := by
  have failed := (not_or.mp (checks.breaks_iff.mp breaks)).1
  rw [eq_false_of_ne_true failed, Bool.not_false, Bool.or_true]

/-- The report of a run has one line for each document unless it shows a path that breaks. -/
theorem oneLineEach_reportOf_iff (checks : List.Forall₂ (Checks resolved) documents verdicts)
    (labels : ∀ document ∈ documents, Unbroken document.label) :
    OneLineEach resolved format (reported resolved quiet documents) (reportOf format quiet verdicts).output ↔
      format = .json ∨ ∀ document ∈ documents, ¬Breaks resolved document := by
  let shown := verdicts.filter fun verdict => !quiet || !verdict.outcome.isSuccess
  have checked : List.Forall₂ (Checks resolved) (reported resolved quiet documents) shown :=
    List.rel_filter (fun _ _ same => by simp only [same.rejects]) checks
  have marked : List.Forall₂ (fun document line => Marked format document.label (!resolved.rejects document.value)
      (String.ofList line)) (reported resolved quiet documents)
      (shown.map fun verdict => (verdict.line format).toList) := by
    rw [List.forall₂_map_right_iff]
    refine checked.imp fun document verdict same => ?_
    rw [same.rejects, Bool.not_not, ← same.1, String.ofList_toList]
    exact verdict.marked_line format
  have written : (reportOf format quiet verdicts).output.toList =
      (shown.map fun verdict => (verdict.line format).toList).flatMap (· ++ ['\n']) := by
    show (String.join ((shown.map (Verdict.line format)).map (· ++ "\n"))).toList = _
    rw [toList_join, List.map_map]
    rfl
  rw [oneLineEach_iff marked written, List.forall_mem_map]
  constructor
  · refine fun unbroken => or_iff_not_imp_left.mpr fun text document member breaks => ?_
    obtain ⟨verdict, among, same⟩ := exists_of_forall₂ checks member
    have same : Checks resolved document verdict := same
    have line := unbroken verdict (List.mem_filter.mpr ⟨among, same.shown breaks⟩)
    exact ((same.unbroken_line_iff (labels document member)).mp line).elim text (· breaks)
  · intro free verdict member
    obtain ⟨document, among, same⟩ := exists_of_forall₂ checks.flip (List.mem_filter.mp member).1
    have same : Checks resolved document verdict := same
    exact (same.unbroken_line_iff (labels document among)).mpr (free.imp_right fun none_ => none_ document among)

end Report

/-- What is printed by a run that comes to an end has one line for each document, in both formats, but for one thing:
in the format for readers a path is printed with its line breaks. It has none where no key of the document and no name
that the type declares has one. -/
theorem one_line_each {surroundings : Surroundings} {type : TypeChoice} {choice : InputChoice} {format : Format}
    {quiet : Bool} {report : Report}
    (answer : (ending surroundings (.check type choice format quiet)).run = some (.ok report))
    (named : ∀ paths, Expands surroundings choice.inputs paths → ∀ path ∈ paths, Unbroken path.text) :
    ∃ resolved documents, (resolveType surroundings type).run = some (.ok resolved) ∧
      Loads surroundings choice documents ∧
      (OneLineEach resolved format (reported resolved quiet documents) report.output ↔
        format = .json ∨ ∀ document ∈ documents, ¬Breaks resolved document) ∧
      (Validator.Declares resolved.references Unbroken resolved.validator →
        ∀ document ∈ documents, KeysHold Unbroken (some document.value) → ¬Breaks resolved document) := by
  obtain ⟨resolved, documents, verdicts, resolves, loads, checks, rfl⟩ := ending_eq_ok.mp answer
  refine ⟨resolved, documents, resolves, loads, oneLineEach_reportOf_iff checks (unbroken_labels loads named), ?_⟩
  rintro declares document - keys ⟨outcome, judged, -, breaks⟩
  exact breaks (unbroken_path declares keys judged)

/-- Two documents, one of them refused at a key of its own. -/
theorem one_line_each_two :
    let surroundings : Surroundings := {
      declarations := {}
      read := fun path => if path.text = "d.json" then .ok "\x7b\"x\": 1\x7d" else .ok "\x7b\x7d"
      expand := fun _ => .ok []
      input := .ok ""
      filter := fun _ value => .ok [value] }
    let type : TypeChoice := ⟨none, "\x7b a?: number \x7d", false, none⟩
    let choice : InputChoice := ⟨false, none, none, ["d.json", "e.json"]⟩
    ∃ resolved documents report, (resolveType surroundings type).run = some (.ok resolved) ∧
      Loads surroundings choice documents ∧
      (ending surroundings (.check type choice .text false)).run = some (.ok report) ∧
      report.output = "✗ d.json: x: Disallowed field\n✓ e.json\n" ∧
      OneLineEach resolved .text (reported resolved false documents) report.output := by
  intro surroundings type choice
  have written : ((ending surroundings (.check type choice .text false)).run.map fun ended => (effect ended).output) =
      some "✗ d.json: x: Disallowed field\n✓ e.json\n" := by decide +kernel
  have unbroken : (((resolveType surroundings type).run.bind (·.toOption)).bind fun resolved =>
      (loadDocuments surroundings choice).toOption.map fun documents => documents.all fun document =>
        (resolved.validator.validate resolved.references (some document.value)).all fun outcome =>
          Unbroken outcome.path) = some true := by decide +kernel
  obtain ⟨report, answer⟩ : ∃ report, (ending surroundings (.check type choice .text false)).run = some (.ok report) :=
    exists_run_eq_ok (by decide +kernel)
  have named : ∀ paths, Expands surroundings choice.inputs paths → ∀ path ∈ paths, Unbroken path.text := by
    intro paths expands
    have own : Expands surroundings choice.inputs [⟨"d.json"⟩, ⟨"e.json"⟩] :=
      ⟨[[⟨"d.json"⟩], [⟨"e.json"⟩]], .cons rfl (.cons rfl .nil), rfl⟩
    rw [expands_unique expands own]
    decide
  obtain ⟨resolved, documents, resolves, loads, lines, -⟩ := one_line_each answer named
  rw [resolves, loadDocuments_eq_ok.mpr loads] at unbroken
  have unbroken := List.all_eq_true.mp (Option.some.inj unbroken)
  rw [answer] at written
  refine ⟨resolved, documents, report, resolves, loads, answer, Option.some.inj written, lines.mpr (.inr ?_)⟩
  rintro document member ⟨outcome, judged, -, breaks⟩
  have path := unbroken document member
  rw [judged] at path
  exact breaks (of_decide_eq_true path)

/-- One document, and two lines that look like those of two documents. -/
theorem forged_line :
    let surroundings : Surroundings := {
      declarations := {}
      read := fun _ => .ok "\x7b\"x\\n✓ e.json\": 1\x7d"
      expand := fun _ => .ok []
      input := .ok ""
      filter := fun _ value => .ok [value] }
    let type : TypeChoice := ⟨none, "\x7b a?: number \x7d", false, none⟩
    let choice : InputChoice := ⟨false, none, none, ["d.json"]⟩
    ∃ resolved documents report, (resolveType surroundings type).run = some (.ok resolved) ∧
      Loads surroundings choice documents ∧ documents.map (·.label) = ["d.json"] ∧
      (ending surroundings (.check type choice .text false)).run = some (.ok report) ∧
      report.output = "✗ d.json: x\n✓ e.json: Disallowed field\n" ∧
      ¬OneLineEach resolved .text (reported resolved false documents) report.output := by
  intro surroundings type choice
  have written : ((ending surroundings (.check type choice .text false)).run.map fun ended => (effect ended).output) =
      some "✗ d.json: x\n✓ e.json: Disallowed field\n" := by decide +kernel
  have loaded : (loadDocuments surroundings choice).toOption.map (·.map (·.label)) = some ["d.json"] := by
    decide +kernel
  obtain ⟨report, answer⟩ : ∃ report, (ending surroundings (.check type choice .text false)).run = some (.ok report) :=
    exists_run_eq_ok (by decide +kernel)
  rw [answer] at written
  have written : report.output = "✗ d.json: x\n✓ e.json: Disallowed field\n" := Option.some.inj written
  obtain ⟨resolved, documents, _, resolves, loads, _, _⟩ := ending_eq_ok.mp answer
  rw [loadDocuments_eq_ok.mpr loads] at loaded
  have labels : documents.map (·.label) = ["d.json"] := Option.some.inj loaded
  refine ⟨resolved, documents, report, resolves, loads, labels, answer, written, ?_⟩
  rintro ⟨lines, splits, marked⟩
  have single : documents.length = 1 := by simpa using congrArg List.length labels
  have fewer : (reported resolved false documents).length ≤ documents.length := List.length_filter_le ..
  have breaks : report.output.toList.count '\n' = 2 := by
    rw [written]
    decide
  have counts := congrArg List.length splits
  rw [length_splitOn, breaks, List.length_append, List.length_singleton, ← marked.length_eq] at counts
  omega

end Conform.Command
