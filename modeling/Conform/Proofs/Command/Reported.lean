import Conform.Command.Run
import Conform.Proofs.Command.Loading
import Conform.Proofs.Json.Written
import Conform.Proofs.Resolver.Bounded
import Conform.Proofs.Validator.Unending

/-!
What a run says. Where the type or one of the documents is not to be had, it says nothing about any document; where
all of them are, every document has its line, and the exit code goes by the same verdicts. There is a third way: the
validation of a document need not end, and then neither does the run.
-/

namespace Conform.Command

/-! ## What stands in the way of the documents -/

def LeadsTo (surroundings : Surroundings) (choice : InputChoice) (piece : Piece) : Prop :=
  ∃ before path after text, Expands surroundings choice.inputs (before ++ path :: after) ∧
    Holds surroundings before path text ∧ piece ∈ pieces choice.lines path text

/-- An input that cannot be matched, read or parsed, or a document that the pointer or the filter fails on. -/
inductive Obstructed (surroundings : Surroundings) (choice : InputChoice) : Prop
  | unmatched {input : String} (among : input ∈ choice.inputs)
    (none_ : ¬∃ paths, Matches surroundings input paths)
  | unread {before after : List FilePath} {path : FilePath}
    (expands : Expands surroundings choice.inputs (before ++ path :: after))
    (none_ : ¬∃ text, Holds surroundings before path text)
  | unparsed {piece : Piece} (leads : LeadsTo surroundings choice piece)
    (none_ : ¬∃ value, Json.read piece.text = .ok value)
  | unselected {piece : Piece} {value : Json} (leads : LeadsTo surroundings choice piece)
    (read : Json.read piece.text = .ok value) (none_ : ¬∃ part, Selects choice.pointer value part)
  | unfiltered {piece : Piece} {value part : Json} (leads : LeadsTo surroundings choice piece)
    (read : Json.read piece.text = .ok value) (selects : Selects choice.pointer value part)
    (none_ : ¬∃ outputs, Filters surroundings choice.filter part outputs)

section Obstructed

variable {surroundings : Surroundings} {choice : InputChoice}

theorem expands_unique {inputs : List String} {paths paths' : List FilePath}
    (expands : Expands surroundings inputs paths) (expands' : Expands surroundings inputs paths') : paths = paths' := by
  have unique : Relator.RightUnique (Matches surroundings) := fun input paths paths' found found' =>
    Except.ok.inj ((inputPaths_eq_ok.mpr found).symm.trans (inputPaths_eq_ok.mpr found'))
  obtain ⟨matched, all, rfl⟩ := expands
  obtain ⟨matched', all', rfl⟩ := expands'
  rw [List.right_unique_forall₂' unique all all']

theorem holds_unique {before : List FilePath} {path : FilePath} {text text' : String}
    (holds : Holds surroundings before path text) (holds' : Holds surroundings before path text') : text = text' := by
  rw [← sourceText_eq_ok] at holds holds'
  exact Except.ok.inj (holds.symm.trans holds')

theorem selects_unique {pointer : Option String} {value part part' : Json} (selects : Selects pointer value part)
    (selects' : Selects pointer value part') : part = part' := by
  cases pointer with
  | none => exact selects.trans selects'.symm
  | some pointer => exact Option.some.inj (selects.symm.trans selects')

theorem exists_holdAll {seen paths : List FilePath}
    (each : ∀ before path after, paths = before ++ path :: after → ∃ text, Holds surroundings (seen ++ before) path text) :
    ∃ texts, HoldAll surroundings seen paths texts := by
  induction paths generalizing seen with
  | nil => exact ⟨[], .nil⟩
  | cons path paths ih =>
      obtain ⟨text, holds⟩ := each [] path paths rfl
      rw [List.append_nil] at holds
      have onward : ∀ before path' after, paths = before ++ path' :: after →
          ∃ text, Holds surroundings (seen ++ [path] ++ before) path' text := by
        intro before path' after place
        rw [List.append_assoc]
        exact each (path :: before) path' after (by rw [place]; rfl)
      obtain ⟨texts, all⟩ := ih onward
      exact ⟨text :: texts, .cons holds all⟩

theorem HoldAll.at_ {seen before after : List FilePath} {path : FilePath} {texts : List String}
    (all : HoldAll surroundings seen (before ++ path :: after) texts) :
    ∃ text, Holds surroundings (seen ++ before) path text ∧
      pieces choice.lines path text ⊆ allPieces choice (before ++ path :: after) texts := by
  induction before generalizing seen texts with
  | nil =>
      cases all with
      | cons holds rest =>
          refine ⟨_, by rwa [List.append_nil], ?_⟩
          exact List.subset_append_left ..
  | cons first before ih =>
      cases all with
      | cons _ rest =>
          obtain ⟨text, holds, among⟩ := ih rest
          refine ⟨text, by rwa [List.append_assoc] at holds, ?_⟩
          exact List.Subset.trans among (List.subset_append_right ..)

theorem HoldAll.of_mem {seen paths : List FilePath} {texts : List String} {piece : Piece}
    (all : HoldAll surroundings seen paths texts) (member : piece ∈ allPieces choice paths texts) :
    ∃ before path after text, paths = before ++ path :: after ∧ Holds surroundings (seen ++ before) path text ∧
      piece ∈ pieces choice.lines path text := by
  induction all with
  | nil => cases member
  | cons holds rest ih =>
      rcases List.mem_append.mp member with here | later
      · exact ⟨[], _, _, _, rfl, by rwa [List.append_nil], here⟩
      · obtain ⟨before, path, after, text, rfl, holds', inside⟩ := ih later
        exact ⟨_ :: before, path, after, text, rfl, by rwa [List.append_assoc] at holds', inside⟩

/-- There are documents unless something stands in the way. -/
theorem exists_loads_iff : (∃ documents, Loads surroundings choice documents) ↔ ¬Obstructed surroundings choice := by
  constructor
  · rintro ⟨documents, paths, texts, groups, expands, all, gives, rfl⟩ obstructed
    have given {piece : Piece} (leads : LeadsTo surroundings choice piece) :
        ∃ group, Gives surroundings choice piece group := by
      obtain ⟨before, path, after, text, expands', holds, inside⟩ := leads
      cases expands_unique expands expands'
      obtain ⟨text', holds', among⟩ := all.at_
      cases holds_unique holds holds'
      obtain ⟨group, _, given⟩ := exists_of_forall₂ gives (among inside)
      exact ⟨group, given⟩
    cases obstructed with
    | unmatched among none_ =>
        obtain ⟨matched, every, rfl⟩ := expands
        obtain ⟨paths, _, found⟩ := exists_of_forall₂ every among
        exact none_ ⟨paths, found⟩
    | unread expands' none_ =>
        cases expands_unique expands expands'
        obtain ⟨text, holds, _⟩ := @HoldAll.at_ _ choice _ _ _ _ _ all
        exact none_ ⟨text, holds⟩
    | unparsed leads none_ =>
        obtain ⟨group, value, part, outputs, read, selects, filters, _⟩ := given leads
        exact none_ ⟨value, read⟩
    | unselected leads read' none_ =>
        obtain ⟨group, value, part, outputs, read, selects, filters, _⟩ := given leads
        cases read'.symm.trans read
        exact none_ ⟨part, selects⟩
    | unfiltered leads read' selects' none_ =>
        obtain ⟨group, value, part, outputs, read, selects, filters, _⟩ := given leads
        cases read'.symm.trans read
        cases selects_unique selects selects'
        exact none_ ⟨outputs, filters⟩
  · intro free
    have found : ∀ input ∈ choice.inputs, ∃ paths, Matches surroundings input paths := fun input among =>
      by_contra fun none_ => free (.unmatched among none_)
    obtain ⟨matched, every⟩ := exists_forall₂ found
    have expands : Expands surroundings choice.inputs matched.flatten := ⟨matched, every, rfl⟩
    have held : ∀ before path after, matched.flatten = before ++ path :: after →
        ∃ text, Holds surroundings ([] ++ before) path text := fun before path after place =>
      by_contra fun none_ => free (.unread (place ▸ expands) none_)
    obtain ⟨texts, all⟩ := exists_holdAll held
    have given : ∀ piece ∈ allPieces choice matched.flatten texts, ∃ group, Gives surroundings choice piece group := by
      intro piece member
      obtain ⟨before, path, after, text, place, holds, inside⟩ := all.of_mem member
      have leads : LeadsTo surroundings choice piece := ⟨before, path, after, text, place ▸ expands, holds, inside⟩
      by_contra none_
      have parsed : ∃ value, Json.read piece.text = .ok value := by_contra fun none_ => free (.unparsed leads none_)
      obtain ⟨value, read⟩ := parsed
      have selected : ∃ part, Selects choice.pointer value part :=
        by_contra fun none_ => free (.unselected leads read none_)
      obtain ⟨part, selects⟩ := selected
      refine free (.unfiltered leads read selects fun ⟨outputs, filters⟩ => none_ ?_)
      exact ⟨_, value, part, outputs, read, selects, filters, rfl⟩
    obtain ⟨groups, gives⟩ := exists_forall₂ given
    exact ⟨groups.flatten, matched.flatten, texts, groups, expands, all, gives, rfl⟩

end Obstructed

/-! ## What a line says -/

def Resolved.rejects (resolved : Resolved) (value : Json) : Bool :=
  (resolved.validator.validate resolved.references (some value)).any fun outcome => !outcome.isSuccess

def Marked (format : Format) (label : String) (conforms : Bool) (line : String) : Prop :=
  match format with
  | .text => ((if conforms then "✓ " else "✗ ") ++ label).toList <+: line.toList
  | .json => ∃ more, line = (Json.object (("source", .string label) :: ("ok", .bool conforms) :: more)).write

theorem Marked.unique {format : Format} {label line : String} {conforms conforms' : Bool}
    (marked : Marked format label conforms line) (marked' : Marked format label conforms' line) : conforms = conforms' := by
  cases format with
  | text =>
      obtain ⟨tail, written⟩ := marked
      obtain ⟨tail', written'⟩ := marked'
      rw [← written'] at written
      cases conforms <;> cases conforms' <;> simp at written ⊢
  | json =>
      obtain ⟨more, rfl⟩ := marked
      obtain ⟨more', same⟩ := marked'
      obtain ⟨tail, written⟩ := Json.write_object_cons_cons "source" "ok" (.string label) (.bool conforms) more
      obtain ⟨tail', written'⟩ := Json.write_object_cons_cons "source" "ok" (.string label) (.bool conforms') more'
      rw [same, written', List.cons_inj_right, List.append_right_inj, List.cons_inj_right, List.append_right_inj,
        List.cons_inj_right, List.append_right_inj, List.cons_inj_right] at written
      cases conforms <;> cases conforms' <;> simp [Json.write] at written ⊢

theorem Verdict.marked_line (verdict : Verdict) (format : Format) :
    Marked format verdict.label verdict.outcome.isSuccess (verdict.line format) := by
  cases format with
  | text =>
      simp only [Marked, line, text]
      split
      next => simp
      next =>
        refine ⟨": ".toList ++ verdict.outcome.text.toList, ?_⟩
        simp
  | json =>
      simp only [Marked, line, json]
      split
      next conforms => exact ⟨[], by rw [conforms]⟩
      next => exact ⟨_, rfl⟩

/-- What is seen of a run that checks some documents: a line for each of them, or when it is quiet for each that the
type refuses, and whether there is such a one. -/
structure Tells (resolved : Resolved) (documents : List Document) (format : Format) (quiet : Bool)
    (effect : Effect) : Prop where
  lines : ∃ lines, effect.output = String.join (lines.map (· ++ "\n")) ∧
    List.Forall₂ (fun document line => ∀ conforms,
      Marked format document.label conforms line ↔ resolved.rejects document.value = !conforms)
        (documents.filter fun document => !quiet || resolved.rejects document.value) lines
  exitCode : effect.exitCode = 0 ↔ ∀ document ∈ documents, resolved.rejects document.value = false

/-! ## Whole runs -/

def Checks (resolved : Resolved) (document : Document) (verdict : Verdict) : Prop :=
  verdict.label = document.label ∧
    resolved.validator.validate resolved.references (some document.value) = some verdict.outcome

def Resolved.Ends (resolved : Resolved) (value : Json) : Prop :=
  Validator.Ends resolved.references [] resolved.validator (some value)

theorem Checks.rejects {resolved : Resolved} {document : Document} {verdict : Verdict}
    (checks : Checks resolved document verdict) : resolved.rejects document.value = !verdict.outcome.isSuccess := by
  rw [Resolved.rejects, checks.2, Option.any_some]

theorem verdictOf_eq_some {resolved : Resolved} {document : Document} {verdict : Verdict} :
    verdictOf resolved document = some verdict ↔ Checks resolved document verdict := by
  obtain ⟨label, outcome⟩ := verdict
  simp only [verdictOf, Checks, Option.map_eq_some_iff, Verdict.mk.injEq]
  constructor
  · rintro ⟨_, found, rfl, rfl⟩
    exact ⟨rfl, found⟩
  · rintro ⟨rfl, found⟩
    exact ⟨outcome, found, rfl, rfl⟩

theorem verdictOf_eq_none {resolved : Resolved} {document : Document} :
    verdictOf resolved document = none ↔ ¬resolved.Ends document.value := by
  rw [Resolved.Ends, ← Validator.validateIn_isSome_iff, Option.not_isSome_iff_eq_none, verdictOf,
    Option.map_eq_none_iff]
  rfl

section Run

variable {surroundings : Surroundings} {type : TypeChoice} {choice : InputChoice} {format : Format} {quiet : Bool}

theorem resolveType_ne_none : (resolveType surroundings type).run ≠ none := by
  intro never
  rw [resolveType, run_bind_eq_none, run_liftM] at never
  rcases never with absent | ⟨options, -, never⟩
  · cases absent
  · have faithful : Resolver.Faithful { options := options, files := surroundings.declarations } := by
      simp [Resolver.Faithful]
    obtain ⟨answer, after, ended⟩ := Resolver.exists_resolve_eq faithful type.expr type.file
    dsimp only at never
    rw [ended] at never
    cases answer with
    | error fault => cases never
    | ok validator => cases never

theorem ending_eq_ok {report : Report} :
    (ending surroundings (.check type choice format quiet)).run = some (.ok report) ↔
    ∃ resolved documents verdicts, (resolveType surroundings type).run = some (.ok resolved) ∧
      Loads surroundings choice documents ∧ List.Forall₂ (Checks resolved) documents verdicts ∧
        report = reportOf format quiet verdicts := by
  simp only [ending, run_bind_eq_ok, run_liftM, run_lift, mapM_eq_some, loadDocuments_eq_ok, verdictOf_eq_some,
    Option.map_eq_some_iff, Option.some.injEq, Except.ok.injEq]
  constructor
  · rintro ⟨resolved, resolves, documents, loads, _, ⟨verdicts, checks, rfl⟩, reported⟩
    cases reported
    exact ⟨resolved, documents, verdicts, resolves, loads, checks, rfl⟩
  · rintro ⟨resolved, documents, verdicts, resolves, loads, checks, rfl⟩
    exact ⟨resolved, resolves, documents, loads, _, ⟨verdicts, checks, rfl⟩, rfl⟩

theorem ending_eq_none : (ending surroundings (.check type choice format quiet)).run = none ↔
    ∃ resolved documents, (resolveType surroundings type).run = some (.ok resolved) ∧
      Loads surroundings choice documents ∧ ∃ document ∈ documents, ¬resolved.Ends document.value := by
  simp only [ending, run_bind_eq_none, run_liftM, run_lift, resolveType_ne_none, mapM_eq_none, verdictOf_eq_none,
    Option.map_eq_none_iff, Option.some.injEq, loadDocuments_eq_ok]
  constructor
  · rintro (⟨⟨⟩⟩ | ⟨resolved, resolves, ⟨⟨⟩⟩ | ⟨documents, loads, unending | ⟨_, _, ⟨⟩⟩⟩⟩)
    exact ⟨resolved, documents, resolves, loads, unending⟩
  · rintro ⟨resolved, documents, resolves, loads, unending⟩
    exact .inr ⟨resolved, resolves, .inr ⟨documents, loads, .inl unending⟩⟩

/-- Where the validations end, so does the run. -/
theorem exists_ending_eq_ok {resolved : Resolved} {documents : List Document}
    (resolves : (resolveType surroundings type).run = some (.ok resolved)) (loads : Loads surroundings choice documents)
    (ends : ∀ document ∈ documents, resolved.Ends document.value) : ∃ verdicts,
      List.Forall₂ (Checks resolved) documents verdicts ∧
        (ending surroundings (.check type choice format quiet)).run = some (.ok (reportOf format quiet verdicts)) := by
  have checked : ∀ document ∈ documents, ∃ verdict, Checks resolved document verdict := by
    intro document member
    obtain ⟨outcome, found⟩ := Option.isSome_iff_exists.mp (Validator.validateIn_isSome_iff.mpr (ends document member))
    exact ⟨⟨document.label, outcome⟩, rfl, found⟩
  obtain ⟨verdicts, checks⟩ := exists_forall₂ checked
  exact ⟨verdicts, checks, ending_eq_ok.mpr ⟨resolved, documents, verdicts, resolves, loads, checks, rfl⟩⟩

theorem run_of_ending {request : Request} {ended : Except Failure Report}
    (ends : (ending surroundings request).run = some ended) : run surroundings request = ended := by
  rw [run, ends]

/-- A report tells what the verdicts say. -/
theorem tells_reportOf {resolved : Resolved} {documents : List Document} {verdicts : List Verdict}
    (checks : List.Forall₂ (Checks resolved) documents verdicts) :
    Tells resolved documents format quiet (effect (.ok (reportOf format quiet verdicts))) where
  lines := by
    refine ⟨reportLines format quiet verdicts, rfl, ?_⟩
    have reported := List.rel_filter (p := fun document => !quiet || resolved.rejects document.value)
      (q := fun verdict => !quiet || !verdict.outcome.isSuccess) (fun _ _ same => by simp only [same.rejects]) checks
    rw [reportLines, List.forall₂_map_right_iff]
    refine reported.imp fun document verdict checked conforms => ?_
    have marked := verdict.marked_line format
    rw [checked.rejects, Bool.not_inj_iff, ← checked.1]
    constructor
    · exact marked.unique
    · rintro rfl
      exact marked
  exitCode := by
    have counted : failureCount verdicts = 0 ↔ ∀ document ∈ documents, resolved.rejects document.value = false := by
      induction checks with
      | nil => simp [failureCount]
      | cons first _ ih =>
          rw [failureCount, List.countP_cons] at *
          rw [List.forall_mem_cons, ← ih, first.rejects]
          split
          next failed => simp [failed]
          next => simp_all
    rw [← counted]
    unfold effect reportOf
    dsimp only
    split
    next none_ => simp [none_]
    next some_ => simp [some_]

end Run

/-- A run that cannot resolve its type, or that something stands in the way of, fails as a whole and writes nothing on
the standard output. Any other one tells about every document, whatever the format, when the validation of each ends,
as it does where the type does not lead back to itself on one value. Otherwise the run does not end. -/
theorem run_all_or_nothing (surroundings : Surroundings) (type : TypeChoice) (choice : InputChoice) :
    ((¬∃ resolved, (resolveType surroundings type).run = some (.ok resolved)) ∨ Obstructed surroundings choice →
      ∀ format quiet, ∃ causes, (ending surroundings (.check type choice format quiet)).run = some (.error causes) ∧
        run surroundings (.check type choice format quiet) = .error causes ∧
        (effect (run surroundings (.check type choice format quiet))).output = "" ∧
        (effect (run surroundings (.check type choice format quiet))).exitCode = 2) ∧
    (¬((¬∃ resolved, (resolveType surroundings type).run = some (.ok resolved)) ∨ Obstructed surroundings choice) →
      ∃ resolved documents, (resolveType surroundings type).run = some (.ok resolved) ∧
        Loads surroundings choice documents ∧
        (Validator.Guarded resolved.references resolved.validator →
          ∀ document ∈ documents, resolved.Ends document.value) ∧
        ((∀ document ∈ documents, resolved.Ends document.value) → ∀ format quiet,
          ∃ report, (ending surroundings (.check type choice format quiet)).run = some (.ok report) ∧
            run surroundings (.check type choice format quiet) = .ok report ∧
            Tells resolved documents format quiet
              (effect (run surroundings (.check type choice format quiet)))) ∧
        ((∃ document ∈ documents, ¬resolved.Ends document.value) → ∀ format quiet,
          (ending surroundings (.check type choice format quiet)).run = none)) := by
  constructor
  · intro hindered format quiet
    have found : ∀ resolved documents, (resolveType surroundings type).run = some (.ok resolved) →
        ¬Loads surroundings choice documents := by
      intro resolved documents resolves loads
      rcases hindered with unresolved | obstructed
      · exact unresolved ⟨resolved, resolves⟩
      · exact exists_loads_iff.mp ⟨documents, loads⟩ obstructed
    cases answer : (ending surroundings (.check type choice format quiet)).run with
    | none =>
        obtain ⟨resolved, documents, resolves, loads, _⟩ := ending_eq_none.mp answer
        exact absurd loads (found resolved documents resolves)
    | some ended =>
        cases ended with
        | error causes =>
            rw [run_of_ending answer]
            exact ⟨causes, rfl, rfl, rfl, rfl⟩
        | ok report =>
            obtain ⟨resolved, documents, verdicts, resolves, loads, _⟩ := ending_eq_ok.mp answer
            exact absurd loads (found resolved documents resolves)
  · intro free
    obtain ⟨resolves, loads⟩ := not_or.mp free
    obtain ⟨resolved, resolves⟩ := not_not.mp resolves
    obtain ⟨documents, loads⟩ := exists_loads_iff.mpr loads
    refine ⟨resolved, documents, resolves, loads, fun guarded document _ => ?_, fun ends format quiet => ?_,
      fun unending format quiet => ?_⟩
    · exact Validator.validateIn_isSome_iff.mp (Validator.validateIn_isSome guarded [] (some document.value))
    · obtain ⟨verdicts, checks, answer⟩ := exists_ending_eq_ok resolves loads ends
      rw [run_of_ending answer]
      exact ⟨_, answer, rfl, tells_reportOf checks⟩
    · exact ending_eq_none.mpr ⟨resolved, documents, resolves, loads, unending⟩

/-- Two files of which one does not conform, and a third one that is not there. -/
theorem run_all_or_nothing_files :
    let surroundings : Surroundings := {
      declarations := {}
      read := fun path =>
        if path.text = "a.json" then .ok "1" else if path.text = "b.json" then .ok "true" else .error "missing"
      expand := fun _ => .ok []
      input := .ok ""
      filter := fun _ value => .ok [value] }
    let type : TypeChoice := ⟨none, "number", false, none⟩
    let choice (inputs : List String) : InputChoice := ⟨false, none, none, inputs⟩
    (∀ quiet, (effect (run surroundings (.check type (choice ["a.json", "c.json"]) .text quiet))).output = "") ∧
      ∃ resolved documents, Loads surroundings (choice ["a.json", "b.json"]) documents ∧ ∀ format quiet,
        Tells resolved documents format quiet
          (effect (run surroundings (.check type (choice ["a.json", "b.json"]) format quiet))) := by
  intro surroundings type choice
  have resolves : ∃ resolved, (resolveType surroundings type).run = some (.ok resolved) :=
    exists_run_eq_ok (by decide +kernel)
  have missing : (loadDocuments surroundings (choice ["a.json", "c.json"])).isOk = false := by decide +kernel
  have loads : (loadDocuments surroundings (choice ["a.json", "b.json"])).isOk := by decide +kernel
  have ended : (ending surroundings (.check type (choice ["a.json", "b.json"]) .text false)).run.isSome := by
    decide +kernel
  constructor
  · intro quiet
    have obstructed : Obstructed surroundings (choice ["a.json", "c.json"]) := by
      by_contra free
      obtain ⟨documents, loads⟩ := exists_loads_iff.mpr free
      rw [loadDocuments_eq_ok.mpr loads] at missing
      cases missing
    obtain ⟨_, _, _, nothing, _⟩ := (run_all_or_nothing surroundings type _).1 (.inr obstructed) .text quiet
    exact nothing
  · have free : ¬((¬∃ resolved, (resolveType surroundings type).run = some (.ok resolved)) ∨
        Obstructed surroundings (choice ["a.json", "b.json"])) := by
      rintro (unresolved | obstructed)
      · exact unresolved resolves
      · obtain ⟨documents, loaded⟩ := exists_eq_ok loads
        exact exists_loads_iff.mp ⟨documents, loadDocuments_eq_ok.mp loaded⟩ obstructed
    obtain ⟨resolved, documents, _, loads, _, told, unending⟩ := (run_all_or_nothing surroundings type _).2 free
    have ends : ∀ document ∈ documents, resolved.Ends document.value := by
      by_contra some_
      rw [unending (by simpa using some_) .text false] at ended
      cases ended
    refine ⟨resolved, documents, loads, fun format quiet => ?_⟩
    obtain ⟨_, _, _, tells⟩ := told ends format quiet
    exact tells

/-- An alias that leads back to the intersection it stands in. Nothing is in the way of the run, but it tells about no
document: the intersection asks for itself, on the same value, however often it has been asked. -/
theorem run_unending :
    let surroundings : Surroundings := {
      declarations := .ofList [(⟨"/a.ts"⟩, .text "type A = \x7b x?: B \x7d & B; type B = A;")]
      read := fun _ => .ok "\x7b\x7d"
      expand := fun _ => .ok []
      input := .ok ""
      filter := fun _ value => .ok [value] }
    let type : TypeChoice := ⟨some ⟨"/a.ts"⟩, "A", false, none⟩
    let choice : InputChoice := ⟨false, none, none, ["d.json"]⟩
    ¬((¬∃ resolved, (resolveType surroundings type).run = some (.ok resolved)) ∨ Obstructed surroundings choice) ∧
      (∃ resolved documents, (resolveType surroundings type).run = some (.ok resolved) ∧
        Loads surroundings choice documents ∧ ∃ document ∈ documents, ¬resolved.Ends document.value) ∧
      ∀ format quiet, (ending surroundings (.check type choice format quiet)).run = none := by
  intro surroundings type choice
  have unending : (ending surroundings (.check type choice .text false)).run.isNone := by decide +kernel
  have never := ending_eq_none.mp (Option.isNone_iff_eq_none.mp unending)
  refine ⟨?_, never, fun format quiet => ending_eq_none.mpr never⟩
  obtain ⟨resolved, documents, resolves, loads, _⟩ := never
  rintro (unresolved | obstructed)
  · exact unresolved ⟨resolved, resolves⟩
  · exact exists_loads_iff.mp ⟨documents, loads⟩ obstructed

end Conform.Command
