import Conform.Proofs.Command.Reported
import Conform.Proofs.Json.Reading
import Conform.Proofs.Text.Squeezed

/-!
Documents on the lines of one file. However the lines end, and whatever blank lines are among them, a run comes to
the same verdicts as a run on files with one of the documents each, or to no end as that one does.
-/

namespace Conform.Command

open Text

/-! ## Files of lines -/

structure LineDocument where
  text : List Char
  unbroken : '\n' ∉ text
  visible : ∃ c ∈ text, isBlank c = false

def LineDocument.ofRead {text : List Char} {value : Json} (unbroken : '\n' ∉ text)
    (reads : Json.read text = .ok value) : LineDocument :=
  ⟨text, unbroken, Json.exists_visible_of_read reads⟩

structure BlankLine where
  run : List Char
  unbroken : '\n' ∉ run
  blank : run.all isBlank

inductive Line where
  | document (document : LineDocument)
  | blank (line : BlankLine)

namespace Line

def text : Line → List Char
  | document own => own.text
  | blank line => line.run

def document? : Line → Option LineDocument
  | document own => some own
  | blank _ => none

end Line

inductive LineBreak where
  | feed
  | returnFeed

def LineBreak.carriage : LineBreak → List Char
  | feed => []
  | returnFeed => ['\r']

/-- Lines with what ends them, and perhaps a last one that nothing ends. -/
structure LineFile where
  ended : List (Line × LineBreak)
  last : Option Line

namespace LineFile

def text (file : LineFile) : List Char :=
  (file.ended.flatMap fun (line, lineBreak) => line.text ++ lineBreak.carriage ++ ['\n']) ++
    file.last.elim [] Line.text

def lines (file : LineFile) : List Line :=
  file.ended.map (·.1) ++ file.last.toList

def documents (file : LineFile) : List (LineDocument × Nat) :=
  (file.lines.zipIdx 1).filterMap fun (line, number) => line.document?.map (·, number)

end LineFile

/-! ## Lines as they are read -/

theorem splitOn_flatMap_append {lines : List (List Char)} {tail : List Char} (plain : ∀ line ∈ lines, '\n' ∉ line)
    (plain' : '\n' ∉ tail) : (lines.flatMap (· ++ ['\n']) ++ tail).splitOn '\n' = lines ++ [tail] := by
  have joined : lines.flatMap (· ++ ['\n']) ++ tail = ['\n'].intercalate (lines ++ [tail]) := by
    induction lines with
    | nil => rw [List.flatMap_nil, List.nil_append, List.nil_append, List.intercalate_singleton]
    | cons line lines ih =>
        rw [List.flatMap_cons, List.append_assoc, ih (List.forall_mem_cons.mp plain).2, List.cons_append,
          List.intercalate_cons_of_ne_nil (by simp), List.append_assoc]
  rw [joined, List.splitOn_intercalate '\n' _ (by simp)]
  simpa [or_imp, forall_and] using ⟨plain, plain'⟩

def SameDocument (text text' : List Char) : Prop :=
  ∀ value, Json.read text = .ok value ↔ Json.read text' = .ok value

def Line.Shows (line : Line) (shown : List Char) : Prop :=
  match line with
  | document own => (∃ c ∈ shown, isBlank c = false) ∧ SameDocument shown own.text
  | blank _ => ∀ c ∈ shown, isBlank c

theorem Line.shows_text (line : Line) : line.Shows line.text := by
  cases line with
  | document own => exact ⟨own.visible, fun _ => Iff.rfl⟩
  | blank line => exact List.all_eq_true.mp line.blank

theorem sameDocument_dropLast {text : List Char} (last : text.getLast? = some '\r') :
    SameDocument text.dropLast text := by
  have parts : text.dropLast ++ ['\r'] = text := List.dropLast_append_getLast? '\r' last
  intro value
  rw [← Json.read_return_eq_ok, parts]

theorem visible_dropLast {text : List Char} (last : text.getLast? = some '\r')
    (visible : ∃ c ∈ text, isBlank c = false) : ∃ c ∈ text.dropLast, isBlank c = false := by
  obtain ⟨c, member, visible⟩ := visible
  rw [← List.dropLast_append_getLast? '\r' last, List.mem_append, List.mem_singleton] at member
  rcases member with inside | rfl
  · exact ⟨c, inside, visible⟩
  · exact absurd visible (by decide)

theorem Line.shows_withoutReturn (line : Line) (lineBreak : LineBreak) :
    line.Shows (withoutReturn (line.text ++ lineBreak.carriage)) := by
  cases lineBreak with
  | returnFeed =>
      have gone : withoutReturn (line.text ++ ['\r']) = line.text := by simp [withoutReturn]
      rw [LineBreak.carriage, gone]
      exact line.shows_text
  | feed =>
      rw [LineBreak.carriage, List.append_nil]
      unfold withoutReturn
      split
      next last =>
        cases line with
        | document own => exact ⟨visible_dropLast last own.visible, sameDocument_dropLast last⟩
        | blank own => exact fun c member => List.all_eq_true.mp own.blank c (List.dropLast_subset _ member)
      next => exact line.shows_text

theorem Line.unbroken (line : Line) : '\n' ∉ line.text := by
  cases line with
  | document own => exact own.unbroken
  | blank line => exact line.unbroken

theorem LineFile.textLines_text (file : LineFile) : textLines file.text =
    (file.ended.map fun (line, lineBreak) => withoutReturn (line.text ++ lineBreak.carriage)) ++
      [file.last.elim [] Line.text].filter fun line => !line.isEmpty := by
  have parts : file.text = (file.ended.map fun (line, lineBreak) => line.text ++ lineBreak.carriage).flatMap
      (· ++ ['\n']) ++ file.last.elim [] Line.text := by
    rw [List.flatMap_map]
    rfl
  have plain : ∀ text ∈ file.ended.map fun (line, lineBreak) => line.text ++ lineBreak.carriage, '\n' ∉ text := by
    simp only [List.forall_mem_map, List.mem_append, not_or]
    rintro ⟨line, lineBreak⟩ _
    refine ⟨line.unbroken, ?_⟩
    cases lineBreak with
    | feed => exact List.not_mem_nil
    | returnFeed => simp [LineBreak.carriage]
  have plain' : '\n' ∉ file.last.elim [] Line.text := by
    cases file.last with
    | none => simp
    | some line => exact line.unbroken
  unfold textLines
  rw [parts, splitOn_flatMap_append plain plain']
  simp [List.map_map, Function.comp_def]

/-! ## What the lines give -/

def Piece.Bears (piece : Piece) (source : String × List Char) : Prop :=
  piece.label = source.1 ∧ SameDocument piece.text source.2

theorem bears_of_shows {lines : List Line} {shown : List (List Char)} (shows_ : List.Forall₂ Line.Shows lines shown)
    (label : Nat → String) (first : Nat) :
    List.Forall₂ Piece.Bears
      (((shown.zipIdx first).filter fun (line, _) => !(trim line).isEmpty).map fun (line, number) =>
        ⟨label number, line⟩)
      (((lines.zipIdx first).filterMap fun (line, number) => line.document?.map (·, number)).map
        fun (own, number) => (label number, own.text)) := by
  induction shows_ generalizing first with
  | nil => exact .nil
  | @cons line read lines shown here _ ih =>
      rw [List.zipIdx_cons, List.zipIdx_cons]
      cases line with
      | document own =>
          have visible : trim read ≠ [] := by
            intro none_
            obtain ⟨before, after, blank, parts⟩ := exists_trim read
            rw [none_, List.append_nil] at parts
            obtain ⟨c, member, visible⟩ := here.1
            rw [parts] at member
            simp [blank c member] at visible
          rw [List.filter_cons_of_pos (by simp [visible])]
          exact .cons ⟨rfl, here.2⟩ (ih (first + 1))
      | blank own =>
          have nothing : trim read = [] := trim_blank here
          rw [List.filter_cons_of_neg (by simp [nothing])]
          exact ih (first + 1)

theorem LineFile.bears_pieces (file : LineFile) (path : FilePath) :
    List.Forall₂ Piece.Bears (pieces true path (String.ofList file.text))
      (file.documents.map fun (own, number) => (path.text ++ ":" ++ toString number, own.text)) := by
  have ended : List.Forall₂ Line.Shows (file.ended.map (·.1))
      (file.ended.map fun (line, lineBreak) => withoutReturn (line.text ++ lineBreak.carriage)) := by
    rw [List.forall₂_map_left_iff, List.forall₂_map_right_iff]
    exact List.forall₂_same.mpr fun entry _ => entry.1.shows_withoutReturn entry.2
  rw [pieces, if_pos rfl, String.toList_ofList, file.textLines_text, LineFile.documents, LineFile.lines]
  cases file.last with
  | none =>
      rw [Option.toList_none, List.append_nil]
      simpa using bears_of_shows ended (fun number => path.text ++ ":" ++ toString number) 1
  | some line =>
      have shown := bears_of_shows (List.rel_append ended (.cons line.shows_text .nil))
        (fun number => path.text ++ ":" ++ toString number) 1
      by_cases nothing : line.text = []
      · have blank : trim ([] : List Char) = [] := rfl
        simpa [nothing, List.zipIdx_append, blank] using shown
      · simpa [nothing] using shown

/-! ## What is checked -/

def Yields (surroundings : Surroundings) (pointer filter : Option String) (text : List Char)
    (outputs : List Json) : Prop :=
  ∃ value part, Json.read text = .ok value ∧ Selects pointer value part ∧ Filters surroundings filter part outputs

def checkedAs (labels : List String) (outputs : List (List Json)) : List Document :=
  (List.zipWith labelled labels outputs).flatten

section Loads

variable {surroundings : Surroundings} {choice : InputChoice}

theorem holdAll_unique {before paths : List FilePath} {texts texts' : List String}
    (all : HoldAll surroundings before paths texts) (all' : HoldAll surroundings before paths texts') :
    texts = texts' := by
  induction all generalizing texts' with
  | nil =>
      cases all'
      rfl
  | cons here _ ih =>
      cases all' with
      | cons here' rest' => rw [holds_unique here here', ih rest']

theorem forall₂_gives_iff {own : List Piece} {sources : List (String × List Char)}
    (bears : List.Forall₂ Piece.Bears own sources) {groups : List (List Document)} :
    List.Forall₂ (Gives surroundings choice) own groups ↔ ∃ outputs,
      List.Forall₂ (Yields surroundings choice.pointer choice.filter) (sources.map (·.2)) outputs ∧
        groups = List.zipWith labelled (sources.map (·.1)) outputs := by
  induction bears generalizing groups with
  | nil => simp
  | @cons piece source own sources here _ ih =>
      simp only [List.forall₂_cons_left_iff, List.map_cons, ih]
      constructor
      · rintro ⟨_, _, ⟨value, part, outputs, read, selects, filters, rfl⟩, ⟨others, yields, rfl⟩, rfl⟩
        have read' := (here.2 value).mp read
        refine ⟨outputs :: others, ⟨outputs, others, ⟨value, part, read', selects, filters⟩, yields, rfl⟩, ?_⟩
        rw [List.zipWith_cons_cons, here.1]
      · rintro ⟨_, ⟨outputs, others, ⟨value, part, read', selects, filters⟩, yields, rfl⟩, rfl⟩
        have read := (here.2 value).mpr read'
        refine ⟨_, _, ⟨value, part, outputs, read, selects, filters, rfl⟩, ⟨others, yields, rfl⟩, ?_⟩
        rw [List.zipWith_cons_cons, here.1]

theorem loads_iff_of_bears {paths : List FilePath} {texts : List String} {sources : List (String × List Char)}
    (expands : Expands surroundings choice.inputs paths) (all : HoldAll surroundings [] paths texts)
    (bears : List.Forall₂ Piece.Bears (allPieces choice paths texts) sources) {documents : List Document} :
    Loads surroundings choice documents ↔ ∃ outputs,
      List.Forall₂ (Yields surroundings choice.pointer choice.filter) (sources.map (·.2)) outputs ∧
        documents = checkedAs (sources.map (·.1)) outputs := by
  constructor
  · rintro ⟨paths', texts', groups, expands', all', gives, rfl⟩
    cases expands_unique expands expands'
    cases holdAll_unique all all'
    obtain ⟨outputs, yields, rfl⟩ := (forall₂_gives_iff bears).mp gives
    exact ⟨outputs, yields, rfl⟩
  · rintro ⟨outputs, yields, rfl⟩
    exact ⟨paths, texts, _, expands, all, (forall₂_gives_iff bears).mpr ⟨outputs, yields, rfl⟩, rfl⟩

theorem bears_files {before paths : List FilePath} {found : List LineDocument}
    (all : HoldAll surroundings before paths (found.map fun own => String.ofList own.text))
    (whole : choice.lines = false) :
    List.Forall₂ Piece.Bears (allPieces choice paths (found.map fun own => String.ofList own.text))
      ((paths.map (·.text)).zip (found.map (·.text))) := by
  induction found generalizing before paths with
  | nil =>
      cases all
      exact .nil
  | cons own found ih =>
      cases all with
      | @cons _ paths path _ _ _ rest =>
          have piece : pieces choice.lines path (String.ofList own.text) = [⟨path.text, own.text⟩] := by
            rw [pieces, whole, if_neg Bool.false_ne_true, String.toList_ofList]
          rw [allPieces, List.map_cons, List.zipWith_cons_cons, piece]
          exact .cons ⟨rfl, fun _ => Iff.rfl⟩ (ih rest)

end Loads

theorem values_labelled (label : String) (outputs : List Json) : (labelled label outputs).map (·.value) = outputs := by
  unfold labelled
  split
  next => simp [Function.comp_def]
  next => simp [Function.comp_def]

theorem values_checkedAs {labels : List String} {outputs : List (List Json)} (enough : labels.length = outputs.length) :
    (checkedAs labels outputs).map (·.value) = outputs.flatten := by
  induction labels generalizing outputs with
  | nil =>
      cases outputs with
      | nil => rfl
      | cons => cases enough
  | cons label labels ih =>
      cases outputs with
      | nil => cases enough
      | cons first outputs =>
          have others := ih (Nat.succ.inj enough)
          rw [checkedAs] at others ⊢
          rw [List.zipWith_cons_cons, List.flatten_cons, List.map_append, values_labelled, others, List.flatten_cons]

theorem exists_checks_of_values {resolved : Resolved} {documents documents' : List Document} {verdicts : List Verdict}
    (same : documents.map (·.value) = documents'.map (·.value))
    (checks : List.Forall₂ (Checks resolved) documents verdicts) :
    ∃ verdicts', List.Forall₂ (Checks resolved) documents' verdicts' ∧
      verdicts.map (·.outcome) = verdicts'.map (·.outcome) := by
  induction checks generalizing documents' with
  | nil =>
      cases documents' with
      | nil => exact ⟨[], .nil, rfl⟩
      | cons => cases same
  | @cons document verdict _ _ here _ ih =>
      cases documents' with
      | nil => cases same
      | cons document' documents' =>
          obtain ⟨first, others⟩ := List.cons.inj same
          obtain ⟨verdicts', rest, outcomes⟩ := ih others
          refine ⟨⟨document'.label, verdict.outcome⟩ :: verdicts', .cons ⟨rfl, ?_⟩ rest, ?_⟩
          · have value : document.value = document'.value := first
            rw [← value]
            exact here.2
          · rw [List.map_cons, List.map_cons, outcomes]

theorem length_of_holdAll {surroundings : Surroundings} {before paths : List FilePath} {texts : List String}
    (all : HoldAll surroundings before paths texts) : paths.length = texts.length := by
  induction all with
  | nil => rfl
  | cons _ _ ih => rw [List.length_cons, List.length_cons, ih]

/-! ## The same verdicts -/

structure LoadsAs (surroundings : Surroundings) (choice : InputChoice) (labels : List String)
    (texts : List (List Char)) : Prop where
  length : labels.length = texts.length
  loads : ∀ documents, Loads surroundings choice documents ↔ ∃ outputs,
    List.Forall₂ (Yields surroundings choice.pointer choice.filter) texts outputs ∧ documents = checkedAs labels outputs

section LoadsAs

variable {surroundings : Surroundings} {type : TypeChoice} {format : Format} {quiet : Bool}
  {pointer filter : Option String} {inputs inputs' : List String} {lines lines' : Bool}

theorem loadsAs_of_bears {choice : InputChoice} {paths : List FilePath} {texts : List String}
    {sources : List (String × List Char)} (expands : Expands surroundings choice.inputs paths)
    (all : HoldAll surroundings [] paths texts)
    (bears : List.Forall₂ Piece.Bears (allPieces choice paths texts) sources) :
    LoadsAs surroundings choice (sources.map (·.1)) (sources.map (·.2)) where
  length := by rw [List.length_map, List.length_map]
  loads _ := loads_iff_of_bears expands all bears

theorem loadsAs_lines {path : FilePath} {file : LineFile} (expands : Expands surroundings inputs [path])
    (holds : Holds surroundings [] path (String.ofList file.text)) :
    LoadsAs surroundings ⟨true, pointer, filter, inputs⟩
      (file.documents.map fun (_, number) => path.text ++ ":" ++ toString number)
      (file.documents.map fun (own, _) => own.text) := by
  have bears := file.bears_pieces path
  rw [← List.flatten_singleton (l := pieces true path (String.ofList file.text))] at bears
  have loads : LoadsAs surroundings ⟨true, pointer, filter, inputs⟩ _ _ :=
    loadsAs_of_bears expands (.cons holds .nil) bears
  rwa [List.map_map, List.map_map] at loads

theorem loadsAs_files {paths : List FilePath} {found : List LineDocument} (expands : Expands surroundings inputs paths)
    (all : HoldAll surroundings [] paths (found.map fun own => String.ofList own.text)) :
    LoadsAs surroundings ⟨false, pointer, filter, inputs⟩ (paths.map (·.text)) (found.map (·.text)) := by
  have length : (paths.map (·.text)).length = (found.map (·.text)).length := by
    simpa using length_of_holdAll all
  have loads : LoadsAs surroundings ⟨false, pointer, filter, inputs⟩ _ _ :=
    loadsAs_of_bears expands all (bears_files all rfl)
  rwa [List.map_fst_zip length.le, List.map_snd_zip length.ge] at loads

theorem LoadsAs.values_eq {labels labels' : List String} {texts : List (List Char)} {outputs : List (List Json)}
    (own : LoadsAs surroundings ⟨lines, pointer, filter, inputs⟩ labels texts)
    (other : LoadsAs surroundings ⟨lines', pointer, filter, inputs'⟩ labels' texts)
    (yields : List.Forall₂ (Yields surroundings pointer filter) texts outputs) :
    (checkedAs labels outputs).map (·.value) = (checkedAs labels' outputs).map (·.value) := by
  have length := yields.length_eq
  rw [values_checkedAs (own.length.trans length), values_checkedAs (other.length.trans length)]

/-- What a run reports on, and what another one reports on the same texts. -/
theorem ending_of_loadsAs {labels labels' : List String} {texts : List (List Char)}
    (own : LoadsAs surroundings ⟨lines, pointer, filter, inputs⟩ labels texts)
    (other : LoadsAs surroundings ⟨lines', pointer, filter, inputs'⟩ labels' texts) {report : Report}
    (answer : (ending surroundings (.check type ⟨lines, pointer, filter, inputs⟩ format quiet)).run =
      some (.ok report)) :
    ∃ resolved outputs verdicts verdicts', (resolveType surroundings type).run = some (.ok resolved) ∧
      List.Forall₂ (Yields surroundings pointer filter) texts outputs ∧
      List.Forall₂ (Checks resolved) (checkedAs labels outputs) verdicts ∧
      report = reportOf format quiet verdicts ∧
      List.Forall₂ (Checks resolved) (checkedAs labels' outputs) verdicts' ∧
      (ending surroundings (.check type ⟨lines', pointer, filter, inputs'⟩ format quiet)).run =
        some (.ok (reportOf format quiet verdicts')) ∧
      (checkedAs labels outputs).map (·.value) = (checkedAs labels' outputs).map (·.value) ∧
      verdicts.map (·.outcome) = verdicts'.map (·.outcome) := by
  obtain ⟨resolved, documents, verdicts, resolves, loads, checks, rfl⟩ := ending_eq_ok.mp answer
  obtain ⟨outputs, yields, rfl⟩ := (own.loads _).mp loads
  have same := own.values_eq other yields
  obtain ⟨verdicts', checks', outcomes⟩ := exists_checks_of_values same checks
  have loads' := (other.loads _).mpr ⟨outputs, yields, rfl⟩
  exact ⟨resolved, outputs, verdicts, verdicts', resolves, yields, checks, rfl, checks',
    ending_eq_ok.mpr ⟨resolved, _, verdicts', resolves, loads', checks', rfl⟩, same, outcomes⟩

theorem unending_of_loadsAs {labels labels' : List String} {texts : List (List Char)}
    (own : LoadsAs surroundings ⟨lines, pointer, filter, inputs⟩ labels texts)
    (other : LoadsAs surroundings ⟨lines', pointer, filter, inputs'⟩ labels' texts)
    (never : (ending surroundings (.check type ⟨lines, pointer, filter, inputs⟩ format quiet)).run = none) :
    (ending surroundings (.check type ⟨lines', pointer, filter, inputs'⟩ format quiet)).run = none := by
  obtain ⟨resolved, documents, resolves, loads, document, member, unending⟩ := ending_eq_none.mp never
  obtain ⟨outputs, yields, rfl⟩ := (own.loads _).mp loads
  have among : document.value ∈ (checkedAs labels' outputs).map (·.value) := by
    rw [← own.values_eq other yields]
    exact List.mem_map_of_mem member
  obtain ⟨document', member', same⟩ := List.mem_map.mp among
  exact ending_eq_none.mpr ⟨resolved, _, resolves, (other.loads _).mpr ⟨outputs, yields, rfl⟩, document', member',
    by rwa [same]⟩

theorem exitCode_reportOf {verdicts verdicts' : List Verdict}
    (same : verdicts.map (·.outcome) = verdicts'.map (·.outcome)) (format : Format) (quiet : Bool) :
    (reportOf format quiet verdicts).exitCode = (reportOf format quiet verdicts').exitCode := by
  have count (verdicts : List Verdict) :
      failureCount verdicts = (verdicts.map (·.outcome)).countP fun outcome => !outcome.isSuccess := by
    rw [failureCount, List.countP_map]
    rfl
  have counts : failureCount verdicts = failureCount verdicts' := by rw [count, count, same]
  simp only [reportOf, counts]

end LoadsAs

/-- A file with documents on its lines is checked as files with one of them each: both runs fail, or neither ends, or
both check the same values in the same order with the same outcomes. On the lines the labels have the numbers of the
lines. -/
theorem lines_like_files {surroundings : Surroundings} {inputs inputs' : List String} {path : FilePath}
    {paths : List FilePath} {file : LineFile} (expands : Expands surroundings inputs [path])
    (holds : Holds surroundings [] path (String.ofList file.text)) (expands' : Expands surroundings inputs' paths)
    (all : HoldAll surroundings [] paths (file.documents.map fun (own, _) => String.ofList own.text))
    (type : TypeChoice) (pointer filter : Option String) (format : Format) (quiet : Bool) :
    let lined := (ending surroundings (.check type ⟨true, pointer, filter, inputs⟩ format quiet)).run
    let apart := (ending surroundings (.check type ⟨false, pointer, filter, inputs'⟩ format quiet)).run
    let labels := file.documents.map fun (_, number) => path.text ++ ":" ++ toString number
    let texts := file.documents.map fun (own, _) => own.text
    (lined.map fun ended => (effect ended).exitCode) = (apart.map fun ended => (effect ended).exitCode) ∧
      (lined = none ∧ apart = none ∨
        (∃ causes, lined = some (.error causes)) ∧ (∃ causes, apart = some (.error causes)) ∨
        ∃ resolved outputs verdicts verdicts', (resolveType surroundings type).run = some (.ok resolved) ∧
          List.Forall₂ (Yields surroundings pointer filter) texts outputs ∧
          List.Forall₂ (Checks resolved) (checkedAs labels outputs) verdicts ∧
          lined = some (.ok (reportOf format quiet verdicts)) ∧
          List.Forall₂ (Checks resolved) (checkedAs (paths.map (·.text)) outputs) verdicts' ∧
          apart = some (.ok (reportOf format quiet verdicts')) ∧
          (checkedAs labels outputs).map (·.value) = (checkedAs (paths.map (·.text)) outputs).map (·.value) ∧
          verdicts.map (·.outcome) = verdicts'.map (·.outcome)) := by
  intro lined apart labels texts
  have own : LoadsAs surroundings ⟨true, pointer, filter, inputs⟩ labels texts := loadsAs_lines expands holds
  have found : texts = (file.documents.map (·.1)).map (·.text) := (List.map_map ..).symm
  have other : LoadsAs surroundings ⟨false, pointer, filter, inputs'⟩ (paths.map (·.text)) texts := by
    rw [found]
    refine loadsAs_files expands' ?_
    rw [List.map_map]
    exact all
  cases answer : lined with
  | none =>
      have never : apart = none := unending_of_loadsAs own other answer
      rw [never]
      exact ⟨rfl, .inl ⟨rfl, rfl⟩⟩
  | some ended =>
      cases ended with
      | error causes =>
          cases answer' : apart with
          | none => cases answer.symm.trans (unending_of_loadsAs other own answer')
          | some ended' =>
              cases ended' with
              | error causes' => exact ⟨rfl, .inr (.inl ⟨⟨causes, rfl⟩, causes', rfl⟩)⟩
              | ok report =>
                  obtain ⟨_, _, _, _, _, _, _, _, _, same, _⟩ := ending_of_loadsAs other own answer'
                  cases answer.symm.trans same
      | ok report =>
          obtain ⟨resolved, outputs, verdicts, verdicts', resolves, yields, checks, rfl, checks', answer', same,
            outcomes⟩ := ending_of_loadsAs own other answer
          have answer' : apart = some (.ok (reportOf format quiet verdicts')) := answer'
          rw [answer']
          refine ⟨congrArg some (exitCode_reportOf outcomes format quiet), .inr (.inr ?_)⟩
          exact ⟨resolved, outputs, verdicts, verdicts', resolves, yields, checks, rfl, checks', rfl, same, outcomes⟩

/-- Three documents on four lines, and in three files. -/
theorem lines_like_files_three :
    let surroundings : Surroundings := {
      declarations := {}
      read := fun path => match path.text with
        | "all" => .ok "[1]\r\n \n[true]\n[2]"
        | "a" => .ok "[1]"
        | "b" => .ok "[true]"
        | "c" => .ok "[2]"
        | _ => .error "missing"
      expand := fun _ => .ok []
      input := .ok ""
      filter := fun _ value => .ok [value] }
    let type : TypeChoice := ⟨none, "number", false, none⟩
    let lined := (ending surroundings (.check type ⟨true, some "/0", none, ["all"]⟩ .text false)).run
    let apart := (ending surroundings (.check type ⟨false, some "/0", none, ["a", "b", "c"]⟩ .text false)).run
    (lined.map fun ended => (effect ended).output) = some "✓ all:1\n✗ all:3: Field must be number\n✓ all:4\n" ∧
      (lined.map fun ended => (effect ended).exitCode) = (apart.map fun ended => (effect ended).exitCode) ∧
      ∃ verdicts verdicts', lined = some (.ok (reportOf .text false verdicts)) ∧
        apart = some (.ok (reportOf .text false verdicts')) ∧
          verdicts.map (·.outcome) = verdicts'.map (·.outcome) := by
  intro surroundings type lined apart
  let one : LineDocument := .ofRead (show '\n' ∉ "[1]".toList by decide) rfl
  let other : LineDocument := .ofRead (show '\n' ∉ "[true]".toList by decide) rfl
  let two : LineDocument := .ofRead (show '\n' ∉ "[2]".toList by decide) rfl
  let file : LineFile := ⟨[(.document one, .returnFeed), (.blank ⟨[' '], by decide, by decide⟩, .feed),
    (.document other, .feed)], some (.document two)⟩
  have expands : Expands surroundings ["all"] [⟨"all"⟩] := ⟨[[⟨"all"⟩]], .cons rfl .nil, rfl⟩
  have expands' : Expands surroundings ["a", "b", "c"] [⟨"a"⟩, ⟨"b"⟩, ⟨"c"⟩] :=
    ⟨[[⟨"a"⟩], [⟨"b"⟩], [⟨"c"⟩]], .cons rfl (.cons rfl (.cons rfl .nil)), rfl⟩
  have holds : Holds surroundings [] ⟨"all"⟩ (String.ofList file.text) := rfl
  have all : HoldAll surroundings [] [⟨"a"⟩, ⟨"b"⟩, ⟨"c"⟩]
      (file.documents.map fun (own, _) => String.ofList own.text) :=
    .cons rfl (.cons rfl (.cons rfl .nil))
  have written : (lined.map fun ended => (effect ended).output) =
      some "✓ all:1\n✗ all:3: Field must be number\n✓ all:4\n" := by decide +kernel
  obtain ⟨same, ⟨never, _⟩ | ⟨⟨causes, failed⟩, _⟩ |
      ⟨_, _, verdicts, verdicts', _, _, _, answer, _, answer', _, outcomes⟩⟩ :=
    lines_like_files expands holds expands' all type (some "/0") none .text false
  · rw [show lined = none from never] at written
    cases written
  · rw [show lined = some (.error causes) from failed] at written
    have nothing : "" = "✓ all:1\n✗ all:3: Field must be number\n✓ all:4\n" := Option.some.inj written
    exact absurd nothing (by decide)
  · exact ⟨written, same, verdicts, verdicts', answer, answer', outcomes⟩

end Conform.Command
