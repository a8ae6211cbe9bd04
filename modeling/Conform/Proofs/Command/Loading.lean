import Conform.Command.Documents
import Conform.Proofs.Answers

/-!
What a run loads, as relations between inputs, paths, texts and documents: an input stands for paths, a path holds a
text, a text has pieces, and a piece gives documents. Loading comes to an end with some documents exactly where these
relations lead to them.
-/

namespace Conform.Command

/-! ## What leads to the documents -/

def Matches (surroundings : Surroundings) (input : String) (paths : List FilePath) : Prop :=
  if isPattern input then surroundings.expand input = .ok paths ∧ paths ≠ [] else paths = [⟨input⟩]

def Expands (surroundings : Surroundings) (inputs : List String) (paths : List FilePath) : Prop :=
  ∃ matched, List.Forall₂ (Matches surroundings) inputs matched ∧ paths = matched.flatten

/-- The text that a path holds when those before it have been read. The standard input holds its text once, and
nothing from then on. -/
def Holds (surroundings : Surroundings) (before : List FilePath) (path : FilePath) (text : String) : Prop :=
  if !isStandardInput path then surroundings.read path = .ok text
  else if before.any isStandardInput then text = ""
  else surroundings.input = .ok text

inductive HoldAll (surroundings : Surroundings) : List FilePath → List FilePath → List String → Prop
  | nil {before : List FilePath} : HoldAll surroundings before [] []
  | cons {before rest : List FilePath} {path : FilePath} {text : String} {texts : List String} :
    Holds surroundings before path text → HoldAll surroundings (before ++ [path]) rest texts →
      HoldAll surroundings before (path :: rest) (text :: texts)

structure Piece where
  label : String
  text : List Char

def pieces (lines : Bool) (path : FilePath) (text : String) : List Piece :=
  if lines then
    (((textLines text.toList).zipIdx 1).filter fun (line, _) => !(Text.trim line).isEmpty).map fun (line, number) =>
      ⟨path.text ++ ":" ++ toString number, line⟩
  else [⟨path.text, text.toList⟩]

def Selects (pointer : Option String) (value part : Json) : Prop :=
  match pointer with
  | none => part = value
  | some pointer => Json.select? pointer.toList value = some part

def Filters (surroundings : Surroundings) (filter : Option String) (value : Json) (outputs : List Json) : Prop :=
  match filter with
  | none => outputs = [value]
  | some filter => surroundings.filter filter value = .ok outputs

def labelled (label : String) (outputs : List Json) : List Document :=
  if outputs.length ≤ 1 then outputs.map (Document.mk label)
  else outputs.zipIdx.map fun (value, i) => ⟨label ++ "#" ++ toString i, value⟩

def Gives (surroundings : Surroundings) (choice : InputChoice) (piece : Piece) (documents : List Document) : Prop :=
  ∃ value part outputs, Json.read piece.text = .ok value ∧ Selects choice.pointer value part ∧
    Filters surroundings choice.filter part outputs ∧ documents = labelled piece.label outputs

def allPieces (choice : InputChoice) (paths : List FilePath) (texts : List String) : List Piece :=
  (List.zipWith (pieces choice.lines) paths texts).flatten

/-- The documents of a run, in the order of its inputs. -/
def Loads (surroundings : Surroundings) (choice : InputChoice) (documents : List Document) : Prop :=
  ∃ paths texts groups, Expands surroundings choice.inputs paths ∧ HoldAll surroundings [] paths texts ∧
    List.Forall₂ (Gives surroundings choice) (allPieces choice paths texts) groups ∧ documents = groups.flatten

/-! ## One step at a time -/

variable {surroundings : Surroundings} {choice : InputChoice}

theorem inputPaths_eq_ok {input : String} {paths : List FilePath} :
    inputPaths surroundings input = .ok paths ↔ Matches surroundings input paths := by
  unfold inputPaths Matches
  split
  next =>
    split
    next found => simp [found, eq_comm]
    next paths' some_ found =>
      rw [found]
      constructor
      · intro same
        cases same
        exact ⟨rfl, some_⟩
      · rintro ⟨same, -⟩
        cases same
        rfl
    next found => simp [found]
  next => rw [Except.ok.injEq, eq_comm]

theorem holds_congr {before before' : List FilePath} {path : FilePath} {text : String}
    (same : before.any isStandardInput = before'.any isStandardInput) :
    Holds surroundings before path text ↔ Holds surroundings before' path text := by
  rw [Holds, Holds, same]

theorem sourceText_eq_ok {before : List FilePath} {path : FilePath} {text : String} :
    sourceText surroundings before path = .ok text ↔ Holds surroundings before path text := by
  have unchanged (answer : Except String String) :
      answer.mapError (fun reason => failure ["failed to read " ++ path.text, reason]) = .ok text ↔ answer = .ok text := by
    cases answer with
    | error reason => simp [Except.mapError]
    | ok text => simp [Except.mapError]
  unfold sourceText Holds
  rw [unchanged]
  split
  next => rfl
  next =>
    split
    next => rw [Except.ok.injEq, eq_comm]
    next => rfl

theorem readDocument_eq_ok {label context : String} {text : List Char} {document : Document} :
    readDocument label context text = .ok document ↔ ∃ value, Json.read text = .ok value ∧ document = ⟨label, value⟩ := by
  unfold readDocument
  split
  next value read => simp [read, eq_comm]
  next error read => simp [read]

theorem textDocuments_eq_ok {path : FilePath} {text : String} {documents : List Document} :
    textDocuments choice path.text text.toList = .ok documents ↔
      List.Forall₂ (fun piece document => ∃ value, Json.read piece.text = .ok value ∧ document = ⟨piece.label, value⟩)
        (pieces choice.lines path text) documents := by
  unfold textDocuments pieces
  split
  next =>
    rw [lineDocuments, mapM_eq_ok, List.forall₂_map_left_iff]
    simp only [readDocument_eq_ok]
  next =>
    simp only [map_eq_ok, readDocument_eq_ok, List.forall₂_cons_left_iff, List.forall₂_nil_left_iff]
    constructor
    · rintro ⟨document, read, rfl⟩
      exact ⟨document, [], read, rfl, rfl⟩
    · rintro ⟨document, _, read, rfl, rfl⟩
      exact ⟨document, read, rfl⟩

theorem selectPart_eq_ok {pointer : Option String} {document selected : Document} :
    selectPart pointer document = .ok selected ↔
      ∃ part, Selects pointer document.value part ∧ selected = ⟨document.label, part⟩ := by
  cases pointer with
  | none =>
      simp only [selectPart, Selects, Except.ok.injEq, exists_eq_left]
      exact eq_comm
  | some pointer =>
      unfold selectPart Selects
      cases found : Json.select? pointer.toList document.value with
      | none => simp [found]
      | some part => simp [found, eq_comm]

theorem filterDocument_eq_ok {filter : Option String} {document : Document} {documents : List Document} :
    filterDocument surroundings filter document = .ok documents ↔
      ∃ outputs, Filters surroundings filter document.value outputs ∧ documents = labelled document.label outputs := by
  cases filter with
  | none => simp [filterDocument, Filters, labelled, eq_comm]
  | some filter =>
      simp only [filterDocument, Filters]
      split
      next failed => simp [failed]
      next value found => simp [found, labelled, eq_comm]
      next outputs several found =>
        have many : outputs = [] ∨ ¬outputs.length ≤ 1 := by
          cases outputs with
          | nil => exact .inl rfl
          | cons value rest =>
              cases rest with
              | nil => exact absurd rfl (several value)
              | cons => exact .inr (by simp)
        rcases many with none_ | many
        · subst none_
          simp [found, labelled, eq_comm]
        · simp [found, labelled, many, eq_comm]

theorem prepare_eq_ok {document : Document} {documents : List Document} :
    prepare surroundings choice document = .ok documents ↔ ∃ part outputs, Selects choice.pointer document.value part ∧
      Filters surroundings choice.filter part outputs ∧ documents = labelled document.label outputs := by
  simp only [prepare, bind_eq_ok, selectPart_eq_ok, filterDocument_eq_ok]
  constructor
  · rintro ⟨_, ⟨part, selects, rfl⟩, outputs, filters, rfl⟩
    exact ⟨part, outputs, selects, filters, rfl⟩
  · rintro ⟨part, outputs, selects, filters, rfl⟩
    exact ⟨_, ⟨part, selects, rfl⟩, outputs, filters, rfl⟩

theorem gives_eq : Gives surroundings choice = fun piece documents =>
    ∃ document, (∃ value, Json.read piece.text = .ok value ∧ document = ⟨piece.label, value⟩) ∧
      prepare surroundings choice document = .ok documents := by
  funext piece documents
  simp only [prepare_eq_ok, Gives, eq_iff_iff]
  constructor
  · rintro ⟨value, part, outputs, read, rest⟩
    exact ⟨_, ⟨value, read, rfl⟩, part, outputs, rest⟩
  · rintro ⟨_, ⟨value, read, rfl⟩, part, outputs, rest⟩
    exact ⟨value, part, outputs, read, rest⟩

/-! ## A whole run -/

theorem pathDocuments_eq_ok {before : List FilePath} {path : FilePath} {documents : List Document} :
    pathDocuments surroundings choice before path = .ok documents ↔ ∃ text groups,
      Holds surroundings before path text ∧
        List.Forall₂ (Gives surroundings choice) (pieces choice.lines path text) groups ∧
          documents = groups.flatten := by
  have given (text : String) (groups : List (List Document)) :
      List.Forall₂ (Gives surroundings choice) (pieces choice.lines path text) groups ↔ ∃ read,
        textDocuments choice path.text text.toList = .ok read ∧
          read.mapM (prepare surroundings choice) = .ok groups := by
    rw [gives_eq, forall₂_comp_iff]
    simp only [textDocuments_eq_ok, mapM_eq_ok]
  simp only [pathDocuments, bind_eq_ok, sourceText_eq_ok, pure, Except.pure, Except.ok.injEq, given]
  constructor
  · rintro ⟨text, holds, read, parsed, groups, prepared, rfl⟩
    exact ⟨text, groups, holds, ⟨read, parsed, prepared⟩, rfl⟩
  · rintro ⟨text, groups, holds, ⟨read, parsed, prepared⟩, rfl⟩
    exact ⟨text, holds, read, parsed, groups, prepared, rfl⟩

theorem holdAll_congr {before before' paths : List FilePath} {texts : List String}
    (same : before.any isStandardInput = before'.any isStandardInput) (all : HoldAll surroundings before paths texts) :
    HoldAll surroundings before' paths texts := by
  induction all generalizing before' with
  | nil => exact .nil
  | cons first _ ih =>
      refine .cons ((holds_congr same).mp first) (ih ?_)
      rw [List.any_append, List.any_append, same]

theorem pathsDocuments_eq_ok {before paths : List FilePath} {documents : List Document} :
    pathsDocuments surroundings choice before paths = .ok documents ↔ ∃ texts groups,
      HoldAll surroundings before paths texts ∧
        List.Forall₂ (Gives surroundings choice) (allPieces choice paths texts) groups ∧
          documents = groups.flatten := by
  induction paths generalizing before documents with
  | nil =>
      rw [pathsDocuments, Except.ok.injEq, eq_comm]
      constructor
      · rintro rfl
        exact ⟨[], [], .nil, .nil, rfl⟩
      · rintro ⟨_, _, all, gives, rfl⟩
        cases all
        cases gives
        rfl
  | cons path paths ih =>
      have order (before : List FilePath) :
          (path :: before).any isStandardInput = (before ++ [path]).any isStandardInput := by
        rw [List.any_append, List.any_cons, Bool.or_comm, List.any_cons, List.any_nil, Bool.or_false]
      simp only [pathsDocuments, bind_eq_ok, pathDocuments_eq_ok, ih, pure, Except.pure, Except.ok.injEq]
      constructor
      · rintro ⟨_, ⟨text, groups, holds, gives, rfl⟩, _, ⟨texts, groups', all, others, rfl⟩, rfl⟩
        exact ⟨text :: texts, groups ++ groups', .cons holds (holdAll_congr (order before) all),
          forall₂_append_left_iff.mpr ⟨groups, groups', gives, others, rfl⟩, List.flatten_append.symm⟩
      · rintro ⟨_, _, all, all_, rfl⟩
        cases all with
        | cons holds all =>
            obtain ⟨groups, groups', gives, others, rfl⟩ := forall₂_append_left_iff.mp all_
            exact ⟨_, ⟨_, groups, holds, gives, rfl⟩, _,
              ⟨_, groups', holdAll_congr (order before).symm all, others, rfl⟩, List.flatten_append.symm⟩

/-- Loading ends with the documents that the inputs lead to, and only with them. -/
theorem loadDocuments_eq_ok {documents : List Document} :
    loadDocuments surroundings choice = .ok documents ↔ Loads surroundings choice documents := by
  simp only [loadDocuments, bind_eq_ok, mapM_eq_ok, inputPaths_eq_ok, pathsDocuments_eq_ok]
  constructor
  · rintro ⟨matched, all, texts, groups, rest⟩
    exact ⟨matched.flatten, texts, groups, ⟨matched, all, rfl⟩, rest⟩
  · rintro ⟨_, texts, groups, ⟨matched, all, rfl⟩, rest⟩
    exact ⟨matched, all, texts, groups, rest⟩

end Conform.Command
