import Conform.Proofs.Resolver.Run

/-!
What the declaration files say, whatever was read before: the text of a file, the declaration that a
name means in a file, and the definition of a declaration. A resolver remembers texts; as long as
they are those of its files, reading through it gives the same answers.
-/

namespace Conform

namespace FilePath

theorem sameAs_iff {path other : FilePath} :
    path.sameAs other = true ↔ path.components = other.components := by
  simp [sameAs]

theorem normalize_eq {path other : FilePath} (same : path.sameAs other = true) :
    path.normalize = other.normalize := by
  rw [normalize, normalize, sameAs_iff.mp same]

end FilePath

namespace FileTable

theorem find?_eq (files : FileTable) {path other : FilePath} (same : path.sameAs other = true) :
    files.find? path = files.find? other := by
  have agree : (fun entry : FilePath × FileContent => entry.1.sameAs path) =
      fun entry => entry.1.sameAs other := by
    funext entry
    simp only [FilePath.sameAs, FilePath.sameAs_iff.mp same]
  simp only [find?]
  exact congrArg (fun test => (files.entries.find? test).map (·.2)) agree

end FileTable

namespace DeclKey

theorem sameAs_iff {key other : DeclKey} :
    key.sameAs other = true ↔
      key.name = other.name ∧ key.file.components = other.file.components := by
  simp [sameAs, FilePath.sameAs_iff]

theorem sameAs_refl (key : DeclKey) : key.sameAs key = true := sameAs_iff.mpr ⟨rfl, rfl⟩

end DeclKey

namespace Declaration

def find (name text : List Char) : Except ScanFault (Option (List Char)) :=
  match interface? name text with
  | .ok none => alias? name text
  | found => found

end Declaration

structure Sources where
  files : FileTable
  extensions : List String

namespace Sources

def text (sources : Sources) (file : FilePath) : Except Fault (List Char) :=
  match sources.files.find? file with
  | none => .error (.fileNotFound file)
  | some (.unreadable reason) => .error (.unreadableFile file reason)
  | some (.text content) => .ok (Text.stripComments content.toList)

def locateIn (sources : Sources) (name : List Char) (file : FilePath) (text : List Char) :
    Except Fault DeclKey :=
  match Declaration.import? name text with
  | none => .ok ⟨String.ofList name, file⟩
  | some found =>
    (Declaration.moduleFile sources.files file (String.ofList found.specifier)
      sources.extensions).map fun target => ⟨String.ofList found.exported, target⟩

def locate (sources : Sources) (name : List Char) (file : FilePath) : Except Fault DeclKey :=
  (sources.text file).bind (sources.locateIn name file)

def definitionIn (key : DeclKey) (text : List Char) : Except Fault (List Char) :=
  match Declaration.find key.name.toList text with
  | .error fault => .error (Resolve.scanFault key fault)
  | .ok none => .error (.undeclared key.name key.file)
  | .ok (some expr) => .ok expr

def definition (sources : Sources) (key : DeclKey) : Except Fault (List Char) :=
  (sources.text key.file).bind (definitionIn key)

/-- The declaration that a name means where names are looked up in `file`. -/
def Means (sources : Sources) (file : Option FilePath) (name : List Char) (key : DeclKey) : Prop :=
  ∃ known, file = some known ∧ sources.locate name known.normalize = .ok key

variable {sources : Sources}

theorem text_congr {file other : FilePath} {text : List Char}
    (same : file.sameAs other = true) (found : sources.text file = .ok text) :
    sources.text other = .ok text := by
  simp only [Sources.text, sources.files.find?_eq same] at found ⊢
  split at found
  · simp at found
  · simp at found
  · exact found

theorem definitionIn_ok_iff {key : DeclKey} {text expr : List Char} :
    definitionIn key text = .ok expr ↔ Declaration.find key.name.toList text = .ok (some expr) := by
  unfold definitionIn
  split <;> simp_all

theorem definition_ok_iff {key : DeclKey} {expr : List Char} :
    sources.definition key = .ok expr ↔
      ∃ text, sources.text key.file = .ok text ∧
        Declaration.find key.name.toList text = .ok (some expr) := by
  unfold definition
  cases sources.text key.file with
  | error fault => simp [Except.bind]
  | ok text => simp [Except.bind, definitionIn_ok_iff]

theorem definition_congr {key other : DeclKey} {expr : List Char}
    (same : key.sameAs other = true) (found : sources.definition key = .ok expr) :
    sources.definition other = .ok expr := by
  obtain ⟨sameName, sameFile⟩ := DeclKey.sameAs_iff.mp same
  obtain ⟨text, read, defined⟩ := definition_ok_iff.mp found
  rw [sameName] at defined
  exact definition_ok_iff.mpr ⟨text, text_congr (FilePath.sameAs_iff.mpr sameFile) read, defined⟩

theorem text_error {file : FilePath} {fault : Fault} (error : sources.text file = .error fault)
    (name : String) : fault ≠ .recursiveAlias name := by
  unfold text at error
  split at error
  · cases error
    simp
  · cases error
    simp
  · cases error

theorem locate_error {target : List Char} {file : FilePath} {fault : Fault}
    (error : sources.locate target file = .error fault) (name : String) :
    fault ≠ .recursiveAlias name := by
  unfold locate at error
  cases read : sources.text file with
  | error other =>
      rw [read] at error
      cases error
      exact text_error read name
  | ok text =>
      rw [read] at error
      change sources.locateIn target file text = .error fault at error
      unfold locateIn at error
      split at error
      · cases error
      · unfold Declaration.moduleFile at error
        dsimp only at error
        split at error
        · cases error
        · cases error
          simp

theorem definition_error {key : DeclKey} {fault : Fault}
    (error : sources.definition key = .error fault) (name : String) :
    fault ≠ .recursiveAlias name := by
  unfold definition at error
  cases read : sources.text key.file with
  | error other =>
      rw [read] at error
      cases error
      exact text_error read name
  | ok text =>
      rw [read] at error
      change definitionIn key text = .error fault at error
      unfold definitionIn at error
      split at error
      · cases error
        unfold Resolve.scanFault
        split <;> simp
      · cases error
        simp
      · cases error

end Sources

namespace Resolver

def sources (resolver : Resolver) : Sources :=
  ⟨resolver.files, resolver.options.extensions⟩

def Faithful (resolver : Resolver) : Prop :=
  ∀ entry ∈ resolver.texts, resolver.sources.text entry.1 = .ok entry.2

structure Quiet (before after : Resolver) : Prop where
  eq : after = { before with texts := after.texts, nextId := after.nextId }
  faithful : after.Faithful

theorem Faithful.text_of_known {resolver : Resolver} {file : FilePath} {text : List Char}
    (faithful : resolver.Faithful) (known : resolver.knownText? file = some text) :
    resolver.sources.text file = .ok text := by
  simp only [knownText?, Option.map_eq_some_iff] at known
  obtain ⟨entry, found, rfl⟩ := known
  have same : entry.1.sameAs file = true := by simpa using List.find?_some found
  exact Sources.text_congr same (faithful entry (List.mem_of_find?_eq_some found))

theorem Quiet.refl {resolver : Resolver} (faithful : resolver.Faithful) :
    Quiet resolver resolver := ⟨rfl, faithful⟩

theorem Quiet.sources_eq {before after : Resolver} (quiet : Quiet before after) :
    after.sources = before.sources := by
  rw [quiet.eq]
  rfl

theorem Quiet.fresh {resolver : Resolver} (faithful : resolver.Faithful) :
    Quiet resolver { resolver with nextId := resolver.nextId + 1 } := ⟨rfl, faithful⟩

end Resolver

namespace Resolve

open Resolver

variable {before : Resolver}

theorem mapError_ok {ε ε' α : Type} (change : ε → ε') (value : α) :
    (Except.ok value).mapError change = .ok value := rfl

theorem fileText_outcome (faithful : before.Faithful) (file : FilePath) :
    ∃ after, Quiet before after ∧ (fileText file).outcome before =
      ((before.sources.text file).mapError fun fault => .fault fault none, after) := by
  unfold fileText
  simp only [outcome_bind, outcome_get]
  cases known : before.knownText? file with
  | some text =>
      refine ⟨before, .refl faithful, ?_⟩
      rw [faithful.text_of_known known]
      rfl
  | none =>
      cases found : before.files.find? file with
      | none =>
          have missing : before.sources.text file = .error (.fileNotFound file) := by
            simp [Sources.text, sources, found]
          refine ⟨before, .refl faithful, ?_⟩
          rw [missing]
          rfl
      | some content =>
          cases content with
          | unreadable reason =>
              have missing : before.sources.text file = .error (.unreadableFile file reason) := by
                simp [Sources.text, sources, found]
              refine ⟨before, .refl faithful, ?_⟩
              rw [missing]
              rfl
          | text content =>
              have text : before.sources.text file = .ok (Text.stripComments content.toList) := by
                simp [Sources.text, sources, found]
              refine ⟨{ before with
                texts := before.texts ++ [(file, Text.stripComments content.toList)] }, ⟨rfl, ?_⟩, ?_⟩
              · intro entry member
                rcases List.mem_append.mp member with earlier | new
                · exact faithful entry earlier
                · rw [List.mem_singleton.mp new]
                  exact text
              · rw [text]
                rfl

theorem locate_outcome (faithful : before.Faithful) (name : List Char) (file : FilePath) :
    ∃ after, Quiet before after ∧ (locate name file).outcome before =
      ((before.sources.locate name file).mapError fun fault => .fault fault none, after) := by
  obtain ⟨after, quiet, outcome⟩ := fileText_outcome faithful file
  refine ⟨after, quiet, ?_⟩
  simp only [locate, Sources.locate, outcome_bind, outcome]
  cases before.sources.text file with
  | error fault => rfl
  | ok text =>
      have same := quiet.sources_eq
      change _ = ((before.sources.locateIn name file text).mapError _, after)
      simp only [mapError_ok, Sources.locateIn]
      cases Declaration.import? name text with
      | none => rfl
      | some found =>
          simp only [outcome_bind, outcome_get, outcome_ofExcept]
          simp only [sources, Sources.mk.injEq] at same
          rw [same.1, same.2]
          simp only [sources]
          cases Declaration.moduleFile before.files file (String.ofList found.specifier)
            before.options.extensions <;> rfl

theorem declared_outcome (faithful : before.Faithful) (key : DeclKey) :
    ∃ after, Quiet before after ∧ (declared key).outcome before =
      ((before.sources.definition key).mapError fun fault => .fault fault none, after) := by
  obtain ⟨after, quiet, outcome⟩ := fileText_outcome faithful key.file
  refine ⟨after, quiet, ?_⟩
  simp only [declared, Sources.definition, outcome_bind, outcome]
  cases before.sources.text key.file with
  | error fault => rfl
  | ok text =>
      change _ = ((Sources.definitionIn key text).mapError _, after)
      simp only [mapError_ok, Sources.definitionIn, Declaration.find, outcome_ofExcept]
      cases Declaration.interface? key.name.toList text with
      | error fault => rfl
      | ok found =>
          cases found with
          | some expr => rfl
          | none =>
              cases Declaration.alias? key.name.toList text with
              | error fault => rfl
              | ok found => cases found <;> rfl

theorem meets_of_outcome {action : Resolve α} {result : Except Fault α}
    {gives : α → Resolver → Prop} {stops : Stop → Resolver → Prop}
    (known : ∃ after, Quiet before after ∧
      action.outcome before = (result.mapError fun fault => .fault fault none, after))
    (good : ∀ value after, result = .ok value → Quiet before after → gives value after)
    (bad : ∀ fault after, result = .error fault → Quiet before after →
      stops (.fault fault none) after) : Meets action before gives stops := by
  obtain ⟨after, quiet, outcome⟩ := known
  unfold Meets
  rw [outcome]
  cases result with
  | ok value => exact good value after rfl quiet
  | error fault => exact bad fault after rfl quiet

end Resolve

end Conform
