import Conform.Proofs.Resolver.Form
import Conform.Proofs.Resolver.Sources
import Mathlib.Logic.Relation

/-!
How declarations refer to each other, read off their definitions alone. Two keys that count as the
same declaration have one place in this graph.
-/

namespace Conform

abbrev Place := String × List Component

def DeclKey.place (key : DeclKey) : Place := (key.name, key.file.components)

theorem DeclKey.sameAs_iff_place {key other : DeclKey} :
    key.sameAs other = true ↔ key.place = other.place := by
  rw [sameAs_iff, place, place, Prod.mk.injEq]

inductive Inside (expr : List Char) : List Use → List Char → Prop where
  | whole : Inside expr [] expr
  | piece {uses : List Use} {use : Use} {part smaller : List Char} (around : Inside expr uses part)
      (piece : Piece use part smaller) : Inside expr (uses ++ [use]) smaller

namespace Sources

variable (sources : Sources)

def NamesIn (file : Option FilePath) (expr : List Char) (uses : List Use) (target : Place) : Prop :=
  ∃ part name key, Inside expr uses part ∧ Form.read part = .ok (.reference name) ∧
    sources.Means file name key ∧ key.place = target

def Names (source : Place) (uses : List Use) (target : Place) : Prop :=
  ∃ key expr, key.place = source ∧ sources.definition key = .ok expr ∧
    sources.NamesIn (some key.file) expr uses target

def Refers (source target : Place) : Prop := ∃ uses, sources.Names source uses target

def NamesAtOnce (source target : Place) : Prop :=
  ∃ uses, sources.Names source uses target ∧ .atOnce ∈ uses

/-- At once, or outside all fields, index signatures and elements. -/
def Needs (source target : Place) : Prop :=
  ∃ uses, sources.Names source uses target ∧ (.nested ∉ uses ∨ .atOnce ∈ uses)

def ParentIn (file : Option FilePath) (expr : List Char) (target : Place) : Prop :=
  ∃ parts parent name key, Form.read expr = .ok (.record parts) ∧ parts.parent = some parent ∧
    Form.read parent = .ok (.reference name) ∧ sources.Means file name key ∧ key.place = target

def Extends (source target : Place) : Prop :=
  ∃ key expr, key.place = source ∧ sources.definition key = .ok expr ∧
    sources.ParentIn (some key.file) expr target

def Alias (source target : Place) : Prop := sources.Names source [] target

abbrev Leads : Place → Place → Prop := Relation.ReflTransGen sources.Refers

inductive StandsForLoop : Place → Prop where
  | loop {source target : Place} (alias_ : sources.Alias source target)
      (back : sources.Leads target source) : StandsForLoop source
  | through {source target : Place} (alias_ : sources.Alias source target)
      (further : StandsForLoop target) : StandsForLoop source

/-- While `source` is built first, `target` may come up where it needs something at once that is
not built either. That cannot be when `target` is an ancestor of `source`, since ancestors are
built before all else. -/
def Waits (source target : Place) : Prop :=
  ¬Relation.TransGen sources.Extends source target ∧
    ∃ unready, sources.NamesAtOnce target unready ∧ sources.Leads source unready ∧
      Relation.ReflTransGen (fun place next => sources.Refers place next ∧ next ≠ source)
        unready target

variable {sources}

theorem means_congr {key other : DeclKey} {name : List Char} {target : DeclKey}
    (same : key.place = other.place) (means : sources.Means (some key.file) name target) :
    sources.Means (some other.file) name target := by
  obtain ⟨_, ⟨⟩, located⟩ := means
  have sameFile := (DeclKey.sameAs_iff.mp (DeclKey.sameAs_iff_place.mpr same)).2
  exact ⟨_, rfl, FilePath.normalize_eq (FilePath.sameAs_iff.mpr sameFile) ▸ located⟩

theorem means_unique {file : Option FilePath} {name : List Char} {target other : DeclKey}
    (means : sources.Means file name target) (also : sources.Means file name other) :
    target = other := by
  obtain ⟨_, rfl, located⟩ := means
  obtain ⟨_, ⟨⟩, located'⟩ := also
  exact Except.ok.inj (located.symm.trans located')

theorem names_iff {key : DeclKey} {uses : List Use} {target : Place} :
    sources.Names key.place uses target ↔
      ∃ expr, sources.definition key = .ok expr ∧
        sources.NamesIn (some key.file) expr uses target := by
  constructor
  · rintro ⟨other, expr, same, defined, part, name, found, inside, form, means, at_⟩
    exact ⟨expr, definition_congr (DeclKey.sameAs_iff_place.mpr same) defined, part, name, found,
      inside, form, means_congr same means, at_⟩
  · rintro ⟨expr, defined, named⟩
    exact ⟨key, expr, rfl, defined, named⟩

theorem extends_iff {key : DeclKey} {target : Place} :
    sources.Extends key.place target ↔
      ∃ expr, sources.definition key = .ok expr ∧ sources.ParentIn (some key.file) expr target := by
  constructor
  · rintro ⟨other, expr, same, defined, parts, parent, name, found, form, extends_, name_, means, at_⟩
    exact ⟨expr, definition_congr (DeclKey.sameAs_iff_place.mpr same) defined, parts, parent, name,
      found, form, extends_, name_, means_congr same means, at_⟩
  · rintro ⟨expr, defined, parent⟩
    exact ⟨key, expr, rfl, defined, parent⟩

theorem ParentIn.unique {file : Option FilePath} {expr : List Char} {target other : Place}
    (parent : sources.ParentIn file expr target) (also : sources.ParentIn file expr other) :
    target = other := by
  obtain ⟨parts, parent, name, key, form, extends_, name_, means, rfl⟩ := parent
  obtain ⟨parts', parent', name', key', form', extends', name_', means', rfl⟩ := also
  cases form.symm.trans form'
  cases extends_.symm.trans extends'
  cases name_.symm.trans name_'
  rw [means_unique means means']

theorem Extends.unique {source target other : Place} (extends_ : sources.Extends source target)
    (also : sources.Extends source other) : target = other := by
  obtain ⟨key, expr, rfl, defined, parent⟩ := extends_
  obtain ⟨expr', defined', parent'⟩ := extends_iff.mp also
  cases defined.symm.trans defined'
  exact parent.unique parent'

theorem ParentIn.names {file : Option FilePath} {expr : List Char} {target : Place}
    (parent : sources.ParentIn file expr target) : sources.NamesIn file expr [.atOnce] target := by
  obtain ⟨parts, parent, name, key, form, extends_, name_, means, rfl⟩ := parent
  exact ⟨parent, name, key, .piece .whole (.parent form extends_), name_, means, rfl⟩

theorem Extends.needs {source target : Place} (extends_ : sources.Extends source target) :
    sources.Needs source target := by
  obtain ⟨key, expr, rfl, defined, parent⟩ := extends_
  exact ⟨[.atOnce], names_iff.mpr ⟨expr, defined, parent.names⟩, .inr (by simp)⟩

theorem NamesAtOnce.needs {source target : Place} (atOnce : sources.NamesAtOnce source target) :
    sources.Needs source target :=
  ⟨atOnce.choose, atOnce.choose_spec.1, .inr atOnce.choose_spec.2⟩

theorem leads_of_apart {source target avoided : Place}
    (path : Relation.ReflTransGen (fun place next => sources.Refers place next ∧ next ≠ avoided)
      source target) : sources.Leads source target :=
  Relation.ReflTransGen.mono (fun _ _ step => step.1) _ _ path

theorem needs_of_ancestor {source target : Place}
    (ancestor : Relation.TransGen sources.Extends source target) :
    Relation.TransGen sources.Needs source target :=
  Relation.TransGen.mono (fun _ _ step => step.needs) _ _ ancestor

theorem namesIn_nil_iff {file : Option FilePath} {expr : List Char} {target : Place} :
    sources.NamesIn file expr [] target ↔
      ∃ name key, Form.read expr = .ok (.reference name) ∧ sources.Means file name key ∧
        key.place = target := by
  constructor
  · rintro ⟨part, name, key, inside, form, means, at_⟩
    generalize same : ([] : List Use) = uses at inside
    cases inside with
    | whole => exact ⟨name, key, form, means, at_⟩
    | piece => simp at same
  · rintro ⟨name, key, form, means, at_⟩
    exact ⟨expr, name, key, .whole, form, means, at_⟩

end Sources

end Conform
