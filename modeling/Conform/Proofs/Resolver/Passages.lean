import Conform.Proofs.Resolver.Described

/-!
The expressions that a resolution comes to, each with the declaration in whose definition it stands. A
validator portrays them: it is made as they say, and where it has a reference, that stands in for a
declaration which leads back to where the expression stands, and is filled from its definition.
-/

namespace Conform

open Relation

structure Passage where
  /-- The declaration in whose definition the expression stands. -/
  home : Option Place
  /-- Where names are looked up. -/
  file : Option FilePath
  expr : List Char
deriving DecidableEq

namespace Passage

def part (passage : Passage) (part : List Char) : Passage := { passage with expr := part }

def IsRecord (passage : Passage) : Prop :=
  (∃ parts, Form.read passage.expr = .ok (.record parts)) ∨
    ∃ name, Form.read passage.expr = .ok (.partialOf name)

end Passage

theorem Makes.not_reference {uses : List Char → Validator → Prop} {strict : Bool} {form : Form}
    {validator : Validator} (makes : Makes uses strict form validator) (name : List Char) :
    form ≠ .reference name := by
  rintro rfl
  cases makes

def DeclKey.passage (key : DeclKey) (definition : List Char) : Passage :=
  ⟨some key.place, some key.file, definition⟩

def Site.passage (site : Site) (expr : List Char) : Passage :=
  ⟨site.building.head?.map (·.key.place), site.file, expr⟩

namespace Sources

section

variable (sources : Sources) (strict : Bool)

def NameFor (passage : Passage) (key : DeclKey) : Prop :=
  ∃ name, Form.read passage.expr = .ok (.reference name) ∧ sources.Means passage.file name key

inductive Step (uses : Use → Prop) : Passage → Passage → Prop where
  | piece {passage : Passage} {use : Use} {part : List Char} (among : uses use)
      (piece : Piece use passage.expr part) : Step uses passage (passage.part part)
  | definition {passage : Passage} {key : DeclKey} {definition : List Char}
      (named : sources.NameFor passage key) (defined : sources.definition key = .ok definition) :
      Step uses passage (key.passage definition)

/-- The resolution of the first expression comes to the second one. -/
abbrev Covers : Passage → Passage → Prop := ReflTransGen (sources.Step fun _ => True)

def Finds (uses : Use → Prop) (kind : Passage → Prop) (passage : Passage) : Prop :=
  ∃ found, ReflTransGen (sources.Step uses) passage found ∧ kind found

abbrev StandsForRecord : Passage → Prop := sources.Finds (fun _ => False) Passage.IsRecord

structure FaultlessAt (passage : Passage) : Prop where
  readable : ∃ form, Form.read passage.expr = .ok form
  members : ∀ parts, Form.read passage.expr = .ok (.record parts) →
    ∀ member ∈ Expr.members parts.body, Expr.member? member ≠ none
  atOnce : ∀ name, Piece .atOnce passage.expr name → sources.StandsForRecord (passage.part name)
  names : ∀ name, Form.read passage.expr = .ok (.reference name) →
    ∃ key definition, sources.Means passage.file name key ∧ sources.definition key = .ok definition

def Faultless (passage : Passage) : Prop :=
  ∀ found, sources.Covers passage found → sources.FaultlessAt found

inductive Portrays (grounded : CellId → Place → Prop) : Passage → Validator → Prop where
  | made {passage : Passage} {form : Form} {validator : Validator} {uses : List Char → Validator → Prop}
      (read : Form.read passage.expr = .ok form)
      (parts : ∀ part found, uses part found → Portrays grounded (passage.part part) found)
      (makes : Makes uses strict form validator) : Portrays grounded passage validator
  | definition {passage : Passage} {key : DeclKey} {definition : List Char} {validator : Validator}
      (named : sources.NameFor passage key) (defined : sources.definition key = .ok definition)
      (stands : Portrays grounded (key.passage definition) validator) :
      Portrays grounded passage validator
  | reference {passage : Passage} {key : DeclKey} {home : Place} (cell : CellId)
      (named : sources.NameFor passage key) (inside : passage.home = some home)
      (back : sources.Leads key.place home) (circle : TransGen sources.Refers key.place key.place)
      (known : grounded cell key.place) : Portrays grounded passage (.deferred key.name cell)

def PortraysKey (grounded : CellId → Place → Prop) (key : DeclKey) (validator : Validator) : Prop :=
  ∃ definition, sources.definition key = .ok definition ∧
    sources.Portrays strict grounded (key.passage definition) validator

def Backed (grounded : CellId → Place → Prop) (references : References) : Prop :=
  ∀ cell place, grounded cell place → ∃ key target, key.place = place ∧
    references.target? cell = some target ∧ sources.PortraysKey strict grounded key target

end

variable {sources : Sources} {strict : Bool} {uses : Use → Prop} {kind : Passage → Prop}
  {passage found : Passage} {key other : DeclKey} {definition part : List Char} {form : Form}

theorem NameFor.unique (named : sources.NameFor passage key) (also : sources.NameFor passage other) :
    key = other := by
  obtain ⟨name, read, means⟩ := named
  obtain ⟨name', read', means'⟩ := also
  cases read.symm.trans read'
  exact means_unique means means'

theorem NameFor.not_piece {use : Use} (named : sources.NameFor passage key)
    (piece : Piece use passage.expr part) : False := by
  obtain ⟨name, read, _⟩ := named
  exact piece.no_reference name read

theorem NameFor.ne_form (named : sources.NameFor passage key) (read : Form.read passage.expr = .ok form)
    (other : ∀ name, form ≠ .reference name) : False := by
  obtain ⟨name, read', _⟩ := named
  exact other name (Except.ok.inj (read.symm.trans read'))

namespace Finds

theorem here (is : kind passage) : sources.Finds uses kind passage := ⟨passage, .refl, is⟩

theorem step (step : sources.Step uses passage found) (finds : sources.Finds uses kind found) :
    sources.Finds uses kind passage := by
  obtain ⟨last, path, is⟩ := finds
  exact ⟨last, .head step path, is⟩

theorem cases_head (finds : sources.Finds uses kind passage) :
    kind passage ∨ ∃ next, sources.Step uses passage next ∧ sources.Finds uses kind next := by
  obtain ⟨last, path, is⟩ := finds
  rcases path.cases_head with rfl | ⟨next, step, path⟩
  · exact .inl is
  · exact .inr ⟨next, step, last, path, is⟩

theorem of_name (finds : sources.Finds uses kind passage) (named : sources.NameFor passage key)
    (defined : sources.definition key = .ok definition) :
    kind passage ∨ sources.Finds uses kind (key.passage definition) := by
  refine finds.cases_head.imp_right ?_
  rintro ⟨next, step, finds⟩
  cases step with
  | piece _ piece => exact (named.not_piece piece).elim
  | definition named' defined' =>
      cases named.unique named'
      cases defined.symm.trans defined'
      exact finds

theorem of_form (finds : sources.Finds uses kind passage) (read : Form.read passage.expr = .ok form)
    (other : ∀ name, form ≠ .reference name) :
    kind passage ∨ ∃ use part, uses use ∧ Piece use passage.expr part ∧
      sources.Finds uses kind (passage.part part) := by
  refine finds.cases_head.imp_right ?_
  rintro ⟨next, step, finds⟩
  cases step with
  | piece among piece => exact ⟨_, _, among, piece, finds⟩
  | definition named => exact (named.ne_form read other).elim

end Finds

namespace Portrays

variable {grounded grounded' : CellId → Place → Prop} {validator : Validator} {references : References}

theorem imp (portrays : sources.Portrays strict grounded passage validator)
    (weaker : ∀ cell place, grounded cell place → grounded' cell place) :
    sources.Portrays strict grounded' passage validator := by
  induction portrays with
  | made read _ makes ih => exact .made read ih makes
  | definition named defined _ ih => exact .definition named defined ih
  | reference cell named inside back circle known =>
      exact .reference cell named inside back circle (weaker _ _ known)

theorem congr {file : Option FilePath} (portrays : sources.Portrays strict grounded passage validator)
    (same : ∀ name key, sources.Means passage.file name key → sources.Means file name key) :
    sources.Portrays strict grounded { passage with file := file } validator := by
  have moved {passage : Passage} {key : DeclKey} (named : sources.NameFor passage key)
      (same : ∀ name key, sources.Means passage.file name key → sources.Means file name key) :
      sources.NameFor { passage with file := file } key := by
    obtain ⟨name, read, means⟩ := named
    exact ⟨name, read, same _ _ means⟩
  induction portrays with
  | made read _ makes ih => exact .made read (fun part found used => ih part found used same) makes
  | definition named defined stands _ => exact .definition (moved named same) defined stands
  | reference cell named inside back circle known =>
      exact .reference cell (moved named same) inside back circle known

end Portrays

theorem PortraysKey.congr {grounded : CellId → Place → Prop} {validator : Validator}
    (portrays : sources.PortraysKey strict grounded key validator) (same : key.place = other.place) :
    sources.PortraysKey strict grounded other validator := by
  obtain ⟨definition, defined, portrays⟩ := portrays
  have moved : sources.Portrays strict grounded
      { key.passage definition with file := some other.file } validator :=
    portrays.congr fun name target means => means_congr same means
  refine ⟨definition, definition_congr (DeclKey.sameAs_iff_place.mpr same) defined, ?_⟩
  simpa only [DeclKey.passage, same] using moved

theorem PortraysKey.imp {grounded grounded' : CellId → Place → Prop} {validator : Validator}
    (portrays : sources.PortraysKey strict grounded key validator)
    (weaker : ∀ cell place, grounded cell place → grounded' cell place) :
    sources.PortraysKey strict grounded' key validator := by
  obtain ⟨definition, defined, portrays⟩ := portrays
  exact ⟨definition, defined, portrays.imp weaker⟩

namespace Portrays

variable {grounded : CellId → Place → Prop} {validator : Validator} {references : References}

theorem describes (portrays : sources.Portrays strict grounded passage validator) :
    sources.Describes strict passage.file passage.expr validator := by
  induction portrays with
  | made read _ makes ih => exact .made read ih makes
  | definition named defined _ ih =>
      obtain ⟨name, read, means⟩ := named
      exact .definition read means defined ih
  | reference cell named _ _ circle =>
      obtain ⟨name, read, means⟩ := named
      exact .reference cell read means circle

theorem makes (portrays : sources.Portrays strict grounded passage validator)
    (read : Form.read passage.expr = .ok form) (other : ∀ name, form ≠ .reference name) :
    Makes (fun part => sources.Portrays strict grounded (passage.part part)) strict form validator := by
  cases portrays with
  | made read' parts makes =>
      cases read.symm.trans read'
      exact makes.imp parts
  | definition named => exact (named.ne_form read other).elim
  | reference _ named => exact (named.ne_form read other).elim

theorem of_name (portrays : sources.Portrays strict grounded passage validator)
    (named : sources.NameFor passage key) :
    (∃ definition, sources.definition key = .ok definition ∧
        sources.Portrays strict grounded (key.passage definition) validator) ∨
      ∃ home cell, validator = .deferred key.name cell ∧ passage.home = some home ∧
        sources.Leads key.place home ∧ TransGen sources.Refers key.place key.place ∧
        grounded cell key.place := by
  cases portrays with
  | made read _ makes => exact (named.ne_form read makes.not_reference).elim
  | definition named' defined stands =>
      cases named.unique named'
      exact .inl ⟨_, defined, stands⟩
  | @reference _ _ home cell named' inside back circle known =>
      cases named.unique named'
      exact .inr ⟨home, cell, rfl, inside, back, circle, known⟩

theorem name (backed : sources.Backed strict grounded references)
    (portrays : sources.Portrays strict grounded passage validator)
    (named : sources.NameFor passage key) :
    ∃ definition, sources.definition key = .ok definition ∧
      (sources.Portrays strict grounded (key.passage definition) validator ∨
        ∃ name cell target, validator = .deferred name cell ∧
          references.target? cell = some target ∧
          sources.Portrays strict grounded (key.passage definition) target) := by
  rcases portrays.of_name named with ⟨definition, defined, stands⟩ | ⟨_, cell, rfl, _, _, _, known⟩
  · exact ⟨definition, defined, .inl stands⟩
  · obtain ⟨other, target, same, filled, stated⟩ := backed _ _ known
    obtain ⟨definition, defined, stands⟩ := stated.congr same
    exact ⟨definition, defined, .inr ⟨_, cell, target, rfl, filled, stands⟩⟩

theorem record_of_standsForRecord (portrays : sources.Portrays strict grounded passage validator)
    (stands : sources.StandsForRecord passage) :
    (∃ own ancestors, validator = .record own ancestors) ∨
      ∃ name cell, validator = .deferred name cell := by
  obtain ⟨last, path, is⟩ := stands
  induction path using ReflTransGen.head_induction_on with
  | refl =>
      rcases is with ⟨parts, read⟩ | ⟨name, read⟩
      · cases portrays.makes read (by simp)
        exact .inl ⟨_, _, rfl⟩
      · cases portrays.makes read (by simp)
        exact .inl ⟨_, _, rfl⟩
  | head step _ ih =>
      cases step with
      | piece among => exact among.elim
      | definition named defined =>
          rcases portrays.of_name named with ⟨definition, defined', stands⟩ | ⟨_, cell, rfl, _⟩
          · cases defined.symm.trans defined'
            exact ih stands
          · exact .inr ⟨_, cell, rfl⟩

theorem standsForRecord {own : Level Validator} {ancestors : List (Level Validator)}
    (portrays : sources.Portrays strict grounded passage (.record own ancestors)) :
    sources.StandsForRecord passage := by
  generalize same : Validator.record own ancestors = validator at portrays
  induction portrays with
  | made read _ makes =>
      cases makes with
      | primitive | group | array => cases same
      | partialOf => exact .here (.inr ⟨_, read⟩)
      | record => exact .here (.inl ⟨_, read⟩)
  | definition named defined _ ih => exact (ih same).step (.definition named defined)
  | reference => cases same

theorem covers (backed : sources.Backed strict grounded references)
    (portrays : sources.Portrays strict grounded passage validator)
    (covers : sources.Covers passage found) :
    ∃ validator, sources.Portrays strict grounded found validator := by
  induction covers with
  | refl => exact ⟨validator, portrays⟩
  | tail _ step ih =>
      obtain ⟨around, portrays⟩ := ih
      cases step with
      | piece _ piece =>
          cases portrays with
          | made read parts makes =>
              obtain ⟨found, used, _⟩ := makes.piece read piece
              exact ⟨found, parts _ _ used⟩
          | definition named => exact (named.not_piece piece).elim
          | reference _ named => exact (named.not_piece piece).elim
      | definition named defined =>
          obtain ⟨definition', defined', stands | ⟨_, _, target, _, _, stands⟩⟩ :=
            portrays.name backed named
          · cases defined.symm.trans defined'
            exact ⟨around, stands⟩
          · cases defined.symm.trans defined'
            exact ⟨target, stands⟩

theorem faultlessAt (backed : sources.Backed strict grounded references)
    (portrays : sources.Portrays strict grounded passage validator) : sources.FaultlessAt passage := by
  have byName {key : DeclKey} (named : sources.NameFor passage key) : sources.FaultlessAt passage := by
    obtain ⟨definition, defined, _⟩ := portrays.name backed named
    obtain ⟨name, read, means⟩ := named
    refine ⟨⟨_, read⟩, fun parts read' => ?_, fun _ piece => absurd read (piece.no_reference _), ?_⟩
    · cases read.symm.trans read'
    · intro name' read'
      cases read.symm.trans read'
      exact ⟨key, definition, means, defined⟩
  cases portrays with
  | made read parts makes =>
      refine ⟨⟨_, read⟩, fun text read' member among => ?_, fun name piece => ?_, fun name read' => ?_⟩
      · cases read.symm.trans read'
        cases makes with
        | record _ _ members =>
            obtain ⟨_, known, _⟩ := members.readable among
            simp [known]
      · obtain ⟨found, used, isRecord⟩ := makes.piece read piece
        obtain ⟨own, ancestors, rfl⟩ := isRecord rfl
        exact (parts _ _ used).standsForRecord
      · cases read.symm.trans read'
        cases makes
  | definition named => exact byName named
  | reference _ named => exact byName named

theorem faultless (backed : sources.Backed strict grounded references)
    (portrays : sources.Portrays strict grounded passage validator) : sources.Faultless passage := by
  intro found covers
  obtain ⟨_, portrayed⟩ := portrays.covers backed covers
  exact portrayed.faultlessAt backed

end Portrays

end Sources

end Conform
