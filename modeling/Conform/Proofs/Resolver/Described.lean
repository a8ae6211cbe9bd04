import Conform.Proofs.Resolver.Independence
import Conform.Proofs.Validator.Parts

/-!
What an expression says of the validator that it is resolved to, circles of declarations or not. The
validator is made as the expression says, from validators for its parts; and a name stands for what its
definition is resolved to, or for a reference to it where it leads back to itself.
-/

namespace Conform

open Relation

theorem Makes.imp {uses uses' : List Char → Validator → Prop} {strict : Bool} {form : Form}
    {validator : Validator} (makes : Makes uses strict form validator)
    (weaker : ∀ part found, uses part found → uses' part found) : Makes uses' strict form validator := by
  cases makes with
  | primitive kind => exact .primitive kind
  | group node parts => exact .group node (parts.imp weaker)
  | array node part => exact .array node (weaker _ _ part)
  | partialOf node part => exact .partialOf node (weaker _ _ part)
  | record node parent members => exact .record node (parent.imp weaker) (members.imp weaker)

namespace Sources

section

variable (sources : Sources) (strict : Bool)

inductive Describes : Option FilePath → List Char → Validator → Prop where
  | made {file : Option FilePath} {expr : List Char} {form : Form} {validator : Validator}
      {uses : List Char → Validator → Prop} (read : Form.read expr = .ok form)
      (parts : ∀ part found, uses part found → Describes file part found)
      (makes : Makes uses strict form validator) : Describes file expr validator
  | definition {file : Option FilePath} {expr name definition : List Char} {key : DeclKey}
      {validator : Validator} (read : Form.read expr = .ok (.reference name))
      (means : sources.Means file name key) (defined : sources.definition key = .ok definition)
      (stands : Describes (some key.file) definition validator) : Describes file expr validator
  | reference {file : Option FilePath} {expr name : List Char} {key : DeclKey} (cell : CellId)
      (read : Form.read expr = .ok (.reference name)) (means : sources.Means file name key)
      (circle : TransGen sources.Refers key.place key.place) :
      Describes file expr (.deferred key.name cell)

def DescribesKey (key : DeclKey) (validator : Validator) : Prop :=
  ∃ definition, sources.definition key = .ok definition ∧
    sources.Describes strict (some key.file) definition validator

def Stated (file : Option FilePath) (expr : List Char) (validator : Validator) : Prop :=
  ∀ name key, Form.read expr = .ok (.reference name) → sources.Means file name key →
    sources.DescribesKey strict key validator

end

variable {sources : Sources} {strict : Bool} {file : Option FilePath} {expr name : List Char}
  {key : DeclKey} {form : Form} {validator : Validator}

theorem Describes.congr {file' : Option FilePath} (describes : sources.Describes strict file expr validator)
    (same : ∀ name key, sources.Means file name key → sources.Means file' name key) :
    sources.Describes strict file' expr validator := by
  induction describes generalizing file' with
  | made read _ makes ih => exact .made read (fun part found used => ih part found used same) makes
  | definition read means defined stands _ => exact .definition read (same _ _ means) defined stands
  | reference cell read means circle => exact .reference cell read (same _ _ means) circle

theorem DescribesKey.congr {other : DeclKey} (describes : sources.DescribesKey strict key validator)
    (same : key.place = other.place) : sources.DescribesKey strict other validator := by
  obtain ⟨definition, defined, describes⟩ := describes
  exact ⟨definition, definition_congr (DeclKey.sameAs_iff_place.mpr same) defined,
    describes.congr fun name target means => means_congr same means⟩

theorem stated_of_read (read : Form.read expr = .ok form) (other : ∀ name, form ≠ .reference name) :
    sources.Stated strict file expr validator := by
  intro name key read'
  exact absurd (Except.ok.inj (read.symm.trans read')) (other name)

theorem Describes.makes (describes : sources.Describes strict file expr validator)
    (read : Form.read expr = .ok form) (other : ∀ name, form ≠ .reference name) :
    Makes (sources.Describes strict file) strict form validator := by
  cases describes with
  | made read' parts makes =>
      cases read.symm.trans read'
      exact makes.imp parts
  | definition read' => exact absurd (Except.ok.inj (read.symm.trans read')) (other _)
  | reference _ read' => exact absurd (Except.ok.inj (read.symm.trans read')) (other _)

end Sources

section Describing

variable (sources : Sources) (strict : Bool)

structure Described (resolver : Resolver) : Prop where
  faithful : resolver.Faithful
  sources_eq : resolver.sources = sources
  strict_eq : resolver.options.strict = strict
  cached : ∀ entry ∈ resolver.cache, sources.DescribesKey strict entry.1 entry.2
  /-- What was built with another strictness may still be referred to. -/
  filled : ∀ cell target, resolver.references.target? cell = some target →
    ∃ strict key, sources.DescribesKey strict key target

def describing : Conduct where
  State _ := Described sources strict
  Since _ before after := after.options = before.options ∧ after.files = before.files
  Fits _ site _ part := ∀ entry ∈ site.building, ∀ uses target,
    sources.NamesIn site.file part uses target → TransGen sources.Refers entry.key.place target
  Holds site _ expr validator := sources.Describes strict site.file expr validator ∧
    (site.building = [] → sources.Stated strict site.file expr validator)
  Halts _ _ _ _ := True
  Admits _ site _ key := ∀ entry ∈ site.building, TransGen sources.Refers entry.key.place key.place
  Stands site _ key validator := sources.DescribesKey strict key validator ∨
    (site.building ≠ [] ∧ TransGen sources.Refers key.place key.place ∧
      ∃ cell, validator = .deferred key.name cell)
  Breaks _ _ _ _ := True

variable {sources strict}

theorem describes_nested {site : Site} {r : Resolver} {part : List Char} {validator : Validator}
    (holds : (describing sources strict).Holds (site.toward .nested) r part validator) :
    sources.Describes strict site.file part validator := by
  have known := holds.1
  simp only [toward_file] at known
  exact known

theorem describes_made {site : Site} {r : Resolver} {expr : List Char} {form : Form}
    {validator : Validator} (read : Form.read expr = .ok form) (other : ∀ name, form ≠ .reference name)
    (makes : Makes (sources.Describes strict site.file) strict form validator) :
    (describing sources strict).Holds site r expr validator :=
  ⟨.made read (fun _ _ used => used) makes, fun _ => Sources.stated_of_read read other⟩

theorem describing_lawful : (describing sources strict).Lawful where
  faithful state := state.faithful
  quiet state quiet := by
    have same := quiet.sources_eq
    obtain ⟨known, faithful⟩ := quiet
    rw [known]
    exact ⟨⟨known ▸ faithful, (known ▸ same).trans state.sources_eq, state.strict_eq, state.cached,
      state.filled⟩, rfl, rfl⟩
  trans earlier later := ⟨later.1.trans earlier.1, later.2.trans earlier.2⟩
  constant since := since
  fits_since _ _ fits := fits
  holds_since _ _ holds := holds
  exhausted _ := trivial
  unreadable _ _ := trivial
  piece_fits {bound site r expr use part} ready piece _ := by
    intro entry member uses target named
    rw [Conduct.Lawful.toward_building] at member
    rw [toward_file] at named
    exact ready.fits entry member _ target (named.of_piece piece)
  piece_halts _ _ _ := trivial
  primitive _ read := describes_made read (by simp) (.primitive _)
  group node _ read holds :=
    describes_made read (by simp) (.group node (holds.imp fun _ _ part => part.1))
  array node _ read holds := describes_made read (by simp) (.array node (describes_nested holds))
  partialOf node _ read holds := describes_made read (by simp) (.partialOf node holds.1)
  record node ready read parent members := by
    rw [ready.state.strict_eq] at members
    refine describes_made read (by simp) (.record node ?_ ?_)
    · exact parent.imp fun _ _ part => part.1
    · exact members.imp fun _ _ => describes_nested
  unreadableMember _ _ _ _ := trivial
  awaited _ _ _ := trivial
  notRecord _ _ _ _ _ _ := trivial
  fileless _ _ _ := trivial
  unlocated _ _ _ _ := trivial
  admits ready read means entry member := by
    rw [ready.state.sources_eq] at means
    exact ready.fits entry member _ _ (Sources.namesIn_reference read means)
  stands_holds {bound site r expr name key validator} ready read means stands := by
    rw [ready.state.sources_eq] at means
    rcases stands with known | ⟨inside, circle, cell, rfl⟩
    · refine ⟨?_, fun _ name' key' read' means' => ?_⟩
      · obtain ⟨definition, defined, describes⟩ := known
        exact .definition read means defined describes
      · cases read.symm.trans read'
        rwa [Sources.means_unique means' means]
    · exact ⟨.reference cell read means circle, fun outside => absurd outside inside⟩
  breaks_halts _ _ _ _ := trivial
  cached state _ found := by
    obtain ⟨known, member, same⟩ := Resolver.cached?_eq_some found
    exact .inl ((state.cached _ member).congr same)
  deferred {bound site r key entry} _ admits _ found _ := by
    -- A reference stands for a declaration that is being built, so there is one, and it leads here.
    obtain ⟨member, same⟩ := mem_of_find_key found
    exact .inr ⟨List.ne_nil_of_mem member, same ▸ admits entry member, _, rfl⟩
  loop _ _ _ _ _ := trivial
  enter enters := by
    have state := enters.state
    refine ⟨state.faithful, state.sources_eq, state.strict_eq, state.cached, fun cell target filled => ?_⟩
    exact state.filled cell target (References.target?_of_append filled)
  definition_fits {bound site r r' key expr} within defined := by
    rw [within.state.sources_eq] at defined
    intro entry member uses target named
    have refers : sources.Refers key.place target :=
      ⟨uses, Sources.names_iff.mpr ⟨expr, defined, named⟩⟩
    rcases List.mem_cons.mp member with rfl | outer
    · exact .single refers
    · exact (within.admits entry outer).tail refers
  abandon within := by
    have inner := within.state'
    exact ⟨⟨inner.faithful, inner.sources_eq, inner.strict_eq, within.state.cached, inner.filled⟩,
      within.since⟩
  undefined _ _ := trivial
  breaks _ _ _ := trivial
  finish {bound site r r' key expr validator} within defined holds _ := by
    rw [within.state.sources_eq] at defined
    have inner := within.state'
    have stands : sources.DescribesKey strict key validator := ⟨expr, defined, holds.1⟩
    refine ⟨⟨inner.faithful, inner.sources_eq, inner.strict_eq, ?_, ?_⟩, within.since, .inl stands⟩
    · intro entry member
      rcases List.mem_append.mp member with earlier | new
      · exact inner.cached entry earlier
      · rw [List.mem_singleton.mp new]
        exact stands
    · intro cell target filled
      rcases References.target?_of_fill filled with rfl | earlier
      · exact ⟨strict, key, stands⟩
      · exact inner.filled cell target earlier

end Describing

namespace Resolver

variable {sources : Sources} {strict : Bool} {resolver : Resolver}

theorem resolve_described (state : Described sources strict resolver) (expr : String)
    (file : Option FilePath) : Described sources strict (resolver.resolve expr file).2 ∧
      ∀ validator, (resolver.resolve expr file).1 = some (.ok validator) →
        sources.Describes strict file expr.toList validator ∧
          sources.Stated strict file expr.toList validator := by
  obtain ⟨after, _, holds⟩ := resolve_keeps expr file describing_lawful
    (fun _ _ _ => by simp [describing, Conduct.top]) state (by simp [describing])
  refine ⟨after, fun validator ended => ?_⟩
  obtain ⟨describes, stated⟩ := holds validator ended
  exact ⟨describes, stated rfl⟩

/-- Whatever happens to a resolver, what it has built is as the declarations say. -/
theorem history_described {options : Options} {files : FileTable} {returned : List Validator}
    (history : History (fresh options files) resolver returned) :
    Described ⟨files, options.extensions⟩ resolver.options.strict resolver := by
  induction history with
  | start =>
      exact ⟨by simp [Faithful, fresh], rfl, rfl, by simp [fresh], by simp [fresh, References.target?]⟩
  | @step resolver returned operation _ ih =>
      cases operation with
      | resolve expr file =>
          have kept := (resolve_described ih expr file).1
          simp only [Operation.after]
          rw [kept.strict_eq]
          exact kept
      | setStrict strict =>
          simp only [Operation.after, setStrict]
          split
          · exact ih
          · exact ⟨ih.faithful, ih.sources_eq, rfl, by simp, ih.filled⟩
      | clear =>
          exact ⟨by simp [Faithful, Operation.after, clear], ih.sources_eq, rfl,
            by simp [Operation.after, clear], ih.filled⟩

end Resolver

end Conform
