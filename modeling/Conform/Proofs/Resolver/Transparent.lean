import Conform.Proofs.Resolver.Passages
import Conform.Proofs.Resolver.Undefined
import Conform.Proofs.Validator.Agreement

/-!
When it does not matter where references stand. A reference hides two things of what it stands for: the
names that an operand offers its group, and the `undefined` that spares a field its value. Where neither
is missed, two validators for one expression agree on every value, whatever references each of them has.
-/

namespace Conform

open Relation Validator

theorem Field.make_name (node : NodeId) (name : String) (optional strict : Bool) (type : Validator) :
    (Field.make node name optional strict type).name = name := by
  unfold Field.make
  split <;> rfl

def Expr.NamesField (key : String) (member : List Char) : Prop :=
  ∃ name optional type, Expr.member? member = some (.field name optional type) ∧
    String.ofList name = key

theorem Expr.namesField_iff {key : String} {member name type : List Char} {optional : Bool}
    (read : Expr.member? member = some (.field name optional type)) :
    NamesField key member ↔ String.ofList name = key := by
  constructor
  · rintro ⟨name', optional', type', read', same⟩
    cases read.symm.trans read'
    exact same
  · exact fun same => ⟨name, optional, type, read, same⟩

theorem Expr.not_namesField {key : String} {member type : List Char}
    (read : Expr.member? member = some (.index type)) : ¬NamesField key member := by
  rintro ⟨name, optional, type', read', _⟩
  cases read.symm.trans read'

theorem MembersHold.mem_names {uses : List Char → Validator → Prop} {strict : Bool}
    {members : List (List Char)} {fields : List (Field Validator)} {index : Option Validator}
    (known : MembersHold uses strict members fields index) {key : String} :
    key ∈ fields.map (·.name) ↔ ∃ member ∈ members, Expr.NamesField key member := by
  induction known with
  | nil => simp
  | index read _ _ ih => simp [ih, Expr.not_namesField read]
  | field node read _ _ ih => simp [ih, Expr.namesField_iff read, Field.make_name, eq_comm]

namespace Validator

theorem mem_levelNames {levels : List (Level Validator)} {key : String} :
    key ∈ levelNames levels ↔ ∃ level ∈ levels, key ∈ level.fields.map (·.name) := by
  simp only [levelNames, List.mem_eraseDups, List.mem_flatMap]

theorem shows_nothing {validator : Validator} (other : ∀ kind, validator ≠ .primitive kind) :
    validator.isUndefined = false ∧ validator.isLiteral = false := by
  cases validator with
  | primitive kind => exact absurd rfl (other kind)
  | array | group | record | deferred => exact ⟨rfl, rfl⟩

end Validator

def Passage.Declares (key : String) (passage : Passage) : Prop :=
  ∃ parts, Form.read passage.expr = .ok (.record parts) ∧
    ∃ member ∈ Expr.members parts.body, Expr.NamesField key member

theorem Passage.not_declares {passage : Passage} {form : Form} {key : String}
    (read : Form.read passage.expr = .ok form) (plain : ∀ parts, form ≠ .record parts) :
    ¬passage.Declares key := by
  rintro ⟨parts, read', _⟩
  exact plain parts (Except.ok.inj (read.symm.trans read'))

namespace Sources

section

variable (sources : Sources)

/-- A reference may stand in for the declaration that the expression names. -/
def MayDefer (passage : Passage) : Prop :=
  ∃ key home, sources.NameFor passage key ∧ passage.home = some home ∧ sources.Leads key.place home

abbrev Offers (key : String) : Passage → Prop := sources.Finds (· ≠ .nested) (Passage.Declares key)

abbrev HidesNames : Passage → Prop := sources.Finds (· = .operand) sources.MayDefer

abbrev HeedsNames : Passage → Prop := sources.Finds (· = .operand) Passage.IsRecord

abbrev HidesUndefined : Passage → Prop := sources.Finds (fun _ => False) sources.MayDefer

def Compatible (operands : List Passage) : Prop :=
  ∀ hider ∈ operands, ∀ heeder ∈ operands, sources.HidesNames hider → sources.HeedsNames heeder →
    heeder = hider

structure TransparentAt (passage : Passage) : Prop where
  groups : ∀ connective operands, Form.read passage.expr = .ok (.group connective operands) →
    sources.Compatible (operands.map passage.part)
  fields : ∀ parts, Form.read passage.expr = .ok (.record parts) →
    ∀ member ∈ Expr.members parts.body, ∀ name optional type,
      Expr.member? member = some (.field name optional type) →
        sources.HidesUndefined (passage.part type) → ¬sources.OffersUndefined passage.file type

/-- References hide nothing that counts, in all that the resolution comes to. -/
def Transparent (passage : Passage) : Prop :=
  ∀ found, sources.Covers passage found → sources.TransparentAt found

def Minds (passage : Passage) (key : String) : Prop :=
  sources.HeedsNames passage ∧ ¬sources.Offers key passage

end

variable {sources : Sources} {strict : Bool} {passage found : Passage} {key : DeclKey}
  {definition part : List Char} {form : Form}

theorem Transparent.step (transparent : sources.Transparent passage)
    (step : sources.Step (fun _ => True) passage found) : sources.Transparent found := by
  intro last covers
  exact transparent last (.head step covers)

theorem Transparent.piece (transparent : sources.Transparent passage) {use : Use}
    (piece : Piece use passage.expr part) : sources.Transparent (passage.part part) :=
  transparent.step (.piece trivial piece)

theorem Compatible.subset {operands fewer : List Passage} (compatible : sources.Compatible operands)
    (subset : ∀ operand ∈ fewer, operand ∈ operands) : sources.Compatible fewer :=
  fun hider member heeder among => compatible hider (subset _ member) heeder (subset _ among)

theorem Minds.of_definition {name : String} (minds : sources.Minds (key.passage definition) name)
    (named : sources.NameFor passage key) (defined : sources.definition key = .ok definition) :
    sources.Minds passage name := by
  refine ⟨minds.1.step (.definition named defined), fun offers => ?_⟩
  rcases offers.of_name named defined with ⟨parts, read, _⟩ | offers
  · exact named.ne_form read (by simp)
  · exact minds.2 offers

namespace Portrays

variable {grounded : CellId → Place → Prop} {validator : Validator} {name : String}

theorem offers (portrays : sources.Portrays strict grounded passage validator)
    (offered : name ∈ offeredNames validator) : sources.Offers name passage := by
  induction portrays with
  | made read _ makes ih =>
      cases makes with
      | primitive | array => cases offered
      | group node parts =>
          obtain ⟨operand, among, offered⟩ := mem_groupNames.mp offered
          obtain ⟨part, member, used⟩ := exists_of_forall₂ parts.flip among
          exact (ih part operand used offered).step (.piece (by simp) (.operand read member))
      | @partialOf part own ancestors node used =>
          refine (ih part _ used ?_).step (.piece (by simp) (.target read))
          simpa [offeredNames, mem_levelNames, Level.relaxed] using offered
      | @record text ancestors fields index node parent members =>
          obtain ⟨level, among, declared⟩ := mem_levelNames.mp offered
          rcases List.mem_cons.mp among with rfl | inherited
          · exact .here ⟨text, read, members.mem_names.mp declared⟩
          · generalize extends_ : text.parent = from_ at parent
            cases parent with
            | none => cases inherited
            | some used =>
                have offered := mem_levelNames.mpr ⟨level, inherited, declared⟩
                exact (ih _ _ used offered).step (.piece (by simp) (.parent read extends_))
  | definition named defined _ ih => exact (ih offered).step (.definition named defined)
  | reference => cases offered

/-- It offers them all, unless a reference hides some. A record shows what its parent declares. -/
theorem offered (portrays : sources.Portrays strict grounded passage validator)
    (shown : (∃ own ancestors, validator = .record own ancestors) ∨ ¬sources.HidesNames passage)
    (offers : sources.Offers name passage) : name ∈ offeredNames validator := by
  induction portrays with
  | made read _ makes ih =>
      cases makes with
      | primitive kind =>
          obtain ⟨_, _, _, piece, _⟩ :=
            (offers.of_form read (by simp)).resolve_left (Passage.not_declares read (by simp))
          exact absurd read (piece.no_primitive kind)
      | array =>
          obtain ⟨_, _, outside, piece, _⟩ :=
            (offers.of_form read (by simp)).resolve_left (Passage.not_declares read (by simp))
          exact absurd (piece.of_array read).1 outside
      | group node parts =>
          obtain ⟨_, _, _, piece, offers⟩ :=
            (offers.of_form read (by simp)).resolve_left (Passage.not_declares read (by simp))
          obtain ⟨rfl, member⟩ := piece.of_group read
          obtain ⟨operand, among, used⟩ := exists_of_forall₂ parts member
          have visible := shown.resolve_left (by simp)
          refine mem_groupNames.mpr ⟨operand, among, ih _ _ used (.inr fun hides => ?_) offers⟩
          exact visible (hides.step (.piece rfl piece))
      | @partialOf part own ancestors node used =>
          obtain ⟨_, _, _, piece, offers⟩ :=
            (offers.of_form read (by simp)).resolve_left (Passage.not_declares read (by simp))
          obtain ⟨rfl, rfl⟩ := piece.of_partialOf read
          have offered := ih _ _ used (.inl ⟨own, ancestors, rfl⟩) offers
          simpa [offeredNames, mem_levelNames, Level.relaxed] using offered
      | @record text ancestors fields index node parent members =>
          rcases offers.of_form read (by simp) with ⟨_, read', declared⟩ |
            ⟨_, part, outside, piece, offers⟩
          · cases read.symm.trans read'
            exact mem_levelNames.mpr ⟨_, List.mem_cons_self, members.mem_names.mpr declared⟩
          · obtain ⟨_, extends_⟩ := (piece.of_record read).resolve_right fun nested => outside nested.1
            generalize text.parent = from_ at parent extends_
            cases parent with
            | none => cases extends_
            | some used =>
                cases extends_
                have offered := ih _ _ used (.inl ⟨_, _, rfl⟩) offers
                obtain ⟨level, among, declared⟩ := mem_levelNames.mp offered
                exact mem_levelNames.mpr ⟨level, List.mem_cons_of_mem _ among, declared⟩
  | definition named defined _ ih =>
      rcases offers.of_name named defined with ⟨parts, read, _⟩ | offers
      · exact (named.ne_form read (by simp)).elim
      · exact ih (shown.imp_right fun visible hides => visible (hides.step (.definition named defined)))
          offers
  | reference cell named inside back =>
      have hides : sources.HidesNames _ := .here ⟨_, _, named, inside, back⟩
      rcases shown with ⟨_, _, same⟩ | visible
      · cases same
      · exact absurd hides visible

end Portrays

theorem Describes.straight {file : Option FilePath} {expr : List Char} {kind : Primitive}
    (describes : sources.Describes strict file expr (.primitive kind)) : sources.Straight file expr := by
  generalize same : Validator.primitive kind = validator at describes
  induction describes with
  | made read _ makes =>
      cases makes with
      | primitive kind =>
          exact straight_of_pieces read (by simp) fun use part piece =>
            absurd read (piece.no_primitive kind)
      | group | array | partialOf | record => cases same
  | definition read means defined _ ih =>
      exact straight_of_reference read means (straightAt_of_definition defined (ih same))
  | reference => cases same

namespace Portrays

variable {grounded grounded' : CellId → Place → Prop} {validator validator' : Validator}

theorem primitive {kind : Primitive}
    (first : sources.Portrays strict grounded passage (.primitive kind))
    (second : sources.Portrays strict grounded' passage validator) : validator = .primitive kind := by
  generalize same : Validator.primitive kind = known at first
  induction first with
  | made read _ makes =>
      cases makes with
      | primitive kind =>
          cases same
          cases second.makes read (by simp)
          rfl
      | group | array | partialOf | record => cases same
  | definition named defined stands ih =>
      rcases second.of_name named with ⟨_, defined', stands'⟩ | ⟨_, _, _, _, _, circle, _⟩
      · cases defined.symm.trans defined'
        exact ih stands' same
      · cases same
        exact absurd circle (straightAt_of_definition defined stands.describes.straight _ .refl)
  | reference => cases same

theorem primitive_or (first : sources.Portrays strict grounded passage validator)
    (second : sources.Portrays strict grounded' passage validator') :
    (∃ kind, validator = .primitive kind ∧ validator' = .primitive kind) ∨
      ((∀ kind, validator ≠ .primitive kind) ∧ ∀ kind, validator' ≠ .primitive kind) := by
  by_cases known : ∃ kind, validator = .primitive kind
  · obtain ⟨kind, rfl⟩ := known
    exact .inl ⟨kind, rfl, first.primitive second⟩
  · refine .inr ⟨fun kind same => known ⟨kind, same⟩, ?_⟩
    rintro kind rfl
    exact known ⟨kind, second.primitive first⟩

theorem isUndefined_eq (first : sources.Portrays strict grounded passage validator)
    (second : sources.Portrays strict grounded' passage validator') :
    validator'.isUndefined = validator.isUndefined := by
  rcases first.primitive_or second with ⟨kind, rfl, rfl⟩ | ⟨other, other'⟩
  · rfl
  · rw [(shows_nothing other).1, (shows_nothing other').1]

theorem isLiteral_eq (first : sources.Portrays strict grounded passage validator)
    (second : sources.Portrays strict grounded' passage validator') :
    validator'.isLiteral = validator.isLiteral := by
  rcases first.primitive_or second with ⟨kind, rfl, rfl⟩ | ⟨other, other'⟩
  · rfl
  · rw [(shows_nothing other).2, (shows_nothing other').2]

end Portrays

end Sources

end Conform
