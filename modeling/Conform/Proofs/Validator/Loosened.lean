import Conform.Proofs.Validator.Inheritance
import Conform.Proofs.Validator.Scopes

/-!
Validators that are not strict about `null`. To loosen a validator is to make no field of it strict:
that lets more values pass, and only `null` brings it to light.
-/

namespace Conform

namespace Json

mutual

def nullFree : Json → Bool
  | null => false
  | array items => nullFreeItems items
  | object entries => nullFreeEntries entries
  | _ => true

def nullFreeItems : List Json → Bool
  | [] => true
  | item :: rest => nullFree item && nullFreeItems rest

def nullFreeEntries : List (String × Json) → Bool
  | [] => true
  | (_, item) :: rest => nullFree item && nullFreeEntries rest

end

theorem nullFree_of_holds {value : Option Json} {item : Json} (holds : Holds value item)
    (free : value.all nullFree) : item.nullFree := by
  cases holds with
  | @item items item member =>
      simp only [Option.all_some, nullFree] at free
      induction items with
      | nil => cases member
      | cons first rest ih =>
          simp only [nullFreeItems, Bool.and_eq_true] at free
          rcases List.mem_cons.mp member with rfl | later
          · exact free.1
          · exact ih free.2 later
  | @entry entries key item member =>
      simp only [Option.all_some, nullFree] at free
      induction entries with
      | nil => cases member
      | cons first rest ih =>
          simp only [nullFreeEntries, Bool.and_eq_true] at free
          rcases List.mem_cons.mp member with rfl | later
          · exact free.1
          · exact ih free.2 later

end Json

namespace Validator

mutual

def loosened : Validator → Validator
  | primitive kind => primitive kind
  | array node element => array node (loosened element)
  | group node connective operands => group node connective (loosenedEach operands)
  | record own ancestors => record (loosenedLevel own) (loosenedLevels ancestors)
  | deferred name cell => deferred name cell

def loosenedEach : List Validator → List Validator
  | [] => []
  | first :: rest => loosened first :: loosenedEach rest

def loosenedLevels : List (Level Validator) → List (Level Validator)
  | [] => []
  | first :: rest => loosenedLevel first :: loosenedLevels rest

def loosenedLevel : Level Validator → Level Validator
  | ⟨node, name, fields, index⟩ => ⟨node, name, loosenedFields fields, loosenedIndex index⟩

def loosenedFields : List (Field Validator) → List (Field Validator)
  | [] => []
  | field :: rest => loosenedField field :: loosenedFields rest

def loosenedField : Field Validator → Field Validator
  | ⟨name, required, _, type⟩ => ⟨name, required, false, loosened type⟩

def loosenedIndex : Option Validator → Option Validator
  | none => none
  | some index => some (loosened index)

end

theorem loosenedEach_eq (operands : List Validator) :
    loosenedEach operands = operands.map loosened := by
  induction operands with
  | nil => simp [loosenedEach]
  | cons first rest ih => simp [loosenedEach, ih]

theorem loosenedLevels_eq (levels : List (Level Validator)) :
    loosenedLevels levels = levels.map loosenedLevel := by
  induction levels with
  | nil => simp [loosenedLevels]
  | cons first rest ih => simp [loosenedLevels, ih]

theorem loosenedFields_eq (fields : List (Field Validator)) :
    loosenedFields fields = fields.map loosenedField := by
  induction fields with
  | nil => simp [loosenedFields]
  | cons first rest ih => simp [loosenedFields, ih]

theorem loosenedIndex_eq (index : Option Validator) : loosenedIndex index = index.map loosened := by
  cases index <;> simp [loosenedIndex]

@[simp] theorem fields_loosenedLevel (level : Level Validator) :
    (loosenedLevel level).fields = level.fields.map loosenedField := by
  cases level
  simp [loosenedLevel, loosenedFields_eq]

@[simp] theorem index_loosenedLevel (level : Level Validator) :
    (loosenedLevel level).index = level.index.map loosened := by
  cases level
  simp [loosenedLevel, loosenedIndex_eq]

@[simp] theorem name_loosenedField (field : Field Validator) :
    (loosenedField field).name = field.name := by
  cases field
  rfl

@[simp] theorem required_loosenedField (field : Field Validator) :
    (loosenedField field).required = field.required := by
  cases field
  rfl

@[simp] theorem strict_loosenedField (field : Field Validator) :
    (loosenedField field).strict = false := by
  cases field
  rfl

@[simp] theorem type_loosenedField (field : Field Validator) :
    (loosenedField field).type = field.type.loosened := by
  cases field
  rfl

@[simp] theorem isUndefined_loosened (validator : Validator) :
    validator.loosened.isUndefined = validator.isUndefined := by
  cases validator <;> rfl

@[simp] theorem isLiteral_loosened (validator : Validator) :
    validator.loosened.isLiteral = validator.isLiteral := by
  cases validator <;> rfl

theorem levelNames_loosened (levels : List (Level Validator)) :
    levelNames (levels.map loosenedLevel) = levelNames levels := by
  simp [levelNames, List.flatMap_map, Function.comp_def]

mutual

theorem offeredNames_loosened : ∀ validator : Validator,
    offeredNames validator.loosened = offeredNames validator
  | primitive _ => rfl
  | array _ _ => rfl
  | group _ _ operands => groupNames_loosened operands
  | record own ancestors => by
      simp only [loosened, offeredNames, loosenedLevels_eq, ← List.map_cons, levelNames_loosened]
  | deferred _ _ => rfl

theorem groupNames_loosened : ∀ operands : List Validator,
    groupNames (loosenedEach operands) = groupNames operands
  | [] => rfl
  | first :: rest => by
      simp only [loosenedEach, groupNames, offeredNames_loosened first, groupNames_loosened rest]

end

theorem withoutUndefined?_loosened (validator : Validator) :
    validator.loosened.withoutUndefined? =
      validator.withoutUndefined?.map fun operands => operands.map loosened := by
  cases validator with
  | group node connective operands =>
      cases connective with
      | and => rfl
      | or =>
          have same : (operands.map loosened).any isUndefined = operands.any isUndefined := by
            simp [Function.comp_def]
          simp only [loosened, loosenedEach_eq, withoutUndefined?, same, List.filter_map,
            Function.comp_def, isUndefined_loosened]
          split <;> rfl
  | _ => rfl

end Validator

open Validator

theorem Field.make_loosened (node : NodeId) (name : String) (optional strict : Bool)
    (type : Validator) :
    Field.make node name optional false type.loosened =
      loosenedField (Field.make node name optional strict type) := by
  unfold Field.make
  rw [withoutUndefined?_loosened]
  rcases type.withoutUndefined? with _ | _ | ⟨first, _ | ⟨second, rest⟩⟩
  · simp [loosenedField]
  · rfl
  · rfl
  · simp [loosenedField, loosened, loosenedEach_eq]

theorem Level.relaxed_loosened (node : NodeId) (level : Level Validator) :
    (loosenedLevel level).relaxed node = loosenedLevel (level.relaxed node) := by
  obtain ⟨_, name, fields, index⟩ := level
  simp [loosenedLevel, Level.relaxed, loosenedFields_eq, Function.comp_def, loosenedField]

def References.loosened (references : References) : References :=
  references.map fun reference => { reference with target := reference.target.map Validator.loosened }

theorem References.target?_loosened (references : References) (cell : CellId) :
    references.loosened.target? cell = (references.target? cell).map Validator.loosened := by
  simp only [References.loosened, References.target?, List.getElem?_map]
  cases references[cell]? <;> rfl

namespace Validator.Check

def loosened : Check → Check
  | ofField field => ofField (loosenedField field)
  | ofKey index key item => ofKey (index.map Validator.loosened) key item

theorem recordChecks_loosened (scope : Scope) (entries : List (String × Json))
    (levels : List (Level Validator)) :
    recordChecks scope entries (levels.map loosenedLevel) =
      (recordChecks scope entries levels).map loosened := by
  have declared : declares (levels.map loosenedLevel) = declares levels := by
    funext key
    simp [declares, Function.comp_def]
  have each (tolerated : String → Bool) (level : Level Validator) :
      levelChecks tolerated entries (loosenedLevel level) =
        (levelChecks tolerated entries level).map loosened := by
    simp [levelChecks, Function.comp_def, loosened]
  simp only [recordChecks, declared, ← List.map_reverse, List.flatMap_map, each, List.map_flatMap]

end Validator.Check

def Comparison.Lenient (compare : Comparison) (value : Option Json) : Prop :=
  (∀ result, compare.rel result (some .success)) ∨ value.all Json.nullFree

theorem Comparison.Lenient.inside {compare : Comparison} {value : Option Json} {item : Json}
    (lenient : compare.Lenient value) (holds : Json.Holds value item) :
    compare.Lenient (some item) :=
  lenient.imp id fun free => by simpa using Json.nullFree_of_holds holds free

namespace Validator

variable {compare : Comparison} {below below' : Judgement}

theorem judgeField_loosened (field : Field Validator) {item : Json}
    (lenient : compare.Lenient (some item))
    (type : compare.rel (below [] field.type (some item))
      (below' [] field.type.loosened (some item))) :
    compare.rel (judgeField below field (some item))
      (judgeField below' (loosenedField field) (some item)) := by
  by_cases spared : field.required = false ∧ item = .null
  · obtain ⟨optional, rfl⟩ := spared
    have passes : judgeField below' (loosenedField field) (some .null) = some .success := by
      simp [judgeField, optional]
    rw [passes]
    rcases lenient with skipped | free
    · exact skipped _
    · simp [Json.nullFree] at free
  · rw [judgeField_eq_below fun null => spared ⟨null.1, null.2.1⟩,
      judgeField_eq_below fun null => spared ⟨required_loosenedField field ▸ null.1, null.2.1⟩,
      type_loosenedField]
    exact type

theorem Check.run_loosened {entries : List (String × Json)} {check : Check}
    (lenient : compare.Lenient (some (.object entries)))
    (among : ∀ index key item, check = .ofKey index key item → (key, item) ∈ entries)
    (inner : ∀ part item, Json.Holds (some (.object entries)) item →
      compare.rel (below [] part (some item)) (below' [] part.loosened (some item))) :
    compare.rel (check.run below entries) (check.loosened.run below' entries) := by
  cases check with
  | ofField field =>
      simp only [run, loosened, place, name_loosenedField]
      apply compare.under
      simp only [verdict, name_loosenedField, required_loosenedField]
      cases found : Json.lookup field.name entries with
      | none => cases field.required <;> exact compare.same _
      | some item =>
          have holds : Json.Holds (some (.object entries)) item := .entry (Json.mem_of_lookup found)
          exact judgeField_loosened field (lenient.inside holds) (inner field.type item holds)
  | ofKey index key item =>
      apply compare.under
      cases index with
      | none => exact compare.same _
      | some index => exact inner index item (.entry (among _ key item rfl))

theorem recordChecks_entries {scope : Scope} {entries : List (String × Json)}
    {levels : List (Level Validator)} {check : Check} (member : check ∈ recordChecks scope entries levels) :
    ∀ index key item, check = .ofKey index key item → (key, item) ∈ entries := by
  rintro index key item rfl
  obtain ⟨_, _, ⟨_, _, ⟨⟩⟩ | ⟨_, _, among, _, same⟩⟩ := mem_recordChecks.mp member
  cases same
  exact among

/-- Strictness changes a result only where it is about `null`: in each comparison by which that may
be left out, and in each for a value without `null`. By induction on the bound, with one case for each
kind of validator. -/
theorem validateWithin_loosened (references : References) (bound : Nat) (scope : Scope)
    (validator : Validator) {value : Option Json} (missing : compare.rel none none)
    (lenient : compare.Lenient value) :
    compare.rel (validateWithin references bound scope validator value)
      (validateWithin references.loosened bound scope validator.loosened value) := by
  induction bound generalizing scope validator value with
  | zero => exact missing
  | succ bound ih =>
      have inner : ∀ part item, Json.Holds value item →
          compare.rel (validateWithin references bound [] part (some item))
            (validateWithin references.loosened bound [] part.loosened (some item)) :=
        fun part item holds => ih [] part (lenient.inside holds)
      cases validator with
      | primitive kind => exact compare.same _
      | array node element =>
          simp only [validateWithin, loosened, judge]
          split
          · refine compare.firstFailure (List.forall₂_same.mpr ?_)
            rintro ⟨item, position⟩ member
            exact compare.under _ _ (inner element item (.item (List.fst_mem_of_mem_zipIdx member)))
          · exact compare.same _
      | group node connective operands =>
          have enum (connective : Connective) :
              isEnum connective (loosenedEach operands) = isEnum connective operands := by
            simp [isEnum, loosenedEach_eq, Function.comp_def]
          simp only [validateWithin, loosened, judge, enum]
          split
          · exact compare.same _
          · refine judgeGroup_compare compare connective ?_ ?_
            · rw [groupNames_loosened, loosenedEach_eq, List.forall₂_map_right_iff]
              exact List.forall₂_same.mpr fun operand _ => ih _ operand lenient
            · simp only [rejection, enum]
              exact compare.same _
      | record own ancestors =>
          simp only [validateWithin, loosened, judge, loosenedLevels_eq]
          split
          · rename_i entries
            rw [judgeLevels_eq_firstFailure fun _ => rfl, judgeLevels_eq_firstFailure fun _ => rfl]
            have checks := Check.recordChecks_loosened scope entries (own :: ancestors)
            simp only [recordChecks, List.map_cons] at checks
            rw [checks, firstFailure_map]
            refine compare.firstFailure (List.forall₂_same.mpr fun check member => ?_)
            exact Check.run_loosened lenient (recordChecks_entries member) inner
          · exact compare.same _
      | deferred name cell =>
          simp only [validateWithin, loosened, judge, References.target?_loosened]
          cases references.target? cell with
          | none => exact compare.same _
          | some target => exact ih scope target lenient

theorem Verdict.loosened {references : References} {scope : Scope} {validator : Validator}
    {value : Option Json} {passes : Bool} (verdict : Verdict references scope validator value true)
    (verdict' : Verdict references.loosened scope validator.loosened value passes) :
    passes = true := by
  obtain ⟨bound, outcome, found, success⟩ := verdict
  obtain ⟨bound', outcome', found', rfl⟩ := verdict'
  have known := validateWithin_of_le found (Nat.le_max_left bound bound') fun _ => rfl
  have known' := validateWithin_of_le found' (Nat.le_max_right bound bound') fun _ => rfl
  have lenient : Comparison.passing.Lenient value := by
    left
    rintro result outcome _ _ ⟨⟩ _
    rfl
  have missing : Comparison.passing.rel none none := by
    rintro _ _ ⟨⟩
  exact validateWithin_loosened references _ scope validator missing lenient outcome outcome' known
    known' success

end Validator

end Conform
