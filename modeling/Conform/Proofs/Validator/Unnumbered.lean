import Conform.Validator.Basic

/-! Validators without the numbers that tell their nodes apart. -/

namespace Conform

namespace Validator

mutual

/-- The validator without the numbers of its nodes: what there is to compare. -/
def unnumbered : Validator → Validator
  | primitive kind => primitive kind
  | array _ element => array 0 (unnumbered element)
  | group _ connective operands => group 0 connective (unnumberedEach operands)
  | record own ancestors => record (unnumberedLevel own) (unnumberedLevels ancestors)
  | deferred name cell => deferred name cell

def unnumberedEach : List Validator → List Validator
  | [] => []
  | first :: rest => unnumbered first :: unnumberedEach rest

def unnumberedLevels : List (Level Validator) → List (Level Validator)
  | [] => []
  | first :: rest => unnumberedLevel first :: unnumberedLevels rest

def unnumberedLevel : Level Validator → Level Validator
  | ⟨_, name, fields, index⟩ => ⟨0, name, unnumberedFields fields, unnumberedIndex index⟩

def unnumberedFields : List (Field Validator) → List (Field Validator)
  | [] => []
  | field :: rest => unnumberedField field :: unnumberedFields rest

def unnumberedField : Field Validator → Field Validator
  | ⟨name, required, strict, type⟩ => ⟨name, required, strict, unnumbered type⟩

def unnumberedIndex : Option Validator → Option Validator
  | none => none
  | some index => some (unnumbered index)

end

theorem unnumberedEach_eq (operands : List Validator) :
    unnumberedEach operands = operands.map unnumbered := by
  induction operands with
  | nil => simp [unnumberedEach]
  | cons first rest ih => simp [unnumberedEach, ih]

theorem unnumberedFields_eq (fields : List (Field Validator)) :
    unnumberedFields fields = fields.map unnumberedField := by
  induction fields with
  | nil => simp [unnumberedFields]
  | cons first rest ih => simp [unnumberedFields, ih]

theorem isUndefined_unnumbered (validator : Validator) :
    validator.unnumbered.isUndefined = validator.isUndefined := by
  cases validator with
  | primitive kind => cases kind <;> rfl
  | _ => rfl

theorem unnumbered_withoutUndefined? (validator : Validator) :
    validator.unnumbered.withoutUndefined? = validator.withoutUndefined?.map unnumberedEach := by
  cases validator with
  | group node connective operands =>
      cases connective with
      | and => rfl
      | or =>
          have same : (operands.map unnumbered).any isUndefined = operands.any isUndefined := by
            simp [Function.comp_def, isUndefined_unnumbered]
          simp only [unnumbered, unnumberedEach_eq, withoutUndefined?, same, List.filter_map,
            Function.comp_def, isUndefined_unnumbered]
          split
          · simp [unnumberedEach_eq]
          · rfl
  | _ => rfl

theorem withoutUndefined?_unnumbered (validator : Validator) :
    validator.unnumbered.withoutUndefined?.isNone = validator.withoutUndefined?.isNone := by
  rw [unnumbered_withoutUndefined?, Option.isNone_map]

@[simp] theorem name_unnumberedField (field : Field Validator) :
    (unnumberedField field).name = field.name := by
  cases field
  rfl

@[simp] theorem fields_unnumberedLevel (level : Level Validator) :
    (unnumberedLevel level).fields = unnumberedFields level.fields := by
  cases level
  rfl

theorem fieldNames_unnumbered (fields : List (Field Validator)) :
    (unnumberedFields fields).map (·.name) = fields.map (·.name) := by
  simp [unnumberedFields_eq]

theorem levelNames_unnumbered (levels : List (Level Validator)) :
    levelNames (unnumberedLevels levels) = levelNames levels := by
  have names : (unnumberedLevels levels).flatMap (fun level => level.fields.map (·.name)) =
      levels.flatMap fun level => level.fields.map (·.name) := by
    induction levels with
    | nil => simp [unnumberedLevels]
    | cons first rest ih =>
        simp [unnumberedLevels, fieldNames_unnumbered, ih]
  rw [levelNames, names, levelNames]

mutual

theorem offeredNames_unnumbered : ∀ validator : Validator,
    offeredNames validator.unnumbered = offeredNames validator
  | primitive _ => rfl
  | array _ _ => rfl
  | group _ _ operands => groupNames_unnumbered operands
  | record own ancestors => levelNames_unnumbered (own :: ancestors)
  | deferred _ _ => rfl

theorem groupNames_unnumbered : ∀ operands : List Validator,
    groupNames (unnumberedEach operands) = groupNames operands
  | [] => rfl
  | first :: rest => by
      simp only [unnumberedEach, groupNames, offeredNames_unnumbered first,
        groupNames_unnumbered rest]

end

theorem unnumberedField_make (node : NodeId) (name : String) (optional strict : Bool)
    (type : Validator) :
    unnumberedField (Field.make node name optional strict type) =
      Field.make 0 name optional strict type.unnumbered := by
  unfold Field.make
  rw [unnumbered_withoutUndefined?, isUndefined_unnumbered]
  rcases type.withoutUndefined? with _ | _ | ⟨first, _ | ⟨second, rest⟩⟩ <;> rfl

theorem unnumberedLevel_relaxed (node : NodeId) (level : Level Validator) :
    unnumberedLevel (level.relaxed node) = (unnumberedLevel level).relaxed 0 := by
  obtain ⟨_, name, fields, index⟩ := level
  have each (field : Field Validator) : unnumberedField { field with required := false } =
      { unnumberedField field with required := false } := by
    cases field
    rfl
  simp only [unnumberedLevel, Level.relaxed, unnumberedFields_eq, List.map_map, Function.comp_def, each]

end Validator

end Conform
