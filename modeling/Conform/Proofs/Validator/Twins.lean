import Conform.Proofs.Validator.Comparison

/-!
Twins: validators without references that differ in the numbers of their nodes at most. No judgement
tells them apart, whatever the references.
-/

namespace Conform

namespace Validator

inductive Twin : Validator → Validator → Prop where
  | mk {rel : Validator → Validator → Prop} {validator validator' : Validator}
      (parts : ∀ part part', rel part part' → Twin part part') (alike : Alike rel validator validator') :
      Twin validator validator'

theorem Twin.alike {validator validator' : Validator} (twin : Twin validator validator') :
    Alike Twin validator validator' := by
  obtain ⟨parts, alike⟩ := twin
  exact alike.imp parts

theorem validateWithin_twin (references references' : References) (bound : Nat) (scope : Scope)
    {validator validator' : Validator} (twin : Twin validator validator') (value : Option Json) :
    validateWithin references bound scope validator value =
      validateWithin references' bound scope validator' value := by
  induction bound generalizing scope validator validator' value with
  | zero => rfl
  | succ bound ih =>
      refine judge_compare .equal references references' twin.alike (.of_same _ fun _ => rfl) ?_ ?_
      · intro _ _ operands _ part part' twins
        exact ih (groupNames operands :: scope) twins value
      · intro part part' item twins _
        exact ih [] twins (some item)

namespace Twin

variable {validator validator' : Validator} {operands operands' : List Validator}

theorem isUndefined_eq (twin : Twin validator validator') :
    validator'.isUndefined = validator.isUndefined := by
  cases twin.alike <;> rfl

theorem isLiteral_eq (twin : Twin validator validator') :
    validator'.isLiteral = validator.isLiteral := by
  cases twin.alike <;> rfl

theorem offeredNames_eq (twin : Twin validator validator') :
    validator'.offeredNames = validator.offeredNames := by
  cases twin.alike with
  | primitive kind => rfl
  | array node node' elements => rfl
  | group node node' connective related names literals => exact names
  | record levels => exact levelNames_eq levels

theorem group (node node' : NodeId) (connective : Connective)
    (twins : List.Forall₂ Twin operands operands') :
    Twin (.group node connective operands) (.group node' connective operands') := by
  refine .mk (fun _ _ related => related) (.group node node' connective twins ?_ ?_)
  · induction twins with
    | nil => rfl
    | cons first _ ih => simp only [groupNames, first.offeredNames_eq, ih]
  · induction twins with
    | nil => rfl
    | cons first _ ih => simp only [List.all_cons, first.isLiteral_eq, ih]

theorem withoutUndefined (twins : List.Forall₂ Twin operands operands') :
    operands'.any isUndefined = operands.any isUndefined ∧
      List.Forall₂ Twin (operands.filter fun operand => !operand.isUndefined)
        (operands'.filter fun operand => !operand.isUndefined) := by
  induction twins with
  | nil => exact ⟨rfl, .nil⟩
  | @cons first first' rest rest' twin _ ih =>
      have same := twin.isUndefined_eq
      refine ⟨by simp only [List.any_cons, same, ih.1], ?_⟩
      by_cases absent : first.isUndefined
      · rw [absent] at same
        simpa only [List.filter_cons, same, absent, Bool.not_true, Bool.false_eq_true, if_false]
          using ih.2
      · rw [Bool.not_eq_true] at absent
        rw [absent] at same
        simp only [List.filter_cons, same, absent, Bool.not_false, if_true]
        exact .cons twin ih.2

theorem withoutUndefined?_rel (twin : Twin validator validator') :
    Option.Rel (List.Forall₂ Twin) validator.withoutUndefined? validator'.withoutUndefined? := by
  cases twin.alike with
  | group node node' connective twins names literals =>
      cases connective with
      | and => exact .none
      | or =>
          obtain ⟨same, rest⟩ := withoutUndefined twins
          simp only [withoutUndefined?, same]
          split
          · exact .some rest
          · exact .none
  | _ => exact .none

theorem primitive (kind : Primitive) : Twin (.primitive kind) (.primitive kind) :=
  .mk (fun _ _ related => related) (.primitive kind)

theorem make (node node' : NodeId) (name : String) (optional strict : Bool)
    (twin : Twin validator validator') :
    Field.Alike Twin (Field.make node name optional strict validator)
      (Field.make node' name optional strict validator') := by
  have rest := twin.withoutUndefined?_rel
  have undefined := twin.isUndefined_eq
  unfold Field.make
  generalize validator.withoutUndefined? = left, validator'.withoutUndefined? = left' at rest
  cases rest with
  | none => exact ⟨rfl, by simp only [undefined], rfl, twin⟩
  | some twins =>
      cases twins with
      | nil => exact ⟨rfl, rfl, rfl, primitive .undefined⟩
      | cons first others =>
          cases others with
          | nil => exact ⟨rfl, rfl, rfl, first⟩
          | cons second others =>
              exact ⟨rfl, rfl, rfl, group node node' .or (.cons first (.cons second others))⟩

theorem array (node node' : NodeId) (twin : Twin validator validator') :
    Twin (.array node validator) (.array node' validator') :=
  .mk (fun _ _ related => related) (.array node node' twin)

theorem record {own own' : Level Validator} {ancestors ancestors' : List (Level Validator)}
    (levels : List.Forall₂ (Level.Alike Twin) (own :: ancestors) (own' :: ancestors')) :
    Twin (.record own ancestors) (.record own' ancestors') :=
  .mk (fun _ _ related => related) (.record levels)

theorem levels {own own' : Level Validator} {ancestors ancestors' : List (Level Validator)}
    (twin : Twin (.record own ancestors) (.record own' ancestors')) :
    List.Forall₂ (Level.Alike Twin) (own :: ancestors) (own' :: ancestors') := by
  cases twin.alike with
  | record levels => exact levels

end Twin

end Validator

theorem Level.Alike.relaxed {rel : Validator → Validator → Prop} {level level' : Level Validator}
    (node node' : NodeId) (alike : Level.Alike rel level level') :
    Level.Alike rel (level.relaxed node) (level'.relaxed node') := by
  refine ⟨?_, alike.index⟩
  simp only [Level.relaxed, List.forall₂_map_left_iff, List.forall₂_map_right_iff]
  exact alike.fields.imp fun field field' related =>
    ⟨related.name, rfl, related.strict, related.type⟩

end Conform
