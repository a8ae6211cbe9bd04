import Conform.Validator.Validate
import Mathlib.Logic.Relation

/-!
The parts of a validator, and what can be reached from it when references are followed. A judgement
asks for nothing else.
-/

namespace Conform

def References.Extend (earlier later : References) : Prop :=
  ∀ (cell : CellId) (reference : Reference), earlier[cell]? = some reference →
    ∃ reference', later[cell]? = some reference' ∧ reference'.key = reference.key ∧
      ∀ target, reference.target = some target → reference'.target = some target

namespace References

theorem Extend.refl (references : References) : Extend references references :=
  fun _ reference found => ⟨reference, found, rfl, fun _ filled => filled⟩

theorem Extend.trans {first second third : References} (earlier : Extend first second)
    (later : Extend second third) : Extend first third := by
  intro cell reference found
  obtain ⟨middle, found', sameKey, kept⟩ := earlier cell reference found
  obtain ⟨last, found'', sameKey', kept'⟩ := later cell middle found'
  exact ⟨last, found'', sameKey'.trans sameKey, fun target filled => kept' target (kept target filled)⟩

theorem Extend.target {earlier later : References} {cell : CellId} {target : Validator}
    (extend : Extend earlier later) (filled : earlier.target? cell = some target) :
    later.target? cell = some target := by
  simp only [target?, Option.bind_eq_some_iff] at filled ⊢
  obtain ⟨reference, found, filled⟩ := filled
  obtain ⟨reference', found', _, kept⟩ := extend cell reference found
  exact ⟨reference', found', kept target filled⟩

theorem extend_append (references more : References) : Extend references (references ++ more) := by
  intro cell reference found
  refine ⟨reference, ?_, rfl, fun _ filled => filled⟩
  have inside := (List.getElem?_eq_some_iff.mp found).1
  rw [List.getElem?_append_left inside]
  exact found

theorem getElem?_fill (references : References) (cell other : CellId) (validator : Validator) :
    (references.fill cell validator)[other]? =
      if cell = other then references[other]?.map fun reference =>
        { reference with target := some validator }
      else references[other]? := by
  simp only [fill, List.getElem?_modify]
  split <;> simp

theorem extend_fill {references : References} {cell : CellId} {key : DeclKey}
    (pending : references[cell]? = some { key := key }) (validator : Validator) :
    Extend references (references.fill cell validator) := by
  intro other reference found
  rw [getElem?_fill]
  by_cases same : cell = other
  · subst same
    rw [pending] at found
    cases found
    simp [pending]
  · simp [same, found]

variable {references : References} {cell other : CellId} {validator target : Validator}

theorem target?_of_append {key : DeclKey}
    (filled : target? (references ++ [{ key := key }]) cell = some target) :
    references.target? cell = some target := by
  obtain ⟨reference, found, known⟩ := Option.bind_eq_some_iff.mp filled
  rcases Nat.lt_or_ge cell references.length with inside | outside
  · rw [List.getElem?_append_left inside] at found
    exact Option.bind_eq_some_iff.mpr ⟨reference, found, known⟩
  · rw [List.getElem?_append_right outside] at found
    have new := List.mem_of_getElem? found
    rw [List.mem_singleton.mp new] at known
    cases known

theorem target?_of_fill (filled : (references.fill cell validator).target? other = some target) :
    target = validator ∨ references.target? other = some target := by
  rw [target?, getElem?_fill] at filled
  split at filled
  · obtain ⟨_, found, known⟩ := Option.bind_eq_some_iff.mp filled
    obtain ⟨reference, _, rfl⟩ := Option.map_eq_some_iff.mp found
    cases known
    exact .inl rfl
  · exact .inr filled

end References

namespace Validator

inductive Part (references : References) : Validator → Validator → Prop where
  | element {node : NodeId} {element : Validator} : Part references (.array node element) element
  | operand {node : NodeId} {connective : Connective} {operands : List Validator}
      {operand : Validator} (member : operand ∈ operands) :
      Part references (.group node connective operands) operand
  | field {own level : Level Validator} {ancestors : List (Level Validator)}
      {field : Field Validator} (among : level ∈ own :: ancestors) (member : field ∈ level.fields) :
      Part references (.record own ancestors) field.type
  | index {own level : Level Validator} {ancestors : List (Level Validator)} {index : Validator}
      (among : level ∈ own :: ancestors) (member : level.index = some index) :
      Part references (.record own ancestors) index
  | target {name : String} {cell : CellId} {target : Validator}
      (filled : references.target? cell = some target) :
      Part references (.deferred name cell) target

abbrev Reaches (references : References) : Validator → Validator → Prop :=
  Relation.ReflTransGen (Part references)

end Validator

end Conform
