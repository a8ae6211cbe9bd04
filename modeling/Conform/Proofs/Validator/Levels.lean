import Conform.Proofs.Validator.Parts

/-!
What holds of a validator and of all that it reaches. It is told part by part, and so it is found of a
validator that is made from others.
-/

namespace Conform

namespace Validator

variable {references : References} {holds : Validator → Prop} {validator part : Validator}
  {own level : Level Validator} {ancestors : List (Level Validator)}

def Everywhere (references : References) (holds : Validator → Prop) (validator : Validator) : Prop :=
  ∀ part, Reaches references validator part → holds part

structure Throughout (references : References) (holds : Validator → Prop) (level : Level Validator) :
    Prop where
  fields : ∀ field ∈ level.fields, Everywhere references holds field.type
  index : ∀ index, level.index = some index → Everywhere references holds index

def OnLevels (holds : Level Validator → Prop) : Validator → Prop
  | .record own ancestors => ∀ level ∈ own :: ancestors, holds level
  | _ => True

theorem Throughout.relaxed (throughout : Throughout references holds level) (node : NodeId) :
    Throughout references holds (level.relaxed node) where
  fields field member := by
    obtain ⟨before, among, rfl⟩ := List.mem_map.mp member
    exact throughout.fields before among
  index := throughout.index

namespace Everywhere

theorem here (everywhere : Everywhere references holds validator) : holds validator :=
  everywhere validator .refl

theorem of_reaches (everywhere : Everywhere references holds validator)
    (reaches : Reaches references validator part) : Everywhere references holds part :=
  fun further onward => everywhere further (reaches.trans onward)

theorem of_parts (here : holds validator)
    (parts : ∀ part, Part references validator part → Everywhere references holds part) :
    Everywhere references holds validator := by
  intro part reaches
  rcases reaches.cases_head with rfl | ⟨first, step, rest⟩
  · exact here
  · exact parts first step part rest

theorem primitive {kind : Primitive} (here : holds (.primitive kind)) :
    Everywhere references holds (.primitive kind) :=
  of_parts here fun _ step => by cases step

theorem unfilled {name : String} {cell : CellId} (loose : references.target? cell = none)
    (here : holds (.deferred name cell)) : Everywhere references holds (.deferred name cell) := by
  refine of_parts here fun part step => ?_
  cases step with
  | target filled =>
      rw [loose] at filled
      cases filled

theorem array {node : NodeId} {element : Validator} (here : holds (.array node element))
    (inside : Everywhere references holds element) : Everywhere references holds (.array node element) := by
  refine of_parts here fun part step => ?_
  cases step with
  | element => exact inside

theorem group {node : NodeId} {connective : Connective} {operands : List Validator}
    (here : holds (.group node connective operands))
    (each : ∀ operand ∈ operands, Everywhere references holds operand) :
    Everywhere references holds (.group node connective operands) := by
  refine of_parts here fun part step => ?_
  cases step with
  | operand member => exact each part member

theorem record (here : holds (.record own ancestors))
    (levels : ∀ level ∈ own :: ancestors, Throughout references holds level) :
    Everywhere references holds (.record own ancestors) := by
  refine of_parts here fun part step => ?_
  cases step with
  | field among member => exact (levels _ among).fields _ member
  | index among member => exact (levels _ among).index _ member

theorem levels (everywhere : Everywhere references holds (.record own ancestors)) :
    ∀ level ∈ own :: ancestors, Throughout references holds level := by
  intro level among
  constructor
  · exact fun field member => everywhere.of_reaches (.single (.field among member))
  · exact fun index member => everywhere.of_reaches (.single (.index among member))

theorem relaxed {node : NodeId} (everywhere : Everywhere references holds (.record own ancestors))
    (here : holds (.record (own.relaxed node) ancestors)) :
    Everywhere references holds (.record (own.relaxed node) ancestors) := by
  have ⟨first, further⟩ := List.forall_mem_cons.mp everywhere.levels
  exact record here (List.forall_mem_cons.mpr ⟨first.relaxed node, further⟩)

theorem make (everywhere : Everywhere references holds validator) (node : NodeId) (name : String)
    (optional strict : Bool) (undefined : holds (.primitive .undefined))
    (union : ∀ operands, holds (.group node .or operands)) :
    Everywhere references holds (Field.make node name optional strict validator).type := by
  have operand {rest : List Validator} (left : validator.withoutUndefined? = some rest) :
      ∀ operand ∈ rest, Everywhere references holds operand := by
    unfold withoutUndefined? at left
    split at left
    · split at left
      · cases left
        exact fun operand member =>
          everywhere.of_reaches (.single (.operand (List.mem_filter.mp member).1))
      · cases left
    · cases left
  unfold Field.make
  split
  next => exact primitive undefined
  next left => exact operand left _ List.mem_cons_self
  next left => exact group (union _) (operand left)
  next => exact everywhere

end Everywhere

end Validator

end Conform
