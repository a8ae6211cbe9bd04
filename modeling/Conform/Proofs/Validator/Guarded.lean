import Conform.Proofs.Validator.Nesting
import Mathlib.Data.List.Nodup
import Mathlib.Data.List.Perm.Subperm

/-!
Judgements end. Each step of a judgement moves into the value, or it stays on the value and moves
on in the validator. When the steps of the second kind do not run in circles, no reference is
followed twice on one value, and the bound on nesting is never reached.
-/

namespace Conform

namespace Json

theorem depth_item_lt {items : List Json} {item : Json} (member : item ∈ items) :
    item.depth < (array items).depth := by
  have inside : item.depth ≤ depthItems items := by
    induction items with
    | nil => simp at member
    | cons first rest ih =>
        simp only [depthItems]
        rcases List.mem_cons.mp member with rfl | later
        · exact Nat.le_max_left _ _
        · exact Nat.le_trans (ih later) (Nat.le_max_right _ _)
  simp only [depth]
  omega

theorem depth_entry_lt {entries : List (String × Json)} {key : String} {item : Json}
    (member : (key, item) ∈ entries) : item.depth < (object entries).depth := by
  have inside : item.depth ≤ depthEntries entries := by
    induction entries with
    | nil => simp at member
    | cons first rest ih =>
        simp only [depthEntries]
        rcases List.mem_cons.mp member with rfl | later
        · exact Nat.le_max_left _ _
        · exact Nat.le_trans (ih later) (Nat.le_max_right _ _)
  simp only [depth]
  omega

theorem Holds.depth_lt {value : Option Json} {item : Json} (holds : Holds value item) :
    item.depth < (value.map depth).getD 0 := by
  cases holds with
  | item member => exact depth_item_lt member
  | entry member => exact depth_entry_lt member

end Json

namespace Validator

open Relation

inductive SameValue (references : References) : Validator → Validator → Prop where
  | operand {node : NodeId} {connective : Connective} {operands : List Validator}
      {operand : Validator} (member : operand ∈ operands) :
      SameValue references (.group node connective operands) operand
  | parent {own parent : Level Validator} {further : List (Level Validator)} :
      SameValue references (.record own (parent :: further)) (.record parent further)
  | target {name : String} {cell : CellId} {target : Validator}
      (filled : references.target? cell = some target) :
      SameValue references (.deferred name cell) target

/-- No cycle in the validator consists of such steps only. -/
def Guarded (references : References) (validator : Validator) : Prop :=
  ∀ part, Reaches references validator part → ¬TransGen (SameValue references) part part

section Weight

variable {references : References}

theorem weight_le_operands {operand : Validator} {operands : List Validator}
    (member : operand ∈ operands) : operand.weight ≤ weightOperands operands := by
  induction operands with
  | nil => simp at member
  | cons first rest ih =>
      simp only [weightOperands]
      rcases List.mem_cons.mp member with rfl | later
      · omega
      · have known := ih later
        omega

theorem weightField_eq (field : Field Validator) : weightField field = field.type.weight + 1 := by
  cases field
  rfl

theorem weightLevel_eq (level : Level Validator) :
    weightLevel level = weightFields level.fields + weightIndex level.index + 1 := by
  cases level
  rfl

theorem weight_field_lt {level : Level Validator} {field : Field Validator}
    (member : field ∈ level.fields) : field.type.weight < weightLevel level := by
  have inside : field.type.weight < weightFields level.fields := by
    generalize level.fields = fields at member
    induction fields with
    | nil => simp at member
    | cons first rest ih =>
        simp only [weightFields]
        rcases List.mem_cons.mp member with rfl | later
        · rw [weightField_eq]
          omega
        · have known := ih later
          omega
  rw [weightLevel_eq]
  omega

theorem weight_index_lt {level : Level Validator} {index : Validator}
    (member : level.index = some index) : index.weight < weightLevel level := by
  rw [weightLevel_eq, member, weightIndex]
  omega

theorem weight_level_le {own level : Level Validator} {ancestors : List (Level Validator)}
    (among : level ∈ own :: ancestors) : weightLevel level < (record own ancestors).weight := by
  have inside : ∀ levels : List (Level Validator), level ∈ levels →
      weightLevel level ≤ weightLevels levels := by
    intro levels member
    induction levels with
    | nil => simp at member
    | cons first rest ih =>
        simp only [weightLevels]
        rcases List.mem_cons.mp member with rfl | later
        · omega
        · have known := ih later
          omega
  have known := inside (own :: ancestors) among
  simp only [weightLevels] at known
  simp only [weight]
  omega

theorem weight_target_le {cell : CellId} {target : Validator}
    (filled : references.target? cell = some target) :
    target.weight ≤ weightOperands (references.filterMap (·.target)) := by
  apply weight_le_operands
  obtain ⟨reference, found, same⟩ := Option.bind_eq_some_iff.mp filled
  exact List.mem_filterMap.mpr ⟨reference, List.mem_of_getElem? found, same⟩

theorem weight_part {validator part : Validator} (part_of : Part references validator part) :
    part.weight < validator.weight ∨
      part.weight ≤ weightOperands (references.filterMap (·.target)) := by
  cases part_of with
  | element =>
      left
      simp only [weight]
      omega
  | operand member =>
      left
      have known := weight_le_operands member
      simp only [weight]
      omega
  | field among member => exact .inl (Nat.lt_trans (weight_field_lt member) (weight_level_le among))
  | index among member => exact .inl (Nat.lt_trans (weight_index_lt member) (weight_level_le among))
  | target filled => exact .inr (weight_target_le filled)

theorem weight_reached {validator part : Validator} (reaches : Reaches references validator part) :
    part.weight ≤ validator.weight + weightOperands (references.filterMap (·.target)) := by
  induction reaches with
  | refl => omega
  | tail _ step ih =>
      rcases weight_part step with smaller | smaller
      · omega
      · omega

end Weight

structure Passed (references : References) (root : Validator) (passed : List CellId)
    (here : Validator) : Prop where
  reaches : Reaches references root here
  distinct : passed.Nodup
  leads : ∀ cell ∈ passed, ∃ target, references.target? cell = some target ∧
    Reaches references root target ∧ ReflTransGen (SameValue references) target here

section Passed

variable {references : References} {root here : Validator} {passed : List CellId}

theorem cell_lt {cell : CellId} {target : Validator}
    (filled : references.target? cell = some target) : cell < references.length := by
  obtain ⟨reference, found, _⟩ := Option.bind_eq_some_iff.mp filled
  exact (List.getElem?_eq_some_iff.mp found).1

theorem Passed.length_le (here_ : Passed references root passed here) :
    passed.length ≤ references.length := by
  have inside : passed ⊆ List.range references.length := by
    intro cell member
    obtain ⟨target, filled, _⟩ := here_.leads cell member
    exact List.mem_range.mpr (cell_lt filled)
  simpa using (here_.distinct.subperm inside).length_le

theorem Passed.moved (here_ : Passed references root passed here) {part : Validator}
    (part_of : Part references here part) : Passed references root [] part :=
  ⟨here_.reaches.tail part_of, List.nodup_nil, by simp⟩

theorem Passed.step (here_ : Passed references root passed here) {part : Validator}
    (part_of : Part references here part) (stays : SameValue references here part) :
    Passed references root passed part := by
  refine ⟨here_.reaches.tail part_of, here_.distinct, ?_⟩
  intro cell member
  obtain ⟨target, filled, reaches, leads⟩ := here_.leads cell member
  exact ⟨target, filled, reaches, leads.tail stays⟩

theorem Passed.follow {name : String} {cell : CellId} {target : Validator}
    (guarded : Guarded references root)
    (here_ : Passed references root passed (.deferred name cell))
    (filled : references.target? cell = some target) :
    Passed references root (cell :: passed) target := by
  -- A reference that were followed again would be part of a cycle.
  have fresh : cell ∉ passed := by
    intro member
    obtain ⟨known, filled', reaches, leads⟩ := here_.leads cell member
    rw [filled] at filled'
    cases filled'
    exact guarded target reaches (TransGen.tail' leads (.target filled))
  have stepped := here_.step (.target filled) (.target filled)
  refine ⟨stepped.reaches, List.nodup_cons.mpr ⟨fresh, stepped.distinct⟩, ?_⟩
  intro other member
  rcases List.mem_cons.mp member with rfl | earlier
  · exact ⟨target, filled, stepped.reaches, .refl⟩
  · exact stepped.leads other earlier

end Passed

def answered : Comparison where
  rel _ second := second.isSome
  same _ := rfl
  under _ _ known := by simpa using known
  andThen := by
    intro first first' second second' known later
    rcases first' with _ | outcome
    · simp at known
    · by_cases success : outcome.isSuccess
      · simpa [andThen, success] using later
      · simp [andThen, success]
  orElse := by
    intro first first' second second' known later
    rcases first' with _ | outcome
    · simp at known
    · by_cases success : outcome.isSuccess
      · simp [orElse, success]
      · simpa [orElse, success] using later

/-- The measure is the depth of the value, then the references that can still be followed on it,
then the weight of the validator. -/
theorem validateWithin_isSome {references : References} {root : Validator}
    (guarded : Guarded references root) {nodes jumps : Nat}
    (nodes_eq : nodes = root.weight + weightOperands (references.filterMap (·.target)) + 1)
    (jumps_eq : jumps = references.length * nodes + nodes)
    (bound : Nat) (scope : Scope) {here : Validator} (value : Option Json) {passed : List CellId}
    (here_ : Passed references root passed here)
    (room : (value.map Json.depth).getD 0 * jumps +
      (references.length - passed.length) * nodes + here.weight < bound) :
    (validateWithin references bound scope here value).isSome := by
  induction bound generalizing scope here value passed with
  | zero => omega
  | succ bound ih =>
      have light {part : Validator} (reaches : Reaches references root part) :
          part.weight < nodes := by
        have known := weight_reached reaches
        omega
      have inner {part : Validator} {item : Json} (part_of : Part references here part)
          (holds : Json.Holds value item) :
          (validateWithin references bound [] part (some item)).isSome := by
        have moved := here_.moved part_of
        have lighter := light moved.reaches
        have shallower := Nat.mul_le_mul_right jumps (Nat.succ_le_of_lt holds.depth_lt)
        rw [Nat.succ_mul] at shallower
        apply ih [] (some item) moved
        simp only [Option.map_some, Option.getD_some, List.length_nil, Nat.sub_zero]
        omega
      have innerCompare : InnerCompare answered
          (fun part part' => part' = part ∧ Part references here part)
          (validateWithin references bound) (validateWithin references bound) value := by
        rintro part _ item ⟨rfl, part_of⟩ holds
        exact inner part_of holds
      cases here with
      | deferred name cell =>
          simp only [validateWithin, judge]
          split
          · rename_i target filled
            have follows := here_.follow guarded filled
            have lighter := light follows.reaches
            have few := follows.length_le
            simp only [List.length_cons] at few
            obtain ⟨left, split_⟩ : ∃ left, references.length - passed.length = left + 1 :=
              ⟨references.length - passed.length - 1, by omega⟩
            have fewer : references.length - (cell :: passed).length = left := by
              simp only [List.length_cons]
              omega
            rw [split_, Nat.succ_mul] at room
            apply ih scope value follows
            rw [fewer]
            omega
          · rfl
      | group node connective operands =>
          refine judge_compare answered references references (alike_self references (by simp))
            (.of_same _ fun _ => rfl) ?_ innerCompare
          rintro _ _ _ ⟨⟩ _ operand ⟨rfl, part_of⟩
          have member : operand ∈ operands := by
            cases part_of
            assumption
          have lighter := weight_le_operands member
          simp only [weight] at room
          apply ih (groupNames operands :: scope) value (here_.step part_of (.operand member))
          omega
      | _ =>
          refine judge_compare answered references references (alike_self references (by simp))
            (.of_same _ fun _ => rfl) ?_ innerCompare
          intro _ _ _ none
          cases none

theorem measure_lt_bound (references : References) (validator : Validator) (value : Option Json)
    {nodes : Nat}
    (nodes_eq : nodes = validator.weight + weightOperands (references.filterMap (·.target)) + 1) :
    (value.map Json.depth).getD 0 * (references.length * nodes + nodes) +
      references.length * nodes + validator.weight < bound references validator value := by
  have bound_eq : bound references validator value =
      ((value.map Json.depth).getD 0 + 1) * ((references.length * nodes + nodes) * nodes) + 1 := by
    rw [nodes_eq, ← Nat.succ_mul]
    rfl
  rw [bound_eq]
  generalize (value.map Json.depth).getD 0 = depth
  generalize references.length * nodes = followed
  have wide : followed + nodes ≤ (followed + nodes) * nodes :=
    Nat.le_mul_of_pos_right _ (by omega)
  calc depth * (followed + nodes) + followed + validator.weight
      < depth * (followed + nodes) + (followed + nodes) := by omega
    _ = (depth + 1) * (followed + nodes) := (Nat.succ_mul _ _).symm
    _ ≤ (depth + 1) * ((followed + nodes) * nodes) := Nat.mul_le_mul_left _ wide
    _ < (depth + 1) * ((followed + nodes) * nodes) + 1 := Nat.lt_succ_self _

theorem validateIn_isSome {references : References} {validator : Validator}
    (guarded : Guarded references validator) (scope : Scope) (value : Option Json) :
    (validateIn references scope validator value).isSome := by
  have start : Passed references validator [] validator := ⟨.refl, List.nodup_nil, by simp⟩
  exact validateWithin_isSome guarded rfl rfl _ scope value start
    (measure_lt_bound references validator value rfl)

/-- Validation ends: with as much room for nesting as a judgement has, or more, there is an
outcome, always the same. -/
theorem validation_ends {references : References} {validator : Validator}
    (guarded : Guarded references validator) (scope : Scope) (value : Option Json) :
    ∃ outcome, validateIn references scope validator value = some outcome ∧
      ∀ room, bound references validator value ≤ room →
        validateWithin references room scope validator value = some outcome := by
  have ended := validateIn_isSome guarded scope value
  obtain ⟨outcome, found⟩ := Option.isSome_iff_exists.mp ended
  exact ⟨outcome, found, fun room more => validateWithin_of_le found more fun _ => rfl⟩

section Solid

def isSolid : Validator → Bool
  | primitive _ => true
  | array _ _ => true
  | record _ _ => true
  | _ => false

def rank (references : References) : Validator → Nat
  | record _ ancestors => ancestors.length
  | deferred _ _ => weightOperands (references.filterMap (·.target)) + 1
  | group _ _ operands =>
    weightOperands (references.filterMap (·.target)) + weightOperands operands + 2
  | _ => 0

theorem length_le_weightLevels (levels : List (Level Validator)) :
    levels.length ≤ weightLevels levels := by
  induction levels with
  | nil => exact Nat.le_refl 0
  | cons first rest ih =>
      simp only [List.length_cons, weightLevels, weightLevel_eq]
      omega

theorem rank_le (references : References) (validator : Validator) :
    validator.rank references ≤
      weightOperands (references.filterMap (·.target)) + validator.weight + 1 := by
  cases validator with
  | record own ancestors =>
      have few := length_le_weightLevels ancestors
      simp only [rank, weight]
      omega
  | _ =>
      simp only [rank, weight]
      omega

theorem rank_target_le {references : References} {cell : CellId} {target : Validator}
    (filled : references.target? cell = some target) (solid : target.isSolid) :
    target.rank references ≤ weightOperands (references.filterMap (·.target)) := by
  have light := weight_target_le filled
  cases target with
  | record own ancestors =>
      have few := length_le_weightLevels ancestors
      simp only [weight] at light
      simp only [rank]
      omega
  | primitive kind => exact Nat.zero_le _
  | array node element => exact Nat.zero_le _
  | group node connective operands => simp [isSolid] at solid
  | deferred name cell => simp [isSolid] at solid

/-- Where references stand for records, arrays and primitives only, all recursion is guarded. -/
theorem guarded_of_solid {references : References}
    (solid : ∀ cell target, references.target? cell = some target → target.isSolid)
    (validator : Validator) : Guarded references validator := by
  have down : ∀ {first next}, SameValue references first next →
      next.rank references < first.rank references := by
    intro first next step
    cases step with
    | operand member =>
        have low := rank_le references next
        have light := weight_le_operands member
        apply Nat.lt_of_le_of_lt low
        simp only [rank]
        omega
    | parent => exact Nat.lt_succ_self _
    | target filled => exact Nat.lt_succ_of_le (rank_target_le filled (solid _ _ filled))
  have lower : ∀ {first last}, TransGen (SameValue references) first last →
      last.rank references < first.rank references := by
    intro first last path
    induction path with
    | single step => exact down step
    | tail _ step ih => exact Nat.lt_trans (down step) ih
  intro part _ cycle
  exact Nat.lt_irrefl _ (lower cycle)

theorem guarded_of_one {key : DeclKey} {target : Validator} (solid : target.isSolid)
    (validator : Validator) : Guarded [⟨key, some target⟩] validator := by
  apply guarded_of_solid
  intro cell found filled
  cases cell with
  | zero =>
      cases filled
      exact solid
  | succ cell => simp [References.target?] at filled

end Solid

def tree : Validator :=
  .record ⟨0, some "Tree", [⟨"kids", false, false, .array 1 (.deferred "Tree" 0)⟩],
      some (.group 2 .or [.deferred "Tree" 0, .primitive .null])⟩
    [⟨3, some "Base", [⟨"next", false, false, .deferred "Tree" 0⟩], none⟩]

def trees : References := [⟨⟨"Tree", ⟨"/tree.ts"⟩⟩, some tree⟩]

theorem guarded_trees (validator : Validator) : Guarded trees validator :=
  guarded_of_one rfl validator

theorem validation_ends_tree :
    Guarded trees tree ∧ ∃ outcome, validateIn trees [["id"]] tree (some (.object [
      ("kids", .array [.object [("left", .object []), ("right", .null)]]),
      ("next", .object [("kids", .null)])])) = some outcome := by
  obtain ⟨outcome, found, _⟩ := validation_ends (guarded_trees tree) [["id"]] (some (.object [
    ("kids", .array [.object [("left", .object []), ("right", .null)]]),
    ("next", .object [("kids", .null)])]))
  exact ⟨guarded_trees tree, outcome, found⟩

end Validator

end Conform
