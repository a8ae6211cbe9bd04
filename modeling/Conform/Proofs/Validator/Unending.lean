import Conform.Proofs.Validator.Guarded
import Conform.Proofs.Validator.Scopes
import Conform.Proofs.Validator.Steps
import Mathlib.Data.List.ProdSigma

/-!
Judgements without an end. A judgement that follows a reference again, on the same value and with the same names
tolerated, goes on for ever. Tolerated names only get more while it stays on the value, and there are no more of them
than fields are declared, so one that has not ended within the bound on nesting does not end within any.
-/

namespace Conform.Validator

/-- With enough room there is an outcome. -/
def Ends (references : References) (scope : Scope) (validator : Validator) (value : Option Json) : Prop :=
  ∃ room, (validateWithin references room scope validator value).isSome

/-! ## The names that are declared -/

section Names

variable {references : References} {holds holds' : String → Prop} {validator : Validator} {names names' : List String}

theorem Declares.imp (declares : Declares references holds validator) (weaker : ∀ name, holds name → holds' name) :
    Declares references holds' validator := by
  intro part reaches
  have here := declares part reaches
  cases part with
  | record own ancestors => exact fun level among field member => weaker _ (here level among field member)
  | _ => trivial

theorem exists_names_forall {α : Type} {cost : α → Nat} {named : List String → α → Prop} {items : List α}
    (each : ∀ item ∈ items, ∃ names, names.length ≤ cost item ∧ named names item)
    (more : ∀ {names names' item}, names ⊆ names' → named names item → named names' item) :
    ∃ names, names.length ≤ items.foldr (fun item total => cost item + total) 0 ∧
      ∀ item ∈ items, named names item := by
  induction items with
  | nil => exact ⟨[], Nat.le_refl 0, by simp⟩
  | cons item items ih =>
      obtain ⟨first, others⟩ := List.forall_mem_cons.mp each
      obtain ⟨names, few, here⟩ := first
      obtain ⟨names', few', rest⟩ := ih others
      refine ⟨names ++ names', ?_, List.forall_mem_cons.mpr ⟨?_, fun other member => ?_⟩⟩
      · rw [List.length_append, List.foldr_cons]
        omega
      · exact more (List.subset_append_left _ _) here
      · exact more (List.subset_append_right _ _) (rest other member)

theorem foldr_weight (operands : List Validator) :
    operands.foldr (fun operand total => weight operand + total) 0 = weightOperands operands := by
  induction operands with
  | nil => rfl
  | cons operand rest ih => rw [List.foldr_cons, ih, weightOperands]

theorem foldr_weightLevel (levels : List (Level Validator)) :
    levels.foldr (fun level total => weightLevel level + total) 0 = weightLevels levels := by
  induction levels with
  | nil => rfl
  | cons level rest ih => rw [List.foldr_cons, ih, weightLevels]

theorem foldr_weightField (fields : List (Field Validator)) :
    fields.foldr (fun field total => weightField field + total) 0 = weightFields fields := by
  induction fields with
  | nil => rfl
  | cons field rest ih => rw [List.foldr_cons, ih, weightFields]

def Names (names : List String) (validator : Validator) : Prop :=
  Declares [] (· ∈ names) validator

theorem Names.more (within : names ⊆ names') (all : Names names validator) : Names names' validator :=
  Declares.imp all fun _ member => within member

def NamesLevel (names : List String) (level : Level Validator) : Prop :=
  Named (· ∈ names) level ∧ Throughout [] (OnLevels (Named (· ∈ names))) level

theorem NamesLevel.more {level : Level Validator} (within : names ⊆ names') (all : NamesLevel names level) :
    NamesLevel names' level :=
  ⟨fun field member => within (all.1 field member), fun field member => Names.more within (all.2.fields field member),
    fun index found => Names.more within (all.2.index index found)⟩

theorem exists_namesLevel {level : Level Validator}
    (smaller : ∀ part : Validator, part.weight < weightLevel level →
      ∃ names : List String, names.length ≤ part.weight ∧ Names names part) :
    ∃ names : List String, names.length ≤ weightLevel level ∧ NamesLevel names level := by
  have each : ∀ field ∈ level.fields, ∃ names : List String, names.length ≤ weightField field ∧
      (field.name ∈ names ∧ Names names field.type) := by
    intro field member
    obtain ⟨names, few, inside⟩ := smaller field.type (weight_field_lt member)
    refine ⟨field.name :: names, ?_, List.mem_cons_self, inside.more (List.subset_cons_self _ _)⟩
    rw [weightField_eq, List.length_cons]
    omega
  obtain ⟨names, few, fields⟩ := exists_names_forall each fun within ⟨own, inside⟩ => ⟨within own, inside.more within⟩
  rw [foldr_weightField] at few
  rw [weightLevel_eq]
  cases found : level.index with
  | none =>
      refine ⟨names, by omega, fun field member => (fields field member).1, fun field member =>
        (fields field member).2, ?_⟩
      simp [found]
  | some index =>
      obtain ⟨names', few', inside⟩ := smaller index (weight_index_lt found)
      have within := List.subset_append_left names names'
      refine ⟨names ++ names', ?_, fun field member => within (fields field member).1, fun field member =>
        (fields field member).2.more within, fun other same => ?_⟩
      · rw [List.length_append, weightIndex]
        omega
      · cases found.symm.trans same
        exact inside.more (List.subset_append_right _ _)

/-- In a tree no more names are declared than it has nodes and fields. -/
theorem exists_names (validator : Validator) :
    ∃ names : List String, names.length ≤ validator.weight ∧ Names names validator := by
  induction size : validator.weight using Nat.strongRecOn generalizing validator with
  | ind size_ ih =>
      subst size
      have smaller (part : Validator) (less : part.weight < validator.weight) :
          ∃ names : List String, names.length ≤ part.weight ∧ Names names part := ih _ less part rfl
      cases validator with
      | primitive kind => exact ⟨[], Nat.zero_le _, .primitive trivial⟩
      | deferred name cell => exact ⟨[], Nat.zero_le _, .unfilled rfl trivial⟩
      | array node element =>
          obtain ⟨names, few, inside⟩ := smaller element (by simp [weight])
          exact ⟨names, by simp only [weight]; omega, .array trivial inside⟩
      | group node connective operands =>
          have light (operand : Validator) (member : operand ∈ operands) :
              operand.weight < (group node connective operands).weight :=
            Nat.lt_succ_of_le (weight_le_operands member)
          obtain ⟨names, few, inside⟩ :=
            exists_names_forall (fun operand member => smaller operand (light operand member)) Names.more
          rw [foldr_weight] at few
          exact ⟨names, by simp only [weight]; omega, .group trivial inside⟩
      | record own ancestors =>
          have each : ∀ level ∈ own :: ancestors, ∃ names : List String,
              names.length ≤ weightLevel level ∧ NamesLevel names level := fun level among =>
            exists_namesLevel fun part less => smaller part (Nat.lt_trans less (weight_level_le among))
          obtain ⟨names, few, levels⟩ := exists_names_forall each NamesLevel.more
          rw [foldr_weightLevel] at few
          refine ⟨names, ?_, .record (fun level among => (levels level among).1) fun level among =>
            (levels level among).2⟩
          simp only [weightLevels] at few
          simp only [weight]
          omega

theorem declares_of_names (root : Names names validator)
    (targets : ∀ cell target, references.target? cell = some target → Names names target) :
    Declares references (· ∈ names) validator := by
  have inside : ∀ part, Reaches references validator part → Names names part := by
    intro part reaches
    induction reaches with
    | refl => exact root
    | tail _ step ih =>
        cases step with
        | element => exact ih.of_reaches (.single .element)
        | operand member => exact ih.of_reaches (.single (.operand member))
        | field among member => exact ih.of_reaches (.single (.field among member))
        | index among member => exact ih.of_reaches (.single (.index among member))
        | target filled => exact targets _ _ filled
  exact fun part reaches => (inside part reaches).here

theorem exists_declares (references : References) (validator : Validator) : ∃ names : List String,
    names.length ≤ validator.weight + weightOperands (references.filterMap (·.target)) ∧
      Declares references (· ∈ names) validator := by
  have each : ∀ part ∈ validator :: references.filterMap (·.target), ∃ names : List String,
      names.length ≤ part.weight ∧ Names names part := fun part _ => exists_names part
  obtain ⟨names, few, all⟩ := exists_names_forall each Names.more
  obtain ⟨root, targets⟩ := List.forall_mem_cons.mp all
  rw [List.foldr_cons, foldr_weight] at few
  refine ⟨names, few, declares_of_names root fun cell target filled => targets target ?_⟩
  obtain ⟨reference, found, same⟩ := Option.bind_eq_some_iff.mp filled
  exact List.mem_filterMap.mpr ⟨reference, List.mem_of_getElem? found, same⟩

theorem Declares.offered (declares : Declares references holds validator) :
    ∀ name ∈ offeredNames validator, holds name := by
  induction size : validator.weight using Nat.strongRecOn generalizing validator with
  | ind size_ ih =>
      subst size
      intro name member
      cases validator with
      | record own ancestors =>
          rw [offeredNames, levelNames, List.mem_eraseDups, List.mem_flatMap] at member
          obtain ⟨level, among, member⟩ := member
          obtain ⟨field, inside, rfl⟩ := List.mem_map.mp member
          exact declares.here level among field inside
      | group node connective operands =>
          rw [offeredNames, mem_groupNames] at member
          obtain ⟨operand, inside, member⟩ := member
          have lighter := Nat.lt_succ_of_le (weight_le_operands inside)
          exact ih _ lighter (declares.of_reaches (.single (.operand inside))) rfl name member
      | primitive kind => simp [offeredNames] at member
      | array node element => simp [offeredNames] at member
      | deferred name cell => simp [offeredNames] at member

end Names

/-! ## Following references -/

def mark (names : List String) (entry : CellId × Scope) : CellId × Nat :=
  (entry.1, names.countP entry.2.contains)

/-- The references followed since the judgement came to the value that it is on now, each with the names that were
tolerated then, when none of them has an outcome within this room. -/
structure Followed (references : References) (names : List String) (room : Nat) (scope : Scope)
    (value : Option Json) (passed : List (CellId × Scope)) : Prop where
  filled : ∀ entry ∈ passed, entry.1 < references.length
  kept : ∀ entry ∈ passed, ∀ key, entry.2.contains key → scope.contains key
  grown : ∀ entry ∈ passed, ∀ key, scope.contains key → key ∈ names ∨ entry.2.contains key
  open_ : ∀ entry ∈ passed, ∀ name, validateWithin references room entry.2 (.deferred name entry.1) value = none
  distinct : (passed.map (mark names)).Nodup

section Followed

variable {references : References} {names : List String} {room : Nat} {scope : Scope} {value : Option Json}
  {passed : List (CellId × Scope)} {name : String} {cell : CellId}

theorem followed_nil : Followed references names room scope value [] where
  filled := by simp
  kept := by simp
  grown := by simp
  open_ := by simp
  distinct := List.nodup_nil

theorem Followed.length_le (followed : Followed references names room scope value passed) :
    passed.length ≤ references.length * (names.length + 1) := by
  have inside : passed.map (mark names) ⊆ List.range references.length ×ˢ List.range (names.length + 1) := by
    intro pair member
    obtain ⟨entry, among, rfl⟩ := List.mem_map.mp member
    have few : names.countP entry.2.contains ≤ names.length := List.countP_le_length
    exact List.mem_product.mpr ⟨List.mem_range.mpr (followed.filled entry among), List.mem_range.mpr (by omega)⟩
  have few := (followed.distinct.subperm inside).length_le
  rwa [List.length_map, List.length_product, List.length_range, List.length_range] at few

theorem deferred_name (name name' : String) (cell : CellId) :
    validateWithin references room scope (.deferred name cell) value =
      validateWithin references room scope (.deferred name' cell) value := by
  cases room <;> rfl

theorem Followed.less (followed : Followed references names (room + 1) scope value passed) :
    Followed references names room scope value passed := by
  refine ⟨followed.filled, followed.kept, followed.grown, fun entry among name => ?_, followed.distinct⟩
  exact validateWithin_eq_none_of_le (followed.open_ entry among name) (Nat.le_succ room) fun _ => rfl

theorem Followed.push {offered : List String} (followed : Followed references names room scope value passed)
    (declared : ∀ name ∈ offered, name ∈ names) :
    Followed references names room (offered :: scope) value passed := by
  refine ⟨followed.filled, fun entry among key tolerated => ?_, fun entry among key tolerated => ?_,
    followed.open_, followed.distinct⟩
  · rw [contains_cons, followed.kept entry among key tolerated, Bool.or_true]
  · rw [contains_cons, Bool.or_eq_true] at tolerated
    rcases tolerated with own | outer
    · exact .inl (declared key (by simpa using own))
    · exact followed.grown entry among key outer

theorem Followed.same_scope {entry : CellId × Scope} (followed : Followed references names room scope value passed)
    (among : entry ∈ passed) (count : names.countP entry.2.contains = names.countP scope.contains) (key : String) :
    scope.contains key = entry.2.contains key := by
  have kept := followed.kept entry among
  have same : names.filter entry.2.contains = names.filter scope.contains := by
    refine (List.monotone_filter_right names kept).eq_of_length ?_
    rw [← List.countP_eq_length_filter, ← List.countP_eq_length_filter, count]
  rw [Bool.eq_iff_iff]
  refine ⟨fun tolerated => ?_, kept key⟩
  rcases followed.grown entry among key tolerated with declared | earlier
  · have member : key ∈ names.filter scope.contains := List.mem_filter.mpr ⟨declared, tolerated⟩
    rw [← same] at member
    exact (List.mem_filter.mp member).2
  · exact earlier

/-- A reference that is followed again, while the same names are tolerated, has no outcome either. -/
theorem Followed.repeated (followed : Followed references names room scope value passed)
    (again : mark names (cell, scope) ∈ passed.map (mark names)) :
    validateWithin references room scope (.deferred name cell) value = none := by
  obtain ⟨entry, among, same⟩ := List.mem_map.mp again
  obtain ⟨rfl, count⟩ := Prod.mk.inj same
  exact validateWithin_eq_none_of_le (followed.open_ entry among name) (Nat.le_refl room)
    (followed.same_scope among count)

theorem Followed.follow (followed : Followed references names room scope value passed)
    (fresh : mark names (cell, scope) ∉ passed.map (mark names))
    (inside : cell < references.length)
    (unanswered : validateWithin references room scope (.deferred name cell) value = none) :
    Followed references names room scope value ((cell, scope) :: passed) where
  filled := List.forall_mem_cons.mpr ⟨inside, followed.filled⟩
  kept := List.forall_mem_cons.mpr ⟨fun _ tolerated => tolerated, followed.kept⟩
  grown := List.forall_mem_cons.mpr ⟨fun _ tolerated => .inr tolerated, followed.grown⟩
  open_ := List.forall_mem_cons.mpr ⟨fun other => (deferred_name other name cell).trans unanswered, followed.open_⟩
  distinct := List.nodup_cons.mpr ⟨fresh, followed.distinct⟩

end Followed

/-- An outcome that is found with any room is found within the measure: the depth of the value, then the references
that can still be followed on it, then the weight of the validator. -/
theorem validateWithin_onward {references : References} {root : Validator} {names : List String}
    (declares : Declares references (· ∈ names) root) {nodes jumps : Nat}
    (nodes_eq : nodes = root.weight + weightOperands (references.filterMap (·.target)) + 1)
    (few : names.length < nodes) (jumps_eq : jumps = references.length * nodes * nodes + nodes)
    (room bound : Nat) (scope : Scope) {here : Validator} (value : Option Json) {passed : List (CellId × Scope)}
    (reaches : Reaches references root here) (followed : Followed references names room scope value passed)
    (enough : (value.map Json.depth).getD 0 * jumps +
      (references.length * nodes - passed.length) * nodes + here.weight < bound) :
    Comparison.onward.rel (validateWithin references room scope here value)
      (validateWithin references bound scope here value) := by
  induction room generalizing bound scope here value passed with
  | zero => exact .inl rfl
  | succ room ih =>
      obtain ⟨bound, rfl⟩ : ∃ less, bound = less + 1 := ⟨bound - 1, by omega⟩
      have light {part : Validator} (reaches : Reaches references root part) : part.weight < nodes := by
        have known := weight_reached reaches
        omega
      have innerCompare : InnerCompare .onward (fun part part' => part' = part ∧ Part references here part)
          (validateWithin references room) (validateWithin references bound) value := by
        rintro part _ item ⟨rfl, part_of⟩ holds
        have lighter := light (reaches.tail part_of)
        have shallower := Nat.mul_le_mul_right jumps (Nat.succ_le_of_lt holds.depth_lt)
        rw [Nat.succ_mul] at shallower
        refine ih bound [] (some item) (reaches.tail part_of) followed_nil ?_
        simp only [Option.map_some, Option.getD_some, List.length_nil, Nat.sub_zero]
        omega
      cases here with
      | deferred name cell =>
          -- Only a reference that less room has no outcome for may be counted as followed.
          cases found : validateWithin references room scope (.deferred name cell) value with
          | some outcome =>
              have earlier := ih (bound + 1) scope value reaches followed.less enough
              rw [found] at earlier
              rw [earlier.resolve_left (by simp), validateWithin_of_le found (Nat.le_succ room) fun _ => rfl]
              exact .inr rfl
          | none =>
              by_cases again : mark names (cell, scope) ∈ passed.map (mark names)
              · exact .inl (followed.repeated again)
              · simp only [validateWithin, judge]
                split
                · rename_i target filled
                  have follows := followed.less.follow again (cell_lt filled) found
                  have reaches := reaches.tail (.target filled)
                  have lighter := light reaches
                  have short := follows.length_le
                  have wide : references.length * (names.length + 1) ≤ references.length * nodes :=
                    Nat.mul_le_mul_left _ few
                  rw [List.length_cons] at short
                  obtain ⟨left, split_⟩ : ∃ left, references.length * nodes - passed.length = left + 1 :=
                    ⟨references.length * nodes - passed.length - 1, by omega⟩
                  have fewer : references.length * nodes - ((cell, scope) :: passed).length = left := by
                    rw [List.length_cons]
                    omega
                  rw [split_, Nat.succ_mul] at enough
                  refine ih bound scope value reaches follows ?_
                  rw [fewer]
                  omega
                · exact .inr rfl
      | group node connective operands =>
          refine judge_compare .onward references references (alike_self references (by simp))
            (.of_same _ fun _ => rfl) ?_ innerCompare
          rintro _ _ _ ⟨⟩ _ operand ⟨rfl, part_of⟩
          have member : operand ∈ operands := by
            cases part_of
            assumption
          have offered : ∀ name ∈ groupNames operands, name ∈ names :=
            Declares.offered (declares.of_reaches reaches)
          have lighter := weight_le_operands member
          simp only [weight] at enough
          refine ih bound (groupNames operands :: scope) value (reaches.tail part_of)
            (followed.less.push offered) ?_
          omega
      | _ =>
          refine judge_compare .onward references references (alike_self references (by simp))
            (.of_same _ fun _ => rfl) ?_ innerCompare
          intro _ _ _ none
          cases none

theorem onward_lt_bound (references : References) (validator : Validator) (value : Option Json) {nodes : Nat}
    (nodes_eq : nodes = validator.weight + weightOperands (references.filterMap (·.target)) + 1) :
    (value.map Json.depth).getD 0 * (references.length * nodes * nodes + nodes) +
      references.length * nodes * nodes + validator.weight < bound references validator value := by
  have bound_eq : bound references validator value =
      ((value.map Json.depth).getD 0 + 1) * ((references.length + 1) * nodes * nodes) + 1 := by
    rw [nodes_eq]
    rfl
  have wide : nodes ≤ nodes * nodes := Nat.le_mul_of_pos_right _ (by omega)
  have each : references.length * nodes * nodes + nodes ≤ (references.length + 1) * nodes * nodes := by
    rw [Nat.succ_mul, Nat.add_mul]
    omega
  rw [bound_eq]
  generalize (value.map Json.depth).getD 0 = depth
  generalize references.length * nodes * nodes = followed at *
  calc depth * (followed + nodes) + followed + validator.weight
      < depth * (followed + nodes) + (followed + nodes) := by omega
    _ = (depth + 1) * (followed + nodes) := (Nat.succ_mul _ _).symm
    _ ≤ (depth + 1) * ((references.length + 1) * nodes * nodes) := Nat.mul_le_mul_left _ each
    _ < (depth + 1) * ((references.length + 1) * nodes * nodes) + 1 := Nat.lt_succ_self _

/-- The bound on nesting decides nothing: a validation that has no outcome within it has none with any room. -/
theorem validateIn_isSome_iff {references : References} {scope : Scope} {validator : Validator}
    {value : Option Json} : (validateIn references scope validator value).isSome ↔
      Ends references scope validator value := by
  constructor
  · exact fun ended => ⟨_, ended⟩
  · rintro ⟨room, ended⟩
    obtain ⟨outcome, found⟩ := Option.isSome_iff_exists.mp ended
    obtain ⟨names, few, declares⟩ := exists_declares references validator
    have onward := validateWithin_onward declares rfl (Nat.lt_succ_of_le few) rfl room _ scope value .refl
      followed_nil (onward_lt_bound references validator value rfl)
    rw [found] at onward
    rw [validateIn, onward.resolve_left (by simp)]
    rfl

end Conform.Validator
