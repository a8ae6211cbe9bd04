import Conform.Proofs.Validator.Groups
import Conform.Proofs.Validator.Guarded

/-!
Groups of groups. A tree of groups is a formula over what stands at its leaves, and all leaves are
judged in one scope: wherever a record stands in the tree, its names are tolerated everywhere in it.
-/

namespace Conform

def Connective.combine : Connective → List Bool → Bool
  | and, verdicts => verdicts.all id
  | or, verdicts => verdicts.any id

namespace Connective

theorem combine_perm {verdicts verdicts' : List Bool} (connective : Connective)
    (perm : verdicts.Perm verdicts') : connective.combine verdicts = connective.combine verdicts' := by
  cases connective with
  | and => exact perm.all_eq
  | or => exact perm.any_eq

theorem combine_flatten (connective : Connective) (before inner after : List Bool) :
    connective.combine (before ++ connective.combine inner :: after) =
      connective.combine (before ++ inner ++ after) := by
  cases connective with
  | and => simp [combine, List.all_append]
  | or => simp [combine, List.any_append]

theorem combine_distribute (before alternatives after : List Bool) :
    combine and (before ++ combine or alternatives :: after) =
      combine or (alternatives.map fun alternative => combine and (before ++ alternative :: after)) := by
  induction alternatives with
  | nil => simp [combine]
  | cons first rest ih =>
      simp only [combine, List.all_append, List.all_cons, List.any_cons, List.map_cons, id] at ih ⊢
      rw [← ih]
      cases before.all id <;> cases after.all id <;> cases first <;> simp

end Connective

namespace Validator

mutual

/-- The formula of a tree of groups, when `truth` says which of its leaves hold. -/
def holds (truth : Validator → Bool) : Validator → Bool
  | group _ connective operands => connective.combine (holdEach truth operands)
  | leaf => truth leaf

def holdEach (truth : Validator → Bool) : List Validator → List Bool
  | [] => []
  | operand :: rest => holds truth operand :: holdEach truth rest

end

mutual

def leaves : Validator → List Validator
  | group _ _ operands => leavesEach operands
  | leaf => [leaf]

def leavesEach : List Validator → List Validator
  | [] => []
  | operand :: rest => leaves operand ++ leavesEach rest

end

def recordNames : Validator → List String
  | record own ancestors => levelNames (own :: ancestors)
  | _ => []

def leafNames (tree : Validator) : List String :=
  (leaves tree).flatMap recordNames

def isGroup : Validator → Bool
  | group _ _ _ => true
  | _ => false

theorem treeInduction {motive : Validator → Prop}
    (leaf : ∀ validator, validator.isGroup = false → motive validator)
    (group : ∀ node connective operands, (∀ operand ∈ operands, motive operand) →
      motive (.group node connective operands)) (validator : Validator) : motive validator := by
  induction size : validator.weight using Nat.strongRecOn generalizing validator with
  | ind _ ih =>
      cases validator with
      | group node connective operands =>
          refine group node connective operands fun operand member => ih _ ?_ operand rfl
          have lighter := weight_le_operands member
          simp only [weight] at size
          omega
      | _ => exact leaf _ rfl

section Leaves

variable {node : NodeId} {connective : Connective} {operands : List Validator} {validator : Validator}
  {truth : Validator → Bool}

theorem holds_group : holds truth (.group node connective operands) =
    connective.combine (operands.map (holds truth)) := by
  have each : ∀ operands, holdEach truth operands = operands.map (holds truth) := by
    intro operands
    induction operands with
    | nil => rfl
    | cons operand rest ih => rw [holdEach, ih, List.map_cons]
  rw [holds, each]

theorem holds_leaf (leaf : validator.isGroup = false) : holds truth validator = truth validator := by
  cases validator with
  | group => cases leaf
  | _ => rfl

theorem mem_leaves_group {leaf : Validator} :
    leaf ∈ leaves (.group node connective operands) ↔ ∃ operand ∈ operands, leaf ∈ leaves operand := by
  rw [leaves]
  induction operands with
  | nil => simp [leavesEach]
  | cons operand rest ih => simp [leavesEach, ih]

theorem leaves_leaf (leaf : validator.isGroup = false) : leaves validator = [validator] := by
  cases validator with
  | group => cases leaf
  | _ => rfl

theorem mem_offeredNames {name : String} : name ∈ offeredNames validator ↔ name ∈ leafNames validator := by
  induction validator using treeInduction with
  | leaf validator leaf =>
      rw [leafNames, leaves_leaf leaf]
      cases validator with
      | group => cases leaf
      | _ => simp [offeredNames, recordNames]
  | group node connective operands ih =>
      simp only [leafNames, List.mem_flatMap] at ih
      simp only [offeredNames, mem_groupNames, leafNames, List.mem_flatMap, mem_leaves_group]
      constructor
      · rintro ⟨operand, member, offered⟩
        obtain ⟨leaf, among, declared⟩ := (ih operand member).mp offered
        exact ⟨leaf, ⟨operand, member, among⟩, declared⟩
      · rintro ⟨leaf, ⟨operand, member, among⟩, declared⟩
        exact ⟨operand, member, (ih operand member).mpr ⟨leaf, among, declared⟩⟩

end Leaves

section Judged

variable {references : References} {scope : Scope} {value : Option Json} {passes : Bool}
  {node : NodeId} {connective : Connective} {operands : List Validator} {tree : Validator}
  {names : List String} {truth : Validator → Bool}

theorem Verdict.unique {passes' : Bool} (verdict : Verdict references scope tree value passes)
    (verdict' : Verdict references scope tree value passes') : passes' = passes := by
  obtain ⟨bound, outcome, found, rfl⟩ := verdict
  obtain ⟨bound', outcome', found', rfl⟩ := verdict'
  have first := validateWithin_of_le found (Nat.le_max_left bound bound') fun _ => rfl
  have second := validateWithin_of_le found' (Nat.le_max_right bound bound') fun _ => rfl
  cases first.symm.trans second
  rfl

theorem isSuccess_firstFailure {α : Type} {check : α → Option Outcome} (test : α → Bool)
    {items : List α} {outcome : Outcome}
    (agree : ∀ item ∈ items, ∀ found, check item = some found → found.isSuccess = test item)
    (ended : firstFailure check items = some outcome) : outcome.isSuccess = items.all test := by
  induction items with
  | nil =>
      cases ended
      rfl
  | cons item rest ih =>
      obtain ⟨first, others⟩ := List.forall_mem_cons.mp agree
      obtain ⟨found, checked, ended⟩ := Option.bind_eq_some_iff.mp ended
      have known := first found checked
      by_cases success : found.isSuccess
      · simp only [success, if_true] at ended known
        rw [List.all_cons, ← known, ih others ended, Bool.true_and]
      · simp only [success] at ended known
        cases ended
        rw [List.all_cons, ← known, Bool.false_and]
        simpa using success

theorem anySuccess_eq_any {α : Type} {check : α → Option Outcome} (test : α → Bool)
    {items : List α} {accepted : Bool}
    (agree : ∀ item ∈ items, ∀ found, check item = some found → found.isSuccess = test item)
    (ended : anySuccess check items = some accepted) : accepted = items.any test := by
  induction items with
  | nil =>
      cases ended
      rfl
  | cons item rest ih =>
      obtain ⟨first, others⟩ := List.forall_mem_cons.mp agree
      obtain ⟨found, checked, ended⟩ := Option.bind_eq_some_iff.mp ended
      have known := first found checked
      by_cases success : found.isSuccess
      · simp only [success, if_true] at ended known
        cases ended
        rw [List.any_cons, ← known, Bool.true_or]
      · simp only [success] at ended known
        rw [List.any_cons, ← known, ih others ended, Bool.false_or]

theorem Verdict.combine {test : Validator → Bool}
    (agree : ∀ operand ∈ operands, ∀ passes,
      Verdict references (groupNames operands :: scope) operand value passes → passes = test operand)
    (verdict : Verdict references scope (.group node connective operands) value passes) :
    passes = connective.combine (operands.map test) := by
  obtain ⟨bound, outcome, ended, rfl⟩ := verdict_group.mp verdict
  have known : ∀ operand ∈ operands, ∀ found,
      validateWithin references bound (groupNames operands :: scope) operand value = some found →
        found.isSuccess = test operand :=
    fun operand member found judged => agree operand member _ ⟨bound, found, judged, rfl⟩
  cases connective with
  | and =>
      have all : outcome.isSuccess = operands.zipIdx.all fun item => test item.1 := by
        refine isSuccess_firstFailure _ ?_ ended
        rintro ⟨operand, position⟩ member found judged
        obtain ⟨inner, inside, rfl⟩ := Option.map_eq_some_iff.mp judged
        rw [Outcome.isSuccess_at]
        exact (Bool.or_false _).trans (known operand (List.fst_mem_of_mem_zipIdx member) inner inside)
      have zipped : operands.map test = operands.zipIdx.map fun item => test item.1 := by
        rw [← Function.comp_def, ← List.map_map, List.zipIdx_map_fst]
      rw [all, Connective.combine, zipped, List.all_map]
      rfl
  | or =>
      rw [judgeGroup_or] at ended
      obtain ⟨accepted, judged, rfl⟩ := Option.map_eq_some_iff.mp ended
      have any : accepted = operands.any test := anySuccess_eq_any _ known judged
      rw [Connective.combine, List.any_map, Function.id_comp, ← any]
      cases accepted with
      | false => exact rejection_fails _ _
      | true => rfl

theorem exists_room {validators : List Validator}
    (each : ∀ validator ∈ validators, ∃ passes, Verdict references scope validator value passes) :
    ∃ bound, ∀ validator ∈ validators,
      (validateWithin references bound scope validator value).isSome := by
  induction validators with
  | nil => exact ⟨0, by simp⟩
  | cons first rest ih =>
      obtain ⟨⟨_, bound, outcome, found, _⟩, others⟩ := List.forall_mem_cons.mp each
      obtain ⟨room, known⟩ := ih others
      refine ⟨max bound room, List.forall_mem_cons.mpr ⟨?_, fun validator member => ?_⟩⟩
      · rw [validateWithin_of_le found (Nat.le_max_left _ _) fun _ => rfl]
        rfl
      · obtain ⟨outcome, found⟩ := Option.isSome_iff_exists.mp (known validator member)
        rw [validateWithin_of_le found (Nat.le_max_right _ _) fun _ => rfl]
        rfl

theorem exists_verdict_group (each : ∀ operand ∈ operands, ∃ passes,
      Verdict references (groupNames operands :: scope) operand value passes) :
    ∃ passes, Verdict references scope (.group node connective operands) value passes := by
  obtain ⟨bound, known⟩ := exists_room each
  have ended : answered.rel (judgeGroup (validateWithin references bound) scope connective operands value)
      (judgeGroup (validateWithin references bound) scope connective operands value) :=
    judgeGroup_compare answered connective (List.forall₂_same.mpr known) rfl
  obtain ⟨outcome, found⟩ := Option.isSome_iff_exists.mp ended
  exact ⟨_, verdict_group.mpr ⟨bound, outcome, found, rfl⟩⟩

theorem contains_inner (inside : ∀ name ∈ leafNames (.group node connective operands), name ∈ names)
    (key : String) :
    Scope.contains (groupNames operands :: names :: scope) key = Scope.contains (names :: scope) key := by
  rw [contains_cons]
  cases known : (groupNames operands).contains key with
  | false => rfl
  | true =>
      have offered : key ∈ offeredNames (.group node connective operands) := by
        simpa [offeredNames] using known
      have among : names.contains key := by simpa using inside key (mem_offeredNames.mp offered)
      rw [contains_cons, among]
      rfl

theorem leafNames_operand {operand : Validator} (member : operand ∈ operands) :
    ∀ name ∈ leafNames operand, name ∈ leafNames (.group node connective operands) := by
  intro name declared
  rw [← mem_offeredNames] at declared ⊢
  exact mem_groupNames.mpr ⟨operand, member, declared⟩

theorem eq_holds_within (inside : ∀ name ∈ leafNames tree, name ∈ names)
    (agree : ∀ leaf ∈ leaves tree, ∀ passes, Verdict references (names :: scope) leaf value passes →
      passes = truth leaf)
    (verdict : Verdict references (names :: scope) tree value passes) : passes = holds truth tree := by
  induction tree using treeInduction generalizing passes with
  | leaf tree leaf =>
      rw [leaves_leaf leaf] at agree
      rw [holds_leaf leaf]
      exact agree tree (by simp) passes verdict
  | group node connective operands ih =>
      rw [holds_group]
      refine verdict.combine fun operand member passes judged => ?_
      refine ih operand member (fun name declared => inside name (leafNames_operand member name declared))
        (fun leaf among => agree leaf (mem_leaves_group.mpr ⟨operand, member, among⟩)) ?_
      exact judged.of_same (contains_inner inside)

theorem exists_verdict (inside : ∀ name ∈ leafNames tree, name ∈ names)
    (each : ∀ leaf ∈ leaves tree, ∃ passes, Verdict references (names :: scope) leaf value passes) :
    ∃ passes, Verdict references (names :: scope) tree value passes := by
  induction tree using treeInduction with
  | leaf tree leaf =>
      rw [leaves_leaf leaf] at each
      exact each tree (by simp)
  | group node connective operands ih =>
      refine exists_verdict_group fun operand member => ?_
      obtain ⟨passes, verdict⟩ := ih operand member
        (fun name declared => inside name (leafNames_operand member name declared))
        fun leaf among => each leaf (mem_leaves_group.mpr ⟨operand, member, among⟩)
      exact ⟨passes, verdict.of_same fun key => (contains_inner inside key).symm⟩

/-- A tree tolerates the names of its leaves anyway. -/
theorem verdict_leafNames : Verdict references (leafNames tree :: scope) tree value passes ↔
    Verdict references scope tree value passes :=
  (Indifferent.offers fun _ declared => mem_offeredNames.mpr declared).verdict

end Judged

inductive Distributed : List Validator → Validator → Validator → Prop where
  | distribute (node inner outer : NodeId) (before after : List Validator)
      {alternatives distributed : List Validator}
      (each : List.Forall₂ (fun alternative operand => ∃ node,
        operand = .group node .and (before ++ alternative :: after)) alternatives distributed) :
      Distributed alternatives (.group node .and (before ++ .group inner .or alternatives :: after))
        (.group outer .or distributed)

inductive Rearranged : Validator → Validator → Prop where
  | refl (tree : Validator) : Rearranged tree tree
  | symm {tree other : Validator} (rearranged : Rearranged tree other) : Rearranged other tree
  | trans {tree middle other : Validator} (first : Rearranged tree middle)
      (second : Rearranged middle other) : Rearranged tree other
  | inside (node node' : NodeId) (connective : Connective) (before after : List Validator)
      {operand operand' : Validator} (rearranged : Rearranged operand operand') :
      Rearranged (.group node connective (before ++ operand :: after))
        (.group node' connective (before ++ operand' :: after))
  | reorder (node node' : NodeId) (connective : Connective) {operands operands' : List Validator}
      (perm : operands.Perm operands') :
      Rearranged (.group node connective operands) (.group node' connective operands')
  | flatten (node inner node' : NodeId) (connective : Connective)
      (before operands after : List Validator) :
      Rearranged (.group node connective (before ++ .group inner connective operands :: after))
        (.group node' connective (before ++ operands ++ after))
  -- Without alternatives nothing is left of `before` and `after`.
  | distribute {alternatives : List Validator} {tree other : Validator}
      (nonempty : alternatives ≠ []) (distributed : Distributed alternatives tree other) :
      Rearranged tree other

section Arrangement

variable {alternatives distributed before after : List Validator} {tree other leaf : Validator}
  {truth : Validator → Bool} {names : List String}

theorem mem_leaves_distributed
    (each : List.Forall₂ (fun alternative operand => ∃ node,
      operand = .group node .and (before ++ alternative :: after)) alternatives distributed) :
    (∃ operand ∈ distributed, leaf ∈ leaves operand) ↔
      ∃ alternative ∈ alternatives, ∃ operand ∈ before ++ alternative :: after, leaf ∈ leaves operand := by
  induction each with
  | nil => simp
  | cons same _ ih =>
      obtain ⟨node, rfl⟩ := same
      simp only [List.exists_mem_cons_iff, ih, mem_leaves_group]

theorem Distributed.mem_leaves (nonempty : alternatives ≠ [])
    (distributed : Distributed alternatives tree other) : leaf ∈ leaves tree ↔ leaf ∈ leaves other := by
  obtain ⟨_, _, _, before, after, each⟩ := distributed
  obtain ⟨first, rest, rfl⟩ := List.exists_cons_of_ne_nil nonempty
  rw [mem_leaves_group, mem_leaves_group, mem_leaves_distributed each]
  simp only [List.mem_append, List.mem_cons, or_and_right, exists_or, exists_eq_left, mem_leaves_group]
  grind

theorem map_holds_distributed
    (each : List.Forall₂ (fun alternative operand => ∃ node,
      operand = .group node .and (before ++ alternative :: after)) alternatives distributed) :
    distributed.map (holds truth) = (alternatives.map (holds truth)).map fun alternative =>
      Connective.and.combine (before.map (holds truth) ++ alternative :: after.map (holds truth)) := by
  induction each with
  | nil => rfl
  | cons same _ ih =>
      obtain ⟨node, rfl⟩ := same
      simp only [List.map_cons, ih, holds_group, List.map_append]

theorem Distributed.holds_eq (distributed : Distributed alternatives tree other) :
    holds truth tree = holds truth other := by
  obtain ⟨_, _, _, before, after, each⟩ := distributed
  rw [holds_group, holds_group, map_holds_distributed each, List.map_append, List.map_cons, holds_group,
    Connective.combine_distribute]

theorem Rearranged.mem_leaves (rearranged : Rearranged tree other) :
    leaf ∈ leaves tree ↔ leaf ∈ leaves other := by
  induction rearranged with
  | refl tree => exact .rfl
  | symm _ ih => exact ih.symm
  | trans _ _ first second => exact first.trans second
  | inside _ _ _ before after _ ih =>
      simp only [mem_leaves_group, List.mem_append, List.mem_cons, or_and_right, exists_or,
        exists_eq_left, ih]
  | reorder _ _ _ perm => simp only [mem_leaves_group, perm.mem_iff]
  | flatten _ _ _ _ before operands after =>
      simp only [mem_leaves_group, List.mem_append, List.mem_cons, or_and_right, exists_or,
        exists_eq_left, or_assoc]
  | distribute nonempty distributed => exact distributed.mem_leaves nonempty

theorem Rearranged.holds_eq (rearranged : Rearranged tree other) :
    holds truth tree = holds truth other := by
  induction rearranged with
  | refl tree => rfl
  | symm _ ih => exact ih.symm
  | trans _ _ first second => exact first.trans second
  | inside _ _ _ before after _ ih => simp only [holds_group, List.map_append, List.map_cons, ih]
  | reorder _ _ connective perm =>
      rw [holds_group, holds_group, connective.combine_perm (perm.map (holds truth))]
  | flatten _ _ _ connective before operands after =>
      simp only [holds_group, List.map_append, List.map_cons, connective.combine_flatten]
  | distribute _ distributed => exact distributed.holds_eq

theorem Rearranged.mem_leafNames {name : String} (rearranged : Rearranged tree other) :
    name ∈ leafNames tree ↔ name ∈ leafNames other := by
  simp only [leafNames, List.mem_flatMap, rearranged.mem_leaves]

end Arrangement

section Formula

variable {references : References} {scope : Scope} {value : Option Json} {passes passes' : Bool}
  {tree other : Validator} {alternatives : List Validator}

theorem exists_truth (references : References) (scope : Scope) (value : Option Json) :
    ∃ truth : Validator → Bool, ∀ validator passes,
      Verdict references scope validator value passes → passes = truth validator := by
  classical
  refine ⟨fun validator => decide (Verdict references scope validator value true),
    fun validator passes verdict => ?_⟩
  cases passes with
  | true => exact (decide_eq_true verdict).symm
  | false =>
      refine (decide_eq_false fun verdict' => ?_).symm
      cases verdict.unique verdict'

/-- A tree comes to its formula over the verdicts in the scope that its leaves share. -/
theorem Verdict.eq_holds {truth : Validator → Bool}
    (agree : ∀ leaf ∈ leaves tree, ∀ passes,
      Verdict references (leafNames tree :: scope) leaf value passes → passes = truth leaf)
    (verdict : Verdict references scope tree value passes) : passes = holds truth tree :=
  eq_holds_within (fun _ declared => declared) agree (verdict_leafNames.mpr verdict)

theorem Rearranged.same_verdict (rearranged : Rearranged tree other)
    (verdict : Verdict references scope tree value passes)
    (verdict' : Verdict references scope other value passes') : passes' = passes := by
  obtain ⟨truth, known⟩ := exists_truth references (leafNames tree :: scope) value
  have same (key : String) : Scope.contains (leafNames other :: scope) key =
      Scope.contains (leafNames tree :: scope) key := by
    have among : (leafNames other).contains key = (leafNames tree).contains key := by
      rw [Bool.eq_iff_iff, List.contains_iff_mem, List.contains_iff_mem, rearranged.mem_leafNames]
    rw [contains_cons, contains_cons, among]
  rw [verdict.eq_holds fun leaf _ passes judged => known leaf passes judged, rearranged.holds_eq]
  exact verdict'.eq_holds fun leaf _ passes judged => known leaf passes (judged.of_same same)

theorem Distributed.same_verdict (distributed : Distributed alternatives tree other)
    (verdict : Verdict references scope tree value passes)
    (verdict' : Verdict references scope other value passes') : passes' = passes := by
  cases alternatives with
  | cons first rest =>
      exact (Rearranged.distribute (List.cons_ne_nil first rest) distributed).same_verdict verdict
        verdict'
  | nil =>
      -- The scopes may differ, but neither group has anything to accept the value.
      obtain ⟨truth, known⟩ := exists_truth references (leafNames tree :: scope) value
      obtain ⟨truth', known'⟩ := exists_truth references (leafNames other :: scope) value
      rw [verdict.eq_holds fun leaf _ passes judged => known leaf passes judged, distributed.holds_eq,
        verdict'.eq_holds fun leaf _ passes judged => known' leaf passes judged]
      obtain ⟨_, _, _, before, after, ⟨⟩⟩ := distributed
      rw [holds_group, holds_group]
      rfl

/-- A tree of groups accepts what its formula accepts, when each leaf says what it says by itself in
the one scope of all names in the tree. What other groups with the same leaves accept is the same. -/
theorem tree_verdict (references : References) (scope : Scope) (tree : Validator) (value : Option Json) :
    (∀ passes, Verdict references scope tree value passes →
      ∀ truth : Validator → Bool,
        (∀ leaf ∈ leaves tree, ∀ verdict,
          Verdict references (leafNames tree :: scope) leaf value verdict → verdict = truth leaf) →
        passes = holds truth tree) ∧
    ((∀ leaf ∈ leaves tree, ∃ verdict, Verdict references (leafNames tree :: scope) leaf value verdict) →
      ∃ passes, Verdict references scope tree value passes) ∧
    ∀ other, Rearranged tree other ∨ (∃ alternatives, Distributed alternatives tree other) →
      ∀ passes passes', Verdict references scope tree value passes →
        Verdict references scope other value passes' → passes' = passes := by
  refine ⟨fun passes verdict truth agree => verdict.eq_holds agree, fun each => ?_, ?_⟩
  · obtain ⟨passes, verdict⟩ := exists_verdict (fun _ declared => declared) each
    exact ⟨passes, verdict_leafNames.mp verdict⟩
  · rintro other (rearranged | ⟨_, distributed⟩) passes passes' verdict verdict'
    · exact rearranged.same_verdict verdict verdict'
    · exact distributed.same_verdict verdict verdict'

def named (node : NodeId) (name : String) : Validator :=
  .record ⟨node, none, [⟨name, true, false, .primitive .any⟩], none⟩ []

def both : Option Json :=
  some (.object [("y", .null), ("x", .null)])

theorem tree_verdict_distributed :
    let tree := Validator.group 0 .and [named 1 "x", .group 2 .or [named 3 "y", .primitive .null]]
    let other := Validator.group 0 .or
      [.group 1 .and [named 1 "x", named 3 "y"], .group 2 .and [named 1 "x", .primitive .null]]
    leafNames tree = ["x", "y"] ∧ (∃ passes, Verdict [] [] tree both passes) ∧
      holds (fun leaf => !leaf.isGroup && leaf.kindName == "record") tree = true ∧
      ∀ passes, Verdict [] [] other both passes → passes = true := by
  intro tree other
  obtain ⟨formula, ended, same⟩ := tree_verdict [] [] tree both
  have each : ∀ leaf ∈ leaves tree, Verdict [] (leafNames tree :: []) leaf both
      (!leaf.isGroup && leaf.kindName == "record") := by
    intro leaf among
    have known : leaf = named 1 "x" ∨ leaf = named 3 "y" ∨ leaf = .primitive .null := by
      simpa [tree, leaves, leavesEach, named] using among
    rcases known with rfl | rfl | rfl
    · exact ⟨2, _, rfl, rfl⟩
    · exact ⟨2, _, rfl, rfl⟩
    · exact ⟨2, _, rfl, rfl⟩
  obtain ⟨passes, verdict⟩ := ended fun leaf among => ⟨_, each leaf among⟩
  have accepted : passes = true :=
    formula passes verdict _ fun leaf among _ judged => (each leaf among).unique judged
  subst accepted
  refine ⟨rfl, ⟨true, verdict⟩, rfl, fun passes verdict' => ?_⟩
  refine same other (.inr ⟨[named 3 "y", .primitive .null], ?_⟩) true passes verdict verdict'
  exact .distribute 0 2 0 [named 1 "x"] [] (.cons ⟨1, rfl⟩ (.cons ⟨2, rfl⟩ .nil))

/-- Distributing over a union without operands takes the names of the other operands away. -/
theorem distributed_away :
    let inner := Validator.group 0 .and [named 1 "x", .group 2 .or []]
    let distributed := Validator.group 3 .or []
    Distributed [] inner distributed ∧
      Verdict [] [] (.group 4 .or [named 5 "y", inner]) both true ∧
      Verdict [] [] (.group 4 .or [named 5 "y", distributed]) both false :=
  ⟨.distribute 0 2 3 [named 1 "x"] [] .nil, ⟨4, _, rfl, rfl⟩, ⟨4, _, rfl, rfl⟩⟩

end Formula

end Validator

end Conform
