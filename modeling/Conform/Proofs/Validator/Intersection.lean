import Conform.Proofs.Validator.Inheritance
import Conform.Proofs.Validator.Scopes

/-!
Extending a record and intersecting with it. The two share names by different means, a scope from the
child to the parent and the names of a group, and come to the same checks in the same order.
-/

namespace Conform

theorem andThen_wrapped (field field' : String) (first second : Option Outcome) :
    andThen (first.map (Outcome.at .logicFalse field))
        (andThen (second.map (Outcome.at .logicFalse field')) (some .success)) =
      (andThen first second).map
        (Outcome.at .logicFalse (if first.any (·.isSuccess) then field' else field)) := by
  rcases first with _ | outcome
  · rfl
  · by_cases success : outcome.isSuccess
    · rcases second with _ | outcome'
      · simp [andThen, Outcome.isSuccess_at, success]
      · by_cases success' : outcome'.isSuccess
        · simp [andThen, Outcome.at, success, success']
        · simp [andThen, Outcome.isSuccess_at, success, success']
    · simp [andThen, Outcome.isSuccess_at, success]

namespace Validator

section Intersection

variable {own alone parent : Level Validator} {further : List (Level Validator)} {scope : Scope}

theorem contains_intersection (fields : alone.fields = own.fields) (key : String) :
    Scope.contains (groupNames [.record parent further, .record alone []] :: scope) key =
      Scope.contains (levelNames (own :: parent :: further) :: scope) key := by
  have names : (groupNames [.record parent further, .record alone []]).contains key =
      (levelNames (own :: parent :: further)).contains key := by
    rw [Bool.eq_iff_iff, contains_levelNames]
    simp only [List.contains_eq_mem, decide_eq_true_eq, mem_groupNames, List.mem_cons,
      List.not_mem_nil, or_false, exists_eq_or_imp, exists_eq_left, offeredNames]
    simp only [← List.contains_iff_mem, contains_levelNames, declares, List.any_cons, List.any_nil,
      fields, Bool.or_false, Bool.or_eq_true]
    exact or_comm
  rw [contains_cons, contains_cons, names]

theorem judgeLevels_alone {below : Judgement} {entries : List (String × Json)}
    (fields : alone.fields = own.fields) (index : alone.index = own.index)
    (names : ∀ key, declares [own] key → scope.contains key) :
    judgeLevels below scope alone [] entries = judgeLevel below scope own entries := by
  have tolerated : Scope.contains (levelNames [alone] :: scope) = scope.contains := by
    funext key
    rw [contains_cons, contains_levelNames]
    cases known : declares [alone] key with
    | false => rfl
    | true =>
        have declared : declares [own] key := by simpa [declares, fields] using known
        rw [names key declared]
        rfl
  have checks : levelChecks scope.contains entries alone = levelChecks scope.contains entries own := by
    simp only [levelChecks, fields, index]
  rw [judgeLevels, judgeLevel_eq_firstFailure, judgeLevel_eq_firstFailure, tolerated, checks]

/-- A record passes what its parent passes and what it adds by itself. -/
theorem extends_eq_andThen (references : References) (bound : Nat) (value : Option Json)
    (fields : alone.fields = own.fields) (index : alone.index = own.index) :
    validateWithin references (bound + 1) scope (.record own (parent :: further)) value =
      andThen
        (validateWithin references (bound + 1) (levelNames (own :: parent :: further) :: scope)
          (.record parent further) value)
        (validateWithin references (bound + 1) (levelNames (own :: parent :: further) :: scope)
          (.record alone []) value) := by
  have names (key : String) (known : declares [own] key) :
      Scope.contains (levelNames (own :: parent :: further) :: scope) key := by
    rw [contains_cons, contains_levelNames]
    simp only [declares, List.any_cons, List.any_nil, Bool.or_false] at known ⊢
    simp [known]
  cases value with
  | none => rfl
  | some value =>
      cases value with
      | object entries =>
          simp only [validateWithin, judge]
          rw [judgeLevels_alone fields index names, judgeLevels]
          rfl
      | _ => rfl

end Intersection

/-- To extend a record is to intersect with it. The record that extends `parent` fails with what
`parent` fails with, and where that passes, with what its own part fails with; the intersection wraps
that very failure at the first operand in the one case, and at the second in the other. -/
theorem extends_intersection (references : References) (bound : Nat) (scope : Scope)
    (own parent : Level Validator) (further : List (Level Validator)) (group node : NodeId)
    (name : Option String) (value : Option Json) :
    let alone := { own with node := node, name := name }
    let shared := levelNames (own :: parent :: further) :: scope
    let inherited := validateWithin references (bound + 1) shared (.record parent further) value
    let added := validateWithin references (bound + 1) shared (.record alone []) value
    let extended := validateWithin references (bound + 1) scope (.record own (parent :: further)) value
    extended = (if inherited.any (·.isSuccess) then added else inherited) ∧
      validateWithin references (bound + 2) scope
          (.group group .and [.record parent further, .record alone []]) value =
        extended.map (Outcome.at .logicFalse
          (if inherited.any (·.isSuccess) then "<Condition1>" else "<Condition0>")) := by
  intro alone shared inherited added extended
  have parts : extended = andThen inherited added := extends_eq_andThen references bound value rfl rfl
  have inGroup (operand : Validator) : validateWithin references (bound + 1) shared operand value =
      validateWithin references (bound + 1)
        (groupNames [.record parent further, .record alone []] :: scope) operand value :=
    (validateWithin_of_same (contains_intersection rfl)).symm
  have intersection : validateWithin references (bound + 2) scope
      (.group group .and [.record parent further, .record alone []]) value =
        andThen (inherited.map (Outcome.at .logicFalse "<Condition0>"))
          (andThen (added.map (Outcome.at .logicFalse "<Condition1>")) (some .success)) := by
    rw [show inherited = _ from inGroup _, show added = _ from inGroup _]
    rfl
  rw [intersection, andThen_wrapped, parts]
  refine ⟨?_, rfl⟩
  cases inherited with
  | none => rfl
  | some outcome => rfl

end Validator

end Conform
