import Conform.Proofs.Validator.Scopes

/-!
References in groups. A group is judged by the verdicts on its operands, and a reference among them
is judged as what it stands for; but only what is there when the group is built offers its names to
the other operands.
-/

namespace Conform.Validator

variable {references : References} {scope scope' : Scope} {value : Option Json} {passes : Bool}
  {node node' : NodeId} {connective : Connective}

theorem rejection_fails (connective : Connective) (operands : List Validator) :
    (rejection connective operands).isSuccess = false := by
  unfold rejection
  split <;> rfl

theorem validateWithin_literal {operand : Validator} (literal : operand.isLiteral)
    (other : isString value = false) (bound : Nat) :
    validateWithin references (bound + 1) scope operand value = some (.leaf .notString) := by
  unfold isLiteral at literal
  split at literal
  · rename_i kind
    unfold Primitive.isLiteral at literal
    split at literal
    · simp only [validateWithin, judge]
      unfold Primitive.judge
      split <;> simp_all [isString]
    · cases literal
  · cases literal

theorem anySuccess_literals {operands : List Validator} (literals : operands.all isLiteral)
    (other : isString value = false) (bound : Nat) :
    anySuccess (fun operand => validateWithin references (bound + 1) scope operand value) operands =
      some false := by
  induction operands with
  | nil => rfl
  | cons operand rest ih =>
      simp only [List.all_cons, Bool.and_eq_true] at literals
      have rejected : validateWithin references (bound + 1) scope operand value =
          some (.leaf .notString) := validateWithin_literal literals.1 other bound
      simp only [anySuccess, rejected]
      exact ih literals.2

theorem verdict_enum {operands : List Validator}
    (early : isEnum connective operands && !isString value) :
    Verdict references scope (.group node connective operands) value passes ↔ passes = false := by
  have judged (bound : Nat) : validateWithin references (bound + 1) scope
      (.group node connective operands) value = some (.leaf .notString) := by
    simp only [validateWithin, judge, early, if_true]
  constructor
  · rintro ⟨bound, outcome, found, rfl⟩
    cases bound with
    | zero => cases found
    | succ bound =>
        rw [judged bound] at found
        cases found
        rfl
  · rintro rfl
    exact ⟨1, _, judged 0, rfl⟩

theorem judgeGroup_enum {operands : List Validator}
    (early : isEnum connective operands && !isString value) :
    (∃ bound outcome, judgeGroup (validateWithin references bound) scope connective operands value =
      some outcome ∧ outcome.isSuccess = passes) ↔ passes = false := by
  simp only [isEnum, Bool.and_eq_true, beq_iff_eq, Bool.not_eq_true', List.isEmpty_eq_false_iff]
    at early
  obtain ⟨⟨⟨rfl, nonempty⟩, literals⟩, other⟩ := early
  have judged (bound : Nat) : judgeGroup (validateWithin references (bound + 1)) scope .or operands
      value = some (rejection .or operands) := by
    rw [judgeGroup_or, anySuccess_literals literals other bound]
    rfl
  constructor
  · rintro ⟨bound, outcome, found, rfl⟩
    cases bound with
    | zero =>
        obtain ⟨first, rest, rfl⟩ := List.exists_cons_of_ne_nil nonempty
        cases found
    | succ bound =>
        rw [judged bound] at found
        cases found
        exact rejection_fails _ _
  · rintro rfl
    exact ⟨1, _, judged 0, rejection_fails _ _⟩

theorem verdict_group {operands : List Validator} :
    Verdict references scope (.group node connective operands) value passes ↔
      ∃ bound outcome, judgeGroup (validateWithin references bound) scope connective operands value =
        some outcome ∧ outcome.isSuccess = passes := by
  by_cases early : isEnum connective operands && !isString value
  · exact (verdict_enum early).trans (judgeGroup_enum early).symm
  · constructor
    · rintro ⟨bound, outcome, found, rfl⟩
      cases bound with
      | zero => cases found
      | succ bound =>
          simp only [validateWithin, judge, early, if_false, Bool.false_eq_true] at found
          exact ⟨bound, outcome, found, rfl⟩
    · rintro ⟨bound, outcome, found, rfl⟩
      refine ⟨bound + 1, outcome, ?_, rfl⟩
      simpa only [validateWithin, judge, early, if_false, Bool.false_eq_true] using found

theorem exists_bound {operands operands' : List Validator} (bound : Nat)
    (related : List.Forall₂ (fun part part' => ∀ passes, Verdict references scope part value passes →
      Verdict references scope' part' value passes) operands operands') :
    ∃ bound', List.Forall₂ (fun part part' => Comparison.verdict.rel
      (validateWithin references bound scope part value)
      (validateWithin references bound' scope' part' value)) operands operands' := by
  induction related with
  | nil => exact ⟨0, .nil⟩
  | @cons part part' rest rest' first _ ih =>
      obtain ⟨room, others⟩ := ih
      cases judged : validateWithin references bound scope part value with
      | none =>
          refine ⟨room, .cons ?_ others⟩
          rintro outcome found
          rw [judged] at found
          cases found
      | some outcome =>
          obtain ⟨room', outcome', found', agree⟩ := first _ ⟨bound, outcome, judged, rfl⟩
          -- An outcome within a smaller bound is one within the larger.
          refine ⟨max room room', .cons ?_ (others.imp fun other other' kept outcome found => ?_)⟩
          · rintro known found
            rw [judged] at found
            cases found
            exact ⟨outcome', validateWithin_of_le found' (Nat.le_max_right _ _) fun _ => rfl, agree⟩
          · obtain ⟨outcome', found', agree⟩ := kept outcome found
            exact ⟨outcome', validateWithin_of_le found' (Nat.le_max_left _ _) fun _ => rfl, agree⟩

theorem Verdict.group {operands operands' : List Validator}
    (related : List.Forall₂ (fun part part' => ∀ passes,
      Verdict references (groupNames operands :: scope) part value passes →
        Verdict references (groupNames operands' :: scope') part' value passes) operands operands')
    (verdict : Verdict references scope (.group node connective operands) value passes) :
    Verdict references scope' (.group node' connective operands') value passes := by
  obtain ⟨bound, outcome, found, rfl⟩ := verdict_group.mp verdict
  obtain ⟨bound', operand⟩ := exists_bound bound related
  have rejections : Comparison.verdict.rel (some (rejection .or operands))
      (some (rejection .or operands')) := by
    rintro outcome known
    cases known
    exact ⟨_, rfl, by rw [rejection_fails, rejection_fails]⟩
  obtain ⟨outcome', found', agree⟩ := judgeGroup_compare .verdict connective operand rejections outcome found
  exact verdict_group.mpr ⟨bound', outcome', found', agree⟩

theorem verdict_group_congr {operands operands' : List Validator}
    (related : List.Forall₂ (fun part part' => ∀ passes,
      Verdict references (groupNames operands :: scope) part value passes ↔
        Verdict references (groupNames operands' :: scope') part' value passes) operands operands') :
    Verdict references scope (.group node connective operands) value passes ↔
      Verdict references scope' (.group node' connective operands') value passes :=
  ⟨.group (related.imp fun _ _ same passes => (same passes).mp),
    .group (related.flip.imp fun _ _ same passes => (same passes).mpr)⟩

section Reference

variable {before after : List Validator} {name : String} {cell : CellId} {target : Validator}

theorem contains_target (key : String) :
    Scope.contains (groupNames (before ++ target :: after) :: scope) key =
      Scope.contains (groupNames (before ++ .deferred name cell :: after) ::
        offeredNames target :: scope) key := by
  rw [Bool.eq_iff_iff]
  simp only [contains_cons, Bool.or_eq_true, List.contains_eq_mem, decide_eq_true_eq,
    mem_groupNames, List.mem_append, List.mem_cons]
  simp only [or_and_right, exists_or, exists_eq_left, offeredNames, List.not_mem_nil, false_or]
  grind

/-- A group with what the reference stands for in its place has the verdicts that the group with the
reference has where the names that it should offer are tolerated already. -/
theorem verdict_target (filled : references.target? cell = some target) :
    Verdict references scope (.group node' connective (before ++ target :: after)) value passes ↔
      Verdict references (offeredNames target :: scope)
        (.group node connective (before ++ .deferred name cell :: after)) value passes := by
  refine verdict_group_congr (List.rel_append ?_ (.cons ?_ ?_))
  · exact List.forall₂_same.mpr fun operand _ passes => verdict_congr contains_target
  · exact fun passes => (verdict_congr contains_target).trans (verdict_deferred filled).symm
  · exact List.forall₂_same.mpr fun operand _ passes => verdict_congr contains_target

theorem indifferent_reference (filled : references.target? cell = some target) :
    Indifferent references (offeredNames target) (.deferred name cell) :=
  .deferred filled (.offers fun _ member => member)

theorem verdict_target_of_indifferent (filled : references.target? cell = some target)
    (siblings : ∀ operand ∈ before ++ after, Indifferent references (offeredNames target) operand) :
    Verdict references scope (.group node' connective (before ++ target :: after)) value passes ↔
      Verdict references scope (.group node connective (before ++ .deferred name cell :: after)) value
        passes := by
  have parts : ∀ operand ∈ before ++ .deferred name cell :: after,
      Indifferent references (offeredNames target) operand := by
    intro operand member
    rcases List.mem_append.mp member with earlier | later
    · exact siblings operand (List.mem_append_left _ earlier)
    · rcases List.mem_cons.mp later with rfl | later
      · exact indifferent_reference filled
      · exact siblings operand (List.mem_append_right _ later)
  exact (verdict_target filled).trans (Indifferent.group node connective parts).verdict

end Reference

end Conform.Validator
