import Conform.Proofs.Validator.Comparison
import Conform.Proofs.Validator.Parts

/-!
How deeply judgements nest. An outcome comes from what a validator reaches alone, and once there is
one, more room for nesting does not change it.
-/

namespace Conform.Validator

theorem alike_self (references : References) {validator : Validator}
    (built : ∀ name cell, validator ≠ .deferred name cell) :
    Alike (fun part part' => part' = part ∧ Part references validator part) validator validator := by
  cases validator with
  | primitive kind => exact .primitive kind
  | array node element => exact .array node node ⟨rfl, .element⟩
  | group node connective operands =>
      exact .group node node connective
        (List.forall₂_same.mpr fun operand member => ⟨rfl, .operand member⟩) rfl rfl
  | record own ancestors =>
      refine .record (List.forall₂_same.mpr fun level among => ⟨?_, ?_⟩)
      · exact List.forall₂_same.mpr fun field member => ⟨rfl, rfl, rfl, rfl, .field among member⟩
      · cases found : level.index with
        | none => exact .none
        | some index => exact .some ⟨rfl, .index among found⟩
  | deferred name cell => exact absurd rfl (built name cell)

/-- Only the references that a validator reaches are followed when it is judged. -/
theorem validateWithin_congr {references others : References} (bound : Nat) {validator : Validator}
    (agree : ∀ name cell, Reaches references validator (.deferred name cell) →
      others.target? cell = references.target? cell) (scope : Scope) (value : Option Json) :
    validateWithin others bound scope validator value =
      validateWithin references bound scope validator value := by
  induction bound generalizing scope validator value with
  | zero => rfl
  | succ bound ih =>
      have parts {part : Validator} (part_of : Part references validator part) (scope : Scope)
          (value : Option Json) : validateWithin others bound scope part value =
            validateWithin references bound scope part value :=
        ih (fun name cell reaches => agree name cell (.head part_of reaches)) scope value
      cases validator with
      | deferred name cell =>
          simp only [validateWithin, judge, agree name cell .refl]
          split
          · rename_i target filled
            exact parts (.target filled) scope value
          · rfl
      | _ =>
          refine (judge_compare .equal references others (alike_self references (by simp))
            (.of_same _ fun _ => rfl) ?_ ?_).symm
          · rintro _ _ operands _ part _ ⟨rfl, part_of⟩
            exact (parts part_of (groupNames operands :: scope) value).symm
          · rintro part _ item ⟨rfl, part_of⟩ _
            exact (parts part_of [] (some item)).symm

/-- Results with fewer names and less room compare to those with more, in every way to compare in
which the first result may be missing. The second may be, where there is less room for it. -/
theorem validateWithin_compare (references : References) (compare : Comparison)
    (missing : ∀ result, compare.rel none result) {bound bound' : Nat}
    (room : bound ≤ bound' ∨ ∀ result, compare.rel result none) {scope scope' : Scope}
    (widens : compare.Widens scope scope') (validator : Validator) (value : Option Json) :
    compare.rel (validateWithin references bound scope validator value)
      (validateWithin references bound' scope' validator value) := by
  induction bound generalizing bound' scope scope' validator value with
  | zero => exact missing _
  | succ bound ih =>
      cases bound' with
      | zero =>
          rcases room with less | absent
          · omega
          · exact absent _
      | succ bound' =>
          have room' : bound ≤ bound' ∨ ∀ result, compare.rel result none := by
            simpa using room
          cases validator with
          | deferred name cell =>
              simp only [validateWithin, judge]
              split
              · exact ih room' widens _ value
              · exact compare.same _
          | _ =>
              refine judge_compare compare references references (alike_self references (by simp))
                widens ?_ ?_
              · rintro _ _ operands _ part _ ⟨rfl, _⟩
                exact ih room' (widens.push _) _ value
              · rintro part _ item ⟨rfl, _⟩ _
                exact ih room' (.of_same _ fun _ => rfl) _ (some item)

/-- An outcome stays what it is when there is more room, and names that are tolerated anyway. -/
theorem validateWithin_of_le {references : References} {bound bound' : Nat} {scope scope' : Scope}
    {validator : Validator} {value : Option Json} {outcome : Outcome}
    (found : validateWithin references bound scope validator value = some outcome)
    (more : bound ≤ bound') (same : ∀ key, scope.contains key = scope'.contains key) :
    validateWithin references bound' scope' validator value = some outcome := by
  have onward := validateWithin_compare references .onward (fun _ => .inl rfl) (.inl more)
    (.of_same _ same) validator value
  rw [found] at onward
  exact onward.resolve_left (by simp)

theorem validateWithin_eq_none_of_le {references : References} {bound bound' : Nat} {scope scope' : Scope}
    {validator : Validator} {value : Option Json}
    (missing : validateWithin references bound' scope' validator value = none) (more : bound ≤ bound')
    (same : ∀ key, scope.contains key = scope'.contains key) :
    validateWithin references bound scope validator value = none := by
  cases found : validateWithin references bound scope validator value with
  | none => rfl
  | some outcome =>
      rw [validateWithin_of_le found more same] at missing
      cases missing

end Conform.Validator
