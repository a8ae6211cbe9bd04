import Conform.Proofs.Validator.Optional

/-!
Wider scopes. A judgement heeds its scope as a set of names, and the more names there are in it, the more
values pass. So a union accepts what one of its operands accepts by itself, however deep in other unions
the operand is.
-/

namespace Conform.Validator

theorem refused_of_anySuccess {α : Type} {check : α → Option Outcome} {items : List α}
    (ended : anySuccess check items = some false) :
    ∀ item ∈ items, ∃ outcome, check item = some outcome ∧ outcome.isSuccess = false := by
  induction items with
  | nil => simp
  | cons first rest ih =>
      obtain ⟨outcome, judged, onward⟩ := Option.bind_eq_some_iff.mp ended
      by_cases success : outcome.isSuccess
      · simp [success] at onward
      · simp only [success] at onward
        rw [List.forall_mem_cons]
        exact ⟨⟨outcome, judged, by simpa using success⟩, ih onward⟩

variable {references : References} {scope scope' : Scope} {validator whole : Validator}
  {value : Option Json} {passes : Bool}

theorem Verdict.refused {node : NodeId} {operands : List Validator}
    (verdict : Verdict references scope (.group node .or operands) value false) :
    ∀ operand ∈ operands, Verdict references (groupNames operands :: scope) operand value false := by
  intro operand member
  obtain ⟨bound, judged⟩ := verdict_union.mp verdict
  exact ⟨bound, refused_of_anySuccess judged operand member⟩

theorem Guarded.exists_verdict (guarded : Guarded references validator) :
    ∃ passes, Verdict references scope validator value passes := by
  obtain ⟨outcome, found⟩ := Option.isSome_iff_exists.mp (validateIn_isSome guarded scope value)
  exact ⟨outcome.isSuccess, _, outcome, found, rfl⟩

inductive Alternative (validator : Validator) : Validator → Prop where
  | itself : Alternative validator validator
  | union (node : NodeId) {operands : List Validator} {operand : Validator}
      (member : operand ∈ operands) (inside : Alternative validator operand) :
      Alternative validator (.group node .or operands)

theorem Alternative.accepts (alternative : Alternative validator whole)
    (verdict : Verdict references scope validator value true)
    (wider : ∀ key, scope.contains key → scope'.contains key)
    (verdict' : Verdict references scope' whole value passes) : passes = true := by
  induction alternative generalizing scope' passes with
  | itself => exact verdict.wider wider verdict'
  | union node member _ ih =>
      by_cases rejected : passes = false
      · -- Then the operand rejects the value too, in a scope that is still wider.
        subst rejected
        refine ih ?_ (verdict'.refused _ member)
        intro key tolerated
        rw [contains_cons, wider key tolerated, Bool.or_true]
      · simpa using rejected

/-- Scopes with the same names give the same outcome. What passes in a scope does not fail in a wider one,
neither by itself nor as an operand of unions, and where the whole is guarded it passes. -/
theorem scope_relaxes (references : References) (validator : Validator) (value : Option Json)
    (scope scope' : Scope) :
    ((∀ key, scope.contains key = scope'.contains key) → ∀ bound,
      validateWithin references bound scope validator value =
        validateWithin references bound scope' validator value) ∧
    ((∀ key, scope.contains key → scope'.contains key) →
      Verdict references scope validator value true → ∀ whole, Alternative validator whole →
        (∀ passes, Verdict references scope' whole value passes → passes = true) ∧
        (Guarded references whole → Verdict references scope' whole value true)) := by
  constructor
  · intro same bound
    exact validateWithin_of_same same
  · intro wider verdict whole alternative
    have kept (passes : Bool) (verdict' : Verdict references scope' whole value passes) :
        passes = true := alternative.accepts verdict wider verdict'
    refine ⟨kept, fun guarded => ?_⟩
    obtain ⟨passes, verdict'⟩ := guarded.exists_verdict
    obtain rfl := kept passes verdict'
    exact verdict'

def labelled : Option Json :=
  some (.object [("kids", .array [.object []]), ("label", .string "oak"), ("next", .object [])])

theorem scope_relaxes_tree :
    let scope : Scope := [["label"]]
    let scope' : Scope := [[], ["size", "label"], ["label"]]
    let whole := Validator.group 4 .or
      [.primitive .string, .group 5 .or [.primitive .null, .deferred "Tree" 0]]
    (∀ key, scope.contains key → scope'.contains key) ∧
      Verdict trees scope (.deferred "Tree" 0) labelled true ∧
      Alternative (.deferred "Tree" 0) whole ∧ Verdict trees scope' whole labelled true := by
  intro scope scope' whole
  have wider : ∀ key, scope.contains key → scope'.contains key := by
    intro key tolerated
    simp only [scope, scope', Scope.contains, List.any_cons, List.any_nil] at tolerated ⊢
    simp_all
  have verdict : Verdict trees scope (.deferred "Tree" 0) labelled true :=
    ⟨9, .success, by decide +kernel, rfl⟩
  have alternative : Alternative (.deferred "Tree" 0) whole :=
    .union 4 (List.mem_cons_of_mem _ List.mem_cons_self)
      (.union 5 (List.mem_cons_of_mem _ List.mem_cons_self) .itself)
  obtain ⟨_, relaxes⟩ := scope_relaxes trees (.deferred "Tree" 0) labelled scope scope'
  obtain ⟨_, accepted⟩ := relaxes wider verdict whole alternative
  exact ⟨wider, verdict, alternative, accepted (guarded_trees whole)⟩

end Conform.Validator
