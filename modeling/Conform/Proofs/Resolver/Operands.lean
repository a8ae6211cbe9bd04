import Conform.Proofs.Resolver.Completed
import Conform.Proofs.Validator.Groups

/-!
Recursive references among the operands of a group. What the group makes of a value is what it would
make of it with the declaration in the place of the reference, but for the names that the
declaration would offer to its siblings.
-/

namespace Conform

open Validator

theorem Settled.filled {references : References} {validator : Validator}
    (settled : Settled references [] validator) {name : String} {cell : CellId}
    (reaches : Reaches references validator (.deferred name cell)) :
    ∃ target, references.target? cell = some target := by
  obtain ⟨reference, found, _, ready⟩ := settled name cell reaches
  rcases ready with isSome | ⟨_, none, _⟩
  · obtain ⟨target, known⟩ := Option.isSome_iff_exists.mp isSome
    exact ⟨target, by simp [References.target?, found, known]⟩
  · cases none

namespace Resolver

/-- In a group of whatever is in the cache or was returned, a reference stands for the validator of
its declaration. A group with this in its place has the verdicts of the group with the reference
where the names of the declaration are tolerated too, so it passes all values that the other does;
and it has the same verdicts when no sibling of the reference heeds those names. -/
theorem recursive_operand {options : Options} {files : FileTable} {resolver : Resolver}
    {returned : List Validator} (history : History (fresh options files) resolver returned)
    {validator : Validator} (out : validator ∈ resolver.cache.map (·.2) ∨ validator ∈ returned)
    {node : NodeId} {connective : Connective} {before after : List Validator} {name : String}
    {cell : CellId} (inside : Reaches resolver.references validator
      (.group node connective (before ++ .deferred name cell :: after))) :
    ∃ target, resolver.references.target? cell = some target ∧
      ∀ (node' : NodeId) (scope : Scope) (value : Option Json),
        (∀ passes,
          Verdict resolver.references scope (.group node' connective (before ++ target :: after)) value
              passes ↔
            Verdict resolver.references (offeredNames target :: scope)
              (.group node connective (before ++ .deferred name cell :: after)) value passes) ∧
        (Verdict resolver.references scope
            (.group node connective (before ++ .deferred name cell :: after)) value true →
          ¬Verdict resolver.references scope (.group node' connective (before ++ target :: after))
            value false) ∧
        ((∀ operand ∈ before ++ after,
            Indifferent resolver.references (offeredNames target) operand) → ∀ passes,
          (Verdict resolver.references scope (.group node' connective (before ++ target :: after)) value
              passes ↔
            Verdict resolver.references scope
              (.group node connective (before ++ .deferred name cell :: after)) value passes)) := by
  obtain ⟨standing, settled⟩ := history_settled history
  have known : Settled resolver.references [] validator := by
    rcases out with cached | earlier
    · obtain ⟨entry, member, rfl⟩ := List.mem_map.mp cached
      exact standing.cached entry member
    · exact settled validator earlier
  have operand : Part resolver.references
      (.group node connective (before ++ .deferred name cell :: after)) (.deferred name cell) :=
    .operand (by simp)
  obtain ⟨target, filled⟩ := known.filled (inside.tail operand)
  refine ⟨target, filled, fun node' scope value => ⟨fun passes => verdict_target filled, ?_,
    fun siblings passes => verdict_target_of_indifferent filled siblings⟩⟩
  intro accepted refused
  have wider : ∀ key, scope.contains key → Scope.contains (offeredNames target :: scope) key := by
    intro key tolerated
    rw [contains_cons, tolerated, Bool.or_true]
  cases accepted.wider wider ((verdict_target filled).mp refused)

def pairs (connective : Connective) : Validator → List (NodeId × String × CellId × Validator)
  | .record own _ => own.fields.filterMap fun field =>
    match field.type with
    | .group node found [.deferred name cell, sibling] =>
      if found = connective then some (node, name, cell, sibling) else none
    | _ => none
  | _ => []

theorem exists_pair {connective : Connective} {validators : List Validator}
    {test : NodeId × String × CellId × Validator → Bool}
    (found : validators.any (fun validator => (pairs connective validator).any test))
    (references : References) :
    ∃ validator ∈ validators, ∃ node name cell sibling, test (node, name, cell, sibling) ∧
      Reaches references validator (.group node connective [.deferred name cell, sibling]) := by
  obtain ⟨validator, out, found⟩ := List.any_eq_true.mp found
  obtain ⟨⟨node, name, cell, sibling⟩, member, test⟩ := List.any_eq_true.mp found
  refine ⟨validator, out, node, name, cell, sibling, test, ?_⟩
  unfold pairs at member
  split at member
  · obtain ⟨field, among, found⟩ := List.mem_filterMap.mp member
    split at found
    · rename_i type
      split at found
      · rename_i same
        cases found
        subst same
        rw [← type]
        exact .single (.field (by simp) among)
      · cases found
    · cases found
  · simp at member

def items : FileTable :=
  .ofList [(⟨"/items.ts"⟩, .text
    "interface Item \x7b name: string; next?: Item | null; tagged?: Item & \x7b tag: string \x7d \x7d")]

def resolveItem : Operation := .resolve "Item" (some ⟨"/items.ts"⟩)

def itemResolver : Resolver := resolveItem.after (fresh {} items)

/-- An item or none: `null` does not heed the names of an item. -/
theorem recursive_operand_next :
    ∃ validator ∈ resolveItem.returned (fresh {} items), ∃ node name cell target,
      Reaches itemResolver.references validator
          (.group node .or [.deferred name cell, .primitive .null]) ∧
        itemResolver.references.target? cell = some target ∧ ∀ node' scope value passes,
          (Verdict itemResolver.references scope (.group node' .or [target, .primitive .null]) value
              passes ↔
            Verdict itemResolver.references scope
              (.group node .or [.deferred name cell, .primitive .null]) value passes) := by
  have history : History (fresh {} items) itemResolver _ := .step resolveItem .start
  have found : (resolveItem.returned (fresh {} items)).any (fun validator =>
      (pairs .or validator).any fun (_, _, _, sibling) => sibling.same (.primitive .null)) := by
    decide +kernel
  obtain ⟨validator, out, node, name, cell, sibling, same, reaches⟩ :=
    exists_pair found itemResolver.references
  obtain rfl : sibling = .primitive .null := by
    cases sibling with
    | primitive kind => rw [show kind = .null from beq_iff_eq.mp same]
    | _ => cases same
  have inside : Reaches itemResolver.references validator
      (.group node .or ([] ++ .deferred name cell :: [.primitive .null])) := reaches
  obtain ⟨target, filled, rest⟩ :=
    recursive_operand history (.inr (List.mem_append_right _ out)) inside
  refine ⟨validator, out, node, name, cell, target, reaches, filled, fun node' scope value => ?_⟩
  refine (rest node' scope value).2.2 fun operand member => ?_
  obtain rfl := List.mem_singleton.mp member
  exact .primitive .null

def taggedItem : Json :=
  .object [("name", .string "first"), ("tag", .string "new")]

def passesTagged (node : NodeId) (first second : Validator) : Option Bool :=
  (validateWithin itemResolver.references 5 [] (.group node .and [first, second])
    (some taggedItem)).map Outcome.isSuccess

/-- A tagged item: the record with the tag refuses the names of the item beside it, for which a
reference stands. -/
theorem recursive_operand_tagged :
    ∃ validator ∈ resolveItem.returned (fresh {} items), ∃ node name cell sibling target,
      Reaches itemResolver.references validator (.group node .and [.deferred name cell, sibling]) ∧
        itemResolver.references.target? cell = some target ∧
        Verdict itemResolver.references [] (.group node .and [target, sibling]) (some taggedItem)
          true ∧
        ¬Verdict itemResolver.references [] (.group node .and [.deferred name cell, sibling])
          (some taggedItem) true := by
  have found : (resolveItem.returned (fresh {} items)).any (fun validator =>
      (pairs .and validator).any fun (node, name, cell, sibling) =>
        (itemResolver.references.target? cell).any fun target =>
          passesTagged node target sibling == some true &&
            passesTagged node (.deferred name cell) sibling == some false) := by
    decide +kernel
  obtain ⟨validator, out, node, name, cell, sibling, differ, reaches⟩ :=
    exists_pair found itemResolver.references
  cases filled : itemResolver.references.target? cell with
  | none => simp [filled] at differ
  | some target =>
      simp only [filled, Option.any_some, Bool.and_eq_true, beq_iff_eq] at differ
      obtain ⟨_, passed, success⟩ := Option.map_eq_some_iff.mp differ.1
      obtain ⟨_, refused, failure⟩ := Option.map_eq_some_iff.mp differ.2
      refine ⟨validator, out, node, name, cell, sibling, target, reaches, filled,
        ⟨5, _, passed, success⟩, fun accepted => ?_⟩
      cases accepted.wider (fun _ tolerated => tolerated) ⟨5, _, refused, failure⟩

end Resolver

end Conform
