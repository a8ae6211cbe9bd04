import Conform.Proofs.Expr.Parenthesized
import Conform.Proofs.Resolver.Ending

/-!
Parentheses around an expression make no difference to a resolver. They make the expression longer, and
with it the bounds of its resolution; but a resolution that has ended ends the same with more room.
-/

namespace Conform

open Text Conform.Expr

section Parenthesized

variable {layers : List (List Char × List Char)} {expr : List Char}

theorem length_parenthesized (layers : List (List Char × List Char)) (expr : List Char) :
    expr.length ≤ (parenthesized layers expr).length := by
  induction layers with
  | nil => exact Nat.le_refl _
  | cons layer layers ih =>
      have whole : parenthesized (layer :: layers) expr =
          '(' :: (layer.1 ++ parenthesized layers expr ++ layer.2 ++ [')']) := rfl
      simp only [whole, List.length_cons, List.length_append]
      omega

theorem Resolve.resolveWithin_parenthesized (stripped : Stripped expr) (outside : IsOutside expr)
    (blank : ∀ layer ∈ layers, ∀ c ∈ layer.1 ++ layer.2, isBlank c) (bound : Nat) (site : Site) :
    resolveWithin bound site (parenthesized layers expr) = resolveWithin bound site expr := by
  cases bound with
  | zero => rfl
  | succ bound => simp only [resolveWithin, resolveStep, bare_parenthesized stripped outside blank]

end Parenthesized

namespace Resolver

theorem foldl_max_le {lengths : List Nat} {start bound : Nat} (begin : start ≤ bound)
    (each : ∀ length ∈ lengths, length ≤ bound) : lengths.foldl max start ≤ bound := by
  induction lengths generalizing start with
  | nil => exact begin
  | cons first rest ih =>
      obtain ⟨here, others⟩ := List.forall_mem_cons.mp each
      exact ih (Nat.max_le.mpr ⟨begin, here⟩) others

section Limits

variable {resolver : Resolver} {expr longer : List Char} (more : expr.length ≤ longer.length)

include more

theorem longest_mono : resolver.longest expr ≤ resolver.longest longer := by
  obtain ⟨first, others⟩ := List.forall_mem_cons.mp (@le_longest resolver longer)
  exact foldl_max_le (Nat.zero_le _) (List.forall_mem_cons.mpr ⟨Nat.le_trans more first, others⟩)

theorem declarationLimit_mono : resolver.declarationLimit expr ≤ resolver.declarationLimit longer :=
  Nat.mul_le_mul_left _ (Nat.pow_le_pow_left (Nat.succ_le_succ (longest_mono more)) 2)

theorem nestingLimit_mono : resolver.nestingLimit expr ≤ resolver.nestingLimit longer :=
  Nat.mul_le_mul (Nat.add_le_add_right (declarationLimit_mono more) 2)
    (Nat.add_le_add_right (longest_mono more) 2)

end Limits

/-- A resolution that has ended ends the same with more room for nesting and more retries. -/
theorem outcome_of_ended {resolver after : Resolver} {expr : String} {file : Option FilePath}
    {answer : Except Fault Validator} (ended : resolver.resolve expr file = (some answer, after))
    {nesting retries : Nat} (room : resolver.nestingLimit expr.toList ≤ nesting)
    (more : resolver.declarationLimit expr.toList < retries) :
    (resolutionWithin nesting retries expr file).outcome resolver =
      (resolver.resolution expr file).outcome resolver := by
  have onward := Resolve.inOrder_onward room more
    (Resolve.resolveWithin_onward room { file := file } expr.toList) []
  refine (onward resolver).resolve_left ?_
  rintro ⟨_, unfinished⟩
  rw [resolve_eq, show (resolver.resolution expr file).outcome resolver = _ from unfinished] at ended
  cases ended

/-- An expression in parentheses is resolved as it is without them, wherever it stands; so a resolver
answers the same, be it a validator or a fault, and is the same afterwards. -/
theorem parentheses_redundant {layers : List (List Char × List Char)} {expr : String}
    (stripped : stripComments expr.toList = expr.toList) (balanced : (Expr.cut? expr.toList).isSome)
    (blank : ∀ layer ∈ layers, ∀ c ∈ layer.1 ++ layer.2, isBlank c) :
    (∀ bound site, Resolve.resolveWithin bound site (parenthesized layers expr.toList) =
      Resolve.resolveWithin bound site expr.toList) ∧
    (∀ (resolver : Resolver) (file : Option FilePath) answer after,
      resolver.resolve expr file = (some answer, after) →
        resolver.resolve (String.ofList (parenthesized layers expr.toList)) file = (some answer, after)) ∧
    ∀ {options : Options} {files : FileTable} {resolver : Resolver} {returned : List Validator},
      History (fresh options files) resolver returned → ∀ file,
        ∃ answer after, resolver.resolve expr file = (some answer, after) ∧
          resolver.resolve (String.ofList (parenthesized layers expr.toList)) file = (some answer, after) := by
  obtain ⟨cut, cutting⟩ := Option.isSome_iff_exists.mp balanced
  have same := Resolve.resolveWithin_parenthesized (stripped_iff.mpr stripped) (isOutside_of_cut? cutting) blank
  have onward (resolver : Resolver) (file : Option FilePath) (answer : Except Fault Validator) (after : Resolver)
      (ended : resolver.resolve expr file = (some answer, after)) :
      resolver.resolve (String.ofList (parenthesized layers expr.toList)) file = (some answer, after) := by
    have longer := length_parenthesized layers expr.toList
    have outcome := outcome_of_ended ended (nestingLimit_mono longer)
      (Nat.lt_succ_of_le (declarationLimit_mono longer))
    rw [← ended, resolve_eq, resolve_eq, ← outcome]
    simp only [resolution, resolutionWithin, String.toList_ofList, same]
  refine ⟨same, onward, fun history file => ?_⟩
  have bounded := resolution_bounded (history_settled history).1.faithful expr file
  rcases resolve_of_meets bounded with ⟨_, after, _, ended, _⟩ | ⟨_, _, after, ended, _⟩ | ⟨_, _, never⟩
  · exact ⟨_, after, ended, onward _ file _ after ended⟩
  · exact ⟨_, after, ended, onward _ file _ after ended⟩
  · exact absurd rfl never

/-- Two pairs of parentheses around a group that has one of its own, and one in a literal. -/
theorem parentheses_redundant_group :
    let resolver := (Operation.resolve "A" (some ⟨"/a.ts"⟩)).after (fresh {} circle)
    ∃ answer after, resolver.resolve "('(' | B)[]" (some ⟨"/a.ts"⟩) = (some answer, after) ∧
      resolver.resolve "( (\n('(' | B)[] ))" (some ⟨"/a.ts"⟩) = (some answer, after) := by
  intro resolver
  have history : History (fresh {} circle) resolver _ := .step (.resolve "A" (some ⟨"/a.ts"⟩)) .start
  have stripped : stripComments "('(' | B)[]".toList = "('(' | B)[]".toList := by decide +kernel
  have blank : ∀ layer ∈ [([' '], []), (['\n'], [' '])], ∀ c ∈ layer.1 ++ layer.2, isBlank c := by
    simp [isBlank]
  have wrapped : String.ofList (parenthesized [([' '], []), (['\n'], [' '])] "('(' | B)[]".toList) =
      "( (\n('(' | B)[] ))" := by decide +kernel
  have same := (parentheses_redundant stripped (by decide +kernel) blank).2.2 history (some ⟨"/a.ts"⟩)
  rwa [wrapped] at same

end Resolver

end Conform
