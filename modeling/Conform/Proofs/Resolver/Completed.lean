import Conform.Proofs.Resolver.History
import Conform.Proofs.Resolver.References
import Conform.Proofs.Validator.Nesting

/-!
No loose reference gets out of a resolver. Whatever is in its cache or was ever returned refers only
to declarations whose build has ended, and the references stand for what those builds returned; so
no judgement ever asks what a loose reference stands for.
-/

namespace Conform

namespace Resolver

open Validator

theorem Standing.start (options : Options) (files : FileTable) :
    Standing [] (fresh options files) :=
  ⟨by simp [Faithful, fresh], by simp, by simp [fresh], by simp [fresh]⟩

theorem Standing.resolve {resolver : Resolver} (standing : Standing [] resolver) (expr : String)
    (file : Option FilePath) :
    Standing [] (resolver.resolve expr file).2 ∧ Later resolver (resolver.resolve expr file).2 ∧
      ∀ validator, (resolver.resolve expr file).1 = some (.ok validator) →
        Settled (resolver.resolve expr file).2.references [] validator :=
  resolve_keeps expr file referring_lawful (fun _ _ _ => trivial) standing trivial

theorem Standing.setStrict {resolver : Resolver} (standing : Standing [] resolver) (strict : Bool) :
    Standing [] (resolver.setStrict strict) ∧
      (resolver.setStrict strict).references = resolver.references := by
  unfold Resolver.setStrict
  split
  · exact ⟨standing, rfl⟩
  · refine ⟨⟨standing.faithful, by simp, by simp, ?_⟩, rfl⟩
    intro cell key target found
    obtain ⟨bound, site, before, after, same, rest⟩ := standing.filled cell key target found
    exact ⟨bound, site, before, after, same, rest⟩

theorem Standing.clear {resolver : Resolver} (standing : Standing [] resolver) :
    Standing [] resolver.clear := by
  refine ⟨by simp [Faithful, Resolver.clear], by simp, by simp [Resolver.clear], ?_⟩
  intro cell key target found
  obtain ⟨bound, site, before, after, same, rest⟩ := standing.filled cell key target found
  exact ⟨bound, site, before, after, same, rest⟩

theorem Standing.after {resolver : Resolver} (standing : Standing [] resolver) (operation : Operation) :
    Standing [] (operation.after resolver) ∧
      resolver.references.Extend (operation.after resolver).references := by
  cases operation with
  | resolve expr file =>
      obtain ⟨standing', later, _⟩ := standing.resolve expr file
      exact ⟨standing', later.references⟩
  | setStrict strict =>
      obtain ⟨standing', same⟩ := standing.setStrict strict
      refine ⟨standing', ?_⟩
      simp only [Operation.after, same]
      exact .refl _
  | clear => exact ⟨standing.clear, .refl _⟩

theorem Standing.returned {resolver : Resolver} (standing : Standing [] resolver)
    (operation : Operation) :
    ∀ validator ∈ operation.returned resolver,
      Settled (operation.after resolver).references [] validator := by
  intro validator member
  cases operation with
  | resolve expr file =>
      simp only [Operation.returned] at member
      split at member
      · rename_i found
        rw [List.mem_singleton.mp member]
        exact (standing.resolve expr file).2.2 _ found
      · cases member
  | _ => cases member

/-- All that has been returned stays settled. -/
theorem history_settled {options : Options} {files : FileTable} {resolver : Resolver}
    {returned : List Validator} (history : History (fresh options files) resolver returned) :
    Standing [] resolver ∧ ∀ validator ∈ returned, Settled resolver.references [] validator := by
  induction history with
  | start => exact ⟨.start options files, by simp⟩
  | step operation _ ih =>
      obtain ⟨standing, settled⟩ := ih
      obtain ⟨standing', extend⟩ := standing.after operation
      refine ⟨standing', fun validator member => ?_⟩
      rcases List.mem_append.mp member with earlier | new
      · exact (settled validator earlier).extend extend (by simp)
      · exact standing.returned operation validator new

/-- No loose reference gets out: whatever a validator in the cache or a returned one reaches, a
reference stands for what the build of its declaration gave. Judgements therefore never ask for
more than what has been filled in. -/
theorem references_filled {options : Options} {files : FileTable} {resolver : Resolver}
    {returned : List Validator} (history : History (fresh options files) resolver returned)
    {validator : Validator}
    (out : validator ∈ resolver.cache.map (·.2) ∨ validator ∈ returned) :
    (∀ name cell, Reaches resolver.references validator (.deferred name cell) →
      ∃ key target, resolver.references[cell]? = some ⟨key, some target⟩ ∧ key.name = name ∧
        resolver.FilledByBuild cell key target) ∧
      ∀ others : References,
        (∀ cell target, resolver.references.target? cell = some target →
          others.target? cell = some target) →
        ∀ bound scope value, validateWithin others bound scope validator value =
          validateWithin resolver.references bound scope validator value := by
  obtain ⟨standing, settled⟩ := history_settled history
  have known : Settled resolver.references [] validator := by
    rcases out with cached | earlier
    · obtain ⟨entry, member, rfl⟩ := List.mem_map.mp cached
      exact standing.cached entry member
    · exact settled validator earlier
  have filled : ∀ name cell, Reaches resolver.references validator (.deferred name cell) →
      ∃ key target, resolver.references[cell]? = some ⟨key, some target⟩ ∧ key.name = name := by
    intro name cell reaches
    obtain ⟨⟨key, target⟩, found, sameName, ready⟩ := known name cell reaches
    rcases ready with isSome | ⟨_, none, _⟩
    · obtain ⟨target, rfl⟩ := Option.isSome_iff_exists.mp isSome
      exact ⟨key, target, found, sameName⟩
    · simp at none
  constructor
  · intro name cell reaches
    obtain ⟨key, target, found, sameName⟩ := filled name cell reaches
    exact ⟨key, target, found, sameName, standing.filled cell key target found⟩
  · intro others agree bound scope value
    refine validateWithin_congr bound (fun name cell reaches => ?_) scope value
    obtain ⟨key, target, found, _⟩ := filled name cell reaches
    have stands : resolver.references.target? cell = some target := by
      simp [References.target?, found]
    rw [stands, agree cell target stands]

def chain : FileTable :=
  .ofList [(⟨"/chain.ts"⟩, .text "interface Node \x7b next?: Node \x7d")]

def refersTo (name : String) : Validator → Bool
  | .record own _ => own.fields.any fun field =>
    match field.type with
    | .deferred target _ => target == name
    | _ => false
  | _ => false

theorem reaches_of_refersTo {references : References} {name : String} {validator : Validator}
    (refers : refersTo name validator) :
    ∃ cell, Reaches references validator (.deferred name cell) := by
  unfold refersTo at refers
  split at refers
  · obtain ⟨field, member, test⟩ := List.any_eq_true.mp refers
    split at test
    · rename_i target cell type
      obtain rfl := beq_iff_eq.mp test
      refine ⟨cell, .single ?_⟩
      rw [← type]
      exact .field (by simp) member
    · simp at test
  · simp at refers

theorem references_filled_chain :
    ∃ validator cell key target,
      Reaches ((fresh {} chain).resolve "Node" (some ⟨"/chain.ts"⟩)).2.references validator
        (.deferred "Node" cell) ∧
      ((fresh {} chain).resolve "Node" (some ⟨"/chain.ts"⟩)).2.references[cell]? =
        some ⟨key, some target⟩ := by
  have cached : (((fresh {} chain).resolve "Node" (some ⟨"/chain.ts"⟩)).2.cache.map (·.2)).any
      (refersTo "Node") = true := by decide +kernel
  obtain ⟨validator, member, refers⟩ := List.any_eq_true.mp cached
  obtain ⟨cell, reaches⟩ := reaches_of_refersTo refers
  have history : History (fresh {} chain) _ _ := .step (.resolve "Node" (some ⟨"/chain.ts"⟩)) .start
  obtain ⟨key, target, found, _⟩ := (references_filled history (.inl member)).1 "Node" cell reaches
  exact ⟨validator, cell, key, target, reaches, found⟩

end Resolver

end Conform
