import Conform.Proofs.Resolver.Conduct

/-!
What happens to a resolver: its public operations, in any order, whether they succeed or fail.
-/

namespace Conform

inductive Operation where
  | resolve (expr : String) (file : Option FilePath)
  | setStrict (strict : Bool)
  | clear

namespace Operation

def after (resolver : Resolver) : Operation → Resolver
  | resolve expr file => (resolver.resolve expr file).2
  | setStrict strict => resolver.setStrict strict
  | clear => resolver.clear

def returned (resolver : Resolver) : Operation → List Validator
  | resolve expr file =>
    match (resolver.resolve expr file).1 with
    | some (.ok validator) => [validator]
    | _ => []
  | _ => []

end Operation

/-- The resolvers that operations lead to, with all validators returned on the way. -/
inductive History (start : Resolver) : Resolver → List Validator → Prop where
  | start : History start start []
  | step {resolver : Resolver} {returned : List Validator} (operation : Operation)
      (earlier : History start resolver returned) :
      History start (operation.after resolver) (returned ++ operation.returned resolver)

namespace Resolver

def fresh (options : Options) (files : FileTable) : Resolver :=
  { options := options, files := files }

def resolution (resolver : Resolver) (expr : String) (file : Option FilePath) :
    Resolve (Validator × List DeclKey) :=
  let below := Resolve.resolveWithin (resolver.nestingLimit expr.toList)
  Resolve.inOrder below (below { file := file } expr.toList)
    (resolver.declarationLimit expr.toList + 1) []

variable {resolver after : Resolver} {expr : String} {file : Option FilePath}
  {gives : Validator × List DeclKey → Resolver → Prop} {stops : Stop → Resolver → Prop}

theorem resolve_eq (resolver : Resolver) (expr : String) (file : Option FilePath) :
    resolver.resolve expr file =
      match (resolver.resolution expr file).outcome resolver with
      | (.ok (validator, _), after) => (some (.ok validator), after)
      | (.error (.fault fault _), after) => (some (.error fault), after)
      | (.error .unfinished, after) => (none, after) := rfl

theorem resolve_of_meets (meets : Resolve.Meets (resolver.resolution expr file) resolver gives stops) :
    (∃ validator after tried, resolver.resolve expr file = (some (.ok validator), after) ∧
        gives (validator, tried) after) ∨
      (∃ fault needs after, resolver.resolve expr file = (some (.error fault), after) ∧
        stops (.fault fault needs) after) ∨
      ∃ after, resolver.resolve expr file = (none, after) ∧ stops .unfinished after := by
  unfold Resolve.Meets at meets
  rw [resolve_eq]
  split at meets
  · rename_i found after ended
    rw [ended]
    exact .inl ⟨_, _, _, rfl, meets⟩
  · rename_i stop after ended
    rw [ended]
    cases stop with
    | fault fault needs => exact .inr (.inl ⟨_, _, _, rfl, meets⟩)
    | unfinished => exact .inr (.inr ⟨_, rfl, meets⟩)

/-- The resolution keeps to a conduct, when the expression fits in and no stop needs what is not
admitted. -/
theorem resolution_meets (expr : String) (file : Option FilePath) {c : Conduct}
    {final : Stop → Prop} (lawful : c.Lawful)
    (retrying : c.Retries (resolver.nestingLimit expr.toList) final)
    (state : c.State [] resolver)
    (fits : c.Fits (resolver.nestingLimit expr.toList) { file := file } resolver expr.toList)
    (outlook : ∀ r stop, c.State [] r → c.Halts { file := file } r expr.toList stop →
      c.Outlook (resolver.nestingLimit expr.toList) final r stop) :
    Resolve.Meets (resolver.resolution expr file) resolver
      (c.Keeps [] resolver fun after found => c.Holds { file := file } after expr.toList found.1)
      (c.Keeps [] resolver fun _ => final) := by
  refine Conduct.inOrder_meets lawful retrying ?_ _ _ state (lawful.since_refl state)
  intro r state' since
  have ready : c.Ready _ { file := file } r expr.toList := lawful.later ⟨state, fits⟩ state' since
  refine (lawful.governs _ { file := file } expr.toList r ready).mono (fun _ _ kept => kept) ?_
  exact fun stop after kept => ⟨kept.1, kept.2.1, outlook after stop kept.1 kept.2.2⟩

/-- A resolution keeps to a conduct that admits every declaration at the top, however it ends. -/
theorem resolve_keeps (expr : String) (file : Option FilePath) {c : Conduct} (lawful : c.Lawful)
    (admits : ∀ bound r key, c.Admits bound Conduct.top r key) (state : c.State [] resolver)
    (fits : c.Fits (resolver.nestingLimit expr.toList) { file := file } resolver expr.toList) :
    c.State [] (resolver.resolve expr file).2 ∧ c.Since [] resolver (resolver.resolve expr file).2 ∧
      ∀ validator, (resolver.resolve expr file).1 = some (.ok validator) →
        c.Holds { file := file } (resolver.resolve expr file).2 expr.toList validator := by
  have outlook (bound : Nat) (r : Resolver) (stop : Stop) : c.Outlook bound (fun _ => True) r stop := by
    unfold Conduct.Outlook
    split
    · exact ⟨trivial, admits _ _ _⟩
    · trivial
  have retrying (bound : Nat) : c.Retries bound fun _ => True :=
    ⟨trivial, fun _ _ _ => admits _ _ _, fun _ _ => outlook _ _ _⟩
  have meets := resolution_meets expr file lawful (retrying _) state fits
    fun r stop _ _ => outlook _ r stop
  rcases resolve_of_meets meets with ⟨validator, after, _, ended, kept⟩ |
    ⟨_, _, after, ended, kept⟩ | ⟨after, ended, kept⟩
  · rw [ended]
    refine ⟨kept.1, kept.2.1, ?_⟩
    rintro _ ⟨⟩
    exact kept.2.2
  · rw [ended]
    exact ⟨kept.1, kept.2.1, by simp⟩
  · rw [ended]
    exact ⟨kept.1, kept.2.1, by simp⟩

theorem exists_of_isOk {answer : Option (Except Fault Validator)} (passed : answer.any (·.isOk)) :
    ∃ validator, answer = some (.ok validator) := by
  match answer, passed with
  | some (.ok validator), _ => exact ⟨validator, rfl⟩

def faultOf : Option (Except Fault Validator) → Option Fault
  | some (.error fault) => some fault
  | _ => none

theorem eq_of_faultOf {answer : Option (Except Fault Validator)} {fault : Fault}
    (found : faultOf answer = some fault) : answer = some (.error fault) := by
  unfold faultOf at found
  split at found
  · cases found
    rfl
  · cases found

end Resolver

end Conform
