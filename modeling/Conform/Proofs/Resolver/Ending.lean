import Conform.Proofs.Resolver.Bounded
import Conform.Proofs.Resolver.Completed

/-!
Resolutions end. Where a resolution comes to an answer, more room for nesting and more retries lead
to the same one; and there is always room enough.
-/

namespace Conform

namespace Resolve

def Onward {α : Type} (first second : Resolve α) : Prop :=
  ∀ before, (∃ after, first.outcome before = (.error .unfinished, after)) ∨
    second.outcome before = first.outcome before

namespace Onward

variable {α β : Type}

theorem refl (action : Resolve α) : Onward action action := fun _ => .inr rfl

theorem bind {first second : Resolve α} {next next' : α → Resolve β}
    (onward : Onward first second) (later : ∀ value, Onward (next value) (next' value)) :
    Onward (first >>= next) (second >>= next') := by
  intro before
  rw [outcome_bind, outcome_bind]
  rcases onward before with ⟨after, ended⟩ | same
  · exact .inl ⟨after, by rw [ended]⟩
  · rw [same]
    rcases first.outcome before with ⟨_ | value, middle⟩
    · exact .inr rfl
    · exact later value middle

theorem tryCatch {first second : Resolve α} {handle handle' : Stop → Resolve α}
    (onward : Onward first second) (bounded : ∀ before, ∃ after,
      (handle .unfinished).outcome before = (.error .unfinished, after))
    (later : ∀ stop, Onward (handle stop) (handle' stop)) :
    Onward (tryCatch first handle) (MonadExcept.tryCatch second handle') := by
  intro before
  rw [outcome_tryCatch, outcome_tryCatch]
  rcases onward before with ⟨middle, ended⟩ | same
  · obtain ⟨after, last⟩ := bounded middle
    exact .inl ⟨after, by rw [ended]; exact last⟩
  · rw [same]
    rcases first.outcome before with ⟨stop | value, middle⟩
    · exact later stop middle
    · exact .inr rfl

theorem keepingCache {first second : Resolve α} (onward : Onward first second) :
    Onward (keepingCache first) (Resolve.keepingCache second) := by
  refine bind (refl _) fun resolver => tryCatch onward (fun before => ⟨_, rfl⟩) fun stop => refl _

end Onward

section Steps

variable {below below' : Below} (onward : ∀ site expr, Onward (below site expr) (below' site expr))

include onward

theorem build_onward (site : Site) (key : DeclKey) :
    Onward (build below site key) (build below' site key) :=
  .keepingCache (.bind (.refl _) fun _ => .bind (.refl _) fun expr =>
    .bind (onward _ expr) fun _ => .refl _)

theorem resolveKey_onward (site : Site) (key : DeclKey) :
    Onward (resolveKey below site key) (resolveKey below' site key) := by
  apply Onward.bind (.refl _)
  intro resolver
  split
  · exact .refl _
  · split
    · exact build_onward onward site key
    · exact .refl _

theorem resolveName_onward (site : Site) (name : List Char) :
    Onward (resolveName below site name) (resolveName below' site name) := by
  unfold resolveName
  split
  · exact .refl _
  · exact .bind (.refl _) fun key => resolveKey_onward onward site key

theorem resolveBuilt_onward (site : Site) (name : List Char) :
    Onward (resolveBuilt below site name) (resolveBuilt below' site name) :=
  .bind (onward site name) fun _ => .refl _

theorem resolvePartial_onward (site : Site) (name : List Char) :
    Onward (resolvePartial below site name) (resolvePartial below' site name) :=
  .bind (resolveBuilt_onward onward site name) fun _ => .refl _

theorem resolveEach_onward (site : Site) (exprs : List (List Char)) :
    Onward (resolveEach below site exprs) (resolveEach below' site exprs) := by
  induction exprs with
  | nil => exact .refl _
  | cons first rest ih => exact .bind (onward site first) fun _ => .bind ih fun _ => .refl _

theorem resolveParent_onward (site : Site) (parts : Expr.RecordParts) :
    Onward (resolveParent below site parts) (resolveParent below' site parts) := by
  unfold resolveParent
  split
  · exact .refl _
  · exact .bind (resolveBuilt_onward onward site _) fun _ => .refl _

theorem resolveMembers_onward (site : Site) (members : List (List Char)) :
    Onward (resolveMembers below site members) (resolveMembers below' site members) := by
  induction members with
  | nil => exact .refl _
  | cons member rest ih =>
      unfold resolveMembers
      split
      · exact .refl _
      · exact .bind (onward _ _) fun _ => .bind ih fun _ => .refl _
      · exact .bind (onward _ _) fun _ => .bind (.refl _) fun _ => .bind (.refl _) fun _ =>
          .bind ih fun _ => .refl _

theorem resolveForm_onward (site : Site) (form : Form) :
    Onward (resolveForm below site form) (resolveForm below' site form) := by
  cases form with
  | group connective operands =>
      exact .bind (resolveEach_onward onward site operands) fun _ => .refl _
  | array element => exact .bind (.refl _) fun _ => .bind (onward _ element) fun _ => .refl _
  | primitive kind => exact .refl _
  | partialOf name => exact resolvePartial_onward onward site name
  | record parts =>
      exact .bind (resolveParent_onward onward site parts) fun _ =>
        .bind (resolveMembers_onward onward site _) fun _ => .refl _
  | reference name => exact resolveName_onward onward site name

theorem resolveStep_onward (site : Site) (expr : List Char) :
    Onward (resolveStep below site expr) (resolveStep below' site expr) := by
  rw [resolveStep_eq, resolveStep_eq]
  exact .bind (.refl _) fun form => resolveForm_onward onward site form

end Steps

theorem resolveWithin_onward {bound bound' : Nat} (more : bound ≤ bound') (site : Site)
    (expr : List Char) : Onward (resolveWithin bound site expr) (resolveWithin bound' site expr) := by
  induction bound generalizing bound' site expr with
  | zero => exact fun before => .inl ⟨before, rfl⟩
  | succ bound ih =>
      obtain ⟨room, rfl⟩ : ∃ room, bound' = room + 1 := ⟨bound' - 1, by omega⟩
      exact resolveStep_onward (ih (by omega)) site expr

theorem inOrder_onward {bound bound' : Nat} (more : bound ≤ bound') {retries retries' : Nat}
    (moreRetries : retries ≤ retries') {action action' : Resolve Validator}
    (onward : Onward action action') (tried : List DeclKey) :
    Onward (inOrder (resolveWithin bound) action retries tried)
      (inOrder (resolveWithin bound') action' retries' tried) := by
  induction retries generalizing retries' action action' tried with
  | zero => exact fun before => .inl ⟨before, rfl⟩
  | succ retries ih =>
      obtain ⟨left, rfl⟩ : ∃ left, retries' = left + 1 := ⟨retries' - 1, by omega⟩
      apply Onward.tryCatch (.bind onward fun _ => .refl _)
      · exact fun before => ⟨before, rfl⟩
      · intro stop
        split
        · rename_i fault key
          split
          · exact .refl _
          · have first := resolveKey_onward (resolveWithin_onward more) { file := none } key
            exact .bind (ih (by omega) first _) fun found => ih (by omega) onward found.2
        · exact .refl _

end Resolve

namespace Resolver

def resolutionWithin (nesting retries : Nat) (expr : String) (file : Option FilePath) :
    Resolve (Validator × List DeclKey) :=
  Resolve.inOrder (Resolve.resolveWithin nesting)
    (Resolve.resolveWithin nesting { file := file } expr.toList) retries []

/-- Resolution always ends, with a validator or a fault, in whatever state earlier operations left
the resolver. More room for nesting and more retries make no difference to the answer, and each
declaration that can be found is built first once at most. -/
theorem resolution_ends {options : Options} {files : FileTable} {resolver : Resolver}
    {returned : List Validator} (history : History (fresh options files) resolver returned)
    (expr : String) (file : Option FilePath) :
    ∃ answer after, resolver.resolve expr file = (some answer, after) ∧
      (∀ nesting retries, resolver.nestingLimit expr.toList ≤ nesting →
        resolver.declarationLimit expr.toList < retries →
        (resolutionWithin nesting retries expr file).outcome resolver =
          (resolver.resolution expr file).outcome resolver) ∧
      ∀ validator tried, Resolve.Gives (resolver.resolution expr file) resolver (validator, tried)
        after → tried.length ≤ resolver.declarationLimit expr.toList := by
  have bounded := resolution_bounded (history_settled history).1.faithful expr file
  have same (nesting retries : Nat) (room : resolver.nestingLimit expr.toList ≤ nesting)
      (more : resolver.declarationLimit expr.toList < retries) :
      (resolutionWithin nesting retries expr file).outcome resolver =
        (resolver.resolution expr file).outcome resolver := by
    have onward := Resolve.inOrder_onward room more
      (Resolve.resolveWithin_onward room { file := file } expr.toList) []
    refine (onward resolver).resolve_left ?_
    rintro ⟨after, ended⟩
    unfold Resolve.Meets at bounded
    rw [show (resolver.resolution expr file).outcome resolver = _ from ended] at bounded
    exact bounded rfl
  have few (validator : Validator) (tried : List DeclKey) (after : Resolver)
      (gave : Resolve.Gives (resolver.resolution expr file) resolver (validator, tried) after) :
      tried.length ≤ resolver.declarationLimit expr.toList :=
    gave.of_meets bounded
  rcases resolve_of_meets bounded with ⟨_, after, _, ended, _⟩ | ⟨_, _, after, ended, _⟩ |
    ⟨_, _, never⟩
  · exact ⟨_, after, ended, same, fun validator tried => few validator tried after⟩
  · exact ⟨_, after, ended, same, fun validator tried => few validator tried after⟩
  · exact absurd rfl never

def circle : FileTable :=
  .ofList [(⟨"/a.ts"⟩, .text "import \x7b B \x7d from './b'; interface A \x7b b?: B \x7d"),
    (⟨"/b.ts"⟩, .text "import \x7b A \x7d from './a'; interface B extends A \x7b all: A[] \x7d")]

theorem resolution_ends_circle :
    History (fresh {} circle)
        ((Operation.resolve "A" (some ⟨"/a.ts"⟩)).after (fresh {} circle))
        ([] ++ (Operation.resolve "A" (some ⟨"/a.ts"⟩)).returned (fresh {} circle)) ∧
      ∃ answer after, ((Operation.resolve "A" (some ⟨"/a.ts"⟩)).after (fresh {} circle)).resolve
        "B[] | A" (some ⟨"/b.ts"⟩) = (some answer, after) := by
  have history : History (fresh {} circle) _ _ := .step (.resolve "A" (some ⟨"/a.ts"⟩)) .start
  obtain ⟨answer, after, ended, _⟩ := resolution_ends history "B[] | A" (some ⟨"/b.ts"⟩)
  exact ⟨history, answer, after, ended⟩

end Resolver

end Conform
