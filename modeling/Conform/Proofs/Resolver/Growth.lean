import Conform.Proofs.Resolver.Conduct

/-!
A resolution drops nothing from the cache: what it puts there comes at the end, and what it takes
away again it has put there itself.
-/

namespace Conform.Resolve

variable {α β : Type}

def Grows (action : Resolve α) : Prop :=
  ∀ before, before.cache <+: (action.outcome before).2.cache

namespace Grows

theorem bind {action : Resolve α} {next : α → Resolve β} (grows : Grows action)
    (later : ∀ value, Grows (next value)) : Grows (action >>= next) := by
  intro before
  have first := grows before
  rw [outcome_bind]
  generalize action.outcome before = ended at first ⊢
  rcases ended with ⟨stop | value, middle⟩
  · exact first
  · exact first.trans (later value middle)

theorem pure (value : α) : Grows (pure value) := fun _ => List.prefix_rfl

theorem throw (stop : Stop) : Grows (throw stop : Resolve α) := fun _ => List.prefix_rfl

theorem get : Grows get := fun _ => List.prefix_rfl

theorem modify {change : Resolver → Resolver} (kept : ∀ before, before.cache <+: (change before).cache) :
    Grows (modify change) := kept

theorem freshId : Grows freshId := fun _ => List.prefix_rfl

theorem ofExcept (result : Except Fault α) : Grows (ofExcept result) := by
  intro before
  cases result <;> exact List.prefix_rfl

theorem fileText (file : FilePath) : Grows (fileText file) := by
  refine .bind .get fun resolver => ?_
  cases resolver.knownText? file with
  | some text => exact .pure _
  | none =>
      cases resolver.files.find? file with
      | none => exact .throw _
      | some content =>
          cases content with
          | unreadable reason => exact .throw _
          | text content => exact .bind (.modify fun _ => List.prefix_rfl) fun _ => .pure _

theorem locate (name : List Char) (file : FilePath) : Grows (locate name file) := by
  refine .bind (.fileText file) fun text => ?_
  cases Declaration.import? name text with
  | none => exact .pure _
  | some found => exact .bind .get fun _ => .bind (.ofExcept _) fun _ => .pure _

theorem declared (key : DeclKey) : Grows (declared key) := by
  refine .bind (.fileText key.file) fun text => .bind (.ofExcept _) fun found => ?_
  cases found with
  | some expr => exact .pure _
  | none =>
      refine .bind (.ofExcept _) fun found => ?_
      cases found with
      | some expr => exact .pure _
      | none => exact .throw _

end Grows

theorem outcome_build (below : Below) (site : Site) (key : DeclKey) (before : Resolver) :
    (build below site key).outcome before =
      match (declared key >>= below (site.entering key before.references.length)).outcome
          (before.withReference key) with
      | (.ok validator, after) =>
        (.ok validator, after.finished key before.references.length validator)
      | (.error stop, after) => (.error stop, after.abandoned before.cache) := by
  have reference : (newReference key).outcome before =
      (.ok before.references.length, before.withReference key) := rfl
  simp only [build, keepingCache, outcome_bind, outcome_get, outcome_tryCatch, reference]
  rcases (declared key).outcome (before.withReference key) with ⟨stop | expr, middle⟩
  · rfl
  · dsimp only [Site.entering]
    generalize (below _ expr).outcome middle = ended
    rcases ended with ⟨stop | validator, after⟩ <;> rfl

section Below

variable {below : Below} (parts : ∀ site expr, Grows (below site expr))

include parts

theorem build_grows (site : Site) (key : DeclKey) : Grows (build below site key) := by
  intro before
  have inner := Grows.bind (Grows.declared key)
    (parts (site.entering key before.references.length)) (before.withReference key)
  rw [outcome_build]
  generalize Resolve.outcome _ (before.withReference key) = ended at inner ⊢
  rcases ended with ⟨stop | validator, after⟩
  · exact List.prefix_rfl
  · exact inner.trans (List.prefix_append _ _)

theorem resolveName_grows (site : Site) (name : List Char) : Grows (resolveName below site name) := by
  unfold resolveName
  cases site.file with
  | none => exact .throw _
  | some file =>
      refine .bind (.locate name _) fun key => .bind .get fun resolver => ?_
      cases resolver.cached? key with
      | some validator => exact .pure _
      | none =>
          cases site.building.find? fun entry => entry.key.sameAs key with
          | none => exact build_grows parts site key
          | some entry =>
              by_cases near : site.depth ≤ entry.depth
              · simpa only [near, if_true] using .throw _
              · simpa only [near, if_false] using .pure _

theorem resolveBuilt_grows (site : Site) (name : List Char) :
    Grows (resolveBuilt below site name) := by
  refine .bind (parts site name) fun validator => ?_
  cases validator with
  | deferred name cell => exact .throw _
  | _ => exact .pure _

theorem resolveEach_grows (site : Site) (exprs : List (List Char)) :
    Grows (resolveEach below site exprs) := by
  induction exprs with
  | nil => exact .pure _
  | cons expr rest ih => exact .bind (parts site expr) fun _ => .bind ih fun _ => .pure _

theorem resolveMembers_grows (site : Site) (members : List (List Char)) :
    Grows (resolveMembers below site members) := by
  induction members with
  | nil => exact .pure _
  | cons member rest ih =>
      simp only [resolveMembers]
      cases Expr.member? member with
      | none => exact .throw _
      | some found =>
          cases found with
          | index type => exact .bind (parts _ type) fun _ => .bind ih fun _ => .pure _
          | field name optional type =>
              refine .bind (parts _ type) fun _ => .bind .get fun _ => .bind .freshId fun _ => ?_
              exact .bind ih fun _ => .pure _

theorem resolveForm_grows (site : Site) (form : Form) : Grows (resolveForm below site form) := by
  cases form with
  | group connective operands =>
      exact .bind (resolveEach_grows parts site operands) fun _ => .bind .freshId fun _ => .pure _
  | array element => exact .bind .freshId fun _ => .bind (parts _ element) fun _ => .pure _
  | primitive kind => exact .pure _
  | partialOf name =>
      refine .bind (resolveBuilt_grows parts site name) fun validator => ?_
      cases validator with
      | record own ancestors => exact .bind .freshId fun _ => .pure _
      | _ => exact .throw _
  | record record =>
      refine .bind ?_ fun ancestors => .bind (resolveMembers_grows parts site _) fun _ =>
        .bind .freshId fun _ => .pure _
      unfold resolveParent
      cases record.parent with
      | none => exact .pure _
      | some parent =>
          refine .bind (resolveBuilt_grows parts site parent) fun validator => ?_
          cases validator with
          | record own ancestors => exact .pure _
          | _ => exact .throw _
  | reference name => exact resolveName_grows parts site name

end Below

theorem resolveWithin_grows (bound : Nat) (site : Site) (expr : List Char) :
    Grows (resolveWithin bound site expr) := by
  induction bound generalizing site expr with
  | zero => exact .throw _
  | succ bound ih =>
      simp only [resolveWithin, resolveStep_eq]
      exact .bind (.ofExcept _) fun form => resolveForm_grows ih site form

end Conform.Resolve
