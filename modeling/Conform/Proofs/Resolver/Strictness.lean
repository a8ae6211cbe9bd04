import Conform.Proofs.Resolver.Bounded
import Conform.Proofs.Resolver.Completed
import Conform.Proofs.Validator.Loosened

/-!
A resolution that is strict about `null` and one that is not go the same way. What the second one
gives, and leaves behind, is what the first one does, with everything loosened.
-/

namespace Conform

open Validator

def Resolver.loosened (resolver : Resolver) : Resolver :=
  { resolver with
    options := { resolver.options with strict := false }
    cache := resolver.cache.map fun entry => (entry.1, entry.2.loosened)
    references := resolver.references.loosened }

theorem Resolver.cached?_loosened (resolver : Resolver) (key : DeclKey) :
    resolver.loosened.cached? key = (resolver.cached? key).map Validator.loosened := by
  simp only [cached?, Resolver.loosened, List.find?_map, Function.comp_def, Option.map_map]

theorem References.fill_loosened (references : References) (cell : CellId) (validator : Validator) :
    References.fill references.loosened cell validator.loosened =
      (references.fill cell validator).loosened := by
  apply List.ext_getElem?
  intro position
  simp only [References.fill, References.loosened, List.getElem?_modify, List.getElem?_map]
  cases references[position]? with
  | none => rfl
  | some reference => by_cases here : cell = position <;> simp [here]

namespace Resolve

def Mirrors {α β : Type} (change : α → β) (action : Resolve α) (action' : Resolve β) : Prop :=
  ∀ before, action'.outcome before.loosened =
    ((action.outcome before).1.map change, (action.outcome before).2.loosened)

namespace Mirrors

variable {α α' β β' : Type} {change : α → α'} {change' : β → β'}

theorem pure (change : α → α') (value : α) :
    Mirrors change (pure value) (Pure.pure (change value)) := fun _ => rfl

theorem fail (fault : Fault) : Mirrors change (fail fault) (fail fault) := fun _ => rfl

theorem throw (stop : Stop) : Mirrors change (throw stop) (MonadExcept.throw stop) := fun _ => rfl

theorem get : Mirrors Resolver.loosened get get := fun _ => rfl

theorem freshId : Mirrors id freshId freshId := fun _ => rfl

theorem ofExcept (result : Except Fault α) :
    Mirrors id (ofExcept result) (Resolve.ofExcept result) := by
  intro before
  cases result <;> rfl

theorem modify {step step' : Resolver → Resolver}
    (same : ∀ resolver, step' resolver.loosened = (step resolver).loosened) :
    Mirrors id (modify step) (modify step') := by
  intro before
  simp only [outcome_modify, same]
  rfl

theorem bind {first : Resolve α} {first' : Resolve α'} {next : α → Resolve β}
    {next' : α' → Resolve β'} (mirrors : Mirrors change first first')
    (later : ∀ value, Mirrors change' (next value) (next' (change value))) :
    Mirrors change' (first >>= next) (first' >>= next') := by
  intro before
  rw [outcome_bind, outcome_bind, mirrors before]
  rcases first.outcome before with ⟨stop | value, middle⟩
  · rfl
  · exact later value middle

theorem tryCatch {action : Resolve α} {action' : Resolve α'} {handle : Stop → Resolve α}
    {handle' : Stop → Resolve α'} (mirrors : Mirrors change action action')
    (later : ∀ stop, Mirrors change (handle stop) (handle' stop)) :
    Mirrors change (tryCatch action handle) (MonadExcept.tryCatch action' handle') := by
  intro before
  rw [outcome_tryCatch, outcome_tryCatch, mirrors before]
  rcases action.outcome before with ⟨stop | value, middle⟩
  · exact later stop middle
  · rfl

theorem keepingCache {action : Resolve α} {action' : Resolve α'}
    (mirrors : Mirrors change action action') :
    Mirrors change (keepingCache action) (Resolve.keepingCache action') :=
  .bind .get fun _ => .tryCatch mirrors fun stop =>
    .bind (.modify fun _ => rfl) fun _ => .throw stop

end Mirrors

theorem newReference_mirrors (key : DeclKey) :
    Mirrors id (newReference key) (newReference key) := by
  refine .bind .get fun resolver => ?_
  have cell : resolver.loosened.references.length = resolver.references.length := by
    simp [Resolver.loosened, References.loosened]
  simp only [cell]
  refine .bind (.modify fun resolver => ?_) fun _ => .pure _ _
  simp [Resolver.loosened, References.loosened]

theorem fileText_mirrors (file : FilePath) : Mirrors id (fileText file) (fileText file) := by
  refine .bind .get fun resolver => ?_
  have known : resolver.loosened.knownText? file = resolver.knownText? file := rfl
  have files : resolver.loosened.files = resolver.files := rfl
  simp only [known, files]
  split
  · exact .pure _ _
  · split
    · exact .fail _
    · exact .fail _
    · exact .bind (.modify fun _ => rfl) fun _ => .pure _ _

theorem locate_mirrors (name : List Char) (file : FilePath) :
    Mirrors id (locate name file) (locate name file) := by
  refine .bind (fileText_mirrors file) fun text => ?_
  simp only [id]
  split
  · exact .pure _ _
  · exact .bind .get fun resolver => .bind (.ofExcept _) fun _ => .pure _ _

theorem declared_mirrors (key : DeclKey) : Mirrors id (declared key) (declared key) := by
  refine .bind (fileText_mirrors key.file) fun text => .bind (.ofExcept _) fun found => ?_
  simp only [id]
  split
  · exact .pure _ _
  · refine .bind (.ofExcept _) fun found => ?_
    simp only [id]
    split
    · exact .pure _ _
    · exact .fail _

section Steps

variable {below below' : Below}
  (mirrors : ∀ site expr, Mirrors Validator.loosened (below site expr) (below' site expr))

include mirrors

theorem build_mirrors (site : Site) (key : DeclKey) :
    Mirrors Validator.loosened (build below site key) (build below' site key) := by
  refine .keepingCache (.bind (newReference_mirrors key) fun cell =>
    .bind (declared_mirrors key) fun expr => .bind (mirrors _ expr) fun validator =>
      .bind (.modify fun resolver => ?_) fun _ => .pure _ _)
  simp only [Resolver.loosened, id, References.fill_loosened, List.map_append, List.map_cons,
    List.map_nil]

theorem resolveKey_mirrors (site : Site) (key : DeclKey) :
    Mirrors Validator.loosened (resolveKey below site key) (resolveKey below' site key) := by
  refine .bind .get fun resolver => ?_
  simp only [Resolver.cached?_loosened]
  cases resolver.cached? key with
  | some validator => exact .pure _ _
  | none =>
      simp only [Option.map_none]
      split
      · exact build_mirrors mirrors site key
      · split
        · exact .fail _
        · exact .pure _ _

theorem resolveName_mirrors (site : Site) (name : List Char) :
    Mirrors Validator.loosened (resolveName below site name) (resolveName below' site name) := by
  unfold resolveName
  split
  · exact .fail _
  · exact .bind (locate_mirrors name _) fun key => resolveKey_mirrors mirrors site key

theorem resolveBuilt_mirrors (site : Site) (name : List Char) :
    Mirrors Validator.loosened (resolveBuilt below site name) (resolveBuilt below' site name) := by
  refine .bind (mirrors site name) fun validator => ?_
  cases validator with
  | deferred name cell => exact .throw _
  | _ => exact .pure _ _

theorem resolvePartial_mirrors (site : Site) (name : List Char) :
    Mirrors Validator.loosened (resolvePartial below site name)
      (resolvePartial below' site name) := by
  refine .bind (resolveBuilt_mirrors mirrors site name) fun validator => ?_
  cases validator with
  | record own ancestors =>
      refine .bind .freshId fun node => ?_
      simp only [id, Level.relaxed_loosened]
      exact .pure Validator.loosened (.record (own.relaxed node) ancestors)
  | _ => exact .fail _

theorem resolveEach_mirrors (site : Site) (exprs : List (List Char)) :
    Mirrors loosenedEach (resolveEach below site exprs) (resolveEach below' site exprs) := by
  induction exprs with
  | nil => exact .pure _ _
  | cons first rest ih =>
      exact .bind (mirrors site first) fun validator => .bind ih fun others =>
        .pure loosenedEach (validator :: others)

theorem resolveParent_mirrors (site : Site) (parts : Expr.RecordParts) :
    Mirrors loosenedLevels (resolveParent below site parts) (resolveParent below' site parts) := by
  unfold resolveParent
  split
  · exact .pure _ _
  · refine .bind (resolveBuilt_mirrors mirrors site _) fun validator => ?_
    cases validator with
    | record own ancestors => exact .pure loosenedLevels (own :: ancestors)
    | _ => exact .fail _

theorem resolveMembers_mirrors (site : Site) (members : List (List Char)) :
    Mirrors (fun found => (loosenedFields found.1, loosenedIndex found.2))
      (resolveMembers below site members) (resolveMembers below' site members) := by
  induction members with
  | nil => exact .pure _ _
  | cons member rest ih =>
      unfold resolveMembers
      split
      · exact .fail _
      · refine .bind (mirrors _ _) fun index => .bind ih fun found => ?_
        obtain ⟨fields, later⟩ := found
        have last : (loosenedIndex later).or (some index.loosened) =
            loosenedIndex (later.or (some index)) := by
          cases later <;> rfl
        simp only [last]
        exact .pure _ _
      · refine .bind (mirrors _ _) fun validator => .bind .get fun resolver =>
          .bind .freshId fun node => .bind ih fun found => ?_
        simp only [id, Resolver.loosened, Field.make_loosened _ _ _ resolver.options.strict]
        exact .pure _ _

theorem resolveForm_mirrors (site : Site) (form : Form) :
    Mirrors Validator.loosened (resolveForm below site form) (resolveForm below' site form) := by
  cases form with
  | group connective operands =>
      exact .bind (resolveEach_mirrors mirrors site operands) fun validators =>
        .bind .freshId fun node =>
          .pure Validator.loosened (.group node connective validators)
  | array element =>
      exact .bind .freshId fun node => .bind (mirrors _ element) fun validator =>
        .pure Validator.loosened (.array node validator)
  | primitive kind => exact .pure _ _
  | partialOf name => exact resolvePartial_mirrors mirrors site name
  | record parts =>
      exact .bind (resolveParent_mirrors mirrors site parts) fun ancestors =>
        .bind (resolveMembers_mirrors mirrors site _) fun found => .bind .freshId fun node =>
          .pure Validator.loosened
            (.record ⟨node, parts.name.map String.ofList, found.1, found.2⟩ ancestors)
  | reference name => exact resolveName_mirrors mirrors site name

end Steps

theorem resolveWithin_mirrors (bound : Nat) (site : Site) (expr : List Char) :
    Mirrors Validator.loosened (resolveWithin bound site expr) (resolveWithin bound site expr) := by
  induction bound generalizing site expr with
  | zero => exact .throw _
  | succ bound ih =>
      simp only [resolveWithin, resolveStep_eq]
      exact .bind (.ofExcept _) fun form => resolveForm_mirrors ih site form

/-- By induction on the retries: both ask for the same declarations. -/
theorem inOrder_mirrors (bound : Nat) {action action' : Resolve Validator}
    (mirrors : Mirrors Validator.loosened action action') (retries : Nat) (tried : List DeclKey) :
    Mirrors (fun found => (found.1.loosened, found.2))
      (inOrder (resolveWithin bound) action retries tried)
      (inOrder (resolveWithin bound) action' retries tried) := by
  induction retries generalizing action action' tried with
  | zero => exact .throw _
  | succ retries ih =>
      refine .tryCatch (.bind mirrors fun _ => .pure _ _) fun stop => ?_
      split
      · split
        · exact .fail _
        · exact .bind (ih (resolveKey_mirrors (resolveWithin_mirrors bound) _ _) _) fun found =>
            ih mirrors found.2
      · exact .throw _

end Resolve

namespace Resolver

variable {resolver : Resolver}

theorem resolve_loosened (resolver : Resolver) (expr : String) (file : Option FilePath) :
    resolver.loosened.resolve expr file =
      ((resolver.resolve expr file).1.map fun answer => answer.map Validator.loosened,
        (resolver.resolve expr file).2.loosened) := by
  have mirrored : Resolve.Mirrors (fun found => (found.1.loosened, found.2))
      (resolver.resolution expr file) (resolver.loosened.resolution expr file) :=
    Resolve.inOrder_mirrors _ (Resolve.resolveWithin_mirrors _ { file := file } expr.toList) _ []
  rw [resolve_eq resolver.loosened, resolve_eq resolver, mirrored resolver]
  rcases (resolver.resolution expr file).outcome resolver with
    ⟨(⟨fault, needs⟩ | _) | ⟨validator, tried⟩, after⟩
  · rfl
  · rfl
  · rfl

/-- Whether a resolver is strict makes no difference to the fault that it finds. It makes none to what
its validators say of a value without `null`; and of the other values, those that pass with strictness
pass without it. -/
theorem strictness_narrows (files : FileTable) (extensions : List String) (expr : String)
    (file : Option FilePath) :
    (∃ fault strictly loosely,
      (fresh ⟨true, extensions⟩ files).resolve expr file = (some (.error fault), strictly) ∧
        (fresh ⟨false, extensions⟩ files).resolve expr file = (some (.error fault), loosely)) ∨
    ∃ validator validator' strictly loosely,
      (fresh ⟨true, extensions⟩ files).resolve expr file = (some (.ok validator), strictly) ∧
        (fresh ⟨false, extensions⟩ files).resolve expr file = (some (.ok validator'), loosely) ∧
        (∀ scope value passes, Verdict strictly.references scope validator value true →
          Verdict loosely.references scope validator' value passes → passes = true) ∧
        ∀ bound scope value, value.all Json.nullFree →
          validateWithin loosely.references bound scope validator' value =
            validateWithin strictly.references bound scope validator value := by
  have loose := resolve_loosened (fresh ⟨true, extensions⟩ files) expr file
  rw [show (fresh ⟨true, extensions⟩ files).loosened = fresh ⟨false, extensions⟩ files from rfl]
    at loose
  have faithful : (fresh ⟨true, extensions⟩ files).Faithful := by simp [Faithful, fresh]
  rcases resolve_of_meets (resolution_bounded faithful expr file) with
    ⟨validator, strictly, _, ended, _⟩ | ⟨fault, _, strictly, ended, _⟩ | ⟨_, _, never⟩
  · rw [ended] at loose
    refine .inr ⟨validator, validator.loosened, strictly, strictly.loosened, ended, loose, ?_, ?_⟩
    · exact fun scope value passes verdict verdict' => verdict.loosened verdict'
    · intro bound scope value free
      have same : Comparison.equal.rel _ _ :=
        validateWithin_loosened strictly.references bound scope validator rfl (.inr free)
      exact same.symm
  · rw [ended] at loose
    exact .inl ⟨fault, strictly, strictly.loosened, ended, loose⟩
  · exact absurd rfl never

end Resolver

end Conform
