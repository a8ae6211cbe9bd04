import Conform.Proofs.Resolver.Growth
import Conform.Proofs.Resolver.Kept

/-!
A resolver at work. A resolution hands down where it stands; here a resolver keeps that itself, with
a stack of the declarations being built, a count of the fields and elements around, and a note of
the declaration to build first, all changed on the way in and undone on every way out. Both do the
same, because what fails has only added to the cache.
-/

namespace Conform

structure Progress where
  resolver : Resolver
  /-- The innermost first. -/
  building : List Building := []
  /-- How many fields and elements are around what is being resolved. -/
  depth : Nat := 0
  /-- A declaration to build before the next attempt. -/
  awaited : Option DeclKey := none

inductive Halt where
  | fault (fault : Fault)
  | unfinished

def Stop.halt : Stop → Halt
  | .fault cause _ => .fault cause
  | .unfinished => .unfinished

def Progress.site (progress : Progress) (file : Option FilePath) : Site :=
  { file := file, depth := progress.depth, building := progress.building }

abbrev Work := ExceptT Halt (StateM Progress)

abbrev Beneath := Option FilePath → List Char → Work Validator

namespace Work

def attempt (work : Work α) : Work (Except Halt α) :=
  ExceptT.lift work.run

def perform (file : Option FilePath) (action : Site → Resolve α) : Work α := fun progress =>
  match (action (progress.site file)).outcome progress.resolver with
  | (.ok value, after) => (.ok value, { progress with resolver := after })
  | (.error stop, after) =>
    (.error stop.halt,
      { progress with resolver := after, awaited := stop.needs.or progress.awaited })

def plain (action : Resolve α) : Work α :=
  perform none fun _ => action

def fail (fault : Fault) : Work α :=
  throw (.fault fault)

def nested (work : Work α) : Work α := do
  modify fun progress => { progress with depth := progress.depth + 1 }
  let result ← attempt work
  modify fun progress => { progress with depth := progress.depth - 1 }
  MonadExcept.ofExcept result

def build (beneath : Beneath) (key : DeclKey) : Work Validator := do
  let mark := (← get).resolver.cache.length
  let cell ← plain (Resolve.newReference key)
  modify fun progress =>
    { progress with building := ⟨key, progress.depth, cell⟩ :: progress.building }
  let result ← attempt do beneath (some key.file) (← plain (Resolve.declared key))
  modify fun progress => { progress with building := progress.building.tail }
  match result with
  | .ok validator =>
    modify fun progress =>
      { progress with resolver := progress.resolver.finished key cell validator }
    return validator
  | .error halt =>
    modify fun progress =>
      { progress with resolver := progress.resolver.abandoned (progress.resolver.cache.take mark) }
    throw halt

def resolveKey (beneath : Beneath) (key : DeclKey) : Work Validator := do
  let progress ← get
  match progress.resolver.cached? key with
  | some validator => return validator
  | none =>
    match progress.building.find? fun entry => entry.key.sameAs key with
    | none => build beneath key
    | some entry =>
      if progress.depth ≤ entry.depth then fail (.recursiveAlias key.name)
      else return .deferred key.name entry.cell

def resolveName (beneath : Beneath) (file : Option FilePath) (name : List Char) :
    Work Validator := do
  match file with
  | none => fail (.missingFile (String.ofList name))
  | some file => resolveKey beneath (← plain (Resolve.locate name file.normalize))

def resolveBuilt (beneath : Beneath) (file : Option FilePath) (name : List Char) :
    Work Validator := do
  match ← beneath file name with
  | .deferred name cell =>
    modify fun progress =>
      { progress with
        awaited := (Resolve.prerequisite? (progress.site file) cell).or progress.awaited }
    fail (.recursiveAlias name)
  | validator => return validator

def resolvePartial (beneath : Beneath) (file : Option FilePath) (name : List Char) :
    Work Validator := do
  match ← resolveBuilt beneath file name with
  | .record own ancestors => return .record (own.relaxed (← plain Resolve.freshId)) ancestors
  | _ => fail (.partialTarget (String.ofList name))

def resolveEach (beneath : Beneath) (file : Option FilePath) :
    List (List Char) → Work (List Validator)
  | [] => return []
  | expr :: rest => do
    let validator ← beneath file expr
    return validator :: (← resolveEach beneath file rest)

def resolveParent (beneath : Beneath) (file : Option FilePath) (parts : Expr.RecordParts) :
    Work (List (Level Validator)) := do
  match parts.parent with
  | none => return []
  | some parent =>
    match ← resolveBuilt beneath file parent with
    | .record own ancestors => return own :: ancestors
    | _ => fail (.parentNotRecord (String.ofList parent) (String.ofList (parts.name.getD [])))

def resolveMembers (beneath : Beneath) (file : Option FilePath) :
    List (List Char) → Work (List (Field Validator) × Option Validator)
  | [] => return ([], none)
  | member :: rest => do
    match Expr.member? member with
    | none => fail (.invalidField (String.ofList member) file)
    | some (.index type) =>
      let index ← nested (beneath file type)
      let (fields, later) ← resolveMembers beneath file rest
      return (fields, later.or (some index))
    | some (.field name optional type) =>
      let validator ← nested (beneath file type)
      let strict := (← get).resolver.options.strict
      let field := Field.make (← plain Resolve.freshId) (String.ofList name) optional strict validator
      let (fields, index) ← resolveMembers beneath file rest
      return (field :: fields, index)

def resolveForm (beneath : Beneath) (file : Option FilePath) : Form → Work Validator
  | .group connective operands => do
    let validators ← resolveEach beneath file operands
    return .group (← plain Resolve.freshId) connective validators
  | .array element => do
    return .array (← plain Resolve.freshId) (← nested (beneath file element))
  | .primitive kind => return .primitive kind
  | .partialOf name => resolvePartial beneath file name
  | .record parts => do
    let ancestors ← resolveParent beneath file parts
    let (fields, index) ← resolveMembers beneath file (Expr.members parts.body)
    return .record ⟨← plain Resolve.freshId, parts.name.map String.ofList, fields, index⟩ ancestors
  | .reference name => resolveName beneath file name

def resolveWithin : Nat → Beneath
  | 0 => fun _ _ => throw .unfinished
  | bound + 1 => fun file expr => do
    resolveForm (resolveWithin bound) file (← plain (Resolve.ofExcept (Form.read expr)))

def inOrder (beneath : Beneath) (work : Work Validator) :
    Nat → List DeclKey → Work (Validator × List DeclKey)
  | 0, _ => throw .unfinished
  | retries + 1, tried => do
    match ← attempt work with
    | .ok validator => return (validator, tried)
    | .error halt =>
      let awaited := (← get).awaited
      modify fun progress => { progress with awaited := none }
      match awaited with
      | none => throw halt
      | some key =>
        if tried.any (·.sameAs key) then throw halt
        else do
          let (_, tried) ← inOrder beneath (resolveKey beneath key) retries (key :: tried)
          inOrder beneath work retries tried

end Work

namespace Progress

def resolve (progress : Progress) (expr : String) (file : Option FilePath) :
    Option (Except Fault Validator) × Progress :=
  let text := expr.toList
  let beneath := Work.resolveWithin (progress.resolver.nestingLimit text)
  let work := Work.inOrder beneath (beneath file text)
    (progress.resolver.declarationLimit text + 1) []
  match work.run { progress with awaited := none } with
  | (.ok (validator, _), after) => (some (.ok validator), after)
  | (.error (.fault fault), after) => (some (.error fault), after)
  | (.error .unfinished, after) => (none, after)

def after (progress : Progress) : Operation → Progress
  | .resolve expr file => (progress.resolve expr file).2
  | .setStrict strict => { progress with resolver := progress.resolver.setStrict strict }
  | .clear => { progress with resolver := progress.resolver.clear }

end Progress

namespace Work

variable {α β : Type} {file : Option FilePath}

theorem run_bind (work : Work α) (next : α → Work β) (progress : Progress) :
    (work >>= next) progress =
      match work progress with
      | (.ok value, middle) => next value middle
      | (.error halt, middle) => (.error halt, middle) := by
  change ExceptT.bindCont next (work progress).1 (work progress).2 = _
  rcases work progress with ⟨_ | value, middle⟩ <;> rfl

@[simp] theorem run_pure (value : α) (progress : Progress) :
    (pure value : Work α) progress = (.ok value, progress) := rfl

@[simp] theorem run_get (progress : Progress) :
    (get : Work Progress) progress = (.ok progress, progress) := rfl

@[simp] theorem run_modify (change : Progress → Progress) (progress : Progress) :
    (modify change : Work PUnit) progress = (.ok ⟨⟩, change progress) := rfl

@[simp] theorem run_throw (halt : Halt) (progress : Progress) :
    (throw halt : Work α) progress = (.error halt, progress) := rfl

@[simp] theorem run_attempt (work : Work α) (progress : Progress) :
    attempt work progress = (.ok (work progress).1, (work progress).2) := rfl

def Does (file : Option FilePath) (work : Work α) (action : Site → Resolve α) : Prop :=
  work = perform file action

namespace Does

theorem bind {work : Work α} {action : Site → Resolve α} {next : α → Work β}
    {next' : α → Site → Resolve β} (does : Does file work action)
    (later : ∀ value, Does file (next value) (next' value)) :
    Does file (work >>= next) fun site => action site >>= fun value => next' value site := by
  funext progress
  rw [show work = _ from does, run_bind]
  simp only [perform, Resolve.outcome_bind]
  rcases (action (progress.site file)).outcome progress.resolver with ⟨stop | value, after⟩
  · rfl
  · exact congrFun (later value) _

theorem pure (value : α) : Does file (pure value) fun _ => pure value := rfl

theorem plain (action : Resolve α) : Does file (plain action) fun _ => action := rfl

theorem fail (fault : Option FilePath → Fault) :
    @Does α file (fail (fault file)) fun site => Resolve.fail (fault site.file) := rfl

theorem get {next : Progress → Work α} {next' : Resolver → Site → Resolve α}
    (later : ∀ progress, Does file (next progress) (next' progress.resolver)) :
    Does file (get >>= next) fun site => get >>= fun resolver => next' resolver site := by
  funext progress
  rw [run_bind, run_get]
  exact congrFun (later progress) progress

theorem nested {work : Work α} {action : Site → Resolve α} (does : Does file work action) :
    Does file (nested work) fun site => action { site with depth := site.depth + 1 } := by
  funext progress
  rw [show work = _ from does]
  simp only [Work.nested, run_bind, run_modify, run_attempt, perform, Progress.site]
  generalize (action _).outcome progress.resolver = ended
  rcases ended with ⟨stop | value, after⟩ <;> rfl

end Does

section Below

variable {beneath : Beneath} {below : Resolve.Below}
  (parts : ∀ file expr, Does file (beneath file expr) fun site => below site expr)

include parts

theorem resolveEach_does (exprs : List (List Char)) :
    Does file (resolveEach beneath file exprs) fun site => Resolve.resolveEach below site exprs := by
  induction exprs with
  | nil => exact .pure _
  | cons expr rest ih => exact .bind (parts file expr) fun _ => .bind ih fun _ => .pure _

theorem resolveMembers_does (members : List (List Char)) :
    Does file (resolveMembers beneath file members) fun site =>
      Resolve.resolveMembers below site members := by
  induction members with
  | nil => exact .pure _
  | cons member rest ih =>
      simp only [resolveMembers, Resolve.resolveMembers]
      cases Expr.member? member with
      | none => exact .fail fun file => .invalidField (String.ofList member) file
      | some found =>
          cases found with
          | index type => exact .bind (parts file type).nested fun _ => .bind ih fun _ => .pure _
          | field name optional type =>
              refine .bind (parts file type).nested fun _ => .get fun _ => ?_
              exact .bind (.plain _) fun _ => .bind ih fun _ => .pure _

theorem resolveBuilt_does (name : List Char) :
    Does file (resolveBuilt beneath file name) fun site => Resolve.resolveBuilt below site name := by
  refine .bind (parts file name) fun validator => ?_
  cases validator <;> rfl

theorem resolvePartial_does (name : List Char) :
    Does file (resolvePartial beneath file name) fun site =>
      Resolve.resolvePartial below site name := by
  refine .bind (resolveBuilt_does parts name) fun validator => ?_
  cases validator with
  | record own ancestors => exact .bind (.plain _) fun _ => .pure _
  | _ => exact .fail fun _ => .partialTarget (String.ofList name)

theorem resolveParent_does (record : Expr.RecordParts) :
    Does file (resolveParent beneath file record) fun site =>
      Resolve.resolveParent below site record := by
  simp only [resolveParent, Resolve.resolveParent]
  cases record.parent with
  | none => exact .pure _
  | some parent =>
      refine .bind (resolveBuilt_does parts parent) fun validator => ?_
      cases validator with
      | record own ancestors => exact .pure _
      | _ => exact .fail fun _ => .parentNotRecord _ _

theorem build_does (grows : ∀ site expr, (below site expr).Grows) (key : DeclKey) :
    Does file (build beneath key) fun site => Resolve.build below site key := by
  funext progress
  have inner : Does (some key.file)
      (plain (Resolve.declared key) >>= fun expr => beneath (some key.file) expr)
      fun site => Resolve.declared key >>= fun expr => below site expr :=
    .bind (.plain _) fun expr => parts (some key.file) expr
  have grown := (Resolve.Grows.declared key).bind
    (grows ((progress.site file).entering key progress.resolver.references.length))
    (progress.resolver.withReference key)
  have reference : plain (Resolve.newReference key) progress =
      (.ok progress.resolver.references.length,
        { progress with resolver := progress.resolver.withReference key }) := rfl
  simp only [build, run_bind, run_get, reference, run_modify, run_attempt]
  rw [← run_bind, show _ = _ from inner]
  simp only [perform, Resolve.outcome_build, Progress.site, Site.entering] at grown ⊢
  generalize Resolve.outcome _ (progress.resolver.withReference key) = ended at grown ⊢
  rcases ended with ⟨stop | validator, after⟩
  · have cut : after.cache.take progress.resolver.cache.length = progress.resolver.cache :=
      (List.prefix_iff_eq_take.mp grown).symm
    simp only [run_bind, run_modify, cut]
    rfl
  · rfl

theorem resolveKey_does (grows : ∀ site expr, (below site expr).Grows) (key : DeclKey) :
    Does file (resolveKey beneath key) fun site => Resolve.resolveKey below site key := by
  funext progress
  simp only [resolveKey, perform, Resolve.resolveKey, run_bind, run_get, Resolve.outcome_bind,
    Resolve.outcome_get]
  cases progress.resolver.cached? key with
  | some validator => rfl
  | none =>
      simp only [Progress.site]
      cases progress.building.find? fun entry => entry.key.sameAs key with
      | none => exact congrFun (build_does parts grows key) progress
      | some entry =>
          by_cases near : progress.depth ≤ entry.depth
          · simp only [near, if_true]
            rfl
          · simp only [near, if_false]
            rfl

theorem resolveForm_does (grows : ∀ site expr, (below site expr).Grows) (form : Form) :
    Does file (resolveForm beneath file form) fun site => Resolve.resolveForm below site form := by
  cases form with
  | group connective operands =>
      exact .bind (resolveEach_does parts operands) fun _ => .bind (.plain _) fun _ => .pure _
  | array element =>
      exact .bind (.plain _) fun _ => .bind (parts file element).nested fun _ => .pure _
  | primitive kind => exact .pure _
  | partialOf name => exact resolvePartial_does parts name
  | record record =>
      refine .bind (resolveParent_does parts record) fun _ => ?_
      exact .bind (resolveMembers_does parts _) fun _ => .bind (.plain _) fun _ => .pure _
  | reference name =>
      cases file with
      | none => rfl
      | some file => exact .bind (.plain _) fun key => resolveKey_does parts grows key

end Below

theorem resolveWithin_does (bound : Nat) (file : Option FilePath) (expr : List Char) :
    Does file (resolveWithin bound file expr) fun site => Resolve.resolveWithin bound site expr := by
  induction bound generalizing file expr with
  | zero => rfl
  | succ bound ih =>
      simp only [resolveWithin, Resolve.resolveWithin, Resolve.resolveStep_eq]
      exact .bind (.plain _) fun form =>
        resolveForm_does ih (Resolve.resolveWithin_grows bound) form

theorem inOrder_idle (bound : Nat) {work : Work Validator} {action : Site → Resolve Validator}
    (does : Does file work action) (retries : Nat) (tried : List DeclKey) (resolver : Resolver) :
    inOrder (resolveWithin bound) work retries tried { resolver := resolver } =
      match (Resolve.inOrder (Resolve.resolveWithin bound) (action { file := file }) retries
          tried).outcome resolver with
      | (.ok found, after) => (.ok found, { resolver := after })
      | (.error stop, after) => (.error stop.halt, { resolver := after }) := by
  induction retries generalizing file work action tried resolver with
  | zero => rfl
  | succ retries ih =>
      obtain rfl : work = perform file action := does
      rw [inOrder, Resolve.inOrder, run_bind, run_attempt, Resolve.outcome_tryCatch,
        Resolve.outcome_bind]
      simp only [perform, Progress.site]
      rcases (action { file := file }).outcome resolver with ⟨stop | validator, after⟩
      · rcases stop with ⟨fault, _ | key⟩ | _
        · rfl
        · have first := @ih none _ _
            (resolveKey_does (resolveWithin_does bound) (Resolve.resolveWithin_grows bound) key)
            (key :: tried) after
          simp only [Stop.needs, Option.some_or, run_bind, run_get, run_modify]
          by_cases known : tried.any (·.sameAs key) = true
          · simp only [known, if_true]
            rfl
          · simp only [known, Bool.false_eq_true, if_false, run_bind, first, Resolve.outcome_bind]
            generalize Resolve.outcome _ after = ended
            rcases ended with ⟨stop | ⟨validator, tried⟩, middle⟩
            · rfl
            · exact ih rfl tried middle
        · rfl
      · rfl

end Work

namespace Progress

theorem resolve_idle (resolver : Resolver) (expr : String) (file : Option FilePath) :
    ({ resolver := resolver } : Progress).resolve expr file =
      ((resolver.resolve expr file).1, { resolver := (resolver.resolve expr file).2 }) := by
  have run := Work.inOrder_idle (resolver.nestingLimit expr.toList)
    (Work.resolveWithin_does (resolver.nestingLimit expr.toList) file expr.toList)
    (resolver.declarationLimit expr.toList + 1) [] resolver
  simp only [Progress.resolve, ExceptT.run, run, Resolver.resolve_eq, Resolver.resolution]
  generalize Resolve.outcome _ resolver = ended
  rcases ended with ⟨⟨fault, needs⟩ | _ | ⟨validator, tried⟩, after⟩ <;> rfl

theorem after_idle (resolver : Resolver) (operation : Operation) :
    ({ resolver := resolver } : Progress).after operation =
      { resolver := operation.after resolver } := by
  cases operation with
  | resolve expr file => exact congrArg Prod.snd (resolve_idle resolver expr file)
  | setStrict strict => rfl
  | clear => rfl

theorem foldl_after_idle (resolver : Resolver) (operations : List Operation) :
    operations.foldl after { resolver := resolver } =
      { resolver := operations.foldl Operation.after resolver } := by
  induction operations generalizing resolver with
  | nil => rfl
  | cons operation rest ih => rw [List.foldl_cons, List.foldl_cons, after_idle, ih]

end Progress

end Conform
