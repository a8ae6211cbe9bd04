import Conform.Proofs.Resolver.Edges
import Conform.Proofs.Resolver.Progress

/-!
What a call leaves behind: nothing that is under way, and a cache that has only grown. So as long as
nothing is forgotten, a declaration has one validator.
-/

namespace Conform

namespace Operation

/-- Nothing that was built is forgotten, given that the setting is `strict`. -/
def Retains (strict : Bool) : Operation → Prop
  | resolve _ _ => True
  | setStrict changed => changed = strict
  | clear => False

end Operation

namespace Validator

theorem same_refl (validator : Validator) : validator.same validator = true := by
  cases validator <;> simp [same]

end Validator

namespace Resolver

theorem Faithful.after {resolver : Resolver} (faithful : resolver.Faithful) (operation : Operation) :
    (operation.after resolver).Faithful := by
  cases operation with
  | resolve expr file => exact (resolve_kept faithful expr file).2.1
  | setStrict strict =>
      simp only [Operation.after, setStrict]
      split <;> exact faithful
  | clear => simp [Faithful, Operation.after, clear]

theorem Faithful.foldl_after {resolver : Resolver} (faithful : resolver.Faithful)
    (operations : List Operation) : (operations.foldl Operation.after resolver).Faithful := by
  induction operations generalizing resolver with
  | nil => exact faithful
  | cons operation rest ih => exact ih (faithful.after operation)

theorem kept_foldl {resolver : Resolver} (faithful : resolver.Faithful) {operations : List Operation}
    (retains : ∀ operation ∈ operations, operation.Retains resolver.options.strict) :
    Kept resolver (operations.foldl Operation.after resolver) ∧
      (operations.foldl Operation.after resolver).Faithful := by
  induction operations generalizing resolver with
  | nil => exact ⟨.refl resolver, faithful⟩
  | cons operation rest ih =>
      have first : Kept resolver (operation.after resolver) ∧ (operation.after resolver).Faithful := by
        have retained := retains operation (List.mem_cons_self ..)
        cases operation with
        | resolve expr file =>
            obtain ⟨kept, faithful, _⟩ := resolve_kept faithful expr file
            exact ⟨kept, faithful⟩
        | setStrict strict =>
            obtain rfl : strict = resolver.options.strict := retained
            simpa [Operation.after, setStrict] using ⟨Kept.refl resolver, faithful⟩
        | clear => exact retained.elim
      obtain ⟨kept, faithful⟩ := first
      rw [List.foldl_cons]
      have later := ih faithful fun operation member => by
        rw [kept.options]
        exact retains operation (List.mem_cons_of_mem _ member)
      exact ⟨kept.trans later.1, later.2⟩

/-- A call leaves nothing under way and keeps what the cache holds. While nothing is forgotten, two
names for one declaration get one validator. -/
theorem call_keeps (options : Options) (files : FileTable) (earlier : List Operation) (expr : String)
    (file : Option FilePath) :
    let before := earlier.foldl Progress.after { resolver := fresh options files }
    let after := (before.resolve expr file).2
    before.resolve expr file = ((before.resolver.resolve expr file).1,
        { resolver := (before.resolver.resolve expr file).2 }) ∧
      after.building = [] ∧ after.depth = 0 ∧ after.awaited = none ∧
      before.resolver.cache <+: after.resolver.cache ∧
      ∀ validator key, (before.resolve expr file).1 = some (.ok validator) →
        before.resolver.Leads expr file key →
        ∀ between : List Operation,
          (∀ operation ∈ between, operation.Retains after.resolver.options.strict) →
          ∀ expr' file' validator' key',
            let later := between.foldl Progress.after after
            (later.resolve expr' file').1 = some (.ok validator') →
              later.resolver.Leads expr' file' key' → key.sameAs key' = true →
              validator' = validator ∧ validator'.same validator = true := by
  dsimp only
  have faithful : (earlier.foldl Operation.after (fresh options files)).Faithful :=
    Faithful.foldl_after (by simp [Faithful, fresh]) earlier
  rw [Progress.foldl_after_idle]
  generalize earlier.foldl Operation.after (fresh options files) = before at faithful ⊢
  obtain ⟨kept, faithful', found⟩ := resolve_kept faithful expr file
  rw [Progress.resolve_idle]
  refine ⟨rfl, rfl, rfl, rfl, kept.cache, ?_⟩
  intro validator key answer leads between retains expr' file' validator' key'
  rw [Progress.foldl_after_idle, Progress.resolve_idle]
  intro answer' leads' same
  obtain ⟨meanwhile, faithful''⟩ := kept_foldl faithful' retains
  obtain ⟨kept', _, found'⟩ := resolve_kept faithful'' expr' file'
  have first := cached?_mono (meanwhile.trans kept').cache (found validator key answer leads)
  have second := found' validator' key' answer' leads'
  rw [cached?_congr _ same, second] at first
  obtain rfl := Option.some.inj first
  exact ⟨rfl, validator'.same_refl⟩

def lead? (resolver : Resolver) (expr : String) (file : Option FilePath) : Option DeclKey :=
  (bareName? expr.toList).bind fun name =>
    file.bind fun known => (resolver.sources.locate name known.normalize).toOption

theorem leads_of_lead? {resolver : Resolver} {expr : String} {file : Option FilePath} {key : DeclKey}
    (found : resolver.lead? expr file = some key) : resolver.Leads expr file key := by
  obtain ⟨name, named, located⟩ := Option.bind_eq_some_iff.mp found
  obtain ⟨known, rfl, means⟩ := Option.bind_eq_some_iff.mp located
  exact ⟨name, read_of_bareName? named, known, rfl, ok_of_toOption means⟩

def shapesFile : FilePath := ⟨"/shapes.ts"⟩

def drawingFile : FilePath := ⟨"/lib/../drawing.ts"⟩

def shapes : FileTable :=
  .ofList [(shapesFile, .text "interface Point \x7b x: number \x7d"),
    (⟨"/drawing.ts"⟩, .text "import \x7b Point as Spot \x7d from './shapes'")]

def beforePoint : Progress := { resolver := fresh {} shapes }

def afterPoint : Progress :=
  (beforePoint.resolve "Point" (some shapesFile)).2.after (.resolve "Line" (some shapesFile))

theorem call_keeps_shapes :
    ∃ validator, (beforePoint.resolve "Point" (some shapesFile)).1 = some (.ok validator) ∧
      (afterPoint.resolve "Spot" (some drawingFile)).1 = some (.ok validator) := by
  have passed : (beforePoint.resolve "Point" (some shapesFile)).1.any (·.isOk) := by decide +kernel
  have passed' : (afterPoint.resolve "Spot" (some drawingFile)).1.any (·.isOk) := by decide +kernel
  obtain ⟨validator, answer⟩ := exists_of_isOk passed
  obtain ⟨validator', answer'⟩ := exists_of_isOk passed'
  have leads : beforePoint.resolver.Leads "Point" (some shapesFile) ⟨"Point", shapesFile⟩ :=
    leads_of_lead? (by decide +kernel)
  have leads' : afterPoint.resolver.Leads "Spot" (some drawingFile) ⟨"Point", ⟨"/shapes.ts"⟩⟩ :=
    leads_of_lead? (by decide +kernel)
  obtain ⟨_, _, _, _, _, one⟩ := call_keeps {} shapes [] "Point" (some shapesFile)
  obtain ⟨rfl, _⟩ := one validator _ answer leads [.resolve "Line" (some shapesFile)]
    (by simp [Operation.Retains]) "Spot" (some drawingFile) validator' _ answer' leads' (by decide)
  exact ⟨validator', answer, answer'⟩

end Resolver

end Conform
