import Conform.Proofs.Resolver.Graph
import Conform.Proofs.Resolver.History

/-!
What has been built is kept. A resolution adds to the cache at its end and changes nothing that was
there; and the validator of a declaration that has been resolved by its name is found there again.
-/

namespace Conform

namespace DeclKey

theorem sameAs_symm {key other : DeclKey} (same : key.sameAs other = true) :
    other.sameAs key = true := by
  obtain ⟨name, file⟩ := sameAs_iff.mp same
  exact sameAs_iff.mpr ⟨name.symm, file.symm⟩

end DeclKey

namespace Resolver

variable {before after : Resolver} {key : DeclKey} {validator : Validator}

theorem cached?_congr (resolver : Resolver) {key other : DeclKey} (same : key.sameAs other = true) :
    resolver.cached? key = resolver.cached? other := by
  obtain ⟨name, file⟩ := DeclKey.sameAs_iff.mp same
  simp only [cached?, DeclKey.sameAs, FilePath.sameAs, name, file]

theorem cached?_mono (kept : before.cache <+: after.cache)
    (found : before.cached? key = some validator) : after.cached? key = some validator := by
  obtain ⟨more, same⟩ := kept
  obtain ⟨entry, known, rfl⟩ := Option.map_eq_some_iff.mp found
  simp only [cached?, ← same, List.find?_append, known, Option.some_or, Option.map_some]

theorem cached?_finished (resolver : Resolver) (key other : DeclKey) (cell : CellId)
    (validator : Validator) :
    (resolver.finished key cell validator).cached? other =
      (resolver.cached? other).or (if key.sameAs other then some validator else none) := by
  simp only [cached?, finished, List.find?_append, List.find?_singleton]
  cases resolver.cache.find? fun entry => entry.1.sameAs other with
  | some entry => rfl
  | none => by_cases same : key.sameAs other <;> simp [same]

structure Keeping (building : List Building) (resolver : Resolver) : Prop where
  faithful : resolver.Faithful
  uncached : ∀ entry ∈ building, resolver.cached? entry.key = none

structure Kept (before after : Resolver) : Prop where
  options : after.options = before.options
  files : after.files = before.files
  cache : before.cache <+: after.cache

theorem Kept.refl (resolver : Resolver) : Kept resolver resolver := ⟨rfl, rfl, List.prefix_rfl⟩

theorem Kept.trans {first second third : Resolver} (earlier : Kept first second)
    (later : Kept second third) : Kept first third :=
  ⟨later.options.trans earlier.options, later.files.trans earlier.files,
    earlier.cache.trans later.cache⟩

def keeping : Conduct where
  State := Keeping
  Since _ := Kept
  Fits _ _ _ _ := True
  Holds site resolver expr validator := ∀ name key, Form.read expr = .ok (.reference name) →
    resolver.sources.Means site.file name key →
    resolver.cached? key = some validator ∨ ∃ entry ∈ site.building, entry.key.sameAs key = true
  Halts _ _ _ _ := True
  Admits _ _ _ _ := True
  Stands site resolver key validator :=
    resolver.cached? key = some validator ∨ ∃ entry ∈ site.building, entry.key.sameAs key = true
  Breaks _ _ _ _ := True

theorem keeping_holds {site : Site} {resolver : Resolver} {expr : List Char} {form : Form}
    (read : Form.read expr = .ok form) (other : ∀ name, form ≠ .reference name) :
    keeping.Holds site resolver expr validator := by
  intro name key read'
  exact absurd (Except.ok.inj (read.symm.trans read')) (other name)

theorem Keeping.abandon {building : List Building} (outer : Keeping building before)
    (faithful : after.Faithful) : Keeping building (after.abandoned before.cache) :=
  ⟨faithful, outer.uncached⟩

theorem Keeping.finish {site : Site} {cell : CellId}
    (inner : Keeping (site.entering key cell).building after)
    (notBuilding : site.building.find? (fun entry => entry.key.sameAs key) = none) :
    Keeping site.building (after.finished key cell validator) ∧
      (after.finished key cell validator).cached? key = some validator := by
  have own : after.cached? key = none := inner.uncached ⟨key, site.depth, cell⟩ (List.mem_cons_self ..)
  refine ⟨⟨inner.faithful, ?_⟩, ?_⟩
  · intro entry member
    have outer := inner.uncached entry (List.mem_cons_of_mem _ member)
    have other : key.sameAs entry.key ≠ true := fun same =>
      List.find?_eq_none.mp notBuilding entry member (DeclKey.sameAs_symm same)
    simp [cached?_finished, outer, other]
  · simp [cached?_finished, own, DeclKey.sameAs_refl]

theorem keeping_lawful : keeping.Lawful where
  faithful state := state.faithful
  quiet state quiet := by
    have cache : ∀ key, _ := fun key => congrArg (fun r : Resolver => r.cached? key) quiet.eq
    refine ⟨⟨quiet.faithful, fun entry member => (cache _).trans (state.uncached entry member)⟩, ?_⟩
    rw [quiet.eq]
    exact ⟨rfl, rfl, List.prefix_rfl⟩
  trans earlier later := earlier.trans later
  constant kept := ⟨kept.options, kept.files⟩
  fits_since _ _ _ := trivial
  holds_since {site r r' expr validator} _ kept holds := by
    intro name key read means
    have sources : r'.sources = r.sources := by simp only [sources, kept.options, kept.files]
    rw [sources] at means
    exact (holds name key read means).imp (cached?_mono kept.cache) id
  exhausted _ := trivial
  unreadable _ _ := trivial
  piece_fits _ _ _ := trivial
  piece_halts _ _ _ := trivial
  primitive _ read := keeping_holds read (by simp)
  group _ _ read _ := keeping_holds read (by simp)
  array _ _ read _ := keeping_holds read (by simp)
  partialOf _ _ read _ := keeping_holds read (by simp)
  record _ _ read _ _ := keeping_holds read (by simp)
  unreadableMember _ _ _ _ := trivial
  awaited _ _ _ := trivial
  notRecord _ _ _ _ _ _ := trivial
  fileless _ _ _ := trivial
  unlocated _ _ _ _ := trivial
  admits _ _ _ := trivial
  stands_holds _ read means stands := by
    intro name key read' means'
    cases read.symm.trans read'
    cases Sources.means_unique means means'
    exact stands
  breaks_halts _ _ _ _ := trivial
  cached _ _ found := .inl found
  deferred _ _ _ found _ := by
    have same := List.find?_some (p := fun entry : Building => entry.key.sameAs _) found
    exact .inr ⟨_, List.mem_of_find?_eq_some found, same⟩
  loop _ _ _ _ _ := trivial
  enter {bound site r key} enters := by
    refine ⟨enters.state.faithful, fun entry member => ?_⟩
    rcases List.mem_cons.mp member with rfl | outer
    · exact enters.uncached
    · exact enters.state.uncached entry outer
  definition_fits _ _ := trivial
  abandon within := by
    refine ⟨within.state.abandon within.state'.faithful, ?_⟩
    exact ⟨within.since.options, within.since.files, List.prefix_rfl⟩
  undefined _ _ := trivial
  breaks _ _ _ := trivial
  finish within _ _ _ := by
    obtain ⟨state, found⟩ := within.state'.finish within.notBuilding
    refine ⟨state, ⟨within.since.options, within.since.files, ?_⟩, .inl found⟩
    exact within.since.cache.trans (List.prefix_append _ _)

/-- The expression is a bare name, and means the declaration. -/
def Leads (resolver : Resolver) (expr : String) (file : Option FilePath) (key : DeclKey) : Prop :=
  ∃ name, Form.read expr.toList = .ok (.reference name) ∧ resolver.sources.Means file name key

/-- A resolution keeps the cache, and has put there what it gives for a bare name. -/
theorem resolve_kept (faithful : before.Faithful) (expr : String) (file : Option FilePath) :
    Kept before (before.resolve expr file).2 ∧ (before.resolve expr file).2.Faithful ∧
      ∀ validator key, (before.resolve expr file).1 = some (.ok validator) →
        before.Leads expr file key → (before.resolve expr file).2.cached? key = some validator := by
  obtain ⟨state, kept, holds⟩ := resolve_keeps expr file keeping_lawful
    (fun _ _ _ => trivial) ⟨faithful, by simp⟩ trivial
  refine ⟨kept, state.faithful, ?_⟩
  rintro validator key ended ⟨name, read, means⟩
  have sources : (before.resolve expr file).2.sources = before.sources := by
    simp only [sources, kept.options, kept.files]
  rw [← sources] at means
  simpa using holds validator ended name key read means

end Resolver

end Conform
