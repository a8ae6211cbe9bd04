import Conform.Proofs.Resolver.Conduct
import Conform.Proofs.Resolver.Graph

/-!
The declarations that are being built. Each is named by the definition of the one around it, and
none is built twice at a time; so a need that cannot be met shows in the graph of declarations.
-/

namespace Conform

open Relation

def Cached (cache : List (DeclKey × Validator)) (place : Place) : Prop :=
  ∃ entry ∈ cache, entry.1.place = place

theorem Cached.mono {cache cache' : List (DeclKey × Validator)} {place : Place}
    (cached : Cached cache place) (grown : ∀ entry ∈ cache, entry ∈ cache') : Cached cache' place := by
  obtain ⟨entry, member, at_⟩ := cached
  exact ⟨entry, grown entry member, at_⟩

namespace Resolver

variable {resolver : Resolver} {key : DeclKey}

theorem cached?_eq_none_iff : resolver.cached? key = none ↔ ¬Cached resolver.cache key.place := by
  simp only [cached?, Option.map_eq_none_iff, List.find?_eq_none, Cached, not_exists, not_and,
    DeclKey.sameAs_iff_place]

theorem cached?_eq_some {validator : Validator} (found : resolver.cached? key = some validator) :
    ∃ known, (known, validator) ∈ resolver.cache ∧ known.place = key.place := by
  simp only [cached?, Option.map_eq_some_iff] at found
  obtain ⟨⟨known, validator⟩, found, rfl⟩ := found
  have same : known.sameAs key = true := by simpa using List.find?_some found
  exact ⟨known, List.mem_of_find?_eq_some found, DeclKey.sameAs_iff_place.mp same⟩

end Resolver

theorem mem_of_find_key {building : List Building} {key : DeclKey} {entry : Building}
    (found : building.find? (fun entry => entry.key.sameAs key) = some entry) :
    entry ∈ building ∧ entry.key.place = key.place := by
  have same : entry.key.sameAs key = true := by simpa using List.find?_some found
  exact ⟨List.mem_of_find?_eq_some found, DeclKey.sameAs_iff_place.mp same⟩

section Building

variable (sources : Sources) (cache : List (DeclKey × Validator))

def ParentsCached (place : Place) : Prop := ∀ parent, sources.Extends place parent → Cached cache parent

def Follows (depth : Nat) (building : List Building) (place : Place) : Prop :=
  ∀ head ∈ building.head?,
    (∃ uses, sources.Names head.key.place uses place ∧
      depth = head.depth + uses.count .nested) ∧
    (sources.Extends head.key.place place ∨ ParentsCached sources cache head.key.place)

inductive Stack : List Building → Prop where
  | nil : Stack []
  | push {entry : Building} {rest : List Building} (below : Stack rest)
      (uncached : ¬Cached cache entry.key.place)
      (apart : ∀ other ∈ rest, other.key.place ≠ entry.key.place)
      (cells : ∀ other ∈ rest, other.cell < entry.cell)
      (follows : Follows sources cache entry.depth rest entry.key.place) : Stack (entry :: rest)

variable {sources cache}

theorem Follows.mono {cache' : List (DeclKey × Validator)} {depth : Nat} {building : List Building}
    {place : Place} (follows : Follows sources cache depth building place)
    (grown : ∀ entry ∈ cache, entry ∈ cache') : Follows sources cache' depth building place := by
  intro head member
  obtain ⟨named, parent⟩ := follows head member
  exact ⟨named, parent.imp id fun cached parent extends_ => (cached parent extends_).mono grown⟩

theorem Follows.refers {depth : Nat} {head : Building} {rest : List Building} {place : Place}
    (follows : Follows sources cache depth (head :: rest) place) :
    sources.Refers head.key.place place := by
  obtain ⟨⟨uses, named, _⟩, _⟩ := follows head rfl
  exact ⟨uses, named⟩

namespace Stack

theorem uncached {building : List Building} (stack : Stack sources cache building) :
    ∀ entry ∈ building, ¬Cached cache entry.key.place := by
  induction stack with
  | nil => simp
  | push _ uncached _ _ _ ih => exact List.forall_mem_cons.mpr ⟨uncached, ih⟩

theorem mono {cache' : List (DeclKey × Validator)} {building : List Building}
    (stack : Stack sources cache building) (grown : ∀ entry ∈ cache, entry ∈ cache')
    (uncached : ∀ entry ∈ building, ¬Cached cache' entry.key.place) :
    Stack sources cache' building := by
  induction stack with
  | nil => exact .nil
  | push _ _ apart cells follows ih =>
      exact .push (ih fun entry member => uncached entry (List.mem_cons_of_mem _ member))
        (uncached _ (by simp)) apart cells (follows.mono grown)

theorem eq_of_cell {building : List Building} (stack : Stack sources cache building)
    {first second : Building} (member : first ∈ building) (member' : second ∈ building)
    (same : first.cell = second.cell) : first = second := by
  induction stack with
  | nil => simp at member
  | push _ _ _ cells _ ih =>
      rcases List.mem_cons.mp member with rfl | inner <;>
        rcases List.mem_cons.mp member' with rfl | inner'
      · rfl
      · exact absurd same (Nat.ne_of_gt (cells second inner'))
      · exact absurd same (Nat.ne_of_lt (cells first inner))
      · exact ih inner inner'

/-- From each declaration references lead to the innermost one, and not back to the outermost. -/
theorem leads {head : Building} {rest : List Building} (stack : Stack sources cache (head :: rest))
    {bottom : Building} (last : (head :: rest).getLast? = some bottom) :
    ∀ entry ∈ head :: rest,
      ReflTransGen (fun place next => sources.Refers place next ∧ next ≠ bottom.key.place)
        entry.key.place head.key.place := by
  induction rest generalizing head with
  | nil =>
      intro entry member
      rw [List.mem_singleton.mp member]
  | cons outer rest ih =>
      obtain _ | ⟨below, _, apart, _, follows⟩ := stack
      rw [List.getLast?_cons_cons] at last
      intro entry member
      rcases List.mem_cons.mp member with rfl | inner
      · exact .refl
      · refine (ih below last entry inner).tail ⟨follows.refers, ?_⟩
        exact (apart bottom (List.mem_of_getLast? last)).symm

theorem leads_from_last {building : List Building} (stack : Stack sources cache building)
    {bottom : Building} (last : building.getLast? = some bottom) :
    ∀ entry ∈ building, sources.Leads bottom.key.place entry.key.place := by
  induction building with
  | nil => simp
  | cons head rest ih =>
      have first : sources.Leads bottom.key.place head.key.place :=
        Sources.leads_of_apart (stack.leads last bottom (List.mem_of_getLast? last))
      refine List.forall_mem_cons.mpr ⟨first, ?_⟩
      obtain _ | ⟨below, _, _, _, _⟩ := stack
      cases rest with
      | nil => simp
      | cons outer rest =>
          rw [List.getLast?_cons_cons] at last
          exact ih below last

theorem needs {head : Building} {rest : List Building} (stack : Stack sources cache (head :: rest)) :
    ∀ entry ∈ head :: rest, entry.depth ≤ head.depth ∧
      (entry.depth = head.depth →
        ReflTransGen sources.Needs entry.key.place head.key.place) := by
  induction rest generalizing head with
  | nil =>
      intro entry member
      rw [List.mem_singleton.mp member]
      exact ⟨Nat.le_refl _, fun _ => .refl⟩
  | cons outer rest ih =>
      obtain _ | ⟨below, _, _, _, follows⟩ := stack
      obtain ⟨⟨uses, named, depth⟩, _⟩ := follows outer rfl
      intro entry member
      rcases List.mem_cons.mp member with rfl | inner
      · exact ⟨Nat.le_refl _, fun _ => .refl⟩
      · obtain ⟨shallow, path⟩ := ih below entry inner
        refine ⟨by omega, fun same => (path (by omega)).tail ⟨uses, named, .inl ?_⟩⟩
        exact List.count_eq_zero.mp (by omega)

theorem cached_ancestor (parents : ∀ entry ∈ cache, ParentsCached sources cache entry.1.place)
    {place ancestor : Place} (cached : Cached cache place)
    (extends_ : ReflTransGen sources.Extends place ancestor) : Cached cache ancestor := by
  induction extends_ with
  | refl => exact cached
  | tail _ step ih =>
      obtain ⟨entry, member, rfl⟩ := ih
      exact parents entry member _ step

theorem ancestors (parents : ∀ entry ∈ cache, ParentsCached sources cache entry.1.place)
    {building : List Building} (stack : Stack sources cache building) {bottom : Building}
    (last : building.getLast? = some bottom) {place : Place} (unbuilt : ¬Cached cache place)
    (outside : ∀ entry ∈ building, entry.key.place ≠ place)
    (ancestor : TransGen sources.Extends bottom.key.place place) :
    ∀ entry ∈ building, TransGen sources.Extends entry.key.place place := by
  induction building with
  | nil => simp
  | cons head rest ih =>
      obtain _ | ⟨below, _, _, _, follows⟩ := stack
      cases rest with
      | nil =>
          obtain rfl : head = bottom := by simpa using last
          simpa using ancestor
      | cons outer rest =>
          rw [List.getLast?_cons_cons] at last
          have others := ih below last fun entry member =>
            outside entry (List.mem_cons_of_mem _ member)
          refine List.forall_mem_cons.mpr ⟨?_, others⟩
          obtain ⟨parent, first, path⟩ := TransGen.head'_iff.mp (others outer (by simp))
          rcases (follows outer rfl).2 with next | cached
          · obtain rfl := next.unique first
            rcases reflTransGen_iff_eq_or_transGen.mp path with same | further
            · exact absurd same.symm (outside head (by simp))
            · exact further
          · exact absurd (cached_ancestor parents (cached parent first) path) unbuilt

end Stack

end Building

end Conform
