import Conform.Proofs.Resolver.Conduct
import Conform.Proofs.Validator.Levels

/-!
References and what fills them. Whatever has been built refers only to declarations that have been
built too, or that are being built; a build that ends fills the reference to its own declaration,
and one that fails takes with it all that refers to it.
-/

namespace Conform

open Validator

def Settled (references : References) (building : List Building) (validator : Validator) : Prop :=
  ∀ name cell, Reaches references validator (.deferred name cell) →
    ∃ reference, references[cell]? = some reference ∧ reference.key.name = name ∧
      (reference.target.isSome ∨ ∃ entry ∈ building, entry.cell = cell)

namespace Settled

variable {references : References} {building : List Building} {validator : Validator}

theorem reaches_of_extend {later : References} (settled : Settled references building validator)
    (extend : References.Extend references later)
    (pending : ∀ entry ∈ building, later.target? entry.cell = none) {part : Validator}
    (reaches : Reaches later validator part) : Reaches references validator part := by
  induction reaches with
  | refl => exact .refl
  | @tail middle last _ step ih =>
      cases step with
      | element => exact ih.tail .element
      | operand member => exact ih.tail (.operand member)
      | field among member => exact ih.tail (.field among member)
      | index among member => exact ih.tail (.index among member)
      | @target name cell target filled =>
          obtain ⟨reference, found, _, isSome | ⟨entry, member, same⟩⟩ := settled name cell ih
          · obtain ⟨known, filled'⟩ := Option.isSome_iff_exists.mp isSome
            have before : references.target? cell = some known := by
              simp [References.target?, found, filled']
            have after := extend.target before
            rw [filled] at after
            cases after
            exact ih.tail (.target before)
          · have unfilled := pending entry member
            rw [same, filled] at unfilled
            cases unfilled

theorem extend {later : References} (settled : Settled references building validator)
    (extend : References.Extend references later)
    (pending : ∀ entry ∈ building, later.target? entry.cell = none) :
    Settled later building validator := by
  intro name cell reaches
  obtain ⟨reference, found, sameName, ready⟩ :=
    settled name cell (settled.reaches_of_extend extend pending reaches)
  obtain ⟨reference', found', sameKey, kept⟩ := extend cell reference found
  refine ⟨reference', found', by rw [sameKey, sameName], ready.imp ?_ id⟩
  intro isSome
  obtain ⟨target, filled⟩ := Option.isSome_iff_exists.mp isSome
  exact Option.isSome_iff_exists.mpr ⟨target, kept target filled⟩

end Settled

theorem reaches_of_fill {references : References} {cell : CellId} {filler validator part : Validator}
    (reaches : Reaches (references.fill cell filler) validator part) :
    Reaches references validator part ∨ Reaches references filler part := by
  induction reaches with
  | refl => exact .inl .refl
  | @tail middle last _ step ih =>
      have onward (next : Part references middle last) :
          Reaches references validator last ∨ Reaches references filler last :=
        ih.imp (·.tail next) (·.tail next)
      cases step with
      | element => exact onward .element
      | operand member => exact onward (.operand member)
      | field among member => exact onward (.field among member)
      | index among member => exact onward (.index among member)
      | @target name other _ filled =>
          by_cases same : cell = other
          · subst same
            simp only [References.target?, References.getElem?_fill, if_true,
              Option.bind_eq_some_iff, Option.map_eq_some_iff] at filled
            obtain ⟨_, ⟨reference, _, rfl⟩, ⟨⟩⟩ := filled
            exact .inr .refl
          · refine onward (.target ?_)
            simpa only [References.target?, References.getElem?_fill, same, if_false] using filled

/-- The end of a build settles what refers to the declaration built. -/
theorem Settled.fill {references : References} {building : List Building} {entry : Building}
    {filler validator : Validator} (pending : references[entry.cell]? = some { key := entry.key })
    (settled : Settled references (entry :: building) validator)
    (settledFiller : Settled references (entry :: building) filler) :
    Settled (references.fill entry.cell filler) building validator := by
  intro name cell reaches
  obtain ⟨reference, found, sameName, ready⟩ : ∃ reference, references[cell]? = some reference ∧
      reference.key.name = name ∧
      (reference.target.isSome ∨ ∃ other ∈ entry :: building, other.cell = cell) :=
    (reaches_of_fill reaches).elim (settled name cell) (settledFiller name cell)
  rw [References.getElem?_fill]
  by_cases same : entry.cell = cell
  · subst same
    exact ⟨{ reference with target := some filler }, by simp [found], sameName, .inl rfl⟩
  · simp only [same, if_false]
    refine ⟨reference, found, sameName, ready.imp id ?_⟩
    rintro ⟨other, member, sameCell⟩
    rcases List.mem_cons.mp member with rfl | outer
    · exact absurd sameCell same
    · exact ⟨other, outer, sameCell⟩

def Ready (references : References) (building : List Building) : Validator → Prop
  | .deferred name cell => ∃ reference, references[cell]? = some reference ∧ reference.key.name = name ∧
    (reference.target.isSome ∨ ∃ entry ∈ building, entry.cell = cell)
  | _ => True

theorem settled_iff {references : References} {building : List Building} {validator : Validator} :
    Settled references building validator ↔
      Everywhere references (Ready references building) validator := by
  constructor
  · intro settled part reaches
    cases part with
    | deferred name cell => exact settled name cell reaches
    | _ => trivial
  · intro everywhere name cell reaches
    exact everywhere _ reaches

def Pending (references : References) (building : List Building) : Prop :=
  ∀ entry ∈ building, references[entry.cell]? = some { key := entry.key }

namespace Pending

variable {references : References} {building : List Building}

theorem unfilled (pending : Pending references building) :
    ∀ entry ∈ building, references.target? entry.cell = none := by
  intro entry member
  simp [References.target?, pending entry member]

theorem cell_lt (pending : Pending references building) :
    ∀ entry ∈ building, entry.cell < references.length := by
  intro entry member
  exact (List.getElem?_eq_some_iff.mp (pending entry member)).1

theorem cell_ne (pending : Pending references building) :
    ∀ entry ∈ building, entry.cell ≠ references.length :=
  fun entry member => Nat.ne_of_lt (pending.cell_lt entry member)

theorem enter (pending : Pending references building) (key : DeclKey) (depth : Nat) :
    Pending (references ++ [{ key := key }]) (⟨key, depth, references.length⟩ :: building) := by
  intro entry member
  rcases List.mem_cons.mp member with rfl | outer
  · simp
  · rw [List.getElem?_append_left (pending.cell_lt entry outer)]
    exact pending entry outer

theorem outer {entry : Building} (pending : Pending references (entry :: building)) :
    Pending references building :=
  fun other member => pending other (List.mem_cons_of_mem _ member)

theorem fill {cell : CellId} (pending : Pending references building)
    (other : ∀ entry ∈ building, entry.cell ≠ cell) (validator : Validator) :
    Pending (references.fill cell validator) building := by
  intro entry member
  rw [References.getElem?_fill, if_neg (other entry member).symm]
  exact pending entry member

end Pending

theorem Settled.pending {references : References} {building : List Building} {entry : Building}
    (pending : Pending references building) (member : entry ∈ building) {name : String}
    (same : entry.key.name = name) : Settled references building (.deferred name entry.cell) :=
  settled_iff.mpr (.unfilled (pending.unfilled entry member)
    ⟨_, pending entry member, same, .inr ⟨entry, member, rfl⟩⟩)

section Levels

variable {references : References} {holds : Validator → Prop}

theorem MembersHold.throughout {strict : Bool} {members : List (List Char)}
    {fields : List (Field Validator)} {index : Option Validator}
    (known : MembersHold (fun _ => Everywhere references holds) strict members fields index)
    (node : NodeId) (name : Option String) (undefined : holds (.primitive .undefined))
    (union : ∀ node operands, holds (.group node .or operands)) :
    Throughout references holds ⟨node, name, fields, index⟩ := by
  induction known with
  | nil => exact ⟨by simp, by simp⟩
  | index read everywhere _ ih =>
      refine ⟨ih.fields, fun found same => ?_⟩
      rcases Option.or_eq_some_iff.mp same with later | ⟨_, here⟩
      · exact ih.index found later
      · cases here
        exact everywhere
  | field node read everywhere _ ih =>
      refine ⟨fun field member => ?_, ih.index⟩
      rcases List.mem_cons.mp member with rfl | later
      · exact everywhere.make node _ _ _ undefined (union node)
      · exact ih.fields field later

theorem ParentHolds.throughout {parent : Option (List Char)} {ancestors : List (Level Validator)}
    (known : ParentHolds (fun _ => Everywhere references holds) parent ancestors) :
    ∀ level ∈ ancestors, Throughout references holds level := by
  cases known with
  | none => simp
  | some inherited => exact inherited.levels

theorem ParentHolds.onLevels {holds : Level Validator → Prop} {parent : Option (List Char)}
    {ancestors : List (Level Validator)}
    (known : ParentHolds (fun _ => Everywhere references (OnLevels holds)) parent ancestors) :
    ∀ level ∈ ancestors, holds level := by
  cases known with
  | none => simp
  | some inherited => exact inherited.here

end Levels

namespace Resolver

/-- The validator behind the cell is what a build of the declaration gave that began with it. -/
def FilledByBuild (resolver : Resolver) (cell : CellId) (key : DeclKey) (target : Validator) :
    Prop :=
  ∃ bound site before after, before.sources = resolver.sources ∧ before.references.length = cell ∧
    Resolve.Gives (Resolve.build (Resolve.resolveWithin bound) site key) before target after ∧
    after.references.Extend resolver.references

structure Standing (building : List Building) (resolver : Resolver) : Prop where
  faithful : resolver.Faithful
  pending : ∀ entry ∈ building, resolver.references[entry.cell]? = some { key := entry.key }
  cached : ∀ entry ∈ resolver.cache, Settled resolver.references building entry.2
  filled : ∀ (cell : CellId) (key : DeclKey) (target : Validator),
    resolver.references[cell]? = some ⟨key, some target⟩ → resolver.FilledByBuild cell key target

structure Later (before after : Resolver) : Prop where
  options : after.options = before.options
  files : after.files = before.files
  references : before.references.Extend after.references

theorem Later.trans {first second third : Resolver} (earlier : Later first second)
    (later : Later second third) : Later first third :=
  ⟨later.options.trans earlier.options, later.files.trans earlier.files,
    earlier.references.trans later.references⟩

theorem Later.sources_eq {before after : Resolver} (later : Later before after) :
    after.sources = before.sources := by
  simp only [sources, later.options, later.files]

theorem FilledByBuild.later {resolver after : Resolver} {cell : CellId} {key : DeclKey}
    {target : Validator} (filled : resolver.FilledByBuild cell key target)
    (later : Later resolver after) : after.FilledByBuild cell key target := by
  obtain ⟨bound, site, start, finish, same, length, gave, extend⟩ := filled
  exact ⟨bound, site, start, finish, same.trans later.sources_eq.symm, length, gave,
    extend.trans later.references⟩

namespace Standing

variable {building : List Building} {before after : Resolver}

theorem settled_later {validator : Validator} (standing : Standing building after)
    (later : Later before after) (settled : Settled before.references building validator) :
    Settled after.references building validator :=
  settled.extend later.references (Pending.unfilled standing.pending)

end Standing

theorem forall₂_right {α β : Type} {holds : β → Prop} {items : List α} {found : List β}
    (related : List.Forall₂ (fun _ => holds) items found) : ∀ each ∈ found, holds each := by
  induction related with
  | nil => simp
  | cons first _ ih => exact List.forall_mem_cons.mpr ⟨first, ih⟩

def referring : Conduct where
  State := Standing
  Since _ := Later
  Fits _ _ _ _ := True
  Holds site resolver _ := Settled resolver.references site.building
  Halts _ _ _ _ := True
  Admits _ _ _ _ := True
  Stands site resolver _ := Settled resolver.references site.building
  Breaks _ _ _ _ := True

section Build

variable {bound : Nat} {site : Site} {before after : Resolver} {key : DeclKey}

theorem Standing.quiet {building : List Building} (standing : Standing building before)
    (quiet : Quiet before after) : Standing building after ∧ Later before after := by
  have later : Later before after := by
    rw [quiet.eq]
    exact ⟨rfl, rfl, .refl _⟩
  have references : after.references = before.references := by rw [quiet.eq]
  have cache : after.cache = before.cache := by rw [quiet.eq]
  refine ⟨⟨quiet.faithful, ?_, ?_, ?_⟩, later⟩
  · rw [references]
    exact standing.pending
  · rw [references, cache]
    exact standing.cached
  · rw [references]
    exact fun cell key target found => (standing.filled cell key target found).later later

theorem later_withReference (before : Resolver) (key : DeclKey) :
    Later before (before.withReference key) := ⟨rfl, rfl, References.extend_append _ _⟩

theorem Standing.enter {building : List Building} (standing : Standing building before)
    (key : DeclKey) (depth : Nat) :
    Standing (⟨key, depth, before.references.length⟩ :: building) (before.withReference key) := by
  have later := later_withReference before key
  have pending := Pending.enter standing.pending key depth
  refine ⟨standing.faithful, pending, ?_, ?_⟩
  · intro entry member name cell reaches
    obtain ⟨reference, found, sameName, ready⟩ :=
      (standing.cached entry member).extend later.references pending.outer.unfilled name cell reaches
    refine ⟨reference, found, sameName, ready.imp id ?_⟩
    rintro ⟨other, member, same⟩
    exact ⟨other, List.mem_cons_of_mem _ member, same⟩
  · intro cell key' target found
    rcases Nat.lt_or_ge cell before.references.length with inside | outside
    · simp only [withReference, List.getElem?_append_left inside] at found
      exact (standing.filled cell key' target found).later later
    · obtain ⟨bounded, same⟩ := List.getElem?_eq_some_iff.mp found
      have last : cell < before.references.length + 1 := by
        simpa [withReference] using bounded
      obtain rfl := Nat.le_antisymm (Nat.le_of_lt_succ last) outside
      simp [withReference] at same

theorem Standing.abandon {building : List Building} {entry : Building}
    (standing : Standing building before) (inner : Standing (entry :: building) after)
    (later : Later before after) : Standing building (after.abandoned before.cache) := by
  have kept : Standing building { after with cache := [] } :=
    ⟨inner.faithful, Pending.outer inner.pending, by simp, inner.filled⟩
  refine ⟨inner.faithful, kept.pending, ?_, inner.filled⟩
  exact fun known member => kept.settled_later ⟨later.options, later.files, later.references⟩
    (standing.cached known member)

theorem Standing.later_finished {building : List Building} {entry : Building}
    (inner : Standing (entry :: building) after) (validator : Validator) :
    Later after (after.finished entry.key entry.cell validator) :=
  ⟨rfl, rfl, References.extend_fill (inner.pending entry (by simp)) validator⟩

theorem Standing.finish {building : List Building} {entry : Building} {validator : Validator}
    (inner : Standing (entry :: building) after) (fresh : ∀ other ∈ building, other.cell ≠ entry.cell)
    (settled : Settled after.references (entry :: building) validator)
    (built : (after.finished entry.key entry.cell validator).FilledByBuild entry.cell entry.key
      validator) :
    Standing building (after.finished entry.key entry.cell validator) := by
  have pending := inner.pending entry (by simp)
  have later := inner.later_finished validator
  refine ⟨inner.faithful, (Pending.outer inner.pending).fill fresh validator, ?_, ?_⟩
  · intro known member
    rcases List.mem_append.mp member with member | member
    · exact (inner.cached known member).fill pending settled
    · rw [List.mem_singleton.mp member]
      exact settled.fill pending settled
  · intro cell key target found
    by_cases same : entry.cell = cell
    · subst same
      simp only [finished, References.getElem?_fill, if_true, pending, Option.map_some,
        Option.some.injEq, Reference.mk.injEq] at found
      obtain ⟨rfl, rfl⟩ := found
      exact built
    · simp only [finished, References.getElem?_fill, same, if_false] at found
      exact (inner.filled cell key target found).later later

theorem referring_lawful : referring.Lawful where
  faithful state := state.faithful
  quiet state quiet := state.quiet quiet
  trans earlier later := earlier.trans later
  constant later := ⟨later.options, later.files⟩
  fits_since _ _ _ := trivial
  holds_since state since holds := state.settled_later since holds
  exhausted _ := trivial
  unreadable _ _ := trivial
  piece_fits _ _ _ := trivial
  piece_halts _ _ _ := trivial
  primitive _ _ := settled_iff.mpr (.primitive trivial)
  group node _ _ holds := settled_iff.mpr (.group trivial fun operand member =>
    settled_iff.mp (forall₂_right holds operand member))
  array node _ _ holds := settled_iff.mpr (.array trivial (settled_iff.mp holds))
  partialOf _ _ _ holds := settled_iff.mpr ((settled_iff.mp holds).relaxed trivial)
  record node _ _ parent members := by
    refine settled_iff.mpr (.record trivial (List.forall_mem_cons.mpr ⟨?_, ?_⟩))
    · exact (members.imp fun _ _ => settled_iff.mp).throughout node _ trivial fun _ _ => trivial
    · exact (parent.imp fun _ _ => settled_iff.mp).throughout
  unreadableMember _ _ _ _ := trivial
  awaited _ _ _ := trivial
  notRecord _ _ _ _ _ _ := trivial
  fileless _ _ _ := trivial
  unlocated _ _ _ _ := trivial
  admits _ _ _ := trivial
  stands_holds _ _ _ stands := stands
  breaks_halts _ _ _ _ := trivial
  cached state _ found := by
    simp only [cached?, Option.map_eq_some_iff] at found
    obtain ⟨entry, found, rfl⟩ := found
    exact state.cached entry (List.mem_of_find?_eq_some found)
  deferred state _ _ found _ := by
    have member := List.mem_of_find?_eq_some found
    have same := List.find?_some (p := fun entry : Building => entry.key.sameAs _) found
    exact .pending state.pending member (DeclKey.sameAs_iff.mp same).1
  loop _ _ _ _ _ := trivial
  enter enters := enters.state.enter _ _
  definition_fits _ _ := trivial
  abandon within := by
    have later := (later_withReference _ _).trans within.since
    exact ⟨within.state.abandon within.state' later, later.options, later.files, later.references⟩
  undefined _ _ := trivial
  breaks _ _ _ := trivial
  finish within _ holds gave := by
    have outer := within.state
    have inner := within.state'
    have later (validator : Validator) :=
      ((later_withReference _ _).trans within.since).trans (inner.later_finished validator)
    have filled : FilledByBuild _ _ _ _ := ⟨_, _, _, _, (later _).sources_eq.symm, rfl, gave, .refl _⟩
    have fresh := Pending.cell_ne outer.pending
    exact ⟨inner.finish fresh holds filled, later _,
      holds.fill (inner.pending _ (List.mem_cons_self ..)) holds⟩

end Build

end Resolver

end Conform
