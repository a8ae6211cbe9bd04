import Conform.Proofs.Resolver.History
import Conform.Proofs.Resolver.Stack

/-!
In which order declarations can be built. As long as needs, and what retries have to wait for, do not
run in circles, every declaration that is needed at once can be built before it is needed.
-/

namespace Conform

open Relation

namespace Sources

variable (sources : Sources) (file : Option FilePath) (expr : List Char)

def Reachable (place : Place) : Prop :=
  ∃ uses first, sources.NamesIn file expr uses first ∧ sources.Leads first place

def WantedAtOnce (place : Place) : Prop :=
  (∃ uses, sources.NamesIn file expr uses place ∧ .atOnce ∈ uses) ∨
    ∃ source, sources.Reachable file expr source ∧ sources.NamesAtOnce source place

/-- The declarations that the expression leads to can be built one after the other. -/
structure Orderly : Prop where
  needs {place : Place} : sources.Reachable file expr place → ¬TransGen sources.Needs place place
  loops {place : Place} : sources.WantedAtOnce file expr place → ¬sources.StandsForLoop place
  waits {place : Place} : sources.Reachable file expr place → ¬TransGen sources.Waits place place

variable {sources file expr}

theorem Reachable.refers {place next : Place} (reachable : sources.Reachable file expr place)
    (refers : sources.Refers place next) : sources.Reachable file expr next := by
  obtain ⟨uses, first, named, leads⟩ := reachable
  exact ⟨uses, first, named, leads.tail refers⟩

end Sources

section Order

variable (sources : Sources) (file : Option FilePath) (expr : List Char)

structure InOrder (building : List Building) (resolver : Resolver) : Prop where
  faithful : resolver.Faithful
  sources_eq : resolver.sources = sources
  loops : ∀ entry ∈ resolver.cache, (∃ name cell, entry.2 = .deferred name cell) →
    sources.StandsForLoop entry.1.place
  parents : ∀ entry ∈ resolver.cache, ParentsCached sources resolver.cache entry.1.place
  reachable : ∀ entry ∈ building, sources.Reachable file expr entry.key.place
  cells : ∀ entry ∈ building, entry.cell < resolver.references.length
  stack : Stack sources resolver.cache building

structure Grown (before after : Resolver) : Prop where
  options : after.options = before.options
  files : after.files = before.files
  cache : ∀ entry ∈ before.cache, entry ∈ after.cache
  references : before.references.length ≤ after.references.length

structure InDefinition (cache : List (DeclKey × Validator)) (site : Site) (head : Building)
    (part : List Char) : Prop where
  file_eq : site.file = some head.key.file
  inside : ∃ definition uses, sources.definition head.key = .ok definition ∧
    Inside definition uses part ∧ site.depth = head.depth + uses.count .nested ∧
    (part = definition ∨ (∃ parts, Form.read definition = .ok (.record parts) ∧
      parts.parent = some part) ∨ ParentsCached sources cache head.key.place)

def Resolved (cache : List (DeclKey × Validator)) (building : List Building) (place : Place)
    (validator : Validator) : Prop :=
  (∃ entry ∈ building, entry.key.place = place ∧ ∃ name, validator = .deferred name entry.cell) ∨
    Cached cache place ∧
      ((∃ name cell, validator = .deferred name cell) → sources.StandsForLoop place)

def Blocked (cache : List (DeclKey × Validator)) (bottom : Option Place) : Stop → Prop
  | .fault fault none => sources.Orderly file expr → ∀ name, fault ≠ .recursiveAlias name
  | .fault _ (some key) => sources.Reachable file expr key.place ∧ ¬Cached cache key.place ∧
    (sources.Orderly file expr → ∀ place ∈ bottom, sources.Waits place key.place)
  | .unfinished => True

def bottom? (building : List Building) : Option Place := building.getLast?.map (·.key.place)

def ordering : Conduct where
  State := InOrder sources file expr
  Since _ := Grown
  Fits _ site resolver part :=
    (site.building = [] → site.file = file ∧ ∃ uses, Inside expr uses part) ∧
      ∀ head ∈ site.building.head?, InDefinition sources resolver.cache site head part
  Holds site resolver part validator :=
    (∀ place, sources.NamesIn site.file part [] place →
      Resolved sources resolver.cache site.building place validator) ∧
    ((∃ name cell, validator = .deferred name cell) →
      ∃ place, sources.NamesIn site.file part [] place) ∧
    ∀ place, sources.ParentIn site.file part place → Cached resolver.cache place
  Halts site resolver _ stop := Blocked sources file expr resolver.cache (bottom? site.building) stop
  Admits _ site resolver key := sources.Reachable file expr key.place ∧
    Follows sources resolver.cache site.depth site.building key.place
  Stands site resolver key validator :=
    Resolved sources resolver.cache site.building key.place validator
  Breaks site resolver key stop := Blocked sources file expr resolver.cache
    (some ((bottom? site.building).getD key.place)) stop

variable {sources : Sources} {file : Option FilePath} {expr : List Char}

theorem Grown.trans {first second third : Resolver} (earlier : Grown first second)
    (later : Grown second third) : Grown first third :=
  ⟨later.options.trans earlier.options, later.files.trans earlier.files,
    fun entry member => later.cache entry (earlier.cache entry member),
    Nat.le_trans earlier.references later.references⟩

theorem Resolved.grown {cache cache' : List (DeclKey × Validator)} {building : List Building}
    {place : Place} {validator : Validator} (resolved : Resolved sources cache building place validator)
    (grown : ∀ entry ∈ cache, entry ∈ cache') :
    Resolved sources cache' building place validator :=
  resolved.imp id fun ⟨cached, loop⟩ => ⟨cached.mono grown, loop⟩

theorem Resolved.cached {cache : List (DeclKey × Validator)} {building : List Building}
    {place : Place} {validator : Validator} (resolved : Resolved sources cache building place validator)
    (built : ∀ name cell, validator ≠ .deferred name cell) : Cached cache place := by
  rcases resolved with ⟨entry, _, _, name, same⟩ | ⟨cached, _⟩
  · exact absurd same (built name entry.cell)
  · exact cached

namespace InOrder

variable {building : List Building} {before after : Resolver}

theorem same_cache (state : InOrder sources file expr building before) (faithful : after.Faithful)
    (options : after.options = before.options) (files : after.files = before.files)
    (cache : after.cache = before.cache)
    (references : before.references.length ≤ after.references.length) :
    InOrder sources file expr building after ∧ Grown before after := by
  refine ⟨⟨faithful, ?_, ?_, ?_, state.reachable, ?_, ?_⟩, options, files, ?_, references⟩
  · rw [← state.sources_eq]
    simp only [Resolver.sources, options, files]
  · rw [cache]
    exact state.loops
  · rw [cache]
    exact state.parents
  · exact fun entry member => Nat.lt_of_lt_of_le (state.cells entry member) references
  · rw [cache]
    exact state.stack
  · rw [cache]
    exact fun _ member => member

theorem quiet (state : InOrder sources file expr building before)
    (quiet : before.Quiet after) :
    InOrder sources file expr building after ∧ Grown before after := by
  refine state.same_cache quiet.faithful ?_ ?_ ?_ (Nat.le_of_eq ?_) <;> rw [quiet.eq]

theorem enter (state : InOrder sources file expr building before) {key : DeclKey} {depth : Nat}
    (reachable : sources.Reachable file expr key.place)
    (follows : Follows sources before.cache depth building key.place)
    (uncached : before.cached? key = none)
    (notBuilding : building.find? (fun entry => entry.key.sameAs key) = none) :
    InOrder sources file expr (⟨key, depth, before.references.length⟩ :: building)
      (before.withReference key) := by
  have longer : before.references.length ≤ (before.withReference key).references.length := by
    simp [Resolver.withReference]
  have faithful : (before.withReference key).Faithful := state.faithful
  have outer := (state.same_cache faithful rfl rfl rfl longer).1
  refine ⟨outer.faithful, outer.sources_eq, outer.loops, outer.parents, ?_, ?_, ?_⟩
  · exact List.forall_mem_cons.mpr ⟨reachable, outer.reachable⟩
  · exact List.forall_mem_cons.mpr ⟨by simp [Resolver.withReference], outer.cells⟩
  · refine .push outer.stack (Resolver.cached?_eq_none_iff.mp uncached) ?_ state.cells follows
    intro other member same
    have apart := List.find?_eq_none.mp notBuilding other member
    exact apart (DeclKey.sameAs_iff_place.mpr same)

theorem not_loop (orderly : sources.Orderly file expr)
    (state : InOrder sources file expr building before) {key : DeclKey} {depth : Nat}
    (follows : Follows sources before.cache depth building key.place) {entry : Building}
    (found : building.find? (fun entry => entry.key.sameAs key) = some entry) :
    entry.depth < depth := by
  obtain ⟨member, same⟩ := mem_of_find_key found
  cases building with
  | nil => simp at member
  | cons head rest =>
      obtain ⟨⟨uses, named, depth_eq⟩, _⟩ := follows head rfl
      obtain ⟨shallow, path⟩ := state.stack.needs entry member
      rcases Nat.lt_or_ge entry.depth depth with less | deep
      · exact less
      · have direct : .nested ∉ uses := List.count_eq_zero.mp (by omega)
        rw [← same] at named
        exact absurd (TransGen.tail' (path (by omega)) ⟨uses, named, .inl direct⟩)
          (orderly.needs (state.reachable entry member))

end InOrder

theorem InDefinition.piece {cache : List (DeclKey × Validator)} {site : Site} {head : Building}
    {part smaller : List Char} {use : Use}
    (stands : InDefinition sources cache site head part) (piece : Piece use part smaller)
    (parents : use = .nested → ∀ place, sources.ParentIn site.file part place →
      Cached cache place) :
    InDefinition sources cache (site.toward use) head smaller := by
  obtain ⟨file_eq, definition, uses, defined, inside, depth, phase⟩ := stands
  have deeper : (site.toward use).depth = head.depth + (uses ++ [use]).count .nested := by
    cases use <;> simp [Site.toward, depth, Nat.add_assoc]
  have same : (site.toward use).file = site.file := by cases use <;> rfl
  refine ⟨same.trans file_eq, definition, uses ++ [use], defined, .piece inside piece, deeper, ?_⟩
  -- The definition as a whole, or a part of it that is no name.
  have noParent (other : ∀ place, ¬sources.ParentIn site.file definition place) :
      ParentsCached sources cache head.key.place := by
    intro place extends_
    obtain ⟨found, defined', parent⟩ := Sources.extends_iff.mp extends_
    cases defined.symm.trans defined'
    exact absurd (file_eq ▸ parent) (other place)
  rcases phase with rfl | ⟨parts, form, extends_⟩ | cached
  · cases piece with
    | parent form extends_ => exact .inr (.inl ⟨_, form, extends_⟩)
    | member form among read =>
        refine .inr (.inr fun place extends_ => parents rfl place ?_)
        obtain ⟨found, defined', parent⟩ := Sources.extends_iff.mp extends_
        cases defined.symm.trans defined'
        exact file_eq ▸ parent
    | operand form | element form | target form =>
        refine .inr (.inr (noParent ?_))
        rintro place ⟨parts, _, _, _, form', _⟩
        cases form.symm.trans form'
  · refine .inr (.inr (noParent ?_))
    rintro place ⟨parts', parent', name, key, form', extends', name_, _⟩
    cases form.symm.trans form'
    cases extends_.symm.trans extends'
    exact absurd name_ (piece.no_reference _)
  · exact .inr (.inr cached)

theorem InDefinition.follows {cache : List (DeclKey × Validator)} {site : Site} {head : Building}
    {part name : List Char} {key : DeclKey} (stands : InDefinition sources cache site head part)
    (form : Form.read part = .ok (.reference name)) (means : sources.Means site.file name key) :
    (∃ uses, sources.Names head.key.place uses key.place ∧
      site.depth = head.depth + uses.count .nested) ∧
    (sources.Extends head.key.place key.place ∨ ParentsCached sources cache head.key.place) := by
  obtain ⟨file_eq, definition, uses, defined, inside, depth, phase⟩ := stands
  rw [file_eq] at means
  refine ⟨⟨uses, Sources.names_iff.mpr ⟨definition, defined, part, name, key, inside, form, means,
    rfl⟩, depth⟩, ?_⟩
  rcases phase with rfl | ⟨parts, record, extends_⟩ | cached
  · refine .inr fun place extends_ => ?_
    obtain ⟨found, defined', parts, _, _, _, form', _⟩ := Sources.extends_iff.mp extends_
    cases defined.symm.trans defined'
    cases form.symm.trans form'
  · exact .inl (Sources.extends_iff.mpr ⟨definition, defined, parts, part, name, key, record,
      extends_, form, means, rfl⟩)
  · exact .inr cached

theorem InOrder.waits (orderly : sources.Orderly file expr) {head : Building}
    {rest : List Building} {resolver : Resolver}
    (state : InOrder sources file expr (head :: rest) resolver) {entry : Building}
    (member : entry ∈ rest) (atOnce : sources.NamesAtOnce head.key.place entry.key.place) :
    ∀ place ∈ bottom? (head :: rest), sources.Waits place head.key.place := by
  intro place found
  obtain ⟨bottom, last, rfl⟩ := Option.map_eq_some_iff.mp found
  have inside : entry ∈ head :: rest := List.mem_cons_of_mem _ member
  refine ⟨fun ancestor => ?_, entry.key.place, atOnce, state.stack.leads_from_last last entry inside,
    state.stack.leads last entry inside⟩
  have lastOfRest : rest.getLast? = some bottom := by
    cases rest with
    | nil => simp at member
    | cons outer rest => rwa [List.getLast?_cons_cons] at last
  obtain ⟨_, _, _⟩ | ⟨below, uncached, apart, _, _⟩ := state.stack
  have extends_ := below.ancestors state.parents lastOfRest uncached apart ancestor entry member
  have cycle : TransGen sources.Needs entry.key.place entry.key.place :=
    (Sources.needs_of_ancestor extends_).tail atOnce.needs
  exact orderly.needs (state.reachable entry inside) cycle

theorem prerequisite?_eq_some {site : Site} {cell : CellId} {key : DeclKey}
    (needed : Resolve.prerequisite? site cell = some key) :
    ∃ head ∈ site.building, head.key = key := by
  simp only [Resolve.prerequisite?, Option.bind_eq_bind, Option.bind_eq_some_iff] at needed
  obtain ⟨target, _, head, first, needed⟩ := needed
  split at needed
  · cases needed
  · exact ⟨head, List.mem_of_head? first, Option.some.inj needed⟩

theorem InOrder.awaited (orderly : sources.Orderly file expr) {site : Site} {resolver : Resolver}
    (state : InOrder sources file expr site.building resolver) {place : Place} {cell : CellId}
    {target : String}
    (wanted : ∀ head ∈ site.building.head?, sources.NamesAtOnce head.key.place place)
    (noLoop : ¬sources.StandsForLoop place)
    (resolved : Resolved sources resolver.cache site.building place (.deferred target cell)) :
    ∃ head ∈ site.building.head?, Resolve.prerequisite? site cell = some head.key ∧
      ∀ place ∈ bottom? site.building, sources.Waits place head.key.place := by
  obtain ⟨entry, member, rfl, name, same⟩ | ⟨_, loop⟩ := resolved
  swap
  · exact absurd (loop ⟨_, _, rfl⟩) noLoop
  cases same
  obtain ⟨siteFile, depth, building⟩ := site
  cases building with
  | nil => simp at member
  | cons head rest =>
      have atOnce := wanted head rfl
      have found : (head :: rest).find? (fun other => other.cell == entry.cell) = some entry := by
        cases search : (head :: rest).find? fun other => other.cell == entry.cell with
        | none => simpa using List.find?_eq_none.mp search entry member
        | some other =>
            have sameCell : other.cell = entry.cell := by simpa using List.find?_some search
            rw [state.stack.eq_of_cell (List.mem_of_find?_eq_some search) member sameCell]
      have apart : entry.key.sameAs head.key = false := by
        by_contra same
        rw [Bool.not_eq_false, DeclKey.sameAs_iff_place] at same
        rw [same] at atOnce
        exact orderly.needs (state.reachable head (by simp)) (.single atOnce.needs)
      have inner : entry ∈ rest := by
        rcases List.mem_cons.mp member with rfl | inner
        · simp [DeclKey.sameAs_refl] at apart
        · exact inner
      refine ⟨head, rfl, ?_, state.waits orderly inner atOnce⟩
      simp [Resolve.prerequisite?, found, apart]

theorem InOrder.blocked {site : Site} {resolver : Resolver}
    (state : InOrder sources file expr site.building resolver) {place : Place} {cell : CellId}
    {target : String}
    (wanted : ∀ head ∈ site.building.head?, sources.NamesAtOnce head.key.place place)
    (wantedAtOnce : sources.WantedAtOnce file expr place)
    (resolved : Resolved sources resolver.cache site.building place (.deferred target cell)) :
    Blocked sources file expr resolver.cache (bottom? site.building)
      (.fault (.recursiveAlias target) (Resolve.prerequisite? site cell)) := by
  have awaited (orderly : sources.Orderly file expr) :=
    state.awaited orderly wanted (orderly.loops wantedAtOnce) resolved
  cases needed : Resolve.prerequisite? site cell with
  | none =>
      intro orderly
      obtain ⟨head, _, known, _⟩ := awaited orderly
      cases needed.symm.trans known
  | some key =>
      obtain ⟨head, member, rfl⟩ := prerequisite?_eq_some needed
      refine ⟨state.reachable head member, state.stack.uncached head member, fun orderly => ?_⟩
      obtain ⟨head', _, known, waits⟩ := awaited orderly
      rw [Option.some.inj (needed.symm.trans known)]
      exact waits

theorem InOrder.standsForLoop {entry : Building} {building : List Building} {resolver : Resolver}
    (state : InOrder sources file expr (entry :: building) resolver) {definition : List Char}
    (defined : sources.definition entry.key = .ok definition) {place : Place} {validator : Validator}
    (named : sources.NamesIn (some entry.key.file) definition [] place)
    (resolved : Resolved sources resolver.cache (entry :: building) place validator)
    (loose : ∃ name cell, validator = .deferred name cell) :
    sources.StandsForLoop entry.key.place := by
  have alias_ : sources.Alias entry.key.place place :=
    Sources.names_iff.mpr ⟨definition, defined, named⟩
  rcases resolved with ⟨other, member, rfl, _⟩ | ⟨_, loop⟩
  · obtain ⟨bottom, last⟩ : ∃ bottom, (entry :: building).getLast? = some bottom :=
      ⟨_, List.getLast?_eq_getLast_of_ne_nil (by simp)⟩
    exact .loop alias_ (Sources.leads_of_apart (state.stack.leads last other member))
  · exact .through alias_ (loop loose)

theorem InOrder.finish {entry : Building} {building : List Building} {resolver : Resolver}
    (state : InOrder sources file expr (entry :: building) resolver) {validator : Validator}
    (loop : (∃ name cell, validator = .deferred name cell) →
      sources.StandsForLoop entry.key.place)
    (parents : ParentsCached sources resolver.cache entry.key.place) :
    InOrder sources file expr building (resolver.finished entry.key entry.cell validator) ∧
      Grown resolver (resolver.finished entry.key entry.cell validator) := by
  have grown : Grown resolver (resolver.finished entry.key entry.cell validator) :=
    ⟨rfl, rfl, fun known member => List.mem_append_left _ member, by
      simp [Resolver.finished, References.fill]⟩
  obtain ⟨_, _, _⟩ | ⟨below, uncached, apart, _, _⟩ := state.stack
  refine ⟨⟨state.faithful, state.sources_eq, ?_, ?_, ?_, ?_, ?_⟩, grown⟩
  · intro known member loose
    rcases List.mem_append.mp member with member | member
    · exact state.loops known member loose
    · rw [List.mem_singleton.mp member] at loose ⊢
      exact loop loose
  · intro known member
    rcases List.mem_append.mp member with member | member
    · exact fun parent extends_ => (state.parents known member parent extends_).mono grown.cache
    · rw [List.mem_singleton.mp member]
      exact fun parent extends_ => (parents parent extends_).mono grown.cache
  · exact fun other member => state.reachable other (List.mem_cons_of_mem _ member)
  · exact fun other member => Nat.lt_of_lt_of_le (state.cells other (List.mem_cons_of_mem _ member))
      grown.references
  · refine below.mono grown.cache fun other member => ?_
    rintro ⟨known, member', at_⟩
    rcases List.mem_append.mp member' with member' | member'
    · exact below.uncached other member ⟨known, member', at_⟩
    · rw [List.mem_singleton.mp member'] at at_
      exact apart other member at_.symm

end Order

end Conform
