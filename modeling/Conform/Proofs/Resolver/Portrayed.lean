import Conform.Proofs.Resolver.Bounded
import Conform.Proofs.Resolver.Order
import Conform.Proofs.Resolver.Passages
import Conform.Proofs.Resolver.References

/-!
Whatever happens to a resolver, what it has built portrays the declarations, and where it stops there
is a reason that can be read off them, or it reports that a declaration needs itself.
-/

namespace Conform

open Relation

namespace Resolver

def Grounded (building : List Building) (resolver : Resolver) (cell : CellId) (place : Place) : Prop :=
  (∃ entry ∈ building, entry.cell = cell ∧ entry.key.place = place) ∨
    ∃ entry ∈ resolver.cache, entry.1.place = place ∧ resolver.references.target? cell = some entry.2

variable {building : List Building} {before after : Resolver} {cell : CellId} {place : Place}

theorem Grounded.later {building' : List Building} (grounded : Grounded building before cell place)
    (around : ∀ entry ∈ building, entry ∈ building')
    (cache : ∀ entry ∈ before.cache, entry ∈ after.cache)
    (references : before.references.Extend after.references) : Grounded building' after cell place := by
  rcases grounded with ⟨entry, member, known⟩ | ⟨entry, member, at_, filled⟩
  · exact .inl ⟨entry, around entry member, known⟩
  · exact .inr ⟨entry, cache entry member, at_, references.target filled⟩

theorem Grounded.finish {entry : Building} (validator : Validator)
    (grounded : Grounded (entry :: building) before cell place)
    (pending : Pending before.references (entry :: building)) :
    Grounded building (before.finished entry.key entry.cell validator) cell place := by
  have mine := pending entry List.mem_cons_self
  rcases grounded with ⟨other, member, rfl, rfl⟩ | ⟨known, member, at_, filled⟩
  · rcases List.mem_cons.mp member with rfl | outer
    · refine .inr ⟨(other.key, validator), by simp [finished], rfl, ?_⟩
      simp [finished, References.target?, References.getElem?_fill, mine]
    · exact .inl ⟨other, outer, rfl, rfl⟩
  · refine .inr ⟨known, List.mem_append_left _ member, at_, ?_⟩
    exact (References.extend_fill mine validator).target filled

end Resolver

section Portraying

open Resolver

variable (sources : Sources) (strict : Bool) (root : Passage)

def Sources.Admitted (key : DeclKey) : Prop :=
  ∃ passage, sources.Covers root passage ∧ sources.NameFor passage key

structure Portrayed (building : List Building) (resolver : Resolver) : Prop where
  faithful : resolver.Faithful
  sources_eq : resolver.sources = sources
  strict_eq : resolver.options.strict = strict
  pending : Pending resolver.references building
  cached : ∀ entry ∈ resolver.cache,
    sources.PortraysKey strict (resolver.Grounded building) entry.1 entry.2
  admitted : ∀ entry ∈ building, sources.Admitted root entry.key
  leads : ∀ head ∈ building.head?, ∀ entry ∈ building, sources.Leads entry.key.place head.key.place

def Excused : Stop → Prop
  | .fault fault _ => (∃ name, fault = .recursiveAlias name) ∨ ¬sources.Faultless root
  | .unfinished => True

def Justified (stop : Stop) : Prop :=
  Excused sources root stop ∧ ∀ key ∈ stop.needs, sources.Admitted root key

def portraying : Conduct where
  State := Portrayed sources strict root
  Since _ before after := Later before after ∧ ∀ entry ∈ before.cache, entry ∈ after.cache
  Fits _ site _ part := sources.Covers root (site.passage part) ∧
    ∀ head ∈ site.building.head?, ∀ uses target, sources.NamesIn site.file part uses target →
      sources.Refers head.key.place target
  Holds site resolver part validator :=
    sources.Portrays strict (resolver.Grounded site.building) (site.passage part) validator
  Halts _ _ _ stop := Justified sources root stop
  Admits _ site _ key := sources.Admitted root key ∧
    ∀ head ∈ site.building.head?, sources.Refers head.key.place key.place
  Stands site resolver key validator :=
    sources.PortraysKey strict (resolver.Grounded site.building) key validator ∨
      ∃ head ∈ site.building.head?, ∃ cell, sources.Leads key.place head.key.place ∧
        TransGen sources.Refers key.place key.place ∧ validator = .deferred key.name cell ∧
        resolver.Grounded site.building cell key.place
  Breaks _ _ _ stop := Justified sources root stop

variable {sources strict root}

theorem justified_fault {fault : Fault} {passage : Passage} (covers : sources.Covers root passage)
    (faulty : ¬sources.FaultlessAt passage) : Justified sources root (.fault fault none) :=
  ⟨.inr fun faultless => faulty (faultless passage covers), by simp [Stop.needs]⟩

theorem Sources.Admitted.covers {key : DeclKey} {definition : List Char}
    (admitted : sources.Admitted root key) (defined : sources.definition key = .ok definition) :
    sources.Covers root (key.passage definition) := by
  obtain ⟨passage, covers, named⟩ := admitted
  exact covers.tail (.definition named defined)

theorem justified_undefined {key : DeclKey} {fault : Fault} (admitted : sources.Admitted root key)
    (error : sources.definition key = .error fault) : Justified sources root (.fault fault none) := by
  obtain ⟨passage, covers, name, read, means⟩ := admitted
  refine justified_fault covers fun faultless => ?_
  obtain ⟨key', definition, means', defined⟩ := faultless.names name read
  cases Sources.means_unique means means'
  cases error.symm.trans defined

section Laws

variable {site : Site} {before after : Resolver} {building : List Building} {key : DeclKey}

theorem Portrayed.quiet (state : Portrayed sources strict root building before)
    (quiet : Quiet before after) : Portrayed sources strict root building after ∧
      Later before after ∧ ∀ entry ∈ before.cache, entry ∈ after.cache := by
  have same := quiet.sources_eq
  obtain ⟨known, faithful⟩ := quiet
  rw [known]
  exact ⟨⟨known ▸ faithful, (known ▸ same).trans state.sources_eq, state.strict_eq, state.pending,
    state.cached, state.admitted, state.leads⟩, ⟨rfl, rfl, .refl _⟩, fun _ member => member⟩

theorem Portrayed.enter (state : Portrayed sources strict root building before)
    (admitted : sources.Admitted root key)
    (refers : ∀ head ∈ building.head?, sources.Refers head.key.place key.place) (depth : Nat) :
    Portrayed sources strict root (⟨key, depth, before.references.length⟩ :: building)
      (before.withReference key) := by
  refine ⟨state.faithful, state.sources_eq, state.strict_eq, state.pending.enter key depth, ?_, ?_, ?_⟩
  · exact fun entry member => (state.cached entry member).imp fun cell place grounded =>
      grounded.later (fun _ outer => List.mem_cons_of_mem _ outer) (fun _ known => known)
        (References.extend_append _ _)
  · exact List.forall_mem_cons.mpr ⟨admitted, state.admitted⟩
  · rintro _ ⟨⟩
    refine List.forall_mem_cons.mpr ⟨.refl, fun entry member => ?_⟩
    cases building with
    | nil => cases member
    | cons head rest => exact (state.leads head rfl entry member).tail (refers head rfl)

theorem Portrayed.finish {entry : Building} {validator : Validator}
    (state : Portrayed sources strict root (entry :: building) before)
    (outer : Portrayed sources strict root building after)
    (stands : sources.PortraysKey strict (before.Grounded (entry :: building)) entry.key validator)
    (apart : ∀ other ∈ building, other.cell ≠ entry.cell) :
    Portrayed sources strict root building (before.finished entry.key entry.cell validator) := by
  refine ⟨state.faithful, state.sources_eq, state.strict_eq, ?_, ?_, outer.admitted, outer.leads⟩
  · exact state.pending.outer.fill apart validator
  · intro known member
    have settled {known : DeclKey × Validator}
        (portrays : sources.PortraysKey strict (before.Grounded (entry :: building)) known.1 known.2) :=
      portrays.imp fun cell place grounded => grounded.finish validator state.pending
    rcases List.mem_append.mp member with member | member
    · exact settled (state.cached known member)
    · rw [List.mem_singleton.mp member]
      exact settled stands

theorem portraying_lawful : (portraying sources strict root).Lawful where
  faithful state := state.faithful
  quiet state quiet := state.quiet quiet
  trans earlier later := ⟨earlier.1.trans later.1, fun entry member =>
    later.2 entry (earlier.2 entry member)⟩
  constant since := ⟨since.1.options, since.1.files⟩
  fits_since _ _ fits := fits
  holds_since _ since holds := holds.imp fun cell place grounded =>
    grounded.later (fun _ member => member) since.2 since.1.references
  exhausted _ := ⟨trivial, by simp [Stop.needs]⟩
  unreadable ready error := justified_fault ready.fits.1 fun faultless => by
    obtain ⟨form, read⟩ := faultless.readable
    cases error.symm.trans read
  piece_fits {bound site r expr use part} ready piece _ := by
    have same : (site.toward use).passage part = (site.passage expr).part part := by cases use <;> rfl
    refine ⟨?_, fun head member uses target named => ?_⟩
    · rw [same]
      exact ready.fits.1.tail (.piece trivial piece)
    · rw [Conduct.Lawful.toward_building] at member
      rw [toward_file] at named
      exact ready.fits.2 head member _ target (named.of_piece piece)
  piece_halts _ _ halts := halts
  primitive _ read := .made read (fun _ _ used => used) (.primitive _)
  group node _ read holds := .made read (fun _ _ used => used) (.group node holds)
  array node _ read holds := .made read (fun _ _ used => used) (.array node holds)
  partialOf node _ read holds := .made read (fun _ _ used => used) (.partialOf node holds)
  record node ready read parent members := by
    rw [ready.state.strict_eq] at members
    exact .made read (fun _ _ used => used) (.record node parent members)
  unreadableMember ready read among unread := justified_fault ready.fits.1 fun faultless =>
    faultless.members _ read _ among unread
  awaited {bound site r expr name target cell} ready _ _ := by
    refine ⟨.inl ⟨_, rfl⟩, fun key needed => ?_⟩
    obtain ⟨head, member, rfl⟩ := prerequisite?_eq_some needed
    exact ready.state.admitted head member
  notRecord ready piece holds other built _ := justified_fault ready.fits.1 fun faultless => by
    rcases holds.record_of_standsForRecord (faultless.atOnce _ piece) with ⟨own, ancestors, rfl⟩ |
      ⟨name, cell, rfl⟩
    · exact other own ancestors rfl
    · exact built name cell rfl
  fileless ready read none := justified_fault ready.fits.1 fun faultless => by
    obtain ⟨_, _, ⟨_, known, _⟩, _⟩ := faultless.names _ read
    cases none.symm.trans known
  unlocated ready read known error := justified_fault ready.fits.1 fun faultless => by
    rw [ready.state.sources_eq] at error
    obtain ⟨_, _, ⟨_, known', located⟩, _⟩ := faultless.names _ read
    cases known.symm.trans known'
    cases error.symm.trans located
  admits ready read means := by
    rw [ready.state.sources_eq] at means
    exact ⟨⟨_, ready.fits.1, _, read, means⟩, fun head member =>
      ready.fits.2 head member _ _ (Sources.namesIn_reference read means)⟩
  stands_holds {bound site r expr name key validator} ready read means stands := by
    rw [ready.state.sources_eq] at means
    rcases stands with ⟨definition, defined, portrays⟩ |
      ⟨head, member, cell, back, circle, rfl, grounded⟩
    · exact .definition ⟨name, read, means⟩ defined portrays
    · refine .reference cell ⟨name, read, means⟩ ?_ back circle grounded
      simp only [Site.passage, Option.mem_def.mp member, Option.map_some]
  breaks_halts _ _ _ breaks := breaks
  cached state _ found := by
    obtain ⟨known, member, same⟩ := Resolver.cached?_eq_some found
    exact .inl ((state.cached _ member).congr same)
  deferred {bound site r key entry} state admits _ found _ := by
    -- What is being built leads to the innermost declaration, and that one names it.
    obtain ⟨member, same⟩ := mem_of_find_key found
    obtain ⟨head, first⟩ : ∃ head, head ∈ site.building.head? :=
      Option.ne_none_iff_exists'.mp (by simpa using List.ne_nil_of_mem member)
    have back : sources.Leads key.place head.key.place := same ▸ state.leads head first entry member
    exact .inr ⟨head, first, entry.cell, back, .tail' back (admits.2 head first), rfl,
      .inl ⟨entry, member, rfl, same⟩⟩
  loop _ _ _ _ _ := ⟨.inl ⟨_, rfl⟩, by simp [Stop.needs]⟩
  enter enters := enters.state.enter enters.admits.1 enters.admits.2 _
  definition_fits {bound site r r' key expr} within defined := by
    rw [within.state.sources_eq] at defined
    refine ⟨within.admits.1.covers defined, ?_⟩
    rintro _ ⟨⟩ uses target named
    exact ⟨uses, Sources.names_iff.mpr ⟨expr, defined, named⟩⟩
  abandon {bound site r r' key} within := by
    have inner := within.state'
    have outer := within.state
    have later := (later_withReference r key).trans within.since.1
    have settled : Later r (r'.abandoned r.cache) := ⟨later.options, later.files, later.references⟩
    refine ⟨⟨inner.faithful, inner.sources_eq, inner.strict_eq, inner.pending.outer, ?_,
      outer.admitted, outer.leads⟩, settled, fun _ member => member⟩
    exact fun entry member => (outer.cached entry member).imp fun cell place grounded =>
      grounded.later (fun _ around => around) (fun _ known => known) settled.references
  undefined within error := by
    rw [within.state.sources_eq] at error
    exact justified_undefined within.admits.1 error
  breaks _ _ halts := halts
  finish {bound site r r' key expr validator} within defined holds _ := by
    rw [within.state.sources_eq] at defined
    have inner := within.state'
    have stands : sources.PortraysKey strict (r'.Grounded _) key validator := ⟨expr, defined, holds⟩
    have began : Later r r' := (later_withReference r key).trans within.since.1
    refine ⟨inner.finish within.state stands within.state.pending.cell_ne, ⟨?_, ?_⟩, .inl ?_⟩
    · exact began.trans ⟨rfl, rfl, References.extend_fill (inner.pending _ List.mem_cons_self) _⟩
    · exact fun entry member => List.mem_append_left _ (within.since.2 entry member)
    · exact stands.imp fun cell place grounded => grounded.finish validator inner.pending

end Laws

variable {resolver : Resolver}

theorem Justified.outlook {bound : Nat} {stop : Stop} (justified : Justified sources root stop) :
    (portraying sources strict root).Outlook bound (Excused sources root) resolver stop := by
  unfold Conduct.Outlook
  split
  · exact ⟨justified.1, justified.2 _ rfl, by simp [Conduct.top]⟩
  · exact justified.1

theorem portraying_retries (bound : Nat) :
    (portraying sources strict root).Retries bound (Excused sources root) where
  exhausted := trivial
  admits_since _ _ admits := admits
  outlook _ breaks := Justified.outlook breaks

theorem Portrayed.reroot (state : Portrayed sources strict root [] resolver) (root' : Passage) :
    Portrayed sources strict root' [] resolver :=
  ⟨state.faithful, state.sources_eq, state.strict_eq, state.pending, state.cached, by simp, by simp⟩

theorem Portrayed.backed (state : Portrayed sources strict root [] resolver) :
    sources.Backed strict (resolver.Grounded []) resolver.references := by
  rintro cell place (⟨_, none, _⟩ | ⟨entry, member, at_, filled⟩)
  · cases none
  · exact ⟨entry.1, entry.2, at_, filled, state.cached entry member⟩

end Portraying

namespace Resolver

variable {sources : Sources} {strict : Bool} {root : Passage} {resolver : Resolver}
  {expr : String} {file : Option FilePath}

/-- The answer portrays the expression, or there is a reason why there is none. -/
theorem resolve_portrayed (state : Portrayed sources strict root [] resolver) (expr : String)
    (file : Option FilePath) : Portrayed sources strict root [] (resolver.resolve expr file).2 ∧
      ((∃ validator after, resolver.resolve expr file = (some (.ok validator), after) ∧
          sources.Portrays strict (after.Grounded []) ⟨none, file, expr.toList⟩ validator) ∨
        ∃ fault after, resolver.resolve expr file = (some (.error fault), after) ∧
          ((∃ name, fault = .recursiveAlias name) ∨ ¬sources.Faultless ⟨none, file, expr.toList⟩)) := by
  have meets := (resolution_bounded state.faithful expr file).and <|
    resolution_meets expr file portraying_lawful (portraying_retries _)
      (state.reroot ⟨none, file, expr.toList⟩) ⟨.refl, by simp⟩
      fun _ _ _ halts => Justified.outlook halts
  rcases resolve_of_meets meets with ⟨validator, after, _, ended, _, kept⟩ |
    ⟨fault, _, after, ended, _, kept⟩ | ⟨_, _, never, _⟩
  · rw [ended]
    exact ⟨kept.1.reroot root, .inl ⟨validator, after, rfl, kept.2.2⟩⟩
  · rw [ended]
    exact ⟨kept.1.reroot root, .inr ⟨fault, after, rfl, kept.2.2⟩⟩
  · exact absurd rfl never

theorem history_portrayed {options : Options} {files : FileTable} {returned : List Validator}
    (history : History (fresh options files) resolver returned) (root : Passage) :
    Portrayed ⟨files, options.extensions⟩ resolver.options.strict root [] resolver := by
  induction history with
  | start =>
      exact ⟨by simp [Faithful, fresh], rfl, rfl, by simp [Pending], by simp [fresh], by simp, by simp⟩
  | @step resolver returned operation _ ih =>
      cases operation with
      | resolve expr file =>
          have kept := (resolve_portrayed ih expr file).1
          simp only [Operation.after]
          rw [kept.strict_eq]
          exact kept
      | setStrict strict =>
          simp only [Operation.after, setStrict]
          split
          · exact ih
          · exact ⟨ih.faithful, ih.sources_eq, rfl, by simp [Pending], by simp, by simp, by simp⟩
      | clear =>
          exact ⟨by simp [Faithful, Operation.after, clear], ih.sources_eq, rfl,
            by simp [Pending], by simp [Operation.after, clear], by simp, by simp⟩

/-- Unless a declaration is said to need itself, an expression is resolved exactly when nothing that it
leads to is at fault. -/
theorem resolve_ok_iff {options : Options} {files : FileTable} {returned : List Validator}
    (history : History (fresh options files) resolver returned)
    (known : ∀ name, (resolver.resolve expr file).1 ≠ some (.error (.recursiveAlias name))) :
    (∃ validator after, resolver.resolve expr file = (some (.ok validator), after)) ↔
      resolver.sources.Faultless ⟨none, file, expr.toList⟩ := by
  have state := history_portrayed history ⟨none, file, expr.toList⟩
  rw [← state.sources_eq] at state
  obtain ⟨after_, answered⟩ := resolve_portrayed state expr file
  rcases answered with ⟨validator, after, ended, portrays⟩ | ⟨fault, after, ended, excused⟩
  · rw [ended] at after_
    exact ⟨fun _ => portrays.faultless after_.backed, fun _ => ⟨validator, after, ended⟩⟩
  · refine ⟨fun ⟨_, _, answer⟩ => (by cases ended.symm.trans answer), fun faultless => ?_⟩
    rcases excused with ⟨name, rfl⟩ | faulty
    · exact absurd (congrArg Prod.fst ended) (known name)
    · exact absurd faultless faulty

theorem resolve_error_iff {options : Options} {files : FileTable} {returned : List Validator}
    (history : History (fresh options files) resolver returned)
    (known : ∀ name, (resolver.resolve expr file).1 ≠ some (.error (.recursiveAlias name))) :
    (∃ fault after, resolver.resolve expr file = (some (.error fault), after)) ↔
      ¬resolver.sources.Faultless ⟨none, file, expr.toList⟩ := by
  have state := history_portrayed history ⟨none, file, expr.toList⟩
  rw [← resolve_ok_iff history known]
  rcases (resolve_portrayed state expr file).2 with ⟨validator, after, ended, _⟩ |
    ⟨fault, after, ended, _⟩
  · simp [ended]
  · simp [ended]

end Resolver

end Conform
