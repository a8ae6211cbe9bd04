import Conform.Proofs.Resolver.Order

/-!
Retries find an order. A declaration that has to come first is built at the top, and nothing is tried
in vain: no resolution ends with a recursive alias where declarations can be built one after the
other.
-/

namespace Conform

open Relation

section Order

variable {sources : Sources} {file : Option FilePath} {expr : List Char}

theorem Blocked.mono {cache cache' : List (DeclKey × Validator)} {bottom bottom' : Option Place}
    {stop : Stop} (blocked : Blocked sources file expr cache bottom stop)
    (fewer : ∀ entry ∈ cache', entry ∈ cache) (same : ∀ place ∈ bottom', place ∈ bottom) :
    Blocked sources file expr cache' bottom' stop := by
  unfold Blocked at blocked ⊢
  split at blocked
  · exact blocked
  · obtain ⟨reachable, uncached, waits⟩ := blocked
    exact ⟨reachable, fun cached => uncached (cached.mono fewer),
      fun orderly place member => waits orderly place (same place member)⟩
  · trivial

theorem bottom?_push (entry : Building) (rest : List Building) :
    bottom? (entry :: rest) = some ((bottom? rest).getD entry.key.place) := by
  cases rest with
  | nil => rfl
  | cons outer rest =>
      simp only [bottom?, List.getLast?_cons_cons]
      cases found : (outer :: rest).getLast? with
      | none => simp at found
      | some last => rfl

section Laws

variable {site : Site} {before after : Resolver} {bound : Nat} {part : List Char}

theorem ordering_reachable (ready : (ordering sources file expr).Ready (bound + 1) site before part)
    {name : List Char} {key : DeclKey} (form : Form.read part = .ok (.reference name))
    (means : before.sources.Means site.file name key) :
    sources.Reachable file expr key.place ∧
      Follows sources before.cache site.depth site.building key.place := by
  obtain ⟨state, root, definition⟩ := ready
  rw [state.sources_eq] at means
  refine ⟨?_, fun head member => (definition head member).follows form means⟩
  cases building : site.building with
  | nil =>
      obtain ⟨same, uses, inside⟩ := root building
      exact ⟨uses, key.place, ⟨part, name, key, inside, form, same ▸ means, rfl⟩, .refl⟩
  | cons head rest =>
      have member : head ∈ site.building.head? := by simp [building]
      obtain ⟨⟨uses, named, _⟩, _⟩ := (definition head member).follows form means
      exact (state.reachable head (by simp [building])).refers ⟨uses, named⟩

theorem ordering_wanted (ready : (ordering sources file expr).Ready (bound + 1) site before part)
    {name : List Char} (piece : Piece .atOnce part name) {place : Place}
    (named : sources.NamesIn site.file name [] place) :
    sources.WantedAtOnce file expr place ∧
      ∀ head ∈ site.building.head?, sources.NamesAtOnce head.key.place place := by
  obtain ⟨state, root, definition⟩ := ready
  obtain ⟨target, key, form, means, at_⟩ := Sources.namesIn_nil_iff.mp named
  have byHead (head : Building) (member : head ∈ site.building.head?) :
      sources.NamesAtOnce head.key.place place := by
    obtain ⟨same, found, uses, defined, inside, _, _⟩ := definition head member
    exact ⟨uses ++ [.atOnce], Sources.names_iff.mpr ⟨found, defined, name, target, key,
      .piece inside piece, form, same ▸ means, at_⟩, by simp⟩
  refine ⟨?_, byHead⟩
  cases building : site.building with
  | nil =>
      obtain ⟨same, uses, inside⟩ := root building
      exact .inl ⟨uses ++ [.atOnce], ⟨name, target, key, .piece inside piece, form, same ▸ means,
        at_⟩, by simp⟩
  | cons head rest =>
      exact .inr ⟨head.key.place, state.reachable head (by simp [building]),
        byHead head (by simp [building])⟩

theorem ordering_parent {parts : Expr.RecordParts} {ancestors : List (Level Validator)}
    (form : Form.read part = .ok (.record parts))
    (parent : ParentHolds ((ordering sources file expr).Holds site before) parts.parent ancestors)
    (place : Place) (inside : sources.ParentIn site.file part place) : Cached before.cache place := by
  obtain ⟨parts', name, target, key, form', extends_, name_, means, at_⟩ := inside
  cases form.symm.trans form'
  obtain ⟨own, rest, holds⟩ := parent.holds extends_
  exact (holds.1 place (Sources.namesIn_nil_iff.mpr ⟨target, key, name_, means, at_⟩)).cached
    (by simp)

theorem ordering_other {form : Form} {validator : Validator} (read : Form.read part = .ok form)
    (noName : ∀ name, form ≠ .reference name) (noRecord : ∀ parts, form ≠ .record parts)
    (built : ∀ name cell, validator ≠ .deferred name cell) :
    (ordering sources file expr).Holds site before part validator := by
  refine ⟨?_, fun ⟨name, cell, loose⟩ => absurd loose (built name cell), ?_⟩
  · intro place named
    obtain ⟨name, key, form', _⟩ := Sources.namesIn_nil_iff.mp named
    exact absurd (Except.ok.inj (read.symm.trans form')) (noName name)
  · rintro place ⟨parts, _, _, _, form', _⟩
    exact absurd (Except.ok.inj (read.symm.trans form')) (noRecord parts)

theorem ordering_lawful : (ordering sources file expr).Lawful where
  faithful state := state.faithful
  quiet state quiet := state.quiet quiet
  trans earlier later := earlier.trans later
  constant since := ⟨since.options, since.files⟩
  fits_since {_ site r r' part} _ since fits := by
    refine ⟨fits.1, fun head member => ?_⟩
    obtain ⟨same, found, uses, defined, inside, depth, phase⟩ := fits.2 head member
    exact ⟨same, found, uses, defined, inside, depth, phase.imp id <| .imp id fun cached place
      extends_ => (cached place extends_).mono since.cache⟩
  holds_since _ since holds := ⟨fun place named => (holds.1 place named).grown since.cache,
    holds.2.1, fun place parent => (holds.2.2 place parent).mono since.cache⟩
  exhausted _ := trivial
  unreadable _ error _ := Form.read_error error
  piece_fits {bound site r part use smaller} ready piece parents := by
    have same : (site.toward use).building = site.building := by cases use <;> rfl
    have sameFile : (site.toward use).file = site.file := by cases use <;> rfl
    refine ⟨fun none => ?_, fun head member => ?_⟩
    · obtain ⟨file_eq, uses, inside⟩ := ready.fits.1 (same ▸ none)
      exact ⟨sameFile.trans file_eq, _, .piece inside piece⟩
    · refine (ready.fits.2 head (same ▸ member)).piece piece ?_
      rintro nested place ⟨parts, name, target, key, form, extends_, name_, means, at_⟩
      obtain ⟨own, ancestors, holds⟩ := parents parts name form nested extends_
      exact (holds.1 place (Sources.namesIn_nil_iff.mpr ⟨target, key, name_, means, at_⟩)).cached
        (by simp)
  piece_halts {bound site r part use smaller stop} _ _ halts := by
    cases use <;> exact halts
  primitive _ form := ordering_other form (by simp) (by simp) (by simp)
  group _ _ form _ := ordering_other form (by simp) (by simp) (by simp)
  array _ _ form _ := ordering_other form (by simp) (by simp) (by simp)
  partialOf _ _ form _ := ordering_other form (by simp) (by simp) (by simp)
  record _ _ form parent _ := by
    refine ⟨fun place named => ?_, by simp, ordering_parent form parent⟩
    obtain ⟨name, key, form', _⟩ := Sources.namesIn_nil_iff.mp named
    cases form.symm.trans form'
  unreadableMember _ _ _ _ _ := fun _ => by simp
  awaited ready piece holds := by
    obtain ⟨place, named⟩ := holds.2.1 ⟨_, _, rfl⟩
    obtain ⟨wanted, byHead⟩ := ordering_wanted ready piece named
    exact ready.state.blocked byHead wanted (holds.1 place named)
  notRecord _ _ _ _ _ other _ := other
  fileless _ _ _ _ := fun _ => by simp
  unlocated _ _ _ error _ := Sources.locate_error error
  admits ready form means := ordering_reachable ready form means
  stands_holds {bound site r part name key validator} ready form means stands := by
    rw [ready.state.sources_eq] at means
    refine ⟨fun place named => ?_, fun _ => ⟨key.place, Sources.namesIn_nil_iff.mpr
      ⟨name, key, form, means, rfl⟩⟩, ?_⟩
    · obtain ⟨name', key', form', means', rfl⟩ := Sources.namesIn_nil_iff.mp named
      cases form.symm.trans form'
      rw [Sources.means_unique means' means]
      exact stands
    · rintro place ⟨parts, _, _, _, form', _⟩
      cases form.symm.trans form'
  breaks_halts _ _ _ breaks := breaks.mono (fun _ member => member) fun place member => by
    simp only [Option.mem_def] at member ⊢
    simp [member]
  cached {bound site r key validator} state _ found := by
    obtain ⟨known, member, same⟩ := Resolver.cached?_eq_some found
    exact .inr ⟨⟨_, member, same⟩, fun loose => same ▸ state.loops _ member loose⟩
  deferred {bound site r key entry} _ _ _ found _ := by
    obtain ⟨member, same⟩ := mem_of_find_key found
    exact .inl ⟨entry, member, same, _, rfl⟩
  loop state admits _ found deep orderly :=
    absurd (state.not_loop orderly admits.2 found) (Nat.not_lt.mpr deep)
  enter enters := enters.state.enter enters.admits.1 enters.admits.2 enters.uncached
    enters.notBuilding
  definition_fits {bound site r r' key definition} within defined := by
    refine ⟨by simp [Site.entering], ?_⟩
    rintro head ⟨⟩
    rw [within.state.sources_eq] at defined
    exact ⟨rfl, definition, [], defined, .whole, by simp [Site.entering], .inl rfl⟩
  abandon {bound site r r' key} within := by
    obtain ⟨options, files, _, references⟩ := within.since
    have longer : r.references.length ≤ r'.references.length :=
      Nat.le_trans (by simp [Resolver.withReference]) references
    exact within.state.same_cache within.state'.faithful options files rfl longer
  undefined _ error _ := Sources.definition_error error
  breaks {bound site r r' key definition stop} within _ halts := by
    refine halts.mono ?_ ?_
    · exact within.since.cache
    · rw [Site.entering, bottom?_push]
      exact fun _ member => member
  finish {bound site r r' key definition validator} within defined holds _ := by
    rw [within.state.sources_eq] at defined
    have inner := within.state'
    have loop (loose : ∃ name cell, validator = .deferred name cell) :
        sources.StandsForLoop key.place := by
      obtain ⟨place, named⟩ := holds.2.1 loose
      exact inner.standsForLoop defined named (holds.1 place named) loose
    have parents : ParentsCached sources r'.cache key.place := by
      intro place extends_
      obtain ⟨found, defined', parent⟩ := Sources.extends_iff.mp extends_
      cases defined.symm.trans defined'
      exact holds.2.2 place parent
    obtain ⟨state, grown⟩ := inner.finish loop parents
    refine ⟨state, ?_, .inr ⟨⟨(key, validator), by simp [Resolver.finished], rfl⟩, loop⟩⟩
    have began : Grown r (r.withReference key) :=
      ⟨rfl, rfl, fun _ member => member, by simp [Resolver.withReference]⟩
    exact (began.trans within.since).trans grown

end Laws

/-- Retries do not give up: what was tried has been built, or waits for what is being tried, and
that cannot come up again. -/
theorem inOrder_orderly (orderly : sources.Orderly file expr) (bound : Nat)
    {action : Resolve Validator} (here : Option Place) (waiting : List Place)
    (tried : List DeclKey)
    (runs : ∀ r, InOrder sources file expr [] r →
      Resolve.Meets action r
        ((ordering sources file expr).Keeps [] r fun after _ =>
          ∀ place ∈ here, Cached after.cache place)
        ((ordering sources file expr).Keeps [] r fun after =>
          Blocked sources file expr after.cache here))
    (paths : ∀ place ∈ waiting, sources.Reachable file expr place ∧
      ∃ last ∈ here, ReflTransGen sources.Waits place last)
    (retries : Nat) {before : Resolver}
    (state : InOrder sources file expr [] before)
    (known : ∀ key ∈ tried, Cached before.cache key.place ∨ key.place ∈ waiting) :
    Resolve.Meets (Resolve.inOrder (Resolve.resolveWithin bound) action retries tried) before
      ((ordering sources file expr).Keeps [] before fun after found =>
        (∀ place ∈ here, Cached after.cache place) ∧
          ∀ key ∈ found.2, Cached after.cache key.place ∨ key.place ∈ waiting)
      fun stop _ => ∀ name needs, stop ≠ .fault (.recursiveAlias name) needs := by
  have lawful : (ordering sources file expr).Lawful := ordering_lawful
  induction retries generalizing action here waiting tried before with
  | zero =>
      simp only [Resolve.inOrder, Resolve.meets_throw]
      simp
  | succ retries ih =>
      simp only [Resolve.inOrder, Resolve.meets_tryCatch, Resolve.meets_bind, Resolve.meets_pure]
      refine (runs before state).mono ?_ ?_
      · rintro validator after ⟨state', grown, built⟩
        exact ⟨state', grown, built, fun key member => (known key member).imp_left
          fun cached => cached.mono grown.cache⟩
      rintro stop middle ⟨state', grown, blocked⟩
      have known' (key : DeclKey) (member : key ∈ tried) :
          Cached middle.cache key.place ∨ key.place ∈ waiting :=
        (known key member).imp_left fun cached => cached.mono grown.cache
      split
      · rename_i fault key
        obtain ⟨reachable, uncached, waits⟩ := blocked
        -- The declaration has not been tried: it is not built, and nothing that waits leads to it.
        have untried : tried.any (·.sameAs key) = false := by
          by_contra again
          obtain ⟨other, member, same⟩ := List.any_eq_true.mp (Bool.not_eq_false _ ▸ again)
          rw [DeclKey.sameAs_iff_place] at same
          rcases known' other member with cached | waiting'
          · exact uncached (same ▸ cached)
          · obtain ⟨reachable', last, member', path⟩ := paths _ waiting'
            refine orderly.waits reachable' (TransGen.tail' path ?_)
            rw [same]
            exact waits orderly last member'
        simp only [untried, Bool.false_eq_true, if_false, Resolve.meets_bind]
        have first : ∀ r, InOrder sources file expr [] r →
            Resolve.Meets (Resolve.resolveKey (Resolve.resolveWithin bound) Conduct.top key) r
              ((ordering sources file expr).Keeps [] r fun after _ =>
                ∀ place ∈ some key.place, Cached after.cache place)
              ((ordering sources file expr).Keeps [] r fun after =>
                Blocked sources file expr after.cache (some key.place)) := by
          intro r state
          have admits : (ordering sources file expr).Admits bound Conduct.top r key :=
            ⟨reachable, by simp [Conduct.top, Follows]⟩
          have top : (ordering sources file expr).State Conduct.top.building r := state
          refine (Resolve.resolveKey_meets lawful (lawful.governs bound) top admits).mono ?_
            fun _ _ kept => kept
          rintro validator after ⟨state', grown, _ | ⟨cached, _⟩⟩
          · simp_all [Conduct.top]
          · exact ⟨state', grown, by simpa using cached⟩
        have paths' : ∀ place ∈ key.place :: waiting, sources.Reachable file expr place ∧
            ∃ last ∈ some key.place, ReflTransGen sources.Waits place last := by
          refine List.forall_mem_cons.mpr ⟨⟨reachable, key.place, rfl, .refl⟩, ?_⟩
          intro place member
          obtain ⟨reachable', last, member', path⟩ := paths place member
          exact ⟨reachable', key.place, rfl, path.tail (waits orderly last member')⟩
        refine (ih (some key.place) (key.place :: waiting) (key :: tried) first paths' state' ?_).mono ?_ fun _ _ kept => kept
        · refine List.forall_mem_cons.mpr ⟨.inr (by simp), fun other member => ?_⟩
          exact (known' other member).imp_right (List.mem_cons_of_mem _)
        · rintro ⟨_, tried'⟩ after ⟨state'', grown', built, known''⟩
          refine (ih here waiting tried' runs paths state'' ?_).mono ?_ fun _ _ kept => kept
          · intro other member
            rcases known'' other member with cached | member'
            · exact .inl cached
            · rcases List.mem_cons.mp member' with same | member'
              · exact .inl (same ▸ built key.place rfl)
              · exact .inr member'
          · exact fun _ _ kept => lawful.keeps_since (lawful.trans grown grown') kept
      · rename_i other
        simp only [Resolve.meets_throw]
        rintro name needs rfl
        cases needs with
        | none => exact blocked orderly name rfl
        | some key => exact other _ _ rfl

theorem InOrder.reroot {resolver : Resolver} (state : InOrder sources file expr [] resolver)
    (file' : Option FilePath) (expr' : List Char) : InOrder sources file' expr' [] resolver :=
  ⟨state.faithful, state.sources_eq, state.loops, state.parents, by simp, by simp, state.stack⟩

theorem ordering_retries (bound : Nat) :
    (ordering sources file expr).Retries bound fun _ => True where
  exhausted := trivial
  admits_since _ _ admits := ⟨admits.1, by simp [Conduct.top, Follows]⟩
  outlook {r key stop} _ breaks := by
    unfold Conduct.Outlook
    split
    · exact ⟨trivial, breaks.1, by simp [Conduct.top, Follows]⟩
    · trivial

end Order

end Conform
