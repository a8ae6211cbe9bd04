import Conform.Proofs.Declaration.Extent
import Conform.Proofs.Resolver.Order

/-!
The bounds of a resolution are never reached. Inside one declaration expressions get shorter, no
declaration is built inside itself or tried twice, and there are only so many that can be built.
-/

namespace Conform

def Sources.Defined (sources : Sources) (key : DeclKey) : Prop :=
  ∃ expr, sources.definition key = .ok expr

structure Sources.Limited (sources : Sources) (declarations longest : Nat) : Prop where
  definition {key : DeclKey} {expr : List Char} : sources.definition key = .ok expr →
    expr.length ≤ longest
  places {keys : List DeclKey} : (keys.map (·.place)).Nodup →
    (∀ key ∈ keys, sources.Defined key) → keys.length ≤ declarations

structure Nested (sources : Sources) (building : List Building) (resolver : Resolver) : Prop where
  faithful : resolver.Faithful
  sources_eq : resolver.sources = sources
  distinct : ((building.map (·.key)).map (·.place)).Nodup

def Stop.Within (sources : Sources) : Stop → Prop
  | .fault _ needs => ∀ key ∈ needs, sources.Defined key
  | .unfinished => False

def nesting (sources : Sources) (declarations longest : Nat) : Conduct where
  State := Nested sources
  Since _ before after := after.options = before.options ∧ after.files = before.files
  Fits bound site _ part := (∀ entry ∈ site.building, sources.Defined entry.key) ∧
    (declarations + 1) * (longest + 2) + part.length <
      bound + site.building.length * (longest + 2)
  Holds _ _ _ _ := True
  Halts _ _ _ stop := stop.Within sources
  Admits bound site _ _ := (∀ entry ∈ site.building, sources.Defined entry.key) ∧
    (declarations + 1) * (longest + 2) ≤ bound + site.building.length * (longest + 2)
  Stands _ _ _ _ := True
  Breaks _ _ _ stop := stop.Within sources

section Nesting

variable {sources : Sources} {declarations longest : Nat}

theorem Nested.length_le (limited : sources.Limited declarations longest)
    {building : List Building} {resolver : Resolver} (nested : Nested sources building resolver)
    (defined : ∀ entry ∈ building, sources.Defined entry.key) : building.length ≤ declarations := by
  have among : ∀ key ∈ building.map (·.key), sources.Defined key := by
    intro key member
    obtain ⟨entry, inside, rfl⟩ := List.mem_map.mp member
    exact defined entry inside
  simpa using limited.places nested.distinct among

theorem Nested.same {building : List Building} {before after : Resolver}
    (nested : Nested sources building before) (faithful : after.Faithful)
    (options : after.options = before.options) (files : after.files = before.files) :
    Nested sources building after := by
  refine ⟨faithful, ?_, nested.distinct⟩
  rw [← nested.sources_eq]
  simp only [Resolver.sources, options, files]

theorem Nested.enter {building : List Building} {resolver : Resolver} {key : DeclKey} {depth : Nat}
    (nested : Nested sources building resolver)
    (notBuilding : building.find? (fun entry => entry.key.sameAs key) = none) :
    Nested sources (⟨key, depth, resolver.references.length⟩ :: building)
      (resolver.withReference key) := by
  refine ⟨nested.faithful, nested.sources_eq, ?_⟩
  simp only [List.map_cons, List.nodup_cons]
  refine ⟨fun among => ?_, nested.distinct⟩
  simp only [List.map_map, List.mem_map, Function.comp_apply] at among
  obtain ⟨entry, member, same⟩ := among
  exact List.find?_eq_none.mp notBuilding entry member (DeclKey.sameAs_iff_place.mpr same)

theorem nesting_lawful (limited : sources.Limited declarations longest) :
    (nesting sources declarations longest).Lawful where
  faithful state := state.faithful
  quiet state quiet := by
    refine ⟨state.same quiet.faithful ?_ ?_, ?_, ?_⟩ <;> rw [quiet.eq]
  trans earlier later := ⟨later.1.trans earlier.1, later.2.trans earlier.2⟩
  constant since := since
  fits_since _ _ fits := fits
  holds_since _ _ _ := trivial
  exhausted {site r part} ready := by
    have few := ready.state.length_le limited ready.fits.1
    have enough := ready.fits.2
    have most := Nat.mul_le_mul_right (longest + 2) few
    rw [Nat.add_mul] at enough
    omega
  unreadable _ _ := by simp [nesting, Stop.Within]
  piece_fits {bound site r part use smaller} ready piece _ := by
    have shorter := piece.length_lt
    obtain ⟨defined, enough⟩ := ready.fits
    rw [← Conduct.Lawful.toward_building site use] at defined enough
    exact ⟨defined, by omega⟩
  piece_halts _ _ halts := halts
  primitive _ _ := trivial
  group _ _ _ _ := trivial
  array _ _ _ _ := trivial
  partialOf _ _ _ _ := trivial
  record _ _ _ _ _ := trivial
  unreadableMember _ _ _ _ := by simp [nesting, Stop.Within]
  awaited ready _ _ := by
    intro key needed
    obtain ⟨head, member, rfl⟩ := prerequisite?_eq_some needed
    exact ready.fits.1 head member
  notRecord _ _ _ _ _ _ := by simp [nesting, Stop.Within]
  fileless _ _ _ := by simp [nesting, Stop.Within]
  unlocated _ _ _ _ := by simp [nesting, Stop.Within]
  admits ready _ _ := ⟨ready.fits.1, by
    have enough := ready.fits.2
    omega⟩
  stands_holds _ _ _ _ := trivial
  breaks_halts _ _ _ breaks := breaks
  cached _ _ _ := trivial
  deferred _ _ _ _ _ := trivial
  loop _ _ _ _ _ := by simp [nesting, Stop.Within]
  enter enters := enters.state.enter enters.notBuilding
  definition_fits {bound site r r' key expr} within defined := by
    rw [within.state.sources_eq] at defined
    have shorter := limited.definition defined
    refine ⟨List.forall_mem_cons.mpr ⟨⟨expr, defined⟩, within.admits.1⟩, ?_⟩
    have enough := within.admits.2
    simp only [Site.entering, List.length_cons]
    rw [Nat.add_mul site.building.length]
    omega
  abandon {bound site r r' key} within := by
    obtain ⟨options, files⟩ := within.since
    exact ⟨within.state.same within.state'.faithful options files, options, files⟩
  undefined _ _ := by simp [nesting, Stop.Within]
  breaks _ _ halts := halts
  finish {bound site r r' key expr validator} within _ _ _ := by
    obtain ⟨options, files⟩ := within.since
    exact ⟨within.state.same within.state'.faithful options files, ⟨options, files⟩, trivial⟩

/-- Retries come to an end: the declarations that were tried are different ones. -/
theorem inOrder_ends (limited : sources.Limited declarations longest) {bound : Nat}
    (enough : (declarations + 1) * (longest + 2) ≤ bound) {action : Resolve Validator}
    (runs : ∀ r, Nested sources [] r → Resolve.Meets action r
      (fun _ after => Nested sources [] after)
      (fun stop after => Nested sources [] after ∧ stop.Within sources))
    (retries : Nat) (tried : List DeclKey) {before : Resolver} (state : Nested sources [] before)
    (distinct : (tried.map (·.place)).Nodup) (defined : ∀ key ∈ tried, sources.Defined key)
    (left : declarations < retries + tried.length) :
    Resolve.Meets (Resolve.inOrder (Resolve.resolveWithin bound) action retries tried) before
      (fun found after => Nested sources [] after ∧ (found.2.map (·.place)).Nodup ∧
        (∀ key ∈ found.2, sources.Defined key) ∧ tried.length ≤ found.2.length)
      (fun stop _ => stop ≠ .unfinished) := by
  induction retries generalizing action tried before with
  | zero =>
      have few := limited.places distinct defined
      omega
  | succ retries ih =>
      simp only [Resolve.inOrder, Resolve.meets_tryCatch, Resolve.meets_bind, Resolve.meets_pure]
      refine (runs before state).mono ?_ ?_
      · exact fun _ after state' => ⟨state', distinct, defined, Nat.le_refl _⟩
      rintro stop middle ⟨state', within⟩
      split
      · rename_i fault key
        by_cases again : tried.any (·.sameAs key)
        · simp only [again, if_true, Resolve.meets_fail]
          simp
        have fresh : key.place ∉ tried.map (·.place) := by
          intro among
          obtain ⟨other, member, same⟩ := List.mem_map.mp among
          exact again (List.any_eq_true.mpr ⟨other, member, DeclKey.sameAs_iff_place.mpr same⟩)
        have first : ∀ r, Nested sources [] r → Resolve.Meets
            (Resolve.resolveKey (Resolve.resolveWithin bound) Conduct.top key) r
            (fun _ after => Nested sources [] after)
            (fun stop after => Nested sources [] after ∧ stop.Within sources) := by
          intro r state
          have lawful := nesting_lawful limited
          have top : (nesting sources declarations longest).State Conduct.top.building r := state
          have admits : (nesting sources declarations longest).Admits bound Conduct.top r key :=
            ⟨by simp [Conduct.top], by simpa [Conduct.top] using enough⟩
          refine (Resolve.resolveKey_meets lawful (lawful.governs bound) top admits).mono ?_ ?_
          · exact fun _ _ kept => kept.1
          · exact fun _ _ kept => ⟨kept.1, kept.2.2⟩
        simp only [again, Bool.false_eq_true, if_false, Resolve.meets_bind]
        refine (ih first (key :: tried) state' (List.nodup_cons.mpr ⟨fresh, distinct⟩)
          (List.forall_mem_cons.mpr ⟨within key rfl, defined⟩) ?_).mono ?_ fun _ _ ends => ends
        · simp only [List.length_cons]
          omega
        · rintro ⟨_, tried'⟩ after ⟨state'', distinct', defined', longer⟩
          simp only [List.length_cons] at longer
          refine (ih runs tried' state'' distinct' defined' (by omega)).mono ?_ fun _ _ ends => ends
          rintro found last ⟨ended, distinct'', defined'', longer'⟩
          exact ⟨ended, distinct'', defined'', by omega⟩
      · simp only [Resolve.meets_throw]
        rintro rfl
        exact within

end Nesting

namespace Resolver

variable {resolver : Resolver} {expr : List Char}

theorem le_foldl_max (lengths : List Nat) (start : Nat) :
    start ≤ lengths.foldl max start ∧ ∀ length ∈ lengths, length ≤ lengths.foldl max start := by
  induction lengths generalizing start with
  | nil => simp
  | cons first rest ih =>
      obtain ⟨begin, others⟩ := ih (max start first)
      exact ⟨Nat.le_trans (Nat.le_max_left start first) begin,
        List.forall_mem_cons.mpr ⟨Nat.le_trans (Nat.le_max_right start first) begin, others⟩⟩

theorem le_longest : ∀ length ∈ expr.length :: resolver.textLengths,
    length ≤ resolver.longest expr :=
  (le_foldl_max (expr.length :: resolver.textLengths) 0).2

theorem sources_bounded : resolver.sources.Bounded (resolver.longest expr) := by
  intro path content entry
  refine le_longest _ (List.mem_cons_of_mem _ (List.mem_append_right _ (List.mem_map.mpr ?_)))
  exact ⟨_, entry, rfl⟩

theorem sources_limited :
    resolver.sources.Limited (resolver.declarationLimit expr) (resolver.longest expr) where
  definition := Sources.length_definition sources_bounded
  places {keys} distinct defined := by
    have known : ∀ place ∈ keys.map (·.place), place ∈ resolver.sources.places := by
      intro place among
      obtain ⟨key, member, rfl⟩ := List.mem_map.mp among
      obtain ⟨expr, found⟩ := defined key member
      exact Sources.mem_places found
    have few := Sources.length_le_places distinct known
    have all := Sources.length_places (@sources_bounded resolver expr)
    have square : Nat.pow (resolver.longest expr + 1) 2 =
        (resolver.longest expr + 1) * (resolver.longest expr + 1) := by
      change (resolver.longest expr + 1) ^ 2 = _
      rw [Nat.pow_two]
    have files : resolver.sources.files.entries.length ≤ resolver.textLengths.length := by
      simp [textLengths, sources]
    rw [List.length_map] at few
    unfold declarationLimit
    rw [square]
    exact Nat.le_trans (Nat.le_trans few all) (Nat.mul_le_mul_right _ files)

/-- The bounds on nesting and retries are never reached, and no declaration is built first twice. -/
theorem resolution_bounded (faithful : resolver.Faithful) (expr : String) (file : Option FilePath) :
    Resolve.Meets (resolver.resolution expr file) resolver
      (fun found _ => found.2.length ≤ resolver.declarationLimit expr.toList)
      (fun stop _ => stop ≠ .unfinished) := by
  have limited := @sources_limited resolver expr.toList
  have lawful := nesting_lawful limited
  have shorter : expr.toList.length ≤ resolver.longest expr.toList := le_longest _ (by simp)
  have limit : resolver.nestingLimit expr.toList =
      (resolver.declarationLimit expr.toList + 1) * (resolver.longest expr.toList + 2) +
        (resolver.longest expr.toList + 2) := Nat.succ_mul _ _
  have enough : (resolver.declarationLimit expr.toList + 1) * (resolver.longest expr.toList + 2) ≤
      resolver.nestingLimit expr.toList := by omega
  have start : Nested resolver.sources [] resolver := ⟨faithful, rfl, by simp⟩
  have runs : ∀ r, Nested resolver.sources [] r → Resolve.Meets
      (Resolve.resolveWithin (resolver.nestingLimit expr.toList) { file := file } expr.toList) r
      (fun _ after => Nested resolver.sources [] after)
      (fun stop after => Nested resolver.sources [] after ∧ stop.Within resolver.sources) := by
    intro r state
    refine (lawful.governs _ { file := file } expr.toList r ⟨state, by simp, ?_⟩).mono ?_ ?_
    · simp only [List.length_nil, Nat.zero_mul, Nat.add_zero]
      omega
    · exact fun _ _ kept => kept.1
    · exact fun _ _ kept => ⟨kept.1, kept.2.2⟩
  refine (inOrder_ends limited enough runs (resolver.declarationLimit expr.toList + 1) [] start
    (by simp) (by simp) (by simp)).mono ?_ fun _ _ ends => ends
  rintro found after ⟨_, distinct, defined, _⟩
  exact limited.places distinct defined

theorem exists_resolve_eq (faithful : resolver.Faithful) (expr : String) (file : Option FilePath) :
    ∃ answer after, resolver.resolve expr file = (some answer, after) := by
  rcases resolve_of_meets (resolution_bounded faithful expr file) with ⟨_, after, _, ended, _⟩ |
    ⟨_, _, after, ended, _⟩ | ⟨_, _, never⟩
  · exact ⟨_, after, ended⟩
  · exact ⟨_, after, ended⟩
  · exact absurd rfl never

end Resolver

end Conform
