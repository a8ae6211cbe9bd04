import Conform.Proofs.Resolver.Completed
import Conform.Proofs.Resolver.Stack

/-!
One strictness throughout. A field is as strict as the setting is when the field is built, and a change
of the setting forgets what was built before. So nothing in the cache mixes the two, and nothing that is
returned does, not even behind a reference.
-/

namespace Conform

open Validator

theorem Field.strict_make (node : NodeId) (name : String) (optional strict : Bool) (type : Validator) :
    (Field.make node name optional strict type).strict = strict := by
  unfold Field.make
  split <;> rfl

theorem MembersHold.strict {holds : List Char → Validator → Prop} {strict : Bool}
    {members : List (List Char)} {fields : List (Field Validator)} {index : Option Validator}
    (known : MembersHold holds strict members fields index) : ∀ field ∈ fields, field.strict = strict := by
  induction known with
  | nil => simp
  | index _ _ _ ih => exact ih
  | field node _ _ _ ih => exact List.forall_mem_cons.mpr ⟨Field.strict_make .., ih⟩

namespace Validator

variable {references : References} {strict : Bool} {validator : Validator}

def Uniform (strict : Bool) (references : References) : Validator → Prop :=
  Everywhere references (OnLevels fun level => ∀ field ∈ level.fields, field.strict = strict)

theorem Everywhere.append {holds : Validator → Prop} (everywhere : Everywhere references holds validator)
    (key : DeclKey) : Everywhere (references ++ [{ key := key }]) holds validator := by
  intro part reaches
  refine everywhere part (Relation.ReflTransGen.mono (fun first second step => ?_) _ _ reaches)
  cases step with
  | element => exact .element
  | operand member => exact .operand member
  | field among member => exact .field among member
  | index among member => exact .index among member
  | target filled => exact .target (References.target?_of_append filled)

theorem Everywhere.fill {holds : Validator → Prop} {cell : CellId} {filler : Validator}
    (everywhere : Everywhere references holds validator) (fills : Everywhere references holds filler) :
    Everywhere (references.fill cell filler) holds validator :=
  fun part reaches => (reaches_of_fill reaches).elim (everywhere part) (fills part)

theorem Uniform.relaxed {own : Level Validator} {ancestors : List (Level Validator)} {node : NodeId}
    (uniform : Uniform strict references (.record own ancestors)) :
    Uniform strict references (.record (own.relaxed node) ancestors) := by
  obtain ⟨first, further⟩ := List.forall_mem_cons.mp uniform.here
  refine Everywhere.relaxed uniform (List.forall_mem_cons.mpr ⟨?_, further⟩)
  intro field member
  obtain ⟨before, among, rfl⟩ := List.mem_map.mp member
  exact first before among

end Validator

namespace Resolver

variable {strict : Bool} {building : List Building} {resolver : Resolver}

structure Unmixed (strict : Bool) (building : List Building) (resolver : Resolver) : Prop where
  faithful : resolver.Faithful
  strict_eq : resolver.options.strict = strict
  pending : Pending resolver.references building
  cached : ∀ entry ∈ resolver.cache, Uniform strict resolver.references entry.2

structure KeepsUniform (strict : Bool) (before after : Resolver) : Prop where
  options : after.options = before.options
  files : after.files = before.files
  uniform : ∀ validator, Uniform strict before.references validator →
    Uniform strict after.references validator

def unmixing (strict : Bool) : Conduct where
  State := Unmixed strict
  Since _ := KeepsUniform strict
  Fits _ _ _ _ := True
  Holds _ resolver _ := Uniform strict resolver.references
  Halts _ _ _ _ := True
  Admits _ _ _ _ := True
  Stands _ resolver _ := Uniform strict resolver.references
  Breaks _ _ _ _ := True

theorem unmixing_lawful : (unmixing strict).Lawful where
  faithful state := state.faithful
  quiet state quiet := by
    obtain ⟨known, faithful⟩ := quiet
    rw [known]
    exact ⟨⟨known ▸ faithful, state.strict_eq, state.pending, state.cached⟩, rfl, rfl, fun _ same => same⟩
  trans earlier later := ⟨later.options.trans earlier.options, later.files.trans earlier.files,
    fun validator uniform => later.uniform validator (earlier.uniform validator uniform)⟩
  constant since := ⟨since.options, since.files⟩
  fits_since _ _ _ := trivial
  holds_since _ since holds := since.uniform _ holds
  exhausted _ := trivial
  unreadable _ _ := trivial
  piece_fits _ _ _ := trivial
  piece_halts _ _ _ := trivial
  primitive _ _ := .primitive trivial
  group _ _ _ holds := .group trivial (forall₂_right holds)
  array _ _ _ holds := .array trivial holds
  partialOf _ _ _ holds := Uniform.relaxed holds
  record node ready _ parent members := by
    have fields := members.strict
    rw [ready.state.strict_eq] at fields
    refine .record (List.forall_mem_cons.mpr ⟨fields, parent.onLevels⟩)
      (List.forall_mem_cons.mpr ⟨?_, parent.throughout⟩)
    exact members.throughout node _ trivial fun _ _ => trivial
  unreadableMember _ _ _ _ := trivial
  awaited _ _ _ := trivial
  notRecord _ _ _ _ _ _ := trivial
  fileless _ _ _ := trivial
  unlocated _ _ _ _ := trivial
  admits _ _ _ := trivial
  stands_holds _ _ _ stands := stands
  breaks_halts _ _ _ _ := trivial
  cached state _ found := by
    obtain ⟨_, member, _⟩ := cached?_eq_some found
    exact state.cached _ member
  deferred state _ _ found _ :=
    .unfilled (state.pending.unfilled _ (mem_of_find_key found).1) trivial
  loop _ _ _ _ _ := trivial
  enter enters := by
    have state := enters.state
    exact ⟨state.faithful, state.strict_eq, state.pending.enter _ _,
      fun entry member => Everywhere.append (state.cached entry member) _⟩
  definition_fits _ _ := trivial
  abandon within := by
    have since := within.since
    have inner := within.state'
    have kept (validator : Validator) (uniform : Uniform strict _ validator) :=
      since.uniform validator (Everywhere.append uniform _)
    refine ⟨⟨inner.faithful, inner.strict_eq, inner.pending.outer, ?_⟩, since.options, since.files, kept⟩
    exact fun entry member => kept entry.2 (within.state.cached entry member)
  undefined _ _ := trivial
  breaks _ _ _ := trivial
  finish within _ holds _ := by
    have since := within.since
    have inner := within.state'
    have pending := inner.pending.outer.fill within.state.pending.cell_ne
    refine ⟨⟨inner.faithful, inner.strict_eq, pending _, ?_⟩, ⟨since.options, since.files, ?_⟩, ?_⟩
    · intro entry member
      rcases List.mem_append.mp member with earlier | new
      · exact Everywhere.fill (inner.cached entry earlier) holds
      · rw [List.mem_singleton.mp new]
        exact Everywhere.fill holds holds
    · intro validator uniform
      exact Everywhere.fill (since.uniform validator (Everywhere.append uniform _)) holds
    · exact Everywhere.fill holds holds

theorem Unmixed.setStrict {before : Bool} (state : Unmixed before [] resolver) (strict : Bool) :
    Unmixed strict [] (resolver.setStrict strict) := by
  unfold Resolver.setStrict
  split
  next same =>
    cases state.strict_eq.symm.trans same
    exact state
  next => exact ⟨state.faithful, rfl, state.pending, by simp⟩

/-- Nothing in the cache has another strictness than the one that is set now, whatever happened. -/
theorem history_unmixed {options : Options} {files : FileTable} {returned : List Validator}
    (history : History (fresh options files) resolver returned) :
    Unmixed resolver.options.strict [] resolver := by
  induction history with
  | start => exact ⟨by simp [Faithful, fresh], rfl, by simp [Pending], by simp [fresh]⟩
  | @step resolver returned operation _ ih =>
      cases operation with
      | resolve expr file =>
          obtain ⟨state, _⟩ := resolve_keeps expr file unmixing_lawful (fun _ _ _ => trivial) ih trivial
          simp only [Operation.after]
          rwa [state.strict_eq]
      | setStrict strict =>
          have state := ih.setStrict strict
          simp only [Operation.after]
          rwa [state.strict_eq]
      | clear =>
          exact ⟨by simp [Faithful, Operation.after, clear], rfl, ih.pending,
            by simp [Operation.after, clear]⟩

theorem reaches_of_later {later : List Operation} {validator part : Validator}
    (standing : Standing [] resolver) (settled : Settled resolver.references [] validator)
    (reaches : Reaches (later.foldl Operation.after resolver).references validator part) :
    Reaches resolver.references validator part := by
  induction later generalizing resolver with
  | nil => exact reaches
  | cons operation later ih =>
      obtain ⟨standing', extend⟩ := standing.after operation
      have kept := settled.extend extend (by simp)
      exact settled.reaches_of_extend extend (by simp) (ih standing' kept reaches)

/-- Strictness is never mixed. Whatever happened to a resolver, all fields of records that the cache leads
to are as strict as the setting is; and those that an answer leads to are as strict as the setting was when
it was given, whatever happens afterwards. -/
theorem strictness_uniform {options : Options} {files : FileTable} {returned : List Validator}
    (history : History (fresh options files) resolver returned) :
    (∀ entry ∈ resolver.cache, Uniform resolver.options.strict resolver.references entry.2) ∧
      ∀ expr file validator, (resolver.resolve expr file).1 = some (.ok validator) →
        ∀ later : List Operation, Uniform resolver.options.strict
          (later.foldl Operation.after (resolver.resolve expr file).2).references validator := by
  have state := history_unmixed history
  obtain ⟨standing, _⟩ := history_settled history
  refine ⟨state.cached, fun expr file validator ended later part reaches => ?_⟩
  obtain ⟨standing', _, settled⟩ := standing.resolve expr file
  obtain ⟨_, _, uniform⟩ := resolve_keeps expr file unmixing_lawful (fun _ _ _ => trivial) state trivial
  exact uniform validator ended part (reaches_of_later standing' (settled validator ended) reaches)

theorem strictness_uniform_chain :
    let node := Operation.resolve "Node" (some ⟨"/chain.ts"⟩)
    let toggled := [node, .setStrict true].foldl Operation.after (fresh {} chain)
    let answered := toggled.resolve "Node[]" (some ⟨"/chain.ts"⟩)
    answered.2.cache.length = 1 ∧
      (∀ entry ∈ answered.2.cache, Uniform true answered.2.references entry.2) ∧
      ∃ validator, answered.1 = some (.ok validator) ∧
        Uniform true ([.setStrict false, node].foldl Operation.after answered.2).references validator := by
  intro node toggled answered
  have earlier : History (fresh {} chain) _ _ := .step node .start
  have history : History (fresh {} chain) toggled _ := .step (.setStrict true) earlier
  have strict : toggled.options.strict = true := ((history_unmixed earlier).setStrict true).strict_eq
  have strict' : answered.2.options.strict = true := by
    obtain ⟨_, later, _⟩ := (history_settled history).1.resolve "Node[]" (some ⟨"/chain.ts"⟩)
    rw [later.options, strict]
  obtain ⟨_, answers⟩ := strictness_uniform history
  obtain ⟨cached, _⟩ := strictness_uniform (.step (.resolve "Node[]" (some ⟨"/chain.ts"⟩)) history)
  have passed : answered.1.any (·.isOk) := by decide +kernel
  obtain ⟨validator, ended⟩ := exists_of_isOk passed
  refine ⟨by decide +kernel, ?_, validator, ended, ?_⟩
  · exact strict' ▸ cached
  · exact strict ▸ answers _ _ validator ended [.setStrict false, node]

end Resolver

end Conform
