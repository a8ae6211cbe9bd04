import Conform.Proofs.Resolver.Form
import Conform.Proofs.Resolver.Sources
import Mathlib.Data.List.Forall2

/-!
What can be said of every resolution by what its single steps do. A conduct is made of an invariant
of the resolver, what an expression needs in order to be resolved, and what its validator is known
for; its laws speak of one step each, and every resolution keeps to it.
-/

namespace Conform

def Site.entering (site : Site) (key : DeclKey) (cell : CellId) : Site :=
  { file := some key.file, depth := site.depth,
    building := ⟨key, site.depth, cell⟩ :: site.building }

namespace Resolver

def withReference (resolver : Resolver) (key : DeclKey) : Resolver :=
  { resolver with references := resolver.references ++ [{ key := key }] }

def finished (resolver : Resolver) (key : DeclKey) (cell : CellId) (validator : Validator) :
    Resolver :=
  { resolver with
    cache := resolver.cache ++ [(key, validator)]
    references := resolver.references.fill cell validator }

def abandoned (resolver : Resolver) (cache : List (DeclKey × Validator)) : Resolver :=
  { resolver with cache := cache }

end Resolver

inductive MembersHold (holds : List Char → Validator → Prop) (strict : Bool) :
    List (List Char) → List (Field Validator) → Option Validator → Prop where
  | nil : MembersHold holds strict [] [] none
  | index {member type : List Char} {rest : List (List Char)} {validator : Validator}
      {fields : List (Field Validator)} {later : Option Validator}
      (read : Expr.member? member = some (.index type)) (type_holds : holds type validator)
      (others : MembersHold holds strict rest fields later) :
      MembersHold holds strict (member :: rest) fields (later.or (some validator))
  | field {member name type : List Char} {optional : Bool} {rest : List (List Char)}
      {validator : Validator} {fields : List (Field Validator)} {later : Option Validator}
      (node : NodeId) (read : Expr.member? member = some (.field name optional type))
      (type_holds : holds type validator) (others : MembersHold holds strict rest fields later) :
      MembersHold holds strict (member :: rest)
        (Field.make node (String.ofList name) optional strict validator :: fields) later

inductive ParentHolds (holds : List Char → Validator → Prop) :
    Option (List Char) → List (Level Validator) → Prop where
  | none : ParentHolds holds none []
  | some {name : List Char} {own : Level Validator} {ancestors : List (Level Validator)}
      (parent : holds name (.record own ancestors)) :
      ParentHolds holds (some name) (own :: ancestors)

theorem MembersHold.imp {holds holds' : List Char → Validator → Prop} {strict : Bool}
    {members : List (List Char)} {fields : List (Field Validator)} {index : Option Validator}
    (known : MembersHold holds strict members fields index)
    (weaker : ∀ type validator, holds type validator → holds' type validator) :
    MembersHold holds' strict members fields index := by
  induction known with
  | nil => exact .nil
  | index read type_holds _ ih => exact .index read (weaker _ _ type_holds) ih
  | field node read type_holds _ ih => exact .field node read (weaker _ _ type_holds) ih

theorem ParentHolds.holds {holds : List Char → Validator → Prop} {parent : Option (List Char)}
    {ancestors : List (Level Validator)} {name : List Char} (known : ParentHolds holds parent ancestors)
    (extends_ : parent = .some name) : ∃ own rest, holds name (.record own rest) := by
  cases known with
  | none => simp at extends_
  | some parent =>
      cases extends_
      exact ⟨_, _, parent⟩

theorem ParentHolds.imp {holds holds' : List Char → Validator → Prop} {parent : Option (List Char)}
    {ancestors : List (Level Validator)} (known : ParentHolds holds parent ancestors)
    (weaker : ∀ name validator, holds name validator → holds' name validator) :
    ParentHolds holds' parent ancestors := by
  cases known with
  | none => exact .none
  | some parent => exact .some (weaker _ _ parent)

structure Conduct where
  /-- The resolver, while some declarations are being built. -/
  State : List Building → Resolver → Prop
  /-- What a resolution may change. -/
  Since : List Building → Resolver → Resolver → Prop
  /-- The expression may be resolved, nesting no deeper than a bound. -/
  Fits : Nat → Site → Resolver → List Char → Prop
  /-- The expression may stand for the validator. -/
  Holds : Site → Resolver → List Char → Validator → Prop
  /-- The resolution of the expression may stop. -/
  Halts : Site → Resolver → List Char → Stop → Prop
  /-- The same for a declaration. -/
  Admits : Nat → Site → Resolver → DeclKey → Prop
  Stands : Site → Resolver → DeclKey → Validator → Prop
  Breaks : Site → Resolver → DeclKey → Stop → Prop

namespace Conduct

open Resolver

structure Ready (c : Conduct) (bound : Nat) (site : Site) (r : Resolver) (expr : List Char) :
    Prop where
  state : c.State site.building r
  fits : c.Fits bound site r expr

structure Enters (c : Conduct) (bound : Nat) (site : Site) (r : Resolver) (key : DeclKey) :
    Prop where
  state : c.State site.building r
  admits : c.Admits bound site r key
  uncached : r.cached? key = none
  notBuilding : site.building.find? (fun entry => entry.key.sameAs key) = none

structure Within (c : Conduct) (bound : Nat) (site : Site) (r : Resolver) (key : DeclKey)
    (r' : Resolver) : Prop extends Enters c bound site r key where
  state' : c.State (site.entering key r.references.length).building r'
  since : c.Since (site.entering key r.references.length).building (r.withReference key) r'

/-- What a conduct promises of each step. -/
structure Lawful (c : Conduct) : Prop where
  faithful {building r} : c.State building r → r.Faithful
  quiet {building r r'} : c.State building r → Quiet r r' →
    c.State building r' ∧ c.Since building r r'
  trans {building r r' r''} : c.Since building r r' → c.Since building r' r'' →
    c.Since building r r''
  constant {building r r'} : c.Since building r r' → r'.options = r.options ∧ r'.files = r.files
  fits_since {bound site r r' expr} : c.State site.building r' → c.Since site.building r r' →
    c.Fits bound site r expr → c.Fits bound site r' expr
  holds_since {site r r' expr validator} : c.State site.building r' →
    c.Since site.building r r' → c.Holds site r expr validator → c.Holds site r' expr validator
  -- An expression and its parts.
  exhausted {site r expr} : c.Ready 0 site r expr → c.Halts site r expr .unfinished
  unreadable {bound site r expr fault} : c.Ready (bound + 1) site r expr →
    Form.read expr = .error fault → c.Halts site r expr (.fault fault none)
  piece_fits {bound site r expr use part} : c.Ready (bound + 1) site r expr →
    Piece use expr part →
    (∀ parts name, Form.read expr = .ok (.record parts) → use = .nested →
      parts.parent = some name → ∃ own ancestors, c.Holds site r name (.record own ancestors)) →
    c.Fits bound (site.toward use) r part
  piece_halts {bound site r expr use part stop} : c.Ready (bound + 1) site r expr →
    Piece use expr part → c.Halts (site.toward use) r part stop → c.Halts site r expr stop
  primitive {bound site r expr kind} : c.Ready (bound + 1) site r expr →
    Form.read expr = .ok (.primitive kind) → c.Holds site r expr (.primitive kind)
  group {bound site r expr connective operands validators} (node : NodeId) :
    c.Ready (bound + 1) site r expr → Form.read expr = .ok (.group connective operands) →
    List.Forall₂ (c.Holds site r) operands validators →
    c.Holds site r expr (.group node connective validators)
  array {bound site r expr element validator} (node : NodeId) : c.Ready (bound + 1) site r expr →
    Form.read expr = .ok (.array element) → c.Holds (site.toward .nested) r element validator →
    c.Holds site r expr (.array node validator)
  partialOf {bound site r expr name own ancestors} (node : NodeId) :
    c.Ready (bound + 1) site r expr → Form.read expr = .ok (.partialOf name) →
    c.Holds site r name (.record own ancestors) →
    c.Holds site r expr (.record (own.relaxed node) ancestors)
  record {bound site r expr parts ancestors fields index} (node : NodeId) :
    c.Ready (bound + 1) site r expr → Form.read expr = .ok (.record parts) →
    ParentHolds (c.Holds site r) parts.parent ancestors →
    MembersHold (c.Holds (site.toward .nested) r) r.options.strict (Expr.members parts.body)
      fields index →
    c.Holds site r expr (.record ⟨node, parts.name.map String.ofList, fields, index⟩ ancestors)
  unreadableMember {bound site r expr parts member} : c.Ready (bound + 1) site r expr →
    Form.read expr = .ok (.record parts) → member ∈ Expr.members parts.body →
    Expr.member? member = none →
    c.Halts site r expr (.fault (.invalidField (String.ofList member) site.file) none)
  awaited {bound site r expr name target cell} : c.Ready (bound + 1) site r expr →
    Piece .atOnce expr name → c.Holds site r name (.deferred target cell) →
    c.Halts site r expr (.fault (.recursiveAlias target) (Resolve.prerequisite? site cell))
  notRecord {bound site r expr name validator fault} : c.Ready (bound + 1) site r expr →
    Piece .atOnce expr name → c.Holds site r name validator →
    (∀ own ancestors, validator ≠ .record own ancestors) →
    (∀ target cell, validator ≠ .deferred target cell) →
    (∀ target, fault ≠ .recursiveAlias target) → c.Halts site r expr (.fault fault none)
  -- A name and the declaration that it means.
  fileless {bound site r expr name} : c.Ready (bound + 1) site r expr →
    Form.read expr = .ok (.reference name) → site.file = none →
    c.Halts site r expr (.fault (.missingFile (String.ofList name)) none)
  unlocated {bound site r expr name file fault} : c.Ready (bound + 1) site r expr →
    Form.read expr = .ok (.reference name) → site.file = some file →
    r.sources.locate name file.normalize = .error fault → c.Halts site r expr (.fault fault none)
  admits {bound site r expr name key} : c.Ready (bound + 1) site r expr →
    Form.read expr = .ok (.reference name) → r.sources.Means site.file name key →
    c.Admits bound site r key
  stands_holds {bound site r expr name key validator} : c.Ready (bound + 1) site r expr →
    Form.read expr = .ok (.reference name) → r.sources.Means site.file name key →
    c.Stands site r key validator → c.Holds site r expr validator
  breaks_halts {bound site r expr name key stop} : c.Ready (bound + 1) site r expr →
    Form.read expr = .ok (.reference name) → r.sources.Means site.file name key →
    c.Breaks site r key stop → c.Halts site r expr stop
  cached {bound site r key validator} : c.State site.building r → c.Admits bound site r key →
    r.cached? key = some validator → c.Stands site r key validator
  deferred {bound site r key entry} : c.State site.building r → c.Admits bound site r key →
    r.cached? key = none → site.building.find? (fun entry => entry.key.sameAs key) = some entry →
    entry.depth < site.depth → c.Stands site r key (.deferred key.name entry.cell)
  loop {bound site r key entry} : c.State site.building r → c.Admits bound site r key →
    r.cached? key = none → site.building.find? (fun entry => entry.key.sameAs key) = some entry →
    site.depth ≤ entry.depth → c.Breaks site r key (.fault (.recursiveAlias key.name) none)
  enter {bound site r key} : c.Enters bound site r key →
    c.State (site.entering key r.references.length).building (r.withReference key)
  definition_fits {bound site r r' key expr} : c.Within bound site r key r' →
    r.sources.definition key = .ok expr →
    c.Fits bound (site.entering key r.references.length) r' expr
  abandon {bound site r r' key} : c.Within bound site r key r' →
    c.State site.building (r'.abandoned r.cache) ∧ c.Since site.building r (r'.abandoned r.cache)
  undefined {bound site r r' key fault} : c.Within bound site r key r' →
    r.sources.definition key = .error fault →
    c.Breaks site (r'.abandoned r.cache) key (.fault fault none)
  breaks {bound site r r' key expr stop} : c.Within bound site r key r' →
    r.sources.definition key = .ok expr →
    c.Halts (site.entering key r.references.length) r' expr stop →
    c.Breaks site (r'.abandoned r.cache) key stop
  finish {bound site r r' key expr validator} : c.Within bound site r key r' →
    r.sources.definition key = .ok expr →
    c.Holds (site.entering key r.references.length) r' expr validator →
    Resolve.Gives (Resolve.build (Resolve.resolveWithin bound) site key) r validator
      (r'.finished key r.references.length validator) →
    c.State site.building (r'.finished key r.references.length validator) ∧
      c.Since site.building r (r'.finished key r.references.length validator) ∧
      c.Stands site (r'.finished key r.references.length validator) key validator

def Keeps (c : Conduct) (building : List Building) (before : Resolver) {α : Type}
    (known : Resolver → α → Prop) (value : α) (after : Resolver) : Prop :=
  c.State building after ∧ c.Since building before after ∧ known after value

def Governs (c : Conduct) (bound : Nat) (below : Resolve.Below) : Prop :=
  ∀ site expr before, c.Ready bound site before expr →
    Resolve.Meets (below site expr) before
      (c.Keeps site.building before fun after validator => c.Holds site after expr validator)
      (c.Keeps site.building before fun after stop => c.Halts site after expr stop)

namespace Lawful

variable {c : Conduct} {bound : Nat} {below : Resolve.Below} {site : Site} {r r' : Resolver}
  {expr : List Char}

theorem since_refl (lawful : c.Lawful) {building : List Building} (state : c.State building r) :
    c.Since building r r :=
  (lawful.quiet state (.refl (lawful.faithful state))).2

theorem later (lawful : c.Lawful) (ready : c.Ready bound site r expr)
    (state : c.State site.building r') (since : c.Since site.building r r') :
    c.Ready bound site r' expr :=
  ⟨state, lawful.fits_since state since ready.fits⟩

theorem keeps_since (lawful : c.Lawful) {building : List Building} {α : Type}
    {known : Resolver → α → Prop} {value : α} {after : Resolver}
    (since : c.Since building r r') (keeps : c.Keeps building r' known value after) :
    c.Keeps building r known value after :=
  ⟨keeps.1, lawful.trans since keeps.2.1, keeps.2.2⟩

theorem fresh (lawful : c.Lawful) {building : List Building} (state : c.State building r) :
    c.State building { r with nextId := r.nextId + 1 } ∧
      c.Since building r { r with nextId := r.nextId + 1 } :=
  lawful.quiet state (.fresh (lawful.faithful state))

theorem sources_eq (lawful : c.Lawful) {building : List Building}
    (since : c.Since building r r') : r'.sources = r.sources := by
  obtain ⟨options, files⟩ := lawful.constant since
  simp only [sources, options, files]

theorem toward_building (site : Site) (use : Use) : (site.toward use).building = site.building := by
  cases use <;> rfl

end Lawful

end Conduct

namespace Resolve

open Resolver Conduct

variable {c : Conduct} {bound : Nat} {below : Below} {site : Site} {before : Resolver}
  {expr : List Char}

theorem resolveEach_meets (lawful : c.Lawful) (governs : c.Governs bound below)
    {exprs : List (List Char)} (state : c.State site.building before)
    (fits : ∀ expr ∈ exprs, c.Fits bound site before expr) :
    Meets (resolveEach below site exprs) before
      (c.Keeps site.building before fun after => List.Forall₂ (c.Holds site after) exprs)
      (c.Keeps site.building before fun after stop => ∃ expr ∈ exprs,
        c.Halts site after expr stop) := by
  induction exprs generalizing before with
  | nil =>
      simp only [resolveEach, meets_pure]
      exact ⟨state, lawful.since_refl state, .nil⟩
  | cons first rest ih =>
      simp only [resolveEach, meets_bind, meets_pure]
      refine (governs site first before ⟨state, fits first (by simp)⟩).mono ?_ ?_
      · rintro validator middle ⟨state', since, holds⟩
        have fits' : ∀ expr ∈ rest, c.Fits bound site middle expr := fun expr member =>
          lawful.fits_since state' since (fits expr (by simp [member]))
        refine (ih state' fits').mono ?_ ?_
        · rintro validators after ⟨state'', since', others⟩
          exact ⟨state'', lawful.trans since since',
            .cons (lawful.holds_since state'' since' holds) others⟩
        · rintro stop after ⟨state'', since', expr, member, halts⟩
          exact ⟨state'', lawful.trans since since', expr, by simp [member], halts⟩
      · rintro stop after ⟨state', since, halts⟩
        exact ⟨state', since, first, by simp, halts⟩

theorem resolveMembers_meets (lawful : c.Lawful) (governs : c.Governs bound below)
    {members : List (List Char)} (state : c.State site.building before)
    (fits : ∀ member ∈ members, ∀ found, Expr.member? member = some found →
      c.Fits bound (site.toward .nested) before found.type) :
    Meets (resolveMembers below site members) before
      (c.Keeps site.building before fun after found =>
        MembersHold (c.Holds (site.toward .nested) after) after.options.strict members
          found.1 found.2)
      (c.Keeps site.building before fun after stop => ∃ member ∈ members,
        (Expr.member? member = none ∧
          stop = .fault (.invalidField (String.ofList member) site.file) none) ∨
        ∃ found, Expr.member? member = some found ∧
          c.Halts (site.toward .nested) after found.type stop) := by
  induction members generalizing before with
  | nil =>
      simp only [resolveMembers, meets_pure]
      exact ⟨state, lawful.since_refl state, .nil⟩
  | cons member rest ih =>
      have first (found : Expr.Member) (read : Expr.member? member = some found) :=
        governs (site.toward .nested) found.type before ⟨state, fits member (by simp) found read⟩
      have others {middle : Resolver} (state' : c.State site.building middle)
          (since : c.Since site.building before middle) :=
        ih state' fun other among found read =>
          lawful.fits_since state' since (fits other (by simp [among]) found read)
      simp only [resolveMembers]
      split
      · rename_i unread
        simp only [meets_fail]
        exact ⟨state, lawful.since_refl state, member, by simp, .inl ⟨unread, rfl⟩⟩
      · rename_i type read
        simp only [resolveNested, meets_bind, meets_pure]
        refine (first _ read).mono ?_ ?_
        · rintro validator middle ⟨state', since, holds⟩
          refine (others state' since).mono ?_ ?_
          · rintro ⟨fields, later⟩ after ⟨state'', since', hold⟩
            exact ⟨state'', lawful.trans since since',
              .index read (lawful.holds_since state'' since' holds) hold⟩
          · rintro stop after ⟨state'', since', other, among, halts⟩
            exact ⟨state'', lawful.trans since since', other, by simp [among], halts⟩
        · rintro stop after ⟨state', since, halts⟩
          exact ⟨state', since, member, by simp, .inr ⟨_, read, halts⟩⟩
      · rename_i name optional type read
        simp only [resolveNested, meets_bind, meets_get, meets_freshId, meets_pure]
        refine (first _ read).mono ?_ ?_
        · rintro validator middle ⟨state', since, holds⟩
          obtain ⟨state₁, since₁⟩ := lawful.fresh state'
          refine (others state₁ (lawful.trans since since₁)).mono ?_ ?_
          · rintro ⟨fields, later⟩ after ⟨state'', since', hold⟩
            have same : after.options = middle.options :=
              (lawful.constant (lawful.trans since₁ since')).1
            rw [← same]
            exact ⟨state'', lawful.trans since (lawful.trans since₁ since'),
              .field _ read
                (lawful.holds_since state'' (lawful.trans since₁ since') holds) hold⟩
          · rintro stop after ⟨state'', since', other, among, halts⟩
            exact ⟨state'', lawful.trans since (lawful.trans since₁ since'), other,
              by simp [among], halts⟩
        · rintro stop after ⟨state', since, halts⟩
          exact ⟨state', since, member, by simp, .inr ⟨_, read, halts⟩⟩

theorem resolveBuilt_meets (lawful : c.Lawful) (governs : c.Governs bound below)
    {name : List Char} (ready : c.Ready (bound + 1) site before expr)
    (piece : Piece .atOnce expr name) :
    Meets (resolveBuilt below site name) before
      (c.Keeps site.building before fun after validator => c.Holds site after name validator ∧
        ∀ target cell, validator ≠ .deferred target cell)
      (c.Keeps site.building before fun after stop => c.Halts site after expr stop) := by
  have fits : c.Fits bound site before name :=
    lawful.piece_fits ready piece fun _ _ _ nested => by simp at nested
  simp only [resolveBuilt, meets_bind]
  refine (governs site name before ⟨ready.state, fits⟩).mono ?_ ?_
  · rintro validator middle ⟨state, since, holds⟩
    split
    · simp only [meets_throw]
      exact ⟨state, since, lawful.awaited (lawful.later ready state since) piece holds⟩
    · rename_i built
      exact ⟨state, since, holds, built⟩
  · rintro stop after ⟨state, since, halts⟩
    exact ⟨state, since, lawful.piece_halts (lawful.later ready state since) piece halts⟩

theorem resolvePartial_meets (lawful : c.Lawful) (governs : c.Governs bound below)
    {name : List Char} (ready : c.Ready (bound + 1) site before expr)
    (form : Form.read expr = .ok (.partialOf name)) :
    Meets (resolvePartial below site name) before
      (c.Keeps site.building before fun after => c.Holds site after expr)
      (c.Keeps site.building before fun after => c.Halts site after expr) := by
  simp only [resolvePartial, meets_bind]
  refine (resolveBuilt_meets lawful governs ready (.target form)).mono ?_ fun _ _ kept => kept
  rintro validator middle ⟨state, since, holds, built⟩
  have ready' := lawful.later ready state since
  split
  · simp only [meets_bind, meets_freshId, meets_pure]
    obtain ⟨state', since'⟩ := lawful.fresh state
    exact ⟨state', lawful.trans since since', lawful.partialOf _ (lawful.later ready' state' since')
      form (lawful.holds_since state' since' holds)⟩
  · rename_i other
    simp only [meets_fail]
    exact ⟨state, since, lawful.notRecord ready' (.target form) holds other built (by simp)⟩

theorem resolveParent_meets (lawful : c.Lawful) (governs : c.Governs bound below)
    {parts : Expr.RecordParts} (ready : c.Ready (bound + 1) site before expr)
    (form : Form.read expr = .ok (.record parts)) :
    Meets (resolveParent below site parts) before
      (c.Keeps site.building before fun after => ParentHolds (c.Holds site after) parts.parent)
      (c.Keeps site.building before fun after => c.Halts site after expr) := by
  simp only [resolveParent]
  split
  · rename_i alone
    simp only [meets_pure]
    rw [alone]
    exact ⟨ready.state, lawful.since_refl ready.state, .none⟩
  · rename_i name extends_
    simp only [meets_bind]
    have piece : Piece .atOnce expr name := .parent form extends_
    refine (resolveBuilt_meets lawful governs ready piece).mono ?_ fun _ _ kept => kept
    rintro validator middle ⟨state, since, holds, built⟩
    rw [extends_]
    split
    · exact ⟨state, since, .some holds⟩
    · rename_i other
      simp only [meets_fail]
      exact ⟨state, since,
        lawful.notRecord (lawful.later ready state since) piece holds other built (by simp)⟩

theorem resolveParts_meets (lawful : c.Lawful) (governs : c.Governs bound below)
    {parts : Expr.RecordParts} (ready : c.Ready (bound + 1) site before expr)
    (form : Form.read expr = .ok (.record parts)) :
    Meets (resolveParts below site parts) before
      (c.Keeps site.building before fun after => c.Holds site after expr)
      (c.Keeps site.building before fun after => c.Halts site after expr) := by
  simp only [resolveParts, meets_bind]
  refine (resolveParent_meets lawful governs ready form).mono ?_ fun _ _ kept => kept
  rintro ancestors middle ⟨state, since, parent⟩
  have ready' := lawful.later ready state since
  refine (resolveMembers_meets lawful governs state ?_).mono ?_ ?_
  · intro member among found read
    refine lawful.piece_fits ready' (.member form among read) fun other name read _ extends_ => ?_
    cases form.symm.trans read
    exact parent.holds extends_
  · rintro ⟨fields, index⟩ after ⟨state', since', members⟩
    simp only [meets_freshId, meets_pure]
    obtain ⟨state'', since''⟩ := lawful.fresh state'
    have ready'' := lawful.later (lawful.later ready' state' since') state'' since''
    refine ⟨state'', lawful.trans since (lawful.trans since' since''),
      lawful.record _ ready'' form ?_ ?_⟩
    · exact parent.imp fun name validator =>
        lawful.holds_since state'' (lawful.trans since' since'')
    · exact members.imp fun type validator => lawful.holds_since state'' since''
  · rintro stop after ⟨state', since', member, among, unread | ⟨found, read, halts⟩⟩
    · obtain ⟨unread, rfl⟩ := unread
      exact ⟨state', lawful.trans since since',
        lawful.unreadableMember (lawful.later ready' state' since') form among unread⟩
    · exact ⟨state', lawful.trans since since',
        lawful.piece_halts (lawful.later ready' state' since') (.member form among read) halts⟩

theorem build_meets (lawful : c.Lawful) (governs : c.Governs bound (resolveWithin bound))
    {key : DeclKey} (enters : c.Enters bound site before key) :
    Meets (build (resolveWithin bound) site key) before
      (c.Keeps site.building before fun after => c.Stands site after key)
      (c.Keeps site.building before fun after => c.Breaks site after key) := by
  have entered := lawful.enter enters
  have inside : c.Within bound site before key (before.withReference key) :=
    ⟨enters, entered, lawful.since_refl entered⟩
  have run : Meets (build (resolveWithin bound) site key) before
      (fun validator after => ∃ middle expr, c.Within bound site before key middle ∧
        before.sources.definition key = .ok expr ∧
        c.Holds (site.entering key before.references.length) middle expr validator ∧
        after = middle.finished key before.references.length validator)
      (c.Keeps site.building before fun after => c.Breaks site after key) := by
    simp only [build, meets_keepingCache, meets_bind, meets_newReference]
    refine meets_of_outcome (declared_outcome (lawful.faithful entered) key) ?_ ?_
    · intro expr middle defined quiet
      obtain ⟨state, since⟩ := lawful.quiet entered quiet
      have inside' : c.Within bound site before key middle := ⟨enters, state, since⟩
      refine (governs _ expr middle ⟨state, lawful.definition_fits inside' defined⟩).mono ?_ ?_
      · rintro validator last ⟨state', since', holds⟩
        simp only [meets_modify, meets_pure]
        exact ⟨last, expr, ⟨enters, state', lawful.trans since since'⟩, defined, holds, rfl⟩
      · rintro stop last ⟨state', since', halts⟩
        have inside'' : c.Within bound site before key last :=
          ⟨enters, state', lawful.trans since since'⟩
        obtain ⟨kept, later⟩ := lawful.abandon inside''
        exact ⟨kept, later, lawful.breaks inside'' defined halts⟩
    · intro fault middle undefined quiet
      obtain ⟨state, since⟩ := lawful.quiet entered quiet
      have inside' : c.Within bound site before key middle := ⟨enters, state, since⟩
      obtain ⟨kept, later⟩ := lawful.abandon inside'
      exact ⟨kept, later, lawful.undefined inside' undefined⟩
  refine (run.and (meets_gives _ before)).mono ?_ fun _ _ kept => kept.1
  rintro validator after ⟨⟨middle, expr, within, defined, holds, rfl⟩, gave⟩
  exact lawful.finish within defined holds gave

theorem resolveKey_meets (lawful : c.Lawful) (governs : c.Governs bound (resolveWithin bound))
    {key : DeclKey} (state : c.State site.building before)
    (admits : c.Admits bound site before key) :
    Meets (resolveKey (resolveWithin bound) site key) before
      (c.Keeps site.building before fun after => c.Stands site after key)
      (c.Keeps site.building before fun after => c.Breaks site after key) := by
  have refl := lawful.since_refl state
  simp only [resolveKey, meets_bind, meets_get]
  cases cached : before.cached? key with
  | some validator => exact ⟨state, refl, lawful.cached state admits cached⟩
  | none =>
      cases building : site.building.find? fun entry => entry.key.sameAs key with
      | none => exact build_meets lawful governs ⟨state, admits, cached, building⟩
      | some entry =>
          by_cases shallow : site.depth ≤ entry.depth
          · simp only [shallow, if_true, meets_fail]
            exact ⟨state, refl, lawful.loop state admits cached building shallow⟩
          · simp only [shallow, if_false, meets_pure]
            exact ⟨state, refl, lawful.deferred state admits cached building (by omega)⟩

theorem resolveName_meets (lawful : c.Lawful) (governs : c.Governs bound (resolveWithin bound))
    {name : List Char} (ready : c.Ready (bound + 1) site before expr)
    (form : Form.read expr = .ok (.reference name)) :
    Meets (resolveName (resolveWithin bound) site name) before
      (c.Keeps site.building before fun after => c.Holds site after expr)
      (c.Keeps site.building before fun after => c.Halts site after expr) := by
  have refl := lawful.since_refl ready.state
  simp only [resolveName]
  cases known : site.file with
  | none =>
      simp only [meets_fail]
      exact ⟨ready.state, refl, lawful.fileless ready form known⟩
  | some file =>
      simp only [meets_bind]
      refine meets_of_outcome (locate_outcome (lawful.faithful ready.state) name _) ?_ ?_
      · intro key middle located quiet
        obtain ⟨state, since⟩ := lawful.quiet ready.state quiet
        have ready' := lawful.later ready state since
        have means {after : Resolver} (since' : c.Since site.building middle after) :
            after.sources.Means site.file name key := by
          refine ⟨file, known, ?_⟩
          rw [lawful.sources_eq since', quiet.sources_eq]
          exact located
        refine (resolveKey_meets lawful governs state
          (lawful.admits ready' form (means (lawful.since_refl state)))).mono ?_ ?_
        · rintro validator after ⟨state', since', stands⟩
          exact ⟨state', lawful.trans since since',
            lawful.stands_holds (lawful.later ready' state' since') form (means since') stands⟩
        · rintro stop after ⟨state', since', breaks⟩
          exact ⟨state', lawful.trans since since',
            lawful.breaks_halts (lawful.later ready' state' since') form (means since') breaks⟩
      · intro fault middle unlocated quiet
        obtain ⟨state, since⟩ := lawful.quiet ready.state quiet
        rw [← quiet.sources_eq] at unlocated
        exact ⟨state, since, lawful.unlocated (lawful.later ready state since) form known unlocated⟩

theorem resolveForm_meets (lawful : c.Lawful) (governs : c.Governs bound (resolveWithin bound))
    {form : Form} (ready : c.Ready (bound + 1) site before expr) (read : Form.read expr = .ok form) :
    Meets (resolveForm (resolveWithin bound) site form) before
      (c.Keeps site.building before fun after => c.Holds site after expr)
      (c.Keeps site.building before fun after => c.Halts site after expr) := by
  cases form with
  | group connective operands =>
      simp only [resolveForm, meets_bind]
      refine (resolveEach_meets lawful governs ready.state ?_).mono ?_ ?_
      · intro operand member
        exact lawful.piece_fits ready (.operand read member) fun _ _ _ nested => by simp at nested
      · rintro validators middle ⟨state, since, holds⟩
        simp only [meets_freshId, meets_pure]
        obtain ⟨state', since'⟩ := lawful.fresh state
        have ready' := lawful.later (lawful.later ready state since) state' since'
        refine ⟨state', lawful.trans since since', lawful.group _ ready' read ?_⟩
        exact holds.imp fun _ _ => lawful.holds_since state' since'
      · rintro stop after ⟨state, since, operand, member, halts⟩
        exact ⟨state, since,
          lawful.piece_halts (lawful.later ready state since) (.operand read member) halts⟩
  | array element =>
      have piece : Piece .nested expr element := .element read
      have fits := lawful.piece_fits ready piece fun _ _ record => by simp [read] at record
      simp only [resolveForm, resolveNested, meets_bind, meets_freshId, meets_pure]
      obtain ⟨state, since⟩ := lawful.fresh ready.state
      have inner : c.Ready bound (site.toward .nested) before element := ⟨ready.state, fits⟩
      refine (governs _ element _ (lawful.later inner state since)).mono ?_ ?_
      · rintro validator after ⟨state', since', holds⟩
        have ready' := lawful.later (lawful.later ready state since) state' since'
        exact ⟨state', lawful.trans since since', lawful.array _ ready' read holds⟩
      · rintro stop after ⟨state', since', halts⟩
        exact ⟨state', lawful.trans since since',
          lawful.piece_halts (lawful.later (lawful.later ready state since) state' since')
            piece halts⟩
  | primitive kind =>
      simp only [resolveForm, meets_pure]
      exact ⟨ready.state, lawful.since_refl ready.state, lawful.primitive ready read⟩
  | partialOf name => exact resolvePartial_meets lawful governs ready read
  | record parts => exact resolveParts_meets lawful governs ready read
  | reference name => exact resolveName_meets lawful governs ready read

end Resolve

/-- Every resolution keeps to the conduct. -/
theorem Conduct.Lawful.governs {c : Conduct} (lawful : c.Lawful) (bound : Nat) :
    c.Governs bound (Resolve.resolveWithin bound) := by
  induction bound with
  | zero =>
      intro site expr before ready
      exact ⟨ready.state, lawful.since_refl ready.state, lawful.exhausted ready⟩
  | succ bound ih =>
      intro site expr before ready
      simp only [Resolve.resolveWithin, Resolve.resolveStep_eq, Resolve.meets_bind]
      cases read : Form.read expr with
      | error fault =>
          exact ⟨ready.state, lawful.since_refl ready.state, lawful.unreadable ready read⟩
      | ok form => exact Resolve.resolveForm_meets lawful ih ready read

namespace Conduct

def top : Site := { file := none }

def Outlook (c : Conduct) (bound : Nat) (final : Stop → Prop) (r : Resolver) : Stop → Prop
  | .fault fault (some key) => final (.fault fault none) ∧ c.Admits bound top r key
  | stop => final stop

structure Retries (c : Conduct) (bound : Nat) (final : Stop → Prop) : Prop where
  exhausted : final .unfinished
  admits_since {r r' key} : c.State [] r' → c.Since [] r r' → c.Admits bound top r key →
    c.Admits bound top r' key
  outlook {r key stop} : c.State [] r → c.Breaks top r key stop → c.Outlook bound final r stop

theorem inOrder_meets {c : Conduct} {bound : Nat} {final : Stop → Prop} (lawful : c.Lawful)
    (retrying : c.Retries bound final) {action : Resolve Validator}
    {known : Resolver → Validator → Prop} {start : Resolver}
    (runs : ∀ r, c.State [] r → c.Since [] start r →
      Resolve.Meets action r (c.Keeps [] r known) (c.Keeps [] r (c.Outlook bound final)))
    (retries : Nat) (tried : List DeclKey) {before : Resolver} (state : c.State [] before)
    (since : c.Since [] start before) :
    Resolve.Meets (Resolve.inOrder (Resolve.resolveWithin bound) action retries tried) before
      (c.Keeps [] before fun after found => known after found.1)
      (c.Keeps [] before fun _ => final) := by
  induction retries generalizing action known start tried before with
  | zero => exact ⟨state, lawful.since_refl state, retrying.exhausted⟩
  | succ retries ih =>
      simp only [Resolve.inOrder, Resolve.meets_tryCatch, Resolve.meets_bind, Resolve.meets_pure]
      refine (runs before state since).mono (fun _ _ kept => kept) ?_
      rintro stop middle ⟨state', since', outlook⟩
      split
      · rename_i fault key
        obtain ⟨last, admits⟩ := outlook
        split
        · exact ⟨state', since', last⟩
        · rw [Resolve.meets_bind]
          have first : ∀ r, c.State [] r → c.Since [] middle r →
              Resolve.Meets (Resolve.resolveKey (Resolve.resolveWithin bound) top key) r
                (c.Keeps [] r fun after => c.Stands top after key)
                (c.Keeps [] r (c.Outlook bound final)) := by
            intro r state'' since''
            have admits' : c.Admits bound top r key := retrying.admits_since state'' since'' admits
            refine (Resolve.resolveKey_meets lawful (lawful.governs bound) state''
              admits').mono (fun _ _ kept => kept) ?_
            rintro stop after ⟨kept, later, breaks⟩
            exact ⟨kept, later, retrying.outlook kept breaks⟩
          refine (ih first (key :: tried) state' (lawful.since_refl state')).mono ?_ ?_
          · rintro ⟨_, tried'⟩ after ⟨state'', since'', _⟩
            have onward := lawful.trans since' since''
            refine (ih runs tried' state'' (lawful.trans since onward)).mono ?_ ?_
            · exact fun _ _ kept => lawful.keeps_since onward kept
            · exact fun _ _ kept => lawful.keeps_since onward kept
          · exact fun _ _ kept => lawful.keeps_since since' kept
      · rename_i other
        simp only [Resolve.meets_throw]
        refine ⟨state', since', ?_⟩
        unfold Outlook at outlook
        split at outlook
        · exact absurd rfl (other _ _)
        · exact outlook

end Conduct

end Conform
