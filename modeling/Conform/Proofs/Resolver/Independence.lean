import Conform.Proofs.Resolver.Bounded
import Conform.Proofs.Resolver.Denotation
import Conform.Proofs.Resolver.Edges

/-!
Where no declaration leads back to itself, what was resolved before does not matter: an expression
is at fault or stands for a validator, which is the same up to the numbers of nodes.
-/

namespace Conform

open Relation

theorem Inside.cons {expr first part : List Char} {use : Use} {uses : List Use}
    (piece : Piece use expr first) (inside : Inside first uses part) :
    Inside expr (use :: uses) part := by
  induction inside with
  | whole => exact .piece .whole piece
  | piece _ last ih => exact .piece ih last

namespace Sources

section

variable (sources : Sources)

def StraightAt (place : Place) : Prop :=
  ∀ next, sources.Leads place next → ¬TransGen sources.Refers next next

def Straight (file : Option FilePath) (expr : List Char) : Prop :=
  ∀ uses first, sources.NamesIn file expr uses first → sources.StraightAt first

def DenotesKey (strict : Bool) (key : DeclKey) (validator : Validator) : Prop :=
  ∃ definition, sources.definition key = .ok definition ∧
    sources.Denotes strict (some key.file) definition validator

def FailsKey (strict : Bool) (key : DeclKey) : Prop :=
  (∃ fault, sources.definition key = .error fault) ∨
    ∃ definition, sources.definition key = .ok definition ∧
      sources.Fails strict (some key.file) definition

end

variable {sources : Sources} {strict : Bool} {file : Option FilePath} {expr part name : List Char}
  {key : DeclKey} {validator : Validator}

theorem NamesIn.of_piece {use : Use} {uses : List Use} {target : Place} (piece : Piece use expr part)
    (named : sources.NamesIn file part uses target) : sources.NamesIn file expr (use :: uses) target := by
  obtain ⟨last, name, key, inside, rest⟩ := named
  exact ⟨last, name, key, .cons piece inside, rest⟩

theorem namesIn_reference (read : Form.read expr = .ok (.reference name))
    (means : sources.Means file name key) : sources.NamesIn file expr [] key.place :=
  namesIn_nil_iff.mpr ⟨name, key, read, means, rfl⟩

theorem Straight.piece {use : Use} (straight : sources.Straight file expr)
    (piece : Piece use expr part) : sources.Straight file part :=
  fun uses first named => straight (use :: uses) first (named.of_piece piece)

theorem Straight.reference (straight : sources.Straight file expr)
    (read : Form.read expr = .ok (.reference name)) (means : sources.Means file name key) :
    sources.StraightAt key.place :=
  straight [] key.place (namesIn_reference read means)

theorem StraightAt.definition {definition : List Char} (straight : sources.StraightAt key.place)
    (defined : sources.definition key = .ok definition) :
    sources.Straight (some key.file) definition := by
  intro uses first named next leads
  exact straight next (.head ⟨uses, names_iff.mpr ⟨definition, defined, named⟩⟩ leads)

theorem straight_of_pieces {form : Form} (read : Form.read expr = .ok form)
    (other : ∀ name, form ≠ .reference name)
    (pieces : ∀ use part, Piece use expr part → sources.Straight file part) :
    sources.Straight file expr := by
  intro uses first named
  obtain ⟨part, name, key, inside, read', rest⟩ := named
  rcases inside.cases_head with ⟨_, rfl⟩ | ⟨use, head, uses, _, piece, inside⟩
  · exact absurd (Except.ok.inj (read.symm.trans read')) (other name)
  · exact pieces use head piece uses first ⟨part, name, key, inside, read', rest⟩

theorem straight_of_reference (read : Form.read expr = .ok (.reference name))
    (means : sources.Means file name key) (straight : sources.StraightAt key.place) :
    sources.Straight file expr := by
  intro uses first named
  obtain ⟨part, name', key', inside, read', means', rfl⟩ := named
  rcases inside.cases_head with ⟨_, rfl⟩ | ⟨use, head, _, _, piece, _⟩
  · cases read.symm.trans read'
    rwa [← means_unique means means']
  · exact absurd read (piece.no_reference _)

theorem straightAt_of_definition {definition : List Char}
    (defined : sources.definition key = .ok definition)
    (straight : sources.Straight (some key.file) definition) : sources.StraightAt key.place := by
  have onward {next : Place} (refers : sources.Refers key.place next) : sources.StraightAt next := by
    obtain ⟨uses, named⟩ := refers
    obtain ⟨definition', defined', named⟩ := names_iff.mp named
    cases defined.symm.trans defined'
    exact straight uses next named
  intro next leads cycle
  rcases ReflTransGen.cases_head leads with rfl | ⟨first, refers, further⟩
  · obtain ⟨first, refers, back⟩ := TransGen.head'_iff.mp cycle
    exact onward refers _ back cycle
  · exact onward refers next further cycle

theorem DenotesKey.congr {other : DeclKey} (denotes : sources.DenotesKey strict key validator)
    (same : key.place = other.place) : sources.DenotesKey strict other validator := by
  obtain ⟨definition, defined, denotes⟩ := denotes
  exact ⟨definition, definition_congr (DeclKey.sameAs_iff_place.mpr same) defined,
    denotes.congr fun name target means => means_congr same means⟩

end Sources

section Denoting

variable (sources : Sources) (strict : Bool)

structure Denoted (resolver : Resolver) : Prop where
  faithful : resolver.Faithful
  sources_eq : resolver.sources = sources
  strict_eq : resolver.options.strict = strict
  cached : ∀ entry ∈ resolver.cache, sources.StraightAt entry.1.place →
    sources.DenotesKey strict entry.1 entry.2

def FinallyFails (fails : Prop) : Stop → Prop
  | .fault _ needs => needs = none ∧ fails
  | .unfinished => True

def denoting : Conduct where
  State _ := Denoted sources strict
  Since _ before after := after.options = before.options ∧ after.files = before.files
  Fits _ site _ part := ∀ entry ∈ site.building, ∀ uses target,
    sources.NamesIn site.file part uses target → TransGen sources.Refers entry.key.place target
  Holds site _ part validator :=
    sources.Straight site.file part → sources.Denotes strict site.file part validator
  Halts site _ part stop :=
    sources.Straight site.file part → FinallyFails (sources.Fails strict site.file part) stop
  Admits _ site _ key := ∀ entry ∈ site.building, TransGen sources.Refers entry.key.place key.place
  Stands _ _ key validator := sources.StraightAt key.place → sources.DenotesKey strict key validator
  Breaks _ _ key stop := sources.StraightAt key.place → FinallyFails (sources.FailsKey strict key) stop

variable {sources strict}

theorem FinallyFails.imp {fails fails' : Prop} {stop : Stop} (failed : FinallyFails fails stop)
    (weaker : fails → fails') : FinallyFails fails' stop := by
  cases stop with
  | fault fault needs => exact ⟨failed.1, weaker failed.2⟩
  | unfinished => trivial

theorem toward_file (site : Site) (use : Use) : (site.toward use).file = site.file := by
  cases use <;> rfl

theorem not_building {site : Site} {key : DeclKey} {entry : Building}
    (admits : ∀ entry ∈ site.building, TransGen sources.Refers entry.key.place key.place)
    (found : site.building.find? (fun entry => entry.key.sameAs key) = some entry)
    (straight : sources.StraightAt key.place) : False := by
  obtain ⟨member, same⟩ := mem_of_find_key found
  have cycle := admits entry member
  rw [same] at cycle
  exact straight key.place .refl cycle

section Laws

variable {bound : Nat} {site : Site} {r r' : Resolver} {expr : List Char} {key : DeclKey}

theorem denotes_piece {use : Use} {part : List Char} {validator : Validator}
    (straight : sources.Straight site.file expr) (piece : Piece use expr part)
    (holds : (denoting sources strict).Holds (site.toward use) r part validator) :
    sources.Denotes strict site.file part validator := by
  have known := holds
  simp only [denoting, toward_file] at known
  exact known (straight.piece piece)

theorem denotes_group {connective : Connective} {operands : List (List Char)}
    {validators : List Validator} (node : NodeId)
    (read : Form.read expr = .ok (.group connective operands))
    (holds : List.Forall₂ ((denoting sources strict).Holds site r) operands validators) :
    (denoting sources strict).Holds site r expr (.group node connective validators) := by
  intro straight
  have pieces : ∀ operand ∈ operands, sources.Straight site.file operand :=
    fun operand member => straight.piece (.operand read member)
  have parts := (List.forall₂_and_left _ _).mpr ⟨pieces, holds⟩
  exact .made read (fun _ _ used => used) (.group node (parts.imp fun _ _ known => known.2 known.1))

theorem denotes_record {parts : Expr.RecordParts} {ancestors : List (Level Validator)}
    {fields : List (Field Validator)} {index : Option Validator} (node : NodeId)
    (read : Form.read expr = .ok (.record parts))
    (parent : ParentHolds ((denoting sources strict).Holds site r) parts.parent ancestors)
    (members : MembersHold ((denoting sources strict).Holds (site.toward .nested) r) strict
      (Expr.members parts.body) fields index) :
    (denoting sources strict).Holds site r expr
      (.record ⟨node, parts.name.map String.ofList, fields, index⟩ ancestors) := by
  intro straight
  refine .made read (fun _ _ used => used) (.record node ?_ ?_)
  · generalize extends_ : parts.parent = name at parent
    cases parent with
    | none => exact .none
    | some parent => exact .some (parent (straight.piece (.parent read extends_)))
  · exact (members.among fun member found among read' => straight.piece (.member read among read')).imp
      fun type validator known => known.2 known.1

end Laws

theorem denoting_lawful : (denoting sources strict).Lawful where
  faithful state := state.faithful
  quiet state quiet := by
    have same := quiet.sources_eq
    obtain ⟨known, faithful⟩ := quiet
    rw [known]
    exact ⟨⟨known ▸ faithful, (known ▸ same).trans state.sources_eq, state.strict_eq, state.cached⟩,
      rfl, rfl⟩
  trans earlier later := ⟨later.1.trans earlier.1, later.2.trans earlier.2⟩
  constant since := since
  fits_since _ _ fits := fits
  holds_since _ _ holds := holds
  exhausted _ _ := trivial
  unreadable _ error _ := ⟨rfl, .unreadable error⟩
  piece_fits {bound site r expr use part} ready piece _ := by
    intro entry member uses target named
    rw [Conduct.Lawful.toward_building] at member
    rw [toward_file] at named
    exact ready.fits entry member _ target (named.of_piece piece)
  piece_halts {bound site r expr use part stop} ready piece halts straight := by
    simp only [denoting, toward_file] at halts
    exact (halts (straight.piece piece)).imp (.piece piece)
  primitive _ read _ := .made read (fun _ _ used => used) (.primitive _)
  group node _ read holds := denotes_group node read holds
  array node _ read holds straight :=
    .made read (fun _ _ used => used) (.array node (denotes_piece straight (.element read) holds))
  partialOf node _ read holds straight :=
    .made read (fun _ _ used => used) (.partialOf node (holds (straight.piece (.target read))))
  record node ready read parent members := by
    rw [ready.state.strict_eq] at members
    exact denotes_record node read parent members
  unreadableMember _ read among unread _ := ⟨rfl, .unreadableMember read among unread⟩
  awaited _ piece holds straight := ((holds (straight.piece piece)).ne_deferred _ _ rfl).elim
  notRecord _ piece holds other _ _ straight :=
    ⟨rfl, .notRecord piece (holds (straight.piece piece)) other⟩
  fileless {bound site r expr name} _ read none _ := by
    refine ⟨rfl, ?_⟩
    rw [none]
    exact .fileless read
  unlocated {bound site r expr name file fault} ready read known error _ := by
    rw [ready.state.sources_eq] at error
    refine ⟨rfl, ?_⟩
    rw [known]
    exact .unlocated read error
  admits ready read means entry member := by
    rw [ready.state.sources_eq] at means
    exact ready.fits entry member _ _ (Sources.namesIn_reference read means)
  stands_holds ready read means stands straight := by
    rw [ready.state.sources_eq] at means
    obtain ⟨definition, defined, denotes⟩ := stands (straight.reference read means)
    exact .reference read means defined denotes
  breaks_halts {bound site r expr name key stop} ready read means breaks straight := by
    rw [ready.state.sources_eq] at means
    refine (breaks (straight.reference read means)).imp ?_
    rintro (⟨fault, error⟩ | ⟨definition, defined, fails⟩)
    · exact .undefined read means error
    · exact .definition read means defined fails
  cached {bound site r key validator} state _ found straight := by
    obtain ⟨known, member, same⟩ := Resolver.cached?_eq_some found
    exact (state.cached _ member (same ▸ straight)).congr same
  deferred _ admits _ found _ straight := (not_building admits found straight).elim
  loop _ admits _ found _ straight := (not_building admits found straight).elim
  enter enters := by
    have state := enters.state
    exact ⟨state.faithful, state.sources_eq, state.strict_eq, state.cached⟩
  definition_fits {bound site r r' key expr} within defined := by
    rw [within.state.sources_eq] at defined
    intro entry member uses target named
    have refers : sources.Refers key.place target :=
      ⟨uses, Sources.names_iff.mpr ⟨expr, defined, named⟩⟩
    rcases List.mem_cons.mp member with rfl | outer
    · exact .single refers
    · exact (within.admits entry outer).tail refers
  abandon {bound site r r' key} within := by
    have inner := within.state'
    exact ⟨⟨inner.faithful, inner.sources_eq, inner.strict_eq, within.state.cached⟩, within.since⟩
  undefined within error _ := by
    rw [within.state.sources_eq] at error
    exact ⟨rfl, .inl ⟨_, error⟩⟩
  breaks within defined halts straight := by
    rw [within.state.sources_eq] at defined
    exact (halts (straight.definition defined)).imp fun fails => .inr ⟨_, defined, fails⟩
  finish {bound site r r' key expr validator} within defined holds _ := by
    rw [within.state.sources_eq] at defined
    have inner := within.state'
    have stands : sources.StraightAt key.place → sources.DenotesKey strict key validator :=
      fun straight => ⟨expr, defined, holds (straight.definition defined)⟩
    refine ⟨⟨inner.faithful, inner.sources_eq, inner.strict_eq, ?_⟩, within.since, stands⟩
    intro entry member straight
    rcases List.mem_append.mp member with earlier | new
    · exact inner.cached entry earlier straight
    · rw [List.mem_singleton.mp new] at straight ⊢
      exact stands straight

end Denoting

namespace Resolver

open Validator

variable {sources : Sources} {strict : Bool} {resolver : Resolver}

theorem inOrder_direct {below : Resolve.Below} {action : Resolve Validator} {before : Resolver}
    {gives : Validator → Resolver → Prop} {stops : Stop → Resolver → Prop}
    (runs : Resolve.Meets action before gives fun stop after =>
      stops stop after ∧ ∀ fault key, stop ≠ .fault fault (some key))
    (retries : Nat) (tried : List DeclKey) :
    Resolve.Meets (Resolve.inOrder below action (retries + 1) tried) before
      (fun found => gives found.1) stops := by
  simp only [Resolve.inOrder, Resolve.meets_tryCatch, Resolve.meets_bind, Resolve.meets_pure]
  refine runs.mono (fun _ _ gave => gave) ?_
  rintro stop after ⟨stopped, final⟩
  split
  · exact absurd rfl (final _ _)
  · exact stopped

/-- An expression that leads to no circle stands for what its resolution gives, or is at fault. -/
theorem resolve_denotes (state : Denoted sources strict resolver) (expr : String)
    (file : Option FilePath) (straight : sources.Straight file expr.toList) :
    (∃ validator after, resolver.resolve expr file = (some (.ok validator), after) ∧
        sources.Denotes strict file expr.toList validator) ∨
      ∃ fault after, resolver.resolve expr file = (some (.error fault), after) ∧
        sources.Fails strict file expr.toList := by
  have runs := denoting_lawful.governs (resolver.nestingLimit expr.toList) { file := file } expr.toList
    resolver ⟨state, by simp [denoting]⟩
  have direct : Resolve.Meets
      (Resolve.resolveWithin (resolver.nestingLimit expr.toList) { file := file } expr.toList) resolver
      (fun validator _ => sources.Denotes strict file expr.toList validator)
      (fun stop _ => FinallyFails (sources.Fails strict file expr.toList) stop ∧
        ∀ fault key, stop ≠ .fault fault (some key)) := by
    refine runs.mono (fun _ _ kept => kept.2.2 straight) ?_
    intro stop after kept
    have failed := kept.2.2 straight
    refine ⟨failed, ?_⟩
    rintro fault key rfl
    cases failed.1
  have bounded := (resolution_bounded state.faithful expr file).and
    (inOrder_direct direct (resolver.declarationLimit expr.toList) [])
  rcases resolve_of_meets bounded with ⟨validator, after, _, ended, kept⟩ |
    ⟨fault, _, after, ended, kept⟩ | ⟨_, _, never⟩
  · exact .inl ⟨validator, after, ended, kept.2⟩
  · exact .inr ⟨fault, after, ended, kept.2.2⟩
  · exact absurd rfl never.1

/-- Whatever happens to a resolver, what it has built is what the declarations stand for. -/
theorem history_denoted {options : Options} {files : FileTable} {returned : List Validator}
    (history : History (fresh options files) resolver returned) :
    Denoted ⟨files, options.extensions⟩ resolver.options.strict resolver := by
  induction history with
  | start => exact ⟨by simp [Faithful, fresh], rfl, rfl, by simp [fresh]⟩
  | @step resolver returned operation _ ih =>
      cases operation with
      | resolve expr file =>
          have ⟨state, _⟩ := resolve_keeps expr file denoting_lawful
            (fun _ _ _ => by simp [denoting, Conduct.top]) ih (by simp [denoting])
          simp only [Operation.after]
          rw [state.strict_eq]
          exact state
      | setStrict strict =>
          simp only [Operation.after, setStrict]
          split
          · exact ih
          · exact ⟨ih.faithful, ih.sources_eq, rfl, by simp⟩
      | clear =>
          exact ⟨by simp [Faithful, Operation.after, clear], ih.sources_eq, rfl,
            by simp [Operation.after, clear]⟩

end Resolver

end Conform
