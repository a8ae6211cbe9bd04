import Mathlib.Data.Prod.Basic
import Conform.Proofs.Resolver.Described
import Conform.Proofs.Validator.Comparison
import Conform.Proofs.Resolver.References
import Conform.Proofs.Validator.Scopes

/-!
Fields that need no value because their type allows `undefined`. A field is told so by the validator of
its type: that is `undefined`, or a union with `undefined` for an operand. So are the types which are
written that way, whatever parentheses or aliases are around the type or its operand, unless an alias
leads back to itself. An `undefined` in a union within the union is not seen.
-/

namespace Conform

open Relation

namespace Sources

variable (sources : Sources)

inductive IsUndefined : Option FilePath → List Char → Prop where
  | keyword {file : Option FilePath} {expr : List Char}
      (read : Form.read expr = .ok (.primitive .undefined)) : IsUndefined file expr
  | alias_ {file : Option FilePath} {expr name definition : List Char} {key : DeclKey}
      (read : Form.read expr = .ok (.reference name)) (means : sources.Means file name key)
      (defined : sources.definition key = .ok definition)
      (stands : IsUndefined (some key.file) definition) : IsUndefined file expr

inductive OffersUndefined : Option FilePath → List Char → Prop where
  | bare {file : Option FilePath} {expr : List Char} (isUndefined : sources.IsUndefined file expr) :
      OffersUndefined file expr
  | operand {file : Option FilePath} {expr operand : List Char} {operands : List (List Char)}
      (read : Form.read expr = .ok (.group .or operands)) (member : operand ∈ operands)
      (isUndefined : sources.IsUndefined file operand) : OffersUndefined file expr
  | alias_ {file : Option FilePath} {expr name definition : List Char} {key : DeclKey}
      (read : Form.read expr = .ok (.reference name)) (means : sources.Means file name key)
      (defined : sources.definition key = .ok definition)
      (offers : OffersUndefined (some key.file) definition) : OffersUndefined file expr

inductive Loops : Option FilePath → List Char → Prop where
  | circle {file : Option FilePath} {expr name : List Char} {key : DeclKey}
      (read : Form.read expr = .ok (.reference name)) (means : sources.Means file name key)
      (back : TransGen sources.Refers key.place key.place) : Loops file expr
  | alias_ {file : Option FilePath} {expr name definition : List Char} {key : DeclKey}
      (read : Form.read expr = .ok (.reference name)) (means : sources.Means file name key)
      (defined : sources.definition key = .ok definition) (loops : Loops (some key.file) definition) :
      Loops file expr

variable {sources} {strict : Bool} {file : Option FilePath} {expr : List Char} {validator : Validator}

theorem Straight.not_loops (straight : sources.Straight file expr) : ¬sources.Loops file expr := by
  intro loops
  induction loops with
  | circle read means back => exact straight.reference read means _ .refl back
  | alias_ read means defined _ ih => exact ih ((straight.reference read means).definition defined)

theorem not_loops_of_read {form : Form} (read : Form.read expr = .ok form)
    (other : ∀ name, form ≠ .reference name) : ¬sources.Loops file expr := by
  intro loops
  cases loops with
  | circle read' | alias_ read' => exact other _ (Except.ok.inj (read.symm.trans read'))

theorem IsUndefined.straight (isUndefined : sources.IsUndefined file expr) :
    sources.Straight file expr := by
  induction isUndefined with
  | keyword read =>
      exact straight_of_pieces read (by simp) fun use part piece =>
        absurd read (piece.no_primitive _)
  | alias_ read means defined _ ih =>
      exact straight_of_reference read means (straightAt_of_definition defined ih)

theorem Describes.undefined (describes : sources.Describes strict file expr validator)
    (isUndefined : sources.IsUndefined file expr) : validator = .primitive .undefined := by
  induction isUndefined with
  | keyword read =>
      cases describes.makes read (by simp)
      rfl
  | alias_ read means defined stands ih =>
      cases describes with
      | made read' _ makes =>
          cases read.symm.trans read'
          cases makes
      | definition read' means' defined' describes =>
          cases read.symm.trans read'
          cases means_unique means means'
          cases defined.symm.trans defined'
          exact ih describes
      | reference cell read' means' circle =>
          cases read.symm.trans read'
          cases means_unique means means'
          exact absurd circle (straightAt_of_definition defined stands.straight _ .refl)

end Sources

namespace Validator

def Lifts (validator : Validator) : Prop :=
  validator.isUndefined ∨ validator.withoutUndefined?.isSome

theorem Lifts.required {validator : Validator} (lifts : Lifts validator) (node : NodeId) (name : String)
    (optional strict : Bool) : (Field.make node name optional strict validator).required = false := by
  unfold Field.make
  split
  · rfl
  · rfl
  · rfl
  · rcases lifts with undefined | union
    · simp [undefined]
    · simp_all

theorem lifts_of_make {validator : Validator} {node : NodeId} {name : String} {optional strict : Bool}
    (spared : (Field.make node name optional strict validator).required = false) :
    optional ∨ Lifts validator := by
  cases left : validator.withoutUndefined? with
  | some rest => exact .inr (.inr (by simp [left]))
  | none =>
      have bare : optional = true ∨ validator.isUndefined = true := by
        simp only [Field.make, left] at spared
        simpa [or_iff_not_imp_left] using spared
      exact bare.imp_right .inl

theorem lifts_union {node : NodeId} {operands : List Validator}
    (member : .primitive .undefined ∈ operands) : Lifts (.group node .or operands) := by
  have named : operands.any isUndefined := List.any_eq_true.mpr ⟨_, member, rfl⟩
  exact .inr (by simp [withoutUndefined?, named])

theorem undefined_of_union {node : NodeId} {connective : Connective} {operands : List Validator}
    (union : (group node connective operands).withoutUndefined?.isSome) :
    connective = .or ∧ ∃ operand ∈ operands, operand = .primitive .undefined := by
  unfold withoutUndefined? at union
  split at union
  next same =>
    cases same
    split at union
    next named =>
      obtain ⟨operand, member, undefined⟩ := List.any_eq_true.mp named
      refine ⟨rfl, operand, member, ?_⟩
      unfold isUndefined at undefined
      split at undefined
      · rfl
      · cases undefined
    next => cases union
  next => cases union

end Validator

open Validator

namespace Sources

variable {sources : Sources} {strict : Bool} {file : Option FilePath} {expr : List Char}
  {validator : Validator}

/-- A type with `undefined` is resolved to a validator that shows it, or to a reference. -/
theorem Describes.lifts (describes : sources.Describes strict file expr validator)
    (offers : sources.OffersUndefined file expr) : Lifts validator ∨
      (sources.Loops file expr ∧ ∃ name cell, validator = .deferred name cell) := by
  induction offers with
  | bare isUndefined =>
      rw [describes.undefined isUndefined]
      exact .inl (.inl rfl)
  | operand read member isUndefined =>
      have makes := describes.makes read (by simp)
      cases makes with
      | group node parts =>
          obtain ⟨found, among, used⟩ := exists_of_forall₂ parts member
          rw [used.undefined isUndefined] at among
          exact .inl (lifts_union among)
  | alias_ read means defined _ ih =>
      cases describes with
      | made read' _ makes =>
          cases read.symm.trans read'
          cases makes
      | definition read' means' defined' describes =>
          cases read.symm.trans read'
          cases means_unique means means'
          cases defined.symm.trans defined'
          exact (ih describes).imp_right fun known =>
            ⟨.alias_ read means defined known.1, known.2⟩
      | reference cell read means circle =>
          exact .inr ⟨.circle read means circle, _, cell, rfl⟩

theorem isUndefined_of_describes
    (describes : sources.Describes strict file expr (.primitive .undefined)) :
    sources.IsUndefined file expr := by
  generalize same : Validator.primitive .undefined = validator at describes
  induction describes with
  | made read _ makes =>
      cases makes with
      | primitive kind =>
          cases same
          exact .keyword read
      | group | array | partialOf | record => cases same
  | definition read means defined _ ih => exact .alias_ read means defined (ih same)
  | reference => cases same

theorem Describes.offers (describes : sources.Describes strict file expr validator)
    (lifts : Lifts validator) : sources.OffersUndefined file expr := by
  induction describes with
  | @made file expr form validator uses read parts makes =>
      cases makes with
      | primitive kind =>
          rcases lifts with undefined | union
          · have keyword : kind = .undefined := by
              unfold isUndefined at undefined
              split at undefined <;> simp_all
            subst keyword
            exact .bare (.keyword read)
          · cases union
      | @group connective operands validators node used =>
          rcases lifts with undefined | union
          · cases undefined
          · obtain ⟨rfl, found, among, undefined⟩ := undefined_of_union union
            obtain ⟨operand, member, known⟩ := exists_of_forall₂ used.flip among
            exact .operand read member (isUndefined_of_describes (undefined ▸ parts _ _ known))
      | array | partialOf | record => rcases lifts with undefined | union <;> contradiction
  | definition read means defined _ ih => exact .alias_ read means defined (ih lifts)
  | reference => rcases lifts with undefined | union <;> contradiction

end Sources

/-! ## The records of a validator -/

namespace Sources

variable (sources : Sources)

inductive Written (root : Option FilePath) (given : List Char) : Option FilePath → List Char → Prop where
  | given : Written root given root given
  | definition {key : DeclKey} {definition : List Char} (defined : sources.definition key = .ok definition) :
      Written root given (some key.file) definition
  | piece {file : Option FilePath} {expr part : List Char} {use : Use}
      (around : Written root given file expr) (piece : Piece use expr part) : Written root given file part

def fieldsOf (members : List (List Char)) : List (List Char × Bool × List Char) :=
  members.filterMap fun member =>
    match Expr.member? member with
    | some (.field name optional type) => some (name, optional, type)
    | _ => none

/-- The field is optional where its type offers `undefined`, unless a reference stands for the type. -/
def FieldFrom (file : Option FilePath) : List Char × Bool × List Char → Field Validator → Prop
  | (name, optional, type), field =>
    field.name = String.ofList name ∧ (optional → field.required = false) ∧
      (sources.OffersUndefined file type → field.required = false ∨
        (sources.Loops file type ∧ ∃ name cell, field.type = .deferred name cell))

/-- Besides, the field is optional nowhere else. -/
def FieldOf (file : Option FilePath) (written : List Char × Bool × List Char) (field : Field Validator) :
    Prop :=
  sources.FieldFrom file written field ∧
    (field.required = false → written.2.1 ∨ sources.OffersUndefined file written.2.2)

def WrittenLevel (root : Option FilePath) (given : List Char) (level : Level Validator) : Prop :=
  ∃ file expr parts, sources.Written root given file expr ∧ Form.read expr = .ok (.record parts) ∧
    level.name = parts.name.map String.ofList ∧
    List.Forall₂ (sources.FieldFrom file) (fieldsOf (Expr.members parts.body)) level.fields

variable {sources} {root file : Option FilePath} {given : List Char}

theorem FieldFrom.relaxed {member : List Char × Bool × List Char} {field : Field Validator}
    (written : sources.FieldFrom file member field) :
    sources.FieldFrom file member { field with required := false } :=
  ⟨written.1, fun _ => rfl, fun _ => .inl rfl⟩

theorem WrittenLevel.relaxed {level : Level Validator} (written : sources.WrittenLevel root given level)
    (node : NodeId) : sources.WrittenLevel root given (level.relaxed node) := by
  obtain ⟨file, expr, parts, around, read, named, fields⟩ := written
  refine ⟨file, expr, parts, around, read, named, ?_⟩
  exact List.forall₂_map_right_iff.mpr (fields.imp fun _ _ => FieldFrom.relaxed)

theorem fieldOf_make {strict : Bool} {name type : List Char} {optional : Bool} {validator : Validator}
    (node : NodeId) (describes : sources.Describes strict file type validator) :
    sources.FieldOf file (name, optional, type)
      (Field.make node (String.ofList name) optional strict validator) := by
  refine ⟨⟨?_, ?_, fun offers => ?_⟩, fun spared => ?_⟩
  · unfold Field.make
    split <;> rfl
  · rintro rfl
    unfold Field.make
    split <;> simp
  · rcases describes.lifts offers with lifts | ⟨loops, name', cell, rfl⟩
    · exact .inl (lifts.required node _ optional strict)
    · exact .inr ⟨loops, name', cell, rfl⟩
  · rcases lifts_of_make spared with marked | lifts
    · exact .inl marked
    · exact .inr (describes.offers lifts)

theorem fieldsOf_members {strict : Bool} {members : List (List Char)} {fields : List (Field Validator)}
    {index : Option Validator}
    (known : MembersHold (sources.Describes strict file) strict members fields index) :
    List.Forall₂ (sources.FieldOf file) (fieldsOf members) fields := by
  induction known with
  | nil => exact .nil
  | index read _ _ ih =>
      rw [fieldsOf, List.filterMap_cons_none (by rw [read])]
      exact ih
  | field node read describes _ ih =>
      rw [fieldsOf, List.filterMap_cons_some (by rw [read])]
      exact .cons (fieldOf_make node describes) ih

theorem Describes.fields {strict : Bool} {expr : List Char} {parts : Expr.RecordParts}
    {validator : Validator} (describes : sources.Describes strict file expr validator)
    (read : Form.read expr = .ok (.record parts)) : ∃ own ancestors, validator = .record own ancestors ∧
      List.Forall₂ (sources.FieldOf file) (fieldsOf (Expr.members parts.body)) own.fields := by
  cases describes.makes read (by simp) with
  | record node parent members => exact ⟨_, _, rfl, fieldsOf_members members⟩

theorem Describes.everywhere {strict : Bool} {expr : List Char} {validator : Validator}
    (describes : sources.Describes strict file expr validator)
    (written : sources.Written root given file expr) :
    Everywhere [] (OnLevels (sources.WrittenLevel root given)) validator := by
  induction describes with
  | @made file expr form validator uses read parts makes ih =>
      have each {use : Use} {part : List Char} {found : Validator} (piece : Piece use expr part)
          (used : uses part found) : Everywhere [] (OnLevels (sources.WrittenLevel root given)) found :=
        ih part found used (.piece written piece)
      cases makes with
      | primitive kind => exact .primitive trivial
      | group node operands =>
          refine .group trivial fun found among => ?_
          obtain ⟨operand, member, used⟩ := exists_of_forall₂ operands.flip among
          exact each (.operand read member) used
      | array node element => exact .array trivial (each (.element read) element)
      | partialOf node target =>
          have inner := each (.target read) target
          have ⟨own, ancestors⟩ := List.forall_mem_cons.mp inner.here
          exact inner.relaxed (List.forall_mem_cons.mpr ⟨own.relaxed node, ancestors⟩)
      | @record text ancestors fields index node parent members =>
          have nested : ∀ member found, member ∈ Expr.members text.body →
              Expr.member? member = some found → Piece .nested expr found.type :=
            fun member found among known => .member read among known
          have inner := ((members.among nested).imp fun type found known =>
            each known.1 known.2).throughout node (text.name.map String.ofList) trivial fun _ _ => trivial
          have own : WrittenLevel sources root given
              ⟨node, text.name.map String.ofList, fields, index⟩ :=
            ⟨file, expr, text, written, read, rfl,
              (fieldsOf_members (members.imp parts)).imp fun _ _ field => field.1⟩
          generalize extends_ : text.parent = name at parent
          cases parent with
          | none =>
              exact .record (List.forall_mem_cons.mpr ⟨own, by simp⟩)
                (List.forall_mem_cons.mpr ⟨inner, by simp⟩)
          | some parent =>
              have inherited := each (.parent read extends_) parent
              exact .record (List.forall_mem_cons.mpr ⟨own, inherited.here⟩)
                (List.forall_mem_cons.mpr ⟨inner, inherited.levels⟩)
  | definition read means defined _ ih => exact ih (.definition defined)
  | reference cell => exact .unfilled rfl trivial

end Sources

namespace Validator

theorem judgeDeclared_absent {field : Field Validator} {entries : List (String × Json)}
    (optional : field.required = false) (absent : Json.lookup field.name entries = none)
    (below : Judgement) : judgeDeclared below entries field = some .success := by
  simp [judgeDeclared, absent, optional, judgeField, Outcome.at, Outcome.isSuccess, Outcome.success,
    Outcome.code]

end Validator

namespace Resolver

variable {resolver : Resolver} {options : Options} {files : FileTable} {returned : List Validator}

/-- All records that an answer leads to are written ones, also behind references. -/
theorem written_reached (history : History (fresh options files) resolver returned) {expr : String}
    {file : Option FilePath} {validator part : Validator} {after : Resolver}
    (ended : resolver.resolve expr file = (some (.ok validator), after))
    (reaches : Reaches after.references validator part) :
    Everywhere [] (OnLevels (resolver.sources.WrittenLevel file expr.toList)) part := by
  have state := history_described history
  rw [← state.sources_eq] at state
  obtain ⟨after_, described⟩ := resolve_described state expr file
  rw [ended] at after_ described
  induction reaches with
  | refl => exact (described validator rfl).1.everywhere .given
  | @tail middle last _ step ih =>
      cases step with
      | element => exact ih.of_reaches (.single .element)
      | operand member => exact ih.of_reaches (.single (.operand member))
      | field among member => exact ih.of_reaches (.single (.field among member))
      | index among member => exact ih.of_reaches (.single (.index among member))
      | target filled =>
          obtain ⟨strict, key, definition, defined, describes⟩ := after_.filled _ _ filled
          exact describes.everywhere (.definition defined)

/-- Whatever happened to a resolver, the fields of a record are optional where they have a question
mark or `undefined` is their type or an operand of it, under any parentheses and aliases, and nowhere
else; but where an alias that leads back to itself is the type, a reference may stand for it, which
shows no `undefined`. So it is in all records that the answer leads to, of which a `Partial` may make
more fields optional. An object without an optional field does not fail for that. -/
theorem offered_undefined (history : History (fresh options files) resolver returned) {expr : String}
    {file : Option FilePath} {validator : Validator} {after : Resolver}
    (ended : resolver.resolve expr file = (some (.ok validator), after)) :
    (∀ parts, Form.read expr.toList = .ok (.record parts) →
      ∃ own ancestors, validator = .record own ancestors ∧
        List.Forall₂ (resolver.sources.FieldOf file) (Sources.fieldsOf (Expr.members parts.body))
          own.fields) ∧
    (∀ name key definition parts, Form.read expr.toList = .ok (.reference name) →
      resolver.sources.Means file name key → resolver.sources.definition key = .ok definition →
      Form.read definition = .ok (.record parts) →
      ∃ own ancestors, validator = .record own ancestors ∧
        List.Forall₂ (resolver.sources.FieldOf (some key.file))
          (Sources.fieldsOf (Expr.members parts.body)) own.fields) ∧
    (∀ own ancestors, Reaches after.references validator (.record own ancestors) →
      ∀ level ∈ own :: ancestors, resolver.sources.WrittenLevel file expr.toList level ∧
        ∀ field ∈ level.fields, field.required = false → ∀ below entries,
          Json.lookup field.name entries = none →
            judgeDeclared below entries field = some .success) := by
  have state := history_described history
  rw [← state.sources_eq] at state
  obtain ⟨describes, stated⟩ := (resolve_described state expr file).2 validator (by rw [ended])
  refine ⟨fun parts read => describes.fields read, ?_, ?_⟩
  · intro name key definition parts read means defined read'
    obtain ⟨definition', defined', describes⟩ := stated name key read means
    cases defined.symm.trans defined'
    exact describes.fields read'
  · intro own ancestors reaches level among
    refine ⟨(written_reached history ended reaches).here level among, ?_⟩
    exact fun field _ optional below entries absent => judgeDeclared_absent optional absent below

deriving instance DecidableEq for Form

def gapsFile : FilePath := ⟨"/gaps.ts"⟩

def gaps : FileTable :=
  .ofList [(gapsFile, .text
    ("type Gap = undefined; " ++
      "interface Entry \x7b a: (number | (undefined)); b: string | Gap; c: Gap; d?: string \x7d"))]

theorem isUndefined_gap :
    (fresh {} gaps).sources.IsUndefined (some gapsFile) "Gap".toList := by
  have means : (fresh {} gaps).sources.Means (some gapsFile) "Gap".toList ⟨"Gap", gapsFile⟩ :=
    ⟨gapsFile, rfl, ok_of_toOption (by decide +kernel)⟩
  have defined : (fresh {} gaps).sources.definition ⟨"Gap", gapsFile⟩ = .ok "undefined".toList :=
    ok_of_toOption (by decide +kernel)
  exact .alias_ (read_of_bareName? (by decide +kernel)) means defined
    (.keyword (ok_of_toOption (by decide +kernel)))

def gapFields : List (List Char × Bool × List Char) :=
  [("a".toList, false, "(number | (undefined))".toList), ("b".toList, false, "string | Gap".toList),
    ("c".toList, false, "Gap".toList), ("d".toList, true, "string".toList)]

theorem optional_of_gapFields {fields : List (Field Validator)}
    (known : List.Forall₂ ((fresh {} gaps).sources.FieldOf (some gapsFile)) gapFields fields) :
    ∀ field ∈ fields, field.required = false := by
  have undefined : (fresh {} gaps).sources.IsUndefined (some gapsFile) "(undefined)".toList :=
    .keyword (ok_of_toOption (by decide +kernel))
  have first : Form.read "(number | (undefined))".toList =
      .ok (.group .or ["number".toList, "(undefined)".toList]) := ok_of_toOption (by decide +kernel)
  have second : Form.read "string | Gap".toList = .ok (.group .or ["string".toList, "Gap".toList]) :=
    ok_of_toOption (by decide +kernel)
  simp only [gapFields, List.forall₂_cons_left_iff, List.forall₂_nil_left_iff] at known
  obtain ⟨a, _, inA, ⟨b, _, inB, ⟨c, _, inC, ⟨d, _, inD, rfl, rfl⟩, rfl⟩, rfl⟩, rfl⟩ := known
  simp only [List.forall_mem_cons, List.not_mem_nil, false_implies, implies_true, and_true]
  refine ⟨?_, ?_, ?_, inD.1.2.1 rfl⟩
  · exact (inA.1.2.2 (.operand first (by simp) undefined)).resolve_right fun loops =>
      Sources.not_loops_of_read first (by simp) loops.1
  · exact (inB.1.2.2 (.operand second (by simp) isUndefined_gap)).resolve_right fun loops =>
      Sources.not_loops_of_read second (by simp) loops.1
  · exact (inC.1.2.2 (.bare isUndefined_gap)).resolve_right fun loops =>
      isUndefined_gap.straight.not_loops loops.1

theorem offered_undefined_entry :
    ∃ own ancestors after, (fresh {} gaps).resolve "Entry" (some gapsFile) =
        (some (.ok (.record own ancestors)), after) ∧
      ∀ field ∈ own.fields, ∀ below, judgeDeclared below [] field = some .success := by
  have passed : ((fresh {} gaps).resolve "Entry" (some gapsFile)).1.any (·.isOk) := by decide +kernel
  obtain ⟨validator, answer⟩ := exists_of_isOk passed
  have ended := Prod.fst_eq_iff.mp answer
  obtain ⟨_, named, reached⟩ := offered_undefined (@History.start (fresh {} gaps)) ended
  have means : (fresh {} gaps).sources.Means (some gapsFile) "Entry".toList ⟨"Entry", gapsFile⟩ :=
    ⟨gapsFile, rfl, ok_of_toOption (by decide +kernel)⟩
  have defined : (fresh {} gaps).sources.definition ⟨"Entry", gapsFile⟩ = .ok
      ("interface Entry \x7b a: (number | (undefined)); b: string | Gap; c: Gap; " ++
        "d?: string \x7d").toList := ok_of_toOption (by decide +kernel)
  obtain ⟨own, ancestors, rfl, fields⟩ := named "Entry".toList _ _
    ⟨some "Entry".toList, none,
      " a: (number | (undefined)); b: string | Gap; c: Gap; d?: string ".toList⟩
    (read_of_bareName? (by decide +kernel)) means defined (ok_of_toOption (by decide +kernel))
  have written : Sources.fieldsOf (Expr.members
      " a: (number | (undefined)); b: string | Gap; c: Gap; d?: string ".toList) = gapFields := by
    decide +kernel
  rw [written] at fields
  refine ⟨own, ancestors, _, ended, fun field member below => ?_⟩
  exact (reached own ancestors .refl own List.mem_cons_self).2 field member
    (optional_of_gapFields fields field member) below [] rfl

def passesEmpty : Option (Except Fault Validator) × Resolver → Option Bool
  | (some (.ok validator), after) =>
    (validateWithin after.references 3 [] validator (some (.object []))).map Outcome.isSuccess
  | _ => none

theorem verdict_of_passesEmpty {answered : Option (Except Fault Validator) × Resolver} {passes : Bool}
    (known : passesEmpty answered = some passes) :
    ∃ validator after, answered = (some (.ok validator), after) ∧
      Verdict after.references [] validator (some (.object [])) passes := by
  unfold passesEmpty at known
  split at known
  · obtain ⟨outcome, found, rfl⟩ := Option.map_eq_some_iff.mp known
    exact ⟨_, _, rfl, 3, outcome, found, rfl⟩
  · cases known

def hidden : FileTable :=
  .ofList [(⟨"/hidden.ts"⟩, .text "type Note = string | undefined; interface Entry \x7b a: number | Note \x7d")]

/-- An `undefined` in a union within the union of a field is not seen, in parentheses or under an alias:
the field needs a value. When the same union is written without them it needs none. -/
theorem grouped_undefined_hidden :
    (∃ validator after, (fresh {} {}).resolve "\x7b a: string | (number | undefined) \x7d" none =
        (some (.ok validator), after) ∧
      Verdict after.references [] validator (some (.object [])) false) ∧
    (∃ validator after, (fresh {} hidden).resolve "Entry" (some ⟨"/hidden.ts"⟩) =
        (some (.ok validator), after) ∧
      Verdict after.references [] validator (some (.object [])) false) ∧
    ∃ validator after, (fresh {} {}).resolve "\x7b a: string | number | undefined \x7d" none =
        (some (.ok validator), after) ∧
      Verdict after.references [] validator (some (.object [])) true := by
  refine ⟨?_, ?_, ?_⟩
  · exact verdict_of_passesEmpty (by decide +kernel)
  · exact verdict_of_passesEmpty (by decide +kernel)
  · exact verdict_of_passesEmpty (by decide +kernel)

end Resolver

end Conform
