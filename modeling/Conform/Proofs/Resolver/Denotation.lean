import Conform.Proofs.Resolver.Conduct
import Conform.Proofs.Resolver.Graph
import Conform.Proofs.Validator.Twins

/-!
What an expression stands for by itself: validators in which the definition of a declaration is in
the place of its name, so without references. Of two such validators for one expression, both look
the same; and an expression that stands for one is not at fault.
-/

namespace Conform

inductive Makes (uses : List Char → Validator → Prop) (strict : Bool) : Form → Validator → Prop where
  | primitive (kind : Primitive) : Makes uses strict (.primitive kind) (.primitive kind)
  | group {connective : Connective} {operands : List (List Char)} {validators : List Validator}
      (node : NodeId) (parts : List.Forall₂ uses operands validators) :
      Makes uses strict (.group connective operands) (.group node connective validators)
  | array {element : List Char} {validator : Validator} (node : NodeId)
      (part : uses element validator) : Makes uses strict (.array element) (.array node validator)
  | partialOf {name : List Char} {own : Level Validator} {ancestors : List (Level Validator)}
      (node : NodeId) (part : uses name (.record own ancestors)) :
      Makes uses strict (.partialOf name) (.record (own.relaxed node) ancestors)
  | record {parts : Expr.RecordParts} {ancestors : List (Level Validator)}
      {fields : List (Field Validator)} {index : Option Validator} (node : NodeId)
      (parent : ParentHolds uses parts.parent ancestors)
      (members : MembersHold uses strict (Expr.members parts.body) fields index) :
      Makes uses strict (.record parts)
        (.record ⟨node, parts.name.map String.ofList, fields, index⟩ ancestors)

namespace Sources

section

variable (sources : Sources) (strict : Bool)

inductive Denotes : Option FilePath → List Char → Validator → Prop where
  | made {file : Option FilePath} {expr : List Char} {form : Form} {validator : Validator}
      {uses : List Char → Validator → Prop} (read : Form.read expr = .ok form)
      (parts : ∀ part found, uses part found → Denotes file part found)
      (makes : Makes uses strict form validator) : Denotes file expr validator
  | reference {file : Option FilePath} {expr name definition : List Char} {key : DeclKey}
      {validator : Validator} (read : Form.read expr = .ok (.reference name))
      (means : sources.Means file name key) (defined : sources.definition key = .ok definition)
      (stands : Denotes (some key.file) definition validator) : Denotes file expr validator

inductive Fails : Option FilePath → List Char → Prop where
  | unreadable {file : Option FilePath} {expr : List Char} {fault : Fault}
      (error : Form.read expr = .error fault) : Fails file expr
  | piece {file : Option FilePath} {expr part : List Char} {use : Use} (piece : Piece use expr part)
      (fails : Fails file part) : Fails file expr
  | unreadableMember {file : Option FilePath} {expr member : List Char} {parts : Expr.RecordParts}
      (read : Form.read expr = .ok (.record parts)) (among : member ∈ Expr.members parts.body)
      (unread : Expr.member? member = none) : Fails file expr
  | notRecord {file : Option FilePath} {expr name : List Char} {validator : Validator}
      (piece : Piece .atOnce expr name) (denotes : sources.Denotes strict file name validator)
      (other : ∀ own ancestors, validator ≠ .record own ancestors) : Fails file expr
  | fileless {expr name : List Char} (read : Form.read expr = .ok (.reference name)) :
      Fails none expr
  | unlocated {file : FilePath} {expr name : List Char} {fault : Fault}
      (read : Form.read expr = .ok (.reference name))
      (error : sources.locate name file.normalize = .error fault) : Fails (some file) expr
  | undefined {file : Option FilePath} {expr name : List Char} {key : DeclKey} {fault : Fault}
      (read : Form.read expr = .ok (.reference name)) (means : sources.Means file name key)
      (error : sources.definition key = .error fault) : Fails file expr
  | definition {file : Option FilePath} {expr name definition : List Char} {key : DeclKey}
      (read : Form.read expr = .ok (.reference name)) (means : sources.Means file name key)
      (defined : sources.definition key = .ok definition)
      (fails : Fails (some key.file) definition) : Fails file expr

end

variable {sources : Sources} {strict : Bool} {file : Option FilePath} {expr : List Char}
  {validator validator' : Validator}

theorem Denotes.congr {file' : Option FilePath} (denotes : sources.Denotes strict file expr validator)
    (same : ∀ name key, sources.Means file name key → sources.Means file' name key) :
    sources.Denotes strict file' expr validator := by
  induction denotes generalizing file' with
  | made read _ makes ih => exact .made read (fun part found used => ih part found used same) makes
  | reference read means defined stands _ => exact .reference read (same _ _ means) defined stands

end Sources

section Makes

variable {uses uses' : List Char → Validator → Prop} {strict : Bool}

theorem MembersHold.readable {members : List (List Char)} {fields : List (Field Validator)}
    {index : Option Validator} (known : MembersHold uses strict members fields index)
    {member : List Char} (among : member ∈ members) :
    ∃ read, Expr.member? member = some read ∧ ∃ found, uses read.type found := by
  induction known with
  | nil => simp at among
  | index read type_holds _ ih =>
      rcases List.mem_cons.mp among with rfl | later
      · exact ⟨_, read, _, type_holds⟩
      · exact ih later
  | field _ read type_holds _ ih =>
      rcases List.mem_cons.mp among with rfl | later
      · exact ⟨_, read, _, type_holds⟩
      · exact ih later

theorem MembersHold.among {kind : List Char → Prop} {members : List (List Char)}
    {fields : List (Field Validator)} {index : Option Validator}
    (known : MembersHold uses strict members fields index)
    (all : ∀ member found, member ∈ members → Expr.member? member = some found → kind found.type) :
    MembersHold (fun type found => kind type ∧ uses type found) strict members fields index := by
  induction known with
  | nil => exact .nil
  | index read type_holds _ ih =>
      have rest := ih fun member found later => all member found (List.mem_cons_of_mem _ later)
      exact .index read ⟨all _ _ List.mem_cons_self read, type_holds⟩ rest
  | field node read type_holds _ ih =>
      have rest := ih fun member found later => all member found (List.mem_cons_of_mem _ later)
      exact .field node read ⟨all _ _ List.mem_cons_self read, type_holds⟩ rest

theorem MembersHold.alike {rel : Validator → Validator → Prop} {members : List (List Char)}
    {fields fields' : List (Field Validator)} {index index' : Option Validator}
    (make : ∀ member ∈ members, ∀ name optional type,
      Expr.member? member = some (.field name optional type) →
        ∀ node node' found found', uses type found → uses' type found' →
          Field.Alike rel (Field.make node (String.ofList name) optional strict found)
            (Field.make node' (String.ofList name) optional strict found'))
    (keep : ∀ member ∈ members, ∀ type, Expr.member? member = some (.index type) →
      ∀ found found', uses type found → uses' type found' → rel found found')
    (first : MembersHold uses strict members fields index)
    (second : MembersHold uses' strict members fields' index') :
    List.Forall₂ (Field.Alike rel) fields fields' ∧ Option.Rel rel index index' := by
  induction first generalizing fields' index' with
  | nil =>
      cases second
      exact ⟨.nil, .none⟩
  | index read type_holds _ ih =>
      rw [List.forall_mem_cons] at make keep
      cases second with
      | index read' type_holds' others =>
          cases read.symm.trans read'
          obtain ⟨fields, later⟩ := ih make.2 keep.2 others
          refine ⟨fields, ?_⟩
          cases later with
          | none => exact .some (keep.1 _ read _ _ type_holds type_holds')
          | some later => exact .some later
      | field _ read' => cases read.symm.trans read'
  | field node read type_holds _ ih =>
      rw [List.forall_mem_cons] at make keep
      cases second with
      | index read' => cases read.symm.trans read'
      | field node' read' type_holds' others =>
          cases read.symm.trans read'
          obtain ⟨fields, index⟩ := ih make.2 keep.2 others
          exact ⟨.cons (make.1 _ _ _ read node node' _ _ type_holds type_holds') fields, index⟩

theorem MembersHold.twins
    (same : ∀ part found found', uses part found → uses' part found' → Validator.Twin found found')
    {members : List (List Char)} {fields fields' : List (Field Validator)}
    {index index' : Option Validator} (first : MembersHold uses strict members fields index)
    (second : MembersHold uses' strict members fields' index') :
    List.Forall₂ (Field.Alike Validator.Twin) fields fields' ∧
      Option.Rel Validator.Twin index index' :=
  first.alike (fun _ _ _ _ type _ node node' found found' used used' =>
      (same type found found' used used').make node node' _ _ _)
    (fun _ _ type _ found found' => same type found found') second

theorem ParentHolds.twins
    (same : ∀ part found found', uses part found → uses' part found' → Validator.Twin found found')
    {parent : Option (List Char)} {ancestors ancestors' : List (Level Validator)}
    (first : ParentHolds uses parent ancestors) (second : ParentHolds uses' parent ancestors') :
    List.Forall₂ (Level.Alike Validator.Twin) ancestors ancestors' := by
  cases first with
  | none =>
      cases second
      exact .nil
  | some inherited =>
      cases second with
      | some inherited' => exact (same _ _ _ inherited inherited').levels

theorem operands_twins
    (same : ∀ part found found', uses part found → uses' part found' → Validator.Twin found found')
    {operands : List (List Char)} {validators validators' : List Validator}
    (first : List.Forall₂ uses operands validators)
    (second : List.Forall₂ uses' operands validators') :
    List.Forall₂ Validator.Twin validators validators' := by
  induction first generalizing validators' with
  | nil =>
      cases second
      exact .nil
  | cons used _ ih =>
      cases second with
      | cons used' others => exact .cons (same _ _ _ used used') (ih others)

theorem Makes.twin
    (same : ∀ part found found', uses part found → uses' part found' → Validator.Twin found found')
    {form : Form} {validator validator' : Validator} (first : Makes uses strict form validator)
    (second : Makes uses' strict form validator') : Validator.Twin validator validator' := by
  cases first with
  | primitive kind =>
      cases second
      exact .primitive kind
  | group node parts =>
      cases second with
      | group node' parts' =>
          exact .group node node' _ (operands_twins same parts parts')
  | array node part =>
      cases second with
      | array node' part' => exact .array node node' (same _ _ _ part part')
  | partialOf node part =>
      cases second with
      | partialOf node' part' =>
          cases (same _ _ _ part part').levels with
          | cons own ancestors => exact .record (.cons (own.relaxed node node') ancestors)
  | record node parent members =>
      cases second with
      | record node' parent' members' =>
          obtain ⟨fields, index⟩ := members.twins same members'
          exact .record (.cons ⟨fields, index⟩ (parent.twins same parent'))

theorem Makes.piece {expr part : List Char} {use : Use} {form : Form} {validator : Validator}
    (makes : Makes uses strict form validator) (read : Form.read expr = .ok form)
    (piece : Piece use expr part) :
    ∃ found, uses part found ∧ (use = .atOnce → ∃ own ancestors, found = .record own ancestors) := by
  cases makes with
  | primitive kind => exact absurd read (piece.no_primitive kind)
  | group node parts =>
      obtain ⟨rfl, member⟩ := piece.of_group read
      obtain ⟨found, _, used⟩ := exists_of_forall₂ parts member
      exact ⟨found, used, by simp⟩
  | array node used =>
      obtain ⟨rfl, rfl⟩ := piece.of_array read
      exact ⟨_, used, by simp⟩
  | partialOf node used =>
      obtain ⟨rfl, rfl⟩ := piece.of_partialOf read
      exact ⟨_, used, fun _ => ⟨_, _, rfl⟩⟩
  | record node parent members =>
      rcases piece.of_record read with ⟨rfl, extends_⟩ | ⟨rfl, member, among, _, read', rfl⟩
      · obtain ⟨own, rest, inherited⟩ := parent.holds extends_
        exact ⟨_, inherited, fun _ => ⟨_, _, rfl⟩⟩
      · obtain ⟨_, known, found, used⟩ := members.readable among
        cases read'.symm.trans known
        exact ⟨found, used, by simp⟩

end Makes

namespace Sources

variable {sources : Sources} {strict : Bool} {file : Option FilePath} {expr : List Char}
  {validator validator' : Validator}

theorem Denotes.twin (first : sources.Denotes strict file expr validator)
    (second : sources.Denotes strict file expr validator') : Validator.Twin validator validator' := by
  induction first generalizing validator' with
  | made read _ makes ih =>
      cases second with
      | made read' parts' makes' =>
          cases read.symm.trans read'
          exact makes.twin (fun part found found' used used' =>
            ih part found used (parts' part found' used')) makes'
      | reference read' =>
          cases read.symm.trans read'
          cases makes
  | reference read means defined _ ih =>
      cases second with
      | made read' _ makes' =>
          cases read.symm.trans read'
          cases makes'
      | reference read' means' defined' stands' =>
          cases read.symm.trans read'
          cases means_unique means means'
          cases defined.symm.trans defined'
          exact ih stands'

theorem Denotes.ne_deferred (denotes : sources.Denotes strict file expr validator) (name : String)
    (cell : CellId) : validator ≠ .deferred name cell := by
  rintro rfl
  cases (denotes.twin denotes).alike

theorem Denotes.not_fails (denotes : sources.Denotes strict file expr validator) :
    ¬sources.Fails strict file expr := by
  intro fails
  induction denotes with
  | made read parts makes ih =>
      cases fails with
      | unreadable error => cases read.symm.trans error
      | piece piece inner =>
          obtain ⟨found, used, _⟩ := makes.piece read piece
          exact ih _ found used inner
      | unreadableMember read' among unread =>
          cases read.symm.trans read'
          cases makes with
          | record node parent members =>
              obtain ⟨_, known, _⟩ := members.readable among
              cases unread.symm.trans known
      | notRecord piece denotes other =>
          obtain ⟨found, used, record⟩ := makes.piece read piece
          obtain ⟨own, ancestors, rfl⟩ := record rfl
          have twin := (parts _ _ used).twin denotes
          cases twin.alike with
          | record => exact other _ _ rfl
      | fileless read' | unlocated read' | undefined read' | definition read' =>
          cases read.symm.trans read'
          cases makes
  | reference read means defined _ ih =>
      cases fails with
      | unreadable error => cases read.symm.trans error
      | piece piece inner => exact absurd read (piece.no_reference _)
      | unreadableMember read' => cases read.symm.trans read'
      | notRecord piece => exact absurd read (piece.no_reference _)
      | fileless =>
          obtain ⟨_, none, _⟩ := means
          cases none
      | unlocated read' error =>
          cases read.symm.trans read'
          obtain ⟨_, ⟨⟩, located⟩ := means
          cases located.symm.trans error
      | undefined read' means' error =>
          cases read.symm.trans read'
          cases means_unique means means'
          cases defined.symm.trans error
      | definition read' means' defined' inner =>
          cases read.symm.trans read'
          cases means_unique means means'
          cases defined.symm.trans defined'
          exact ih inner

end Sources

end Conform
