import Conform.Proofs.Expr.Fields
import Conform.Proofs.Resolver.Described

/-!
Where a literal stands as a type: alone, as the element of an array, among the operands of a union, or
as the type of a field. Around it the text is read as it would be around any type, and what is made of
the whole has the literal at its spot.
-/

namespace Conform

open Text Conform.Expr

/-- Where a literal stands in an expression, and what else is there. -/
inductive Spot where
  | alone
  | element
  | operand (earlier later : List (List Char))
  | field (name parent : Option (List Char)) (front label field : List Char) (optional : Bool)
      (tail : List Char)

def literalType (text : List Char) : Validator :=
  .primitive (.literal (String.ofList text))

namespace Spot

inductive Between : List Char → List Char → Spot → Prop where
  | alone : Between [] [] .alone
  | element {before after : List Char} (isElement : IsElement before after) : Between before after .element
  | operand {before after : List Char} {earlier later : List (List Char)}
      (preceding : Preceding before earlier) (following : Following after later)
      (some_ : earlier ++ later ≠ []) : Between before after (.operand earlier later)
  | field {header front label field tail : List Char} {name parent : Option (List Char)} {optional : Bool}
      (isHeader : IsHeader header name parent) (isField : IsField front label field optional tail) :
      Between (header ++ '{' :: (front ++ label)) (tail ++ ['}'])
        (.field name parent front label field optional tail)

def form (quote : Char) (text : List Char) : Spot → Form
  | alone => .primitive (.literal (String.ofList text))
  | element => .array (literal quote text)
  | operand earlier later => .group .or (earlier ++ literal quote text :: later)
  | field name parent front label _ _ tail =>
    .record ⟨name, parent, front ++ label ++ literal quote text ++ tail⟩

inductive Has (strict : Bool) (type : Validator) : Spot → Validator → Prop where
  | alone : Has strict type .alone type
  | element (node : NodeId) : Has strict type .element (.array node type)
  | operand {earlier later : List (List Char)} {before after : List Validator} (node : NodeId)
      (count : before.length = earlier.length ∧ after.length = later.length) :
      Has strict type (.operand earlier later) (.group node .or (before ++ type :: after))
  | field {name parent : Option (List Char)} {front label field tail : List Char} {optional : Bool}
      {own : Level Validator} {ancestors : List (Level Validator)}
      (among : ⟨String.ofList field, !optional, strict, type⟩ ∈ own.fields) :
      Has strict type (.field name parent front label field optional tail) (.record own ancestors)

section Read

variable {before after left right : List Char} {spot : Spot} {quote : Char} {text : List Char}

theorem Between.starts (between : Between before after spot) : ∀ c ∈ before.head?, isBlank c = false := by
  intro c head
  cases between with
  | alone => cases head
  | element isElement =>
      cases isElement with
      | suffixed => cases head
      | generic =>
          obtain rfl : 'A' = c := by simpa using head
          rfl
  | operand preceding =>
      cases preceding with
      | nothing => cases head
      | leading =>
          cases head
          rfl
      | @operands run text _ _ starts =>
          cases text with
          | nil =>
              cases head
              rfl
          | cons d text => exact starts c head
  | @field header front label _ _ _ _ _ isHeader =>
      obtain ⟨d, more, begins, mark⟩ := isHeader.begins (front ++ label)
      rw [begins] at head
      cases head
      rcases mark with rfl | rfl <;> rfl

theorem Between.ends (between : Between before after spot) : ∀ c ∈ after.getLast?, isBlank c = false := by
  intro c last
  cases between with
  | alone => cases last
  | element isElement =>
      cases isElement with
      | suffixed =>
          rw [List.getLast?_append_of_ne_nil _ (by simp)] at last
          cases last
          rfl
      | generic =>
          rw [List.getLast?_concat] at last
          cases last
          rfl
  | operand _ following => exact following.visible c last
  | field =>
      rw [List.getLast?_concat] at last
      cases last
      rfl

theorem Between.ofBare (between : Between before after spot) (isLiteral : IsLiteral quote text) :
    Form.ofBare (bare (before ++ literal quote text ++ after)) = .ok (spot.form quote text) := by
  cases between with
  | alone =>
      rw [List.nil_append, List.append_nil, bare_literal isLiteral]
      exact Form.ofBare_literal isLiteral.opens isLiteral.open_
  | element isElement => exact isElement.ofBare isLiteral
  | operand preceding following some_ => exact preceding.ofBare following isLiteral some_
  | field isHeader isField => exact isHeader.ofBare isField isLiteral

theorem read_around (isLiteral : IsLiteral quote text) (closed : regionAfter .code left = .code)
    (between : Between (cleanBefore left) (cleanAfter right) spot) :
    Form.read (left ++ literal quote text ++ right) = .ok (spot.form quote (kept text)) := by
  rw [Form.read, stripComments_literal isLiteral closed]
  exact between.ofBare isLiteral.kept

theorem read_literal (isLiteral : IsLiteral quote text) :
    Form.read (literal quote text) = .ok (.primitive (.literal (String.ofList (kept text)))) := by
  have closed : regionAfter .code [] = .code := rfl
  have around : Between (cleanBefore []) (cleanAfter []) alone := .alone
  have read := read_around isLiteral closed around
  rwa [List.nil_append, List.append_nil] at read

theorem form_ne_reference (spot : Spot) (quote : Char) (text name : List Char) :
    spot.form quote text ≠ .reference name := by
  cases spot <;> simp [form]

end Read

section Makes

variable {uses : List Char → Validator → Prop} {strict : Bool}

theorem exists_of_forall₂_middle {earlier later : List (List Char)} {part : List Char}
    {validators : List Validator} (parts : List.Forall₂ uses (earlier ++ part :: later) validators) :
    ∃ before found after, validators = before ++ found :: after ∧
      (before.length = earlier.length ∧ after.length = later.length) ∧ uses part found := by
  induction earlier generalizing validators with
  | nil =>
      cases parts with
      | cons used others => exact ⟨[], _, _, rfl, ⟨rfl, others.length_eq.symm⟩, used⟩
  | cons first earlier ih =>
      cases parts with
      | cons _ others =>
          obtain ⟨before, found, after, rfl, ⟨count, count'⟩, used⟩ := ih others
          exact ⟨_ :: before, found, after, rfl, ⟨congrArg Nat.succ count, count'⟩, used⟩

theorem exists_field {members : List (List Char)} {fields : List (Field Validator)}
    {index : Option Validator} (known : MembersHold uses strict members fields index)
    {member name type : List Char} {optional : Bool} (among : member ∈ members)
    (read : member? member = some (.field name optional type)) :
    ∃ node found, uses type found ∧
      Field.make node (String.ofList name) optional strict found ∈ fields := by
  induction known with
  | nil => cases among
  | index read' _ _ ih =>
      rcases List.mem_cons.mp among with rfl | later
      · cases read.symm.trans read'
      · exact ih later
  | field node read' used _ ih =>
      rcases List.mem_cons.mp among with rfl | later
      · cases read.symm.trans read'
        exact ⟨node, _, used, List.mem_cons_self⟩
      · obtain ⟨node', found, used', inside⟩ := ih later
        exact ⟨node', found, used', List.mem_cons_of_mem _ inside⟩

/-- What is made of an expression with the literal has it at its spot. -/
theorem has_of_makes {before after text : List Char} {spot : Spot} {quote : Char} {validator : Validator}
    (between : Between before after spot) (isLiteral : IsLiteral quote text)
    (makes : Makes uses strict (spot.form quote text) validator)
    (same : ∀ found, uses (literal quote text) found → found = literalType text) :
    spot.Has strict (literalType text) validator := by
  cases between with
  | alone =>
      cases makes with
      | primitive => exact .alone
  | element =>
      cases makes with
      | array node part =>
          rw [same _ part]
          exact .element node
  | operand =>
      cases makes with
      | group node parts =>
          obtain ⟨before, found, after, rfl, count, used⟩ := exists_of_forall₂_middle parts
          rw [same _ used]
          exact .operand node count
  | field isHeader isField =>
      cases makes with
      | record node _ known =>
          rw [isField.members isLiteral] at known
          obtain ⟨node', found, used, among⟩ :=
            exists_field known (List.mem_append_right _ List.mem_cons_self) (isField.member? isLiteral)
          rw [same _ used] at among
          refine .field ?_
          simpa [Field.make, literalType, Validator.withoutUndefined?, Validator.isUndefined] using among

end Makes

end Spot

namespace Sources

variable (sources : Sources) (strict : Bool) (file : Option FilePath)

structure Sound (expr : List Char) : Prop where
  straight : sources.Straight file expr
  faultless : ¬sources.Fails strict file expr

def IsRecord (expr : List Char) : Prop :=
  ∀ validator, sources.Denotes strict file expr validator →
    ∃ own ancestors, validator = .record own ancestors

inductive SoundAround : Spot → Prop where
  | alone : SoundAround .alone
  | element : SoundAround .element
  | operand {earlier later : List (List Char)}
      (others : ∀ part ∈ earlier ++ later, sources.Sound strict file part) :
      SoundAround (.operand earlier later)
  | field {name parent : Option (List Char)} {front label field tail : List Char} {optional : Bool}
      (inherited : ∀ target, parent = some target →
        sources.Sound strict file target ∧ sources.IsRecord strict file target)
      (others : ∀ member ∈ members front ++ members tail, ∃ found, member? member = some found ∧
        sources.Sound strict file found.type) :
      SoundAround (.field name parent front label field optional tail)

variable {sources strict file} {expr name : List Char} {form : Form}

theorem sound_of_pieces (read : Form.read expr = .ok form) (other : ∀ name, form ≠ .reference name)
    (pieces : ∀ use part, Piece use expr part → sources.Sound strict file part ∧
      (use = .atOnce → sources.IsRecord strict file part))
    (readable : ∀ parts, form = .record parts → ∀ member ∈ members parts.body, member? member ≠ none) :
    sources.Sound strict file expr where
  straight := straight_of_pieces read other fun use part piece => (pieces use part piece).1.straight
  faultless := by
    have noName {name : List Char} (read' : Form.read expr = .ok (.reference name)) : False :=
      other name (Except.ok.inj (read.symm.trans read'))
    intro fails
    cases fails with
    | unreadable error => cases read.symm.trans error
    | piece piece inner => exact (pieces _ _ piece).1.faultless inner
    | unreadableMember read' among unread =>
        exact readable _ (Except.ok.inj (read.symm.trans read')) _ among unread
    | notRecord piece denotes other =>
        obtain ⟨own, ancestors, rfl⟩ := (pieces _ _ piece).2 rfl _ denotes
        exact other own ancestors rfl
    | fileless read' => exact noName read'
    | unlocated read' => exact noName read'
    | undefined read' => exact noName read'
    | definition read' => exact noName read'

theorem sound_of_definition {key : DeclKey} {definition : List Char}
    (read : Form.read expr = .ok (.reference name)) (means : sources.Means file name key)
    (defined : sources.definition key = .ok definition)
    (sound : sources.Sound strict (some key.file) definition) : sources.Sound strict file expr where
  straight := straight_of_reference read means (straightAt_of_definition defined sound.straight)
  faultless := by
    intro fails
    cases fails with
    | unreadable error => cases read.symm.trans error
    | piece piece => exact piece.no_reference _ read
    | unreadableMember read' => cases read.symm.trans read'
    | notRecord piece => exact piece.no_reference _ read
    | fileless =>
        obtain ⟨_, none, _⟩ := means
        cases none
    | unlocated read' error =>
        cases read.symm.trans read'
        obtain ⟨_, ⟨⟩, located⟩ := means
        cases located.symm.trans error
    | undefined read' means' error =>
        cases read.symm.trans read'
        cases means_unique means means'
        cases defined.symm.trans error
    | definition read' means' defined' inner =>
        cases read.symm.trans read'
        cases means_unique means means'
        cases defined.symm.trans defined'
        exact sound.faultless inner

section Literal

variable {quote : Char} {text before after : List Char} {spot : Spot}

theorem sound_literal (isLiteral : IsLiteral quote text) :
    sources.Sound strict file (literal quote text) := by
  have read := Spot.read_literal isLiteral
  exact sound_of_pieces read (by simp) (fun use part piece => absurd read (piece.no_primitive _))
    (by simp)

theorem sound_member {front label field tail : List Char} {optional : Bool}
    (isField : IsField front label field optional tail) (isLiteral : IsLiteral quote text)
    (others : ∀ member ∈ members front ++ members tail, ∃ found, member? member = some found ∧
      sources.Sound strict file found.type) :
    ∀ member ∈ members (front ++ label ++ literal quote text ++ tail),
      ∃ found, member? member = some found ∧ sources.Sound strict file found.type := by
  intro member among
  rw [isField.members isLiteral] at among
  rcases List.mem_append.mp among with earlier | middle
  · exact others member (List.mem_append_left _ earlier)
  · rcases List.mem_cons.mp middle with rfl | later
    · exact ⟨_, isField.member? isLiteral, sound_literal isLiteral⟩
    · exact others member (List.mem_append_right _ later)

section Around

variable (around : sources.SoundAround strict file spot) (between : Spot.Between before after spot)
  (isLiteral : IsLiteral quote text)

include around between isLiteral

theorem SoundAround.piece {use : Use} {part : List Char}
    (read : Form.read expr = .ok (spot.form quote text)) (piece : Piece use expr part) :
    sources.Sound strict file part ∧ (use = .atOnce → sources.IsRecord strict file part) := by
  cases around with
  | alone => exact absurd read (piece.no_primitive _)
  | element =>
      obtain ⟨rfl, rfl⟩ := piece.of_array read
      exact ⟨sound_literal isLiteral, by simp⟩
  | operand others =>
      obtain ⟨rfl, member⟩ := piece.of_group read
      refine ⟨?_, by simp⟩
      rcases List.mem_append.mp member with earlier | middle
      · exact others part (List.mem_append_left _ earlier)
      · rcases List.mem_cons.mp middle with rfl | later
        · exact sound_literal isLiteral
        · exact others part (List.mem_append_right _ later)
  | field inherited others =>
      cases between with
      | field isHeader isField =>
          rcases piece.of_record read with ⟨rfl, extends_⟩ | ⟨rfl, member, among, _, read', rfl⟩
          · obtain ⟨sound, record⟩ := inherited part extends_
            exact ⟨sound, fun _ => record⟩
          · obtain ⟨found, known, sound⟩ := sound_member isField isLiteral others _ among
            cases read'.symm.trans known
            exact ⟨sound, by simp⟩

theorem SoundAround.readable {parts : Expr.RecordParts} (same : spot.form quote text = .record parts) :
    ∀ member ∈ members parts.body, member? member ≠ none := by
  intro member among
  cases around with
  | field _ others =>
      cases between with
      | field _ isField =>
          cases same
          obtain ⟨found, known, _⟩ := sound_member isField isLiteral others member among
          simp [known]
  | alone | element | operand => cases same

/-- With the literal an expression is as sound as without it. -/
theorem SoundAround.sound (read : Form.read expr = .ok (spot.form quote text)) :
    sources.Sound strict file expr := by
  apply sound_of_pieces read (Spot.form_ne_reference spot quote text)
  · intro use part piece
    exact around.piece between isLiteral read piece
  · intro parts same
    exact around.readable between isLiteral same

end Around

end Literal

end Sources

end Conform
