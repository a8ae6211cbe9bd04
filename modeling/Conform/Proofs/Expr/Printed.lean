import Conform.Expr.Shape
import Conform.Proofs.Expr.Scan

/-! Members of records as they are printed, and what they are read as. -/

namespace Conform

namespace Text

theorem isWord_of_isBlank {c : Char} (blank : isBlank c) : isWord c = false := by
  have codes : ∀ code ∈ [9, 10, 11, 12, 13, 0x20, 0x85, 0xA0, 0x1680, 0x2000, 0x2001, 0x2002, 0x2003,
      0x2004, 0x2005, 0x2006, 0x2007, 0x2008, 0x2009, 0x200A, 0x2028, 0x2029, 0x202F, 0x205F, 0x3000],
      isWord (Char.ofNat code) = false := by decide +kernel
  have among : c.toNat ∈ [9, 10, 11, 12, 13, 0x20, 0x85, 0xA0, 0x1680, 0x2000, 0x2001, 0x2002, 0x2003,
      0x2004, 0x2005, 0x2006, 0x2007, 0x2008, 0x2009, 0x200A, 0x2028, 0x2029, 0x202F, 0x205F,
      0x3000] := by
    simp only [isBlank, Bool.or_eq_true, Bool.and_eq_true, decide_eq_true_eq, beq_iff_eq] at blank
    simp only [List.mem_cons, List.not_mem_nil, or_false]
    omega
  simpa using codes _ among

variable {c : Char} {name : List Char}

theorem isBlank_of_isNamePart (part : isNamePart c) : isBlank c = false := by
  by_contra blank
  have word := isWord_of_isBlank (by simpa using blank)
  have dollar : c = '$' := by simpa [isNamePart, word] using part
  subst dollar
  exact blank rfl

theorem isNamePart_of_isNameStart (start : isNameStart c) : isNamePart c := by
  simp only [isNameStart, Bool.or_eq_true, beq_iff_eq] at start
  rcases start with (letter | rfl) | rfl
  · have ascii : c.toNat < 128 := by
      rcases Bool.or_eq_true_iff.mp (show (c.isUpper || c.isLower) = true from letter) with
        upper | lower
      · have last : c.val ≤ 'Z'.val := (of_decide_eq_true upper).2
        exact Nat.lt_of_le_of_lt last (by decide)
      · have last : c.val ≤ 'z'.val := of_decide_eq_true (Bool.and_eq_true_iff.mp lower).2
        exact Nat.lt_of_le_of_lt last (by decide)
    have alphanumeric : c.isAlphanum := Bool.or_eq_true_iff.mpr (.inl letter)
    simp [isNamePart, isWord, ascii, alphanumeric]
  · decide
  · decide

theorem isPlain_of_isNamePart (part : isNamePart c) : isPlain c := by
  by_contra mark
  simp only [isPlain, decide_eq_true_eq, Decidable.not_not] at mark
  have none_ : ['\'', '"', '\x60', '/', '\n', '(', ')', '{', '}', '<', '>', '[', ']'].all
      fun d => !isNamePart d := by decide
  have other := List.all_eq_true.mp none_ c mark
  simp [part] at other

theorem ne_of_isNamePart {d : Char} (part : isNamePart c) (other : isNamePart d = false) : c ≠ d := by
  rintro rfl
  simp [part] at other

theorem isNamePart_of_isName (named : isName name) : ∀ c ∈ name, isNamePart c := by
  cases name with
  | nil => simp
  | cons c rest =>
      simp only [isName, Bool.and_eq_true, List.all_eq_true] at named
      simpa [isNamePart_of_isNameStart named.1] using named.2

theorem after?_eq_some {start text rest : List Char} :
    after? start text = some rest ↔ text = start ++ rest := by
  induction start generalizing text with
  | nil => simp [after?, eq_comm]
  | cons c start ih =>
      cases text with
      | nil => simp [after?]
      | cons d text =>
          by_cases same : c = d
          · simp [after?, same, ih]
          · simp [after?, same, Ne.symm same]

theorem takeWhile_name {c : Char} {name rest : List Char} (parts : ∀ c ∈ name, isNamePart c)
    (stop : isNamePart c = false) : (name ++ c :: rest).takeWhile isNamePart = name := by
  rw [List.takeWhile_append_of_pos parts]
  simp [stop]

theorem dropWhile_name {c : Char} {name rest : List Char} (parts : ∀ c ∈ name, isNamePart c)
    (stop : isNamePart c = false) : (name ++ c :: rest).dropWhile isNamePart = c :: rest := by
  rw [List.dropWhile_append_of_pos parts]
  simp [stop]

end Text

namespace Expr

open Text

theorem afterReadonly?_name {c : Char} {name rest : List Char} (parts : ∀ c ∈ name, isNamePart c)
    (stop : isNamePart c = false) (visible : isBlank c = false) :
    afterReadonly? (name ++ c :: rest) = none := by
  unfold afterReadonly?
  cases found : after? "readonly".toList (name ++ c :: rest) with
  | none => rfl
  | some left =>
      have head : ∀ d ∈ left.head?, isBlank d = false := by
        rcases List.append_eq_append_iff.mp (after?_eq_some.mp found) with
          ⟨more, same, rest'⟩ | ⟨more, same, rest'⟩
        · cases more with
          | nil =>
              subst rest'
              simpa using visible
          | cons d more =>
              cases rest'
              have member : c ∈ "readonly".toList := by simp [same]
              have word : "readonly".toList.all isNamePart := by decide
              simp [List.all_eq_true.mp word c member] at stop
        · cases more with
          | nil =>
              cases rest'
              simpa using visible
          | cons d more =>
              subst same rest'
              simpa using isBlank_of_isNamePart (parts d (by simp))
      cases left with
      | nil => rfl
      | cons d left => simp [head d (by simp)]

def fieldText (name : List Char) (optional : Bool) (type : List Char) : List Char :=
  name ++ ((if optional then ['?', ':'] else [':']) ++ ' ' :: type)

def indexText (type : List Char) : List Char :=
  '[' :: (['k', 'e', 'y'] ++ ':' :: ([' ', 's', 't', 'r', 'i', 'n', 'g', ']', ':'] ++ ' ' :: type))

theorem annotation?_colon {type : List Char} {allowed : Char → Prop} (item : Item allowed type)
    (optional : Bool) :
    annotation? ((if optional then ['?', ':'] else [':']) ++ ' ' :: type) = some (optional, type) := by
  have start : trimStart (' ' :: type) = type := by
    simpa [trimStart, isBlank] using trimStart_eq item.tidy.starts
  have question : isBlank '?' = false := by decide
  have colon : isBlank ':' = false := by decide
  cases optional <;>
    simp [annotation?, trimStart_cons question, trimStart_cons colon, after?, start, item.some_]

theorem member?_field {name type : List Char} {allowed : Char → Prop} (named : isName name)
    (item : Item allowed type) (optional : Bool) :
    member? (fieldText name optional type) = some (.field name optional type) := by
  have parts := isNamePart_of_isName named
  obtain ⟨c, rest, shape, stop, visible⟩ : ∃ c rest,
      (if optional then ['?', ':'] else [':']) ++ ' ' :: type = c :: rest ∧
        isNamePart c = false ∧ isBlank c = false := by
    cases optional
    · exact ⟨':', ' ' :: type, rfl, by decide, by decide⟩
    · exact ⟨'?', ':' :: ' ' :: type, rfl, by decide, by decide⟩
  have annotation := annotation?_colon item optional
  have modifier : afterReadonly? (name ++ c :: rest) = none := afterReadonly?_name parts stop visible
  unfold fieldText
  rw [shape] at annotation ⊢
  cases name with
  | nil => simp [isName] at named
  | cons first name =>
      simp only [isName, Bool.and_eq_true] at named
      have bracket : first ≠ '[' := ne_of_isNamePart (parts first (by simp)) (by decide)
      have tail : ∀ d ∈ name, isNamePart d := fun d member => parts d (by simp [member])
      have read : fieldName? (first :: name ++ c :: rest) = some (first :: name, c :: rest) := by
        simp [fieldName?, named.1, takeWhile_name tail stop, dropWhile_name tail stop]
      have plain : plainIndex? (first :: name ++ c :: rest) = none := by
        simp [plainIndex?, after?, Ne.symm bracket]
      simp only [member?, index?, field?, modifier, Option.getD_none, plain, Option.bind_none,
        plainField?, read, Option.bind_eq_bind, Option.bind_some, annotation, Option.pure_def]

theorem member?_index {type : List Char} {allowed : Char → Prop} (item : Item allowed type) :
    member? (indexText type) = some (.index type) := by
  have annotation : annotation? (':' :: ' ' :: type) = some (false, type) :=
    annotation?_colon item false
  have modifier : afterReadonly? (indexText type) = none := rfl
  have parts : ∀ c ∈ ['k', 'e', 'y'], isNamePart c := List.all_eq_true.mp (by decide)
  have stop : isNamePart ':' = false := by decide
  have key : plainIndex? (indexText type) = some (.index type) := by
    have visible {rest : List Char} : trimStart (['k', 'e', 'y'] ++ rest) = ['k', 'e', 'y'] ++ rest :=
      trimStart_cons (by decide) _
    have colon : isBlank ':' = false := by decide
    simp only [plainIndex?, indexText, after?, if_true, Option.bind_eq_bind, Option.bind_some, visible,
      takeWhile_name parts stop, dropWhile_name parts stop, trimStart_cons colon]
    simp [after?, annotation]
  simp [member?, index?, modifier, key]

section Items

variable {text rest : List Char} {allowed : Char → Prop}

theorem Item.append (item : Item allowed text) (item' : Item allowed rest) :
    Item allowed (text ++ rest) :=
  ⟨item.woven.append item'.woven, item.tidy.append item'.tidy, by simp [item.some_]⟩

theorem Item.mono {other : Char → Prop} (item : Item allowed text)
    (weaker : ∀ c, allowed c → other c) : Item other text :=
  ⟨item.woven.mono weaker, item.tidy, item.some_⟩

theorem Item.append_space (item : Item allowed text) (item' : Item allowed rest)
    (space : allowed ' ') : Item allowed (text ++ ' ' :: rest) where
  woven := item.woven.append (.char (by decide) space item'.woven)
  tidy := item.tidy.append_space item'.tidy item.some_ item'.some_
  some_ := by simp

theorem Item.of_plain [DecidablePred allowed]
    (plain : text.all fun c => isPlain c && decide (allowed c))
    (visible : text.all fun c => !isBlank c) (some_ : text ≠ []) : Item allowed text :=
  ⟨.of_plain plain, .of_visible visible, some_⟩

instance (c : Char) : Decidable (IsInner c) :=
  inferInstanceAs (Decidable (Connective.ofChar? c = none))

instance (c : Char) : Decidable (IsMemberPart c) :=
  inferInstanceAs (Decidable (c ≠ ';' ∧ c ≠ ','))

theorem Item.field {name type : List Char} (named : isName name) (item : Item IsMemberPart type)
    (optional : Bool) : Item IsMemberPart (fieldText name optional type) := by
  have parts := isNamePart_of_isName named
  have some_ : name ≠ [] := by
    rintro rfl
    simp [isName] at named
  have head : Item IsMemberPart name := by
    refine .of_plain (List.all_eq_true.mpr fun c member => ?_)
      (List.all_eq_true.mpr fun c member => ?_) some_
    · have part : IsMemberPart c := ⟨ne_of_isNamePart (parts c member) (by decide),
        ne_of_isNamePart (parts c member) (by decide)⟩
      simp [isPlain_of_isNamePart (parts c member), part]
    · simp [isBlank_of_isNamePart (parts c member)]
  have mark : Item IsMemberPart (if optional then ['?', ':'] else [':']) := by
    cases optional <;> exact .of_plain (by decide) (by decide) (by decide)
  unfold fieldText
  rw [← List.append_assoc]
  exact (head.append mark).append_space item (by decide)

theorem Item.index {type : List Char} (item : Item IsMemberPart type) :
    Item IsMemberPart (indexText type) where
  woven := by
    have inside : Woven IsMemberPart ['k', 'e', 'y', ':', ' ', 's', 't', 'r', 'i', 'n', 'g'] :=
      .of_plain (by decide)
    exact .square inside (.char (by decide) (by decide) (.char (by decide) (by decide) item.woven))
  tidy := by
    have key : Tidy ['[', 'k', 'e', 'y', ':'] := .of_visible (by decide)
    have type : Tidy ['s', 't', 'r', 'i', 'n', 'g', ']', ':'] := .of_visible (by decide)
    exact key.append_space (type.append_space item.tidy (by simp) item.some_) (by simp) (by simp)
  some_ := by simp [indexText]

theorem Item.intercalate {separator : List Char}
    (glue : ∀ text rest, Item allowed text → Item allowed rest → Item allowed (text ++ separator ++ rest))
    (first : List Char) (rest : List (List Char)) (each : ∀ item ∈ first :: rest, Item allowed item) :
    Item allowed (separator.intercalate (first :: rest)) := by
  induction rest generalizing first with
  | nil =>
      rw [List.intercalate_singleton]
      exact each first (by simp)
  | cons second rest ih =>
      rw [List.intercalate_cons_cons]
      exact glue _ _ (each first (by simp)) (ih second fun item among =>
        each item (List.mem_cons_of_mem _ among))

end Items

structure Printed (allowed : Char → Prop) (text : List Char) : Prop extends Item allowed text where
  closes : FirstCloses text
  leads : ∀ c ∈ text.head?, IsInner c

section Bare

variable {text : List Char} {allowed : Char → Prop}

theorem stripComments_eq (woven : Woven allowed text) (tidy : Tidy text) :
    stripComments text = text := by
  have returns : text.filter (· != '\r') = text := by
    refine List.filter_eq_self.mpr fun c member => ?_
    simpa using (tidy.flat c member).2.1
  unfold stripComments
  rw [woven.withoutComments_eq, returns, tidy.squeezeBreaks_eq, tidy.squeezeSpaces_eq, tidy.trim_eq]

theorem bare_of_trimParens {expr : List Char} (trimmed : trimParens expr = text)
    (leads : ∀ c ∈ text.head?, IsInner c) : bare expr = text := by
  unfold bare
  split
  · simp_all
  · rename_i c rest found
    have same := trimmed.symm.trans found
    subst same
    have inner : Connective.ofChar? c = none := leads c (by simp)
    have none_ : ¬(c = '|' ∨ c = '&') := by
      rintro (rfl | rfl) <;> simp [Connective.ofChar?] at inner
    rw [if_neg none_]

theorem Printed.trimParens_eq (printed : Printed allowed text) : trimParens text = text := by
  unfold trimParens
  rw [printed.tidy.trim_eq]
  split
  · rename_i found
    simp [printed.closes.wrapped?] at found
  · rfl

theorem Printed.bare_eq (printed : Printed allowed text) : bare (stripComments text) = text := by
  rw [stripComments_eq printed.woven printed.tidy]
  exact bare_of_trimParens printed.trimParens_eq printed.leads

def parens (text : List Char) : List Char :=
  '(' :: (text ++ [')'])

theorem Item.parens {other : Char → Prop} (item : Item allowed text) : Item other (parens text) where
  woven := .parens (item.woven.mono fun _ _ => trivial)
  tidy := by
    have opening : Tidy ['('] := .of_visible (by decide)
    have closing : Tidy [')'] := .of_visible (by decide)
    exact opening.append (item.tidy.append closing)
  some_ := by simp [Expr.parens]

theorem Printed.bare_parens (printed : Printed allowed text) :
    bare (stripComments (parens text)) = text := by
  have item : Item allowed (parens text) := printed.toItem.parens
  rw [stripComments_eq item.woven item.tidy]
  refine bare_of_trimParens ?_ printed.leads
  have wrapped : wrapped? (parens text) = some text :=
    (printed.woven.mono fun _ _ => trivial).wrapped?_parens
  unfold trimParens
  rw [item.tidy.trim_eq]
  split
  · rename_i found
    rw [wrapped] at found
    cases found
    exact printed.trimParens_eq
  · simp_all

end Bare

def IsOperandPart (c : Char) : Prop :=
  IsInner c ∧ IsMemberPart c

instance (c : Char) : Decidable (IsOperandPart c) :=
  inferInstanceAs (Decidable (IsInner c ∧ IsMemberPart c))

structure Operand (text : List Char) : Prop extends Item IsOperandPart text where
  closes : ∀ rest, rest ≠ [] → FirstCloses (text ++ rest)
  leads : ∀ c ∈ text.head?, IsInner c

section Operands

variable {text : List Char} {allowed : Char → Prop}

theorem Printed.mono {other : Char → Prop} (printed : Printed allowed text)
    (weaker : ∀ c, allowed c → other c) : Printed other text :=
  ⟨printed.toItem.mono weaker, printed.closes, printed.leads⟩

theorem Printed.operand (printed : Printed IsOperandPart text) : Operand text :=
  ⟨printed.toItem, fun rest _ => printed.closes.append printed.some_ rest, printed.leads⟩

theorem Printed.operand_parens (printed : Printed allowed text) : Operand (parens text) where
  toItem := printed.toItem.parens
  closes _ some_ := .parens_append (printed.woven.mono fun _ _ => trivial) some_
  leads c head := by
    cases head
    decide

theorem printed_literal {quote : Char} (opens : isQuote quote)
    (open_ : ∀ c ∈ text, c ≠ quote ∧ c ≠ '\n') (flat : ∀ c ∈ text, c ≠ '\n' ∧ c ≠ '\r' ∧ c ≠ '\t')
    (single : text.IsChain fun c d => ¬(c = ' ' ∧ d = ' ')) :
    Printed IsOperandPart (quote :: (text ++ [quote])) := by
  have mark : isBlank quote = false ∧ quote ≠ ' ' ∧ quote ≠ '(' ∧ IsInner quote ∧
      quote ≠ '\n' ∧ quote ≠ '\r' ∧ quote ≠ '\t' := by
    rcases isQuote_cases opens with rfl | rfl <;> decide
  obtain ⟨visible, space, paren, inner, notFlat⟩ := mark
  refine ⟨⟨.of_literal opens open_, ?_, by simp⟩, .inl (by simp [paren]), by simpa using inner⟩
  refine ⟨?_, ?_, by simpa using visible, ?_⟩
  · intro c member
    rcases List.mem_cons.mp member with rfl | member
    · exact notFlat
    · rcases List.mem_append.mp member with inside | last
      · exact flat c inside
      · rw [List.mem_singleton.mp last]
        exact notFlat
  · refine List.isChain_cons.mpr ⟨fun c _ spaces => space spaces.1, ?_⟩
    refine List.isChain_append.mpr ⟨single, .singleton _, fun c _ d last spaces => ?_⟩
    cases last
    exact space spaces.2
  · rw [← List.cons_append, List.getLast?_concat]
    simpa using visible

theorem printed_word (plain : text.all fun c => isPlain c && decide (IsOperandPart c))
    (visible : text.all fun c => !isBlank c) (some_ : text ≠ []) : Printed IsOperandPart text where
  toItem := .of_plain plain visible some_
  closes := by
    refine .inl ?_
    rintro rest rfl
    have paren : isPlain '(' = false := by decide
    simp [paren] at plain
  leads c head := by
    have part := List.all_eq_true.mp plain c (List.mem_of_mem_head? head)
    simp only [Bool.and_eq_true, decide_eq_true_eq] at part
    exact part.2.1

theorem Operand.leads_append (operand : Operand text) (rest : List Char) :
    ∀ c ∈ (text ++ rest).head?, IsInner c := by
  intro c head
  refine operand.leads c ?_
  cases text with
  | nil => exact absurd rfl operand.some_
  | cons d text => simpa using head

theorem Operand.array (operand : Operand text) : Printed IsOperandPart (text ++ ['[', ']']) where
  toItem := by
    have brackets : Woven IsOperandPart ('[' :: ([] ++ [']'])) := .square .nil .nil
    exact operand.toItem.append ⟨brackets, .of_visible (by decide), by simp⟩
  closes := operand.closes _ (by simp)
  leads := operand.leads_append _

theorem printed_joined (connective : Connective) (first second : List Char) (rest : List (List Char))
    (each : ∀ operand ∈ first :: second :: rest, Operand operand) :
    Printed IsMemberPart (joined connective (first :: second :: rest)) where
  toItem := by
    have symbol : Item IsMemberPart [connective.symbol] := by
      cases connective <;> exact .of_plain (by decide) (by decide) (by decide)
    refine .intercalate (fun text rest item item' => ?_) _ _ fun operand among =>
      (each operand among).toItem.mono fun _ part => part.2
    have glued := item.append_space (symbol.append_space item' (by decide)) (by decide)
    simpa using glued
  closes := by
    unfold joined
    rw [List.intercalate_cons_cons, List.append_assoc]
    exact (each first (by simp)).closes _ (by simp)
  leads := by
    unfold joined
    rw [List.intercalate_cons_cons, List.append_assoc]
    exact (each first (by simp)).leads_append _

def bodyText : List (List Char) → List Char
  | [] => []
  | first :: rest => ' ' :: ([';', ' '].intercalate (first :: rest) ++ [' '])

theorem members_bodyText {texts : List (List Char)}
    (each : ∀ member ∈ texts, Item IsMemberPart member) : members (bodyText texts) = texts := by
  cases texts with
  | nil => rfl
  | cons first rest => exact members_joined first rest each

theorem printed_braces {texts : List (List Char)}
    (each : ∀ member ∈ texts, Item IsMemberPart member) :
    Printed IsOperandPart ('{' :: (bodyText texts ++ ['}'])) where
  toItem := by
    cases texts with
    | nil => exact ⟨.braces .nil, .of_visible (by decide), by simp⟩
    | cons first rest =>
        have inside : Item (fun _ => True) ([';', ' '].intercalate (first :: rest)) := by
          refine .intercalate (fun text rest item item' => ?_) _ _ fun member among =>
            (each member among).mono fun _ _ => trivial
          have separator : Item (fun _ => True) [';'] := .of_plain (by decide) (by decide) (by decide)
          have glued := (item.append separator).append_space item' trivial
          simpa using glued
        have spaced : Woven (fun _ => True) (bodyText (first :: rest)) :=
          .char (by decide) trivial (inside.woven.append (.char (by decide) trivial .nil))
        have opening : Tidy ['{'] := .of_visible (by decide)
        have closing : Tidy ['}'] := .of_visible (by decide)
        have tidy := opening.append_space
          (inside.tidy.append_space closing inside.some_ (by simp)) (by simp) (by simp)
        exact ⟨.braces spaced, by simpa [bodyText] using tidy, by simp⟩
  closes := .inl (by simp)
  leads c head := by
    cases head
    decide

end Operands

end Expr

end Conform
