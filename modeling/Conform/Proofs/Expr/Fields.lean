import Conform.Proofs.Expr.Members

/-!
Record types with a field whose type is a literal, inline or as the definition of an interface. The
record has that field, with the literal as its type, between the members before and after.
-/

namespace Conform

open Conform.Text Conform.Expr

namespace Expr

inductive IsHeader : List Char → Option (List Char) → Option (List Char) → Prop where
  | inline : IsHeader [] none none
  | interface {gap name gap' : List Char} (some_ : gap ≠ []) (blank : ∀ c ∈ gap ++ gap', isBlank c)
      (named : name ≠ []) (parts : ∀ c ∈ name, isNamePart c) :
      IsHeader ("interface".toList ++ (gap ++ (name ++ gap'))) (some name) none
  | extending {gap name gap' between parent gap'' : List Char} (some_ : gap ≠ [] ∧ gap' ≠ [] ∧ between ≠ [])
      (blank : ∀ c ∈ gap ++ gap' ++ between ++ gap'', isBlank c) (named : name ≠ [] ∧ parent ≠ [])
      (parts : ∀ c ∈ name, isNamePart c) (parts' : ∀ c ∈ parent, isNamePart c || c == '.') :
      IsHeader ("interface".toList ++ (gap ++ (name ++ (gap' ++
        ("extends".toList ++ (between ++ (parent ++ gap'')))))) ) (some name) (some parent)

section Header

variable {header body : List Char} {name parent : Option (List Char)}

theorem head?_run {test : Char → Prop} {run rest : List Char} (each : ∀ c ∈ run, test c)
    (next : ∀ c ∈ rest.head?, test c) : ∀ c ∈ (run ++ rest).head?, test c := by
  intro c head
  cases run with
  | nil => exact next c head
  | cons d run =>
      cases head
      exact each c (by simp)

theorem head?_run_of_ne_nil {test : Char → Prop} {run : List Char} (some_ : run ≠ [])
    (each : ∀ c ∈ run, test c) (rest : List Char) : ∃ c, (run ++ rest).head? = some c ∧ test c := by
  cases run with
  | nil => exact absurd rfl some_
  | cons c run => exact ⟨c, rfl, each c (by simp)⟩

theorem span_append {test : Char → Bool} {run : List Char} (passes : ∀ c ∈ run, test c) {rest : List Char}
    (stops : ∀ c ∈ rest.head?, test c = false) :
    (run ++ rest).takeWhile test = run ∧ (run ++ rest).dropWhile test = rest := by
  rw [List.takeWhile_append_of_pos passes, List.dropWhile_append_of_pos passes]
  cases rest with
  | nil => simp
  | cons c rest => simp [stops c rfl]

theorem word_after_blank {gap word rest : List Char} {test : Char → Bool} (blank : ∀ c ∈ gap, isBlank c)
    (some_ : word ≠ []) (each : ∀ c ∈ word, test c) (visible : ∀ c, test c → isBlank c = false)
    (stops : ∀ c ∈ rest.head?, test c = false) :
    trimStart (gap ++ (word ++ rest)) = word ++ rest ∧ (word ++ rest).takeWhile test = word ∧
      (word ++ rest).dropWhile test = rest ∧ word.isEmpty = false := by
  obtain ⟨c, head, first⟩ := head?_run_of_ne_nil some_ each rest
  have start : trimStart (gap ++ (word ++ rest)) = word ++ rest := by
    refine (span_append blank fun d head' => ?_).2
    rw [head] at head'
    cases head'
    exact visible c first
  obtain ⟨own, beyond⟩ := span_append each stops
  exact ⟨start, own, beyond, by simpa using some_⟩

theorem visible_of_isParentPart (c : Char) (part : isNamePart c || c == '.') : isBlank c = false := by
  rcases (Bool.or_eq_true _ _).mp part with word | dot
  · exact isBlank_of_isNamePart word
  · rw [beq_iff_eq.mp dot]
    rfl

theorem not_isParentPart_of_isBlank {c : Char} (blank : isBlank c) :
    (isNamePart c || c == '.') = false := by
  by_contra part
  simp [visible_of_isParentPart c (eq_true_of_ne_false part)] at blank

theorem not_isNamePart_of_isBlank {c : Char} (blank : isBlank c) : isNamePart c = false :=
  ((Bool.or_eq_false_iff).mp (not_isParentPart_of_isBlank blank)).1

theorem bracedBody?_braces (body : List Char) : bracedBody? ('{' :: (body ++ ['}'])) = some body := by
  simp [bracedBody?]

theorem extension?_append {between parent gap : List Char} (some_ : between ≠ [])
    (blank : ∀ c ∈ between ++ gap, isBlank c) (named : parent ≠ [])
    (parts : ∀ c ∈ parent, isNamePart c || c == '.') (body : List Char) :
    extension? ("extends".toList ++ (between ++ (parent ++ (gap ++ '{' :: (body ++ ['}']))))) =
      some (parent, body) := by
  have blankBetween : ∀ c ∈ between, isBlank c := fun c member => blank c (by simp [member])
  have blankGap : ∀ c ∈ gap, isBlank c := fun c member => blank c (by simp [member])
  have stops : ∀ c ∈ (gap ++ '{' :: (body ++ ['}'])).head?, (isNamePart c || c == '.') = false :=
    head?_run (fun c member => not_isParentPart_of_isBlank (blankGap c member)) fun c head => by
      cases head
      decide
  obtain ⟨c, head, first⟩ := head?_run_of_ne_nil some_ blankBetween
    (parent ++ (gap ++ '{' :: (body ++ ['}'])))
  obtain ⟨start, own, beyond, some'⟩ := word_after_blank blankBetween named parts visible_of_isParentPart stops
  have brace : trimStart (gap ++ '{' :: (body ++ ['}'])) = '{' :: (body ++ ['}']) :=
    trimStart_blank_cons blankGap (by decide) _
  simp only [extension?, after?_eq_some.mpr rfl, Option.bind_eq_bind, Option.bind_some, head, first,
    start, own, beyond, brace, bracedBody?_braces, some']
  rfl

section Interface

variable {gap name rest : List Char} (some_ : gap ≠ []) (blank : ∀ c ∈ gap, isBlank c)
  (named : name ≠ []) (parts : ∀ c ∈ name, isNamePart c)
  (stops : ∀ c ∈ rest.head?, isNamePart c = false)

include some_ blank named parts stops

theorem interfaceParts?_extending {parent : List Char}
    (found : extension? (trimStart rest) = some (parent, body)) :
    interfaceParts? (gap ++ (name ++ rest)) = some ⟨some name, some parent, body⟩ := by
  obtain ⟨c, head, first⟩ := head?_run_of_ne_nil some_ blank (name ++ rest)
  obtain ⟨start, own, beyond, some'⟩ :=
    word_after_blank blank named parts (fun _ => isBlank_of_isNamePart) stops
  simp only [interfaceParts?, Option.bind_eq_bind, Option.bind_some, head, first, start, own, beyond,
    some', found]
  rfl

theorem interfaceParts?_alone (none_ : extension? (trimStart rest) = none)
    (found : bracedBody? (trimStart rest) = some body) :
    interfaceParts? (gap ++ (name ++ rest)) = some ⟨some name, none, body⟩ := by
  obtain ⟨c, head, first⟩ := head?_run_of_ne_nil some_ blank (name ++ rest)
  obtain ⟨start, own, beyond, some'⟩ :=
    word_after_blank blank named parts (fun _ => isBlank_of_isNamePart) stops
  simp only [interfaceParts?, Option.bind_eq_bind, Option.bind_some, head, first, start, own, beyond,
    some', none_, found]
  rfl

end Interface

theorem recordParts?_header (isHeader : IsHeader header name parent) (body : List Char) :
    recordParts? (header ++ '{' :: (body ++ ['}'])) = some ⟨name, parent, body⟩ := by
  cases isHeader with
  | inline => exact recordParts?_braces body
  | @interface gap name gap' some_ blank named parts =>
      have blankGap : ∀ c ∈ gap, isBlank c := fun c member => blank c (by simp [member])
      have blankGap' : ∀ c ∈ gap', isBlank c := fun c member => blank c (by simp [member])
      have brace : trimStart (gap' ++ '{' :: (body ++ ['}'])) = '{' :: (body ++ ['}']) :=
        trimStart_blank_cons blankGap' (by decide) _
      have stops : ∀ c ∈ (gap' ++ '{' :: (body ++ ['}'])).head?, isNamePart c = false :=
        head?_run (fun c member => not_isNamePart_of_isBlank (blankGap' c member)) fun c head => by
          cases head
          decide
      have found := interfaceParts?_alone some_ blankGap named parts stops (by rw [brace]; rfl)
        (by rw [brace]; exact bracedBody?_braces body)
      simp only [List.append_assoc]
      rw [recordParts?, after?_eq_some.mpr rfl, Option.bind_some, found]
  | @extending gap name gap' between parent gap'' some_ blank named parts parts' =>
      have blankGap : ∀ c ∈ gap, isBlank c := fun c member => blank c (by simp [member])
      have blankGap' : ∀ c ∈ gap', isBlank c := fun c member => blank c (by simp [member])
      have blankRest : ∀ c ∈ between ++ gap'', isBlank c := fun c member => blank c (by
        rcases List.mem_append.mp member with inside | inside <;> simp [inside])
      have start : trimStart (gap' ++ ("extends".toList ++ (between ++ (parent ++
          (gap'' ++ '{' :: (body ++ ['}'])))))) =
          "extends".toList ++ (between ++ (parent ++ (gap'' ++ '{' :: (body ++ ['}'])))) :=
        trimStart_blank_cons blankGap' (by decide) _
      have extends_ := extension?_append some_.2.2 blankRest named.2 parts' body
      obtain ⟨c, head, first⟩ := head?_run_of_ne_nil some_.2.1 blankGap' ("extends".toList ++
        (between ++ (parent ++ (gap'' ++ '{' :: (body ++ ['}'])))))
      have stops : ∀ d ∈ (gap' ++ ("extends".toList ++ (between ++ (parent ++
          (gap'' ++ '{' :: (body ++ ['}'])))))).head?, isNamePart d = false := by
        intro d head'
        rw [head] at head'
        cases head'
        exact not_isNamePart_of_isBlank first
      have found := interfaceParts?_extending some_.1 blankGap named.1 parts stops
        (by rw [start]; exact extends_)
      simp only [List.append_assoc]
      rw [recordParts?, after?_eq_some.mpr rfl, Option.bind_some, found]

end Header

def Inert (c : Char) : Prop :=
  isQuote c = false ∧ isOperator c = false ∧ ∀ nesting : Nesting, nesting.after? c = some nesting

section Inert

variable {c : Char}

theorem inert_of_isNamePart (part : isNamePart c) : Inert c := by
  refine ⟨?_, ?_, fun nesting => Nesting.after?_plain (isPlain_of_isNamePart part) nesting⟩
  · by_contra opens
    rcases isQuote_cases (eq_true_of_ne_false opens) with rfl | rfl <;> cases part
  · by_contra operator
    rcases isOperator_iff.mp (eq_true_of_ne_false operator) with rfl | rfl <;> cases part

theorem inert_of_isBlank (blank : isBlank c) : Inert c := by
  refine ⟨?_, isOperator_of_isBlank blank, fun nesting => Nesting.after?_blank nesting blank⟩
  by_contra opens
  simp [isBlank_of_isQuote (eq_true_of_ne_false opens)] at blank

theorem inert_mark (mark : c = '.' ∨ c = '?' ∨ c = ':') : Inert c := by
  rcases mark with rfl | rfl | rfl <;> exact ⟨rfl, rfl, fun _ => rfl⟩

theorem Segment.inert {text : List Char} (each : ∀ c ∈ text, Inert c) : Segment text where
  balanced := by
    induction text with
    | nil => rfl
    | cons c text ih =>
        obtain ⟨⟨unquoted, _, flat⟩, others⟩ := List.forall_mem_cons.mp each
        have step : ({} : Context).after? c = some {} := by
          simp [Context.after?, unquoted, flat]
        rw [IsOutside, Context.through?_cons, step]
        exact ih others
  uncut := uncut_of_inner fun c member => (each c member).2.1

end Inert

section Record

variable {header front label tail text named colon : List Char} {name parent : Option (List Char)}
  {field : List Char} {optional : Bool} {quote : Char}

theorem IsHeader.inert (isHeader : IsHeader header name parent) : ∀ c ∈ header, Inert c := by
  have word {keyword : List Char} (letters : keyword.all isNamePart) : ∀ c ∈ keyword, Inert c :=
    fun c member => inert_of_isNamePart (List.all_eq_true.mp letters c member)
  cases isHeader with
  | inline => simp
  | interface _ blank _ parts =>
      intro c member
      simp only [List.mem_append] at member
      rcases member with keyword | inside | inside | inside
      · exact word (by decide) c keyword
      · exact inert_of_isBlank (blank c (by simp [inside]))
      · exact inert_of_isNamePart (parts c inside)
      · exact inert_of_isBlank (blank c (by simp [inside]))
  | extending _ blank _ parts parts' =>
      intro c member
      simp only [List.mem_append] at member
      rcases member with keyword | inside | inside | inside | keyword | inside | inside | inside
      · exact word (by decide) c keyword
      · exact inert_of_isBlank (blank c (by simp [inside]))
      · exact inert_of_isNamePart (parts c inside)
      · exact inert_of_isBlank (blank c (by simp [inside]))
      · exact word (by decide) c keyword
      · exact inert_of_isBlank (blank c (by simp [inside]))
      · rcases (Bool.or_eq_true _ _).mp (parts' c inside) with part | dot
        · exact inert_of_isNamePart part
        · exact inert_mark (.inl (beq_iff_eq.mp dot))
      · exact inert_of_isBlank (blank c (by simp [inside]))

theorem IsHeader.begins (isHeader : IsHeader header name parent) (rest : List Char) :
    ∃ c more, header ++ '{' :: rest = c :: more ∧ (c = '{' ∨ c = 'i') := by
  cases isHeader with
  | inline => exact ⟨'{', rest, rfl, .inl rfl⟩
  | interface => exact ⟨'i', _, rfl, .inr rfl⟩
  | extending => exact ⟨'i', _, rfl, .inr rfl⟩

theorem IsColon.segment (isColon : IsColon colon optional) : Segment colon := by
  refine .inert fun c member => ?_
  cases isColon with
  | required sameLine blank =>
      simp only [List.mem_append, List.mem_cons] at member
      rcases member with inside | rfl | inside
      · exact inert_of_isBlank (sameLine c inside).1
      · exact inert_mark (.inr (.inr rfl))
      · exact inert_of_isBlank (blank c inside)
  | optional sameLine blank =>
      simp only [List.mem_append, List.mem_cons] at member
      rcases member with inside | rfl | inside | rfl | inside
      · exact inert_of_isBlank (sameLine c (by simp [inside])).1
      · exact inert_mark (.inr (.inl rfl))
      · exact inert_of_isBlank (sameLine c (by simp [inside])).1
      · exact inert_mark (.inr (.inr rfl))
      · exact inert_of_isBlank (blank c inside)

theorem IsFieldName.segment (isName : IsFieldName named field) : Segment named := by
  cases isName with
  | word isName => exact .inert fun c member => inert_of_isNamePart (isNamePart_of_isName isName c member)
  | quoted isLiteral => exact .literal isLiteral

theorem IsLabel.segment (isLabel : IsLabel label field optional) : Segment label := by
  cases isLabel with
  | plain isName isColon => exact isName.segment.append isColon.segment
  | readonly _ sameLine isName isColon =>
      have word : Segment "readonly".toList := ⟨by decide, uncut_of_all (by decide)⟩
      have gap := Segment.blank fun c member => (sameLine c member).1
      exact (word.append gap).append (isName.segment.append isColon.segment)

structure IsField (front label field : List Char) (optional : Bool) (tail : List Char) : Prop where
  /-- A member may begin after `front`. -/
  closed : ({} : MemberScan).through front = {}
  balanced : IsOutside front
  isLabel : IsLabel label field optional
  ends : EndsField tail
  balanced' : IsOutside tail

section Literal

variable (isField : IsField front label field optional tail) (isLiteral : IsLiteral quote text)

include isField isLiteral

theorem IsField.members : members (front ++ label ++ literal quote text ++ tail) =
    members front ++ (label ++ literal quote text) :: members tail := by
  have begins : BeginsMember (label ++ literal quote text ++ tail) := by
    obtain ⟨c, rest, rfl, visible, inner⟩ := isField.isLabel.begins
    exact ⟨c, _, rfl, visible, inner⟩
  have whole : front ++ label ++ literal quote text ++ tail =
      front ++ (label ++ literal quote text ++ tail) := by
    simp
  rw [whole, members_append isField.closed begins, members_field isField.isLabel isLiteral isField.ends]

theorem IsField.member? : member? (label ++ literal quote text) =
    some (.field field optional (literal quote text)) :=
  member?_label isField.isLabel isLiteral.visible _

theorem IsField.isOutside : IsOutside (front ++ label ++ literal quote text ++ tail) := by
  have inner := isField.isLabel.segment.append (.literal isLiteral)
  have front_ := (isField.balanced.append_iff (label ++ literal quote text)).mpr inner.balanced
  have whole := (front_.append_iff tail).mpr isField.balanced'
  rwa [← List.append_assoc] at whole

theorem IsHeader.ofBare (isHeader : IsHeader header name parent) :
    Form.ofBare (bare (header ++ '{' :: (front ++ label) ++ literal quote text ++ (tail ++ ['}']))) =
      .ok (.record ⟨name, parent, front ++ label ++ literal quote text ++ tail⟩) := by
  have whole : header ++ '{' :: (front ++ label) ++ literal quote text ++ (tail ++ ['}']) =
      header ++ '{' :: (front ++ label ++ literal quote text ++ tail ++ ['}']) := by
    simp
  have read := recordParts?_header isHeader (front ++ label ++ literal quote text ++ tail)
  have outside := isField.isOutside isLiteral
  -- From here on it does not matter that there is a literal in the body.
  rw [whole]
  generalize front ++ label ++ literal quote text ++ tail = body at read outside
  have segment : Segment (header ++ '{' :: (body ++ ['}'])) := by
    refine (Segment.inert isHeader.inert).append ?_
    exact .enclosed ⟨0, 1, 0⟩ (by decide) (by decide) (by decide) (by decide) (by decide) outside
  obtain ⟨c, more, begins, mark⟩ := isHeader.begins (body ++ ['}'])
  have last : (header ++ '{' :: (body ++ ['}'])).getLast? = some '}' := by
    rw [show header ++ '{' :: (body ++ ['}']) = (header ++ '{' :: body) ++ ['}'] by simp,
      List.getLast?_concat]
  rw [begins] at read segment last ⊢
  have trimmed : Trimmed (c :: more) := by
    constructor
    · intro d head
      cases head
      rcases mark with rfl | rfl <;> rfl
    · intro d final
      rw [last] at final
      cases final
      rfl
  have unwrapped : wrapped? (c :: more) = none := by
    apply wrapped?_cons
    rcases mark with rfl | rfl <;> decide
  have leads : ∀ d ∈ (c :: more).head?, isOperator d = false := by
    intro d head
    cases head
    rcases mark with rfl | rfl <;> rfl
  have array : element? (c :: more) = none := by
    apply element?_none last (by decide) rfl
    rcases mark with rfl | rfl <;> decide
  have primitive : Primitive.ofExpr? (c :: more) = none := by
    rcases mark with rfl | rfl
    · rw [ofExpr?_other (by decide)]
      rfl
    · rw [ofExpr?_other (by decide)]
      rfl
  have partial_ : partialTarget? (c :: more) = none := by
    apply partialTarget?_none
    rcases mark with rfl | rfl <;> decide
  have record : isRecord (c :: more) = true := by
    rw [isRecord, read]
    rfl
  rw [bare_eq trimmed.trim_eq unwrapped leads, Form.ofBare, shape_uncut segment.cut? (by simp), array,
    primitive, partial_, record]
  simp only [Except.bind, if_true, Form.ofShape, read]

end Literal

end Record

end Expr

end Conform
