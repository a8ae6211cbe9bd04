import Conform.Proofs.Declaration.Header
import Mathlib.Data.List.Nodup

/-!
Which declaration a name finds in a text that is nothing but declarations. A search finds a header where
its keyword stands, so at a declaration of the text; there it finds the name of the declaration, and
besides what is left of that name where a dollar sign is cut off. A dollar sign ends no word, so a name
that ends in one is not found at its own declaration.
-/

namespace Conform.Declaration

open Text Conform.Expr

/-! ## Where a header begins -/

def afterKeyword? (keyword text : List Char) : Option (List Char) :=
  (after? keyword text).bind fun rest => if rest.head?.any isBlank then some (trimStart rest) else none

def beginsInterface (text : List Char) : Bool :=
  (afterKeyword? "interface".toList text).any fun start => start.head?.any isNameStart && reachesBody start

def beginsAlias (text : List Char) : Bool :=
  (afterKeyword? "type".toList text).any fun start =>
    start.head?.any isNameStart && (trimStart (start.dropWhile isNamePart)).head? == some '='

def begins (before : Option Char) (text : List Char) : Bool :=
  !before.any isWord && (beginsInterface text || beginsAlias text)

section Splits

variable {text start name : List Char}

theorem eq_trimStart_of_mem_blankSplits (member : start ∈ blankSplits text)
    (visible : ∀ c ∈ start.head?, isBlank c = false) : start = trimStart text := by
  obtain ⟨run, blank, rfl⟩ := mem_blankSplits.mp member
  rw [trimStart, List.dropWhile_append_of_pos blank]
  exact (trimStart_eq visible).symm

theorem trimStart_mem_blankSplits (text : List Char) : trimStart text ∈ blankSplits text :=
  mem_blankSplits.mpr ⟨text.takeWhile isBlank, isBlank_takeWhile text, List.takeWhile_append_dropWhile.symm⟩

theorem mem_blankSplitsSome_iff (visible : ∀ c ∈ start.head?, isBlank c = false) :
    start ∈ blankSplitsSome text ↔ text.head?.any isBlank ∧ start = trimStart text := by
  cases text with
  | nil => simp [blankSplitsSome]
  | cons c rest =>
      by_cases blank : isBlank c
      · have same : trimStart (c :: rest) = trimStart rest := by simp [trimStart, blank]
        simp only [blankSplitsSome, blank, if_true, List.head?_cons, Option.any_some, true_and, same]
        constructor
        · exact fun member => eq_trimStart_of_mem_blankSplits member visible
        · rintro rfl
          exact trimStart_mem_blankSplits rest
      · simp [blankSplitsSome, blank]

theorem visible_of_after? (named : isName name) {rest : List Char} (found : after? name start = some rest) :
    start.head?.any isNameStart ∧ ∀ c ∈ start.head?, isBlank c = false := by
  rw [after?_eq_some.mp found]
  cases name with
  | nil => simp [isName] at named
  | cons c name =>
      have first : isNameStart c := (Bool.and_eq_true_iff.mp named).1
      have visible := isBlank_of_isNamePart (isNamePart_of_isNameStart first)
      simp [first, visible]

theorem afterKeyword?_eq_some {keyword : List Char} : afterKeyword? keyword text = some start ↔
    ∃ rest, after? keyword text = some rest ∧ rest.head?.any isBlank ∧ trimStart rest = start := by
  simp only [afterKeyword?, Option.bind_eq_some_iff, Option.ite_none_right_eq_some, Option.some.injEq]

theorem isBoundary_keyword {keyword rest : List Char} {before : Option Char}
    (word : keyword.head?.any isWord) (found : after? keyword text = some rest) :
    isBoundary before text.head? = true ↔ before.any isWord = false := by
  obtain ⟨c, first, wordy⟩ := (Option.any_eq_true _ _).mp word
  have head : text.head? = some c := by
    rw [after?_eq_some.mp found, List.head?_append, first]
    rfl
  simp [isBoundary, head, wordy]

end Splits

theorem stops_of_equals {left found : List Char} (equals : after? ['='] (trimStart left) = some found) :
    (trimStart (left.dropWhile isNamePart)).head? = some '=' := by
  have mark := after?_eq_some.mp equals
  have stops : ∀ c ∈ left.head?, isNamePart c = false := by
    intro c head
    cases left with
    | nil => cases head
    | cons d rest =>
        cases head
        cases blank : isBlank c with
        | true => exact not_isNamePart_of_isBlank blank
        | false =>
            rw [trimStart_cons blank] at mark
            cases mark
            decide
  have none_ : left.dropWhile isNamePart = left := by
    cases left with
    | nil => rfl
    | cons c rest => exact List.dropWhile_cons_of_neg (by simp [stops c rfl])
  rw [none_, mark]
  rfl

theorem reachesBody_append {text : List Char} (each : ∀ c ∈ text, c ∉ ['{', '}', ';']) (rest : List Char) :
    reachesBody (text ++ rest) = reachesBody rest := by
  have passed : ∀ c ∈ text, (!(c ∈ ['{', '}', ';'] : Bool)) = true := fun c member => by
    simpa using each c member
  rw [reachesBody, List.dropWhile_append_of_pos passed, reachesBody]

theorem reachesBody_name {name : List Char} (parts : ∀ c ∈ name, isNamePart c) (rest : List Char) :
    reachesBody (name ++ rest) = reachesBody rest := by
  have marks : ∀ d ∈ ['{', '}', ';'], isNamePart d = false := by simp [isNamePart, isWord]
  refine reachesBody_append (fun c member mark => ?_) rest
  exact ne_of_isNamePart (parts c member) (marks c mark) rfl

section Matches

variable {name text found : List Char} {before : Option Char} (named : isName name)

include named

theorem interfaceHeader?_eq_some : interfaceHeader? name before text = some found ↔
    text = found ∧ before.any isWord = false ∧
      ∃ start, afterKeyword? "interface".toList text = some start ∧ startsHeader name start := by
  have visible {start : List Char} (here : startsHeader name start) :
      ∀ c ∈ start.head?, isBlank c = false := by
    obtain ⟨left, read, _⟩ := (Option.any_eq_true _ _).mp here
    exact (visible_of_after? named read).2
  simp only [interfaceHeader?_eq, Option.ite_none_right_eq_some, Bool.and_eq_true,
    Option.any_eq_true (fun rest => List.any _ _), List.any_eq_true, Option.some.injEq, afterKeyword?_eq_some]
  constructor
  · rintro ⟨⟨boundary, rest, keyword, start, member, here⟩, same⟩
    obtain ⟨blank, rfl⟩ := (mem_blankSplitsSome_iff (visible here)).mp member
    exact ⟨same, (isBoundary_keyword (by decide) keyword).mp boundary, _, ⟨rest, keyword, blank, rfl⟩, here⟩
  · rintro ⟨same, outside, _, ⟨rest, keyword, blank, rfl⟩, here⟩
    have member := (mem_blankSplitsSome_iff (visible here)).mpr ⟨blank, rfl⟩
    exact ⟨⟨(isBoundary_keyword (by decide) keyword).mpr outside, rest, keyword, _, member, here⟩, same⟩

theorem afterAliasHeader?_eq_some (matched : afterAliasHeader? name before text = some found) :
    before.any isWord = false ∧
      ∃ start, afterKeyword? "type".toList text = some start ∧ afterName? name start = some found := by
  rw [afterAliasHeader?_eq, Option.ite_none_right_eq_some] at matched
  obtain ⟨boundary, matched⟩ := matched
  obtain ⟨rest, keyword, matched⟩ := Option.bind_eq_some_iff.mp matched
  obtain ⟨start, member, here⟩ := List.exists_of_findSome?_eq_some matched
  obtain ⟨left, read, _⟩ := Option.bind_eq_some_iff.mp here
  obtain ⟨blank, rfl⟩ := (mem_blankSplitsSome_iff (visible_of_after? named read).2).mp member
  exact ⟨(isBoundary_keyword (by decide) keyword).mp boundary, _,
    afterKeyword?_eq_some.mpr ⟨rest, keyword, blank, rfl⟩, here⟩

theorem interfaceHeader?_of_not_begins (silent : begins before text = false) :
    interfaceHeader? name before text = none := by
  cases matched : interfaceHeader? name before text with
  | none => rfl
  | some found =>
      obtain ⟨_, outside, start, keyword, here⟩ := (interfaceHeader?_eq_some named).mp matched
      obtain ⟨left, read, ends⟩ := (Option.any_eq_true _ _).mp here
      have opens : reachesBody start := by
        rw [after?_eq_some.mp read, reachesBody_name (isNamePart_of_isName named)]
        exact (Bool.and_eq_true_iff.mp ends).2
      have starts : beginsInterface text := by
        rw [beginsInterface, keyword, Option.any_some, (visible_of_after? named read).1, opens]
        rfl
      simp [begins, outside, starts] at silent

theorem afterAliasHeader?_of_not_begins (silent : begins before text = false) :
    afterAliasHeader? name before text = none := by
  cases matched : afterAliasHeader? name before text with
  | none => rfl
  | some found =>
      obtain ⟨outside, start, keyword, here⟩ := afterAliasHeader?_eq_some named matched
      obtain ⟨left, read, equals⟩ := Option.bind_eq_some_iff.mp here
      have starts : beginsAlias text := by
        rw [beginsAlias, keyword, Option.any_some, (visible_of_after? named read).1, after?_eq_some.mp read,
          List.dropWhile_append_of_pos (isNamePart_of_isName named), stops_of_equals equals]
        rfl
      simp [begins, outside, starts] at silent

end Matches

/-! ## Declarations -/

inductive Braced : List Char → Prop where
  | plain {text : List Char} (each : text.all fun c => !(isQuote c || ['{', '}'].contains c)) : Braced text
  | literal {text : List Char} {quote : Char} (isQuote_ : isQuote quote) (inside : quote ∉ text) :
      Braced (quote :: (text ++ [quote]))
  | braces {text : List Char} (inner : Braced text) : Braced ('{' :: (text ++ ['}']))
  | append {text text' : List Char} (first : Braced text) (second : Braced text') : Braced (text ++ text')

structure Opening where
  gap : List Char
  name : List Char
  /-- What stands between the name and the body. -/
  header : List Char
  spaced : gap ≠ [] ∧ gap.all isBlank
  named : isName name
  stops : header.head?.all fun c => !isNamePart c

def Opening.text (keyword : List Char) (opening : Opening) : List Char :=
  keyword ++ (opening.gap ++ (opening.name ++ opening.header))

structure Interface extends Opening where
  body : List Char
  plain : header.all fun c => !(isQuote c || ['{', '}', ';'].contains c)
  braced : Braced body

structure Alias extends Opening where
  body : List Char

inductive Entry where
  | interface (declared : Interface)
  | type (declared : Alias)

def Interface.text (declared : Interface) : List Char :=
  declared.toOpening.text "interface".toList ++ '{' :: (declared.body ++ ['}'])

def Alias.text (declared : Alias) : List Char :=
  declared.toOpening.text "type".toList ++ '=' :: declared.body

namespace Entry

def text : Entry → List Char
  | interface declared => declared.text
  | type declared => declared.text

def name : Entry → List Char
  | interface declared => declared.name
  | type declared => declared.name

/-- The header is found for a name: the declared one, up to a place where a word begins or ends. -/
def answers (name : List Char) : Entry → Bool
  | interface declared =>
    (after? name declared.name).any fun more => isBoundary name.getLast? more.head?
  | type _ => false

end Entry

def quiet (rest : List Char) : Option Char → List Char → Bool
  | _, [] => true
  | before, c :: text => !begins before (c :: (text ++ rest)) && quiet rest (some c) text

/-- A text of declarations, with others inside none of them and between none of them. A keyword that names
a member, or stands in a literal, begins no declaration unless another name comes right after it. -/
inductive IsSequence : Option Char → List Char → List Entry → Prop where
  | last {before : Option Char} {text : List Char} (none_ : quiet [] before text) : IsSequence before text []
  | next {before : Option Char} {lead rest : List Char} {entry : Entry} {entries : List Entry}
      (none_ : quiet (entry.text ++ rest) before lead)
      (apart : (lead.getLast?.or before).any isWord = false)
      (inner : quiet rest entry.text.head? entry.text.tail)
      (others : IsSequence entry.text.getLast? rest entries) :
      IsSequence before (lead ++ (entry.text ++ rest)) (entry :: entries)

/-! ## The end of an interface -/

section Braced

variable {text rest : List Char} {depth : Nat}

theorem readBraces_quoted {quote : Char} (inside : quote ∉ text) (depth : Nat) (rest : List Char) :
    readBraces depth (some quote) (text ++ quote :: rest) =
      (readBraces depth none rest).map (text ++ quote :: ·) := by
  induction text with
  | nil => simp [readBraces, quoteAfter]
  | cons c text ih =>
      obtain ⟨other, inside⟩ := not_or.mp (List.mem_cons.not.mp inside)
      simp only [List.cons_append, readBraces, Option.isSome_some, Bool.true_or, if_true, quoteAfter,
        Ne.symm other, if_false, ih inside]
      cases readBraces depth none rest <;> rfl

theorem Braced.read (braced : Braced text) (depth : Nat) (rest : List Char) :
    readBraces (depth + 1) none (text ++ rest) = (readBraces (depth + 1) none rest).map (text ++ ·) := by
  induction braced generalizing depth rest with
  | plain each =>
      refine readBraces_plain (fun c member => ?_) (depth + 1) rest
      simpa using List.all_eq_true.mp each c member
  | @literal text quote isQuote_ inside =>
      rw [List.cons_append, List.append_assoc, List.singleton_append]
      simp only [readBraces, Option.isSome_none, isQuote_, Bool.or_true, if_true, quoteAfter,
        readBraces_quoted inside]
      cases readBraces (depth + 1) none rest <;> simp [Except.map]
  | @braces text _ ih =>
      have unquoted : isQuote '{' = false ∧ isQuote '}' = false := by decide
      rw [List.cons_append, List.append_assoc, List.singleton_append]
      simp only [readBraces, Option.isSome_none, unquoted.1, Bool.or_self, Bool.false_eq_true, if_false,
        if_true, ih]
      -- The closing brace ends the inner text and leaves the outer depth.
      simp only [unquoted.2, Bool.or_self, Bool.false_eq_true, if_false]
      cases readBraces (depth + 1) none rest <;> simp [Except.map]
  | @append text text' _ _ first second =>
      rw [List.append_assoc, first, second]
      exact map_append text text' _

theorem Braced.block {front : List Char} (braced : Braced text)
    (plain : ∀ c ∈ front, isQuote c = false ∧ c ≠ '{' ∧ c ≠ '}') :
    readBraces 0 none (front ++ '{' :: (text ++ ['}']) ++ rest) = .ok (front ++ '{' :: (text ++ ['}'])) := by
  have inside : readBraces 1 none (text ++ '}' :: rest) = .ok (text ++ ['}']) := by
    rw [braced.read]
    rfl
  rw [List.append_assoc, readBraces_plain plain]
  simp [readBraces, inside, isQuote, Except.map]

end Braced

theorem Opening.blank (opening : Opening) : ∀ c ∈ opening.gap, isBlank c :=
  List.all_eq_true.mp opening.spaced.2

theorem Opening.stopped (opening : Opening) : ∀ c ∈ opening.header.head?, isNamePart c = false := by
  intro c head
  have stops := opening.stops
  rw [Option.mem_def.mp head] at stops
  simpa using stops

theorem Interface.unbraced (declared : Interface) :
    ∀ c ∈ declared.header, isQuote c = false ∧ c ∉ ['{', '}', ';'] := by
  intro c member
  simpa using List.all_eq_true.mp declared.plain c member

theorem Interface.read (declared : Interface) (rest : List Char) :
    readBraces 0 none (declared.text ++ rest) = .ok declared.text := by
  have keyword : ∀ c ∈ "interface".toList, isNamePart c := List.all_eq_true.mp (by decide)
  have parts := isNamePart_of_isName declared.named
  refine declared.braced.block ?_
  simp only [Opening.text, List.forall_mem_append]
  refine ⟨fun c member => unbraced_of_inert (inert_of_isNamePart (keyword c member)),
    fun c member => unbraced_of_inert (inert_of_isBlank (declared.blank c member)),
    fun c member => unbraced_of_inert (inert_of_isNamePart (parts c member)), fun c member => ?_⟩
  obtain ⟨unquoted, other⟩ := declared.unbraced c member
  simp only [List.mem_cons, not_or] at other
  exact ⟨unquoted, other.1, other.2.1⟩

/-! ## Where a name is found -/

namespace Opening

variable (opening : Opening)

theorem afterKeyword?_text (keyword rest : List Char) :
    afterKeyword? keyword (opening.text keyword ++ rest) =
      some (opening.name ++ (opening.header ++ rest)) := by
  have blank := opening.blank
  have starts : ∀ c ∈ (opening.name ++ (opening.header ++ rest)).head?, isBlank c = false :=
    (visible_of_after? opening.named (after?_eq_some.mpr rfl)).2
  obtain ⟨c, gap, same⟩ := List.exists_cons_of_ne_nil opening.spaced.1
  rw [text, List.append_assoc]
  refine afterKeyword?_eq_some.mpr ⟨_, after?_eq_some.mpr rfl, ?_, ?_⟩
  · simp [same, blank c (same ▸ List.mem_cons_self)]
  · rw [List.append_assoc, List.append_assoc, trimStart_append blank, trimStart_eq starts]

theorem after?_name {name : List Char} (named : isName name) (mark : Char) (ends : isNamePart mark = false)
    (rest : List Char) : ∃ c left, isNamePart c = false ∧ opening.header ++ mark :: rest = c :: left ∧
      after? name (opening.name ++ (opening.header ++ mark :: rest)) =
        (after? name opening.name).map (· ++ c :: left) := by
  have other {c : Char} (stop : isNamePart c = false) : c ∉ name := fun member =>
    ne_of_isNamePart (isNamePart_of_isName named c member) stop rfl
  cases parts : opening.header with
  | nil => exact ⟨mark, rest, ends, rfl, after?_mark (other ends) rest⟩
  | cons c header =>
      have stop := opening.stopped c (by simp [parts])
      exact ⟨c, header ++ mark :: rest, stop, List.cons_append, after?_mark (other stop) _⟩

end Opening

section Found

variable {name : List Char} {before : Option Char}

theorem Alias.interfaceHeader?_eq_none (declared : Alias) (rest : List Char) :
    interfaceHeader? name before (declared.text ++ rest) = none := by
  have other (text : List Char) : after? "interface".toList ("type".toList ++ text) = none := rfl
  rw [interfaceHeader?_eq, Alias.text, Opening.text, List.append_assoc, List.append_assoc, other]
  simp only [Option.any_none, Bool.and_false, Bool.false_eq_true, if_false]

theorem Interface.afterAliasHeader?_eq_none (declared : Interface) (rest : List Char) :
    afterAliasHeader? name before (declared.text ++ rest) = none := by
  have other (text : List Char) : after? "type".toList ("interface".toList ++ text) = none := rfl
  rw [afterAliasHeader?_eq, Interface.text, Opening.text, List.append_assoc, List.append_assoc, other]
  simp only [Option.bind_none, ite_self]

variable (named : isName name)
include named

theorem Interface.startsHeader_eq (declared : Interface) (rest : List Char) :
    startsHeader name (declared.name ++ (declared.header ++ '{' :: rest)) =
      (Entry.interface declared).answers name := by
  obtain ⟨c, left, stop, parts, read⟩ := declared.after?_name named '{' rfl rest
  have some_ : name.getLast?.or (some ' ') = name.getLast? := by
    cases name with
    | nil => simp [isName] at named
    | cons c name => rw [List.getLast?_cons, Option.some_or]
  rw [startsHeader, read, Entry.answers, some_]
  cases found : after? name declared.name with
  | none => rfl
  | some more =>
      have within : ∀ d ∈ more, isNamePart d := fun d member =>
        isNamePart_of_isName declared.named d ((after?_suffix found).mem member)
      have reaches : reachesBody (more ++ c :: left) := by
        rw [reachesBody_name within, ← parts,
          reachesBody_append fun d member => (declared.unbraced d member).2]
        rfl
      have heads : (more ++ c :: left).head?.any isWord = more.head?.any isWord := by
        cases more with
        | nil => simpa [isNamePart] using (Bool.or_eq_false_iff.mp stop).1
        | cons d more => rfl
      simp only [isBoundary, Option.map_some, Option.any_some, heads, reaches, Bool.and_true]

theorem Interface.header?_eq (declared : Interface) (outside : before.any isWord = false) (rest : List Char) :
    interfaceHeader? name before (declared.text ++ rest) =
      if (Entry.interface declared).answers name then some (declared.text ++ rest) else none := by
  have whole : declared.text ++ rest =
      declared.toOpening.text "interface".toList ++ '{' :: (declared.body ++ '}' :: rest) := by
    simp only [Interface.text, List.append_assoc, List.cons_append, List.nil_append]
  refine Option.ext fun found => ?_
  rw [interfaceHeader?_eq_some named, whole, declared.afterKeyword?_text]
  simp only [Option.some.injEq, exists_eq_left', declared.startsHeader_eq named, outside, true_and,
    Option.ite_none_right_eq_some, and_comm]

theorem Alias.header?_eq_none (declared : Alias) (other : declared.name ≠ name) (rest : List Char) :
    afterAliasHeader? name before (declared.text ++ rest) = none := by
  refine Option.eq_none_iff_forall_ne_some.mpr fun found matched => other ?_
  obtain ⟨-, start, keyword, here⟩ := afterAliasHeader?_eq_some named matched
  rw [Alias.text, List.append_assoc, declared.afterKeyword?_text] at keyword
  cases keyword
  obtain ⟨left, read, equals⟩ := Option.bind_eq_some_iff.mp here
  obtain ⟨c, left', -, -, read'⟩ :=
    declared.after?_name named '=' rfl (declared.body ++ rest)
  rw [List.cons_append, read'] at read
  obtain ⟨more, found, rfl⟩ := Option.map_eq_some_iff.mp read
  have same := after?_eq_some.mp found
  cases more with
  | nil => simpa using same
  | cons d more =>
      -- A longer name goes on where the equals sign is looked for.
      have part : isNamePart d := isNamePart_of_isName declared.named d (by simp [same])
      rw [List.cons_append, trimStart_cons (isBlank_of_isNamePart part)] at equals
      cases after?_eq_some.mp equals
      cases part

theorem Entry.interfaceHeader?_eq (entry : Entry) (outside : before.any isWord = false) (rest : List Char) :
    interfaceHeader? name before (entry.text ++ rest) =
      if entry.answers name then some (entry.text ++ rest) else none := by
  cases entry with
  | interface declared => exact declared.header?_eq named outside rest
  | type declared => exact declared.interfaceHeader?_eq_none rest

theorem Entry.answers_iff (whole : name.getLast? ≠ some '$') (declared : Interface) :
    (interface declared).answers name ↔
      declared.name = name ∨ name ++ ['$'] <+: declared.name := by
  have wordy : name.getLast?.any isWord := by
    cases last : name.getLast? with
    | none => simp [List.getLast?_eq_none_iff.mp last, isName] at named
    | some c =>
        have part := isNamePart_of_isName named c (List.mem_of_getLast? last)
        have other : c ≠ '$' := by simpa [last] using whole
        simpa [isNamePart, other] using part
  simp only [answers, Option.any_eq_true, after?_eq_some, isBoundary, wordy, Bool.true_bne, Bool.not_eq_true']
  constructor
  · rintro ⟨more, same, ends⟩
    cases more with
    | nil => exact .inl (by simpa using same)
    | cons c more =>
        have part := isNamePart_of_isName declared.named c (by simp [same])
        have dollar : c = '$' := by simpa [isNamePart, show isWord c = false from ends] using part
        exact .inr ⟨more, by rw [same, dollar, List.append_assoc, List.singleton_append]⟩
  · rintro (same | ⟨more, same⟩)
    · exact ⟨[], by simpa using same, rfl⟩
    · exact ⟨'$' :: more, by rw [← same, List.append_assoc, List.singleton_append], rfl⟩

end Found

theorem Entry.text_ne_nil (entry : Entry) : entry.text ≠ [] := by
  cases entry <;> exact List.append_ne_nil_of_right_ne_nil _ (List.cons_ne_nil _ _)

section Search

variable {α : Type} {read : Option Char → List Char → Option α} {before : Option Char} {text rest : List Char}
  (silent : ∀ before text, begins before text = false → read before text = none)

include silent

theorem firstMatch?_quiet (none_ : quiet rest before text) :
    firstMatch? read before (text ++ rest) = firstMatch? read (text.getLast?.or before) rest := by
  induction text generalizing before with
  | nil => rfl
  | cons c text ih =>
      obtain ⟨here, others⟩ := Bool.and_eq_true_iff.mp none_
      have nothing := silent before (c :: (text ++ rest)) (by simpa using here)
      have last : (c :: text).getLast?.or before = text.getLast?.or (some c) := by
        rw [List.getLast?_cons, Option.some_or, Option.or_some]
      rw [List.cons_append, last, ← ih others]
      simp only [firstMatch?, nothing]

theorem firstMatch?_last (none_ : quiet [] before text) : firstMatch? read before text = none := by
  have onward := firstMatch?_quiet silent none_
  rw [List.append_nil] at onward
  have nothing : beginsInterface [] = false ∧ beginsAlias [] = false := ⟨rfl, rfl⟩
  rw [onward]
  exact silent _ [] (by rw [begins, nothing.1, nothing.2, Bool.or_self, Bool.and_false])

theorem firstMatch?_next {lead : List Char} {entry : Entry} (none_ : quiet (entry.text ++ rest) before lead)
    (inner : quiet rest entry.text.head? entry.text.tail) :
    firstMatch? read before (lead ++ (entry.text ++ rest)) =
      (read (lead.getLast?.or before) (entry.text ++ rest)).or
        (firstMatch? read entry.text.getLast? rest) := by
  obtain ⟨c, text, same⟩ := List.exists_cons_of_ne_nil entry.text_ne_nil
  rw [firstMatch?_quiet silent none_]
  rw [same] at inner ⊢
  have onward := firstMatch?_quiet silent inner
  rw [List.head?_cons, List.tail_cons, Option.or_some, ← List.getLast?_cons] at onward
  simp only [List.cons_append, firstMatch?]
  cases read (lead.getLast?.or before) (c :: (text ++ rest)) with
  | none => exact onward
  | some found => rfl

end Search

section Sequence

variable {name text : List Char} {before : Option Char} {entries : List Entry} (named : isName name)

include named

/-- The first declaration that answers to a name is the one whose header is found. -/
theorem IsSequence.header (sequence : IsSequence before text entries) :
    ∃ rest, firstMatch? (interfaceHeader? name) before text =
      (entries.find? (Entry.answers name)).map (·.text ++ rest) := by
  have silent : ∀ before text, begins before text = false → interfaceHeader? name before text = none :=
    fun _ _ => interfaceHeader?_of_not_begins named
  induction sequence with
  | last none_ => exact ⟨[], firstMatch?_last silent none_⟩
  | @next before lead rest entry entries none_ apart inner _ ih =>
      rw [firstMatch?_next silent none_ inner, List.find?_cons]
      rw [entry.interfaceHeader?_eq named apart]
      cases answers : entry.answers name with
      | true => exact ⟨rest, rfl⟩
      | false => exact ih

theorem IsSequence.aliasHeader (sequence : IsSequence before text entries)
    (undeclared : ∀ declared, Entry.type declared ∈ entries → declared.name ≠ name) :
    firstMatch? (afterAliasHeader? name) before text = none := by
  have silent : ∀ before text, begins before text = false → afterAliasHeader? name before text = none :=
    fun _ _ => afterAliasHeader?_of_not_begins named
  induction sequence with
  | last none_ => exact firstMatch?_last silent none_
  | @next before lead rest entry entries none_ apart inner _ ih =>
      have others := ih fun declared member => undeclared declared (List.mem_cons_of_mem _ member)
      rw [firstMatch?_next silent none_ inner, others, Option.or_none]
      cases entry with
      | interface declared => exact declared.afterAliasHeader?_eq_none rest
      | type declared => exact declared.header?_eq_none named (undeclared declared List.mem_cons_self) rest

/-- A name finds the whole of the first interface that answers to it, and nothing else. -/
theorem IsSequence.interface?_eq (sequence : IsSequence none text entries) :
    interface? name text = .ok ((entries.find? (Entry.answers name)).map Entry.text) := by
  obtain ⟨rest, found⟩ := sequence.header named
  rw [interface?, found]
  cases first : entries.find? (Entry.answers name) with
  | none => rfl
  | some entry =>
      cases entry with
      | interface declared =>
          simp only [Option.map_some, Entry.text, declared.read rest, Except.map]
      | type declared => cases List.find?_some first

end Sequence

section Own

variable {name : List Char} {entries : List Entry} (named : isName name) (whole : name.getLast? ≠ some '$')
  (unextended : ∀ declared, .interface declared ∈ entries → ¬ name ++ ['$'] <+: declared.name)

include named whole unextended

theorem own_of_answers {entry : Entry} (member : entry ∈ entries) (answers : entry.answers name) :
    ∃ declared, entry = .interface declared ∧ declared.name = name := by
  cases entry with
  | interface declared =>
      rcases (Entry.answers_iff named whole declared).mp answers with same | longer
      · exact ⟨declared, rfl, same⟩
      · exact absurd longer (unextended declared member)
  | type declared => cases answers

theorem find?_answers_own (distinct : (entries.map Entry.name).Nodup) {declared : Interface}
    (member : .interface declared ∈ entries) (same : declared.name = name) :
    entries.find? (Entry.answers name) = some (.interface declared) := by
  cases first : entries.find? (Entry.answers name) with
  | none =>
      have answers := (Entry.answers_iff named whole declared).mpr (.inl same)
      exact absurd answers (List.find?_eq_none.mp first _ member)
  | some entry =>
      have among := List.mem_of_find?_eq_some first
      obtain ⟨found, rfl, names⟩ := own_of_answers named whole unextended among (List.find?_some first)
      rw [List.inj_on_of_nodup_map distinct among member (names.trans same.symm)]

theorem find?_answers_undeclared
    (undeclared : ∀ declared, .interface declared ∈ entries → declared.name ≠ name) :
    entries.find? (Entry.answers name) = none := by
  refine List.find?_eq_none.mpr fun entry member answers => ?_
  obtain ⟨declared, rfl, same⟩ := own_of_answers named whole unextended member answers
  exact undeclared declared member same

end Own

/-- A name finds the first interface whose name it is up to the end of a word. So it finds its own
declaration and no other, unless it ends in a dollar sign or a declared name goes on after it with one. It
finds no alias that is not declared. -/
theorem IsSequence.finds {text name : List Char} {entries : List Entry}
    (sequence : IsSequence none text entries) (distinct : (entries.map Entry.name).Nodup)
    (named : isName name) :
    interface? name text = .ok ((entries.find? (Entry.answers name)).map Entry.text) ∧
      (name.getLast? ≠ some '$' →
        (∀ declared, .interface declared ∈ entries → ¬ name ++ ['$'] <+: declared.name) →
        (∀ declared, .interface declared ∈ entries → declared.name = name →
          interface? name text = .ok (some declared.text)) ∧
        ((∀ declared, .interface declared ∈ entries → declared.name ≠ name) →
          interface? name text = .ok none)) ∧
      ((∀ declared, .type declared ∈ entries → declared.name ≠ name) → alias? name text = .ok none) := by
  have found := sequence.interface?_eq named
  refine ⟨found, fun whole unextended => ⟨?own, ?none⟩, fun undeclared => ?type⟩
  case own =>
    intro declared member same
    rw [found, find?_answers_own named whole unextended distinct member same]
    rfl
  case none =>
    intro undeclared
    rw [found, find?_answers_undeclared named whole unextended undeclared]
    rfl
  case type => rw [alias?, sequence.aliasHeader named undeclared]

/-- `A` and `AB` are told apart, whatever the members and literals are called. -/
theorem IsSequence.finds_prefix :
    let text := "interface A<T> \x7b type: 'B'; b?: \x7b c: \"\x7d\" \x7d \x7d
      export type AB = A | 'interface'".toList
    interface? "A".toList text =
        .ok (some "interface A<T> \x7b type: 'B'; b?: \x7b c: \"\x7d\" \x7d \x7d".toList) ∧
      interface? "AB".toList text = .ok none ∧ alias? "A".toList text = .ok none := by
  intro text
  let first : Interface := ⟨⟨[' '], "A".toList, "<T> ".toList, by decide, by decide, by decide⟩,
    " type: 'B'; b?: \x7b c: \"\x7d\" \x7d ".toList, by decide,
    .append (@Braced.plain " type: ".toList (by decide))
      (.append (@Braced.literal ['B'] '\'' rfl (by decide))
        (.append (@Braced.plain "; b?: ".toList (by decide))
          (.append (.braces (.append (@Braced.plain " c: ".toList (by decide))
              (.append (@Braced.literal ['}'] '"' rfl (by decide)) (@Braced.plain [' '] (by decide)))))
            (@Braced.plain [' '] (by decide)))))⟩
  let second : Alias :=
    ⟨⟨[' '], "AB".toList, [' '], by decide, by decide, by decide⟩, " A | 'interface'".toList⟩
  have parts : text = [] ++ ((Entry.interface first).text ++
      ("\n      export ".toList ++ ((Entry.type second).text ++ []))) := by
    decide +kernel
  have sequence : IsSequence none text [.interface first, .type second] := by
    rw [parts]
    refine .next (by decide) (by decide) (by decide) ?_
    exact .next (by decide) (by decide) (by decide) (.last (by decide))
  have distinct : ([.interface first, .type second].map Entry.name).Nodup := by decide
  have interface_ {declared : Interface}
      (member : Entry.interface declared ∈ [.interface first, .type second]) : declared = first := by
    simpa using member
  have type_ {declared : Alias} (member : Entry.type declared ∈ [.interface first, .type second]) :
      declared = second := by simpa using member
  refine ⟨?_, ?_, ?_⟩
  · refine ((sequence.finds distinct (by decide)).2.1 (by decide) ?_).1 first List.mem_cons_self rfl
    exact fun declared member => interface_ member ▸ by decide
  · refine ((sequence.finds distinct (by decide)).2.1 (by decide) ?_).2 ?_
    · exact fun declared member => interface_ member ▸ by decide
    · exact fun declared member => interface_ member ▸ by decide
  · refine (sequence.finds distinct (by decide)).2.2 ?_
    exact fun declared member => type_ member ▸ by decide

/-- The only declaration `A$` is found by the name `A`, and by its own name not. -/
theorem IsSequence.finds_cut :
    let declared : Interface := ⟨⟨[' '], "A$".toList, [' '], by decide, by decide, by decide⟩,
      " x: number ".toList, by decide, .plain (by decide)⟩
    IsSequence none declared.text [.interface declared] ∧
      interface? "A".toList declared.text = .ok (some declared.text) ∧
      interface? "A$".toList declared.text = .ok none := by
  intro declared
  have sequence : IsSequence none declared.text [.interface declared] := by
    have parts : declared.text = [] ++ ((Entry.interface declared).text ++ []) := by decide
    rw [parts]
    exact .next (by decide) (by decide) (by decide) (.last (by decide))
  exact ⟨sequence, sequence.interface?_eq (by decide), sequence.interface?_eq (by decide)⟩

end Conform.Declaration
