import Conform.Declaration.Alias
import Conform.Proofs.Expr.Endings
import Conform.Proofs.Expr.Printed
import Conform.Proofs.Text.Commentless

/-!
Where the body of an alias ends. The scanner of bodies counts only the brackets of the outermost
kind, does not mind literals in angle brackets, and takes white space for the end of an operand. So
it reads all of a text in which that makes no difference.
-/

namespace Conform

namespace Expr

def Nesting.count (nesting : Nesting) (opener : Char) : Nat :=
  if opener = '(' then nesting.round else if opener = '{' then nesting.curly else nesting.angle

end Expr

namespace Declaration

open Text Conform.Expr

def fitsOutside (last : Option Char) (c : Char) (rest : List Char) : Bool :=
  if isBlank c then last.all isOperator || (trimStart rest).head?.all isOperator
  else !(c == ';' || c == ',')

def delimited (group : Char) (nesting : Nesting) (quote last : Option Char) : List Char → Bool
  | [] => nesting = {} && quote.isNone
  | c :: rest =>
    let lastAfter := if isBlank c then last else some c
    if quote.isSome || isQuote c then
      (nesting = {} || group != '<' || !(c == '<' || c == '>')) &&
        delimited group nesting (quoteAfter quote c) lastAfter rest
    else
      match nesting.after? c with
      | none => false
      | some inner =>
        let group := if nesting = {} then c else group
        (if nesting = {} ∧ inner = {} then fitsOutside last c rest
          else inner = {} || inner.count group != 0) &&
          delimited group inner none lastAfter rest

inductive Reading : Place → Char → Nesting → Option Char → Option Char → List Char → Prop where
  | awaiting {group : Char} {last : Option Char} {rest : List Char} (operator : last.all isOperator) :
      Reading (.outside true) group {} none last rest
  | operand {group last : Char} {rest : List Char} (inner : isOperator last = false) :
      Reading (.token 0) group {} none (some last) rest
  | done {group last : Char} {rest : List Char} (inner : isOperator last = false)
      (next : (trimStart rest).head?.all isOperator) :
      Reading (.outside false) group {} none (some last) rest
  | literal {group quote : Char} {last : Option Char} {rest : List Char} (opens : isQuote quote) :
      Reading (.quoted quote) group {} (some quote) last rest
  | angles {nesting : Nesting} {quote last : Option Char} {rest : List Char} {depth : Nat}
      (count : nesting.angle = depth + 1) :
      Reading (.token (depth + 1)) '<' nesting quote last rest
  | nested {opener : Char} {nesting : Nesting} {quote last : Option Char} {rest : List Char}
      {depth : Nat} (kind : opener = '{' ∨ opener = '(') (count : nesting.count opener = depth + 1) :
      Reading (.nested opener (depth + 1) quote) opener nesting quote last rest

theorem isOperator_of_isQuote {c : Char} (opens : isQuote c) : isOperator c = false := by
  have mark : c = '\'' ∨ c = '"' := by simpa [isQuote] using opens
  rcases mark with rfl | rfl <;> rfl

theorem Nesting.count_after? {nesting inner : Nesting} {opener c : Char}
    (kind : opener = '{' ∨ opener = '(') (after : nesting.after? c = some inner) :
    inner.count opener =
      if c = opener then nesting.count opener + 1
      else if c = Place.closer opener then nesting.count opener - 1 else nesting.count opener := by
  rcases kind with rfl | rfl
  all_goals
    rcases Nesting.after?_cases after with ⟨rfl, rfl⟩ | ⟨rfl, rfl⟩ | ⟨rfl, rfl⟩ | ⟨rfl, _, rfl⟩ |
      ⟨rfl, _, rfl⟩ | ⟨rfl, _, rfl⟩ | ⟨other, rfl⟩
    all_goals simp_all [Nesting.count, Place.closer]

variable {place : Place} {group c : Char} {nesting : Nesting} {quote last : Option Char}
  {rest : List Char}

theorem delimited_literal (inside : quote.isSome || isQuote c)
    (fits : delimited group nesting quote last (c :: rest)) :
    (nesting ≠ {} → group = '<' → c ≠ '<' ∧ c ≠ '>') ∧
      delimited group nesting (quoteAfter quote c) (if isBlank c then last else some c) rest := by
  simp only [delimited, inside, if_true, Bool.and_eq_true] at fits
  obtain ⟨angles, fits⟩ := fits
  refine ⟨fun open_ same => ?_, fits⟩
  simpa [open_, same] using angles

theorem delimited_code (outside : isQuote c = false)
    (fits : delimited group nesting none last (c :: rest)) :
    ∃ inner, nesting.after? c = some inner ∧ (nesting = {} → inner = {} → fitsOutside last c rest) ∧
      (nesting ≠ {} → inner ≠ {} → inner.count group ≠ 0) ∧
      delimited (if nesting = {} then c else group) inner none (if isBlank c then last else some c)
        rest := by
  simp only [delimited, outside, Option.isSome_none, Bool.or_self, Bool.false_eq_true, if_false] at fits
  cases after : nesting.after? c with
  | none => simp [after] at fits
  | some inner =>
      simp only [after, Bool.and_eq_true] at fits
      obtain ⟨allowed, fits⟩ := fits
      refine ⟨inner, rfl, fun closed closed' => ?_, fun open_ open' => ?_, fits⟩
      · simpa [closed, closed'] using allowed
      · simpa [open_, open'] using allowed

section Outside

variable (fits : delimited group {} none last (c :: rest))

include fits

theorem delimited_blank (blank : isBlank c) :
    fitsOutside last c rest ∧ delimited c {} none last rest := by
  have unquoted : isQuote c = false := by
    by_contra opens
    simp [isBlank_of_isQuote (by simpa using opens)] at blank
  obtain ⟨inner, after, allowed, _, fits⟩ := delimited_code unquoted fits
  obtain rfl := Option.some.inj ((Nesting.after?_blank {} blank).symm.trans after)
  exact ⟨allowed rfl rfl, by simpa [blank] using fits⟩

theorem delimited_operator (operator : isOperator c) : delimited c {} none (some c) rest := by
  have unquoted : isQuote c = false := by
    by_contra opens
    simp [isOperator_of_isQuote (by simpa using opens)] at operator
  have visible := isBlank_of_isOperator operator
  obtain ⟨inner, after, _, _, fits⟩ := delimited_code unquoted fits
  have same : inner = {} := by
    rcases isOperator_iff.mp operator with rfl | rfl <;> exact (Option.some.inj after).symm
  simpa [visible, same] using fits

theorem Reading.opens (visible : isBlank c = false) (inner : isOperator c = false) :
    Place.isTerminator c = false ∧ ∃ group' nesting' quote',
      Reading (Place.openOperand c) group' nesting' quote' (some c) rest ∧
        delimited group' nesting' quote' (some c) rest := by
  by_cases opens : isQuote c
  · obtain ⟨_, fits⟩ := delimited_literal (by simp [opens]) fits
    have quoted : Place.isTerminator c = false ∧ Place.openOperand c = .quoted c := by
      have mark : c = '\'' ∨ c = '"' := by simpa [isQuote] using opens
      rcases mark with rfl | rfl <;> decide
    refine ⟨quoted.1, group, {}, some c, ?_, ?_⟩
    · rw [quoted.2]
      exact .literal opens
    · simpa [quoteAfter, opens, visible] using fits
  · obtain ⟨nesting, after, allowed, _, fits⟩ := delimited_code (by simpa using opens) fits
    simp only [if_true, visible] at fits
    rcases Nesting.after?_cases after with ⟨rfl, rfl⟩ | ⟨rfl, rfl⟩ | ⟨rfl, rfl⟩ | ⟨_, none_, _⟩ |
      ⟨_, none_, _⟩ | ⟨_, none_, _⟩ | ⟨other, rfl⟩
    · exact ⟨rfl, _, _, _, .nested (.inr rfl) rfl, fits⟩
    · exact ⟨rfl, _, _, _, .nested (.inl rfl) rfl, fits⟩
    · exact ⟨rfl, _, _, _, .angles rfl, fits⟩
    · exact absurd rfl none_
    · exact absurd rfl none_
    · exact absurd rfl none_
    · have ends := allowed rfl rfl
      simp only [List.mem_cons, List.not_mem_nil, or_false, not_or] at other
      have unquoted : c ≠ '\'' ∧ c ≠ '"' := by simpa [isQuote] using opens
      have plain : Place.openOperand c = .token 0 := by simp [Place.openOperand, other, unquoted]
      refine ⟨?_, c, {}, none, ?_, fits⟩
      · simpa [fitsOutside, visible, Place.isTerminator, other] using ends
      · rw [plain]
        exact .operand inner

theorem Reading.step_visible (visible : isBlank c = false)
    (step : place.step c = if c = '&' ∨ c = '|' then some (.outside true)
      else if Place.isTerminator c then none else some (Place.openOperand c)) :
    ∃ place' group' nesting' quote', place.step c = some place' ∧
      Reading place' group' nesting' quote' (some c) rest ∧
      delimited group' nesting' quote' (some c) rest := by
  by_cases joins : isOperator c
  · rw [step, if_pos (isOperator_iff.mp joins)]
    exact ⟨_, c, {}, none, rfl, .awaiting (by simpa using joins), delimited_operator fits joins⟩
  · obtain ⟨inside, group', nesting', quote', reading, fits⟩ :=
      Reading.opens fits visible (by simpa using joins)
    rw [step, if_neg (mt isOperator_iff.mpr joins), if_neg (by simp [inside])]
    exact ⟨_, group', nesting', quote', rfl, reading, fits⟩

end Outside

theorem Reading.step_angles {depth : Nat} (count : nesting.angle = depth + 1)
    (fits : delimited '<' nesting quote last (c :: rest)) :
    ∃ place' group' nesting' quote', (Place.token (depth + 1)).step c = some place' ∧
      Reading place' group' nesting' quote' (if isBlank c then last else some c) rest ∧
      delimited group' nesting' quote' (if isBlank c then last else some c) rest := by
  have open_ : nesting ≠ {} := by
    rintro rfl
    simp at count
  by_cases inLiteral : quote.isSome || isQuote c
  · obtain ⟨angles, fits⟩ := delimited_literal inLiteral fits
    have other := angles open_ rfl
    exact ⟨.token (depth + 1), '<', nesting, _, by simp [Place.step, other], .angles count, fits⟩
  · obtain ⟨rfl, unquoted⟩ : quote = none ∧ isQuote c = false := by simpa using inLiteral
    obtain ⟨inner, after, _, closes, fits⟩ := delimited_code unquoted fits
    rw [if_neg open_] at fits
    by_cases opening : c = '<'
    · subst opening
      obtain rfl : _ = inner := Option.some.inj after
      exact ⟨.token (depth + 2), '<', _, none, rfl, .angles (by simp [count]), fits⟩
    · by_cases closing : c = '>'
      · subst closing
        obtain rfl : { nesting with angle := nesting.angle - 1 } = inner := by
          simpa [Nesting.after?, count] using after
        cases depth with
        | zero =>
            have closed : { nesting with angle := nesting.angle - 1 } = ({} : Nesting) := by
              by_contra more
              exact closes open_ more (by simp [Nesting.count, count])
            rw [closed] at fits
            exact ⟨.token 0, _, _, none, rfl, .operand (by decide), fits⟩
        | succ depth => exact ⟨.token (depth + 1), _, _, none, rfl, .angles (by simp [count]), fits⟩
      · have same : inner.angle = nesting.angle := by
          rcases Nesting.after?_cases after with ⟨_, rfl⟩ | ⟨_, rfl⟩ | ⟨angle, _⟩ | ⟨_, _, rfl⟩ |
            ⟨_, _, rfl⟩ | ⟨angle, _⟩ | ⟨_, rfl⟩
          all_goals first | rfl | contradiction
        refine ⟨.token (depth + 1), '<', inner, none, by simp [Place.step, opening, closing], ?_, fits⟩
        exact .angles (same.trans count)

theorem Reading.step_nested {opener : Char} {depth : Nat} (kind : opener = '{' ∨ opener = '(')
    (count : nesting.count opener = depth + 1)
    (fits : delimited opener nesting quote last (c :: rest)) :
    ∃ place' group' nesting' quote', (Place.nested opener (depth + 1) quote).step c = some place' ∧
      Reading place' group' nesting' quote' (if isBlank c then last else some c) rest ∧
      delimited group' nesting' quote' (if isBlank c then last else some c) rest := by
  have open_ : nesting ≠ {} := by
    rintro rfl
    rcases kind with rfl | rfl <;> simp [Nesting.count] at count
  cases quote with
  | some quote =>
      obtain ⟨_, fits⟩ := delimited_literal (by simp) fits
      have step : (Place.nested opener (depth + 1) (some quote)).step c =
          some (.nested opener (depth + 1) (quoteAfter (some quote) c)) := by
        by_cases closes : c = quote <;> simp [Place.step, quoteAfter, closes]
      exact ⟨_, opener, nesting, _, step, .nested kind count, fits⟩
  | none =>
      by_cases opens : isQuote c
      · obtain ⟨_, fits⟩ := delimited_literal (by simp [opens]) fits
        have mark : c = '\'' ∨ c = '"' := by simpa [isQuote] using opens
        have step : (Place.nested opener (depth + 1) none).step c =
            some (.nested opener (depth + 1) (quoteAfter none c)) := by
          simp [Place.step, quoteAfter, opens, mark]
        exact ⟨_, opener, nesting, _, step, .nested kind count, fits⟩
      · have unquoted : isQuote c = false := by simpa using opens
        have mark : ¬(c = '\'' ∨ c = '"') := by simpa [isQuote] using unquoted
        obtain ⟨inner, after, _, closes, fits⟩ := delimited_code unquoted fits
        rw [if_neg open_] at fits
        have count' := Nesting.count_after? kind after
        rw [Place.step, if_neg mark]
        by_cases opening : c = opener
        · rw [if_pos opening, count] at count'
          rw [if_pos opening]
          exact ⟨_, opener, inner, none, rfl, .nested kind count', fits⟩
        · rw [if_neg opening] at count' ⊢
          by_cases closing : c = Place.closer opener
          · rw [if_pos closing, count] at count'
            rw [if_pos closing]
            cases depth with
            | zero =>
                obtain rfl : inner = {} := by
                  by_contra more
                  exact closes open_ more count'
                subst closing
                rcases kind with rfl | rfl
                · exact ⟨.token 0, '{', {}, none, rfl, .operand (by decide), fits⟩
                · exact ⟨.token 0, '(', {}, none, rfl, .operand (by decide), fits⟩
            | succ depth => exact ⟨_, opener, inner, none, rfl, .nested kind count', fits⟩
          · rw [if_neg closing, count] at count'
            rw [if_neg closing]
            exact ⟨_, opener, inner, none, rfl, .nested kind count', fits⟩

theorem Reading.step (reading : Reading place group nesting quote last (c :: rest))
    (fits : delimited group nesting quote last (c :: rest)) :
    ∃ place' group' nesting' quote', place.step c = some place' ∧
      Reading place' group' nesting' quote' (if isBlank c then last else some c) rest ∧
      delimited group' nesting' quote' (if isBlank c then last else some c) rest := by
  cases reading with
  | awaiting operator =>
      by_cases blank : isBlank c
      · obtain ⟨_, fits⟩ := delimited_blank fits blank
        simp only [blank, if_true]
        exact ⟨.outside true, c, {}, none, by simp [Place.step, blank], .awaiting operator, fits⟩
      · have visible : isBlank c = false := by simpa using blank
        simp only [visible, Bool.false_eq_true, if_false]
        exact Reading.step_visible fits visible (by simp [Place.step, visible])
  | operand operand =>
      by_cases blank : isBlank c
      · obtain ⟨apart, fits⟩ := delimited_blank fits blank
        have next : (trimStart rest).head?.all isOperator := by
          simpa [fitsOutside, blank, operand] using apart
        simp only [blank, if_true]
        exact ⟨.outside false, c, {}, none, by simp [Place.step, blank], .done operand next, fits⟩
      · have visible : isBlank c = false := by simpa using blank
        simp only [visible, Bool.false_eq_true, if_false]
        exact Reading.step_visible fits visible (by simp [Place.step, visible])
  | done operand next =>
      by_cases blank : isBlank c
      · obtain ⟨_, fits⟩ := delimited_blank fits blank
        have next' : (trimStart rest).head?.all isOperator := by simpa [trimStart, blank] using next
        simp only [blank, if_true]
        exact ⟨.outside false, c, {}, none, by simp [Place.step, blank], .done operand next', fits⟩
      · have visible : isBlank c = false := by simpa using blank
        have joins : isOperator c := by simpa [trimStart, visible] using next
        simp only [visible, Bool.false_eq_true, if_false]
        refine Reading.step_visible fits visible ?_
        simp [Place.step, visible, isOperator_iff.mp joins]
  | @literal _ quote _ _ opens =>
      obtain ⟨_, fits⟩ := delimited_literal (by simp) fits
      by_cases closes : c = quote
      · subst closes
        have visible := isBlank_of_isQuote opens
        refine ⟨.token 0, group, {}, none, by simp [Place.step], ?_, by simpa [quoteAfter] using fits⟩
        simpa [visible] using .operand (isOperator_of_isQuote opens)
      · refine ⟨.quoted quote, group, {}, some quote, by simp [Place.step, closes], .literal opens, ?_⟩
        simpa [quoteAfter, closes] using fits
  | angles count => exact Reading.step_angles count fits
  | nested kind count => exact Reading.step_nested kind count fits

/-- The scanner reads all of a delimited text. -/
theorem Reading.run {text : List Char} (reading : Reading place group nesting quote last text)
    (fits : delimited group nesting quote last text) (more : List Char) :
    ∃ place' group' last', Reading place' group' {} none last' [] ∧
      readBody place (text ++ more) =
        (text ++ (readBody place' more).1, (readBody place' more).2) ∧
      (text = [] → last' = last) ∧ ∀ c ∈ text.getLast?, isBlank c = false → last' = some c := by
  induction text generalizing place group nesting quote last with
  | nil =>
      obtain ⟨rfl, rfl⟩ : nesting = {} ∧ quote = none := by simpa [delimited] using fits
      exact ⟨place, group, last, reading, rfl, fun _ => rfl, by simp⟩
  | cons c text ih =>
      obtain ⟨next, _, _, _, step, reading, fits⟩ := reading.step fits
      obtain ⟨place', group', last', reading', read, same, ends⟩ := ih reading fits
      refine ⟨place', group', last', reading', ?_, by simp, ?_⟩
      · rw [List.cons_append, readBody, step]
        simp only [read]
        rfl
      · intro d final visible
        cases text with
        | nil =>
            obtain rfl : c = d := by simpa using final
            simpa [visible] using same rfl
        | cons e text => exact ends d (by simpa using final) visible

theorem readBody_blank {blank : List Char} (spaces : ∀ c ∈ blank, isBlank c) (text : List Char) :
    readBody (.outside true) (blank ++ text) =
      (blank ++ (readBody (.outside true) text).1, (readBody (.outside true) text).2) := by
  induction blank with
  | nil => rfl
  | cons c blank ih =>
      obtain ⟨first, others⟩ := List.forall_mem_cons.mp spaces
      simp only [List.cons_append, readBody, Place.step, first, if_true, ih others]

def EndsBody (blank rest : List Char) : Prop :=
  ∀ c ∈ rest.head?, isBlank c = false ∧ isOperator c = false ∧ (blank ≠ [] ∨ Place.isTerminator c)

theorem endsBody_semicolon (blank rest : List Char) : EndsBody blank (';' :: rest) := by
  intro c head
  cases head
  exact ⟨rfl, rfl, .inr rfl⟩

theorem readBody_outside {blank rest : List Char} (spaces : ∀ c ∈ blank, isBlank c)
    (other : ∀ c ∈ rest.head?, isBlank c = false ∧ isOperator c = false) :
    readBody (.outside false) (blank ++ rest) = (blank, .outside false) := by
  induction blank with
  | nil =>
      cases rest with
      | nil => rfl
      | cons c rest =>
          obtain ⟨visible, inner⟩ := other c rfl
          have step : Place.step (.outside false) c = none := by
            have operator : ¬(c = '&' ∨ c = '|') := fun mark => by simp [isOperator_iff.mpr mark] at inner
            simp [Place.step, visible, operator]
          simp [readBody, step]
  | cons c blank ih =>
      obtain ⟨first, others⟩ := List.forall_mem_cons.mp spaces
      simp only [List.cons_append, readBody, Place.step, first, if_true, ih others]

theorem readBody_ends {blank rest : List Char} (spaces : ∀ c ∈ blank, isBlank c)
    (ends : EndsBody blank rest) (after : place = .token 0 ∨ place = .outside false) :
    ∃ place', readBody place (blank ++ rest) = (blank, place') ∧ place'.mayEnd := by
  have other : ∀ c ∈ rest.head?, isBlank c = false ∧ isOperator c = false := fun c head =>
    ⟨(ends c head).1, (ends c head).2.1⟩
  rcases after with rfl | rfl
  · cases blank with
    | nil =>
        refine ⟨.token 0, ?_, rfl⟩
        cases rest with
        | nil => rfl
        | cons c rest =>
            obtain ⟨visible, inner, terminator⟩ := ends c rfl
            have operator : ¬(c = '&' ∨ c = '|') := fun mark => by simp [isOperator_iff.mpr mark] at inner
            have step : Place.step (.token 0) c = none := by
              simp [Place.step, visible, operator, terminator.resolve_left fun some_ => some_ rfl]
            simp [readBody, step]
    | cons c blank =>
        obtain ⟨first, others⟩ := List.forall_mem_cons.mp spaces
        refine ⟨.outside false, ?_, rfl⟩
        simp only [List.cons_append, readBody, Place.step, first, if_true, readBody_outside others other]
  · exact ⟨.outside false, readBody_outside spaces other, rfl⟩

/-- The scanner of bodies tells the text from what is around it. -/
def Delimited (text : List Char) : Prop :=
  delimited ' ' {} none none text

instance (text : List Char) : Decidable (Delimited text) :=
  inferInstanceAs (Decidable (delimited ' ' {} none none text = true))

theorem readBody_delimited {before text after rest : List Char} (fits : Delimited text)
    (trimmed : Trimmed text) (inner : ∀ c ∈ text.getLast?, isOperator c = false) (some_ : text ≠ [])
    (blank : ∀ c ∈ before ++ after, isBlank c) (ends : EndsBody after rest) :
    ∃ place, readBody .start (before ++ (text ++ (after ++ rest))) = (before ++ (text ++ after), place) ∧
      place.mayEnd := by
  obtain ⟨place, group, last, reading, read, _, final⟩ :=
    Reading.run (.awaiting rfl) fits (after ++ rest)
  have known : ∃ c, last = some c ∧ isOperator c = false := by
    have last_ := List.getLast?_eq_some_getLast some_
    exact ⟨_, final _ last_ (trimmed.ends _ last_), inner _ last_⟩
  have after_ : place = .token 0 ∨ place = .outside false := by
    obtain ⟨c, rfl, inner⟩ := known
    cases reading with
    | awaiting operator => simp [inner] at operator
    | operand => exact .inl rfl
    | done => exact .inr rfl
    | angles count => simp at count
    | nested kind count => rcases kind with rfl | rfl <;> simp [Nesting.count] at count
  obtain ⟨place', read', mayEnd⟩ :=
    readBody_ends (fun c member => blank c (List.mem_append_right _ member)) ends after_
  refine ⟨place', ?_, mayEnd⟩
  rw [Place.start, readBody_blank fun c member => blank c (List.mem_append_left _ member), read, read']

section Alias

variable {name : List Char} (named : isName name)

def aliasHeader (name : List Char) : List Char :=
  "type".toList ++ ' ' :: name ++ ' ' :: ['=']

include named

theorem afterAliasHeader?_header (body : List Char) :
    afterAliasHeader? name none (aliasHeader name ++ body) = some body := by
  have keyword : after? "type".toList (aliasHeader name ++ body) =
      some (' ' :: (name ++ ' ' :: '=' :: body)) := by
    rw [after?_eq_some]
    simp [aliasHeader]
  have start : blankSplitsSome (' ' :: (name ++ ' ' :: '=' :: body)) = [name ++ ' ' :: '=' :: body] := by
    cases name with
    | nil => cases named
    | cons c rest =>
        have visible := isBlank_of_isNamePart (isNamePart_of_isName named c (by simp))
        change blankSplits (c :: (rest ++ ' ' :: '=' :: body)) = _
        rw [blankSplits, visible]
        rfl
  have found : after? name (name ++ ' ' :: '=' :: body) = some (' ' :: '=' :: body) :=
    after?_eq_some.mpr rfl
  have boundary : isBoundary none (aliasHeader name ++ body).head? = true := rfl
  simp only [afterAliasHeader?, boundary, keyword, Option.bind_eq_bind, Option.bind_some, start,
    List.findSome?_cons, found]
  rfl

theorem firstMatch?_header (body : List Char) :
    firstMatch? (afterAliasHeader? name) none (aliasHeader name ++ body) = some body := by
  have header := afterAliasHeader?_header named body
  obtain ⟨c, rest, starts⟩ := List.exists_cons_of_ne_nil
    (show aliasHeader name ++ body ≠ [] by simp [aliasHeader])
  rw [starts] at header ⊢
  simp [firstMatch?, header]

theorem alias?_header {before text after : List Char} (fits : Delimited text)
    (trimmed : Trimmed text) (ends : ∀ c ∈ text.getLast?, isOperator c = false) (some_ : text ≠ [])
    (blank : ∀ c ∈ before ++ after, isBlank c) :
    alias? name (aliasHeader name ++ (before ++ (text ++ (after ++ [';'])))) = .ok (some text) := by
  obtain ⟨place, read, mayEnd⟩ :=
    readBody_delimited fits trimmed ends some_ blank (endsBody_semicolon after [])
  have body : trim (before ++ (text ++ after)) = text := by
    rw [← List.append_assoc]
    exact trimmed.trim_pad some_ before after blank
  simp [alias?, firstMatch?_header named, read, body, mayEnd, some_]

theorem tidy_aliasHeader : Tidy (aliasHeader name) := by
  have visible : Tidy name := by
    refine .of_visible (List.all_eq_true.mpr fun c member => ?_)
    simp [isBlank_of_isNamePart (isNamePart_of_isName named c member)]
  have some_ : name ≠ [] := by
    rintro rfl
    cases named
  have keyword : Tidy ("type".toList ++ ' ' :: name) :=
    (Tidy.of_visible (by decide)).append_space visible (by decide) some_
  exact keyword.append_space (.of_visible (by decide)) (by simp) (by simp)

theorem woven_aliasHeader : Woven (fun _ => True) (aliasHeader name) := by
  refine .of_plain (List.all_eq_true.mpr fun c member => ?_)
  have parts := fun member => isPlain_of_isNamePart (isNamePart_of_isName named c member)
  simp only [decide_true, Bool.and_true]
  simp only [aliasHeader, List.mem_append, List.mem_cons, List.not_mem_nil, or_false] at member
  rcases member with (keyword | rfl | inside) | rfl | rfl
  · exact List.all_eq_true.mp (show "type".toList.all isPlain by decide) c keyword
  · decide
  · exact parts inside
  · decide
  · decide

theorem stripComments_alias {expr : List Char} (clean : Commentless none expr)
    (some_ : stripComments expr ≠ []) :
    ∃ before after, (∀ c ∈ before ++ after, isBlank c) ∧
      stripComments (aliasHeader name ++ ' ' :: (expr ++ [';'])) =
        aliasHeader name ++ (before ++ (stripComments expr ++ (after ++ [';']))) := by
  have tidy := tidy_aliasHeader named
  have content : Commentless none (aliasHeader name ++ ' ' :: (expr ++ [';'])) := by
    have body : Commentless none (' ' :: (expr ++ [';'])) :=
      commentless_cons.mpr ⟨fun ⟨_, marks⟩ => not_marks_of_blank rfl marks, clean.concat (by decide)⟩
    unfold Commentless at body ⊢
    rw [Region.inText, (woven_aliasHeader named).withoutComments_append]
    exact congrArg _ body
  obtain ⟨before, after, blank, parts⟩ := exists_trim (expr.filter (· != '\r'))
  have trimmed := trimmed_trim (expr.filter (· != '\r'))
  rw [stripComments_commentless clean] at some_ ⊢
  have some' : trim (expr.filter (· != '\r')) ≠ [] := by
    intro none_
    rw [none_] at some_
    exact some_ rfl
  have blankBefore : ∀ c ∈ ' ' :: before, isBlank c :=
    List.forall_mem_cons.mpr ⟨rfl, fun c member => blank c (List.mem_append_left _ member)⟩
  have blankAfter : ∀ c ∈ after, isBlank c := fun c member => blank c (List.mem_append_right _ member)
  refine ⟨squeeze (' ' :: before), squeeze after, ?_, ?_⟩
  · intro c member
    exact (List.mem_append.mp member).elim (isBlank_squeeze blankBefore c) (isBlank_squeeze blankAfter c)
  · have flat : (aliasHeader name).filter (· != '\r') = aliasHeader name :=
      List.filter_eq_self.mpr fun c member => by simpa using (tidy.flat c member).2.1
    have whole : (aliasHeader name ++ ' ' :: (expr ++ [';'])).filter (· != '\r') =
        aliasHeader name ++ ' ' :: (expr.filter (· != '\r') ++ [';']) := by
      rw [List.filter_append, flat]
      exact congrArg (aliasHeader name ++ ' ' :: ·) (List.filter_append _ _)
    rw [stripComments_commentless content, whole]
    generalize expr.filter (· != '\r') = kept at parts trimmed some'
    have inner : aliasHeader name ++ ' ' :: (kept ++ [';']) =
        aliasHeader name ++ ((' ' :: before) ++ trim kept ++ (after ++ [';'])) := by
      conv_lhs => rw [parts]
      simp
    have trimmed' : Trimmed (aliasHeader name ++ ' ' :: (kept ++ [';'])) := by
      refine ⟨fun c head => ?_, fun c last => ?_⟩
      · obtain rfl : 't' = c := by simpa [aliasHeader] using head
        rfl
      · rw [← List.cons_append, ← List.append_assoc, List.getLast?_concat] at last
        obtain rfl := Option.some.inj last
        rfl
    have same : squeeze (aliasHeader name) = aliasHeader name := by
      rw [squeeze, tidy.squeezeBreaks_eq, tidy.squeezeSpaces_eq]
    rw [trimmed'.trim_eq, inner, squeeze_append_of_ends tidy.ends, same,
      trimmed.squeeze_between some', squeeze_append_cons (by decide) after []]
    simp

end Alias

end Declaration

end Conform
