import Conform.Proofs.Declaration.Body
import Conform.Proofs.Declaration.Extent
import Conform.Proofs.Expr.Fields

/-!
Where a declaration stands in a file. The search for it looks no further than the mark before its body.
The body of an interface ends where its braces close, whatever the literals in it say.
-/

namespace Conform.Declaration

open Text Conform.Expr

def startsHeader (name start : List Char) : Bool :=
  (after? name start).any fun rest =>
    isBoundary (name.getLast?.or (some ' ')) rest.head? && reachesBody rest

theorem interfaceHeader?_eq (name : List Char) (before : Option Char) (text : List Char) :
    interfaceHeader? name before text =
      if isBoundary before text.head? && ((after? "interface".toList text).any fun rest =>
        (blankSplitsSome rest).any (startsHeader name)) then some text else none := by
  unfold interfaceHeader?
  cases isBoundary before text.head? with
  | false => rfl
  | true =>
      cases after? "interface".toList text with
      | none => rfl
      | some rest =>
          simp only [Bool.not_true, Bool.false_eq_true, if_false, Option.bind_eq_bind, Option.bind_some,
            Bool.true_and, Option.any_some]
          refine if_congr (Iff.of_eq (congrArg (fun test => (blankSplitsSome rest).any test = true) ?_)) rfl rfl
          funext start
          unfold startsHeader
          cases after? name start <;> rfl

section Mark

variable {text name : List Char} {mark : Char}

theorem after?_mark {start : List Char} (other : mark ∉ start) (rest : List Char) :
    after? start (text ++ mark :: rest) = (after? start text).map (· ++ mark :: rest) := by
  induction start generalizing text with
  | nil => rfl
  | cons c start ih =>
      obtain ⟨first, others⟩ : c ≠ mark ∧ mark ∉ start := by
        simpa [eq_comm] using other
      cases text with
      | nil => simp [after?, first]
      | cons d text =>
          by_cases same : c = d
          · simpa [after?, same] using ih others
          · simp [after?, same]

theorem dropWhile_mark {test : Char → Bool} (stops : test mark = false) (rest : List Char) :
    (text ++ mark :: rest).dropWhile test = text.dropWhile test ++ mark :: rest := by
  induction text with
  | nil => simp [stops]
  | cons c text ih =>
      by_cases passes : test c
      · simp [passes, ih]
      · simp [passes]

theorem head?_mark (rest rest' : List Char) :
    (text ++ mark :: rest).head? = (text ++ mark :: rest').head? := by
  cases text <;> rfl

theorem blankSplits_mark (visible : isBlank mark = false) (rest : List Char) :
    blankSplits (text ++ mark :: rest) = (blankSplits text).map (· ++ mark :: rest) := by
  induction text with
  | nil => simp [blankSplits, visible]
  | cons c text ih =>
      by_cases blank : isBlank c
      · simp [blankSplits, blank, ih]
      · simp [blankSplits, blank]

theorem blankSplitsSome_mark (visible : isBlank mark = false) (rest : List Char) :
    blankSplitsSome (text ++ mark :: rest) = (blankSplitsSome text).map (· ++ mark :: rest) := by
  cases text with
  | nil => simp [blankSplitsSome, visible]
  | cons c text =>
      by_cases blank : isBlank c
      · simp [blankSplitsSome, blank, blankSplits_mark visible]
      · simp [blankSplitsSome, blank]

theorem startsHeader_brace (other : '{' ∉ name) (rest rest' : List Char) :
    startsHeader name (text ++ '{' :: rest) = startsHeader name (text ++ '{' :: rest') := by
  have reaches (left rest rest' : List Char) :
      reachesBody (left ++ '{' :: rest) = reachesBody (left ++ '{' :: rest') := by
    unfold reachesBody
    rw [dropWhile_mark (by decide), dropWhile_mark (by decide), head?_mark rest rest']
  rw [startsHeader, startsHeader, after?_mark other, after?_mark other]
  cases after? name text with
  | none => rfl
  | some left => simp [head?_mark rest rest', reaches left rest rest']

theorem interfaceHeader?_brace (other : '{' ∉ name) (before : Option Char) (text rest rest' : List Char) :
    interfaceHeader? name before (text ++ '{' :: rest) =
      (interfaceHeader? name before (text ++ '{' :: rest')).map fun _ => text ++ '{' :: rest := by
  have keyword : '{' ∉ "interface".toList := by decide
  have visible : isBlank '{' = false := by decide
  have same : ((after? "interface".toList (text ++ '{' :: rest)).any fun rest =>
        (blankSplitsSome rest).any (startsHeader name)) =
      (after? "interface".toList (text ++ '{' :: rest')).any fun rest =>
        (blankSplitsSome rest).any (startsHeader name) := by
    rw [after?_mark keyword, after?_mark keyword]
    cases after? "interface".toList text with
    | none => rfl
    | some left =>
        simp only [Option.map_some, Option.any_some, blankSplitsSome_mark visible, List.any_map]
        refine congrArg (blankSplitsSome left).any (funext fun start => ?_)
        exact startsHeader_brace other rest rest'
  rw [interfaceHeader?_eq, interfaceHeader?_eq, same, head?_mark rest rest']
  split <;> rfl

end Mark

section Search

variable {name header rest rest' : List Char} {before : Option Char}

theorem interfaceHeader?_text {text found : List Char}
    (read : interfaceHeader? name before text = some found) : found = text :=
  (interfaceHeader?_some read).1

theorem firstMatch?_brace (other : '{' ∉ name) (front : List Char)
    (found : firstMatch? (interfaceHeader? name) before (front ++ (header ++ '{' :: rest')) =
      some (header ++ '{' :: rest')) :
    firstMatch? (interfaceHeader? name) before (front ++ (header ++ '{' :: rest)) =
      some (header ++ '{' :: rest) := by
  induction front generalizing before with
  | nil =>
      have here : interfaceHeader? name before (header ++ '{' :: rest') = some (header ++ '{' :: rest') := by
        obtain ⟨c, more, parts⟩ : ∃ c more, header ++ '{' :: rest' = c :: more := by
          cases header <;> exact ⟨_, _, rfl⟩
        rw [List.nil_append, parts] at found
        rw [parts]
        cases read : interfaceHeader? name before (c :: more) with
        | some text => rw [interfaceHeader?_text read]
        | none =>
            -- A header found further on would be shorter than the text from here.
            simp only [firstMatch?, read] at found
            obtain ⟨earlier, later, suffix, matched⟩ := firstMatch?_some found
            have longer := suffix.length_le
            rw [← interfaceHeader?_text matched, List.length_cons] at longer
            omega
      have here' := interfaceHeader?_brace other before header rest rest'
      rw [here, Option.map_some] at here'
      cases header with
      | nil =>
          simp only [List.nil_append] at here' ⊢
          simp only [firstMatch?, here']
      | cons c header =>
          simp only [List.nil_append, List.cons_append] at here' ⊢
          simp only [firstMatch?, here']
  | cons c front ih =>
      have read' := interfaceHeader?_brace other before (c :: front ++ header) rest rest'
      rw [List.append_assoc, List.append_assoc, List.cons_append, List.cons_append] at read'
      rw [List.cons_append] at found ⊢
      cases read : interfaceHeader? name before (c :: (front ++ (header ++ '{' :: rest'))) with
      | some text =>
          simp only [firstMatch?, read, Option.some.injEq] at found
          have lengths := congrArg List.length (found.symm.trans (interfaceHeader?_text read))
          simp only [List.length_cons, List.length_append] at lengths
          omega
      | none =>
          rw [read, Option.map_none] at read'
          simp only [firstMatch?, read, read'] at found ⊢
          exact ih found

def afterName? (name start : List Char) : Option (List Char) :=
  (after? name start).bind fun rest => after? ['='] (trimStart rest)

theorem afterAliasHeader?_eq (name : List Char) (before : Option Char) (text : List Char) :
    afterAliasHeader? name before text =
      if isBoundary before text.head? then
        (after? "type".toList text).bind fun rest => (blankSplitsSome rest).findSome? (afterName? name)
      else none := by
  unfold afterAliasHeader? afterName?
  cases isBoundary before text.head? <;> rfl

section Equals

variable {text found : List Char} (other : '=' ∉ name)

include other

theorem afterName?_equals (rest : List Char) :
    afterName? name (text ++ '=' :: rest) = (afterName? name (text ++ ['='])).map (· ++ rest) := by
  have equals (left : List Char) :
      after? ['='] (left ++ '=' :: rest) = (after? ['='] (left ++ ['='])).map (· ++ rest) := by
    cases left with
    | nil => rfl
    | cons c left =>
        by_cases same : '=' = c
        · subst same
          simp [after?]
        · simp [after?, same]
  rw [afterName?, afterName?, after?_mark other, after?_mark other]
  cases after? name text with
  | none => rfl
  | some left =>
      simp only [Option.map_some, Option.bind_some, trimStart]
      rw [dropWhile_mark (by decide), dropWhile_mark (by decide), equals]

theorem afterAliasHeader?_equals (before : Option Char) (text rest : List Char) :
    afterAliasHeader? name before (text ++ '=' :: rest) =
      (afterAliasHeader? name before (text ++ ['='])).map (· ++ rest) := by
  have keyword : '=' ∉ "type".toList := by decide
  have visible : isBlank '=' = false := by decide
  rw [afterAliasHeader?_eq, afterAliasHeader?_eq, head?_mark rest [], after?_mark keyword, after?_mark keyword]
  split
  · cases after? "type".toList text with
    | none => rfl
    | some left =>
        simp only [Option.map_some, Option.bind_some, blankSplitsSome_mark visible, List.findSome?_map]
        induction blankSplitsSome left with
        | nil => rfl
        | cons start starts ih =>
            simp only [List.findSome?_cons, Function.comp_apply, afterName?_equals other rest, ih]
            cases afterName? name (start ++ ['=']) <;> rfl
  · rfl

theorem firstMatch?_equals (rest : List Char)
    (matched : firstMatch? (afterAliasHeader? name) before (text ++ ['=']) = some found) :
    firstMatch? (afterAliasHeader? name) before (text ++ '=' :: rest) = some (found ++ rest) := by
  induction text generalizing before with
  | nil =>
      have nothing (before : Option Char) {start : List Char} (ends : after? "type".toList start = none) :
          afterAliasHeader? name before start = none := by
        rw [afterAliasHeader?_eq, ends]
        split <;> rfl
      have mark : afterAliasHeader? name before ['='] = none := nothing before (by decide)
      have end_ : afterAliasHeader? name (some '=') [] = none := nothing (some '=') (by decide)
      simp [firstMatch?, mark, end_] at matched
  | cons c text ih =>
      have here := afterAliasHeader?_equals other before (c :: text) rest
      simp only [List.cons_append] at here matched ⊢
      simp only [firstMatch?, here]
      cases read : afterAliasHeader? name before (c :: (text ++ ['='])) with
      | some left =>
          simp only [firstMatch?, read] at matched
          cases matched
          rfl
      | none =>
          simp only [firstMatch?, read] at matched
          exact ih matched

end Equals

end Search

section Braces

theorem map_append (first text : List Char) (found : Except ScanFault (List Char)) :
    (found.map (text ++ ·)).map (first ++ ·) = found.map (first ++ text ++ ·) := by
  cases found with
  | error fault => rfl
  | ok rest => simp [Except.map]

theorem readBraces_plain {text : List Char} (each : ∀ c ∈ text, isQuote c = false ∧ c ≠ '{' ∧ c ≠ '}')
    (depth : Nat) (rest : List Char) :
    readBraces depth none (text ++ rest) = (readBraces depth none rest).map (text ++ ·) := by
  induction text with
  | nil =>
      cases read : readBraces depth none rest <;> simp [read, Except.map]
  | cons c text ih =>
      obtain ⟨⟨unquoted, opening, closing⟩, others⟩ := List.forall_mem_cons.mp each
      simp only [List.cons_append, readBraces, Option.isSome_none, unquoted, Bool.or_self,
        Bool.false_eq_true, if_false, opening, closing, ih others]
      exact map_append [c] text _

theorem unbraced_of_inert {c : Char} (inert : Inert c) : isQuote c = false ∧ c ≠ '{' ∧ c ≠ '}' := by
  obtain ⟨unquoted, _, flat⟩ := inert
  refine ⟨unquoted, ?_⟩
  constructor <;> rintro rfl <;> simpa [Nesting.after?] using flat {}

theorem readBraces_through {nesting : Nesting} {quote : Option Char} {context : Context} {text : List Char}
    (passed : (⟨nesting, quote⟩ : Context).through? text = some context) (rest : List Char) :
    readBraces (nesting.curly + 1) quote (text ++ rest) =
      (readBraces (context.nesting.curly + 1) context.quote rest).map (text ++ ·) := by
  -- The scanner of interfaces counts curly brackets only, one more than are open in the text.
  induction text generalizing nesting quote with
  | nil =>
      cases passed
      cases read : readBraces (nesting.curly + 1) quote rest <;> simp [read, Except.map]
  | cons c text ih =>
      rw [Context.through?_cons] at passed
      obtain ⟨⟨nesting', quote'⟩, step, passed⟩ := Option.bind_eq_some_iff.mp passed
      have onward := ih passed
      rw [List.cons_append]
      by_cases literal : quote.isSome || isQuote c
      · simp only [Context.after?, literal, if_true, Option.some.injEq, Context.mk.injEq] at step
        obtain ⟨rfl, rfl⟩ := step
        simp only [readBraces, literal, if_true, onward]
        exact map_append [c] text _
      · obtain rfl : quote = none := by
          cases quote <;> simp_all
        simp only [Context.after?, literal, Bool.false_eq_true, if_false, Option.map_eq_some_iff,
          Context.mk.injEq] at step
        obtain ⟨opened, after, rfl, rfl⟩ := step
        simp only [readBraces, literal, Bool.false_eq_true, if_false]
        by_cases opening : c = '{'
        · subst opening
          cases after
          simp only [if_true, onward]
          exact map_append ['{'] text _
        · by_cases closing : c = '}'
          · subst closing
            obtain ⟨some_, rfl⟩ : nesting.curly ≠ 0 ∧ { nesting with curly := nesting.curly - 1 } = opened := by
              simpa [Nesting.after?] using after
            obtain ⟨depth, same⟩ := Nat.exists_eq_succ_of_ne_zero some_
            simp only [same, Nat.succ_eq_add_one, Nat.add_sub_cancel] at onward ⊢
            simp only [if_true, onward]
            exact map_append ['}'] text _
          · have same : opened.curly = nesting.curly := by
              rcases Nesting.after?_cases after with ⟨_, rfl⟩ | ⟨brace, _⟩ | ⟨_, rfl⟩ | ⟨_, _, rfl⟩ |
                ⟨brace, _⟩ | ⟨_, _, rfl⟩ | ⟨_, rfl⟩
              all_goals first | rfl | contradiction
            rw [same] at onward
            simp only [opening, closing, if_false, onward]
            exact map_append [c] text _

end Braces

/-- An interface is found with the whole of its body, when the search finds it with an empty one. -/
theorem interface?_of_header {name front header body rest : List Char} (other : '{' ∉ name)
    (found : firstMatch? (interfaceHeader? name) none (front ++ (header ++ ['{', '}'])) =
      some (header ++ ['{', '}']))
    (inert : ∀ c ∈ header, Inert c) (balanced : IsOutside body) :
    interface? name (front ++ (header ++ '{' :: (body ++ '}' :: rest))) =
      .ok (some (header ++ '{' :: (body ++ ['}']))) := by
  have inside : readBraces 1 none (body ++ '}' :: rest) = .ok (body ++ ['}']) := by
    have through := readBraces_through balanced ('}' :: rest)
    exact through
  have plain : ∀ c ∈ header, isQuote c = false ∧ c ≠ '{' ∧ c ≠ '}' := fun c member =>
    unbraced_of_inert (inert c member)
  rw [interface?, firstMatch?_brace other front found]
  simp only [readBraces_plain plain, readBraces]
  simp [inside, isQuote, Except.map]

theorem alias?_of_header {name front gap text gap' rest : List Char} (other : '=' ∉ name)
    (found : firstMatch? (afterAliasHeader? name) none (front ++ ['=']) = some []) (fits : Delimited text)
    (trimmed : Trimmed text) (inner : ∀ c ∈ text.getLast?, isOperator c = false) (some_ : text ≠ [])
    (blank : ∀ c ∈ gap ++ gap', isBlank c) (ends : EndsBody gap' rest) :
    alias? name (front ++ '=' :: (gap ++ (text ++ (gap' ++ rest)))) = .ok (some text) := by
  obtain ⟨place, read, mayEnd⟩ := readBody_delimited fits trimmed inner some_ blank ends
  have body : trim (gap ++ (text ++ gap')) = text := by
    rw [← List.append_assoc]
    exact trimmed.trim_pad some_ gap gap' blank
  simp [alias?, firstMatch?_equals other _ found, read, body, mayEnd, some_]

end Conform.Declaration
