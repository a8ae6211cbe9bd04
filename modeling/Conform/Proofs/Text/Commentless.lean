import Conform.Proofs.Expr.Length
import Conform.Proofs.Text.Squeezed
import Conform.Proofs.Text.Woven

/-!
Text without comments. Nothing is left out of it, and once its white space has been squeezed,
`stripComments` leaves it alone.
-/

namespace Conform.Text

def Region.inText : Option Char → Region
  | none => .code
  | some quote => .quoted quote

def literalAfter : Option Char → Char → Option Char
  | none, c => if opensLiteral c then some c else none
  | some quote, c => if c = quote ∨ c = '\n' then none else some quote

def Marks (c : Char) (rest : List Char) : Prop :=
  c = '/' ∧ (rest.head? = some '/' ∨ rest.head? = some '*')

/-- No comment begins in the text. -/
def Commentless (quote : Option Char) (text : List Char) : Prop :=
  withoutComments (.inText quote) text = text

instance (quote : Option Char) (text : List Char) : Decidable (Commentless quote text) :=
  inferInstanceAs (Decidable (withoutComments (.inText quote) text = text))

theorem commentless_nil (quote : Option Char) : Commentless quote [] := by
  simp [Commentless, withoutComments]

theorem withoutComments_cons {quote : Option Char} {c : Char} {rest : List Char}
    (unmarked : ¬(quote = none ∧ Marks c rest)) :
    withoutComments (.inText quote) (c :: rest) =
      c :: withoutComments (.inText (literalAfter quote c)) rest := by
  cases quote with
  | some quote =>
      simp only [Region.inText, withoutComments, literalAfter]
      split <;> rfl
  | none =>
      have step : withoutComments .code (c :: rest) =
          c :: withoutComments (if opensLiteral c then .quoted c else .code) rest := by
        cases rest with
        | nil => simp [withoutComments]
        | cons d rest => rw [withoutComments] <;> simp_all [Marks]
      simp only [Region.inText, step, literalAfter]
      split <;> rfl

theorem Marks.length_lt {c : Char} {rest : List Char} (marks : Marks c rest) :
    (withoutComments .code (c :: rest)).length < (c :: rest).length := by
  obtain ⟨rfl, next⟩ := marks
  cases rest with
  | nil => simp at next
  | cons d rest =>
      rcases next with next | next
      all_goals
        obtain rfl := Option.some.inj next
        have shorter := length_withoutComments .lineComment rest
        have shorter' := length_withoutComments .blockComment rest
        simp only [withoutComments, List.length_cons]
        omega

theorem commentless_cons {quote : Option Char} {c : Char} {rest : List Char} :
    Commentless quote (c :: rest) ↔
      ¬(quote = none ∧ Marks c rest) ∧ Commentless (literalAfter quote c) rest := by
  by_cases marked : quote = none ∧ Marks c rest
  · obtain ⟨rfl, marks⟩ := marked
    have shorter := marks.length_lt
    simp only [marks, and_self, not_true, false_and, iff_false]
    intro same
    rw [show withoutComments .code (c :: rest) = c :: rest from same] at shorter
    exact Nat.lt_irrefl _ shorter
  · simp only [Commentless, withoutComments_cons marked, List.cons.injEq, true_and, marked,
      not_false_eq_true]

namespace Commentless

variable {quote : Option Char} {text : List Char}

theorem of_append {more : List Char} (clean : Commentless quote (text ++ more)) :
    Commentless quote text := by
  induction text generalizing quote with
  | nil => exact commentless_nil quote
  | cons c text ih =>
      obtain ⟨unmarked, clean⟩ := commentless_cons.mp clean
      refine commentless_cons.mpr ⟨fun ⟨code, slash, next⟩ => unmarked ⟨code, slash, ?_⟩, ih clean⟩
      cases text with
      | nil => simp at next
      | cons d text => exact next

theorem concat (clean : Commentless quote text) {c : Char} (other : c ≠ '/' ∧ c ≠ '*') :
    Commentless quote (text ++ [c]) := by
  induction text generalizing quote with
  | nil =>
      refine commentless_cons.mpr ⟨fun ⟨_, slash, _⟩ => other.1 slash, commentless_nil _⟩
  | cons d text ih =>
      obtain ⟨unmarked, clean⟩ := commentless_cons.mp clean
      refine commentless_cons.mpr ⟨fun ⟨code, slash, next⟩ => unmarked ⟨code, slash, ?_⟩, ih clean⟩
      cases text with
      | nil => simp [other] at next
      | cons e text => exact next

end Commentless

theorem not_marks_of_blank {c : Char} {rest : List Char} (blank : isBlank c) : ¬Marks c rest := by
  rintro ⟨rfl, _⟩
  simp [isBlank] at blank

theorem literalAfter_blank {quote : Option Char} (opened : ∀ c ∈ quote, opensLiteral c) {c : Char}
    (blank : isBlank c) : literalAfter quote c = if c = '\n' then none else quote := by
  have closed : opensLiteral c = false := by
    by_contra open_
    have opens : opensLiteral c := by simpa using open_
    simp only [opensLiteral, Bool.or_eq_true, beq_iff_eq] at opens
    rcases opens with (rfl | rfl) | rfl <;> simp [isBlank] at blank
  cases quote with
  | none => simp [literalAfter, closed]
  | some quote =>
      have other : c ≠ quote := by
        rintro rfl
        simp [opened c rfl] at closed
      simp [literalAfter, other]

theorem opened_literalAfter {quote : Option Char} (opened : ∀ c ∈ quote, opensLiteral c) (c : Char) :
    ∀ d ∈ literalAfter quote c, opensLiteral d := by
  intro d open_
  cases quote with
  | none =>
      simp only [literalAfter] at open_
      split at open_
      · rename_i opens
        exact Option.mem_some.mp open_ ▸ opens
      · cases open_
  | some quote =>
      simp only [literalAfter] at open_
      split at open_
      · cases open_
      · exact opened d open_

section Blank

variable {quote : Option Char} (opened : ∀ c ∈ quote, opensLiteral c)

include opened

theorem commentless_blank_append {run : List Char} (blank : ∀ c ∈ run, isBlank c) (rest : List Char) :
    Commentless quote (run ++ rest) ↔ Commentless (if '\n' ∈ run then none else quote) rest := by
  induction run generalizing quote with
  | nil => simp
  | cons c run ih =>
      obtain ⟨first, others⟩ := List.forall_mem_cons.mp blank
      have next := ih (opened_literalAfter opened c) others
      rw [literalAfter_blank opened first] at next
      simp only [List.cons_append, commentless_cons, not_marks_of_blank first, and_false,
        not_false_eq_true, true_and, literalAfter_blank opened first, next, List.mem_cons]
      by_cases broken : '\n' ∈ run
      · simp [broken]
      · by_cases newline : c = '\n' <;> simp [broken, newline, eq_comm]

theorem Commentless.squeeze {text : List Char} (clean : Commentless quote text) :
    Commentless quote (squeeze text) := by
  induction spaced isBlank text generalizing quote with
  | @run run blank =>
      have whole := commentless_blank_append opened (isBlank_squeeze blank) []
      rw [List.append_nil] at whole
      exact whole.mpr (commentless_nil _)
  | @between run rest c blank visible _ ih =>
      rw [squeeze_append_cons visible]
      rw [commentless_blank_append opened blank] at clean
      rw [commentless_blank_append opened (isBlank_squeeze blank)]
      simp only [newline_mem_squeeze blank]
      obtain ⟨unmarked, clean⟩ := commentless_cons.mp clean
      have opened' : ∀ d ∈ if '\n' ∈ run then none else quote, opensLiteral d := by
        split
        · simp
        · exact opened
      refine commentless_cons.mpr ⟨fun ⟨code, slash, next⟩ => unmarked ⟨code, slash, ?_⟩, ?_⟩
      · exact next.imp (head?_squeeze (by decide)) (head?_squeeze (by decide))
      · exact ih (opened_literalAfter opened' c) clean

end Blank

section Strip

variable {text : List Char}

theorem stripComments_commentless (clean : Commentless none text) :
    stripComments text = squeeze (trim (text.filter (· != '\r'))) := by
  rw [← trim_squeeze, stripComments, show withoutComments .code text = text from clean]
  rfl

/-- Stripping twice is stripping once. -/
theorem stripComments_stripComments (clean : Commentless none text)
    (clean' : Commentless none (text.filter (· != '\r'))) :
    stripComments (stripComments text) = stripComments text := by
  have trimmed := trimmed_trim (text.filter (· != '\r'))
  obtain ⟨before, after, blank, parts⟩ := exists_trim (text.filter (· != '\r'))
  have inner : Commentless none (trim (text.filter (· != '\r'))) := by
    rw [parts, List.append_assoc, commentless_blank_append (by simp)
      (fun c member => blank c (List.mem_append_left _ member))] at clean'
    simpa using clean'.of_append
  have returns : (squeeze (trim (text.filter (· != '\r')))).filter (· != '\r') =
      squeeze (trim (text.filter (· != '\r'))) := by
    refine List.filter_eq_self.mpr fun c member => ?_
    rcases mem_squeeze c member with rfl | inside
    · rfl
    · have within : c ∈ text.filter (· != '\r') := by
        rw [parts]
        simp [inside]
      exact (List.mem_filter.mp within).2
  rw [stripComments_commentless clean, stripComments_commentless (inner.squeeze (by simp)), returns,
    trimmed.squeeze.trim_eq, squeeze_squeeze]

end Strip

end Conform.Text
