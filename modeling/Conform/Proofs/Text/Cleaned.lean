import Conform.Proofs.Text.Commentless

/-!
What comment removal makes of the parts of a text. A literal keeps its place between what becomes of
the text before it and of the text after it; inside it, white space is squeezed as anywhere.
-/

namespace Conform.Text

def regionAfter : Region → List Char → Region
  | region, [] => region
  | .code, '/' :: '/' :: rest => regionAfter .lineComment rest
  | .code, '/' :: '*' :: rest => regionAfter .blockComment rest
  | .code, c :: rest => regionAfter (if opensLiteral c then .quoted c else .code) rest
  | .quoted quote, c :: rest =>
    regionAfter (if c = quote ∨ c = '\n' then .code else .quoted quote) rest
  | .lineComment, c :: rest => regionAfter (if c = '\n' then .code else .lineComment) rest
  | .blockComment, '*' :: '/' :: rest => regionAfter .code rest
  | .blockComment, _ :: rest => regionAfter .blockComment rest

theorem withoutComments_unmarked {c : Char} {rest : List Char} (unmarked : ¬Marks c rest) :
    withoutComments .code (c :: rest) =
      c :: withoutComments (if opensLiteral c then .quoted c else .code) rest := by
  have step : withoutComments (.inText none) (c :: rest) = _ :=
    withoutComments_cons fun both => unmarked both.2
  simp only [literalAfter] at step
  split at step <;> simp_all [Region.inText]

theorem withoutComments_append {c : Char} (other : c ≠ '/' ∧ c ≠ '*') (rest : List Char)
    (region : Region) (text : List Char) :
    withoutComments region (text ++ c :: rest) =
      withoutComments region text ++ withoutComments (regionAfter region text) (c :: rest) := by
  fun_induction regionAfter region text with
  | case1 region => simp [withoutComments]
  | case2 text ih => simpa [withoutComments] using ih
  | case3 text ih => simpa [withoutComments] using ih
  | case4 d text noLine noBlock ih =>
      have unmarked : ¬Marks d text := by
        rintro ⟨rfl, next⟩
        cases text with
        | nil => simp at next
        | cons e text =>
            rcases next with next | next
            · exact noLine text rfl (by rw [Option.some.inj next])
            · exact noBlock text rfl (by rw [Option.some.inj next])
      -- A mark of two characters cannot end at `c`.
      have unmarked' : ¬Marks d (text ++ c :: rest) := by
        rintro ⟨rfl, next⟩
        cases text with
        | nil => simp [other] at next
        | cons e text => exact unmarked ⟨rfl, next⟩
      rw [List.cons_append, withoutComments_unmarked unmarked, withoutComments_unmarked unmarked', ih]
      rfl
  | case5 quote d text ih => simpa [withoutComments] using ih
  | case6 d text ih =>
      by_cases newline : d = '\n'
      · simpa [withoutComments, newline] using ih
      · simpa [withoutComments, newline] using ih
  | case7 text ih => simpa [withoutComments] using ih
  | case8 d text noEnd ih =>
      have step (rest : List Char) (inside : ∀ left, d = '*' → rest = '/' :: left → False) :
          withoutComments .blockComment (d :: rest) = withoutComments .blockComment rest := by
        rw [withoutComments]
        exact inside
      rw [List.cons_append, step text noEnd, step (text ++ c :: rest), ih]
      rintro left rfl same
      cases text with
      | nil => exact other.1 (List.cons.inj same).1
      | cons e text => exact noEnd text rfl (by rw [(List.cons.inj same).1])

def clean (text : List Char) : List Char :=
  squeeze ((withoutComments .code text).filter (· != '\r'))

theorem stripComments_eq_trim (text : List Char) : stripComments text = trim (clean text) := rfl

theorem return_not_mem_clean (text : List Char) : '\r' ∉ clean text := by
  intro member
  rcases mem_squeeze _ member with same | inside
  · simp at same
  · simp at inside

theorem clean_eq {text : List Char} (commentless : Commentless none text) (returns : '\r' ∉ text)
    (squeezed : squeeze text = text) : clean text = text := by
  have none_ : text.filter (· != '\r') = text := by
    refine List.filter_eq_self.mpr fun c member => ?_
    have other : c ≠ '\r' := by
      rintro rfl
      exact returns member
    simpa using other
  rw [clean, show withoutComments .code text = text from commentless, none_, squeezed]

theorem length_squeeze (text : List Char) : (squeeze text).length ≤ text.length :=
  Nat.le_trans (length_squeezeSpaces _) (length_squeezeBreaks text)

theorem squeezed_parts {text more : List Char} (apart : squeeze (text ++ more) = squeeze text ++ squeeze more)
    (squeezed : squeeze (text ++ more) = text ++ more) : squeeze text = text ∧ squeeze more = more := by
  rw [apart] at squeezed
  have lengths := congrArg List.length squeezed
  have shorter := length_squeeze text
  have shorter' := length_squeeze more
  simp only [List.length_append] at lengths
  exact List.append_inj squeezed (by omega)

def cleanBefore (left : List Char) : List Char :=
  trimStart (clean left)

def cleanAfter (right : List Char) : List Char :=
  trimEnd (clean right)

theorem trimEnd_last (text : List Char) : ∀ c ∈ (trimEnd text).getLast?, isBlank c = false := by
  intro c last
  refine trimStart_head text.reverse c ?_
  simpa [trimEnd, trimStart] using last

section Part

variable {source text more : List Char} (commentless : Commentless none text)

include commentless

theorem cleanBefore_part (parts : cleanBefore source = more ++ text)
    (starts : ∀ c ∈ text.head?, isBlank c = false) : cleanBefore text = text := by
  have whole : clean source = (clean source).takeWhile isBlank ++ (more ++ text) := by
    rw [← parts]
    exact List.takeWhile_append_dropWhile.symm
  have squeezed : squeeze (clean source) = clean source := squeeze_squeeze _
  have returns : '\r' ∉ text := fun member =>
    return_not_mem_clean source (by rw [whole]; simp [member])
  rw [whole, ← List.append_assoc] at squeezed
  have inner := (squeezed_parts (squeeze_append_of_starts starts _) squeezed).2
  rw [cleanBefore, clean_eq commentless returns inner, trimStart_eq starts]

theorem cleanAfter_part (parts : cleanAfter source = text ++ more)
    (ends : ∀ c ∈ text.getLast?, isBlank c = false) : cleanAfter text = text := by
  obtain ⟨trail, _, whole⟩ := exists_trimEnd (clean source)
  rw [show trimEnd (clean source) = text ++ more from parts] at whole
  have squeezed : squeeze (clean source) = clean source := squeeze_squeeze _
  have returns : '\r' ∉ text := fun member =>
    return_not_mem_clean source (by rw [whole]; simp [member])
  rw [whole, List.append_assoc] at squeezed
  have inner := (squeezed_parts (squeeze_append_of_ends ends _) squeezed).1
  rw [cleanAfter, clean_eq commentless returns inner, trimEnd_eq ends]

end Part

structure IsLiteral (quote : Char) (text : List Char) : Prop where
  opens : isQuote quote
  open_ : ∀ c ∈ text, c ≠ quote ∧ c ≠ '\n'

theorem isLiteral_iff {quote : Char} {text : List Char} :
    IsLiteral quote text ↔ isQuote quote ∧ text.all fun c => c != quote && c != '\n' := by
  constructor
  · rintro ⟨opens, open_⟩
    exact ⟨opens, by simpa using open_⟩
  · rintro ⟨opens, open_⟩
    exact ⟨opens, by simpa using open_⟩

instance (quote : Char) (text : List Char) : Decidable (IsLiteral quote text) :=
  decidable_of_iff' _ isLiteral_iff

def literal (quote : Char) (text : List Char) : List Char :=
  quote :: (text ++ [quote])

@[simp] theorem getLast?_literal (quote : Char) (text : List Char) :
    (literal quote text).getLast? = some quote :=
  List.getLast?_concat (l := quote :: text)

def kept (text : List Char) : List Char :=
  squeeze (text.filter (· != '\r'))

theorem squeezeSpaces_single (text : List Char) : '\t' ∉ squeezeSpaces text ∧
    (squeezeSpaces text).IsChain fun c d => ¬(c = ' ' ∧ d = ' ') := by
  have run {run : List Char} (inside : ∀ c ∈ run, c == ' ' || c == '\t') :
      squeezeSpaces run = if run.isEmpty then [] else [' '] := mapRuns_run inside []
  induction spaced (fun c => c == ' ' || c == '\t') text with
  | run inside =>
      rw [run inside]
      split <;> simp
  | @between first rest c inside outside _ ih =>
      have apart : squeezeSpaces (first ++ c :: rest) = squeezeSpaces first ++ c :: squeezeSpaces rest :=
        mapRuns_append_cons outside [] first rest
      have other : c ≠ ' ' ∧ c ≠ '\t' := by simpa using outside
      have chain : (c :: squeezeSpaces rest).IsChain fun c d => ¬(c = ' ' ∧ d = ' ') := by
        refine List.isChain_cons.mpr ⟨fun d _ both => other.1 both.1, ih.2⟩
      rw [apart, run inside]
      split
      · exact ⟨by simp [Ne.symm other.2, ih.1], by simpa using chain⟩
      · refine ⟨by simp [Ne.symm other.2, ih.1], ?_⟩
        exact List.isChain_cons_cons.mpr ⟨fun both => other.1 both.2, chain⟩

section Literal

variable {quote : Char} {text left right : List Char}

theorem IsLiteral.visible (isLiteral : IsLiteral quote text) : isBlank quote = false := by
  rcases isQuote_cases isLiteral.opens with rfl | rfl <;> rfl

theorem IsLiteral.mark (isLiteral : IsLiteral quote text) :
    quote ≠ '/' ∧ quote ≠ '*' ∧ (quote != '\r') = true ∧ opensLiteral quote = true := by
  rcases isQuote_cases isLiteral.opens with rfl | rfl <;> decide

/-- Around a literal, what is left of each side is what is left of it alone. -/
theorem clean_literal (isLiteral : IsLiteral quote text) (closed : regionAfter .code left = .code)
    (right : List Char) :
    clean (left ++ literal quote text ++ right) =
      clean left ++ literal quote (kept text) ++ clean right := by
  obtain ⟨slash, star, notReturn, opens⟩ := isLiteral.mark
  have whole : left ++ literal quote text ++ right = left ++ quote :: (text ++ quote :: right) := by
    simp [literal]
  have inside : withoutComments .code (quote :: (text ++ quote :: right)) =
      quote :: (text ++ quote :: withoutComments .code right) := by
    rw [withoutComments_code _ slash, if_pos opens, withoutComments_quoted _ isLiteral.open_]
  rw [whole, clean, withoutComments_append ⟨slash, star⟩, closed, inside]
  simp only [List.filter_append, List.filter_cons, notReturn, if_true]
  rw [squeeze_append_cons isLiteral.visible, squeeze_append_cons isLiteral.visible]
  simp [clean, kept, literal]

theorem IsLiteral.kept (isLiteral : IsLiteral quote text) : IsLiteral quote (kept text) where
  opens := isLiteral.opens
  open_ c member := by
    rcases mem_squeeze c member with rfl | inside
    · rcases isQuote_cases isLiteral.opens with rfl | rfl <;> decide
    · exact isLiteral.open_ c (List.mem_filter.mp inside).1

theorem stripComments_literal (isLiteral : IsLiteral quote text)
    (closed : regionAfter .code left = .code) (right : List Char) :
    stripComments (left ++ literal quote text ++ right) =
      cleanBefore left ++ literal quote (kept text) ++ cleanAfter right := by
  rw [stripComments_eq_trim, clean_literal isLiteral closed, cleanBefore, cleanAfter]
  obtain ⟨trail, blank, parts⟩ := exists_trimEnd (clean right)
  have whole : clean left = (clean left).takeWhile isBlank ++ trimStart (clean left) :=
    List.takeWhile_append_dropWhile.symm
  have trimmed : Trimmed (trimStart (clean left) ++ literal quote (kept text) ++ trimEnd (clean right)) := by
    constructor
    · intro c head
      rw [List.append_assoc, List.head?_append] at head
      cases first : (trimStart (clean left)).head? with
      | none =>
          obtain rfl : quote = c := by simpa [first, literal] using head
          exact isLiteral.visible
      | some d =>
          obtain rfl : d = c := by simpa [first] using head
          exact trimStart_head _ d first
    · intro c last
      rw [List.getLast?_append] at last
      cases final : (trimEnd (clean right)).getLast? with
      | none =>
          obtain rfl : quote = c := by simpa [final] using last
          exact isLiteral.visible
      | some d =>
          obtain rfl : d = c := by simpa [final] using last
          exact trimEnd_last _ d final
  have pad := trimmed.trim_pad (by simp [literal]) ((clean left).takeWhile isBlank) trail ?_
  · rw [← pad]
    congr 1
    conv_lhs => rw [whole, parts]
    simp
  · intro c member
    exact (List.mem_append.mp member).elim (isBlank_takeWhile _ c) (blank c)

theorem kept_kept (text : List Char) : Text.kept (Text.kept text) = Text.kept text := by
  have returns : (Text.kept text).filter (· != '\r') = Text.kept text := by
    refine List.filter_eq_self.mpr fun c member => ?_
    rcases mem_squeeze c member with rfl | inside
    · rfl
    · exact (List.mem_filter.mp inside).2
  rw [Text.kept, returns]
  exact squeeze_squeeze _

theorem IsLiteral.kept_eq_iff (isLiteral : IsLiteral quote text) : Text.kept text = text ↔
    '\r' ∉ text ∧ '\t' ∉ text ∧ text.IsChain fun c d => ¬(c = ' ' ∧ d = ' ') := by
  have breaks {part : List Char} (inside : ∀ c ∈ part, c ∈ text) : squeezeBreaks part = part := by
    refine mapRuns_eq [] (by simp) fun run within _ _ => if_neg fun member => ?_
    exact (isLiteral.open_ _ (inside _ (within.subset member))).2 rfl
  constructor
  · intro same
    have spaces : squeezeSpaces (text.filter (· != '\r')) = text := by
      rw [← breaks fun c member => (List.mem_filter.mp member).1]
      exact same
    have single := squeezeSpaces_single (text.filter (· != '\r'))
    rw [spaces] at single
    refine ⟨fun member => ?_, single⟩
    rw [← spaces] at member
    rcases mem_squeezeSpaces _ member with space | inside
    · simp at space
    · simp at inside
  · rintro ⟨returns, tabs, single⟩
    have none_ : text.filter (· != '\r') = text := by
      refine List.filter_eq_self.mpr fun c member => ?_
      have other : c ≠ '\r' := by
        rintro rfl
        exact returns member
      simpa using other
    rw [Text.kept, none_, squeeze, breaks fun c member => member]
    refine squeezeSpaces_eq (fun c member => ⟨(isLiteral.open_ c member).2, ?_, ?_⟩) single
    · rintro rfl
      exact returns member
    · rintro rfl
      exact tabs member

end Literal

end Conform.Text
