import Conform.Proofs.Text.Cleaned

/-!
Text that has been stripped of its comments. Carriage returns are dropped after the comments, so a slash
may come to stand before a character that was not next to it. Where that makes no comment mark, what is
left has no comments, and no part of it does that begins outside literals; stripping it again changes
nothing.
-/

namespace Conform.Text

/-- No carriage returns stand between a slash and what would make a comment mark of it. -/
def Unmasked (text : List Char) : Prop :=
  ∀ run c, '/' :: (run ++ [c]) <:+: text → run ≠ [] → (∀ d ∈ run, d = '\r') → c ≠ '/' ∧ c ≠ '*'

def unmasked : List Char → Bool
  | [] => true
  | c :: rest =>
    (c != '/' || rest.head? != some '\r' ||
      (rest.dropWhile (· == '\r')).head?.all fun d => d != '/' && d != '*') && unmasked rest

section Unmasked

variable {text rest run : List Char} {c : Char}

theorem Unmasked.tail (free : Unmasked (c :: rest)) : Unmasked rest :=
  fun run d within => free run d (within.trans (List.suffix_cons c rest).isInfix)

theorem dropWhile_return (returns : ∀ d ∈ run, d = '\r') (other : c ≠ '\r') :
    (run ++ c :: rest).dropWhile (· == '\r') = c :: rest := by
  rw [List.dropWhile_append_of_pos fun d member => by simp [returns d member]]
  simp [other]

theorem unmasked_slash_iff :
    (rest.head? != some '\r' ||
      (rest.dropWhile (· == '\r')).head?.all fun d => d != '/' && d != '*') = true ↔
    ∀ run d, run ++ [d] <+: rest → run ≠ [] → (∀ e ∈ run, e = '\r') → d ≠ '/' ∧ d ≠ '*' := by
  constructor
  · rintro first run d ⟨more, rfl⟩ some_ returns
    rw [List.append_assoc, List.singleton_append] at first
    by_cases same : d = '\r'
    · subst same
      decide
    · have head : (run ++ d :: more).head? = some '\r' := by
        obtain ⟨e, run, rfl⟩ := List.exists_cons_of_ne_nil some_
        rw [returns e List.mem_cons_self]
        rfl
      simpa [head, dropWhile_return returns same] using first
  · intro free
    by_cases head : rest.head? = some '\r'
    · have parts := List.takeWhile_append_dropWhile (p := (· == '\r')) (l := rest)
      cases left : rest.dropWhile (· == '\r') with
      | nil => simp
      | cons d more =>
          have some_ : rest.takeWhile (· == '\r') ≠ [] := by
            obtain ⟨more, rfl⟩ := List.head?_eq_some_iff.mp head
            simp
          have returns : ∀ e ∈ rest.takeWhile (· == '\r'), e = '\r' := fun e member => by
            simpa using List.mem_takeWhile_imp member
          rw [left, ← List.singleton_append, ← List.append_assoc] at parts
          have other := free _ d ⟨more, parts⟩ some_ returns
          simp [other]
    · simp [head]

theorem unmasked_iff : unmasked text ↔ Unmasked text := by
  induction text with
  | nil => simp [unmasked, Unmasked]
  | cons c rest ih =>
      rw [unmasked, Bool.or_assoc, Bool.and_eq_true, Bool.or_eq_true, unmasked_slash_iff, ih]
      constructor
      · rintro ⟨first, others⟩ run d within some_ returns
        rcases List.infix_cons_iff.mp within with start | inner
        · obtain ⟨rfl, behind⟩ := List.cons_prefix_cons.mp start
          exact first.resolve_left (by simp) run d behind some_ returns
        · exact others run d inner some_ returns
      · refine fun free => ⟨?_, free.tail⟩
        by_cases slash : c = '/'
        · subst slash
          exact .inr fun run d start => free run d (List.cons_prefix_cons.mpr ⟨rfl, start⟩).isInfix
        · simp [slash]

instance (text : List Char) : Decidable (Unmasked text) :=
  decidable_of_iff _ unmasked_iff

end Unmasked

def Region.literal : Region → Option Char
  | code | lineComment | blockComment => none
  | quoted quote => some quote

section Returns

theorem head_withoutComments {text : List Char}
    (next : ∀ run c more, text = run ++ c :: more → (∀ d ∈ run, d = '\r') → c ≠ '/' ∧ c ≠ '*') :
    ∀ c ∈ ((withoutComments .code text).filter (· != '\r')).head?, c ≠ '/' ∧ c ≠ '*' := by
  induction text with
  | nil => simp [withoutComments]
  | cons c text ih =>
      have first := next [] c text rfl (by simp)
      rw [withoutComments_code _ first.1]
      by_cases same : c = '\r'
      · subst same
        refine ih fun run d more parts returns => next ('\r' :: run) d more (by rw [parts]; rfl) ?_
        exact List.forall_mem_cons.mpr ⟨rfl, returns⟩
      · simpa [same] using first

theorem commentless_filter_cons {quote : Option Char} {c : Char} {rest : List Char} (sound : quote ≠ some '\r')
    (unmarked : quote = none → ¬Marks c (rest.filter (· != '\r')))
    (others : Commentless (literalAfter quote c) (rest.filter (· != '\r'))) :
    Commentless quote ((c :: rest).filter (· != '\r')) := by
  by_cases same : c = '\r'
  · have onward : literalAfter quote c = quote := by
      subst same
      cases quote with
      | none => rfl
      | some quote => simp [literalAfter, Ne.symm (fun same => sound (congrArg some same))]
    rw [onward] at others
    simpa [same] using others
  · rw [List.filter_cons_of_pos (by simpa using same)]
    exact commentless_cons.mpr ⟨fun both => unmarked both.1 both.2, others⟩

theorem commentless_filter (region : Region) (text : List Char) (sound : region.literal ≠ some '\r')
    (free : Unmasked text) :
    Commentless region.literal ((withoutComments region text).filter (· != '\r')) := by
  fun_induction withoutComments region text with
  | case1 region => exact commentless_nil _
  | case2 rest ih => exact ih sound free.tail.tail
  | case3 rest ih => exact ih sound free.tail.tail
  | case4 c rest noLine noBlock ih =>
      have next : (if opensLiteral c then Region.quoted c else .code).literal = literalAfter none c := by
        simp only [literalAfter]
        split <;> rfl
      refine commentless_filter_cons sound (fun _ marks => ?_) ?_
      · obtain ⟨rfl, mark⟩ := marks
        have other : ∀ c ∈ ((withoutComments .code rest).filter (· != '\r')).head?, c ≠ '/' ∧ c ≠ '*' := by
          refine head_withoutComments ?_
          rintro run c more rfl returns
          cases run with
          | nil =>
              refine ⟨?_, ?_⟩ <;> rintro rfl
              · exact noLine more rfl rfl
              · exact noBlock more rfl rfl
          | cons d run => exact free (d :: run) c ⟨[], more, by simp⟩ (by simp) returns
        rcases mark with mark | mark
        · exact (other _ mark).1 rfl
        · exact (other _ mark).2 rfl
      · rw [next] at ih
        refine ih (fun returns => ?_) free.tail
        have opens := opened_literalAfter (by simp) c _ returns
        cases opens
  | case5 quote c rest ih =>
      have next : (if c = quote ∨ c = '\n' then Region.code else .quoted quote).literal =
          literalAfter (some quote) c := by
        simp only [literalAfter]
        split <;> rfl
      refine commentless_filter_cons sound (by rintro ⟨⟩) ?_
      rw [next] at ih
      refine ih ?_ free.tail
      rw [literalAfter]
      split
      · simp
      · exact sound
  | case6 rest ih => exact commentless_filter_cons sound (by simp [Marks]) (ih sound free.tail)
  | case7 c rest other ih => exact ih sound free.tail
  | case8 rest ih => exact ih sound free.tail.tail
  | case9 c rest other ih => exact ih sound free.tail

end Returns

structure Stripped (text : List Char) : Prop where
  commentless : Commentless none text
  returns : '\r' ∉ text
  squeezed : squeeze text = text
  trimmed : Trimmed text

section Part

variable {text before part after : List Char}

theorem Stripped.eq (stripped : Stripped text) : stripComments text = text := by
  rw [stripComments_eq_trim, clean_eq stripped.commentless stripped.returns stripped.squeezed,
    stripped.trimmed.trim_eq]

theorem squeeze_part (trimmed : Trimmed part)
    (squeezed : squeeze (before ++ part ++ after) = before ++ part ++ after) : squeeze part = part := by
  rw [List.append_assoc] at squeezed
  by_cases some_ : part = []
  · rw [some_]
    rfl
  · have starts : ∀ c ∈ (part ++ after).head?, isBlank c = false := by
      rw [List.head?_append_of_ne_nil _ some_]
      exact trimmed.starts
    have inner := (squeezed_parts (squeeze_append_of_starts starts before) squeezed).2
    exact (squeezed_parts (squeeze_append_of_ends trimmed.ends after) inner).1

theorem Commentless.rest {quote : Option Char} (clean : Commentless quote (before ++ part)) :
    Commentless (before.foldl literalAfter quote) part := by
  induction before generalizing quote with
  | nil => exact clean
  | cons c before ih => exact ih (commentless_cons.mp clean).2

def openLiteral (text : List Char) : Option Char :=
  text.foldl literalAfter none

/-- A part that begins outside literals is left as it is where the whole is. -/
theorem Stripped.stretch (stripped : Stripped (before ++ part ++ after))
    (closed : openLiteral before = none) (trimmed : Trimmed part) : Stripped part where
  commentless := by
    have inner := stripped.commentless.of_append.rest
    rwa [show before.foldl literalAfter none = none from closed] at inner
  returns member := stripped.returns (by simp [member])
  squeezed := squeeze_part trimmed stripped.squeezed
  trimmed := trimmed

theorem commentless_of_length {quote : Option Char}
    (whole : text.length ≤ (withoutComments (.inText quote) text).length) : Commentless quote text := by
  induction text generalizing quote with
  | nil => exact commentless_nil quote
  | cons c rest ih =>
      by_cases marked : quote = none ∧ Marks c rest
      · obtain ⟨rfl, marks⟩ := marked
        exact absurd marks.length_lt (Nat.not_lt.mpr whole)
      · rw [withoutComments_cons marked] at whole
        exact commentless_cons.mpr ⟨marked, ih (Nat.le_of_succ_le_succ whole)⟩

theorem mem_clean {c : Char} (member : c ∈ stripComments text) : c ∈ clean text := by
  obtain ⟨before, after, _, parts⟩ := exists_trim (clean text)
  rw [parts]
  simp [← stripComments_eq_trim, member]

theorem squeeze_stripComments (text : List Char) : squeeze (stripComments text) = stripComments text := by
  obtain ⟨before, after, _, parts⟩ := exists_trim (clean text)
  have squeezed : squeeze (clean text) = clean text := squeeze_squeeze _
  rw [parts] at squeezed
  exact squeeze_part (trimmed_trim (clean text)) squeezed

/-- The texts that are left as they are. -/
theorem stripped_iff : Stripped text ↔ stripComments text = text := by
  refine ⟨Stripped.eq, fun same => ?_⟩
  have trimmed := length_trim (clean text)
  have squeezed := length_squeeze ((withoutComments .code text).filter (· != '\r'))
  have filtered := List.length_filter_le (· != '\r') (withoutComments .code text)
  have whole : text.length ≤ (withoutComments (.inText none) text).length := by
    conv_lhs => rw [← same, stripComments_eq_trim]
    exact Nat.le_trans (Nat.le_trans trimmed squeezed) filtered
  refine ⟨commentless_of_length whole, fun member => ?_, same ▸ squeeze_stripComments text,
    same ▸ trimmed_trim (clean text)⟩
  rw [← same] at member
  exact return_not_mem_clean text (mem_clean member)

theorem stripped_stripComments (free : Unmasked text) : Stripped (stripComments text) where
  commentless := by
    obtain ⟨before, after, blank, parts⟩ := exists_trim (clean text)
    have inner : Commentless none (clean text) :=
      Commentless.squeeze (by simp) (commentless_filter .code text (by simp [Region.literal]) free)
    rw [parts] at inner
    have front := inner.of_append
    rw [commentless_blank_append (by simp) fun c member => blank c (List.mem_append_left _ member),
      ite_self] at front
    exact front
  returns member := return_not_mem_clean text (mem_clean member)
  squeezed := squeeze_stripComments text
  trimmed := trimmed_trim (clean text)

end Part

end Conform.Text
