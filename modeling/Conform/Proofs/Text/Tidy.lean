import Conform.Text.Comment
import Mathlib.Data.List.Chain

/-!
Text that needs no tidying: no line breaks and no tabs, one space at a time, and none at the ends.
-/

namespace Conform.Text

structure Trimmed (text : List Char) : Prop where
  starts : ∀ c ∈ text.head?, isBlank c = false
  ends : ∀ c ∈ text.getLast?, isBlank c = false

structure Tidy (text : List Char) : Prop where
  flat : ∀ c ∈ text, c ≠ '\n' ∧ c ≠ '\r' ∧ c ≠ '\t'
  single : text.IsChain fun c d => ¬(c = ' ' ∧ d = ' ')
  starts : ∀ c ∈ text.head?, isBlank c = false
  ends : ∀ c ∈ text.getLast?, isBlank c = false

theorem ne_space_of_isBlank {c : Char} (visible : isBlank c = false) : c ≠ ' ' := by
  rintro rfl
  simp [isBlank] at visible

section Trim

variable {text : List Char}

theorem trimStart_cons {c : Char} (visible : isBlank c = false) (rest : List Char) :
    trimStart (c :: rest) = c :: rest := by
  simp [trimStart, visible]

theorem trimStart_eq (starts : ∀ c ∈ text.head?, isBlank c = false) : trimStart text = text := by
  cases text with
  | nil => rfl
  | cons c rest => exact trimStart_cons (starts c (by simp)) rest

theorem trimEnd_eq (ends : ∀ c ∈ text.getLast?, isBlank c = false) : trimEnd text = text := by
  have reversed : trimStart text.reverse = text.reverse := trimStart_eq (by simpa using ends)
  unfold trimStart at reversed
  unfold trimEnd
  rw [reversed, List.reverse_reverse]

theorem Trimmed.trim_eq (trimmed : Trimmed text) : trim text = text := by
  unfold trim
  rw [trimStart_eq trimmed.starts, trimEnd_eq trimmed.ends]

theorem Trimmed.trim_pad (trimmed : Trimmed text) (some_ : text ≠ []) (before after : List Char)
    (blank : ∀ c ∈ before ++ after, isBlank c) : trim (before ++ text ++ after) = text := by
  have start : trimStart (before ++ (text ++ after)) = text ++ after := by
    unfold trimStart
    rw [List.dropWhile_append_of_pos fun c member => blank c (by simp [member])]
    refine trimStart_eq fun c head => trimmed.starts c ?_
    cases text with
    | nil => exact absurd rfl some_
    | cons d rest => simpa using head
  have end_ : trimEnd (text ++ after) = text := by
    have reversed := trimEnd_eq trimmed.ends
    unfold trimEnd at reversed ⊢
    rw [List.reverse_append,
      List.dropWhile_append_of_pos fun c member => blank c (by simp [List.mem_reverse.mp member])]
    exact reversed
  unfold trim
  rw [List.append_assoc, start, end_]

theorem Tidy.trimmed (tidy : Tidy text) : Trimmed text := ⟨tidy.starts, tidy.ends⟩

theorem Tidy.trim_eq (tidy : Tidy text) : trim text = text := tidy.trimmed.trim_eq

end Trim

section Runs

variable {inRun : Char → Bool} {replace : List Char → List Char} {text : List Char}

theorem mapRuns_eq (run : List Char) (open_ : ∀ c ∈ run, inRun c)
    (fixed : ∀ part, part <:+: run ++ text → (∀ c ∈ part, inRun c) → part ≠ [] → replace part = part) :
    mapRuns inRun replace run text = run ++ text := by
  have close : run ≠ [] → replace run = run :=
    fixed run (List.prefix_append run text).isInfix open_
  induction text generalizing run with
  | nil =>
      cases run with
      | nil => rfl
      | cons c run => simpa [mapRuns] using close (by simp)
  | cons c rest ih =>
      by_cases inside : inRun c
      · have open' : ∀ d ∈ run ++ [c], inRun d := by
          simpa [or_imp, forall_and, inside] using open_
        have fixed' : ∀ part, part <:+: run ++ [c] ++ rest → (∀ d ∈ part, inRun d) → part ≠ [] →
            replace part = part := by simpa using fixed
        simp only [mapRuns, inside, if_true]
        rw [ih _ open' fixed' (fixed' _ (List.prefix_append _ _).isInfix open')]
        simp
      · have fixed' : ∀ part, part <:+: [] ++ rest → (∀ d ∈ part, inRun d) → part ≠ [] →
            replace part = part := by
          intro part within
          exact fixed part (within.trans ⟨run ++ [c], [], by simp⟩)
        simp only [mapRuns, inside]
        rw [ih [] (by simp) fixed' (by simp)]
        cases run with
        | nil => simp
        | cons d run => simp [close (by simp)]

section Flat

variable (flat : ∀ c ∈ text, c ≠ '\n' ∧ c ≠ '\r' ∧ c ≠ '\t')

include flat

theorem squeezeBreaks_eq : squeezeBreaks text = text := by
  refine mapRuns_eq [] (by simp) fun part within _ _ => if_neg fun member => ?_
  exact (flat _ (within.subset member)).1 rfl

theorem squeezeSpaces_eq (single : text.IsChain fun c d => ¬(c = ' ' ∧ d = ' ')) :
    squeezeSpaces text = text := by
  refine mapRuns_eq [] (by simp) fun part within spaces some_ => ?_
  have isSpace : ∀ c ∈ part, c = ' ' := by
    intro c member
    have tab := (flat c (within.subset member)).2.2
    simpa [tab] using spaces c member
  have single := single.infix within
  match part with
  | [] => exact absurd rfl some_
  | [c] => simp [isSpace c (by simp)]
  | c :: d :: _ =>
      rw [List.isChain_cons_cons] at single
      exact absurd ⟨isSpace c (by simp), isSpace d (by simp)⟩ single.1

end Flat

theorem Tidy.squeezeBreaks_eq (tidy : Tidy text) : squeezeBreaks text = text :=
  Text.squeezeBreaks_eq tidy.flat

theorem Tidy.squeezeSpaces_eq (tidy : Tidy text) : squeezeSpaces text = text :=
  Text.squeezeSpaces_eq tidy.flat tidy.single

end Runs

namespace Tidy

variable {text rest : List Char}

theorem of_visible (visible : text.all fun c => !isBlank c) : Tidy text := by
  have seen : ∀ c ∈ text, isBlank c = false := by simpa using visible
  refine ⟨fun c member => ?_, ?_, ?_, ?_⟩
  · have visible := seen c member
    refine ⟨?_, ?_, ?_⟩ <;> rintro rfl <;> simp [isBlank] at visible
  · refine List.isChain_iff_getElem.mpr fun i bound spaces => ?_
    exact ne_space_of_isBlank (seen _ (List.getElem_mem _)) spaces.1
  · exact fun c head => seen c (List.mem_of_mem_head? head)
  · exact fun c last => seen c (List.mem_of_mem_getLast? last)

theorem append (tidy : Tidy text) (tidy' : Tidy rest) : Tidy (text ++ rest) where
  flat c member := (List.mem_append.mp member).elim (tidy.flat c) (tidy'.flat c)
  single := by
    refine List.isChain_append.mpr ⟨tidy.single, tidy'.single, fun c last d _ spaces => ?_⟩
    exact ne_space_of_isBlank (tidy.ends c last) spaces.1
  starts c head := by
    cases text with
    | nil => exact tidy'.starts c head
    | cons d text => exact tidy.starts c (by simpa using head)
  ends c last := by
    cases rest using List.reverseRecOn with
    | nil => exact tidy.ends c (by simpa using last)
    | append_singleton rest d => exact tidy'.ends c (by simpa [← List.append_assoc] using last)

theorem append_space (tidy : Tidy text) (tidy' : Tidy rest) (some_ : text ≠ []) (some' : rest ≠ []) :
    Tidy (text ++ ' ' :: rest) where
  flat c member := by
    rcases List.mem_append.mp member with inside | inside
    · exact tidy.flat c inside
    · rcases List.mem_cons.mp inside with rfl | inside
      · decide
      · exact tidy'.flat c inside
  single := by
    refine List.isChain_append.mpr ⟨tidy.single, ?_, fun c last d _ spaces => ?_⟩
    · refine List.isChain_cons.mpr ⟨fun c head spaces => ?_, tidy'.single⟩
      exact ne_space_of_isBlank (tidy'.starts c head) spaces.2
    · exact ne_space_of_isBlank (tidy.ends c last) spaces.1
  starts c head := by
    cases text with
    | nil => exact absurd rfl some_
    | cons d text => exact tidy.starts c (by simpa using head)
  ends c last := by
    cases rest using List.reverseRecOn with
    | nil => exact absurd rfl some'
    | append_singleton rest d =>
        have apart : text ++ ' ' :: (rest ++ [d]) = text ++ ' ' :: rest ++ [d] := by simp
        rw [apart, List.getLast?_concat] at last
        exact tidy'.ends c (by rwa [List.getLast?_concat])

end Tidy

end Conform.Text
