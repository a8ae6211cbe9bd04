import Conform.Proofs.Text.Tidy
import Mathlib.Data.List.TakeWhile

/-!
What becomes of white space. A character that is none stands between two texts that are squeezed by
themselves, so a text in the middle of another one is squeezed as it is alone; and what is squeezed
stays so.
-/

namespace Conform.Text

section Runs

variable {inRun : Char → Bool} {replace : List Char → List Char}

inductive Spaced (inRun : Char → Bool) : List Char → Prop where
  | run {run : List Char} (inside : ∀ c ∈ run, inRun c) : Spaced inRun run
  | between {run rest : List Char} {c : Char} (inside : ∀ c ∈ run, inRun c) (outside : inRun c = false)
      (spaced : Spaced inRun rest) : Spaced inRun (run ++ c :: rest)

theorem spaced (inRun : Char → Bool) (text : List Char) : Spaced inRun text := by
  induction text with
  | nil => exact .run (by simp)
  | cons d text ih =>
      by_cases inside : inRun d
      · cases ih with
        | run all => exact .run (List.forall_mem_cons.mpr ⟨inside, all⟩)
        | between all outside spaced =>
            exact .between (List.forall_mem_cons.mpr ⟨inside, all⟩) outside spaced
      · have apart : Spaced inRun ([] ++ d :: text) := .between (by simp) (by simpa using inside) ih
        exact apart

theorem mapRuns_run {run : List Char} (inside : ∀ c ∈ run, inRun c) (before : List Char) :
    mapRuns inRun replace before run =
      if (before ++ run).isEmpty then [] else replace (before ++ run) := by
  induction run generalizing before with
  | nil => simp [mapRuns]
  | cons c run ih =>
      obtain ⟨first, others⟩ := List.forall_mem_cons.mp inside
      simp only [mapRuns, first, if_true]
      rw [ih others, List.append_assoc, List.singleton_append]

theorem mapRuns_append_cons {c : Char} (outside : inRun c = false) (run before after : List Char) :
    mapRuns inRun replace run (before ++ c :: after) =
      mapRuns inRun replace run before ++ c :: mapRuns inRun replace [] after := by
  induction before generalizing run with
  | nil => simp [mapRuns, outside]
  | cons d before ih =>
      by_cases inside : inRun d
      · simp only [List.cons_append, mapRuns, inside, if_true, ih]
      · simp only [List.cons_append, mapRuns, inside, ih]
        simp

theorem mapRuns_mapRuns
    (closed : ∀ run, run ≠ [] → (∀ c ∈ run, inRun c) →
      (∀ c ∈ replace run, inRun c) ∧ replace run ≠ [] ∧ replace (replace run) = replace run)
    (text : List Char) :
    mapRuns inRun replace [] (mapRuns inRun replace [] text) = mapRuns inRun replace [] text := by
  have closed' (run : List Char) (inside : ∀ c ∈ run, inRun c) :
      (∀ c ∈ mapRuns inRun replace [] run, inRun c) ∧
        mapRuns inRun replace [] (mapRuns inRun replace [] run) = mapRuns inRun replace [] run := by
    rw [mapRuns_run inside]
    cases run with
    | nil => simp [mapRuns]
    | cons d run =>
        obtain ⟨inside', some_, same⟩ := closed (d :: run) (by simp) inside
        refine ⟨inside', ?_⟩
        simp only [List.nil_append, List.isEmpty_cons]
        rw [if_neg (by simp), mapRuns_run inside', List.nil_append, if_neg (by simpa using some_), same]
  induction spaced inRun text with
  | run inside => exact (closed' _ inside).2
  | between inside outside _ ih =>
      rw [mapRuns_append_cons outside, mapRuns_append_cons outside, (closed' _ inside).2, ih]

end Runs

def squeeze (text : List Char) : List Char :=
  squeezeSpaces (squeezeBreaks text)

@[simp] theorem squeeze_nil : squeeze [] = [] := rfl

theorem squeeze_append_cons {c : Char} (visible : isBlank c = false) (before after : List Char) :
    squeeze (before ++ c :: after) = squeeze before ++ c :: squeeze after := by
  have other : (c == ' ' || c == '\t') = false := by
    rw [Bool.or_eq_false_iff, beq_eq_false_iff_ne, beq_eq_false_iff_ne]
    constructor <;> rintro rfl <;> simp [isBlank] at visible
  unfold squeeze squeezeSpaces squeezeBreaks
  rw [mapRuns_append_cons visible, mapRuns_append_cons other]

theorem squeezeSpaces_squeezeSpaces (text : List Char) :
    squeezeSpaces (squeezeSpaces text) = squeezeSpaces text :=
  mapRuns_mapRuns (by simp) text

theorem mem_squeezeSpaces {text : List Char} : ∀ c ∈ squeezeSpaces text, c = ' ' ∨ c ∈ text := by
  have kept (run : List Char) :
      ∀ c ∈ mapRuns (fun c => c == ' ' || c == '\t') (fun _ => [' ']) run text, c = ' ' ∨ c ∈ text := by
    induction text generalizing run with
    | nil =>
        intro c member
        simp only [mapRuns] at member
        split at member
        · simp at member
        · exact .inl (by simpa using member)
    | cons d text ih =>
        intro c member
        simp only [mapRuns] at member
        split at member
        · exact (ih _ c member).imp id (List.mem_cons_of_mem d)
        · rcases List.mem_append.mp member with closing | later
          · split at closing
            · simp at closing
            · exact .inl (by simpa using closing)
          · rcases List.mem_cons.mp later with rfl | later
            · exact .inr List.mem_cons_self
            · exact (ih [] c later).imp id (List.mem_cons_of_mem d)
  exact kept []

theorem squeezeSpaces_ne_nil {text : List Char} (some_ : text ≠ []) : squeezeSpaces text ≠ [] := by
  unfold squeezeSpaces
  cases spaced (fun c => c == ' ' || c == '\t') text with
  | run inside =>
      rw [mapRuns_run inside, List.nil_append, if_neg (by simpa using some_)]
      simp
  | between inside outside spaced =>
      rw [mapRuns_append_cons outside]
      simp

section Blank

variable {run : List Char} (blank : ∀ c ∈ run, isBlank c)

include blank

theorem squeeze_blank : squeeze run = if '\n' ∈ run then ['\n'] else squeezeSpaces run := by
  unfold squeeze squeezeBreaks
  rw [mapRuns_run blank, List.nil_append]
  cases run with
  | nil => rfl
  | cons c run =>
      simp only [List.isEmpty_cons]
      rw [if_neg (by simp)]
      split <;> rfl

theorem mem_squeeze_blank : ∀ c ∈ squeeze run, c = ' ' ∨ c ∈ run := by
  intro c member
  rw [squeeze_blank blank] at member
  split at member
  · rename_i broken
    rw [List.mem_singleton.mp member]
    exact .inr broken
  · exact mem_squeezeSpaces c member

theorem isBlank_squeeze : ∀ c ∈ squeeze run, isBlank c := by
  intro c member
  rcases mem_squeeze_blank blank c member with rfl | inside
  · rfl
  · exact blank c inside

theorem squeeze_blank_ne_nil (some_ : run ≠ []) : squeeze run ≠ [] := by
  rw [squeeze_blank blank]
  split
  · simp
  · exact squeezeSpaces_ne_nil some_

theorem newline_mem_squeeze : '\n' ∈ squeeze run ↔ '\n' ∈ run := by
  rw [squeeze_blank blank]
  split
  · simp_all
  · rename_i flat
    refine iff_of_false (fun member => ?_) flat
    rcases mem_squeezeSpaces _ member with space | inside
    · simp at space
    · exact flat inside

theorem squeeze_squeeze_blank : squeeze (squeeze run) = squeeze run := by
  have again := squeeze_blank (isBlank_squeeze blank)
  rw [again]
  split
  · rename_i broken
    rw [squeeze_blank blank, if_pos ((newline_mem_squeeze blank).mp broken)]
  · rename_i flat
    rw [squeeze_blank blank, if_neg (mt (newline_mem_squeeze blank).mpr flat),
      squeezeSpaces_squeezeSpaces]

end Blank

theorem mem_squeeze {text : List Char} : ∀ c ∈ squeeze text, c = ' ' ∨ c ∈ text := by
  induction spaced isBlank text with
  | run blank => exact mem_squeeze_blank blank
  | between blank visible _ ih =>
      intro c member
      rw [squeeze_append_cons visible] at member
      rcases List.mem_append.mp member with inside | later
      · exact (mem_squeeze_blank blank c inside).imp id (List.mem_append_left _)
      · rcases List.mem_cons.mp later with rfl | later
        · exact .inr (List.mem_append_right _ List.mem_cons_self)
        · refine (ih c later).imp id fun member => ?_
          exact List.mem_append_right _ (List.mem_cons_of_mem _ member)

theorem squeeze_squeeze (text : List Char) : squeeze (squeeze text) = squeeze text := by
  induction spaced isBlank text with
  | run blank => exact squeeze_squeeze_blank blank
  | between blank visible _ ih =>
      rw [squeeze_append_cons visible, squeeze_append_cons visible, squeeze_squeeze_blank blank, ih]

theorem head?_squeeze {text : List Char} {c : Char} (visible : isBlank c = false)
    (head : (squeeze text).head? = some c) : text.head? = some c := by
  have not_blank {run : List Char} (blank : ∀ d ∈ run, isBlank d) : (squeeze run).head? ≠ some c := by
    intro first
    have blank := isBlank_squeeze blank c (List.mem_of_mem_head? first)
    simp [visible] at blank
  cases spaced isBlank text with
  | run blank => exact absurd head (not_blank blank)
  | @between run rest d blank visible' _ =>
      rw [squeeze_append_cons visible'] at head
      cases run with
      | nil => simpa using head
      | cons e run =>
          have some_ := squeeze_blank_ne_nil blank (by simp)
          rw [List.head?_append_of_ne_nil _ some_] at head
          exact absurd head (not_blank blank)

theorem squeeze_append_of_starts {text : List Char} (starts : ∀ c ∈ text.head?, isBlank c = false)
    (before : List Char) : squeeze (before ++ text) = squeeze before ++ squeeze text := by
  cases text with
  | nil => simp
  | cons c text =>
      have visible := starts c (by simp)
      rw [squeeze_append_cons visible]
      exact congrArg (squeeze before ++ ·) (squeeze_append_cons visible [] text).symm

theorem squeeze_append_of_ends {text : List Char} (ends : ∀ c ∈ text.getLast?, isBlank c = false)
    (after : List Char) : squeeze (text ++ after) = squeeze text ++ squeeze after := by
  cases text using List.reverseRecOn with
  | nil => simp
  | append_singleton text c =>
      have visible := ends c (by simp)
      rw [List.append_assoc, List.singleton_append, squeeze_append_cons visible,
        squeeze_append_cons visible text []]
      simp

namespace Trimmed

variable {text : List Char} (trimmed : Trimmed text)

include trimmed

theorem squeeze_between (some_ : text ≠ []) (before after : List Char) :
    squeeze (before ++ text ++ after) = squeeze before ++ squeeze text ++ squeeze after := by
  have starts : ∀ c ∈ (text ++ after).head?, isBlank c = false := by
    rw [List.head?_append_of_ne_nil _ some_]
    exact trimmed.starts
  rw [List.append_assoc, squeeze_append_of_starts starts, squeeze_append_of_ends trimmed.ends,
    List.append_assoc]

theorem squeeze : Trimmed (squeeze text) where
  starts c head := by
    cases text with
    | nil => simp at head
    | cons d text =>
        have visible := trimmed.starts d (by simp)
        rw [show Text.squeeze (d :: text) = d :: Text.squeeze text from
          squeeze_append_cons visible [] text] at head
        obtain rfl : d = c := by simpa using head
        exact visible
  ends c last := by
    cases text using List.reverseRecOn with
    | nil => simp at last
    | append_singleton text d =>
        have visible := trimmed.ends d (by simp)
        rw [squeeze_append_cons visible text []] at last
        obtain rfl : d = c := by simpa using last
        exact visible

theorem squeeze_ne_nil (some_ : text ≠ []) : Text.squeeze text ≠ [] := by
  cases text with
  | nil => exact absurd rfl some_
  | cons c text => simp [show Text.squeeze (c :: text) = c :: Text.squeeze text from
      squeeze_append_cons (trimmed.starts c (by simp)) [] text]

end Trimmed

theorem isBlank_takeWhile (text : List Char) : ∀ c ∈ text.takeWhile isBlank, isBlank c :=
  List.all_eq_true.mp List.all_takeWhile

theorem trimStart_head (text : List Char) : ∀ c ∈ (trimStart text).head?, isBlank c = false := by
  intro c head
  have first := List.head?_dropWhile_not isBlank text
  rw [show (text.dropWhile isBlank).head? = some c from head] at first
  exact first

theorem exists_trimEnd (text : List Char) :
    ∃ after, (∀ c ∈ after, isBlank c) ∧ text = trimEnd text ++ after := by
  refine ⟨(text.reverse.takeWhile isBlank).reverse, ?_, ?_⟩
  · intro c member
    exact isBlank_takeWhile _ c (List.mem_reverse.mp member)
  · unfold trimEnd
    rw [← List.reverse_append, List.takeWhile_append_dropWhile, List.reverse_reverse]

theorem trimmed_trim (text : List Char) : Trimmed (trim text) where
  starts c head := by
    obtain ⟨after, _, parts⟩ := exists_trimEnd (trimStart text)
    refine trimStart_head text c ?_
    rw [parts]
    exact List.mem_head?_append_of_mem_head? head
  ends c last := by
    refine trimStart_head (trimStart text).reverse c ?_
    simpa [trim, trimEnd, trimStart] using last

theorem trim_blank {text : List Char} (blank : ∀ c ∈ text, isBlank c) : trim text = [] := by
  have start : trimStart text = [] := List.dropWhile_eq_nil_iff.mpr blank
  rw [trim, start]
  rfl

theorem exists_trim (text : List Char) :
    ∃ before after, (∀ c ∈ before ++ after, isBlank c) ∧ text = before ++ trim text ++ after := by
  obtain ⟨after, blank, parts⟩ := exists_trimEnd (trimStart text)
  refine ⟨text.takeWhile isBlank, after, ?_, ?_⟩
  · intro c member
    exact (List.mem_append.mp member).elim (isBlank_takeWhile text c) (blank c)
  · have whole : text = text.takeWhile isBlank ++ trimStart text := List.takeWhile_append_dropWhile.symm
    rw [List.append_assoc, trim, ← parts]
    exact whole

theorem trim_isInfix (text : List Char) : trim text <:+: text := by
  obtain ⟨before, after, _, parts⟩ := exists_trim text
  exact ⟨before, after, parts.symm⟩

theorem trim_blank_append {run : List Char} (blank : ∀ c ∈ run, isBlank c) (text : List Char) :
    trim (run ++ text) = trim text := by
  have start : trimStart (run ++ text) = trimStart text := List.dropWhile_append_of_pos blank
  rw [trim, start, trim]

theorem trim_append_blank {run : List Char} (blank : ∀ c ∈ run, isBlank c) (text : List Char) :
    trim (text ++ run) = trim text := by
  obtain ⟨before, after, blank', parts⟩ := exists_trim text
  by_cases some_ : trim text = []
  · rw [some_, List.append_nil] at parts
    rw [some_]
    refine trim_blank fun c among => ?_
    rw [parts] at among
    exact (List.mem_append.mp among).elim (blank' c) (blank c)
  · have pad := (trimmed_trim text).trim_pad some_ before (after ++ run) ?_
    · rwa [← List.append_assoc, ← parts] at pad
    · intro c among
      rw [← List.append_assoc] at among
      exact (List.mem_append.mp among).elim (blank' c) (blank c)

/-- Trimming and squeezing may change places. -/
theorem trim_squeeze (text : List Char) : trim (squeeze text) = squeeze (trim text) := by
  obtain ⟨before, after, blank, parts⟩ := exists_trim text
  have trimmed := trimmed_trim text
  by_cases some_ : trim text = []
  · rw [some_, List.append_nil] at parts
    rw [some_, parts, trim_blank (isBlank_squeeze blank)]
    rfl
  · rw [show squeeze text = _ from (congrArg squeeze parts).trans (trimmed.squeeze_between some_ before after)]
    refine trimmed.squeeze.trim_pad (trimmed.squeeze_ne_nil some_) _ _ fun c member => ?_
    rcases List.mem_append.mp member with inside | inside
    · exact isBlank_squeeze (fun d member => blank d (List.mem_append_left _ member)) c inside
    · exact isBlank_squeeze (fun d member => blank d (List.mem_append_right _ member)) c inside

end Conform.Text
