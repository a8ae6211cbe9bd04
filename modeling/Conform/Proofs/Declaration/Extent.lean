import Conform.Proofs.Expr.Length
import Conform.Proofs.Expr.Printed
import Conform.Proofs.Resolver.Graph
import Conform.Proofs.Text.Squeezed
import Mathlib.Data.List.Perm.Subperm

/-!
What a text can declare. A declared name and its definition stand in the text, so only so many names can
be declared.
-/

namespace Conform

namespace Text

theorem firstMatch?_some {α : Type} {read : Option Char → List Char → Option α}
    {before : Option Char} {text : List Char} {found : α}
    (matched : firstMatch? read before text = some found) :
    ∃ earlier rest, rest <:+ text ∧ read earlier rest = some found := by
  induction text generalizing before with
  | nil => exact ⟨before, [], List.suffix_refl [], matched⟩
  | cons c rest ih =>
      simp only [firstMatch?] at matched
      split at matched
      · rename_i value here
        cases matched
        exact ⟨before, c :: rest, List.suffix_refl _, here⟩
      · obtain ⟨earlier, later, suffix, here⟩ := ih matched
        exact ⟨earlier, later, suffix.trans (List.suffix_cons c rest), here⟩

theorem after?_suffix {start text rest : List Char} (found : after? start text = some rest) :
    rest <:+ text := by
  rw [after?_eq_some.mp found]
  exact List.suffix_append start rest

theorem occurs_of_after? {start text rest : List Char} (found : after? start text = some rest) :
    start <:+: text := by
  rw [after?_eq_some.mp found]
  exact (List.prefix_append start rest).isInfix

theorem mem_blankSplits {text start : List Char} :
    start ∈ blankSplits text ↔ ∃ run, (∀ c ∈ run, isBlank c) ∧ text = run ++ start := by
  induction text with
  | nil => simp [blankSplits]
  | cons c text ih =>
      rw [blankSplits]
      split
      next blank =>
        rw [List.mem_append, ih, List.mem_singleton]
        constructor
        · rintro (⟨run, others, rfl⟩ | rfl)
          · exact ⟨c :: run, List.forall_mem_cons.mpr ⟨blank, others⟩, rfl⟩
          · exact ⟨[], by simp, rfl⟩
        · rintro ⟨run, all_, parts⟩
          cases run with
          | nil => exact .inr parts.symm
          | cons d run =>
              obtain ⟨rfl, rest⟩ := List.cons.inj parts
              exact .inl ⟨run, (List.forall_mem_cons.mp all_).2, rest⟩
      next visible =>
        rw [List.mem_singleton]
        constructor
        · rintro rfl
          exact ⟨[], by simp, rfl⟩
        · rintro ⟨run, all_, parts⟩
          cases run with
          | nil => exact parts.symm
          | cons d run =>
              obtain ⟨rfl, _⟩ := List.cons.inj parts
              exact absurd (all_ c List.mem_cons_self) visible

theorem mem_blankSplitsSome {text start : List Char} : start ∈ blankSplitsSome text ↔
    ∃ run, run ≠ [] ∧ (∀ c ∈ run, isBlank c) ∧ text = run ++ start := by
  cases text with
  | nil => simp [blankSplitsSome]
  | cons c text =>
      have inner : start ∈ blankSplitsSome (c :: text) ↔ isBlank c ∧ start ∈ blankSplits text := by
        rw [blankSplitsSome]
        split <;> simp_all
      rw [inner, mem_blankSplits]
      constructor
      · rintro ⟨blank, run, others, rfl⟩
        exact ⟨c :: run, by simp, List.forall_mem_cons.mpr ⟨blank, others⟩, rfl⟩
      · rintro ⟨run, some_, all_, parts⟩
        obtain ⟨d, run, rfl⟩ := List.exists_cons_of_ne_nil some_
        obtain ⟨rfl, rest⟩ := List.cons.inj parts
        obtain ⟨blank, others⟩ := List.forall_mem_cons.mp all_
        exact ⟨blank, run, others, rest⟩

theorem blankSplitsSome_suffix {text : List Char} :
    ∀ rest ∈ blankSplitsSome text, rest <:+ text := by
  intro rest member
  obtain ⟨run, _, _, rfl⟩ := mem_blankSplitsSome.mp member
  exact List.suffix_append run rest

end Text

namespace Declaration

open Text

theorem interfaceHeader?_some {name text found : List Char} {before : Option Char}
    (read : interfaceHeader? name before text = some found) : found = text ∧ name <:+: text := by
  simp only [interfaceHeader?, Option.bind_eq_bind] at read
  split at read
  · cases read
  · obtain ⟨rest, keyword, read⟩ := Option.bind_eq_some_iff.mp read
    split at read
    · rename_i named
      cases read
      obtain ⟨start, member, here⟩ := List.any_eq_true.mp named
      refine ⟨rfl, ?_⟩
      split at here
      · cases here
      · rename_i left found
        have inner := (occurs_of_after? found).trans (blankSplitsSome_suffix start member).isInfix
        exact inner.trans (after?_suffix keyword).isInfix
    · cases read

theorem map_cons_eq_ok {read : Except ScanFault (List Char)} {c : Char} {found : List Char} :
    read.map (c :: ·) = .ok found ↔ ∃ more, read = .ok more ∧ found = c :: more := by
  cases read with
  | error fault => simp [Except.map]
  | ok more => simp [Except.map, eq_comm]

theorem readBraces_isPrefix {depth : Nat} {quote : Option Char} {text found : List Char}
    (read : readBraces depth quote text = .ok found) : found <+: text := by
  induction text generalizing depth quote found with
  | nil => cases read
  | cons c rest ih =>
      have extended {depth : Nat} {quote : Option Char}
          (read : (readBraces depth quote rest).map (c :: ·) = .ok found) : found <+: c :: rest := by
        obtain ⟨more, inside, rfl⟩ := map_cons_eq_ok.mp read
        exact List.cons_prefix_cons.mpr ⟨rfl, ih inside⟩
      simp only [readBraces] at read
      split at read
      · exact extended read
      · split at read
        · exact extended read
        · split at read
          next closing =>
            split at read
            · cases read
            · cases read
              exact closing ▸ ⟨rest, rfl⟩
            · exact extended read
          · exact extended read

theorem interface?_some {name text expr : List Char} (found : interface? name text = .ok (some expr)) :
    name <:+: text ∧ expr <:+: text := by
  unfold interface? at found
  split at found
  · cases found
  · rename_i start matched
    obtain ⟨before, rest, suffix, header⟩ := firstMatch?_some matched
    obtain ⟨rfl, named⟩ := interfaceHeader?_some header
    refine ⟨named.trans suffix.isInfix, ?_⟩
    cases read : readBraces 0 none start with
    | error fault =>
        rw [read] at found
        cases found
    | ok braces =>
        rw [read] at found
        cases found
        exact (readBraces_isPrefix read).isInfix.trans suffix.isInfix

theorem afterAliasHeader?_some {name text rest : List Char} {before : Option Char}
    (read : afterAliasHeader? name before text = some rest) : rest <:+ text ∧ name <:+: text := by
  simp only [afterAliasHeader?, Option.bind_eq_bind] at read
  split at read
  · cases read
  · obtain ⟨inner, keyword, read⟩ := Option.bind_eq_some_iff.mp read
    obtain ⟨start, member, read⟩ := List.exists_of_findSome?_eq_some read
    obtain ⟨left, named, read⟩ := Option.bind_eq_some_iff.mp read
    have outer := (blankSplitsSome_suffix start member).trans (after?_suffix keyword)
    refine ⟨?_, (occurs_of_after? named).trans outer.isInfix⟩
    have trimmed : trimStart left <:+ left := List.dropWhile_suffix _
    exact ((after?_suffix read).trans trimmed).trans ((after?_suffix named).trans outer)

theorem readBody_isPrefix (place : Place) (text : List Char) : (readBody place text).1 <+: text := by
  induction text generalizing place with
  | nil => exact List.prefix_refl []
  | cons c rest ih =>
      simp only [readBody]
      split
      · exact List.nil_prefix
      · exact List.cons_prefix_cons.mpr ⟨rfl, ih _⟩

theorem alias?_some {name text expr : List Char} (found : alias? name text = .ok (some expr)) :
    name <:+: text ∧ expr <:+: text := by
  unfold alias? at found
  split at found
  · cases found
  · rename_i start matched
    obtain ⟨before, rest, suffix, header⟩ := firstMatch?_some matched
    obtain ⟨left, named⟩ := afterAliasHeader?_some header
    refine ⟨named.trans suffix.isInfix, ?_⟩
    dsimp only at found
    split at found
    · cases found
      have body := (readBody_isPrefix .start start).isInfix
      exact ((trim_isInfix _).trans body).trans (left.trans suffix).isInfix
    · cases found

theorem find_some {name text expr : List Char} (found : find name text = .ok (some expr)) :
    name <:+: text ∧ expr <:+: text := by
  unfold find at found
  split at found
  · exact alias?_some found
  · exact interface?_some found

end Declaration

def stretches (text : List Char) : List (List Char) :=
  (List.range (text.length + 1)).flatMap fun start =>
    (List.range (text.length + 1)).map fun length => (text.drop start).take length

theorem mem_stretches {part text : List Char} (inside : part <:+: text) : part ∈ stretches text := by
  obtain ⟨before, after, rfl⟩ := inside
  refine List.mem_flatMap.mpr ⟨before.length, ?_, List.mem_map.mpr ⟨part.length, ?_, ?_⟩⟩
  · simp only [List.mem_range, List.length_append]
    omega
  · simp only [List.mem_range, List.length_append]
    omega
  · simp

theorem length_stretches (text : List Char) :
    (stretches text).length = (text.length + 1) * (text.length + 1) := by
  simp [stretches, List.length_flatMap]

namespace Sources

def places (sources : Sources) : List Place :=
  sources.files.entries.flatMap fun (path, content) =>
    match content with
    | .text content => (stretches (Text.stripComments content.toList)).map fun name =>
        (String.ofList name, path.components)
    | .unreadable _ => []

variable {sources : Sources}

theorem text_ok {file : FilePath} {text : List Char} (found : sources.text file = .ok text) :
    ∃ path content, (path, .text content) ∈ sources.files.entries ∧
      path.components = file.components ∧ text = Text.stripComments content.toList := by
  unfold Sources.text at found
  split at found
  · cases found
  · cases found
  · rename_i content known
    cases found
    obtain ⟨⟨path, content⟩, entry, rfl⟩ := Option.map_eq_some_iff.mp known
    have same : path.sameAs file = true := by simpa using List.find?_some entry
    exact ⟨path, _, List.mem_of_find?_eq_some entry, FilePath.sameAs_iff.mp same, rfl⟩

theorem mem_places {key : DeclKey} {expr : List Char} (defined : sources.definition key = .ok expr) :
    key.place ∈ sources.places := by
  obtain ⟨text, read, found⟩ := definition_ok_iff.mp defined
  obtain ⟨path, content, entry, same, rfl⟩ := text_ok read
  refine List.mem_flatMap.mpr ⟨_, entry, List.mem_map.mpr ⟨key.name.toList, ?_, ?_⟩⟩
  · exact mem_stretches (Declaration.find_some found).1
  · simp [DeclKey.place, same]

def Bounded (sources : Sources) (length : Nat) : Prop :=
  ∀ path content, (path, .text content) ∈ sources.files.entries → content.toList.length ≤ length

theorem length_definition {length : Nat} (bounded : sources.Bounded length) {key : DeclKey}
    {expr : List Char} (defined : sources.definition key = .ok expr) : expr.length ≤ length := by
  obtain ⟨text, read, found⟩ := definition_ok_iff.mp defined
  obtain ⟨path, content, entry, _, rfl⟩ := text_ok read
  have shorter := Text.length_stripComments content.toList
  exact Nat.le_trans (Nat.le_trans (Declaration.find_some found).2.length_le shorter) (bounded path content entry)

theorem length_places {length : Nat} (bounded : sources.Bounded length) :
    sources.places.length ≤ sources.files.entries.length * ((length + 1) * (length + 1)) := by
  unfold places
  unfold Bounded at bounded
  generalize sources.files.entries = entries at bounded ⊢
  induction entries with
  | nil => simp
  | cons entry rest ih =>
      obtain ⟨path, content⟩ := entry
      have others := ih fun path content member => bounded path content (by simp [member])
      rw [List.flatMap_cons, List.length_append, List.length_cons, Nat.add_mul, Nat.one_mul,
        Nat.add_comm]
      refine Nat.add_le_add others ?_
      cases content with
      | unreadable reason => simp
      | text content =>
          have shorter : (Text.stripComments content.toList).length + 1 ≤ length + 1 :=
            Nat.succ_le_succ (Nat.le_trans (Text.length_stripComments _)
              (bounded path content (by simp)))
          simp only [List.length_map, length_stretches]
          exact Nat.mul_le_mul shorter shorter

/-- Only so many declarations can be found. -/
theorem length_le_places {places : List Place} (distinct : places.Nodup)
    (known : ∀ place ∈ places, place ∈ sources.places) : places.length ≤ sources.places.length :=
  (distinct.subperm known).length_le

end Sources

end Conform
