import Conform.Proofs.Declaration.Contained
import Conform.Proofs.Resolver.Calls
import Conform.Proofs.Resolver.Completed
import Conform.Proofs.Text.Stripped

/-!
Comments are removed once. A resolver removes them from every file it reads and from every expression it
resolves, also from those that come from a file; there nothing is left to remove.
-/

namespace Conform.Resolver

open Text

variable {options : Options} {files : FileTable} {resolver : Resolver} {returned : List Validator}

theorem history_files (history : History (fresh options files) resolver returned) : resolver.files = files := by
  induction history with
  | start => rfl
  | step operation earlier ih =>
      have faithful := (history_settled earlier).1.faithful
      cases operation with
      | resolve expr file => exact (resolve_kept faithful expr file).1.files.trans ih
      | setStrict strict =>
          simp only [Operation.after, setStrict]
          split <;> exact ih
      | clear => exact ih

/-- In the text of a file no comments are left, when no carriage returns hide any. -/
theorem stripped_text (history : History (fresh options files) resolver returned)
    (free : ∀ path content, (path, .text content) ∈ files.entries → Unmasked content.toList)
    {file : FilePath} {text : List Char} (read : resolver.sources.text file = .ok text) : Stripped text := by
  obtain ⟨path, content, among, _, rfl⟩ := Sources.text_ok read
  rw [show resolver.sources.files = files from history_files history] at among
  exact stripped_stripComments (free path content among)

/-- Removing the comments again changes nothing, in a text or in what a resolver has read: neither all of
it nor a part that begins outside literals, so no definition that does. -/
theorem comments_removed_once :
    (∀ {text : List Char}, Unmasked text → stripComments (stripComments text) = stripComments text) ∧
    ∀ {options : Options} {files : FileTable} {resolver : Resolver} {returned : List Validator},
      History (fresh options files) resolver returned →
      (∀ path content, (path, .text content) ∈ files.entries → Unmasked content.toList) →
      (∀ entry ∈ resolver.texts, stripComments entry.2 = entry.2 ∧
        ∀ before part after, entry.2 = before ++ part ++ after → openLiteral before = none →
          Trimmed part → stripComments part = part) ∧
      ∀ key expr, resolver.sources.definition key = .ok expr →
        ∃ before after, resolver.sources.text key.file = .ok (before ++ expr ++ after) ∧
          (openLiteral before = none → stripComments expr = expr) := by
  refine ⟨fun free => (stripped_stripComments free).eq, fun history free => ⟨fun entry among => ?_, ?_⟩⟩
  · have stripped := stripped_text history free ((history_settled history).1.faithful entry among)
    refine ⟨stripped.eq, fun before part after parts closed trimmed => ?_⟩
    rw [parts] at stripped
    exact (stripped.stretch closed trimmed).eq
  · intro key expr defined
    obtain ⟨text, read, found⟩ := Sources.definition_ok_iff.mp defined
    obtain ⟨before, after, rfl⟩ := (Declaration.find_some found).2
    have trimmed := Declaration.find_trimmed found
    exact ⟨before, after, read, fun closed => ((stripped_text history free read).stretch closed trimmed).eq⟩

def notes : FileTable :=
  ⟨[(⟨"/notes.ts"⟩, .text "// Notes.\r\ninterface Note \x7b\r\n  link: 'http://' /* or */ | A /\r\n\x7d")]⟩

theorem comments_removed_once_notes :
    let key : DeclKey := ⟨"Note", ⟨"/notes.ts"⟩⟩
    let expr := "interface Note \x7b\nlink: 'http://' | A /\n\x7d".toList
    stripComments (stripComments "a /* \r */ /\r b".toList) = stripComments "a /* \r */ /\r b".toList ∧
      (∀ entry ∈ ((Operation.resolve "Note" (some key.file)).after (fresh {} notes)).texts,
        stripComments entry.2 = entry.2) ∧
      (fresh {} notes).sources.definition key = .ok expr ∧ stripComments expr = expr := by
  intro key expr
  have free : ∀ path content, (path, .text content) ∈ notes.entries → Unmasked content.toList := by
    intro path content among
    cases List.mem_singleton.mp among
    decide +kernel
  have defined : (fresh {} notes).sources.definition key = .ok expr := by decide +kernel
  have text : (fresh {} notes).sources.text key.file = .ok expr := by decide +kernel
  obtain ⟨known, _⟩ := comments_removed_once.2 (.step (.resolve "Note" (some key.file)) .start) free
  obtain ⟨before, after, read, closed⟩ := (comments_removed_once.2 .start free).2 key expr defined
  have alone : before = [] := by
    have lengths := congrArg List.length (Except.ok.inj (text.symm.trans read))
    simp only [List.length_append] at lengths
    exact List.eq_nil_of_length_eq_zero (by omega)
  exact ⟨comments_removed_once.1 (by decide), fun entry among => (known entry among).1, defined,
    closed (by rw [alone]; rfl)⟩

end Conform.Resolver
