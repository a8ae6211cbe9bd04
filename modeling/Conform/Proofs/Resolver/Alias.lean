import Conform.Proofs.Declaration.Body
import Conform.Proofs.Resolver.Independence
import Mathlib.Data.Prod.Basic

/-!
An alias means what its body means by itself, where the scanner of bodies finds the end of the body
and the file declares the name in no other way.
-/

namespace Conform

open Text

theorem Form.isName_of_read {expr name : List Char} (read : Form.read expr = .ok (.reference name)) :
    isName name := by
  unfold Form.read Form.ofBare at read
  generalize Expr.bare (stripComments expr) = bare at read
  cases shaped : Expr.shape bare with
  | error fault =>
      rw [shaped] at read
      cases read
  | ok found =>
      rw [shaped] at read
      change Form.ofShape bare found = .ok (.reference name) at read
      cases found with
      | reference =>
          cases read
          unfold Expr.shape at shaped
          repeat' split at shaped
          all_goals cases shaped
          assumption
      | group =>
          simp only [Form.ofShape] at read
          cases tokens : Expr.tokens bare with
          | error fault =>
              rw [tokens] at read
              cases read
          | ok known =>
              rw [tokens] at read
              change Form.ofTokens bare (Expr.mergeAnds known) = _ at read
              unfold Form.ofTokens at read
              repeat' split at read
              all_goals cases read
      | record =>
          simp only [Form.ofShape] at read
          split at read <;> cases read
      | _ => cases read

theorem Form.read_stripComments {expr : List Char} (clean : Commentless none expr)
    (clean' : Commentless none (expr.filter (· != '\r'))) :
    Form.read (stripComments expr) = Form.read expr := by
  rw [Form.read, Form.read, stripComments_stripComments clean clean']

namespace Sources

variable {sources sources' : Sources} {strict : Bool} {file : Option FilePath}
  {expr other part : List Char} {validator : Validator}

theorem Denotes.of_read_eq (denotes : sources.Denotes strict file expr validator)
    (same : Form.read other = Form.read expr) : sources.Denotes strict file other validator := by
  cases denotes with
  | made read parts makes => exact .made (same.trans read) parts makes
  | reference read means defined stands => exact .reference (same.trans read) means defined stands

theorem Denotes.everywhere (denotes : sources.Denotes strict none expr validator) :
    sources'.Denotes strict file expr validator := by
  generalize place : none = hint at denotes
  induction denotes with
  | made read parts makes ih => exact .made read (fun part found used => ih part found used place) makes
  | reference read means =>
      obtain ⟨_, known, _⟩ := means
      cases place.trans known

theorem Denotes.inside {uses : List Use} (denotes : sources.Denotes strict none expr validator)
    (inside : Inside expr uses part) : ∃ found, sources.Denotes strict none part found := by
  induction inside with
  | whole => exact ⟨validator, denotes⟩
  | piece _ piece ih =>
      obtain ⟨around, denotes⟩ := ih
      cases denotes with
      | made read parts makes =>
          obtain ⟨found, used, _⟩ := makes.piece read piece
          exact ⟨found, parts _ _ used⟩
      | reference read => exact absurd read (piece.no_reference _)

theorem Denotes.no_names (denotes : sources.Denotes strict none expr validator) {uses : List Use}
    {target : Place} : ¬sources'.NamesIn file expr uses target := by
  rintro ⟨part, name, key, inside, read, _⟩
  obtain ⟨found, denotes⟩ := denotes.inside inside
  cases denotes with
  | made read' _ makes =>
      cases read.symm.trans read'
      cases makes
  | reference _ means =>
      obtain ⟨_, none, _⟩ := means
      cases none

theorem straight_of_no_names {key : DeclKey} {definition : List Char} {name : List Char}
    (read : Form.read expr = .ok (.reference name)) (means : sources.Means file name key)
    (defined : sources.definition key = .ok definition)
    (none_ : ∀ uses target, ¬sources.NamesIn (some key.file) definition uses target) :
    sources.Straight file expr := by
  refine straight_of_reference read means (straightAt_of_definition defined ?_)
  intro uses first named
  exact absurd named (none_ uses first)

end Sources

namespace Resolver

open Validator Declaration

def aliasText (name expr : String) : String :=
  "type " ++ name ++ " = " ++ expr ++ ";"

theorem toList_aliasText (name expr : String) :
    (aliasText name expr).toList = aliasHeader name.toList ++ ' ' :: (expr.toList ++ [';']) := by
  simp [aliasText, aliasHeader]

section Alias

variable {name expr : String} {file : FilePath} {sources : Sources}

theorem means_alias (content : sources.files.find? file.normalize = some (.text (aliasText name expr)))
    (noImport : import? name.toList (stripComments (aliasText name expr).toList) = none) :
    sources.Means (some file) name.toList ⟨name, file.normalize⟩ := by
  have text : sources.text file.normalize = .ok (stripComments (aliasText name expr).toList) := by
    rw [Sources.text, content]
  refine ⟨file, rfl, ?_⟩
  rw [Sources.locate, text]
  simp only [Except.bind, Sources.locateIn, noImport, String.ofList_toList]

variable (isReference : Form.read name.toList = .ok (.reference name.toList))
  (content : sources.files.find? file = some (.text (aliasText name expr)))
  (clean : Commentless none expr.toList) (fits : Delimited (stripComments expr.toList))
  (noInterface : interface? name.toList (stripComments (aliasText name expr).toList) = .ok none)
  {form : Form} (read : Form.read expr.toList = .ok form)

include isReference content clean fits noInterface read

theorem definition_alias :
    sources.definition ⟨name, file⟩ = .ok (stripComments expr.toList) := by
  have named := Form.isName_of_read isReference
  have some_ := Form.ne_nil_of_read read
  obtain ⟨before, after, blank, stripped⟩ := stripComments_alias named clean some_
  have alias_ := alias?_header named fits (trimmed_trim _) (Form.isOperator_of_read read) some_ blank
  refine Sources.definition_ok_iff.mpr ⟨stripComments (aliasText name expr).toList, ?_, ?_⟩
  · rw [Sources.text, content]
  · rw [Declaration.find, noInterface, toList_aliasText, stripped]
    exact alias_

end Alias

/-- An alias means what its body means without a file: the name resolves, and no validation tells
the two validators apart. -/
theorem resolve_alias {options options' : Options} {files files' : FileTable}
    {resolver resolver' inlined : Resolver} {returned returned' : List Validator}
    (history : History (fresh options files) resolver returned)
    (history' : History (fresh options' files') resolver' returned')
    (strict : resolver'.options.strict = resolver.options.strict) {name expr : String}
    {validator : Validator} (inline : resolver'.resolve expr none = (some (.ok validator), inlined))
    (isReference : Form.read name.toList = .ok (.reference name.toList)) (file : FilePath)
    (content : files.find? file.normalize = some (.text (aliasText name expr)))
    (clean : Commentless none expr.toList)
    (clean' : Commentless none (expr.toList.filter (· != '\r')))
    (fits : Delimited (stripComments expr.toList))
    (noInterface : interface? name.toList (stripComments (aliasText name expr).toList) = .ok none)
    (noImport : import? name.toList (stripComments (aliasText name expr).toList) = none) :
    ∃ named after, resolver.resolve name (some file) = (some (.ok named), after) ∧
      ∀ bound scope value, validateWithin after.references bound scope named value =
        validateWithin inlined.references bound scope validator value := by
  have state := history_denoted history
  have state' := history_denoted history'
  have straight' : Sources.Straight ⟨files', options'.extensions⟩ none expr.toList := by
    rintro uses first ⟨_, _, _, _, _, ⟨_, none, _⟩, _⟩
    cases none
  have denotes : Sources.Denotes ⟨files', options'.extensions⟩ resolver.options.strict none expr.toList
      validator := by
    rw [← strict]
    rcases resolve_denotes state' expr none straight' with ⟨_, _, ended, denotes⟩ | ⟨_, _, ended, _⟩
    · cases inline.symm.trans ended
      exact denotes
    · cases inline.symm.trans ended
  obtain ⟨form, read⟩ : ∃ form, Form.read expr.toList = .ok form := by
    cases denotes with
    | made read | reference read => exact ⟨_, read⟩
  have defined : Sources.definition ⟨files, options.extensions⟩ ⟨name, file.normalize⟩ =
      .ok (stripComments expr.toList) :=
    definition_alias isReference content clean fits noInterface read
  have means : Sources.Means ⟨files, options.extensions⟩ (some file) name.toList
      ⟨name, file.normalize⟩ := means_alias content noImport
  have body : Sources.Denotes ⟨files, options.extensions⟩ resolver.options.strict none
      (stripComments expr.toList) validator := denotes.everywhere.of_read_eq (Form.read_stripComments clean clean')
  have named : Sources.Denotes ⟨files, options.extensions⟩ resolver.options.strict (some file)
      name.toList validator := .reference isReference means defined body.everywhere
  have straight := Sources.straight_of_no_names isReference means defined fun _ _ => body.no_names
  rcases resolve_denotes state name (some file) straight with ⟨found, after, ended, denotes'⟩ |
    ⟨_, _, _, fails⟩
  · exact ⟨found, after, ended, fun bound scope value =>
      validateWithin_twin _ _ bound scope (denotes'.twin named) value⟩
  · exact absurd fails named.not_fails

def aliasFile : FilePath := ⟨"/alias.ts"⟩

def aliasOf (expr : String) : FileTable :=
  .ofList [(aliasFile, .text (aliasText "A" expr))]

def answers : String := "('yes' | 'no')[] | \x7b answer: string \x7d"

theorem resolve_alias_answers :
    ∃ validator inlined named after,
      (fresh {} {}).resolve answers none = (some (.ok validator), inlined) ∧
        (fresh {} (aliasOf answers)).resolve "A" (some aliasFile) = (some (.ok named), after) ∧
        ∀ bound scope value, validateWithin after.references bound scope named value =
          validateWithin inlined.references bound scope validator value := by
  have passed : ((fresh {} {}).resolve answers none).1.any (·.isOk) := by decide +kernel
  have content : (aliasOf answers).find? aliasFile.normalize = some (.text (aliasText "A" answers)) := by
    decide +kernel
  have isReference : Form.read "A".toList = .ok (.reference "A".toList) :=
    read_of_bareName? (by decide +kernel)
  have history : History (fresh {} (aliasOf answers)) (fresh {} (aliasOf answers)) [] := .start
  have history' : History (fresh {} {}) (fresh {} {}) [] := .start
  obtain ⟨validator, answer⟩ := exists_of_isOk passed
  have inline := Prod.fst_eq_iff.mp answer
  obtain ⟨named, after, ended, same⟩ := resolve_alias history history' rfl inline isReference
    aliasFile content (by decide +kernel) (by decide +kernel) (by decide +kernel) (by decide +kernel)
    (by decide +kernel)
  exact ⟨validator, _, named, after, inline, ended, same⟩

/-- In angle brackets the scanner of bodies does not mind literals: here it takes the `>` in the literal
for a bracket, and does not find the end of the body. -/
theorem resolve_alias_unclosed :
    Commentless none "Array<'>'>".toList ∧ ';' ∉ "Array<'>'>".toList ∧ ',' ∉ "Array<'>'>".toList ∧
      (∃ validator inlined, (fresh {} {}).resolve "Array<'>'>" none = (some (.ok validator), inlined)) ∧
      ∃ after, (fresh {} (aliasOf "Array<'>'>")).resolve "A" (some aliasFile) =
        (some (.error (.unterminated "A" aliasFile)), after) := by
  have passed : ((fresh {} {}).resolve "Array<'>'>" none).1.any (·.isOk) := by decide +kernel
  have failed : faultOf ((fresh {} (aliasOf "Array<'>'>")).resolve "A" (some aliasFile)).1 =
      some (.unterminated "A" aliasFile) := by decide +kernel
  obtain ⟨validator, answer⟩ := exists_of_isOk passed
  exact ⟨by decide +kernel, by decide, by decide, ⟨validator, _, Prod.fst_eq_iff.mp answer⟩,
    ⟨_, Prod.fst_eq_iff.mp (eq_of_faultOf failed)⟩⟩

end Resolver

end Conform
