import Conform.Proofs.Resolver.Agreed
import Conform.Proofs.Resolver.Portrayed
import Conform.Proofs.Resolver.RecursiveAlias
import Conform.Proofs.Resolver.Surveyed

/-!
What happened to a resolver makes no difference to a resolution, circles of declarations or not: as long
as declarations can be built one after the other for it to succeed, and references hide nothing that
counts for the answers to agree. The second can be computed.
-/

namespace Conform

open Relation Validator

namespace Resolver

variable {resolver : Resolver}

/-- After a history and without one, an expression is at fault both times or never, unless a
declaration is said to need itself, which cannot be where declarations can be built one after the other.
Where references hide nothing that counts, both answers agree on all values for which both validations
end. -/
theorem histories_agree {options : Options} {files : FileTable} {returned : List Validator}
    (history : History (fresh options files) resolver returned) (expr : String)
    (file : Option FilePath) :
    ((resolver.sources.Orderly file expr.toList ∨
        ∀ name, (resolver.resolve expr file).1 ≠ some (.error (.recursiveAlias name)) ∧
          ((fresh resolver.options files).resolve expr file).1 ≠
            some (.error (.recursiveAlias name))) →
      ((∃ fault after, resolver.resolve expr file = (some (.error fault), after)) ↔
        ∃ fault after,
          (fresh resolver.options files).resolve expr file = (some (.error fault), after))) ∧
    (resolver.sources.Transparent ⟨none, file, expr.toList⟩ →
      ∀ validator after validator' after',
        resolver.resolve expr file = (some (.ok validator), after) →
        (fresh resolver.options files).resolve expr file = (some (.ok validator'), after') →
        Agree after.references after'.references validator validator') := by
  have state := history_portrayed history ⟨none, file, expr.toList⟩
  have nothing : History (fresh resolver.options files) (fresh resolver.options files) [] := .start
  have anew := history_portrayed nothing ⟨none, file, expr.toList⟩
  have same := state.sources_eq
  have sameFiles : resolver.files = files := congrArg Sources.files same
  have sameSources : (fresh resolver.options files).sources = resolver.sources := by
    rw [← sameFiles]
    rfl
  rw [← same] at state
  refine ⟨fun known => ?_, ?_⟩
  · have settled : ∀ name, (resolver.resolve expr file).1 ≠ some (.error (.recursiveAlias name)) ∧
        ((fresh resolver.options files).resolve expr file).1 ≠
          some (.error (.recursiveAlias name)) := by
      refine known.elim (fun orderly name => ⟨?_, ?_⟩) id
      · rw [same] at orderly
        exact resolve_orderly (history_inOrder history) orderly name
      · rw [← sameSources] at orderly
        exact resolve_orderly (history_inOrder nothing) orderly name
    rw [resolve_error_iff history fun name => (settled name).1,
      resolve_error_iff nothing fun name => (settled name).2, sameSources]
  · intro transparent validator after validator' after' ended ended'
    rw [← sameFiles] at anew ended'
    obtain ⟨after_, answered⟩ := resolve_portrayed state expr file
    obtain ⟨anew_, answered'⟩ := resolve_portrayed anew expr file
    rw [ended] at after_ answered
    rw [ended'] at anew_ answered'
    obtain ⟨_, _, ⟨⟩, portrays⟩ := answered.resolve_right (by simp)
    obtain ⟨_, _, ⟨⟩, portrays'⟩ := answered'.resolve_right (by simp)
    exact portrays.agree after_.backed anew_.backed transparent portrays'

def pagesFile : FilePath := ⟨"/pages.ts"⟩

def pages : FileTable :=
  .ofList [(pagesFile, .text ("interface Page\x7broot:Node\x7d " ++
    "interface Node extends Item\x7bkids:(Node|null)[]\x7d interface Item\x7bowner?:Page\x7d"))]

def pagesGraph : List (DeclKey × List (List Use × Place)) :=
  [(⟨"Page", pagesFile⟩, [([.nested], DeclKey.place ⟨"Node", pagesFile⟩)]),
    (⟨"Node", pagesFile⟩, [([.atOnce], DeclKey.place ⟨"Item", pagesFile⟩),
      ([.nested, .nested, .operand], DeclKey.place ⟨"Node", pagesFile⟩)]),
    (⟨"Item", pagesFile⟩, [([.nested], DeclKey.place ⟨"Page", pagesFile⟩)])]

theorem pages_closed : Sources.Closed ⟨pages, [".ts", ".tsx", ".d.ts"]⟩ pagesGraph where
  edges node member := ⟨5, by revert node; decide +kernel⟩
  inside := by decide +kernel

theorem pages_orderly :
    (Sources.mk pages [".ts", ".tsx", ".d.ts"]).Orderly (some pagesFile) "Page".toList := by
  refine pages_closed.orderly (DeclKey.place ⟨"Node", pagesFile⟩) (by decide) fun uses first named => ?_
  have computed : Sources.edgesIn ⟨pages, [".ts", ".tsx", ".d.ts"]⟩ 4 pagesFile "Page".toList =
      some [([], DeclKey.place ⟨"Page", pagesFile⟩)] := by decide +kernel
  obtain ⟨rfl, rfl⟩ := Prod.mk.inj (List.mem_singleton.mp (Sources.mem_edgesIn computed named))
  simp [pagesGraph]

def pageRoot : Passage := ⟨none, some pagesFile, "Page".toList⟩

theorem pages_transparent : Sources.Transparent ⟨pages, [".ts", ".tsx", ".d.ts"]⟩ pageRoot := by
  have passed : Sources.transparentAll ⟨pages, [".ts", ".tsx", ".d.ts"]⟩ 4
      (Sources.survey ⟨pages, [".ts", ".tsx", ".d.ts"]⟩ 9 [pageRoot] [pageRoot]) := by decide +kernel
  exact Sources.transparent_of_test passed (Sources.mem_survey (by simp))

def pagesResolver : Resolver :=
  (Operation.resolve "Node" (some pagesFile)).after (fresh {} pages)

/-- One answer holds a reference where the other one holds a record. -/
theorem histories_agree_pages :
    ∃ validator validator' after after',
      pagesResolver.resolve "Page" (some pagesFile) = (some (.ok validator), after) ∧
        (fresh pagesResolver.options pages).resolve "Page" (some pagesFile) =
          (some (.ok validator'), after') ∧
        Agree after.references after'.references validator validator' := by
  have history : History (fresh {} pages) pagesResolver _ :=
    .step (.resolve "Node" (some pagesFile)) .start
  have same := (history_portrayed history pageRoot).sources_eq
  obtain ⟨failing, agreeing⟩ := histories_agree history "Page" (some pagesFile)
  rw [same] at failing agreeing
  have passed : (pagesResolver.resolve "Page" (some pagesFile)).1.any (·.isOk) := by decide +kernel
  obtain ⟨validator, answer⟩ := exists_of_isOk passed
  have ended := Prod.fst_eq_iff.mp answer
  have anew := history_portrayed (@History.start (fresh pagesResolver.options pages)) pageRoot
  rcases (resolve_portrayed anew "Page" (some pagesFile)).2 with ⟨validator', after', ended', _⟩ |
    ⟨fault, after', ended', _⟩
  · exact ⟨validator, validator', _, after', ended, ended',
      agreeing pages_transparent validator _ validator' after' ended ended'⟩
  · obtain ⟨_, _, failed⟩ := (failing (.inl pages_orderly)).mpr ⟨fault, after', ended'⟩
    rw [failed] at passed
    cases passed

def eitherFile : FilePath := ⟨"/either.ts"⟩

def either : FileTable :=
  .ofList [(eitherFile, .text "type B = A | undefined; interface A \x7b b: B \x7d")]

def eitherResolver : Resolver := (Operation.resolve "B" (some eitherFile)).after (fresh {} either)

/-- With circles it matters. The field is optional when its type is known to allow `undefined`, and
required when a reference stands for its type. -/
theorem resolution_dependent :
    ∃ validator validator' after after',
      eitherResolver.resolve "A" (some eitherFile) = (some (.ok validator), after) ∧
        (fresh {} either).resolve "A" (some eitherFile) = (some (.ok validator'), after') ∧
        Verdict after.references [] validator (some (.object [])) false ∧
        Verdict after'.references [] validator' (some (.object [])) true := by
  have refused : passesEmpty (eitherResolver.resolve "A" (some eitherFile)) = some false := by
    decide +kernel
  have accepted : passesEmpty ((fresh {} either).resolve "A" (some eitherFile)) = some true := by
    decide +kernel
  obtain ⟨validator, after, ended, verdict⟩ := verdict_of_passesEmpty refused
  obtain ⟨validator', after', ended', verdict'⟩ := verdict_of_passesEmpty accepted
  exact ⟨validator, validator', after, after', ended, ended', verdict, verdict'⟩

end Resolver

end Conform
