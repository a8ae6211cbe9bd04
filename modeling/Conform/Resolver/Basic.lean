import Conform.Fault
import Conform.Source.FileTable
import Conform.Text.Comment
import Conform.Validator.Basic

/-!
The resolver keeps what one resolution can use of another: the validators built so far, the text of
the files read so far, and what references stand for.
-/

namespace Conform

structure Options where
  /-- Optional fields reject `null`. -/
  strict : Bool := false
  /-- Tried in order, when a module is not there under its name as written. -/
  extensions : List String := [".ts", ".tsx", ".d.ts"]
deriving DecidableEq, Repr

structure Resolver where
  options : Options := {}
  files : FileTable := {}
  /-- In the order in which the declarations were finished. -/
  cache : List (DeclKey × Validator) := []
  /-- Without comments. A file is read once, whatever becomes of it. -/
  texts : List (FilePath × List Char) := []
  references : References := []
  /-- No node has this number or a higher one. -/
  nextId : Nat := 0
deriving Repr

namespace Resolver

def cached? (resolver : Resolver) (key : DeclKey) : Option Validator :=
  (resolver.cache.find? fun (known, _) => known.sameAs key).map (·.2)

def knownText? (resolver : Resolver) (file : FilePath) : Option (List Char) :=
  (resolver.texts.find? fun (known, _) => known.sameAs file).map (·.2)

/-- Records carry the setting, so a change of it forgets all validators. -/
def setStrict (resolver : Resolver) (strict : Bool) : Resolver :=
  if resolver.options.strict = strict then resolver
  else { resolver with options := { resolver.options with strict := strict }, cache := [] }

/-- Forgets all validators and all text. -/
def clear (resolver : Resolver) : Resolver :=
  { resolver with cache := [], texts := [] }

/-- Changes the files that can be read; text already read stays. -/
def addFiles (resolver : Resolver) (files : List (FilePath × FileContent)) : Resolver :=
  { resolver with
    files := files.foldl (fun table (path, content) => table.insert path content) resolver.files }

/-- A copy of a record with no field of its own required. -/
def relaxed (resolver : Resolver) (own : Level Validator) (ancestors : List (Level Validator)) :
    Validator × Resolver :=
  (.record (own.relaxed resolver.nextId) ancestors,
    { resolver with nextId := resolver.nextId + 1 })

end Resolver

end Conform
