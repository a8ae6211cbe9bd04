import Conform.Source.FilePath

/-! The declaration files that can be read, each under its path. -/

namespace Conform

inductive FileContent where
  | text (content : String)
  /-- The file is there, but reading it fails for the given reason. -/
  | unreadable (reason : String)
deriving DecidableEq, Repr

structure FileTable where
  entries : List (FilePath × FileContent) := []
deriving DecidableEq, Repr

namespace FileTable

def find? (files : FileTable) (path : FilePath) : Option FileContent :=
  (files.entries.find? fun (known, _) => known.sameAs path).map (·.2)

def contains (files : FileTable) (path : FilePath) : Bool :=
  (files.find? path).isSome

/-- A file replaces an earlier one under the same path. -/
def insert (files : FileTable) (path : FilePath) (content : FileContent) : FileTable :=
  ⟨(path, content) :: files.entries.filter fun (known, _) => !known.sameAs path⟩

def ofList (files : List (FilePath × FileContent)) : FileTable :=
  files.foldl (fun table (path, content) => table.insert path content) {}

end FileTable

end Conform
