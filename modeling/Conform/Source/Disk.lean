import Conform.Source.FileTable

/-!
Files and directories as a tree, and where paths lead in it. A step up from a directory leads to the
one that holds it; from a file no step leads anywhere.
-/

namespace Conform

inductive Tree where
  | file (bytes : ByteArray)
  | directory (entries : List (String × Tree))

/-- Why a file cannot be read. -/
inductive DiskFault where
  | missing
  | notDirectory
  | isDirectory
  | notText
deriving DecidableEq, Repr

def DiskFault.message : DiskFault → String
  | missing => "No such file or directory (os error 2)"
  | notDirectory => "Not a directory (os error 20)"
  | isDirectory => "Is a directory (os error 21)"
  | notText => "stream did not contain valid UTF-8"

namespace Tree

def empty : Tree := directory []

def isDirectory : Tree → Bool
  | directory _ => true
  | file _ => false

def named? (name : String) (entries : List (String × Tree)) : Option Tree :=
  (entries.find? fun entry => entry.1 == name).map (·.2)

/-- Gives an entry its place, in the order of the names. -/
def setEntry (name : String) (tree : Tree) : List (String × Tree) → List (String × Tree)
  | [] => [(name, tree)]
  | entry :: rest =>
    if entry.1 = name then (name, tree) :: rest
    else if name < entry.1 then (name, tree) :: entry :: rest
    else entry :: setEntry name tree rest

/-- Changes what is under some names; the directories on the way come into being. -/
def change (new : Tree → Tree) : List String → Tree → Tree
  | [], tree => new tree
  | name :: rest, tree =>
    let entries := match tree with
      | directory entries => entries
      | file _ => []
    directory (setEntry name (change new rest ((named? name entries).getD empty)) entries)

/-- What is under some names, if all of them are there. -/
def below? : List String → Tree → Option Tree
  | [], tree => some tree
  | name :: rest, directory entries => (named? name entries).bind (below? rest)
  | _ :: _, file _ => none

/-- The text of a file with these bytes. -/
def textOf (bytes : ByteArray) : Except DiskFault String :=
  match String.fromUTF8? bytes with
  | some text => .ok text
  | none => .error .notText

def contentOf (bytes : ByteArray) : FileContent :=
  match textOf bytes with
  | .ok text => .text text
  | .error fault => .unreadable fault.message

mutual

/-- How many steps down there are at most. -/
def depth : Tree → Nat
  | file _ => 0
  | directory entries => depthEntries entries + 1

def depthEntries : List (String × Tree) → Nat
  | [] => 0
  | (_, tree) :: rest => max (depth tree) (depthEntries rest)

end

mutual

/-- The files of a tree, each under its path. -/
def files (path : List String) : Tree → List (FilePath × FileContent)
  | file bytes => [(⟨"/".intercalate path⟩, contentOf bytes)]
  | directory entries => entryFiles path entries

def entryFiles (path : List String) : List (String × Tree) → List (FilePath × FileContent)
  | [] => []
  | (name, tree) :: rest => files (path ++ [name]) tree ++ entryFiles path rest

end

end Tree

/-- Absolute paths begin at the root, relative ones in the working directory. -/
structure Disk where
  root : Tree
  working : List String

namespace Disk

/-- What is at a place, and the directories above it, the nearest first. -/
structure Place where
  tree : Tree
  above : List Tree

def Place.step (place : Place) (piece : List Char) : Except DiskFault Place :=
  match place.tree with
  | .file _ => .error .notDirectory
  | .directory entries =>
    if piece = [] ∨ piece = ['.'] then .ok place
    else if piece = ['.', '.'] then
      match place.above with
      | [] => .ok place
      | parent :: further => .ok ⟨parent, further⟩
    else
      match Tree.named? (String.ofList piece) entries with
      | some tree => .ok ⟨tree, place.tree :: place.above⟩
      | none => .error .missing

def Place.walk (place : Place) (pieces : List (List Char)) : Except DiskFault Place :=
  pieces.foldlM Place.step place

/-- What a path leads to. -/
def at? (disk : Disk) (path : FilePath) : Except DiskFault Tree := do
  let root : Place := ⟨disk.root, []⟩
  match path.text.toList with
  | [] => .error .missing
  | '/' :: rest => return (← root.walk (rest.splitOn '/')).tree
  | chars =>
    let working ← root.walk (disk.working.map String.toList)
    return (← working.walk (chars.splitOn '/')).tree

def contains (disk : Disk) (path : FilePath) : Bool :=
  (disk.at? path).isOk

def isDirectoryAt (disk : Disk) (path : FilePath) : Bool :=
  match disk.at? path with
  | .ok tree => tree.isDirectory
  | .error _ => false

/-- The entries of a directory, in the order of their names. -/
def entriesAt (disk : Disk) (path : FilePath) : List (String × Tree) :=
  match disk.at? path with
  | .ok (.directory entries) => entries
  | _ => []

/-- The text of a file. -/
def read (disk : Disk) (path : FilePath) : Except DiskFault String := do
  match ← disk.at? path with
  | .file bytes => Tree.textOf bytes
  | .directory _ => .error .isDirectory

/-- A disk that holds some files, each under its path from the working directory. -/
def ofFiles (working : List String) (files : List (FilePath × ByteArray)) : Disk :=
  let tree := files.foldl (fun tree (path, bytes) =>
    tree.change (fun _ => .file bytes) (path.normalize.components.map Component.text)) Tree.empty
  ⟨Tree.empty.change (fun _ => tree) working, working⟩

/-- All files in the working directory. -/
def declarations (disk : Disk) : FileTable :=
  ⟨((disk.root.below? disk.working).getD Tree.empty).files []⟩

end Disk

end Conform
