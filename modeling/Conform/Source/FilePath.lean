/-!
Slash-separated paths. A path keeps the text it was written with and counts as the same place as
another when both have the same components.
-/

namespace Conform

inductive Component where
  | root
  | here
  | up
  | name (text : String)
deriving DecidableEq, Repr

structure FilePath where
  text : String
deriving DecidableEq, Repr

namespace Component

def text : Component → String
  | root => ""
  | here => "."
  | up => ".."
  | name text => text

/-- One piece between slashes. An empty piece and a dot go nowhere. -/
def ofPiece? (piece : List Char) : Option Component :=
  match String.ofList piece with
  | "" => none
  | "." => none
  | ".." => some up
  | text => some (name text)

end Component

namespace FilePath

/-- The components of a path. A dot counts only where it begins a relative path. -/
def components (path : FilePath) : List Component :=
  match path.text.toList with
  | [] => []
  | '/' :: rest => .root :: (rest.splitOn '/').filterMap Component.ofPiece?
  | chars =>
    let pieces := chars.splitOn '/'
    let rest := pieces.filterMap Component.ofPiece?
    if pieces.head? = some ['.'] then .here :: rest else rest

def sameAs (path other : FilePath) : Bool :=
  path.components == other.components

def ofComponents : List Component → FilePath
  | .root :: rest => ⟨"/" ++ "/".intercalate (rest.map Component.text)⟩
  | components => ⟨"/".intercalate (components.map Component.text)⟩

/-- One step along a path; `visited` holds the places passed so far, the nearest first. A step up
leaves the nearest place, whatever it is, except that it stays on the way when there is none or
only the root. -/
def walk (visited : List Component) : Component → List Component
  | .here => visited
  | .up =>
    match visited with
    | [] => [.up]
    | .root :: below => .up :: .root :: below
    | _ :: below => below
  | component => component :: visited

/-- The path without its dots and without the places that a step up leaves. -/
def fold (components : List Component) : FilePath :=
  ofComponents (components.foldl walk []).reverse

def normalize (path : FilePath) : FilePath :=
  fold path.components

/-- The components of the directory that holds a path. -/
def directory (path : FilePath) : List Component :=
  match path.components.getLast? with
  | none => []
  | some .root => []
  | some _ => path.components.dropLast

/-- Where `specifier` leads from the directory of `path`. -/
def relative (path : FilePath) (specifier : String) : FilePath :=
  let target := FilePath.components ⟨specifier⟩
  if target.head? = some .root then fold target else fold (path.directory ++ target)

def withSuffix (path : FilePath) (suffix : String) : FilePath :=
  ⟨path.text ++ suffix⟩

end FilePath

end Conform
