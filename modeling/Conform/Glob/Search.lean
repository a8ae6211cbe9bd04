import Conform.Glob.Pattern
import Conform.Source.Disk

/-!
The paths that match a pattern. A pattern is matched piece by piece on the way down; a piece that
spells a name is followed without a look at what else there is. Paths keep the spelling of the
pattern, except for a dot at its beginning.
-/

namespace Conform.Glob

abbrev Piece := List Token

structure Search where
  disk : Disk
  /-- Files are no answer. -/
  directoriesOnly : Bool

/-- The paths that the pieces lead to from a directory. -/
abbrev Descent := List Piece → FilePath → List FilePath

/-- The path of `name` in the directory `path`. -/
def entryPath (path : FilePath) (name : String) : FilePath :=
  if path.text.isEmpty || path.text.endsWith "/" then ⟨path.text ++ name⟩
  else ⟨path.text ++ "/" ++ name⟩

/-- The same, without the dot for the directory where the search begins. -/
def childPath (path : FilePath) (name : String) : FilePath :=
  if path.sameAs ⟨"."⟩ then ⟨name⟩ else entryPath path name

def isSpecial (name : String) : Bool :=
  name == "." || name == ".."

namespace Search

def accept (search : Search) (path : FilePath) : List FilePath :=
  if !search.directoriesOnly || search.disk.isDirectoryAt path then [path] else []

/-- Goes on from a path that its piece is known to match. -/
def goOn (search : Search) (below : Descent) (rest : List Piece) (path : FilePath) :
    List FilePath :=
  if rest.isEmpty then search.accept path else below rest path

/-- Matches the first piece with the name of an entry. -/
def matchEntry (search : Search) (below : Descent) (name : String) (path : FilePath) :
    List Piece → List FilePath
  | [] => []
  | piece :: rest =>
    if accepts piece name.toList then search.goOn below rest path else []

/-- Whether a piece stands for any way down. -/
def isWay (piece : Piece) : Bool :=
  piece.contains .anyWay

/-- An entry of a directory. A way down ends at it, or leads on into it. -/
def visit (search : Search) (below : Descent) (pieces : List Piece) (name : String)
    (path : FilePath) : List FilePath :=
  match pieces with
  | [] => []
  | piece :: _ =>
    if isWay piece then
      let after := pieces.dropWhile isWay
      let ends :=
        if !after.isEmpty then search.matchEntry below name path after
        else if search.disk.isDirectoryAt path then [path]
        else []
      ends ++ if search.disk.isDirectoryAt path then below (piece :: after) path else []
    else search.matchEntry below name path pieces

/-- The dots, which are entries of every directory only for a piece that begins with a dot. -/
def visitDots (search : Search) (below : Descent) (piece : Piece) (rest : List Piece)
    (path : FilePath) : List FilePath :=
  if piece.head? = some (.char '.') then
    ["..", "."].flatMap fun name =>
      if accepts piece name.toList then search.goOn below rest (entryPath path name) else []
  else []

/-- One directory. -/
def descend (search : Search) (below : Descent) : Descent
  | [], _ => []
  | piece :: rest, path =>
    match literal? piece with
    | some name =>
      let next := childPath path name
      let there :=
        if isSpecial name then search.disk.isDirectoryAt path else search.disk.contains next
      if there then search.goOn below rest next else []
    | none =>
      if search.disk.isDirectoryAt path then
        search.visitDots below piece rest path ++
          (search.disk.entriesAt path).flatMap fun (name, _) =>
            search.visit below (piece :: rest) name (childPath path name)
      else []

def descendWithin (search : Search) : Nat → Descent
  | 0 => fun _ _ => []
  | bound + 1 => search.descend (search.descendWithin bound)

end Search

/-- The pieces between slashes; a slash at the end begins no piece. -/
def piecesOf (pattern : List Char) : List (List Char) :=
  let pieces := pattern.splitOn '/'
  if pieces.getLast? = some [] then pieces.dropLast else pieces

/-- The paths that match a pattern, in order. Every step takes a piece or goes further down, so
there are no more of them than the bound. -/
def expand (disk : Disk) (pattern : String) : Except PatternFault (List FilePath) := do
  let text := pattern.toList
  let _ ← tokens text
  let (start, text) := match text with
    | '/' :: rest => ("/", rest)
    | text => (".", text)
  let pieces ← (piecesOf text).mapM tokens
  let search : Search := ⟨disk, text.getLast? == some '/'⟩
  return search.descendWithin ((pieces.length + 1) * (disk.root.depth + 2)) pieces ⟨start⟩

end Conform.Glob
