import Conform.Source.FileTable
import Conform.Fault
import Conform.Text.Blank
import Conform.Text.Parens
import Conform.Text.Word

/-!
Import statements: which module a name comes from, what the module calls it, and which file the
module is.
-/

namespace Conform

/-- The answers of a reader that consumes text, each search starting where the one before ended. -/
def Text.allMatches (read : Option Char → List Char → Option (α × List Char)) (before : Option Char)
    (text : List Char) : List α :=
  match text with
  | [] => []
  | c :: rest =>
    match read before (c :: rest) with
    | some (found, left) =>
      if _shorter : left.length ≤ rest.length then
        found :: allMatches read ((c :: rest).take (rest.length + 1 - left.length)).getLast? left
      else found :: allMatches read (some c) rest
    | none => allMatches read (some c) rest
termination_by text.length

namespace Declaration

open Text

/-- `import clause from 'specifier'`. -/
structure ImportStatement where
  clause : List Char
  specifier : List Char
deriving DecidableEq, Repr

/-- Where an imported name comes from. -/
structure ImportRef where
  specifier : List Char
  /-- What the module calls the name. -/
  exported : List Char
deriving DecidableEq, Repr

/-- The clause that begins here, when `from` and a literal end it before any semicolon, and what
follows the literal. The clause has at least one character, if only a blank. -/
def readClause? (text : List Char) : Option (ImportStatement × List Char) := do
  let inClause := fun c => !(isQuote c || c == ';')
  let head ← (after? "from".toList.reverse (trimEnd (text.takeWhile inClause)).reverse)
  let head := head.reverse
  if head.isEmpty || !isBoundary head.getLast? (some 'f') then none
  let quote :: rest := text.dropWhile inClause | none
  if !isQuote quote then none
  let specifier := rest.takeWhile fun c => !isQuote c
  let _ :: left := rest.dropWhile fun c => !isQuote c | none
  if specifier.isEmpty then none
  let clause := trimEnd head
  return (⟨if clause.isEmpty then head.take 1 else clause, specifier⟩, left)

/-- The places where the clause of an import may begin, the preferred ones first: after the word
`type` and as much white space as can be had. -/
def clauseStarts (text : List Char) : List (List Char) :=
  (blankSplitsSome text).flatMap fun start =>
    ((after? "type".toList start).map blankSplitsSome).getD [] ++ [start]

def importStatement? (before : Option Char) (text : List Char) :
    Option (ImportStatement × List Char) := do
  if !isBoundary before text.head? then none
  let rest ← after? "import".toList text
  (clauseStarts rest).findSome? readClause?

def importStatements (text : List Char) : List ImportStatement :=
  allMatches importStatement? none text

/-- The part of a clause before its first brace, and the part between that one and the last closing
brace. -/
def clauseParts (clause : List Char) : List Char × Option (List Char) :=
  let inside := (clause.dropWhile (· != '{')).drop 1
  match inside.reverse.dropWhile (· != '}') with
  | _ :: named => (clause.takeWhile (· != '{'), some named.reverse)
  | [] => (clause, none)

/-- What the module calls `name`, when one item in braces binds it: `name` or `exported as name`. -/
def itemExport? (name item : List Char) : Option (List Char) :=
  let item := trim item
  let item := ((after? "type ".toList item).map trim).getD item
  match words item with
  | [word] => if word = name then some name else none
  | exported :: keyword :: bound :: _ =>
    if keyword = "as".toList ∧ bound = name then some exported else none
  | _ => none

/-- What the module calls `name`, when the clause binds it: as the default or in braces. -/
def clauseExport? (name clause : List Char) : Option (List Char) :=
  let (default, named) := clauseParts clause
  let default := trim ((trim default).reverse.dropWhile (· == ',')).reverse
  if default = name then some name
  else ((named.map (·.splitOn ',')).getD []).findSome? (itemExport? name)

/-- The first import that binds `name`. -/
def import? (name text : List Char) : Option ImportRef :=
  (importStatements text).findSome? fun statement =>
    (clauseExport? name statement.clause).map fun exported => ⟨statement.specifier, exported⟩

/-- The file that a specifier names: the path as written, or the first one with an extension. -/
def moduleFile (files : FileTable) (importer : FilePath) (specifier : String)
    (extensions : List String) : Except Fault FilePath :=
  let base := importer.relative specifier
  match (base :: extensions.map base.withSuffix).find? files.contains with
  | some path => .ok path
  | none => .error (.fileNotFound base)

end Declaration

end Conform
