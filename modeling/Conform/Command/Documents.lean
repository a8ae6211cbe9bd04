import Conform.Command.Arguments
import Conform.Filter.Prelude
import Conform.Fault
import Conform.Glob.Search
import Conform.Json.Pointer
import Conform.Text.Blank

/-!
The documents of a run, each with a label that says where it comes from. All of them are there
before any is checked: the first input that gives none ends the run.
-/

namespace Conform.Command

/-- What a run sees of the machine it runs on. -/
structure Surroundings where
  /-- The declaration files, each under its normalized path. -/
  declarations : FileTable
  /-- The text of a file, or why it cannot be read. -/
  read : FilePath → Except String String
  /-- The paths that match a pattern, in order. -/
  expand : String → Except Glob.PatternFault (List FilePath)
  /-- What the standard input holds. -/
  input : Except String String
  /-- What a filter puts out for a value. -/
  filter : String → Json → Except Filter.Failure (List Json)

/-- One cause in the chain of causes that ends a run. -/
inductive Cause where
  | message (text : String)
  | filter (failure : Filter.Failure)

def Cause.text : Cause → String
  | message text => text
  | filter failure => failure.message

/-- Why a run ends without a report, the outermost cause first. -/
abbrev Failure := List Cause

def failure (messages : List String) : Failure :=
  messages.map .message

structure Document where
  label : String
  value : Json

/-- An input with a character that patterns use is a pattern. -/
def isPattern (input : String) : Bool :=
  input.toList.any fun c => c == '*' || c == '?' || c == '[' || c == '{'

/-- The paths that an input stands for. -/
def inputPaths (surroundings : Surroundings) (input : String) : Except Failure (List FilePath) :=
  if isPattern input then
    match surroundings.expand input with
    | .ok [] => .error (failure ["glob pattern matched no files: " ++ input])
    | .ok paths => .ok paths
    | .error fault => .error (failure [fault.message])
  else .ok [⟨input⟩]

def isStandardInput (path : FilePath) : Bool :=
  path.text == "-"

/-- The texts of the paths, in order. The standard input is empty once it has been read. -/
def sourceText (surroundings : Surroundings) (before : List FilePath) (path : FilePath) :
    Except Failure String :=
  let text :=
    if !isStandardInput path then surroundings.read path
    else if before.any isStandardInput then .ok ""
    else surroundings.input
  text.mapError fun reason => failure ["failed to read " ++ path.text, reason]

/-- A line without the carriage return before its end. -/
def withoutReturn (line : List Char) : List Char :=
  if line.getLast? = some '\r' then line.dropLast else line

/-- The lines of a text, without what ends them. The last line need not be ended. -/
def textLines (text : List Char) : List (List Char) :=
  let pieces := text.splitOn '\n'
  pieces.dropLast.map withoutReturn ++ (pieces.getLast?.toList.filter fun line => !line.isEmpty)

def readDocument (label context : String) (text : List Char) : Except Failure Document :=
  match Json.read text with
  | .ok value => .ok ⟨label, value⟩
  | .error error => .error (failure [context, error.message])

/-- The documents of a text whose lines are documents. Blank lines are none. -/
def lineDocuments (label : String) (text : List Char) : Except Failure (List Document) :=
  let lines := (textLines text).zipIdx 1
  (lines.filter fun (line, _) => !(Text.trim line).isEmpty).mapM fun (line, number) =>
    readDocument (label ++ ":" ++ toString number)
      ("failed to parse JSON line " ++ toString number ++ " of " ++ label) line

def textDocuments (choice : InputChoice) (label : String) (text : List Char) :
    Except Failure (List Document) :=
  if choice.lines then lineDocuments label text
  else (readDocument label ("failed to parse JSON source file (" ++ label ++ ")") text).map ([·])

def selectPart (pointer : Option String) (document : Document) : Except Failure Document :=
  match pointer with
  | none => .ok document
  | some pointer =>
    match Json.select? pointer.toList document.value with
    | some value => .ok { document with value := value }
    | none =>
      .error (failure ["JSON pointer " ++ pointer ++ " selects nothing in " ++ document.label])

/-- The outputs of a filter, numbered when there are several. -/
def filterDocument (surroundings : Surroundings) (filter : Option String) (document : Document) :
    Except Failure (List Document) :=
  match filter with
  | none => .ok [document]
  | some filter =>
    match surroundings.filter filter document.value with
    | .error reason =>
      .error [.message ("failed to apply jq expression to " ++ document.label), .filter reason]
    | .ok [value] => .ok [⟨document.label, value⟩]
    | .ok values =>
      .ok (values.zipIdx.map fun (value, i) => ⟨document.label ++ "#" ++ toString i, value⟩)

/-- What is checked in place of a document. -/
def prepare (surroundings : Surroundings) (choice : InputChoice) (document : Document) :
    Except Failure (List Document) := do
  filterDocument surroundings choice.filter (← selectPart choice.pointer document)

/-- The documents of one path, after those of the paths before it. -/
def pathDocuments (surroundings : Surroundings) (choice : InputChoice) (before : List FilePath)
    (path : FilePath) : Except Failure (List Document) := do
  let text ← sourceText surroundings before path
  let documents ← textDocuments choice path.text text.toList
  return (← documents.mapM (prepare surroundings choice)).flatten

def pathsDocuments (surroundings : Surroundings) (choice : InputChoice) (before : List FilePath) :
    List FilePath → Except Failure (List Document)
  | [] => .ok []
  | path :: rest => do
    let documents ← pathDocuments surroundings choice before path
    return documents ++ (← pathsDocuments surroundings choice (path :: before) rest)

/-- The documents of a run. All patterns are expanded before any file is read. -/
def loadDocuments (surroundings : Surroundings) (choice : InputChoice) :
    Except Failure (List Document) := do
  let paths ← choice.inputs.mapM (inputPaths surroundings)
  pathsDocuments surroundings choice [] paths.flatten

end Conform.Command
