import Conform.Text.Blank

/-!
Declaration text without its comments. Comment marks inside a literal are text; a literal ends with
its line, so an apostrophe in a comment does no harm beyond it.
-/

namespace Conform.Text

/-- Where a character of the source stands. -/
inductive Region where
  | code
  | quoted (quote : Char)
  | lineComment
  | blockComment
deriving DecidableEq, Repr

/-- Here a backtick quotes as well. -/
def opensLiteral (c : Char) : Bool :=
  c == '\'' || c == '"' || c == '\x60'

/-- The text without its comments. A line comment leaves its line break behind. -/
def withoutComments : Region → List Char → List Char
  | _, [] => []
  | .code, '/' :: '/' :: rest => withoutComments .lineComment rest
  | .code, '/' :: '*' :: rest => withoutComments .blockComment rest
  | .code, c :: rest => c :: withoutComments (if opensLiteral c then .quoted c else .code) rest
  | .quoted quote, c :: rest =>
    c :: withoutComments (if c = quote ∨ c = '\n' then .code else .quoted quote) rest
  | .lineComment, c :: rest =>
    if c = '\n' then c :: withoutComments .code rest else withoutComments .lineComment rest
  | .blockComment, '*' :: '/' :: rest => withoutComments .code rest
  | .blockComment, _ :: rest => withoutComments .blockComment rest

/-- Rewrites every maximal run of characters in `inRun`; `run` is the run that is open. -/
def mapRuns (inRun : Char → Bool) (replace : List Char → List Char) (run : List Char) :
    List Char → List Char
  | [] => if run.isEmpty then [] else replace run
  | c :: rest =>
    if inRun c then mapRuns inRun replace (run ++ [c]) rest
    else (if run.isEmpty then [] else replace run) ++ c :: mapRuns inRun replace [] rest

/-- White space that holds a line break becomes one line break. -/
def squeezeBreaks : List Char → List Char :=
  mapRuns isBlank (fun run => if '\n' ∈ run then ['\n'] else run) []

/-- Spaces and tabs in a row become one space. -/
def squeezeSpaces : List Char → List Char :=
  mapRuns (fun c => c == ' ' || c == '\t') (fun _ => [' ']) []

/-- Declaration text as the scanners read it: no comments, no carriage returns, and no more white
space than one character in a row, some Unicode spaces apart. -/
def stripComments (text : List Char) : List Char :=
  trim (squeezeSpaces (squeezeBreaks ((withoutComments .code text).filter (· != '\r'))))

end Conform.Text
