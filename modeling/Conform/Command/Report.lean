import Conform.Command.Documents
import Conform.Json.Writer
import Conform.Outcome

/-! What is said about checked documents: a line for each, and how many there are. -/

namespace Conform

/-- The chain of causes as a document. -/
def Outcome.toJson : Outcome → Json
  | .leaf code => node code .null .null
  | .within code field cause => node code (.string field) cause.toJson
  | .flat code path => node code (.string path) .null
where
  node (code : Code) (field inner : Json) : Json :=
    .object [("code", .number (.integer code.number)), ("message", .string code.message),
      ("field", field), ("inner", inner)]

namespace Command

/-- A document, and what became of it. -/
structure Verdict where
  label : String
  outcome : Outcome
deriving DecidableEq, Repr

namespace Verdict

def text (verdict : Verdict) : String :=
  if verdict.outcome.isSuccess then "✓ " ++ verdict.label
  else "✗ " ++ verdict.label ++ ": " ++ verdict.outcome.text

def json (verdict : Verdict) : Json :=
  let base := [("source", Json.string verdict.label), ("ok", .bool verdict.outcome.isSuccess)]
  if verdict.outcome.isSuccess then .object base
  else
    .object (base ++
      [("path", .string verdict.outcome.path), ("error", verdict.outcome.toJson)])

def line (format : Format) (verdict : Verdict) : String :=
  match format with
  | .text => verdict.text
  | .json => verdict.json.write

end Verdict

/-- What a run that comes to an end leaves behind. -/
structure Report where
  exitCode : Nat
  lines : List String
  summary : Option String
deriving DecidableEq, Repr

namespace Report

def output (report : Report) : String :=
  String.join (report.lines.map (· ++ "\n"))

def errorOutput (report : Report) : String :=
  (report.summary.map (· ++ "\n")).getD ""

end Report

def failureCount (verdicts : List Verdict) : Nat :=
  verdicts.countP fun verdict => !verdict.outcome.isSuccess

/-- A quiet report has no lines for documents that conform. -/
def reportLines (format : Format) (quiet : Bool) (verdicts : List Verdict) : List String :=
  (verdicts.filter fun verdict => !quiet || !verdict.outcome.isSuccess).map (Verdict.line format)

def reportOf (format : Format) (quiet : Bool) (verdicts : List Verdict) : Report where
  exitCode := if failureCount verdicts = 0 then 0 else 1
  lines := reportLines format quiet verdicts
  summary :=
    match format with
    | .text =>
      some (toString verdicts.length ++ " checked, " ++ toString (failureCount verdicts) ++
        " failed")
    | .json => none

end Command

end Conform
