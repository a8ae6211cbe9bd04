import Conform.Command.Report
import Conform.Resolver.Resolve
import Conform.Settings
import Conform.Validator.Render
import Conform.Validator.Validate

/-!
Runs. The type is resolved first, then all documents are loaded, then all are checked: a run either
fails and says nothing about any document, or reports on all of them. Where a validation goes on
without an end, so does the run.
-/

namespace Conform.Command

/-- The options of a run: those of the settings file, and the stricter of the two ways to treat
`null`. -/
def optionsOf (surroundings : Surroundings) (choice : TypeChoice) : Except Failure Options := do
  let options ← match choice.settings with
    | none => .ok {}
    | some path =>
      match surroundings.read path with
      | .error reason =>
        .error (failure ["cannot read config " ++ path.text ++ ": " ++ reason, reason])
      | .ok text =>
        match Settings.ofText text.toList with
        | .ok settings => .ok settings.options
        | .error error =>
          .error (failure ["invalid config " ++ path.text ++ ": " ++ error.message])
  return { options with strict := options.strict || choice.strict }

/-- A fault, and the reason behind it when a file cannot be read. -/
def faultMessages (fault : Fault) : List String :=
  match fault with
  | .unreadableFile _ reason => [fault.message, reason]
  | fault => [fault.message]

/-- A validator with what its references stand for. -/
structure Resolved where
  validator : Validator
  references : References

/-- The validator of the chosen type. -/
def resolveType (surroundings : Surroundings) (choice : TypeChoice) :
    ExceptT Failure Option Resolved := do
  let options ← optionsOf surroundings choice
  let resolver : Resolver := { options := options, files := surroundings.declarations }
  let context := "failed to resolve \x60" ++ choice.expr ++ "\x60"
  match resolver.resolve choice.expr choice.file with
  | (some (.ok validator), after) => return ⟨validator, after.references⟩
  | (some (.error fault), _) => throw (failure (context :: faultMessages fault))
  | (none, _) => ExceptT.mk none

/-- What becomes of a document, if its validation ends. -/
def verdictOf (resolved : Resolved) (document : Document) : Option Verdict :=
  (resolved.validator.validate resolved.references (some document.value)).map
    (Verdict.mk document.label)

/-- How a run ends, if it does. -/
def ending (surroundings : Surroundings) (request : Request) : ExceptT Failure Option Report :=
  match request with
  | .check type input format quiet => do
    let resolved ← resolveType surroundings type
    let documents ← loadDocuments surroundings input
    return reportOf format quiet (← ExceptT.lift (documents.mapM (verdictOf resolved)))
  | .inspect type => do
    let resolved ← resolveType surroundings type
    return ⟨0, [resolved.validator.render], none⟩

/-- What a run comes to whose validation nests deeper and deeper: it runs out of stack. No value
stands for that. -/
partial def overflow (depth : Nat) : Except Failure Report := do
  let report ← overflow (depth + 1)
  return { report with exitCode := depth }

/-- The run itself. It does not end either where it has no ending. -/
def run (surroundings : Surroundings) (request : Request) : Except Failure Report :=
  match (ending surroundings request).run with
  | some ended => ended
  | none => overflow 0

/-- What is seen of a run from outside. -/
structure Effect where
  exitCode : Nat
  output : String
  errorOutput : String
deriving DecidableEq, Repr

/-- A run that fails says why, and nothing else. -/
def effect : Except Failure Report → Effect
  | .ok report => ⟨report.exitCode, report.output, report.errorOutput⟩
  | .error causes => ⟨2, "", "error: " ++ ": ".intercalate (causes.map Cause.text) ++ "\n"⟩

/-- The surroundings of a run, as far as the disk shows them. -/
def Surroundings.ofDisk (disk : Disk) (input : String) : Surroundings where
  declarations := disk.declarations
  read path := (disk.read path).mapError DiskFault.message
  expand := Glob.expand disk
  input := .ok input
  filter text value := Filter.outputs text.toList value

end Conform.Command
