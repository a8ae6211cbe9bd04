import Conform.Source.FilePath

/-!
The arguments of a run. An option takes its value from the same argument or from the next ones; its
values are settled when something else begins, so the first thing wrong on the way is reported.
-/

namespace Conform.Command

inductive Format where
  | text
  | json
deriving DecidableEq, Repr

/-- Which type is meant, and how names in it are looked up. -/
structure TypeChoice where
  file : Option FilePath
  expr : String
  strict : Bool
  settings : Option FilePath
deriving DecidableEq, Repr

/-- Which documents are checked. -/
structure InputChoice where
  /-- Every line is a document. -/
  lines : Bool
  pointer : Option String
  filter : Option String
  inputs : List String
deriving DecidableEq, Repr

inductive Request where
  | check (type : TypeChoice) (input : InputChoice) (format : Format) (quiet : Bool)
  | inspect (type : TypeChoice)
deriving DecidableEq, Repr

/-- Why arguments are no request. -/
inductive Usage where
  | help
  | helpForNothing
  | version
  | missingRequired
  | missingSubcommand
  | unknownSubcommand
  | unknownArgument
  | invalidValue
  /-- An option that stands once is given again. -/
  | repeated
  /-- A value is attached to an option that takes none. -/
  | extraValue
deriving DecidableEq, Repr

def versionText : String := "tsguard 0.1.0\n"

def helpText : String :=
  "validate JSON documents against TypeScript-style interface and type declarations

Usage: tsguard [-v] check -t TYPE [-f FILE] [--strict] [--config FILE] [--ndjson]
               [--json-pointer POINTER] [--jq-expr FILTER] [--format text|json] [-q] -i INPUT...
       tsguard [-v] inspect -t TYPE [-f FILE] [--strict] [--config FILE]
       tsguard help | --help | --version
"

def Usage.message : Usage → String
  | help => helpText
  | helpForNothing => helpText
  | version => versionText
  | missingRequired => "a required argument was not given"
  | missingSubcommand => "a subcommand was not given"
  | unknownSubcommand => "unrecognized subcommand"
  | unknownArgument => "unexpected argument"
  | invalidValue => "invalid or missing value for an option"
  | repeated => "an option cannot be used several times"
  | extraValue => "unexpected value for an option"

inductive OptionName where
  | help
  | version
  | verbose
  | file
  | type
  | strict
  | settings
  | lines
  | pointer
  | filter
  | input
  | format
  | quiet
deriving DecidableEq, Repr

inductive ValueKind where
  | text
  | path
  | format
deriving DecidableEq, Repr

inductive Arity where
  | flag
  | one (kind : ValueKind)
  | many
deriving DecidableEq, Repr

structure OptionRule where
  name : OptionName
  long : String
  short : Option Char
  arity : Arity
deriving DecidableEq, Repr

def helpRule : OptionRule := ⟨.help, "help", some 'h', .flag⟩

def versionRule : OptionRule := ⟨.version, "version", some 'V', .flag⟩

def verboseRule : OptionRule := ⟨.verbose, "verbose", some 'v', .flag⟩

def typeRules : List OptionRule :=
  [⟨.file, "file", some 'f', .one .path⟩,
    ⟨.type, "type", some 't', .one .text⟩,
    ⟨.strict, "strict", none, .flag⟩,
    ⟨.settings, "config", none, .one .path⟩]

def topRules : List OptionRule :=
  [helpRule, versionRule, verboseRule]

def inspectRules : List OptionRule :=
  [helpRule, verboseRule] ++ typeRules

def checkRules : List OptionRule :=
  inspectRules ++
    [⟨.lines, "ndjson", none, .flag⟩,
      ⟨.pointer, "json-pointer", none, .one .text⟩,
      ⟨.filter, "jq-expr", none, .one .text⟩,
      ⟨.input, "input", some 'i', .many⟩,
      ⟨.format, "format", none, .one .format⟩,
      ⟨.quiet, "quiet", some 'q', .flag⟩]

/-- What has been read of the arguments. -/
structure Reading where
  /-- Settled options with their values. -/
  given : List (OptionName × List String) := []
  /-- The last option, not settled, and the values it has so far. -/
  pending : Option (OptionRule × List String) := none
  /-- The pending option takes more values. -/
  hungry : Bool := false
deriving DecidableEq, Repr

def formatOf? : String → Option Format
  | "text" => some .text
  | "json" => some .json
  | _ => none

def ValueKind.allows : ValueKind → String → Bool
  | text, _ => true
  | path, value => !value.isEmpty
  | format, value => (formatOf? value).isSome

def Arity.allows : Arity → List String → Bool
  | flag, values => values.isEmpty
  | one kind, [value] => kind.allows value
  | one _, _ => false
  | many, values => !values.isEmpty

namespace Reading

def has (reading : Reading) (name : OptionName) : Bool :=
  reading.given.any (·.1 == name)

/-- The values of an option, in the order in which they were given. -/
def values (reading : Reading) (name : OptionName) : List String :=
  (reading.given.filter (·.1 == name)).flatMap (·.2)

def settle (reading : Reading) (rule : OptionRule) (values : List String) :
    Except Usage Reading :=
  if rule.arity != .flag && values.isEmpty then .error .invalidValue
  else if rule.arity != .many && reading.has rule.name then .error .repeated
  else if rule.arity.allows values then
    .ok { reading with given := reading.given ++ [(rule.name, values)] }
  else .error .invalidValue

/-- Settles the pending option. -/
def close (reading : Reading) : Except Usage Reading :=
  match reading.pending with
  | none => .ok reading
  | some (rule, values) => settle { given := reading.given } rule values

/-- An option, with the value that is attached to it. -/
def option (reading : Reading) (rule : OptionRule) (attached : Option String) :
    Except Usage Reading := do
  match rule.arity, attached with
  | .flag, some _ => .error .extraValue
  | .flag, none =>
    let reading ← reading.close
    match rule.name with
    | .help => .error .help
    | .version => .error .version
    | _ => reading.settle rule []
  | _, some value => (← reading.close).settle rule [value]
  | _, none => return { ← reading.close with pending := some (rule, []), hungry := true }

def long (rules : List OptionRule) (reading : Reading) (text : List Char) :
    Except Usage Reading :=
  let name := text.takeWhile (· != '=')
  let attached := match text.dropWhile (· != '=') with
    | _ :: value => some (String.ofList value)
    | [] => none
  match rules.find? fun rule => rule.long.toList == name with
  | some rule => reading.option rule attached
  | none => .error .unknownArgument

/-- Options of one letter, one after the other. What follows one that takes a value is its value,
without an equals sign in front. -/
def short (rules : List OptionRule) (reading : Reading) : List Char → Except Usage Reading
  | [] => .ok reading
  | c :: rest =>
    match rules.find? fun rule => rule.short == some c with
    | none => .error .unknownArgument
    | some rule =>
      if rule.arity = .flag then do short rules (← reading.option rule none) rest
      else
        let attached := match rest with
          | [] => none
          | '=' :: value => some (String.ofList value)
          | value => some (String.ofList value)
        reading.option rule attached

/-- A value for the pending option. -/
def value (reading : Reading) (text : String) : Except Usage Reading :=
  match reading.pending, reading.hungry with
  | some (rule, values), true =>
    .ok { reading with
      pending := some (rule, values ++ [text]), hungry := rule.arity == .many }
  | _, _ => .error .unknownArgument

/-- One argument. -/
def argument (rules : List OptionRule) (reading : Reading) (text : String) :
    Except Usage Reading :=
  match text.toList with
  | '-' :: '-' :: name => reading.long rules name
  | '-' :: c :: letters => reading.short rules (c :: letters)
  | _ => reading.value text

/-- The arguments of a subcommand. After two hyphens there is room for nothing. -/
def arguments (rules : List OptionRule) (reading : Reading) : List String → Except Usage Reading
  | [] => reading.close
  | "--" :: [] => reading.close
  | "--" :: _ :: _ => .error .unknownArgument
  | text :: rest => do arguments rules (← reading.argument rules text) rest

def flag (reading : Reading) (name : OptionName) : Bool :=
  reading.has name

def value? (reading : Reading) (name : OptionName) : Option String :=
  (reading.values name).head?

def typeChoice (reading : Reading) : Except Usage TypeChoice :=
  match reading.value? .type with
  | none => .error .missingRequired
  | some expr =>
    .ok {
      file := (reading.value? .file).map FilePath.mk
      expr := expr
      strict := reading.flag .strict
      settings := (reading.value? .settings).map FilePath.mk }

def inputChoice (reading : Reading) : Except Usage InputChoice :=
  if reading.has .input then
    .ok {
      lines := reading.flag .lines
      pointer := reading.value? .pointer
      filter := reading.value? .filter
      inputs := reading.values .input }
  else .error .missingRequired

end Reading

def readInspect (arguments : List String) : Except Usage Request := do
  let reading ← ({} : Reading).arguments inspectRules arguments
  return .inspect (← reading.typeChoice)

def readCheck (arguments : List String) : Except Usage Request := do
  let reading ← ({} : Reading).arguments checkRules arguments
  let format := ((reading.value? .format).bind formatOf?).getD .text
  return .check (← reading.typeChoice) (← reading.inputChoice) format (reading.flag .quiet)

def subcommands : List String := ["check", "inspect", "help"]

/-- What `help` is asked about: at most one subcommand. -/
def readHelp : List String → Usage
  | [] => .help
  | [name] => if name ∈ subcommands then .help else .unknownSubcommand
  | _ => .unknownSubcommand

/-- What follows two hyphens where a subcommand is due. -/
def readTrailing (reading : Reading) : List String → Usage
  | [] => if reading.given.isEmpty then .helpForNothing else .missingSubcommand
  | name :: _ => if name ∈ subcommands then .unknownArgument else .unknownSubcommand

/-- The arguments up to the subcommand. -/
def readTop (reading : Reading) : List String → Except Usage Request
  | [] => .error (readTrailing reading [])
  | "check" :: rest => readCheck rest
  | "inspect" :: rest => readInspect rest
  | "help" :: rest => .error (readHelp rest)
  | "--" :: rest => .error (readTrailing reading rest)
  | text :: rest =>
    if text.startsWith "-" && text != "-" then do
      readTop (← reading.argument topRules text) rest
    else .error .unknownSubcommand

/-- The request that the arguments of a run make. -/
def read (arguments : List String) : Except Usage Request :=
  readTop {} arguments

end Conform.Command
