import Conform.Command.Run

/-! The program: it gathers what a run sees of the machine, and prints what comes of the run. -/

namespace Conform.Main

open Command

/-- An error of the system, in the words of the system. -/
def errorText : IO.Error → String
  | .noFileOrDirectory .. => DiskFault.missing.message
  | .inappropriateType _ code _ =>
    if code = 20 ∨ code = 0 - 20 then DiskFault.notDirectory.message
    else DiskFault.isDirectory.message
  | .permissionDenied .. => "Permission denied (os error 13)"
  | error => toString error

def readText (path : FilePath) : IO (Except String String) := do
  try
    return (Tree.textOf (← IO.FS.readBinFile path.text)).mapError DiskFault.message
  catch error => return .error (errorText error)

/-- All that the standard input holds. -/
partial def readInput (input : IO.FS.Stream) (before : ByteArray) : IO ByteArray := do
  let bytes ← input.read 65536
  if bytes.isEmpty then return before else readInput input (before ++ bytes)

/-- The names of the files and directories below a path. -/
def namesBelow (path : String) : Nat → IO Tree
  | 0 => return Tree.empty
  | depth + 1 => do
    try
      let place : IO.FS.DirEntry := ⟨path, "."⟩
      let mut tree := Tree.empty
      for entry in ← place.path.readDir do
        let below ←
          if ← entry.path.isDir then namesBelow (path ++ "/" ++ entry.fileName) depth
          else pure (.file .empty)
        tree := tree.change (fun _ => below) [entry.fileName]
      return tree
    catch _ => return Tree.empty

/-- The part of the disk that a pattern can lead to. -/
def diskFor (pattern : String) : IO Disk := do
  let here ← IO.currentDir
  let working := (FilePath.components ⟨here.toString⟩).filterMap fun
    | .name text => some text
    | _ => none
  let pieces := pattern.toList.splitOn '/'
  let fixed := pieces.takeWhile fun piece => piece.all fun c => !isPattern (String.singleton c)
  let depth := if (pattern.splitOn "**").length > 1 then 64 else pieces.length - fixed.length + 1
  let mut root := Tree.empty.change id working
  for length in List.range (fixed.length + 1) do
    let start := "/".intercalate ((fixed.take length).map String.ofList)
    let start := if start.isEmpty then (if pattern.startsWith "/" then "/" else ".") else start
    let place := (FilePath.relative ⟨here.toString ++ "/entry"⟩ start).components.filterMap fun
      | .name text => some text
      | _ => none
    let entry : IO.FS.DirEntry := ⟨start, "."⟩
    if ← entry.path.isDir then
      let names ← if length = fixed.length then namesBelow start depth else pure Tree.empty
      root := root.change (fun tree => if length = fixed.length then names else tree) place
  return ⟨root, working⟩

/-- The declaration files that some files lead to. -/
partial def gather (extensions : List String) (known : FileTable) :
    List FilePath → IO FileTable
  | [] => return known
  | path :: rest => do
    if known.contains path then gather extensions known rest
    else
      try
        let content := Tree.contentOf (← IO.FS.readBinFile path.text)
        let imports := match content with
          | .text text => Declaration.importStatements (Text.stripComments text.toList)
          | .unreadable _ => []
        let candidates := imports.flatMap fun statement =>
          let base := path.relative (String.ofList statement.specifier)
          base :: extensions.map base.withSuffix
        gather extensions (known.insert path content) (candidates ++ rest)
      catch error =>
        match error with
        | .permissionDenied .. =>
          gather extensions (known.insert path (.unreadable (errorText error))) rest
        | _ => gather extensions known rest

def typeOf : Request → TypeChoice
  | .check type _ _ _ => type
  | .inspect type => type

def inputsOf : Request → List String
  | .check _ input _ _ => input.inputs
  | .inspect _ => []

/-- What a request can see. -/
def surroundingsFor (request : Request) : IO Surroundings := do
  let patterns := (inputsOf request).filter isPattern
  let expansions ← patterns.mapM fun pattern => do
    return (pattern, Glob.expand (← diskFor pattern) pattern)
  let found := expansions.flatMap fun (_, paths) => paths.toOption.getD []
  let named := ((inputsOf request).filter fun input => !isPattern input).map FilePath.mk
  let paths := (typeOf request).settings.toList ++ named ++ found
  let texts ← paths.eraseDups.mapM fun path => do return (path.text, ← readText path)
  let input ←
    if named.any isStandardInput then readInput (← IO.getStdin) .empty else pure .empty
  let surroundings : Surroundings := {
    declarations := {}
    read := fun path => (Json.lookup path.text texts).getD (.error DiskFault.missing.message)
    expand := fun pattern => (Json.lookup pattern expansions).getD (.ok [])
    input := (Tree.textOf input).mapError DiskFault.message
    filter := fun text value => Filter.outputs text.toList value }
  match optionsOf surroundings (typeOf request) with
  | .error _ => return surroundings
  | .ok options =>
    let start := (typeOf request).file.map FilePath.normalize
    return { surroundings with
      declarations := ← gather options.extensions {} start.toList }

end Conform.Main

open Conform in
def main (arguments : List String) : IO UInt32 := do
  match Command.read arguments with
  | .error usage =>
    match usage with
    | .help => IO.print usage.message
    | .version => IO.print usage.message
    | .helpForNothing =>
      IO.eprint usage.message
      return 2
    | _ =>
      IO.eprintln ("error: " ++ usage.message)
      return 2
    return 0
  | .ok request =>
    let effect := Command.effect (Command.run (← Main.surroundingsFor request) request)
    IO.print effect.output
    IO.eprint effect.errorOutput
    return effect.exitCode.toUInt32
