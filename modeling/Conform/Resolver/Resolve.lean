import Conform.Declaration.Import
import Conform.Declaration.Interface
import Conform.Expr.Members
import Conform.Expr.Shape
import Conform.Resolver.Basic

/-!
From type expressions to validators. `resolveStep` builds one validator when its parts can be
resolved; `resolveWithin` closes the circle, with a bound on how deeply expressions and declarations
nest. A declaration that is used inside one of its own fields becomes a reference. Where the
validator itself is needed at once, for a parent or a `Partial`, the enclosing declaration is built
first and the resolution starts again.
-/

namespace Conform

/-- A declaration whose build has begun and not ended. -/
structure Building where
  key : DeclKey
  /-- How many fields and elements were around the declaration when its build began. -/
  depth : Nat
  /-- The reference that stands for the declaration meanwhile. -/
  cell : CellId
deriving Repr

/-- Where an expression stands. -/
structure Site where
  /-- Where names are looked up. -/
  file : Option FilePath
  /-- How many fields and elements are around the expression. -/
  depth : Nat := 0
  /-- The declarations being built, the innermost first. -/
  building : List Building := []
deriving Repr

/-- Why a resolution stops. -/
inductive Stop where
  /-- When `needs` names a declaration, the fault may go away once that one is built. -/
  | fault (fault : Fault) (needs : Option DeclKey)
  /-- The bound on nesting is reached. -/
  | unfinished
deriving Repr

abbrev Resolve := ExceptT Stop (StateM Resolver)

namespace Resolve

def fail (fault : Fault) : Resolve α :=
  throw (.fault fault none)

def ofExcept : Except Fault α → Resolve α
  | .ok value => pure value
  | .error fault => fail fault

/-- A number not used before. -/
def freshId : Resolve Nat := do
  let id := (← get).nextId
  modify fun resolver => { resolver with nextId := id + 1 }
  return id

/-- A reference to a declaration that is not built yet. -/
def newReference (key : DeclKey) : Resolve CellId := do
  let cell := (← get).references.length
  modify fun resolver => { resolver with references := resolver.references ++ [{ key := key }] }
  return cell

/-- The text of a file, read when it is not known yet. -/
def fileText (file : FilePath) : Resolve (List Char) := do
  let resolver ← get
  match resolver.knownText? file with
  | some text => return text
  | none =>
    match resolver.files.find? file with
    | none => fail (.fileNotFound file)
    | some (.unreadable reason) => fail (.unreadableFile file reason)
    | some (.text content) =>
      let text := Text.stripComments content.toList
      modify fun resolver => { resolver with texts := resolver.texts ++ [(file, text)] }
      return text

/-- The declaration that `name` means in a file: an imported one, or one of the file itself. -/
def locate (name : List Char) (file : FilePath) : Resolve DeclKey := do
  match Declaration.import? name (← fileText file) with
  | none => return ⟨String.ofList name, file⟩
  | some found =>
    let resolver ← get
    let target ← ofExcept (Declaration.moduleFile resolver.files file
      (String.ofList found.specifier) resolver.options.extensions)
    return ⟨String.ofList found.exported, target⟩

def scanFault (key : DeclKey) : Declaration.ScanFault → Fault
  | .unterminated => .unterminated key.name key.file
  | .unbalanced => .unbalancedBraces (quotedName key.name ++ " in " ++ key.file.text)

/-- The expression that a declaration stands for. An interface hides an alias of its name. -/
def declared (key : DeclKey) : Resolve (List Char) := do
  let text ← fileText key.file
  let name := key.name.toList
  let read (found : Except Declaration.ScanFault (Option (List Char))) :=
    ofExcept (found.mapError (scanFault key))
  match ← read (Declaration.interface? name text) with
  | some expr => return expr
  | none =>
    match ← read (Declaration.alias? name text) with
    | some expr => return expr
    | none => fail (.undeclared key.name key.file)

/-- How the parts of an expression are resolved. -/
abbrev Below := Site → List Char → Resolve Validator

/-- Undoes the growth of the cache when an action fails: what was built meanwhile may refer to a
declaration that will never be. -/
def keepingCache (action : Resolve α) : Resolve α := do
  let cache := (← get).cache
  tryCatch action fun stop => do
    modify fun resolver => { resolver with cache := cache }
    throw stop

/-- Builds a declaration. -/
def build (below : Below) (site : Site) (key : DeclKey) : Resolve Validator :=
  keepingCache do
    let cell ← newReference key
    let site : Site :=
      { file := some key.file, depth := site.depth,
        building := ⟨key, site.depth, cell⟩ :: site.building }
    let validator ← below site (← declared key)
    modify fun resolver => { resolver with
      cache := resolver.cache ++ [(key, validator)]
      references := resolver.references.fill cell validator }
    return validator

/-- The validator of a declaration: the one built before, a reference when it is being built and a
field or element is in between, or a new one. -/
def resolveKey (below : Below) (site : Site) (key : DeclKey) : Resolve Validator := do
  match (← get).cached? key with
  | some validator => return validator
  | none =>
    match site.building.find? fun entry => entry.key.sameAs key with
    | none => build below site key
    | some entry =>
      if site.depth ≤ entry.depth then fail (.recursiveAlias key.name)
      else return .deferred key.name entry.cell

def resolveName (below : Below) (site : Site) (name : List Char) : Resolve Validator := do
  match site.file with
  | none => fail (.missingFile (String.ofList name))
  | some file => resolveKey below site (← locate name file.normalize)

/-- A field, an element or an index signature. -/
def resolveNested (below : Below) (site : Site) (expr : List Char) : Resolve Validator :=
  below { site with depth := site.depth + 1 } expr

/-- The declaration to build first when the one behind `cell` is needed and not built: the
innermost one, unless that is the one needed. -/
def prerequisite? (site : Site) (cell : CellId) : Option DeclKey := do
  let target ← site.building.find? fun entry => entry.cell == cell
  let enclosing ← site.building.head?
  if target.key.sameAs enclosing.key then none else some enclosing.key

/-- A validator whose parts are needed at once, which a reference does not have. -/
def resolveBuilt (below : Below) (site : Site) (name : List Char) : Resolve Validator := do
  match ← below site name with
  | .deferred name cell => throw (.fault (.recursiveAlias name) (prerequisite? site cell))
  | validator => return validator

def resolvePartial (below : Below) (site : Site) (name : List Char) : Resolve Validator := do
  match ← resolveBuilt below site name with
  | .record own ancestors => return .record (own.relaxed (← freshId)) ancestors
  | _ => fail (.partialTarget (String.ofList name))

def resolveEach (below : Below) (site : Site) : List (List Char) → Resolve (List Validator)
  | [] => return []
  | expr :: rest => do
    let validator ← below site expr
    return validator :: (← resolveEach below site rest)

/-- The operands of a list of tokens, and the operators. -/
def operands (tokens : List Expr.Token) : List (List Char) :=
  tokens.filterMap fun
    | .operand text => some text
    | .operator _ => none

def operators (tokens : List Expr.Token) : List Connective :=
  tokens.filterMap fun
    | .operand _ => none
    | .operator connective => some connective

def resolveGroup (below : Below) (site : Site) (expr : List Char) : Resolve Validator := do
  let tokens := Expr.mergeAnds (← ofExcept (Expr.tokens expr))
  match operators tokens with
  | [] => fail (.invalidExpression (String.ofList expr))
  | connective :: others =>
    if others.all (· == connective) then
      let validators ← resolveEach below site (operands tokens)
      return .group (← freshId) connective validators
    else fail (.mixedConnectives (String.ofList expr))

def resolveParent (below : Below) (site : Site) (parts : Expr.RecordParts) :
    Resolve (List (Level Validator)) := do
  match parts.parent with
  | none => return []
  | some parent =>
    match ← resolveBuilt below site parent with
    | .record own ancestors => return own :: ancestors
    | _ => fail (.parentNotRecord (String.ofList parent) (String.ofList (parts.name.getD [])))

/-- The fields of a record body and its index signature; of several the last one counts. -/
def resolveMembers (below : Below) (site : Site) :
    List (List Char) → Resolve (List (Field Validator) × Option Validator)
  | [] => return ([], none)
  | member :: rest => do
    match Expr.member? member with
    | none => fail (.invalidField (String.ofList member) site.file)
    | some (.index type) =>
      let index ← resolveNested below site type
      let (fields, later) ← resolveMembers below site rest
      return (fields, later.or (some index))
    | some (.field name optional type) =>
      let validator ← resolveNested below site type
      let strict := (← get).options.strict
      let field := Field.make (← freshId) (String.ofList name) optional strict validator
      let (fields, index) ← resolveMembers below site rest
      return (field :: fields, index)

def resolveRecord (below : Below) (site : Site) (expr : List Char) : Resolve Validator := do
  match Expr.recordParts? expr with
  | none => fail (.invalidExpression (String.ofList expr))
  | some parts =>
    let ancestors ← resolveParent below site parts
    let (fields, index) ← resolveMembers below site (Expr.members parts.body)
    return .record ⟨← freshId, parts.name.map String.ofList, fields, index⟩ ancestors

/-- Resolves an expression, when `below` resolves its parts and the declarations it names. -/
def resolveStep (below : Below) : Below := fun site expr => do
  let expr := Expr.bare (Text.stripComments expr)
  match ← ofExcept (Expr.shape expr) with
  | .group => resolveGroup below site expr
  | .array element => return .array (← freshId) (← resolveNested below site element)
  | .primitive kind => return .primitive kind
  | .partialOf name => resolvePartial below site name
  | .record => resolveRecord below site expr
  | .reference => resolveName below site expr

/-- Resolves an expression, unless that nests deeper than `bound`. -/
def resolveWithin : Nat → Below
  | 0 => fun _ _ => throw .unfinished
  | bound + 1 => resolveStep (resolveWithin bound)

/-- Runs `action`; when it fails for want of a declaration, builds that one at the top and runs
`action` again. No declaration is tried twice; `tried` holds those that were, and comes back with
the answer. -/
def inOrder (below : Below) (action : Resolve Validator) :
    Nat → List DeclKey → Resolve (Validator × List DeclKey)
  | 0, _ => throw .unfinished
  | retries + 1, tried =>
    tryCatch (do return (← action, tried)) fun
      | .fault fault (some key) =>
        if tried.any (·.sameAs key) then fail fault
        else do
          let (_, tried) ← inOrder below (resolveKey below { file := none } key) retries
            (key :: tried)
          inOrder below action retries tried
      | stop => throw stop

end Resolve

namespace Resolver

/-- The lengths of all text that a resolution can come upon. -/
def textLengths (resolver : Resolver) : List Nat :=
  resolver.texts.map (·.2.length) ++ resolver.files.entries.map fun
    | (_, .text content) => content.length
    | (_, .unreadable _) => 0

/-- The longest text in sight. Inside one declaration expressions get shorter, so it bounds how
deeply they nest. -/
def longest (resolver : Resolver) (expr : List Char) : Nat :=
  (expr.length :: resolver.textLengths).foldl max 0

/-- A declaration that can be built has its name in the text of its file, so there are no more of
them than stretches of text. -/
def declarationLimit (resolver : Resolver) (expr : List Char) : Nat :=
  resolver.textLengths.length * Nat.pow (resolver.longest expr + 1) 2

def nestingLimit (resolver : Resolver) (expr : List Char) : Nat :=
  (resolver.declarationLimit expr + 2) * (resolver.longest expr + 2)

/-- The validator for an expression whose names are looked up in `file`, or a fault. There is always
one or the other: the bounds are never reached. -/
def resolve (resolver : Resolver) (expr : String) (file : Option FilePath) :
    Option (Except Fault Validator) × Resolver :=
  let text := expr.toList
  let below := Resolve.resolveWithin (resolver.nestingLimit text)
  let action := Resolve.inOrder below (below { file := file } text)
    (resolver.declarationLimit text + 1) []
  match action.run resolver with
  | (.ok (validator, _), after) => (some (.ok validator), after)
  | (.error (.fault fault _), after) => (some (.error fault), after)
  | (.error .unfinished, after) => (none, after)

end Resolver

end Conform
