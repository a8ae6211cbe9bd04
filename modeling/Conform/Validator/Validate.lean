import Conform.Json.Basic
import Conform.Outcome
import Conform.Validator.Basic

/-!
Checking a value. `judge` says what one validator makes of a value when the judgement of its parts
is given; `validateWithin` closes the circle, with a bound on how deeply judgements nest, and
`validate` sets the bound so high that only a reference which leads back to itself on the same value
can reach it.
-/

namespace Conform

/-- Names that a record tolerates though it does not declare them, because a sibling in the same
group or a record that extends it does: sets of them, the innermost first. -/
abbrev Scope := List (List String)

def Scope.contains (scope : Scope) (key : String) : Bool :=
  scope.any fun names => names.contains key

/-- The first failure, or success. -/
def firstFailure (check : α → Option Outcome) : List α → Option Outcome
  | [] => some .success
  | item :: rest => do
    let outcome ← check item
    if outcome.isSuccess then firstFailure check rest else return outcome

/-- Whether some check succeeds; those after it are not made. -/
def anySuccess (check : α → Option Outcome) : List α → Option Bool
  | [] => some false
  | item :: rest => do
    let outcome ← check item
    if outcome.isSuccess then return true else anySuccess check rest

/-- A failure becomes the cause of `code` at `field`. -/
def Outcome.at (code : Code) (field : String) (outcome : Outcome) : Outcome :=
  if outcome.isSuccess then success else within code field outcome

/-- The absent value is `none`. -/
def Primitive.judge (kind : Primitive) (value : Option Json) : Outcome :=
  match kind, value with
  | any, _ => .success
  | number, some (.number _) => .success
  | number, _ => .leaf .notNumber
  | string, some (.string _) => .success
  | string, _ => .leaf .notString
  | boolean, some (.bool _) => .success
  | boolean, _ => .leaf .notBoolean
  | object, some (.object _) => .success
  | object, some (.array _) => .success
  | object, _ => .leaf .notObject
  | null, some .null => .success
  | null, _ => .leaf .notNull
  | undefined, none => .success
  | undefined, some _ => .leaf .notUndefined
  | literal text, some (.string value) =>
    if value = text then .success else .leaf .invalidStrLiteral
  | literal _, _ => .leaf .notString

/-- How the parts of a validator are judged. -/
abbrev Judgement := Scope → Validator → Option Json → Option Outcome

namespace Validator

/-- An optional field needs no value, and takes `null` for none unless it is strict. Nothing
outside the field makes its value tolerant of more names. -/
def judgeField (below : Judgement) (field : Field Validator) (value : Option Json) :
    Option Outcome :=
  match field.required, value with
  | false, none => some .success
  | false, some .null => if field.strict then below [] field.type value else some .success
  | _, _ => below [] field.type value

/-- The fields of a level in their order, then the keys of the object in theirs. A key is passed
over when `tolerated` holds it. -/
def judgeLevel (below : Judgement) (tolerated : Scope) (level : Level Validator)
    (entries : List (String × Json)) : Option Outcome := do
  let declared ← firstFailure
    (fun field =>
      let value := Json.lookup field.name entries
      let outcome := if value.isNone && field.required then some (.leaf .nullOnRequired)
        else judgeField below field value
      outcome.map (Outcome.at .interfaceNotMatch field.name))
    level.fields
  if !declared.isSuccess then return declared
  firstFailure
    (fun (key, value) =>
      if tolerated.contains key then some .success
      else
        let outcome := match level.index with
          | some index => below [] index (some value)
          | none => some (.leaf .fieldNotAllowed)
        outcome.map (Outcome.at .interfaceNotMatch key))
    entries

/-- The ancestors of a record are checked before it, the furthest first; each tolerates the names
of those that extend it. -/
def judgeLevels (below : Judgement) (scope : Scope) (own : Level Validator)
    (ancestors : List (Level Validator)) (entries : List (String × Json)) : Option Outcome :=
  let tolerated := levelNames (own :: ancestors) :: scope
  match ancestors with
  | [] => judgeLevel below tolerated own entries
  | parent :: further => do
    let inherited ← judgeLevels below tolerated parent further entries
    if inherited.isSuccess then judgeLevel below tolerated own entries else return inherited

/-- The operands of a group tolerate each other's names. -/
def judgeGroup (below : Judgement) (scope : Scope) (connective : Connective)
    (operands : List Validator) (value : Option Json) : Option Outcome :=
  let scope := groupNames operands :: scope
  match connective with
  | .and =>
    firstFailure
      (fun (operand, position) =>
        (below scope operand value).map
          (Outcome.at .logicFalse ("<Condition" ++ toString position ++ ">")))
      operands.zipIdx
  | .or => do
    let accepted ← anySuccess (fun operand => below scope operand value) operands
    return if accepted then .success
      else if isEnum connective operands then .leaf .invalidStrLiteral
      else .leaf .logicFalse

def isString : Option Json → Bool
  | some (.string _) => true
  | _ => false

/-- What a validator makes of a value, when `below` judges its parts. -/
def judge (references : References) (below : Judgement) : Judgement := fun scope validator value =>
  match validator with
  | primitive kind => some (kind.judge value)
  | array _ element =>
    match value with
    | some (.array items) =>
      firstFailure
        (fun (item, position) =>
          (below [] element (some item)).map (Outcome.at .arrayNotMatch (toString position)))
        items.zipIdx
    | _ => some (.leaf .notArray)
  | group _ connective operands =>
    if isEnum connective operands && !isString value then some (.leaf .notString)
    else judgeGroup below scope connective operands value
  | record own ancestors =>
    match value with
    | some (.object entries) => judgeLevels below scope own ancestors entries
    | _ => some (.leaf .notObject)
  | deferred _ cell =>
    match references.target? cell with
    | some target => below scope target value
    | none => some (.leaf .logicFalse)

/-- The outcome, or nothing when judgements would nest more than `bound` deep. -/
def validateWithin (references : References) : Nat → Judgement
  | 0 => fun _ _ _ => none
  | bound + 1 => judge references (validateWithin references bound)

mutual

/-- The number of nodes and fields. -/
def weight : Validator → Nat
  | primitive _ => 1
  | array _ element => weight element + 1
  | group _ _ operands => weightOperands operands + 1
  | record own ancestors => weightLevel own + weightLevels ancestors + 1
  | deferred _ _ => 1

def weightOperands : List Validator → Nat
  | [] => 0
  | operand :: rest => weight operand + weightOperands rest

def weightLevels : List (Level Validator) → Nat
  | [] => 0
  | level :: rest => weightLevel level + weightLevels rest

def weightLevel : Level Validator → Nat
  | ⟨_, _, fields, index⟩ => weightFields fields + weightIndex index + 1

def weightFields : List (Field Validator) → Nat
  | [] => 0
  | field :: rest => weightField field + weightFields rest

def weightField : Field Validator → Nat
  | ⟨_, _, _, type⟩ => weight type + 1

def weightIndex : Option Validator → Nat
  | none => 0
  | some index => weight index + 1

end

/-- On one value a judgement follows each reference at most once for every set of names it may
tolerate, and passes through one validator between two references; then it moves into the value. -/
def bound (references : References) (validator : Validator) (value : Option Json) : Nat :=
  let targets := references.filterMap (·.target)
  let nodes := validator.weight + weightOperands targets + 1
  let jumps := (references.length + 1) * nodes
  ((value.map Json.depth).getD 0 + 1) * (jumps * nodes) + 1

def validateIn (references : References) (scope : Scope) (validator : Validator)
    (value : Option Json) : Option Outcome :=
  validateWithin references (bound references validator value) scope validator value

/-- The outcome for a value, or for the absent value. There is none only when a reference leads
back to itself without moving into the value. -/
def validate (references : References) (validator : Validator) (value : Option Json) :
    Option Outcome :=
  validateIn references [] validator value

/-- The outcome for a field by itself. -/
def validateField (references : References) (field : Field Validator) (value : Option Json) :
    Option Outcome :=
  judgeField (validateWithin references (bound references field.type value)) field value

end Validator

end Conform
