/-!
Outcomes of validation: a closed list of codes, and chains of causes that lead from the value as a
whole to the place in it that fails.
-/

namespace Conform

inductive Code where
  | success
  | nullOnRequired
  | logicFalse
  | notArray
  | notNumber
  | notString
  | notBoolean
  | notObject
  | notNull
  | notUndefined
  | invalidStrLiteral
  | arrayNotMatch
  | interfaceNotMatch
  | fieldNotAllowed
deriving DecidableEq, Repr

namespace Code

/-- All codes, in the order of their numbers. -/
def all : List Code :=
  [success, nullOnRequired, logicFalse, notArray, notNumber, notString, notBoolean, notObject,
    notNull, notUndefined, invalidStrLiteral, arrayNotMatch, interfaceNotMatch, fieldNotAllowed]

def number (code : Code) : Nat :=
  all.idxOf code

def ofNumber? (number : Nat) : Option Code :=
  all[number]?

def message : Code → String
  | success => "Success"
  | nullOnRequired => "Required field cannot be null"
  | logicFalse => "Logic conditions are not satisfied"
  | notArray => "Field must be Array"
  | notNumber => "Field must be number"
  | notString => "Field must be string"
  | notBoolean => "Field must be boolean"
  | notObject => "Field must be object"
  | notNull => "Field must be null"
  | notUndefined => "Field must be undefined"
  | invalidStrLiteral => "Invalid string literal value"
  | arrayNotMatch => "Array elements not match"
  | interfaceNotMatch => "Interface not match"
  | fieldNotAllowed => "Disallowed field"

end Code

inductive Outcome where
  | leaf (code : Code)
  /-- The failure of a part, named by `field`, is the cause of this one. -/
  | within (code : Code) (field : String) (cause : Outcome)
  /-- The innermost code with the whole path to it, and no cause of its own. -/
  | flat (code : Code) (path : String)
deriving DecidableEq, Repr

namespace Outcome

def success : Outcome := leaf .success

def code : Outcome → Code
  | leaf code => code
  | within code _ _ => code
  | flat code _ => code

def field? : Outcome → Option String
  | leaf _ => none
  | within _ field _ => some field
  | flat _ path => some path

def cause? : Outcome → Option Outcome
  | within _ _ cause => some cause
  | _ => none

def isSuccess (outcome : Outcome) : Bool :=
  outcome.code == .success

/-- The code of the last cause in the chain. -/
def innermost : Outcome → Code
  | within _ _ cause => cause.innermost
  | outcome => outcome.code

/-- The fields that lead to the last cause. Only a field with a cause is a step. -/
def steps : Outcome → List String
  | within _ field cause => field :: cause.steps
  | _ => []

def path (outcome : Outcome) : String :=
  ".".intercalate outcome.steps

/-- The chain as one outcome: the last cause and the path to it. -/
def flatten (outcome : Outcome) : Outcome :=
  flat outcome.innermost outcome.path

/-- The path, when there is one, and the message of the last cause. -/
def text (outcome : Outcome) : String :=
  let message := outcome.innermost.message
  if outcome.path.isEmpty then message else outcome.path ++ ": " ++ message

end Outcome

end Conform
