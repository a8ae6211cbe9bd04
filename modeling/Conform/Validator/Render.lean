import Conform.Validator.Basic

/-! Validators as type expressions. -/

namespace Conform.Validator

/-- The text before the braces of a record: its name and that of its parent. -/
def renderHeader (name : Option String) (ancestors : List (Level Validator)) : String :=
  let own := match name with
    | some name => name ++ " "
    | none => ""
  match ancestors with
  | [] => own
  | parent :: _ => own ++ "extends " ++ parent.name.getD "\x7b..\x7d" ++ " "

/-- A group inside a group or an array stands in parentheses. -/
def parenthesized (operand : Validator) (text : String) : String :=
  match operand with
  | group _ _ _ => "(" ++ text ++ ")"
  | _ => text

mutual

/-- The type as an expression. A reference is shown by its name. -/
def render : Validator → String
  | primitive kind => kind.text
  | array _ element => parenthesized element (render element) ++ "[]"
  | group _ connective operands =>
    (" " ++ String.singleton connective.symbol ++ " ").intercalate (renderOperands operands)
  | record own ancestors => renderHeader own.name ancestors ++ renderLevel own
  | deferred name _ => name

def renderOperands : List Validator → List String
  | [] => []
  | operand :: rest => parenthesized operand (render operand) :: renderOperands rest

def renderLevel : Level Validator → String
  | ⟨_, _, fields, index⟩ =>
    let members := renderFields fields ++ renderIndex index
    if members.isEmpty then "\x7b\x7d" else "\x7b " ++ "; ".intercalate members ++ " \x7d"

def renderFields : List (Field Validator) → List String
  | [] => []
  | field :: rest => renderField field :: renderFields rest

def renderField : Field Validator → String
  | ⟨name, required, _, type⟩ => name ++ (if required then ": " else "?: ") ++ render type

def renderIndex : Option Validator → List String
  | none => []
  | some index => ["[key: string]: " ++ render index]

end

end Conform.Validator
