import Conform.Expr.Operators
import Conform.Expr.Record
import Conform.Text.Parens
import Conform.Validator.Primitive

/-! What kind of type an expression stands for, read off its text alone. -/

namespace Conform.Expr

open Text

/-- The expression without redundant parentheses and without operators at its start. -/
def bare (expr : List Char) : List Char :=
  match _found : trimParens expr with
  | [] => []
  | c :: rest => if c = '|' ∨ c = '&' then bare rest else c :: rest
termination_by expr.length
decreasing_by
  have := length_trimParens expr
  rw [_found] at this
  simp only [List.length_cons] at this
  omega

/-- The text before `[]` at the end. -/
def suffixedElement? (expr : List Char) : Option (List Char) :=
  match expr.reverse with
  | ']' :: '[' :: rest => some rest.reverse
  | _ => none

/-- The text between the brackets of `Array< ... >`. -/
def genericElement? (expr : List Char) : Option (List Char) := do
  let rest ← after? "Array".toList expr
  let rest ← after? ['<'] (trimStart rest)
  if rest.getLast? = some '>' then some rest.dropLast else none

/-- The element type of an array type. A type that ends in `[]` is not tried as a generic one. -/
def element? (expr : List Char) : Option (List Char) := do
  let element := trim (← (suffixedElement? expr).or (genericElement? expr))
  if element.isEmpty then none else some element

/-- The name in `Partial<Name>`. -/
def partialTarget? (expr : List Char) : Option (List Char) := do
  let rest ← after? "Partial".toList expr
  let rest := trimStart (← after? ['<'] (trimStart rest))
  let name := rest.takeWhile isNamePart
  if name.isEmpty then none
  if trimStart (rest.dropWhile isNamePart) = ['>'] then some name else none

inductive Shape where
  | group
  | array (element : List Char)
  | primitive (kind : Primitive)
  | partialOf (name : List Char)
  | record
  | reference
deriving DecidableEq, Repr

/-- The kinds of types are told apart in this order. -/
def shape (expr : List Char) : Except Fault Shape :=
  if expr.isEmpty then .error (.invalidExpression "")
  else
    match cut? expr with
    | none => .error (.unbalancedBraces (String.ofList expr))
    | some cut =>
      if !cut.rest.isEmpty then .ok .group
      else if let some element := element? expr then .ok (.array element)
      else if let some kind := Primitive.ofExpr? expr then .ok (.primitive kind)
      else if let some name := partialTarget? expr then .ok (.partialOf name)
      else if isRecord expr then .ok .record
      else if isName expr then .ok .reference
      else .error (.invalidExpression (String.ofList expr))

end Conform.Expr
