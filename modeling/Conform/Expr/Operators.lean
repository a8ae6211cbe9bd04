import Conform.Fault
import Conform.Text.Blank
import Conform.Text.Parens

/-!
The operators of a type expression. An operator counts where it stands outside all brackets and
literals; `&` binds tighter than `|`.
-/

namespace Conform

inductive Connective where
  /-- Every operand has to accept. -/
  | and
  /-- One operand has to accept. -/
  | or
deriving DecidableEq, Repr

namespace Connective

def symbol : Connective → Char
  | and => '&'
  | or => '|'

def ofChar? (c : Char) : Option Connective :=
  if c = '&' then some .and else if c = '|' then some .or else none

end Connective

namespace Expr

open Text

/-- How many brackets of each kind are open. -/
structure Nesting where
  round : Nat := 0
  curly : Nat := 0
  angle : Nat := 0
deriving DecidableEq, Repr

/-- The brackets open after `c`; a bracket that closes none fails. -/
def Nesting.after? (open_ : Nesting) (c : Char) : Option Nesting :=
  match c with
  | '(' => some { open_ with round := open_.round + 1 }
  | '{' => some { open_ with curly := open_.curly + 1 }
  | '<' => some { open_ with angle := open_.angle + 1 }
  | ')' => if open_.round = 0 then none else some { open_ with round := open_.round - 1 }
  | '}' => if open_.curly = 0 then none else some { open_ with curly := open_.curly - 1 }
  | '>' => if open_.angle = 0 then none else some { open_ with angle := open_.angle - 1 }
  | _ => some open_

/-- An expression cut at its top-level operators, nothing trimmed. -/
structure Cut where
  first : List Char
  rest : List (Connective × List Char)
deriving DecidableEq, Repr

def Cut.extend (c : Char) (cut : Cut) : Cut :=
  { cut with first := c :: cut.first }

/-- Cuts an expression at its top-level operators. It fails when the brackets do not balance or a
literal is left open. -/
def cutFrom? (nesting : Nesting) (quote : Option Char) : List Char → Option Cut
  | [] => if nesting = {} && quote.isNone then some ⟨[], []⟩ else none
  | c :: rest =>
    if quote.isSome || isQuote c then
      (cutFrom? nesting (quoteAfter quote c) rest).map (Cut.extend c)
    else
      match nesting.after? c with
      | none => none
      | some nesting =>
        match (if nesting = {} then Connective.ofChar? c else none) with
        | some connective =>
          (cutFrom? nesting none rest).map fun cut => ⟨[], (connective, cut.first) :: cut.rest⟩
        | none => (cutFrom? nesting none rest).map (Cut.extend c)

def cut? (expr : List Char) : Option Cut :=
  cutFrom? {} none expr

inductive Token where
  | operand (text : List Char)
  | operator (connective : Connective)
deriving DecidableEq, Repr

/-- The operands of an expression, trimmed, with the operators between them. -/
def tokens (expr : List Char) : Except Fault (List Token) :=
  match cut? expr with
  | none => .error (.unbalancedBraces (String.ofList expr))
  | some cut =>
    let first := trim cut.first
    let rest := cut.rest.map fun (connective, text) => (connective, trim text)
    if first.isEmpty || rest.any (·.2.isEmpty) then .error (.emptyOperand (String.ofList expr))
    else .ok (.operand first :: rest.flatMap fun (connective, text) =>
      [.operator connective, .operand text])

/-- Joins the operands around each `&`, from the right. -/
def fuseAnds : List Token → List Token
  | .operand left :: .operator .and :: rest =>
    match fuseAnds rest with
    | .operand right :: others => .operand (left ++ '&' :: right) :: others
    | others => .operand left :: .operator .and :: others
  | token :: rest => token :: fuseAnds rest
  | [] => []

/-- Where both operators occur, every run of `&` becomes one operand. -/
def mergeAnds (tokens : List Token) : List Token :=
  if .operator .and ∈ tokens ∧ .operator .or ∈ tokens then fuseAnds tokens else tokens

end Expr

end Conform
