import Conform.Expr.Operators
import Conform.Source.FilePath
import Conform.Validator.Primitive

/-!
Validators: types ready to be checked. A validator is a tree, except where a declaration refers to
itself: there it holds a reference, and a table says what the reference stands for.
-/

namespace Conform

/-- A declaration, by its name in the file that declares it. -/
structure DeclKey where
  name : String
  file : FilePath
deriving DecidableEq, Repr

namespace DeclKey

def sameAs (key other : DeclKey) : Bool :=
  key.name == other.name && key.file.sameAs other.file

def text (key : DeclKey) : String :=
  key.name ++ "@" ++ key.file.text

end DeclKey

/-- Tells one array, group or record from another that looks the same. -/
abbrev NodeId := Nat

/-- The place of what a reference stands for. -/
abbrev CellId := Nat

/-- A field of a record over the type `τ` of validators. -/
structure Field (τ : Type) where
  name : String
  required : Bool
  /-- An optional field of this kind rejects `null`. -/
  strict : Bool
  type : τ
deriving Inhabited, Repr

/-- What one record declares itself, its ancestors apart. -/
structure Level (τ : Type) where
  node : NodeId
  name : Option String
  fields : List (Field τ)
  index : Option τ
deriving Inhabited, Repr

inductive Validator where
  | primitive (kind : Primitive)
  | array (node : NodeId) (element : Validator)
  | group (node : NodeId) (connective : Connective) (operands : List Validator)
  /-- The ancestors follow from the parent upwards. -/
  | record (own : Level Validator) (ancestors : List (Level Validator))
  | deferred (name : String) (cell : CellId)
deriving Inhabited, Repr

/-- What a reference stands for: a declaration, and its validator once that is built. -/
structure Reference where
  key : DeclKey
  target : Option Validator := none
deriving Repr

/-- All references there have been. A cell is a place in the list. -/
abbrev References := List Reference

namespace References

def target? (references : References) (cell : CellId) : Option Validator :=
  references[cell]?.bind (·.target)

/-- From now on the reference stands for `validator`. -/
def fill (references : References) (cell : CellId) (validator : Validator) : References :=
  references.modify cell fun reference => { reference with target := some validator }

end References

namespace Validator

def kindName : Validator → String
  | primitive _ => "basic"
  | array _ _ => "array"
  | group _ _ _ => "logic"
  | record _ _ => "record"
  | deferred _ _ => "deferred"

def isUndefined : Validator → Bool
  | primitive .undefined => true
  | _ => false

def isLiteral : Validator → Bool
  | primitive kind => kind.isLiteral
  | _ => false

/-- The same node, or the same primitive. -/
def same : Validator → Validator → Bool
  | primitive kind, primitive other => kind == other
  | array node _, array other _ => node == other
  | group node _ _, group other _ _ => node == other
  | record own _, record other _ => own.node == other.node
  | deferred _ cell, deferred _ other => cell == other
  | _, _ => false

/-- The names that the levels declare, each once. -/
def levelNames (levels : List (Level Validator)) : List String :=
  (levels.flatMap fun level => level.fields.map (·.name)).eraseDups

mutual

/-- The names that a group takes over from an operand: those that records declare. -/
def offeredNames : Validator → List String
  | record own ancestors => levelNames (own :: ancestors)
  | group _ _ operands => groupNames operands
  | _ => []

/-- The names that the operands of a group offer, each once. -/
def groupNames : List Validator → List String
  | [] => []
  | operand :: rest => (offeredNames operand ++ groupNames rest).eraseDups

end

/-- A union of string literals, which says more about a value that it rejects. -/
def isEnum (connective : Connective) (operands : List Validator) : Bool :=
  connective == .or && !operands.isEmpty && operands.all isLiteral

/-- The operands of a union that names `undefined`, without it. -/
def withoutUndefined? : Validator → Option (List Validator)
  | group _ .or operands =>
    if operands.any isUndefined then some (operands.filter fun operand => !operand.isUndefined)
    else none
  | _ => none

end Validator

/-- A record's own field. A bare `undefined` makes it optional, and so does an operand of a union,
which is then dropped; `node` is there for what is left of the union. -/
def Field.make (node : NodeId) (name : String) (optional strict : Bool) (type : Validator) :
    Field Validator :=
  match type.withoutUndefined? with
  | some [] => ⟨name, false, strict, .primitive .undefined⟩
  | some [operand] => ⟨name, false, strict, operand⟩
  | some operands => ⟨name, false, strict, .group node .or operands⟩
  | none => ⟨name, !optional && !type.isUndefined, strict, type⟩

/-- A copy of a record, none of whose own fields is required. -/
def Level.relaxed (node : NodeId) (level : Level Validator) : Level Validator :=
  { level with node := node, fields := level.fields.map fun field => { field with required := false } }

end Conform
