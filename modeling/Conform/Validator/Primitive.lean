import Conform.Text.Parens

/-! The types that are checked without looking inside a value. -/

namespace Conform

inductive Primitive where
  | number
  | string
  | boolean
  /-- Any object or array. -/
  | object
  | any
  | null
  /-- The absent value. -/
  | undefined
  | literal (text : String)
deriving DecidableEq, Inhabited, Repr

namespace Primitive

/-- The primitive that an expression names, or whose literal it is. -/
def ofExpr? (expr : List Char) : Option Primitive :=
  match String.ofList expr with
  | "number" => some number
  | "string" => some string
  | "boolean" => some boolean
  | "object" => some object
  | "Object" => some object
  | "any" => some any
  | "null" => some null
  | "undefined" => some undefined
  | _ => (Text.literalText? expr).map fun text => literal (String.ofList text)

def isLiteral : Primitive → Bool
  | literal _ => true
  | _ => false

/-- A literal is written in single quotes, unless it holds one. -/
def text : Primitive → String
  | number => "number"
  | string => "string"
  | boolean => "boolean"
  | object => "object"
  | any => "any"
  | null => "null"
  | undefined => "undefined"
  | literal text =>
    let quote := if text.contains '\'' then "\"" else "'"
    quote ++ text ++ quote

end Primitive

end Conform
