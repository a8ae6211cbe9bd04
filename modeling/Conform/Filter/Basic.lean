/-! The syntax of jq filters, which turn one JSON value into any number of values. -/

namespace Conform

inductive ArithmeticOp where
  | add
  | subtract
  | multiply
  | divide
  | remainder
deriving DecidableEq, Repr

inductive ComparisonOp where
  | equal
  | different
  | less
  | atMost
  | greater
  | atLeast
deriving DecidableEq, Repr

/-- What joins two filters. -/
inductive BinaryOp where
  | pipe
  | comma
  | assign
  | update
  | updateWith (op : ArithmeticOp)
  | updateAlternative
  | alternative
  | or
  | and
  | compare (op : ComparisonOp)
  | arithmetic (op : ArithmeticOp)
deriving DecidableEq, Repr

inductive Filter where
  | identity
  | recurse
  | number (text : String)
  /-- A string; what stands between pieces of text is shown as text. -/
  | string (parts : List (String ⊕ Filter))
  | array (items : Option Filter)
  /-- A key without a value takes the value that the input has under it. -/
  | object (entries : List (Filter × Option Filter))
  | negate (operand : Filter)
  | binary (op : BinaryOp) (left right : Filter)
  /-- `source as $name | body` -/
  | bind (source : Filter) (name : String) (body : Filter)
  | ifThenElse (condition : Filter) (yes : Filter) (no : Option Filter)
  | attempt (body : Filter) (handler : Option Filter)
  /-- `reduce source as $name (start; update)` -/
  | reduce (source : Filter) (name : String) (start update : Filter)
  /-- `foreach source as $name (start; update; extract)` -/
  | foreach (source : Filter) (name : String) (start update : Filter) (extract : Option Filter)
  /-- `def name(parameters): meaning; body` -/
  | define (name : String) (parameters : List String) (meaning body : Filter)
  | call (name : String) (arguments : List Filter)
  | variable (name : String)
  /-- The part of what `source` gives under an index. -/
  | index (source index : Filter)
  | slice (source : Filter) (first last : Option Filter)
  /-- All parts of what `source` gives. -/
  | each (source : Filter)
deriving Inhabited, Repr

end Conform
