import Conform.Filter.Basic
import Conform.Filter.Token

/-!
Reading filters. Operators that bind tighter join their operands first. Every reader takes a token
before it calls another at the same place, or calls one further down in this file, so a bound of a
few steps for each token is enough.
-/

namespace Conform.Filter

def arithmeticOp? : String → Option ArithmeticOp
  | "+" => some .add
  | "-" => some .subtract
  | "*" => some .multiply
  | "/" => some .divide
  | "%" => some .remainder
  | _ => none

def comparisonOp? : String → Option ComparisonOp
  | "==" => some .equal
  | "!=" => some .different
  | "<" => some .less
  | "<=" => some .atMost
  | ">" => some .greater
  | ">=" => some .atLeast
  | _ => none

def updateOp? (text : String) : Option BinaryOp :=
  match text.toList.reverse with
  | '=' :: rest => (arithmeticOp? (String.ofList rest.reverse)).map .updateWith
  | _ => none

def symbolOp? (text : String) : Option BinaryOp :=
  match text with
  | "|" => some .pipe
  | "," => some .comma
  | "=" => some .assign
  | "|=" => some .update
  | "//=" => some .updateAlternative
  | "//" => some .alternative
  | _ =>
    ((arithmeticOp? text).map BinaryOp.arithmetic).or
      (((comparisonOp? text).map BinaryOp.compare).or (updateOp? text))

def binaryOp? : Token → Option BinaryOp
  | .word "or" => some .or
  | .word "and" => some .and
  | .symbol text => symbolOp? text
  | _ => none

/-- How tightly an operator binds. -/
def strength : BinaryOp → Nat
  | .pipe => 0
  | .comma => 1
  | .assign => 2
  | .update => 2
  | .updateWith _ => 2
  | .updateAlternative => 2
  | .alternative => 3
  | .or => 4
  | .and => 5
  | .compare _ => 6
  | .arithmetic .add => 7
  | .arithmetic .subtract => 7
  | .arithmetic .multiply => 8
  | .arithmetic .divide => 8
  | .arithmetic .remainder => 9

/-- Whether an operator joins its right neighbour first where it stands beside itself. -/
def joinsRight (op : BinaryOp) : Bool :=
  strength op = 0 || strength op = 2

def keywords : List String :=
  ["and", "or", "if", "then", "elif", "else", "end", "try", "catch", "reduce", "foreach", "as", "def",
    "import", "include", "label"]

def expect (token : Token) : List Token → Option (List Token)
  | first :: rest => if first = token then some rest else none
  | [] => none

/-- The names between parentheses, separated by semicolons. -/
def readParameters : List Token → Option (List String × List Token)
  | .word name :: .symbol ")" :: rest => some ([name], rest)
  | .variable name :: .symbol ")" :: rest => some (["$" ++ name], rest)
  | .word name :: .symbol ";" :: rest =>
    (readParameters rest).map fun (names, rest) => (name :: names, rest)
  | .variable name :: .symbol ";" :: rest =>
    (readParameters rest).map fun (names, rest) => (("$" ++ name) :: names, rest)
  | _ => none

mutual

/-- A filter whose operators bind at least as tightly as `least`. Inside an object a comma ends
it. -/
def readFilter (bound : Nat) (comma : Bool) (least : Nat) (tokens : List Token) :
    Option (Filter × List Token) :=
  match bound, tokens with
  | 0, _ => none
  | bound + 1, .word "def" :: .word name :: .symbol "(" :: rest => do
    let (parameters, rest) ← readParameters rest
    readDefinition bound comma least name parameters rest
  | bound + 1, .word "def" :: .word name :: rest => readDefinition bound comma least name [] rest
  | bound + 1, tokens => do
    let (head, rest) ← readOperand bound comma tokens
    readOperators bound comma least head rest

def readDefinition (bound : Nat) (comma : Bool) (least : Nat) (name : String)
    (parameters : List String) (tokens : List Token) : Option (Filter × List Token) :=
  match bound with
  | 0 => none
  | bound + 1 => do
    let rest ← expect (.symbol ":") tokens
    let (meaning, rest) ← readFilter bound true 0 rest
    let rest ← expect (.symbol ";") rest
    let (body, rest) ← readFilter bound comma least rest
    return (.define name parameters meaning body, rest)

/-- The operators after a filter, with their right operands. -/
def readOperators (bound : Nat) (comma : Bool) (least : Nat) (left : Filter)
    (tokens : List Token) : Option (Filter × List Token) :=
  match bound, tokens with
  | 0, _ => none
  | _ + 1, [] => some (left, [])
  | bound + 1, token :: rest =>
    match binaryOp? token with
    | none => some (left, token :: rest)
    | some op =>
      if strength op < least || (op = .comma && !comma) then some (left, token :: rest)
      else do
        let (right, rest) ←
          readFilter bound comma (if joinsRight op then strength op else strength op + 1) rest
        readOperators bound comma least (.binary op left right) rest

/-- A term, and what `as` makes of it. -/
def readOperand (bound : Nat) (comma : Bool) (tokens : List Token) :
    Option (Filter × List Token) :=
  match bound with
  | 0 => none
  | bound + 1 => do
    let (term, rest) ← readTerm bound tokens
    match rest with
    | .word "as" :: .variable name :: .symbol "|" :: rest => do
      let (body, rest) ← readFilter bound comma 0 rest
      return (.bind term name body, rest)
    | .word "as" :: _ => none
    | rest => return (term, rest)

/-- A term with the indices and question marks after it. -/
def readTerm (bound : Nat) (tokens : List Token) : Option (Filter × List Token) :=
  match bound, tokens with
  | 0, _ => none
  | bound + 1, .symbol "-" :: rest => do
    let (operand, rest) ← readTerm bound rest
    return (.negate operand, rest)
  | bound + 1, tokens => do
    let (head, rest) ← readHead bound tokens
    readSuffixes bound head rest

def readHead (bound : Nat) (tokens : List Token) : Option (Filter × List Token) :=
  match bound, tokens with
  | 0, _ => none
  | bound + 1, .word "if" :: rest => readIf bound rest
  | bound + 1, .word "try" :: rest => do
    let (body, rest) ← readTerm bound rest
    match rest with
    | .word "catch" :: rest => do
      let (handler, rest) ← readTerm bound rest
      return (.attempt body (some handler), rest)
    | rest => return (.attempt body none, rest)
  | bound + 1, .word "reduce" :: rest => do
    let (source, name, arguments, rest) ← readFold bound rest
    match arguments with
    | [start, update] => return (.reduce source name start update, rest)
    | _ => none
  | bound + 1, .word "foreach" :: rest => do
    let (source, name, arguments, rest) ← readFold bound rest
    match arguments with
    | [start, update] => return (.foreach source name start update none, rest)
    | [start, update, extract] => return (.foreach source name start update (some extract), rest)
    | _ => none
  | bound + 1, .word name :: rest =>
    if name ∈ keywords then none
    else
      match rest with
      | .symbol "(" :: rest => do
        let (arguments, rest) ← readArguments bound rest
        return (.call name arguments, rest)
      | rest => some (.call name [], rest)
  | _ + 1, .variable name :: rest => some (.variable name, rest)
  | _ + 1, .number text :: rest => some (.number text, rest)
  | _ + 1, .symbol ".." :: rest => some (.recurse, rest)
  | _ + 1, .field name :: rest => some (.index .identity (.string [.inl name]), rest)
  | bound + 1, .symbol "." :: .openString :: rest => do
    let (parts, rest) ← readParts bound rest
    return (.index .identity (.string parts), rest)
  | _ + 1, .symbol "." :: rest => some (.identity, rest)
  | bound + 1, .openString :: rest => do
    let (parts, rest) ← readParts bound rest
    return (.string parts, rest)
  | _ + 1, .symbol "[" :: .symbol "]" :: rest => some (.array none, rest)
  | bound + 1, .symbol "[" :: rest => do
    let (items, rest) ← readFilter bound true 0 rest
    return (.array (some items), ← expect (.symbol "]") rest)
  | _ + 1, .symbol "\x7b" :: .symbol "\x7d" :: rest => some (.object [], rest)
  | bound + 1, .symbol "\x7b" :: rest => do
    let (entries, rest) ← readEntries bound rest
    return (.object entries, rest)
  | bound + 1, .symbol "(" :: rest => do
    let (inner, rest) ← readFilter bound true 0 rest
    return (inner, ← expect (.symbol ")") rest)
  | _ + 1, _ => none

/-- What follows `if`, up to `end`. -/
def readIf (bound : Nat) (tokens : List Token) : Option (Filter × List Token) :=
  match bound with
  | 0 => none
  | bound + 1 => do
    let (condition, rest) ← readFilter bound true 0 tokens
    let rest ← expect (.word "then") rest
    let (yes, rest) ← readFilter bound true 0 rest
    match rest with
    | .word "elif" :: rest => do
      let (no, rest) ← readIf bound rest
      return (.ifThenElse condition yes (some no), rest)
    | .word "else" :: rest => do
      let (no, rest) ← readFilter bound true 0 rest
      return (.ifThenElse condition yes (some no), ← expect (.word "end") rest)
    | rest => return (.ifThenElse condition yes none, ← expect (.word "end") rest)

/-- `source as $name (arguments)` -/
def readFold (bound : Nat) (tokens : List Token) :
    Option (Filter × String × List Filter × List Token) :=
  match bound with
  | 0 => none
  | bound + 1 => do
    let (source, rest) ← readTerm bound tokens
    match rest with
    | .word "as" :: .variable name :: .symbol "(" :: rest => do
      let (arguments, rest) ← readArguments bound rest
      return (source, name, arguments, rest)
    | _ => none

/-- Filters separated by semicolons, up to the closing parenthesis. -/
def readArguments (bound : Nat) (tokens : List Token) : Option (List Filter × List Token) :=
  match bound with
  | 0 => none
  | bound + 1 => do
    let (first, rest) ← readFilter bound true 0 tokens
    match rest with
    | .symbol ";" :: rest => do
      let (others, rest) ← readArguments bound rest
      return (first :: others, rest)
    | .symbol ")" :: rest => return ([first], rest)
    | _ => none

/-- The pieces of a string. -/
def readParts (bound : Nat) (tokens : List Token) :
    Option (List (String ⊕ Filter) × List Token) :=
  match bound, tokens with
  | bound + 1, .piece text :: rest => do
    let (parts, rest) ← readParts bound rest
    match parts with
    | .inl more :: parts => return (.inl (text ++ more) :: parts, rest)
    | parts => return (.inl text :: parts, rest)
  | bound + 1, .openPart :: rest => do
    let (part, rest) ← readFilter bound true 0 rest
    let rest ← expect .closePart rest
    let (parts, rest) ← readParts bound rest
    return (.inr part :: parts, rest)
  | _ + 1, .closeString :: rest => some ([], rest)
  | _, _ => none

/-- The entries of an object, up to the closing brace. -/
def readEntries (bound : Nat) (tokens : List Token) :
    Option (List (Filter × Option Filter) × List Token) :=
  match bound with
  | 0 => none
  | bound + 1 => do
    let (entry, rest) ← readEntry bound tokens
    match rest with
    | .symbol "," :: .symbol "\x7d" :: rest => return ([entry], rest)
    | .symbol "," :: rest => do
      let (entries, rest) ← readEntries bound rest
      return (entry :: entries, rest)
    | .symbol "\x7d" :: rest => return ([entry], rest)
    | _ => none

/-- A key and, after a colon, its value. A computed key needs one. -/
def readEntry (bound : Nat) (tokens : List Token) :
    Option ((Filter × Option Filter) × List Token) :=
  match bound with
  | 0 => none
  | bound + 1 => do
    let (key, computed, rest) ← match tokens with
      | .word name :: rest => some (Filter.string [.inl name], false, rest)
      | .variable name :: rest => some (Filter.variable name, false, rest)
      | .symbol "(" :: rest => do
        let (key, rest) ← readFilter bound true 0 rest
        some (key, true, ← expect (.symbol ")") rest)
      | .openString :: rest => do
        let (parts, rest) ← readParts bound rest
        some (Filter.string parts, false, rest)
      | _ => none
    match rest with
    | .symbol ":" :: rest => do
      let (value, rest) ← readFilter bound false 0 rest
      return ((key, some value), rest)
    | rest =>
      if computed then none
      else
        match key with
        | .variable name => return ((.string [.inl name], some key), rest)
        | key => return ((key, none), rest)

/-- The indices, slices and question marks after a term. -/
def readSuffixes (bound : Nat) (head : Filter) (tokens : List Token) :
    Option (Filter × List Token) :=
  match bound, tokens with
  | 0, _ => none
  | bound + 1, .symbol "?" :: rest => readSuffixes bound (.attempt head none) rest
  | bound + 1, .field name :: rest => readSuffixes bound (.index head (.string [.inl name])) rest
  | bound + 1, .symbol "." :: .openString :: rest => do
    let (parts, rest) ← readParts bound rest
    readSuffixes bound (.index head (.string parts)) rest
  | bound + 1, .symbol "." :: .symbol "[" :: rest => readBrackets bound head rest
  | bound + 1, .symbol "[" :: rest => readBrackets bound head rest
  | _ + 1, rest => some (head, rest)

/-- What stands between brackets after a term. -/
def readBrackets (bound : Nat) (head : Filter) (tokens : List Token) :
    Option (Filter × List Token) :=
  match bound, tokens with
  | 0, _ => none
  | bound + 1, .symbol "]" :: rest => readSuffixes bound (.each head) rest
  | bound + 1, .symbol ":" :: rest => do
    let (last, rest) ← readFilter bound true 0 rest
    readSuffixes bound (.slice head none (some last)) (← expect (.symbol "]") rest)
  | bound + 1, tokens => do
    let (first, rest) ← readFilter bound true 0 tokens
    match rest with
    | .symbol "]" :: rest => readSuffixes bound (.index head first) rest
    | .symbol ":" :: .symbol "]" :: rest => readSuffixes bound (.slice head (some first) none) rest
    | .symbol ":" :: rest => do
      let (last, rest) ← readFilter bound true 0 rest
      readSuffixes bound (.slice head (some first) (some last)) (← expect (.symbol "]") rest)
    | _ => none

end

/-- The filter that a text is, if it is one. -/
def ofText? (text : List Char) : Option Filter := do
  let tokens ← tokens text
  match readFilter (8 * tokens.length + 8) true 0 tokens with
  | some (filter, []) => some filter
  | _ => none

end Conform.Filter
