import Conform.Filter.Value

/-!
Running filters. A filter can define functions that call themselves, so a run is bounded by how
many steps it may nest; a run that needs more ends in an error.
-/

namespace Conform.Filter

/-- What a name stands for. -/
inductive Binding where
  | value (name : String) (meaning : Value)
  /-- An argument sees what its caller sees. -/
  | argument (name : String) (meaning : Filter) (scope : List Binding)
  /-- A definition sees itself and what was bound before it. -/
  | definition (name : String) (parameters : List String) (meaning : Filter)

/-- What is bound, the newest first. -/
abbrev Scope := List Binding

namespace Scope

def meaningOf? (name : String) : Scope → Option Value
  | [] => none
  | .value bound meaning :: rest => if bound = name then some meaning else meaningOf? name rest
  | _ :: rest => meaningOf? name rest

/-- The parameters and the meaning of a function, and what the meaning sees. -/
def function? (name : String) (arity : Nat) : Scope → Option (List String × Filter × Scope)
  | [] => none
  | .argument bound meaning scope :: rest =>
    if bound = name ∧ arity = 0 then some ([], meaning, scope) else function? name arity rest
  | .definition bound parameters meaning :: rest =>
    if bound = name ∧ parameters.length = arity then
      some (parameters, meaning, .definition bound parameters meaning :: rest)
    else function? name arity rest
  | _ :: rest => function? name arity rest

end Scope

/-- Goes on with every value; errors stay. -/
def spread (answers : List (Except Value α)) (next : α → List (Except Value β)) :
    List (Except Value β) :=
  answers.flatMap fun answer =>
    match answer with
    | .ok value => next value
    | .error error => [.error error]

/-- All ways to take one value for every item; the first item varies slowest. -/
def products (run : α → List (Except Value β)) : List α → List (Except Value (List β))
  | [] => [.ok []]
  | item :: rest =>
    spread (run item) fun value => spread (products run rest) fun values => [.ok (value :: values)]

/-- Goes from one value to the next, once for every item. -/
def foldAnswers (step : α → Value → List Answer) : List (Except Value α) → Value → List Answer
  | [], state => [.ok state]
  | .error error :: _, _ => [.error error]
  | .ok item :: rest, state => spread (step item state) (foldAnswers step rest)

/-- What is extracted after every step. -/
def scanAnswers (step extract : α → Value → List Answer) :
    List (Except Value α) → Value → List Answer
  | [], _ => []
  | .error error :: _, _ => [.error error]
  | .ok item :: rest, state =>
    spread (step item state) fun next => extract item next ++ scanAnswers step extract rest next

/-- Binds parameters to arguments. A parameter that is a variable takes every value of its
argument. -/
def bindArguments (run : Filter → List Answer) (caller : Scope) :
    List (String × Filter) → Scope → List (Except Value Scope)
  | [], scope => [.ok scope]
  | (parameter, argument) :: rest, scope =>
    match parameter.toList with
    | '$' :: name =>
      let name := String.ofList name
      spread (run argument) fun value =>
        let scope := .value name value :: scope
        bindArguments run caller rest (.argument name (.variable name) scope :: scope)
    | _ => bindArguments run caller rest (.argument parameter argument caller :: scope)

/-- An entry of an object that is built; its key is a string. -/
def entryOf (key value : Value) : Except Value (String × Value) :=
  match key with
  | .string key => .ok (key, value)
  | other => fault ("cannot use " ++ other.text ++ " as string")

/-- The operations that only look at the input. -/
def operation? : String → Option (Value → List Answer)
  | "empty" => some fun _ => []
  | "error" => some fun value => [.error value]
  | "null" => some fun _ => [.ok .null]
  | "true" => some fun _ => [.ok (.bool true)]
  | "false" => some fun _ => [.ok (.bool false)]
  | "length" => some fun value => [value.size]
  | "keys_unsorted" => some fun value => [value.keys]
  | "type" => some fun value => [.ok (.string value.typeName)]
  | "reverse" => some fun value => [value.reversed]
  | "ascii_upcase" => some fun value => [value.mapText Char.toUpper]
  | "ascii_downcase" => some fun value => [value.mapText Char.toLower]
  | "tostring" => some fun value => [.ok (.string value.shown)]
  | "tojson" => some fun value => [.ok (.string value.text)]
  | _ => none

/-- The operations that also look at one more value. -/
def operationWith? : String → Option (Value → Value → Answer)
  | "has" => some Value.has
  | "startswith" => some (Value.textTest fun text part => text.startsWith part)
  | "endswith" => some (Value.textTest fun text part => text.endsWith part)
  | "split" => some Value.divide
  | _ => none

/-- The operations that run their arguments in a way of their own. -/
def specialForms : List (String × Nat) :=
  [("first", 1), ("limit", 2), ("sort_by", 1), ("range", 3)]

mutual

def eval (bound : Nat) (scope : Scope) (filter : Filter) (input : Value) : List Answer :=
  match bound with
  | 0 => [fault "too many nested steps"]
  | bound + 1 =>
    let run := fun filter => eval bound scope filter input
    match filter with
    | .identity => [.ok input]
    | .recurse => run (.call "recurse" [])
    | .number text =>
      [.ok ((text.toInt?.filter Value.inRange).elim (.decimal text) .integer)]
    | .string parts =>
      let texts := products (fun part =>
        match part with
        | .inl text => [.ok text]
        | .inr inner => spread (run inner) fun value => [.ok value.shown]) parts
      spread texts fun texts => [.ok (.string (String.join texts))]
    | .array none => [.ok (.array [])]
    | .array (some items) => [((run items).mapM id).map .array]
    | .object entries =>
      let entries := products (fun (key, value?) =>
        spread (run key) fun key =>
          match value? with
          | some value => spread (run value) fun value => [entryOf key value]
          | none => spread [input.get key] fun value => [entryOf key value]) entries
      spread entries fun entries => [.ok (.object (Json.entriesOf entries))]
    | .negate operand => spread (run operand) fun value => [value.negate]
    | .binary op left right => evalBinary bound scope op left right input
    | .bind source name body =>
      spread (run source) fun value => eval bound (.value name value :: scope) body input
    | .ifThenElse condition yes no =>
      spread (run condition) fun value =>
        if value.holds then run yes else (no.map run).getD [.ok input]
    | .attempt body handler =>
      (run body).flatMap fun answer =>
        match answer, handler with
        | .ok value, _ => [.ok value]
        | .error error, some handler => eval bound scope handler error
        | .error _, none => []
    | .reduce source name start update =>
      let step := fun item state => eval bound (.value name item :: scope) update state
      spread (run start) (foldAnswers step (run source))
    | .foreach source name start update extract =>
      let step := fun item state => eval bound (.value name item :: scope) update state
      let extracted := fun item state =>
        match extract with
        | some extract => eval bound (.value name item :: scope) extract state
        | none => [.ok state]
      spread (run start) (scanAnswers step extracted (run source))
    | .define name parameters meaning body =>
      eval bound (.definition name parameters meaning :: scope) body input
    | .call name arguments => evalCall bound scope name arguments input
    | .variable name => [(scope.meaningOf? name).elim (fault ("undefined $" ++ name)) .ok]
    | .index source selector =>
      spread (run source) fun value => spread (run selector) fun key => [value.get key]
    | .slice source first last =>
      spread (run source) fun value =>
        spread (evalBound bound scope first input) fun first =>
          spread (evalBound bound scope last input) fun last => [value.slice first last]
    | .each source =>
      spread (run source) fun value =>
        match value.parts with
        | .ok parts => parts.map .ok
        | .error error => [.error error]

/-- A bound of a slice, which may be missing. -/
def evalBound (bound : Nat) (scope : Scope) (limit : Option Filter) (input : Value) :
    List (Except Value (Option Value)) :=
  match bound, limit with
  | _, none => [.ok none]
  | 0, some _ => [fault "too many nested steps"]
  | bound + 1, some limit => spread (eval bound scope limit input) fun value => [.ok (some value)]

def evalBinary (bound : Nat) (scope : Scope) (op : BinaryOp) (left right : Filter)
    (input : Value) : List Answer :=
  match bound with
  | 0 => [fault "too many nested steps"]
  | bound + 1 =>
    let run := fun filter => eval bound scope filter input
    match op with
    | .pipe => spread (run left) (eval bound scope right)
    | .comma => run left ++ run right
    | .assign => spread (run right) fun value => change bound scope left input fun _ => [.ok value]
    | .update => change bound scope left input (eval bound scope right)
    | .updateWith op =>
      spread (run right) fun value =>
        change bound scope left input fun old => [old.calculate op value]
    | .updateAlternative =>
      spread (run right) fun value =>
        change bound scope left input fun old => [.ok (if old.holds then old else value)]
    | .alternative =>
      let holding := (run left).filter fun answer => answer.toOption.any Value.holds
      if holding.isEmpty then run right else holding
    | .or =>
      spread (run left) fun value =>
        if value.holds then [.ok (.bool true)]
        else spread (run right) fun value => [.ok (.bool value.holds)]
    | .and =>
      spread (run left) fun value =>
        if value.holds then spread (run right) fun value => [.ok (.bool value.holds)]
        else [.ok (.bool false)]
    | .compare op =>
      spread (run left) fun value =>
        spread (run right) fun other => [.ok (.bool (value.test op other))]
    | .arithmetic op =>
      spread (run left) fun value => spread (run right) fun other => [value.calculate op other]

def evalCall (bound : Nat) (scope : Scope) (name : String) (arguments : List Filter)
    (input : Value) : List Answer :=
  match bound with
  | 0 => [fault "too many nested steps"]
  | bound + 1 =>
    let run := fun filter => eval bound scope filter input
    match scope.function? name arguments.length with
    | some (parameters, meaning, inner) =>
      spread (bindArguments run scope (parameters.zip arguments) inner) fun inner =>
        eval bound inner meaning input
    | none =>
      match name, arguments with
      | "first", [source] => (run source).take 1
      | "limit", [count, source] =>
        spread (run count) fun count =>
          match count with
          | .integer count => (run source).take count.toNat
          | other => [fault ("cannot use " ++ other.text ++ " as integer")]
      | "sort_by", [key] =>
        match input with
        | .array items =>
          [(items.mapM fun item => do
            let keys ← (eval bound scope key item).mapM id
            return (Value.array keys, item)).map fun pairs => .array (Value.sortByKeys pairs)]
        | other => [fault ("cannot use " ++ other.text ++ " as array")]
      | "range", [start, stop, step] =>
        spread (run start) fun start => spread (run stop) fun stop => spread (run step) fun step =>
          Value.progression 1000000 start stop step
      | name, [] => (operation? name).elim [fault ("undefined " ++ name)] (· input)
      | name, [argument] =>
        match operationWith? name with
        | some operation => spread (run argument) fun value => [operation input value]
        | none => [fault ("undefined " ++ name)]
      | name, _ => [fault ("undefined " ++ name)]

/-- Changes the places of the input that a filter leads to. -/
def change (bound : Nat) (scope : Scope) (filter : Filter) (input : Value)
    (new : Value → List Answer) : List Answer :=
  match bound with
  | 0 => [fault "too many nested steps"]
  | bound + 1 =>
    let run := fun filter => eval bound scope filter input
    match filter with
    | .identity => new input
    | .recurse => change bound scope (.call "recurse" []) input new
    | .index source selector =>
      foldAnswers (fun key state => change bound scope source state fun value =>
        [value.changeAt key new]) (run selector) input
    | .each source => change bound scope source input fun value => [value.changeEach new]
    | .slice source first last =>
      let limits := spread (evalBound bound scope first input) fun first =>
        spread (evalBound bound scope last input) fun last => [.ok (first, last)]
      foldAnswers (fun (first, last) state => change bound scope source state fun value =>
        [value.changeSlice first last new]) limits input
    | .attempt (.index source selector) none =>
      foldAnswers (fun key state => change bound scope source state fun value =>
        if (value.get key).isOk then [value.changeAt key new] else [.ok value])
        (run selector) input
    | .attempt (.each source) none =>
      change bound scope source input fun value =>
        if value.parts.isOk then [value.changeEach new] else [.ok value]
    | .binary .pipe left right =>
      change bound scope left input fun value => change bound scope right value new
    | .binary .comma left right =>
      spread (change bound scope left input new) fun value => change bound scope right value new
    | .binary .alternative left right =>
      if (run left).any fun answer => answer.toOption.any Value.holds then
        change bound scope left input new
      else change bound scope right input new
    | .ifThenElse condition yes no =>
      foldAnswers (fun value state =>
        if value.holds then change bound scope yes state new
        else match no with
          | some no => change bound scope no state new
          | none => new state) (run condition) input
    | .bind source name body =>
      foldAnswers (fun value state => change bound (.value name value :: scope) body state new)
        (run source) input
    | .define name parameters meaning body =>
      change bound (.definition name parameters meaning :: scope) body input new
    | .call name arguments =>
      match scope.function? name arguments.length with
      | some (parameters, meaning, inner) =>
        foldAnswers (fun inner state => change bound inner meaning state new)
          (bindArguments run scope (parameters.zip arguments) inner) input
      | none =>
        match name, arguments with
        | "empty", [] => [.ok input]
        | "error", [] => [.error input]
        | name, _ => [fault (name ++ " leads to no place")]
    | _ => [fault "the filter leads to no place"]

end

end Conform.Filter
