import Conform.Filter.Eval
import Conform.Filter.Reader

/-! The functions that every filter can use, and running a filter given as text. -/

namespace Conform.Filter

/-- Definitions that see those above them. -/
def preludeText : String :=
  "def not: if . then false else true end;
  def select(f): if f then . else empty end;
  def map(f): [.[] | f];
  def map_values(f): .[] |= f;
  def recurse(f): def rec: ., (f | rec); rec;
  def recurse: recurse(.[]?);
  def error(f): f | error;
  def values: select(. != null);
  def nulls: select(. == null);
  def booleans: select(type == \"boolean\");
  def numbers: select(type == \"number\");
  def strings: select(type == \"string\");
  def arrays: select(type == \"array\");
  def objects: select(type == \"object\");
  def iterables: select(type == \"array\" or type == \"object\");
  def scalars: select(type != \"array\" and type != \"object\");
  def nan: 0 / 0;
  def infinite: 1 / 0;
  def add(f): reduce f as $x (null; . + $x);
  def add: add(.[]);
  def range($from; $to): range($from; $to; 1);
  def range($to): range(0; $to);
  def sort: sort_by(.);
  def keys: keys_unsorted | sort;
  def to_entries: [keys_unsorted[] as $k | \x7bkey: $k, value: .[$k]\x7d];
  def from_entries: reduce .[] as $x (\x7b\x7d; . + \x7b($x.key): $x.value\x7d);
  def with_entries(f): to_entries | map(f) | from_entries;
  def del(f): f |= empty;
  def first: .[0];
  def last: .[-1];
  def last(f): reduce f as $x (null; $x);
  def until(p; f): def rec: if p then . else f | rec end; rec;
  def isempty(f): first((f | false), true);
  def any(f; p): isempty(first(f | p | select(.))) | not;
  def any(p): any(.[]; p);
  def any: any(.);
  def all(f; p): isempty(first(f | p | select(not)));
  def all(p): all(.[]; p);
  def all: all(.);
  def in(f): . as $key | f | has($key);
  def join($between):
    if length == 0 then \"\" else .[0] as $head
    | reduce .[1:][] as $x ($head | tostring; . + $between + ($x | tostring)) end;
  ."

/-- The definitions before the body of a filter, bound in turn. -/
def definitions (scope : Scope) : Filter → Scope
  | .define name parameters meaning body =>
    definitions (.definition name parameters meaning :: scope) body
  | _ => scope

def prelude : Scope :=
  ((ofText? preludeText.toList).map (definitions [])).getD []

/-- Names in reach: functions with how many parameters they have, and variables. -/
structure Names where
  functions : List (String × Nat)
  valueNames : List String

namespace Names

def ofBinding (binding : Binding) (names : Names) : Names :=
  match binding with
  | .value name _ => { names with valueNames := name :: names.valueNames }
  | .argument name _ _ => { names with functions := (name, 0) :: names.functions }
  | .definition name parameters _ =>
    { names with functions := (name, parameters.length) :: names.functions }

def ofScope (scope : Scope) : Names :=
  scope.foldr ofBinding ⟨[], []⟩

def withVariable (name : String) (names : Names) : Names :=
  { names with valueNames := name :: names.valueNames }

def withFunction (name : String) (arity : Nat) (names : Names) : Names :=
  { names with functions := (name, arity) :: names.functions }

/-- A parameter is a function, and a variable too when it is written as one. -/
def withParameter (names : Names) (parameter : String) : Names :=
  match parameter.toList with
  | '$' :: name => (names.withVariable (String.ofList name)).withFunction (String.ofList name) 0
  | _ => names.withFunction parameter 0

def hasFunction (name : String) (arity : Nat) (names : Names) : Bool :=
  names.functions.contains (name, arity) || specialForms.contains (name, arity) ||
    (arity == 0 && (operation? name).isSome) || (arity == 1 && (operationWith? name).isSome)

end Names

mutual

/-- Whether every name in a filter is in reach where it is used. -/
def wellNamed (names : Names) : Filter → Bool
  | .identity => true
  | .recurse => true
  | .number _ => true
  | .string parts => wellNamedParts names parts
  | .array none => true
  | .array (some items) => wellNamed names items
  | .object entries => wellNamedEntries names entries
  | .negate operand => wellNamed names operand
  | .binary _ left right => wellNamed names left && wellNamed names right
  | .bind source name body => wellNamed names source && wellNamed (names.withVariable name) body
  | .ifThenElse condition yes no =>
    wellNamed names condition && wellNamed names yes && wellNamedOption names no
  | .attempt body handler => wellNamed names body && wellNamedOption names handler
  | .reduce source name start update =>
    wellNamed names source && wellNamed names start && wellNamed (names.withVariable name) update
  | .foreach source name start update extract =>
    wellNamed names source && wellNamed names start &&
      wellNamed (names.withVariable name) update &&
      wellNamedOption (names.withVariable name) extract
  | .define name parameters meaning body =>
    let names := names.withFunction name parameters.length
    wellNamed (parameters.foldl Names.withParameter names) meaning && wellNamed names body
  | .call name arguments =>
    names.hasFunction name arguments.length && wellNamedAll names arguments
  | .variable name => names.valueNames.contains name
  | .index source selector => wellNamed names source && wellNamed names selector
  | .slice source first last =>
    wellNamed names source && wellNamedOption names first && wellNamedOption names last
  | .each source => wellNamed names source

def wellNamedAll (names : Names) : List Filter → Bool
  | [] => true
  | filter :: rest => wellNamed names filter && wellNamedAll names rest

def wellNamedOption (names : Names) : Option Filter → Bool
  | none => true
  | some filter => wellNamed names filter

def wellNamedParts (names : Names) : List (String ⊕ Filter) → Bool
  | [] => true
  | .inl _ :: rest => wellNamedParts names rest
  | .inr filter :: rest => wellNamed names filter && wellNamedParts names rest

def wellNamedEntries (names : Names) : List (Filter × Option Filter) → Bool
  | [] => true
  | (key, value) :: rest =>
    wellNamed names key && wellNamedOption names value && wellNamedEntries names rest

end

/-- Why a filter given as text has no outputs. -/
inductive Failure where
  | noFilter
  | undefinedName
  | stopped (error : Value)
  | noDocument (value : Value)

def Failure.message : Failure → String
  | noFilter => "cannot parse jq filter"
  | undefinedName => "jq filter uses an undefined name"
  | stopped error => "jq runtime error: " ++ error.shown
  | noDocument value => "jq produced non-JSON output \x60" ++ value.text ++ "\x60"

/-- The outputs of a filter as documents. An error among them is all there is. -/
def outputs (text : List Char) (input : Json) : Except Failure (List Json) :=
  match ofText? text with
  | none => .error .noFilter
  | some filter =>
    if wellNamed (Names.ofScope prelude) filter then
      (eval 10000 prelude filter (Value.ofJson input)).mapM fun answer =>
        match answer with
        | .ok value => (value.toJson).mapError fun _ => .noDocument value
        | .error error => .error (.stopped error)
    else .error .undefinedName

end Conform.Filter
