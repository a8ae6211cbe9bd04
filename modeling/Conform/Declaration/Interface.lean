import Conform.Declaration.Alias
import Conform.Text.Parens

/-! `interface Name ... { ... }` in a file, from the keyword to the brace that closes it. -/

namespace Conform.Declaration

open Text

/-- The header of an interface reaches its first brace before any semicolon or closing brace. -/
def reachesBody (text : List Char) : Bool :=
  (text.dropWhile fun c => !(c ∈ ['{', '}', ';'])).head? == some '{'

/-- The text itself, when it begins with the header of interface `name`. The name ends where a
word starts or ends. -/
def interfaceHeader? (name : List Char) (before : Option Char) (text : List Char) :
    Option (List Char) := do
  if !isBoundary before text.head? then none
  let rest ← after? "interface".toList text
  let found := (blankSplitsSome rest).any fun start =>
    match after? name start with
    | none => false
    | some rest => isBoundary (name.getLast?.or (some ' ')) rest.head? && reachesBody rest
  if found then some text else none

/-- The text up to the brace that closes `depth` open ones. Braces in literals do not count. -/
def readBraces (depth : Nat) (quote : Option Char) : List Char → Except ScanFault (List Char)
  | [] => .error .unbalanced
  | c :: rest =>
    if quote.isSome || isQuote c then
      (readBraces depth (quoteAfter quote c) rest).map (c :: ·)
    else if c = '{' then (readBraces (depth + 1) none rest).map (c :: ·)
    else if c = '}' then
      match depth with
      | 0 => .error .unbalanced
      | 1 => .ok [c]
      | outer + 1 => (readBraces outer none rest).map (c :: ·)
    else (readBraces depth none rest).map (c :: ·)

/-- The declaration of interface `name`, or nothing when the text has none. -/
def interface? (name text : List Char) : Except ScanFault (Option (List Char)) :=
  match firstMatch? (interfaceHeader? name) none text with
  | none => .ok none
  | some text => (readBraces 0 none text).map some

end Conform.Declaration
