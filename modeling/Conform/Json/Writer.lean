import Conform.Decimal.Shortest
import Conform.Json.Basic

/-! Writing JSON in its compact form, without line breaks. -/

namespace Conform.Json

def hexDigit (value : Nat) : Char :=
  if value < 10 then Char.ofNat ('0'.toNat + value) else Char.ofNat ('a'.toNat + (value - 10))

/-- Quotes, backslashes and control characters are escaped, the others stand for themselves. -/
def escape (c : Char) : List Char :=
  if c = '"' then ['\\', '"']
  else if c = '\\' then ['\\', '\\']
  else if c = '\n' then ['\\', 'n']
  else if c = '\r' then ['\\', 'r']
  else if c = '\t' then ['\\', 't']
  else if c = '\x08' then ['\\', 'b']
  else if c = '\x0c' then ['\\', 'f']
  else if c.toNat < 0x20 then
    ['\\', 'u', '0', '0', hexDigit (c.toNat / 16), hexDigit (c.toNat % 16)]
  else [c]

def quote (text : String) : String :=
  "\"" ++ String.ofList (text.toList.flatMap escape) ++ "\""

/-- A number that is not finite has no form of its own. -/
def numberText : JsonNumber → String
  | .integer value => toString value
  | .float bits =>
    if bits.toNat / Nat.pow 2 52 % Nat.pow 2 11 = 2047 then "null" else Decimal.binary64Text bits

mutual

def write : Json → String
  | null => "null"
  | bool value => if value then "true" else "false"
  | number value => numberText value
  | string text => quote text
  | array items => "[" ++ ",".intercalate (writeItems items) ++ "]"
  | object entries => "\x7b" ++ ",".intercalate (writeEntries entries) ++ "\x7d"

def writeItems : List Json → List String
  | [] => []
  | item :: rest => item.write :: writeItems rest

def writeEntries : List (String × Json) → List String
  | [] => []
  | (key, value) :: rest => (quote key ++ ":" ++ value.write) :: writeEntries rest

end

end Conform.Json
