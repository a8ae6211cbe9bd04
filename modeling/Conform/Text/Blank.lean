/-! White space, and trimming it from the ends of a text. -/

namespace Conform.Text

/-- White space is the Unicode property `White_Space`. -/
def isBlank (c : Char) : Bool :=
  let code := c.toNat
  (9 ≤ code && code ≤ 13) || code == 32 || code == 0x85 || code == 0xA0 || code == 0x1680 ||
    (0x2000 ≤ code && code ≤ 0x200A) || code == 0x2028 || code == 0x2029 || code == 0x202F ||
    code == 0x205F || code == 0x3000

def trimStart (text : List Char) : List Char :=
  text.dropWhile isBlank

def trimEnd (text : List Char) : List Char :=
  (text.reverse.dropWhile isBlank).reverse

def trim (text : List Char) : List Char :=
  trimEnd (trimStart text)

/-- The ways to read a run of white space from the front of a text, longest first: what is left
after each. The last one reads nothing. -/
def blankSplits : List Char → List (List Char)
  | [] => [[]]
  | c :: rest => if isBlank c then blankSplits rest ++ [c :: rest] else [c :: rest]

/-- As `blankSplits`, but at least one character is read. -/
def blankSplitsSome : List Char → List (List Char)
  | [] => []
  | c :: rest => if isBlank c then blankSplits rest else []

/-- The words of a text: its maximal runs without white space. -/
def words (text : List Char) : List (List Char) :=
  (text.splitOnP isBlank).filter fun word => !word.isEmpty

/-- What follows `start`, when the text begins with it. -/
def after? : List Char → List Char → Option (List Char)
  | [], text => some text
  | c :: start, d :: text => if c = d then after? start text else none
  | _ :: _, [] => none

end Conform.Text
