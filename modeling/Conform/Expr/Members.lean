import Conform.Text.Blank
import Conform.Text.Parens

/-!
The members of a record body. They end at a semicolon, a comma or a line break outside brackets and
literals. A line break does not end a member that goes on: after a colon or an operator, or before
an operator.
-/

namespace Conform.Expr

open Text

/-- How `c` changes the depth of brackets, all kinds counted together. -/
def bracketStep (c : Char) : Int :=
  if c ∈ ['(', '{', '<', '['] then 1 else if c ∈ [')', '}', '>', ']'] then -1 else 0

/-- Whether a member goes on past a line break. `last` is its last character so far that is not
white space. -/
def continuesAfter (last : Option Char) (rest : List Char) : Bool :=
  last.any (· ∈ [':', '|', '&']) || (trimStart rest).head?.any (· ∈ ['|', '&'])

def endsMember (depth : Int) (last : Option Char) (c : Char) (rest : List Char) : Bool :=
  depth == 0 && (c == ';' || c == ',' || (c == '\n' && !continuesAfter last rest))

/-- The text up to the end of the open member, and the members after it, nothing trimmed. -/
def cutMembers (depth : Int) (quote : Option Char) (last : Option Char) :
    List Char → List Char × List (List Char)
  | [] => ([], [])
  | c :: rest =>
    let lastAfter := if isBlank c then last else some c
    if quote.isSome || isQuote c then
      let (first, others) := cutMembers depth (quoteAfter quote c) lastAfter rest
      (c :: first, others)
    else if endsMember depth last c rest then
      let (first, others) := cutMembers depth none none rest
      ([], first :: others)
    else
      let (first, others) := cutMembers (depth + bracketStep c) none lastAfter rest
      (c :: first, others)

/-- The members of a record body, trimmed, without the empty ones. -/
def members (body : List Char) : List (List Char) :=
  let (first, others) := cutMembers 0 none none body
  ((first :: others).map trim).filter fun member => !member.isEmpty

end Conform.Expr
