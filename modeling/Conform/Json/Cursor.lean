/-!
A place in a text that is being read, and errors that name one. Lines count from one, columns are
counted in bytes of UTF-8.
-/

namespace Conform.Json

structure Position where
  line : Nat := 1
  column : Nat := 0
deriving DecidableEq, Repr

def Position.after (position : Position) (c : Char) : Position :=
  if c = '\n' then ⟨position.line + 1, 0⟩ else { position with column := position.column + c.utf8Size }

/-- The position that many bytes further on, or at the end. A character may be cut. -/
def Position.afterBytes (position : Position) : Nat → List Char → Position
  | 0, _ => position
  | _ + 1, [] => position
  | count + 1, c :: rest =>
    if c = '\n' ∨ c.utf8Size ≤ count + 1 then
      (position.after c).afterBytes (count + 1 - c.utf8Size) rest
    else { position with column := position.column + (count + 1) }

/-- An error, and how far the text had been read. -/
structure Located (ε : Type) where
  cause : ε
  position : Position
deriving DecidableEq, Repr

structure Cursor where
  rest : List Char
  position : Position := {}
deriving Repr

namespace Cursor

def ofText (text : List Char) : Cursor :=
  { rest := text }

def next? (cursor : Cursor) : Option Char :=
  cursor.rest.head?

/-- Moves over one character. -/
def advance (cursor : Cursor) : Cursor :=
  match cursor.rest with
  | [] => cursor
  | c :: rest => ⟨rest, cursor.position.after c⟩

def advanceBy (cursor : Cursor) : Nat → Cursor
  | 0 => cursor
  | count + 1 => cursor.advance.advanceBy count

/-- An error at the place of the cursor. -/
def fail (cursor : Cursor) (cause : ε) : Except (Located ε) α :=
  .error ⟨cause, cursor.position⟩

/-- An error at the byte after the cursor. -/
def failNext (cursor : Cursor) (cause : ε) : Except (Located ε) α :=
  .error ⟨cause, cursor.position.afterBytes 1 cursor.rest⟩

/-- White space between the parts of a document. -/
def isSpace (c : Char) : Bool :=
  c == ' ' || c == '\n' || c == '\t' || c == '\r'

def skipSpaces (cursor : Cursor) : Cursor :=
  cursor.advanceBy (cursor.rest.takeWhile isSpace).length

end Cursor

end Conform.Json
