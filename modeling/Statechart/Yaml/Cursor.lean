import Statechart.Yaml.Character

/-!
# Places in a text

A cursor holds what is left of a text and where that begins.
-/
namespace Statechart.Yaml

structure Cursor where
  rest : List Char
  /-- The number of bytes of the text. -/
  size : Nat
  /-- The number of bytes before. -/
  offset : Nat := 0
  line : Nat := 0
  column : Nat := 0

namespace Cursor

def ofString (s : String) : Cursor := { rest := s.toList, size := s.utf8ByteSize }

/-- The number of bytes left. There are no more characters than that. -/
def left (c : Cursor) : Nat := c.size - c.offset

/-- Passes over characters of a line. -/
def skip (count : Nat) (c : Cursor) : Cursor :=
  { c with
    rest := c.rest.drop count
    offset := (c.rest.take count).foldl (fun n x => n + x.utf8Size) c.offset
    column := c.column + count }

/-- Takes the characters of a class that come next. -/
def takeWhile (p : Char → Bool) (c : Cursor) : List Char × Cursor :=
  let taken := c.rest.takeWhile p
  (taken, c.skip taken.length)

def skipWhile (p : Char → Bool) (c : Cursor) : Cursor := (c.takeWhile p).2

/-- Whether the next character belongs to a class. -/
def sees (p : Char → Bool) (c : Cursor) : Bool := c.rest.head?.any p

/-- Goes on to the next line after a number of characters. -/
def nextLine (count : Nat) (c : Cursor) : Cursor :=
  { c.skip count with line := c.line + 1, column := 0 }

/-- Takes a line break, if one comes next, and what it is in the text of a scalar: the separators of
lines and paragraphs are themselves, the others are one character. -/
def takeBreak (c : Cursor) : List Char × Cursor :=
  match c.rest with
  | '\r' :: '\n' :: _ => (['\n'], c.nextLine 2)
  | b :: _ =>
    if isBreak b then (if b.toNat < 8232 then ['\n'] else [b], c.nextLine 1) else ([], c)
  | [] => ([], c)

/-- Whether a line begins with the mark that opens or closes a document. -/
def opensDocument (c : Cursor) : Bool :=
  c.column = 0 && endsWord (c.rest.drop 3) &&
    ["---", "..."].contains (String.ofList (c.rest.take 3))

/-- Passes over blanks and a comment, up to the end of a line. Anything else is refused. -/
def toLineEnd? (c : Cursor) : Option Cursor :=
  let c := c.skipWhile isBlank
  let c := if c.sees (· = '#') then c.skipWhile (!isBreak ·) else c
  if c.rest.isEmpty || c.sees isBreak then some c.takeBreak.2 else none

end Cursor

end Statechart.Yaml
