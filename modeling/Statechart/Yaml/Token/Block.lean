import Statechart.Yaml.Cursor

/-!
# Literal and folded scalars

These scalars are blocks of lines with an indentation. The lines of a literal block stay as they
are; in a folded one a line break between two words is a space.
-/
namespace Statechart.Yaml

/-- What becomes of the line breaks at the end of a block: the first one stays, or all or none. -/
inductive Ending where
  | clip
  | keep
  | strip
  deriving DecidableEq

/-- What the first line of a block says: its ending, and how much further it is indented than what
it belongs to. -/
structure BlockHeader where
  ending : Ending := .clip
  further : Option Nat := none

def ending? (c : Char) : Option Ending :=
  if c = '+' then some .keep else if c = '-' then some .strip else none

/-- A digit other than zero. -/
def further? (c : Char) : Option Nat :=
  if '1' ≤ c ∧ c ≤ '9' then some (c.toNat - '0'.toNat) else none

/-- Reads the marks after the mark of a block, in either order, and passes to the next line. -/
def blockHeader? (c : Cursor) : Option (BlockHeader × Cursor) := do
  let first := c.rest.head?
  let second := (c.rest.drop 1).head?
  let (header, count) : BlockHeader × Nat :=
    match first.bind ending?, first.bind further? with
    | some ending, _ =>
      match second.bind further? with
      | some n => (⟨ending, some n⟩, 2)
      | none => (⟨ending, none⟩, 1)
    | none, some n =>
      match second.bind ending? with
      | some ending => (⟨ending, some n⟩, 2)
      | none => (⟨.clip, some n⟩, 1)
    | none, none => ({}, 0)
  return (header, ← (c.skip count).toLineEnd?)

/-- Passes over at most so many empty lines and the indentation that follows them, and gives the
deepest column reached and the text of the line breaks. An indentation of zero is not known yet. A
tab must not stand in the indentation. -/
def emptyLines? (indent : Nat) : Nat → Nat → List Char → Cursor →
    Option (Nat × List Char × Cursor)
  | 0, deepest, breaks, c => some (deepest, breaks, c)
  | fuel + 1, deepest, breaks, c =>
    let spaces := (c.rest.takeWhile (· = ' ')).length
    let c := c.skip (if indent = 0 then spaces else min spaces (indent - c.column))
    let deepest := max deepest c.column
    if (indent = 0 || c.column < indent) && c.sees (· = '\t') then none
    else if c.sees isBreak then
      emptyLines? indent fuel deepest (breaks ++ c.takeBreak.1) c.takeBreak.2
    else some (deepest, breaks, c)

/-- What has been read of a block. -/
structure BlockText where
  /-- The text in reverse. -/
  done : List Char := []
  /-- The line break after the last line, and those of empty lines after it. -/
  lineBreak : List Char := []
  emptyBreaks : List Char := []
  /-- Whether the last line begins with a blank. -/
  indented : Bool := false

/-- Adds a line. Between two words of a folded block a line break is a space. -/
def BlockText.addLine (folded : Bool) (line : List Char) (b : BlockText) : BlockText :=
  let indented := line.head?.any isBlank
  let joined :=
    if folded && b.lineBreak.head? = some '\n' && !b.indented && !indented then
      if b.emptyBreaks.isEmpty then [' '] else []
    else b.lineBreak
  { done := line.reverse ++ ((joined ++ b.emptyBreaks).reverse ++ b.done), indented }

/-- The text of a block with its ending. -/
def BlockText.close (ending : Ending) (b : BlockText) : List Char :=
  let tail := match ending with
    | .strip => []
    | .clip => b.lineBreak
    | .keep => b.lineBreak ++ b.emptyBreaks
  b.done.reverse ++ tail

/-- Reads the lines of a block, at most so many. -/
def blockLines? (folded : Bool) (indent : Nat) : Nat → BlockText → Cursor →
    Option (BlockText × Cursor)
  | 0, b, c => some (b, c)
  | fuel + 1, b, c =>
    if c.column = indent && !c.rest.isEmpty then do
      let (line, c) := c.takeWhile (!isBreak ·)
      let (lineBreak, c) := c.takeBreak
      let (_, emptyBreaks, c) ← emptyLines? indent (c.left + 1) 0 [] c
      blockLines? folded indent fuel { b.addLine folded line with lineBreak, emptyBreaks } c
    else some (b, c)

/-- Reads a block after its mark. The indentation of what it belongs to is negative where it
belongs to the document. -/
def block? (folded : Bool) (parent : Int) (c : Cursor) : Option (List Char × Cursor) := do
  let (header, c) ← blockHeader? c
  let given := (header.further.map fun n => (max parent 0).toNat + n).getD 0
  let (deepest, emptyBreaks, c) ← emptyLines? given (c.left + 1) 0 [] c
  let indent := if given = 0 then max 1 (max deepest (parent + 1).toNat) else given
  let (b, c) ← blockLines? folded indent (c.left + 1) { emptyBreaks } c
  return (b.close header.ending, c)

end Statechart.Yaml
