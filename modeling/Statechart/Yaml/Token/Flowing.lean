import Statechart.Json.Token
import Statechart.Yaml.Cursor

/-!
# Plain and quoted scalars

These scalars flow over the ends of lines: a line break between two words is a space, and further
ones stay line breaks.
-/
namespace Statechart.Yaml

/-- What stands between two words. -/
structure Gap where
  /-- The blanks before the first line break. -/
  blanks : List Char := []
  /-- Whether a line has ended. -/
  broken : Bool := false
  firstBreak : List Char := []
  otherBreaks : List Char := []

namespace Gap

def addBlank (b : Char) (g : Gap) : Gap :=
  if g.broken then g else { g with blanks := g.blanks ++ [b] }

def addBreak (text : List Char) (g : Gap) : Gap :=
  if g.broken then { g with otherBreaks := g.otherBreaks ++ text }
  else { broken := true, firstBreak := text }

/-- What a gap is in the text of a scalar. -/
def text (g : Gap) : List Char :=
  if !g.broken then g.blanks
  else if g.firstBreak ≠ ['\n'] then g.firstBreak ++ g.otherBreaks
  else if g.otherBreaks.isEmpty then [' ']
  else g.otherBreaks

/-- Takes a gap of at most so many characters. A tab must not stand before a least column. -/
def take? (least : Nat) : Nat → Gap → Cursor → Option (Gap × Cursor)
  | 0, g, c => some (g, c)
  | fuel + 1, g, c =>
    match c.rest with
    | [] => some (g, c)
    | x :: _ =>
      if isBlank x then
        if g.broken && c.column < least && x = '\t' then none
        else take? least fuel (g.addBlank x) (c.skip 1)
      else if isBreak x then take? least fuel (g.addBreak c.takeBreak.1) c.takeBreak.2
      else some (g, c)

end Gap

/-- A word of a plain scalar. It ends at the colon of a key, and in flow style at the marks of that
style, which must not follow a colon. -/
def word? (inFlow : Bool) : List Char → Option (List Char)
  | [] => some []
  | c :: rest =>
    if isBlank c || isBreak c then some []
    else if inFlow && c = ':' && rest.head?.any (fun d => isFlowMark d || d = '?') then none
    else if (c = ':' && endsWord rest) || (inFlow && isFlowMark c) then some []
    else (word? inFlow rest).map (c :: ·)

/-- A scalar that has been read, and the place after it. -/
structure Flowed where
  text : List Char
  /-- Whether the scalar is followed by the end of its line. -/
  broken : Bool
  cursor : Cursor

/-- Reads a plain scalar of at most so many words, given in reverse what has been read and the gap
after it. -/
def plainFrom? (inFlow : Bool) (least : Nat) : Nat → List Char → Gap → Cursor → Option Flowed
  | 0, _, _, _ => none
  | fuel + 1, done, gap, c =>
    if c.opensDocument || c.sees (· = '#') then some ⟨done.reverse, gap.broken, c⟩
    else do
      let word ← word? inFlow c.rest
      let (done, gap) :=
        if word.isEmpty then (done, gap) else ((gap.text ++ word).reverse ++ done, {})
      let c := c.skip word.length
      if c.rest.isEmpty || !endsWord c.rest then some ⟨done.reverse, gap.broken, c⟩
      else
        let (gap, c) ← Gap.take? least c.left gap c
        if !inFlow && c.column < least then some ⟨done.reverse, gap.broken, c⟩
        else plainFrom? inFlow least fuel done gap c

/-- Reads a plain scalar, whose lines in block style have a least indentation. -/
def plain? (inFlow : Bool) (least : Nat) (c : Cursor) : Option Flowed :=
  plainFrom? inFlow least (c.left + 1) [] {} c

/-- The number of hexadecimal digits after a letter. -/
def escapeLengths : List (Char × Nat) := [('x', 2), ('u', 4), ('U', 8)]

/-- The character that a letter stands for. -/
def letter? (c : Char) : Option Char :=
  if c = ' ' || c = '/' || c = '\t' then some c
  else (letters.find? fun (_, letter) => letter = c).map fun (n, _) => Char.ofNat n

/-- The number that hexadecimal digits denote. -/
def hexNumber? (digits : List Char) : Option Nat := do
  return (← digits.mapM Json.hexDigit?).foldl (fun n d => 16 * n + d) 0

/-- The character that stands after a backslash, and how many characters it takes. -/
def escaped? : List Char → Option (Char × Nat)
  | [] => none
  | c :: rest =>
    match escapeLengths.lookup c with
    | none => (letter? c).map fun d => (d, 1)
    | some length => do
      let digits := rest.take length
      let code ← hexNumber? digits
      if digits.length = length ∧ code.isValidChar then some (Char.ofNat code, length + 1)
      else none

/-- Reads a quoted scalar up to its closing quote, which is at most so many steps away, given in
reverse what has been read. -/
def quotedFrom? (quote : Char) : Nat → List Char → Cursor → Option (List Char × Cursor)
  | 0, _, _ => none
  | fuel + 1, done, c =>
    if c.opensDocument then none
    else
      match c.rest with
      | [] => none
      | x :: rest =>
        let through (gap : Gap) (c : Cursor) : Option (List Char × Cursor) := do
          let (gap, c) ← Gap.take? 0 c.left gap c
          quotedFrom? quote fuel (gap.text.reverse ++ done) c
        if isBlank x || isBreak x then through {} c
        else if quote = '\'' && x = quote && rest.head? = some quote then
          quotedFrom? quote fuel (quote :: done) (c.skip 2)
        else if x = quote then some (done.reverse, c.skip 1)
        else if quote = '"' && x = '\\' then
          if rest.head?.any isBreak then
            through { broken := true } (c.skip 1).takeBreak.2
          else do
            let (d, count) ← escaped? rest
            quotedFrom? quote fuel (d :: done) (c.skip (1 + count))
        else quotedFrom? quote fuel (x :: done) (c.skip 1)

/-- Reads a quoted scalar that begins with its quote. -/
def quoted? (quote : Char) (c : Cursor) : Option (List Char × Cursor) :=
  quotedFrom? quote (c.left + 1) [] (c.skip 1)

end Statechart.Yaml
