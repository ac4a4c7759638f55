import Statechart.Yaml.Token
import Statechart.Yaml.Token.Flowing

/-!
# Anchors, tags and directives

A tag is a handle and an ending, which are octets; a directive declares the version of a document or
what a handle stands for.
-/
namespace Statechart.Yaml

/-- Marks that may follow the name of an anchor. -/
def endsName (c : Char) : Bool := ['?', ':', ',', ']', '\x7d', '%', '@', '\x60'].contains c

/-- Reads the name of an anchor after its mark. -/
def anchorName? (c : Cursor) : Option (String × Cursor) :=
  let (name, c) := c.takeWhile isNameChar
  if !name.isEmpty && (endsWord c.rest || c.sees endsName) then some (String.ofList name, c)
  else none

/-- Characters of tags. Some marks of flow style are among them only in tags between angle brackets
and in directives. -/
def isTagChar (whole : Bool) (c : Char) : Bool :=
  let others :=
    [';', '/', '?', ':', '@', '&', '=', '+', '$', '.', '%', '!', '~', '*', '\'', '(', ')']
  isNameChar c || others.contains c || (whole && [',', '[', ']'].contains c)

/-- An octet that a tag gives by two hexadecimal digits. -/
def octet? : List Char → Option (Nat × List Char)
  | '%' :: a :: b :: rest => (hexNumber? [a, b]).map fun n => (n, rest)
  | _ => none

/-- How many octets a character has by its first one. -/
def octetCount? (first : Nat) : Option Nat :=
  if first < 0x80 then some 1
  else if first / 0x20 = 6 then some 2
  else if first / 0x10 = 14 then some 3
  else if first / 8 = 30 then some 4
  else none

/-- Reads the later octets of a character, so many of them. -/
def moreOctets? : Nat → List Char → Option (List UInt8 × List Char)
  | 0, cs => some ([], cs)
  | count + 1, cs => do
    let (n, rest) ← octet? cs
    if n / 0x40 = 2 then
      let (octets, rest) ← moreOctets? count rest
      return (n.toUInt8 :: octets, rest)
    else none

/-- Reads a character of a tag, which may be given by its octets. -/
def tagChar? (cs : List Char) : Option (List UInt8 × List Char) :=
  match cs with
  | [] => none
  | c :: rest =>
    if c = '%' then do
      let (first, rest) ← octet? cs
      let (octets, rest) ← moreOctets? ((← octetCount? first) - 1) rest
      return (first.toUInt8 :: octets, rest)
    else some ([c.toNat.toUInt8], rest)

/-- The octets of a part of a tag, which has at most so many characters. -/
def tagOctets? : Nat → List Char → Option (List UInt8)
  | 0, _ => some []
  | _ + 1, [] => some []
  | fuel + 1, cs => do
    let (octets, rest) ← tagChar? cs
    return octets ++ (← tagOctets? fuel rest)

/-- Reads a part of a tag, which may be needed. It ends before an octet that is zero. -/
def tagText? (whole needed : Bool) (c : Cursor) : Option (List UInt8 × Cursor) := do
  let (written, c) := c.takeWhile (isTagChar whole)
  if needed && written.isEmpty then none
  else return ((← tagOctets? written.length written).takeWhile (· ≠ 0), c)

/-- Takes what may be a handle: a mark, a name and perhaps a second mark. -/
def takeHandle (c : Cursor) : List Char × Cursor :=
  let (name, after) := (c.skip 1).takeWhile isNameChar
  if after.sees (· = '!') then ('!' :: name ++ ['!'], after.skip 1) else ('!' :: name, after)

/-- Reads a tag that begins with its mark: one between angle brackets, a handle and an ending, or an
ending alone. -/
def tag? (inFlow : Bool) (c : Cursor) : Option (Token × Cursor) := do
  let (token, c) ←
    if (c.rest.drop 1).head? = some '<' then do
      let (ending, c) ← tagText? true true (c.skip 2)
      if c.sees (· = '>') then some (Token.tag "" ending, c.skip 1) else none
    else do
      let (handle, after) := takeHandle c
      if 1 < handle.length && handle.getLast? = some '!' then
        let (ending, after) ← tagText? false true after
        some (Token.tag (String.ofList handle) ending, after)
      else
        let (ending, after) ← tagText? false false after
        let octets := (handle.drop 1).map (·.toNat.toUInt8) ++ ending
        some (if octets.isEmpty then Token.tag "" tagMark else Token.tag "!" octets, after)
  if endsWord c.rest || (inFlow && c.sees (· = ',')) then some (token, c) else none

/-- Reads a number of a version, of at most nine digits. -/
def versionNumber? (c : Cursor) : Option (Nat × Cursor) := do
  let (digits, c) := c.takeWhile Char.isDigit
  if digits.length ≤ 9 then return (← Text.digitsToNat? digits, c) else none

/-- Reads a directive that begins with its mark, and passes to the next line. -/
def directive? (c : Cursor) : Option (Token × Cursor) := do
  let (name, c) := (c.skip 1).takeWhile isNameChar
  let start := c.skipWhile isBlank
  let (token, c) ←
    if !endsWord c.rest then none
    else if name = ['Y', 'A', 'M', 'L'] then do
      let (major, c) ← versionNumber? start
      if c.sees (· = '.') then do
        let (minor, c) ← versionNumber? (c.skip 1)
        some (Token.version major minor, c)
      else none
    else if name = ['T', 'A', 'G'] then do
      let (handle, c) := takeHandle start
      if !start.sees (· = '!') || handle.getLast? ≠ some '!' || !c.sees isBlank then none
      else do
        let (opening, c) ← tagText? true true (c.skipWhile isBlank)
        if endsWord c.rest then some (Token.handle (String.ofList handle) opening, c) else none
    else none
  return (token, ← c.toLineEnd?)

end Statechart.Yaml
