import Statechart.Yaml.Token.Block
import Statechart.Yaml.Token.Tag

/-!
# Cutting a text into tokens

The column at which a token stands opens and closes the blocks of block style. Whether a scalar is
a key shows only at the colon after it, so the place of what may be a key is kept, and the marks of
the key are put there when the colon comes. A key is written on one line and is not longer than
1024 bytes.
-/
namespace Statechart.Yaml

/-- What may be a key. -/
structure KeyPlace where
  /-- Whether nothing but a key can stand here. -/
  required : Bool
  /-- Its place among the tokens. -/
  number : Nat
  offset : Nat
  line : Nat
  column : Nat

structure Lexer where
  cursor : Cursor
  /-- The column of the innermost block, negative outside. -/
  indent : Int := -1
  /-- The columns of the blocks around it. -/
  outer : List Int := []
  keyAllowed : Bool := true
  /-- What may be a key in the innermost flow collection, in those around it and outside. -/
  keys : List (Option KeyPlace) := [none]
  /-- The tokens so far in reverse. -/
  tokens : List Token := []
  count : Nat := 0

namespace Lexer

def inFlow (l : Lexer) : Bool := 1 < l.keys.length

def put (t : Token) (l : Lexer) : Lexer := { l with tokens := t :: l.tokens, count := l.count + 1 }

/-- Puts a token at a place among the others. -/
def putAt (number : Nat) (t : Token) (l : Lexer) : Lexer :=
  { l with tokens := l.tokens.insertIdx (l.count - number) t, count := l.count + 1 }

/-- Puts a token for the next characters. -/
def putMark (t : Token) (length : Nat) (l : Lexer) : Lexer :=
  ({ l with cursor := l.cursor.skip length }).put t

/-- Opens a block at a column that lies further than the innermost one. Its token has a place among
the others. -/
def openBlock (column : Nat) (number : Nat) (t : Token) (l : Lexer) : Lexer :=
  if !l.inFlow && l.indent < column then
    ({ l with indent := column, outer := l.indent :: l.outer }).putAt number t
  else l

/-- Closes the blocks that lie further than a column. -/
def closeBlocks (column : Int) (l : Lexer) : Lexer :=
  if l.inFlow then l
  else
    let inner := (l.indent :: l.outer).takeWhile (column < ·)
    let rest := (l.indent :: l.outer).drop inner.length
    inner.foldl (fun l _ => l.put .closeBlock)
      { l with indent := rest.headD (-1), outer := rest.tail }

/-- Gives up what may be a key, which must not be required. -/
def giveUp? : Option KeyPlace → Option (Option KeyPlace)
  | some k => if k.required then none else some none
  | none => some none

/-- Gives up what can no longer be a key. -/
def dropStale? (l : Lexer) : Option Lexer := do
  let keys ← l.keys.mapM fun key =>
    if key.any fun k => k.line < l.cursor.line || k.offset + 1024 < l.cursor.offset then
      giveUp? key
    else some key
  return { l with keys }

/-- Gives up what may be a key in the innermost collection. -/
def dropKey? (l : Lexer) : Option Lexer := do
  return { l with keys := (← giveUp? (l.keys.headD none)) :: l.keys.tail }

/-- Notes that what comes next may be a key. -/
def noteKey? (l : Lexer) : Option Lexer := do
  if l.keyAllowed then
    let l ← l.dropKey?
    let key : KeyPlace :=
      { required := !l.inFlow && l.indent = l.cursor.column
        number := l.count
        offset := l.cursor.offset
        line := l.cursor.line
        column := l.cursor.column }
    return { l with keys := some key :: l.keys.tail }
  else return l

/-- Passes over blanks, comments and line breaks, of which there are at most so many. A line may
begin with a mark of byte order, which takes a column. A tab must not stand where a key may begin in
block style. -/
def toToken : Nat → Lexer → Lexer
  | 0, l => l
  | fuel + 1, l =>
    let c := l.cursor
    let c := if c.column = 0 && c.sees isByteOrderMark then c.skip 1 else c
    let tabs := l.inFlow || !l.keyAllowed
    let c := c.skipWhile fun x => x = ' ' || (tabs && x = '\t')
    let c := if c.sees (· = '#') then c.skipWhile (!isBreak ·) else c
    if c.sees isBreak then
      toToken fuel { l with cursor := c.takeBreak.2, keyAllowed := l.keyAllowed || !l.inFlow }
    else { l with cursor := c }

/-- A directive or the mark of a document, which closes every block. -/
def outside? (l : Lexer) : Option Lexer := do
  let l ← (l.closeBlocks (-1)).dropKey?
  return { l with keyAllowed := false }

def openFlow? (t : Token) (l : Lexer) : Option Lexer := do
  let l ← l.noteKey?
  return { l.putMark t 1 with keys := none :: l.keys, keyAllowed := true }

def closeFlow? (t : Token) (l : Lexer) : Option Lexer := do
  let l ← l.dropKey?
  let keys := if l.inFlow then l.keys.tail else l.keys
  return { l.putMark t 1 with keys, keyAllowed := false }

def comma? (l : Lexer) : Option Lexer := do
  let l ← l.dropKey?
  return { l.putMark .comma 1 with keyAllowed := true }

/-- The dash of an item, which in block style stands where a key could. -/
def item? (l : Lexer) : Option Lexer := do
  if !l.inFlow && !l.keyAllowed then none
  let l ← (l.openBlock l.cursor.column l.count .openBlockSeq).dropKey?
  return { l.putMark .item 1 with keyAllowed := true }

/-- The mark of a key, which in block style stands where a key could. -/
def key? (l : Lexer) : Option Lexer := do
  if !l.inFlow && !l.keyAllowed then none
  let l ← (l.openBlock l.cursor.column l.count .openBlockMap).dropKey?
  return { l.putMark .key 1 with keyAllowed := !l.inFlow }

/-- The colon after a key. -/
def value? (l : Lexer) : Option Lexer := do
  match l.keys with
  | some k :: rest =>
    let l := (l.putAt k.number .key).openBlock k.column k.number .openBlockMap
    return { l.putMark .value 1 with keys := none :: rest, keyAllowed := false }
  | _ =>
    if !l.inFlow && !l.keyAllowed then none
    let l := l.openBlock l.cursor.column l.count .openBlockMap
    return { l.putMark .value 1 with keyAllowed := !l.inFlow }

/-- An anchor, or a reference to one. -/
def name? (token : String → Token) (l : Lexer) : Option Lexer := do
  let l ← l.noteKey?
  let (name, cursor) ← anchorName? (l.cursor.skip 1)
  return { l.put (token name) with cursor, keyAllowed := false }

def tag? (l : Lexer) : Option Lexer := do
  let l ← l.noteKey?
  let (token, cursor) ← Yaml.tag? l.inFlow l.cursor
  return { l.put token with cursor, keyAllowed := false }

def block? (style : Style) (l : Lexer) : Option Lexer := do
  let l ← l.dropKey?
  let (text, cursor) ← Yaml.block? (style = .folded) l.indent (l.cursor.skip 1)
  return { l.put (.scalar style (String.ofList text)) with cursor, keyAllowed := true }

def quoted? (quote : Char) (l : Lexer) : Option Lexer := do
  let l ← l.noteKey?
  let (text, cursor) ← Yaml.quoted? quote l.cursor
  return { l.put (.scalar .quoted (String.ofList text)) with cursor, keyAllowed := false }

/-- A plain scalar. After the end of its line a key may begin. -/
def plain? (l : Lexer) : Option Lexer := do
  let l ← l.noteKey?
  let s ← Yaml.plain? l.inFlow (l.indent + 1).toNat l.cursor
  return { l.put (.scalar .plain (String.ofList s.text)) with
    cursor := s.cursor, keyAllowed := s.broken }

/-- Takes the next token, which begins with a character. -/
def next? (first : Char) (rest : List Char) (l : Lexer) : Option Lexer := do
  let alone := endsWord rest
  if l.cursor.column = 0 && first = '%' then
    let l ← l.outside?
    let (token, cursor) ← directive? l.cursor
    return { l.put token with cursor }
  else if l.cursor.opensDocument then
    return (← l.outside?).putMark (if first = '-' then .documentStart else .documentEnd) 3
  else if first = '[' then l.openFlow? .openSeq
  else if first = '\x7b' then l.openFlow? .openMap
  else if first = ']' then l.closeFlow? .closeSeq
  else if first = '\x7d' then l.closeFlow? .closeMap
  else if first = ',' then l.comma?
  else if first = '-' && alone then l.item?
  else if first = '?' && (l.inFlow || alone) then l.key?
  else if first = ':' && (l.inFlow || alone) then l.value?
  else if first = '*' then l.name? .reference
  else if first = '&' then l.name? .anchor
  else if first = '!' then l.tag?
  else if first = '|' && !l.inFlow then l.block? .literal
  else if first = '>' && !l.inFlow then l.block? .folded
  else if first = '\'' || first = '"' then l.quoted? first
  else if isIndicator first || endsWord [first] then none
  else l.plain?

/-- Takes at most so many tokens, and at the end closes what is open. -/
def run? : Nat → Lexer → Option (List Token)
  | 0, _ => none
  | fuel + 1, l => do
    let l ← (l.toToken (l.cursor.left + 1)).dropStale?
    match l.cursor.rest with
    | [] => return (← l.outside?).tokens.reverse
    | c :: rest => run? fuel (← (l.closeBlocks l.cursor.column).next? c rest)

end Lexer

/-- The tokens of a text. -/
def Token.ofText? (s : String) : Option (List Token) :=
  let cursor := Cursor.ofString s
  if cursor.rest.all isReadable then Lexer.run? (cursor.size + 1) { cursor } else none

end Statechart.Yaml
