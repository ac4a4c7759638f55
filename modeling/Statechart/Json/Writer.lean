import Statechart.Json.Basic

/-!
# Writing JSON text

The compact form has no spaces. The pretty form indents by two spaces; empty arrays and objects
stay on one line. Both write the members of an object in the order in which it holds them.
-/
namespace Statechart.Json

def hexDigit (n : Nat) : Char := (Nat.toDigits 16 n).headD '0'

/-- The characters that stand for one character inside a string. -/
def escape (c : Char) : List Char :=
  if c = '"' then ['\\', '"']
  else if c = '\\' then ['\\', '\\']
  else if c = '\x08' then ['\\', 'b']
  else if c = '\t' then ['\\', 't']
  else if c = '\n' then ['\\', 'n']
  else if c = '\x0c' then ['\\', 'f']
  else if c = '\r' then ['\\', 'r']
  else if c.toNat < 32 then
    ['\\', 'u', '0', '0', hexDigit (c.toNat / 16), hexDigit (c.toNat % 16)]
  else [c]

def quote (s : String) : List Char := '"' :: (s.toList.flatMap escape ++ ['"'])

mutual

def compact : Json → List Char
  | null => ['n', 'u', 'l', 'l']
  | bool true => ['t', 'r', 'u', 'e']
  | bool false => ['f', 'a', 'l', 's', 'e']
  | num n => n.write
  | str s => quote s
  | arr items => '[' :: (compactItems items ++ [']'])
  | obj members => '\x7b' :: (compactMembers members ++ ['\x7d'])

def compactItems : List Json → List Char
  | [] => []
  | [item] => compact item
  | item :: items => compact item ++ ',' :: compactItems items

def compactMembers : List (String × Json) → List Char
  | [] => []
  | [(k, v)] => quote k ++ ':' :: compact v
  | (k, v) :: members => quote k ++ ':' :: (compact v ++ ',' :: compactMembers members)

end

/-- A new line at a depth of nesting. -/
def newline (depth : Nat) : List Char := '\n' :: List.replicate (2 * depth) ' '

mutual

/-- The pretty form of a value that stands at a depth of nesting. -/
def prettyAt (depth : Nat) : Json → List Char
  | arr (item :: items) =>
    '[' :: (newline (depth + 1) ++ prettyAt (depth + 1) item ++ prettyItems (depth + 1) items ++
      newline depth ++ [']'])
  | obj ((k, v) :: members) =>
    '\x7b' :: (newline (depth + 1) ++ quote k ++ ':' :: ' ' :: prettyAt (depth + 1) v ++
      prettyMembers (depth + 1) members ++ newline depth ++ ['\x7d'])
  | value => compact value

def prettyItems (depth : Nat) : List Json → List Char
  | [] => []
  | item :: items => ',' :: (newline depth ++ prettyAt depth item ++ prettyItems depth items)

def prettyMembers (depth : Nat) : List (String × Json) → List Char
  | [] => []
  | (k, v) :: members =>
    ',' :: (newline depth ++ quote k ++ ':' :: ' ' :: prettyAt depth v ++
      prettyMembers depth members)

end

def write (value : Json) : String := String.ofList value.compact

def pretty (value : Json) : String := String.ofList (value.prettyAt 0)

end Statechart.Json
