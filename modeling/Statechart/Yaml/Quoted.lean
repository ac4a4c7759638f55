import Statechart.Yaml.Character
import Statechart.Yaml.Scalar

/-!
# Writing scalars

A text is written plain where it is read back as itself, else between single quotes, as a literal
block when it has several lines, and between double quotes where nothing else can hold it.
-/
namespace Statechart.Yaml

/-- Whether a text has characters that only double quotes can hold. -/
def isSpecial (cs : List Char) : Bool := cs.any fun c => !isPrintable c

/-- Whether two neighbours in a text satisfy a relation. -/
def anyPair (r : Char → Char → Bool) (cs : List Char) : Bool :=
  (cs.zip cs.tail).any fun (a, b) => r a b

/-- Whether the beginning of a text would be taken for a mark. -/
def opensMark (cs : List Char) : Bool :=
  match cs with
  | [] => true
  | c :: rest =>
    isIndicator c || ((c = '-' || c = '?' || c = ':') && endsWord rest) ||
      ["---", "..."].contains (String.ofList (cs.take 3))

/-- Whether a text can stand without quotes. -/
def standsPlain (cs : List Char) : Bool :=
  !opensMark cs && cs.head? ≠ some ' ' && cs.getLast? ≠ some ' ' && cs.getLast? ≠ some ':' &&
    !anyPair (fun a b => a = ':' && b = ' ') cs && !anyPair (fun a b => a = ' ' && b = '#') cs &&
    !isSpecial cs && !cs.any isBreak

/-- Whether a space stands before the end of a line. -/
def spaceBeforeBreak (cs : List Char) : Bool := anyPair (fun a b => a = ' ' && isBreak b) cs

/-- Whether a line begins with a space. -/
def spaceAfterBreak (cs : List Char) : Bool := anyPair (fun a b => isBreak a && b = ' ') cs

/-- Whether single quotes can hold a text. -/
def fitsSingle (cs : List Char) : Bool :=
  !isSpecial cs && !spaceBeforeBreak cs && !spaceAfterBreak cs

/-- Whether a text is written as a literal block. -/
def isLiteral (cs : List Char) : Bool :=
  cs.contains '\n' && !isSpecial cs && !spaceBeforeBreak cs && cs.getLast? ≠ some ' '

/-- Hexadecimal digits in upper case, padded to a length. -/
def hexDigits (length n : Nat) : List Char :=
  let digits := (Nat.toDigits 16 n).map Char.toUpper
  List.replicate (length - digits.length) '0' ++ digits

/-- A character between double quotes. -/
def escape (c : Char) : List Char :=
  if isPrintable c && !isBreak c && c ≠ '"' && c ≠ '\\' then [c]
  else
    match letters.lookup c.toNat with
    | some letter => ['\\', letter]
    | none =>
      if c.toNat < 256 then '\\' :: 'x' :: hexDigits 2 c.toNat
      else if c.toNat < 65536 then '\\' :: 'u' :: hexDigits 4 c.toNat
      else '\\' :: 'U' :: hexDigits 8 c.toNat

def doubleQuote (cs : List Char) : List Char := '"' :: (cs.flatMap escape ++ ['"'])

/-- The characters of a text with an indentation before each line that is not empty, the first line
included where a line begins with the text. -/
def indented (indent : Nat) (begins : Bool) : List Char → List Char
  | [] => []
  | c :: cs =>
    if isBreak c then c :: indented indent true cs
    else (if begins then List.replicate indent ' ' else []) ++ c :: indented indent false cs

/-- Single quotes, between which a quote is written twice. Further lines are indented, the one with
the closing quote too. -/
def singleQuote (indent : Nat) (cs : List Char) : List Char :=
  let body := cs.flatMap fun c => if c = '\'' then ['\'', '\''] else [c]
  '\'' :: indented indent false (body ++ ['\''])

/-- The mark that opens a literal block: an indentation where the first line begins with a space
or is empty, and what becomes of the line breaks at the end. -/
def literalMark (cs : List Char) : List Char :=
  let indentation := if cs.head?.any fun c => c = ' ' || isBreak c then ['2'] else []
  let ending := match cs.reverse with
    | [] => ['-']
    | last :: before =>
      if !isBreak last then ['-']
      else if before.isEmpty || before.head?.any isBreak then ['+']
      else []
  '|' :: (indentation ++ ending)

/-- A literal block with its mark, up to the end of its last line. -/
def literalBlock (indent : Nat) (cs : List Char) : List Char :=
  let lineEnd := if cs.getLast?.any isBreak then [] else ['\n']
  literalMark cs ++ '\n' :: (indented indent true cs ++ lineEnd)

/-- A text as the value of an entry, its further lines indented, up to the end of its last line. -/
def textValue (indent : Nat) (s : String) : List Char :=
  let cs := s.toList
  if isLiteral cs then literalBlock indent cs
  else if !cs.contains '\n' && standsPlain cs && readsAsText s then cs ++ ['\n']
  else if !cs.contains '\n' && fitsSingle cs then singleQuote indent cs ++ ['\n']
  else doubleQuote cs ++ ['\n']

/-- A text as the key of an entry, on one line. -/
def textKey (s : String) : List Char :=
  let cs := s.toList
  if isSpecial cs || cs.any isBreak then doubleQuote cs
  else if standsPlain cs && readsAsText s then cs
  else singleQuote 0 cs

end Statechart.Yaml
