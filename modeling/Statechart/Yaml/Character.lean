import Statechart.Text.CharClass

/-!
# Characters of YAML

Which characters a text may have, which end lines and words, and which are marks.
-/
namespace Statechart.Yaml

/-- Whether a character ends a line. -/
def isBreak (c : Char) : Bool := [10, 13, 133, 8232, 8233].contains c.toNat

def isBlank (c : Char) : Bool := c = ' ' || c = '\t'

/-- Whether nothing of a word is left: the text ends, or a blank or a line break follows. -/
def endsWord : List Char → Bool
  | [] => true
  | c :: _ => isBlank c || isBreak c

/-- Whether a text may have a character. -/
def isReadable (c : Char) : Bool :=
  Text.inRanges [(9, 10), (13, 13), (32, 126), (133, 133), (160, 55295), (57344, 65533),
    (65536, 1114111)] c.toNat

/-- Whether a character is written as itself. -/
def isPrintable (c : Char) : Bool :=
  Text.inRanges [(10, 10), (32, 126), (160, 55295), (57344, 65278), (65280, 65533),
    (65536, 1114111)] c.toNat

/-- The mark of byte order, with which a line may begin. -/
def isByteOrderMark (c : Char) : Bool := c.toNat = 65279

/-- Characters of the names of anchors, handles and directives. -/
def isNameChar (c : Char) : Bool := c.isAlphanum || c = '-' || c = '_'

/-- Marks of flow style, which end a plain scalar there. -/
def isFlowMark (c : Char) : Bool := [',', '[', ']', '\x7b', '\x7d'].contains c

/-- Characters with which no plain scalar begins. -/
def isIndicator (c : Char) : Bool :=
  isFlowMark c || ['#', '&', '*', '!', '|', '>', '\'', '"', '%', '@', '\x60'].contains c

/-- The letters that stand for characters between double quotes. -/
def letters : List (Nat × Char) :=
  [(0, '0'), (7, 'a'), (8, 'b'), (9, 't'), (10, 'n'), (11, 'v'), (12, 'f'), (13, 'r'), (27, 'e'),
    (34, '"'), (92, '\\'), (133, 'N'), (160, '_'), (8232, 'L'), (8233, 'P')]

end Statechart.Yaml
