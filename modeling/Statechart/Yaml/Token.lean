/-!
# Tokens of YAML

What a text is cut into. The beginnings and ends of blocks, and the marks of keys, are tokens
although no characters stand for them.
-/
namespace Statechart.Yaml

/-- How a scalar is written. -/
inductive Style where
  | plain
  | quoted
  | literal
  | folded
  deriving DecidableEq

/-- The octets of a text of ASCII characters. -/
def octetsOf (s : String) : List UInt8 := s.toList.map (·.toNat.toUInt8)

/-- The mark with which tags begin. It is a tag itself. -/
def tagMark : List UInt8 := octetsOf "!"

inductive Token where
  | version (major minor : Nat)
  /-- Declares the beginning of tags that a handle stands for. -/
  | handle (name : String) (opening : List UInt8)
  | documentStart
  | documentEnd
  | openBlockSeq
  | openBlockMap
  | closeBlock
  | openSeq
  | closeSeq
  | openMap
  | closeMap
  /-- The dash of an item. -/
  | item
  | comma
  | key
  | value
  /-- A reference to an anchor. -/
  | reference (name : String)
  | anchor (name : String)
  | tag (handle : String) (ending : List UInt8)
  | scalar (style : Style) (text : String)
  deriving DecidableEq

end Statechart.Yaml
