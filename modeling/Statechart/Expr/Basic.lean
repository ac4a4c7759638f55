import Statechart.Json.Writer

/-!
# Expressions

The tree of an expression, and its rendering with every compound operand in parentheses.
-/
namespace Statechart

inductive BinaryOp where
  | eq
  | ne
  | gt
  | ge
  | lt
  | le
  | add
  | sub
  | mul
  | div
  | rem
  deriving DecidableEq

def BinaryOp.symbol : BinaryOp → List Char
  | eq => ['=', '=']
  | ne => ['!', '=']
  | gt => ['>']
  | ge => ['>', '=']
  | lt => ['<']
  | le => ['<', '=']
  | add => ['+']
  | sub => ['-']
  | mul => ['*']
  | div => ['/']
  | rem => ['%']

inductive Expr where
  | literal (value : Json)
  /-- A path into the context. -/
  | context (path : String)
  | eventName
  /-- A path into the payload of the event; the empty path is the payload. -/
  | eventData (path : String)
  | not (operand : Expr)
  | neg (operand : Expr)
  | and (left right : Expr)
  | or (left right : Expr)
  | binary (op : BinaryOp) (left right : Expr)

namespace Expr

instance : Inhabited Expr := ⟨.eventName⟩

/-- Whether an expression stands in parentheses as an operand. -/
def isCompound : Expr → Bool
  | and .. | or .. | binary .. => true
  | _ => false

/-- Puts the rendering of a compound operand in parentheses. -/
def asOperand (e : Expr) (text : List Char) : List Char :=
  if e.isCompound then '(' :: (text ++ [')']) else text

def renderChars : Expr → List Char
  | literal value => value.compact
  | context path => ['c', 't', 'x', '.'] ++ path.toList
  | eventName => "event.name".toList
  | eventData path =>
    "event.data".toList ++ if path.isEmpty then [] else '.' :: path.toList
  | not e => '!' :: e.asOperand e.renderChars
  | neg e => '-' :: e.asOperand e.renderChars
  | and a b => a.asOperand a.renderChars ++ " && ".toList ++ b.asOperand b.renderChars
  | or a b => a.asOperand a.renderChars ++ " || ".toList ++ b.asOperand b.renderChars
  | binary op a b =>
    a.asOperand a.renderChars ++ ' ' :: (op.symbol ++ ' ' :: b.asOperand b.renderChars)

def render (e : Expr) : String := String.ofList e.renderChars

/-- Equality of trees, literals being compared as JSON values. -/
def same : Expr → Expr → Bool
  | literal a, literal b => a.same b
  | context p, context q => p == q
  | eventName, eventName => true
  | eventData p, eventData q => p == q
  | not a, not b => same a b
  | neg a, neg b => same a b
  | and a b, and c d => same a c && same b d
  | or a b, or c d => same a c && same b d
  | binary o a b, binary p c d => o == p && same a c && same b d
  | _, _ => false

end Expr

end Statechart
