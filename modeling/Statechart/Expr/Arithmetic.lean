import Statechart.Expr.Basic

/-!
# Operators on values

Whole numbers stay whole while the result is exact and fits 64 bits with a sign; every other
result is a double. Equality takes any two values, order and arithmetic take numbers, and a sum
also joins two strings.
-/
namespace Statechart

/-- Why an operator has no result. -/
inductive OperatorError where
  | notNumber (found : Json)
  | divisionByZero
  | nonFinite

namespace Json

/-- The value of an expression as a condition: null, zero and everything empty are false. -/
def isTruthy : Json → Bool
  | null => false
  | bool b => b
  | num n => n.toDouble.units != 0
  | str s => !s.isEmpty
  | arr items => !items.isEmpty
  | obj members => !members.isEmpty

/-- Two signed whole numbers are equal when they are the same; other numbers when their
difference is below the distance from one to the next double. -/
def looselyEqual : Json → Json → Bool
  | num a, num b =>
    match a.signed?, b.signed? with
    | some i, some j => i == j
    | _, _ => a.toDouble.near b.toDouble
  | a, b => a.same b

def number : Json → Except OperatorError Number
  | num n => .ok n
  | other => .error (.notNumber other)

def ofDouble? : Option Double → Except OperatorError Json
  | some d => .ok (num (.double d))
  | none => .error .nonFinite

/-- A whole number that fits 64 bits with a sign. -/
def ofSigned? (i : Int) : Option Json :=
  if h : -0x8000000000000000 ≤ i ∧ i < 0x8000000000000000 then
    some (num (.int i ⟨h.1, by omega⟩))
  else none

end Json

namespace Number

def negate (n : Number) : Json :=
  match n.signed?.bind fun i => Json.ofSigned? (-i) with
  | some result => result
  | none => .num (.double n.toDouble.neg)

end Number

namespace BinaryOp

/-- The exact result on two whole numbers, when it is whole and fits. The remainder of the
least number by minus one is left to the doubles, as its quotient does not fit. -/
def wholeResult? (op : BinaryOp) (i j : Int) : Option Json :=
  match op with
  | add => Json.ofSigned? (i + j)
  | sub => Json.ofSigned? (i - j)
  | mul => Json.ofSigned? (i * j)
  | div => if j ≠ 0 ∧ i.tmod j = 0 then Json.ofSigned? (i.tdiv j) else none
  | rem => if j = 0 ∨ (i = -0x8000000000000000 ∧ j = -1) then none else Json.ofSigned? (i.tmod j)
  | _ => none

def onDoubles (op : BinaryOp) (x y : Double) : Except OperatorError Json :=
  match op with
  | add => Json.ofDouble? (x.add? y)
  | sub => Json.ofDouble? (x.sub? y)
  | mul => Json.ofDouble? (x.mul? y)
  | div => if y.units = 0 then .error .divisionByZero else Json.ofDouble? (x.div? y)
  | _ => if y.units = 0 then .error .divisionByZero else Json.ofDouble? (x.rem? y)

def divides : BinaryOp → Bool
  | div | rem => true
  | _ => false

def arithmetic (op : BinaryOp) (a b : Json) : Except OperatorError Json := do
  let x ← a.number
  let y ← b.number
  match x.signed?, y.signed? with
  | some i, some j =>
    if j = 0 ∧ op.divides then
      throw .divisionByZero
    match op.wholeResult? i j with
    | some result => return result
    | none => op.onDoubles x.toDouble y.toDouble
  | _, _ => op.onDoubles x.toDouble y.toDouble

def ordered (holds : Double → Double → Bool) (a b : Json) : Except OperatorError Json := do
  let x ← a.number
  let y ← b.number
  return .bool (holds x.toDouble y.toDouble)

def apply (op : BinaryOp) (a b : Json) : Except OperatorError Json :=
  match op with
  | eq => .ok (.bool (a.looselyEqual b))
  | ne => .ok (.bool !(a.looselyEqual b))
  | gt => ordered (fun x y => y.lt x) a b
  | ge => ordered (fun x y => y.le x) a b
  | lt => ordered Double.lt a b
  | le => ordered Double.le a b
  | add =>
    match a, b with
    | .str x, .str y => .ok (.str (x ++ y))
    | _, _ => arithmetic add a b
  | op => arithmetic op a b

end BinaryOp

/-- The value with its sign changed. -/
def Json.negated (a : Json) : Except OperatorError Json := do
  return (← a.number).negate

end Statechart
