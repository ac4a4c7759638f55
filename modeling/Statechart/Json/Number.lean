import Statechart.Double.Decimal

/-!
# JSON numbers

A number is a whole number of 64 bits, signed or unsigned, or a double. Its kind is kept: `3`
and `3.0` are different numbers.
-/
namespace Statechart

namespace Number

/-- The whole numbers that 64 bits hold, signed or unsigned. -/
def InRange (i : Int) : Prop := -0x8000000000000000 ≤ i ∧ i < 0x10000000000000000

instance (i : Int) : Decidable (InRange i) := inferInstanceAs (Decidable (_ ∧ _))

theorem inRange_of_lt {n : Nat} (h : n < 0x8000000000000000) : InRange n := by
  constructor <;> omega

end Number

inductive Number where
  | int (value : Int) (inRange : Number.InRange value)
  | double (value : Double)
  deriving DecidableEq

namespace Number

instance : Inhabited Number := ⟨.int 0 (by decide)⟩

def ofInt? (i : Int) : Option Number := if h : InRange i then some (.int i h) else none

/-- The value as a signed number of 64 bits. -/
def signed? : Number → Option Int
  | .int i _ => if i < 0x8000000000000000 then some i else none
  | .double _ => none

/-- The value as an unsigned number of 64 bits. -/
def unsigned? : Number → Option Nat
  | .int i _ => if 0 ≤ i then some i.toNat else none
  | .double _ => none

/-- The nearest double. -/
def toDouble : Number → Double
  | .int i h => Double.ofInt i (by have := h.1; have := h.2; omega)
  | .double d => d

/-- Numbers are the same when kind and value agree. -/
def same : Number → Number → Bool
  | .int i _, .int j _ => i == j
  | .double a, .double b => a.eq b
  | _, _ => false

/-- Doubles are positional from 10⁻⁵ up to 10¹⁶ and show the sign of a positive exponent. -/
def layout : Decimal.Layout := ⟨-5, 15, true⟩

/-- The digits of a whole number after its sign. -/
def writeInt (i : Int) : List Char :=
  (if i < 0 then ['-'] else []) ++ Nat.toDigits 10 i.natAbs

def write : Number → List Char
  | .int i _ => writeInt i
  | .double d => d.write layout

end Number

end Statechart
