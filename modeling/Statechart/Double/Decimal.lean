import Statechart.Double.Basic

/-!
# Doubles and decimals

Reading takes the double nearest to a decimal. Writing takes the fewest digits that read back as
the same double, and among those the digits nearest to it.
-/
namespace Statechart

/-- The number `digits · 10 ^ exponent`. -/
structure Decimal where
  digits : Nat
  exponent : Int
  deriving DecidableEq

namespace Decimal

/-- Ratio of the decimal to one unit of a double: numerator and denominator. -/
def inUnits (d : Decimal) : Nat × Nat :=
  if 0 ≤ d.exponent then
    (d.digits * Nat.pow 10 d.exponent.toNat * Double.one, 1)
  else
    (d.digits * Double.one, Nat.pow 10 (-d.exponent).toNat)

/-- The nearest double, unless it would not be finite. A decimal below 10⁻⁴⁰⁰ reads as zero. -/
def toDouble? (negative : Bool) (d : Decimal) : Option Double :=
  let magnitude : Int := (Nat.toDigits 10 d.digits).length + d.exponent
  if d.digits = 0 ∨ magnitude < -400 then Double.ofRatio? negative 0 1
  else if 400 < magnitude then none
  else Double.ofRatio? negative d.inUnits.1 d.inUnits.2

end Decimal

namespace Double

/-- The power of ten of the leading digit: `10 ^ e ≤ units / one < 10 ^ (e + 1)`. -/
def leadingExponent (units : Nat) : Int :=
  let estimate : Int := ((units.log2 : Int) - 1074) * 30103 / 100000
  let next : Int := estimate + 1
  let reached := if 0 ≤ next then decide (Nat.pow 10 next.toNat * one ≤ units)
    else decide (one ≤ units * Nat.pow 10 (-next).toNat)
  if reached then next else estimate

/-- The reals that round to a magnitude lie between these two, counted in quarters of a unit;
the ends belong to them exactly when the significand is even. -/
def roundingInterval (units : Nat) : Nat × Nat × Bool :=
  let g := gap units
  let significand := units / g
  let below := if significand = 0x10000000000000 ∧ 1 < g then g else 2 * g
  (4 * units - below, 4 * units + 2 * g, significand % 2 = 0)

/-- Whether a decimal reads back as the magnitude. -/
def readsBack (units : Nat) (d : Decimal) : Bool :=
  let (low, high, closed) := roundingInterval units
  let (num, den) := d.inUnits
  let x := 4 * num
  if closed then decide (low * den ≤ x ∧ x ≤ high * den)
  else decide (low * den < x ∧ x < high * den)

/-- The distance of a decimal from a magnitude, scaled by the decimal's denominator. -/
def distance (units : Nat) (d : Decimal) : Nat :=
  let (num, den) := d.inUnits
  ((num : Int) - (units * den : Nat)).natAbs

/-- Of the two neighbours of a magnitude on a decimal grid, the one that reads back; of two
the nearer, and on a tie the even one. -/
def onDecimalGrid? (units : Nat) (exponent : Int) : Option Decimal :=
  let floor :=
    if 0 ≤ exponent then units / (Nat.pow 10 exponent.toNat * one)
    else units * Nat.pow 10 (-exponent).toNat / one
  let low : Decimal := ⟨floor, exponent⟩
  let high : Decimal := ⟨floor + 1, exponent⟩
  match readsBack units low, readsBack units high with
  | false, false => none
  | true, false => some low
  | false, true => some high
  | true, true =>
    let below := distance units low
    let above := distance units high
    if below < above ∨ (below = above ∧ floor % 2 = 0) then some low else some high

/-- The shortest decimal that reads back as a magnitude, tried from one digit upward. -/
def shortest (units : Nat) : Decimal :=
  let lead := leadingExponent units
  let found := (List.range 17).findSome? fun (k : Nat) => onDecimalGrid? units (lead - k)
  found.getD ⟨0, 0⟩

end Double

namespace Decimal

/-- Drops the zeros at the end of the digits. -/
def stripZeros (d : Decimal) : Decimal :=
  if h : d.digits ≠ 0 ∧ d.digits % 10 = 0 then
    stripZeros ⟨d.digits / 10, d.exponent + 1⟩
  else
    d
termination_by d.digits
decreasing_by omega

/-- Where positional writing ends, and whether a positive exponent shows its sign. -/
structure Layout where
  leastPositional : Int
  mostPositional : Int
  showsPlus : Bool

/-- The text of a decimal whose digits do not end in zero. Whole numbers in positional writing
end in a point and a zero. -/
def write (layout : Layout) (d : Decimal) : List Char :=
  let ds := Nat.toDigits 10 d.digits
  let lead : Int := d.exponent + ds.length - 1
  if layout.leastPositional ≤ lead ∧ lead ≤ layout.mostPositional then
    if 0 ≤ d.exponent then
      ds ++ List.replicate d.exponent.toNat '0' ++ ['.', '0']
    else if 0 ≤ lead then
      ds.take (lead.toNat + 1) ++ '.' :: ds.drop (lead.toNat + 1)
    else
      '0' :: '.' :: (List.replicate (-lead - 1).toNat '0' ++ ds)
  else
    let fraction := if ds.length ≤ 1 then [] else '.' :: ds.drop 1
    let sign := if lead < 0 then ['-'] else if layout.showsPlus then ['+'] else []
    ds.take 1 ++ fraction ++ 'e' :: (sign ++ Nat.toDigits 10 lead.natAbs)

end Decimal

namespace Double

/-- The shortest text that reads back as the double; zero keeps its sign. -/
def write (layout : Decimal.Layout) (d : Double) : List Char :=
  let sign := if d.negative then ['-'] else []
  sign ++ if d.units = 0 then ['0', '.', '0'] else (shortest d.units).stripZeros.write layout

end Double

end Statechart
