/-!
# Finite doubles

A finite binary64 number is a sign and a whole number of units of 2⁻¹⁰⁷⁴, written with at
most 53 significant bits. Every operation takes the exact result and rounds it once, to the
nearest number of that form, a half going to the even neighbour; a result beyond the largest
finite number is `none`.
-/
namespace Statechart

namespace Double

/-- The number one, counted in units. -/
def one : Nat := Nat.pow 2 1074

/-- The least count of units that is too large to be finite. -/
def limit : Nat := Nat.pow 2 2098

theorem one_pos : 0 < one := by
  unfold one
  generalize 1074 = n
  exact Nat.two_pow_pos n

theorem limit_pos : 0 < limit := by
  unfold limit
  generalize 2098 = n
  exact Nat.two_pow_pos n

/-- The distance between neighbouring numbers at a magnitude. -/
def gap (units : Nat) : Nat := Nat.pow 2 (units.log2 - 52)

/-- The counts of units that finite numbers have. -/
def OnGrid (units : Nat) : Prop := units < limit ∧ gap units ∣ units

instance (units : Nat) : Decidable (OnGrid units) :=
  inferInstanceAs (Decidable (_ ∧ _))

end Double

/-- A finite binary64 number: a sign and a magnitude in units of 2⁻¹⁰⁷⁴. -/
structure Double where
  negative : Bool
  units : Nat
  onGrid : Double.OnGrid units
  deriving DecidableEq

namespace Double

theorem gap_pos (units : Nat) : 0 < gap units := Nat.pow_pos (by decide)

theorem gap_dvd_mul {m k : Nat} (hm : m ≤ Nat.pow 2 53) (hk : k = 0 ∨ Nat.pow 2 52 ≤ m) :
    gap (m * Nat.pow 2 k) ∣ m * Nat.pow 2 k := by
  simp only [Nat.pow_eq] at hm hk ⊢
  rcases Nat.eq_or_lt_of_le hm with rfl | hlt
  · rw [gap, ← Nat.pow_add, Nat.log2_two_pow]
    exact Nat.pow_dvd_pow 2 (by omega)
  · refine Nat.dvd_trans (Nat.pow_dvd_pow 2 ?_) (Nat.dvd_mul_left _ _)
    by_cases hz : m * 2 ^ k = 0
    · simp [hz]
    · have h : m * 2 ^ k < 2 ^ (53 + k) := by
        rw [Nat.pow_add]
        exact Nat.mul_lt_mul_of_pos_right hlt (Nat.pow_pos (by decide))
      have := (Nat.log2_lt hz).2 h
      omega

/-- The count of units nearest to `num / den` among those with 53 significant bits. -/
def nearest (num den : Nat) : Nat :=
  let step := gap (num / den)
  let below := num / (den * step)
  let twice := 2 * (num % (den * step))
  let up := den * step < twice ∨ (twice = den * step ∧ below % 2 = 1)
  (if up then below + 1 else below) * step

theorem nearest_quotient_bounds (num den : Nat) :
    num / (den * gap (num / den)) < Nat.pow 2 53 ∧
      ((num / den).log2 - 52 = 0 ∨ Nat.pow 2 52 ≤ num / (den * gap (num / den))) := by
  rw [← Nat.div_div_eq_div_mul]
  generalize num / den = q
  by_cases hq : q = 0
  · subst hq; simp
  · have hlo := Nat.log2_self_le hq
    have hhi : q < 2 ^ (q.log2 + 1) := Nat.lt_log2_self
    refine ⟨?_, ?_⟩
    · rw [Nat.div_lt_iff_lt_mul (gap_pos q), gap, Nat.pow_eq, Nat.pow_eq, ← Nat.pow_add]
      exact Nat.lt_of_lt_of_le hhi (Nat.pow_le_pow_right (by decide) (by omega))
    · by_cases hk : q.log2 - 52 = 0
      · exact .inl hk
      · right
        rw [Nat.le_div_iff_mul_le (gap_pos q), gap, Nat.pow_eq, Nat.pow_eq, ← Nat.pow_add]
        exact Nat.le_trans (Nat.pow_le_pow_right (by decide) (by omega)) hlo

theorem gap_nearest_dvd (num den : Nat) : gap (nearest num den) ∣ nearest num den := by
  obtain ⟨hlt, hk⟩ := nearest_quotient_bounds num den
  unfold nearest
  simp only
  split
  · exact gap_dvd_mul (by omega) (by omega)
  · exact gap_dvd_mul (by omega) hk

theorem nearest_le (num den : Nat) : nearest num den ≤ 2 * (num / den) + 1 := by
  have hb : num / (den * gap (num / den)) * gap (num / den) ≤ num / den := by
    rw [← Nat.div_div_eq_div_mul]
    exact Nat.div_mul_le_self _ _
  have hg : gap (num / den) ≤ num / den + 1 := by
    generalize num / den = q
    by_cases hq : q = 0
    · subst hq; simp [gap]
    · exact Nat.le_succ_of_le (Nat.le_trans (Nat.pow_le_pow_right (by decide) (by omega))
        (Nat.log2_self_le hq))
  unfold nearest
  simp only
  split
  · rw [Nat.add_mul]; omega
  · omega

/-- The number nearest to `num / den` units, unless that is too large. -/
def ofRatio? (negative : Bool) (num den : Nat) : Option Double :=
  if h : nearest num den < limit then
    some ⟨negative, nearest num den, h, gap_nearest_dvd num den⟩
  else
    none

/-- The number nearest to a whole number of 64 bits. -/
def ofInt (i : Int) (h : i.natAbs < 0x20000000000000000) : Double :=
  ⟨decide (i < 0), nearest (i.natAbs * one) 1, by
    refine Nat.lt_of_le_of_lt (nearest_le _ _) ?_
    have : i.natAbs * one < 0x20000000000000000 * one :=
      Nat.mul_lt_mul_of_pos_right h one_pos
    rw [Nat.div_one]
    have hl : 2 * (0x20000000000000000 * one) + 1 < limit := by decide +kernel
    omega, gap_nearest_dvd _ _⟩

def zero : Double := ⟨false, 0, limit_pos, Nat.dvd_zero _⟩

instance : Inhabited Double := ⟨zero⟩

/-- The value as a signed count of units; both zeros have the value 0. -/
def value (d : Double) : Int := if d.negative then -(d.units : Int) else d.units

def neg (d : Double) : Double := { d with negative := !d.negative }

/-- A sum of zero is negative only when both operands are. -/
def add? (a b : Double) : Option Double :=
  let sum := a.value + b.value
  ofRatio? (if sum = 0 then a.negative && b.negative else decide (sum < 0)) sum.natAbs 1

def sub? (a b : Double) : Option Double := a.add? b.neg

def mul? (a b : Double) : Option Double :=
  ofRatio? (a.negative != b.negative) (a.units * b.units) one

/-- The quotient by a number other than zero; a zero divisor has no finite quotient. -/
def div? (a b : Double) : Option Double :=
  if b.units = 0 then none else ofRatio? (a.negative != b.negative) (a.units * one) b.units

/-- The exact remainder of the division toward zero, with the sign of the dividend. -/
def rem? (a b : Double) : Option Double :=
  if b.units = 0 then none else ofRatio? a.negative (a.units % b.units) 1

/-- Equality of values: the two zeros are equal. -/
def eq (a b : Double) : Bool := a.value == b.value

def lt (a b : Double) : Bool := decide (a.value < b.value)

def le (a b : Double) : Bool := decide (a.value ≤ b.value)

/-- The distance between one and the next larger number. -/
def epsilon : Nat := Nat.pow 2 1022

/-- Whether the rounded difference of two numbers is below the distance `epsilon`. -/
def near (a b : Double) : Bool :=
  match a.sub? b with
  | some d => decide (d.units < epsilon)
  | none => false

end Double

end Statechart
