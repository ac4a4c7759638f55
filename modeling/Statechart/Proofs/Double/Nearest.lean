import Mathlib.Tactic
import Statechart.Double.Basic

/-!
# Rounding to the nearest double

Rounding does not pass over a number of the grid: what is below one is rounded to something that is
not above it, and the other way round. So numbers of the grid stay as they are, and rounding is
monotone. It follows how whole numbers compare once they are doubles, and how far apart two doubles
may be when their rounded difference is still below the distance from one to the next double.
-/
namespace Statechart.Double

variable {m n k p : Nat} {i : Int}

theorem gap_eq (n : Nat) : gap n = 2 ^ (n.log2 - 52) := rfl

theorem gap_dvd_gap (h : m ≤ n) : gap m ∣ gap n := by
  by_cases hm : m = 0
  · simp [hm, gap_eq]
  · have hlog : m.log2 ≤ n.log2 := by
      have hlow := Nat.log2_self_le hm
      exact (Nat.le_log2 (by omega)).mpr (hlow.trans h)
    exact Nat.pow_dvd_pow 2 (by omega)

/-- A number with at most 53 significant bits is on the grid. -/
theorem gap_dvd (h : m ≤ 2 ^ 53) : gap (m * 2 ^ k) ∣ m * 2 ^ k := by
  rcases h.eq_or_lt with rfl | hlt
  · rw [gap_eq, ← pow_add, Nat.log2_two_pow]
    exact Nat.pow_dvd_pow 2 (by omega)
  · refine Nat.dvd_trans (Nat.pow_dvd_pow 2 ?_) (Nat.dvd_mul_left (2 ^ k) m)
    by_cases hzero : m * 2 ^ k = 0
    · simp [hzero]
    · have hbound : m * 2 ^ k < 2 ^ (53 + k) := by
        rw [pow_add]
        exact Nat.mul_lt_mul_of_pos_right hlt (by positivity)
      have hlog := (Nat.log2_lt hzero).mpr hbound
      omega

/-- The grid between a number and the power of two below it contains that power. -/
theorem exists_between (hgap : gap m ≠ gap n) (h : m ≤ n) :
    ∃ p, m ≤ p ∧ p ≤ n ∧ gap m ∣ p ∧ gap n ∣ p := by
  have hlog : m.log2 < n.log2 := by
    have hdvd := gap_dvd_gap h
    rw [gap_eq, gap_eq] at hgap hdvd
    have hle := (Nat.pow_dvd_pow_iff_le_right (by decide)).mp hdvd
    by_contra hnot
    exact hgap (congrArg (2 ^ ·) (by omega))
  have hn : n ≠ 0 := by
    rintro rfl
    simp at hlog
  refine ⟨2 ^ n.log2, ?_, Nat.log2_self_le hn, Nat.pow_dvd_pow 2 (by omega),
    Nat.pow_dvd_pow 2 (by omega)⟩
  have hm : m < 2 ^ (m.log2 + 1) := Nat.lt_log2_self
  exact hm.le.trans (Nat.pow_le_pow_right (by decide) hlog)

/-- Rounding goes to one of the two neighbours on the grid, a half to the even one. -/
theorem nearest_eq (n : Nat) : nearest n 1 =
    (if gap n < 2 * (n % gap n) ∨ (2 * (n % gap n) = gap n ∧ n / gap n % 2 = 1)
      then n / gap n + 1 else n / gap n) * gap n := by
  simp [nearest]

theorem le_nearest_of_dvd (hp : p ≤ n) (h : gap n ∣ p) : p ≤ nearest n 1 := by
  obtain ⟨q, rfl⟩ := h
  rw [nearest_eq, Nat.mul_comm]
  refine Nat.mul_le_mul_right _ ?_
  have hq : q ≤ n / gap n := (Nat.le_div_iff_mul_le (gap_pos n)).mpr (by rwa [Nat.mul_comm])
  split_ifs <;> omega

theorem nearest_le_of_dvd (hp : n ≤ p) (h : gap n ∣ p) : nearest n 1 ≤ p := by
  obtain ⟨q, rfl⟩ := h
  have hsplit := Nat.div_add_mod n (gap n)
  rw [nearest_eq, Nat.mul_comm (gap n) q]
  refine Nat.mul_le_mul_right _ ?_
  have hq : n / gap n ≤ q := Nat.div_le_of_le_mul hp
  split_ifs with hup
  · -- what is rounded up is not on the grid itself
    by_contra hnot
    have hmod : n % gap n = 0 := by
      have heq : n / gap n = q := by omega
      rw [heq] at hsplit
      omega
    rw [hmod] at hup
    have hpos := gap_pos n
    omega
  · exact hq

theorem nearest_of_dvd (h : gap n ∣ n) : nearest n 1 = n :=
  le_antisymm (nearest_le_of_dvd le_rfl h) (le_nearest_of_dvd le_rfl h)

theorem nearest_mono (h : m ≤ n) : nearest m 1 ≤ nearest n 1 := by
  by_cases hgap : gap m = gap n
  · rw [nearest_eq, nearest_eq, hgap]
    refine Nat.mul_le_mul_right _ ?_
    generalize gap n = g
    have hdiv : m / g ≤ n / g := Nat.div_le_div_right h
    rcases hdiv.eq_or_lt with heq | hlt
    · -- in one interval of the grid the remainders decide
      have hmod : m % g ≤ n % g := by
        have hm := Nat.div_add_mod m g
        have hn := Nat.div_add_mod n g
        rw [heq] at hm
        omega
      rw [heq]
      split_ifs <;> omega
    · split_ifs <;> omega
  · obtain ⟨p, hmp, hpn, hm, hn⟩ := exists_between hgap h
    exact (nearest_le_of_dvd hmp hm).trans (le_nearest_of_dvd hpn hn)

/-- A ratio far enough below the limit has a nearest number. -/
theorem exists_ofRatio? {den : Nat} (negative : Bool) (h : n / den < 2 ^ 1300) :
    ∃ d, ofRatio? negative n den = some d := by
  have hlimit : 2 * 2 ^ 1300 + 1 < limit := by decide +kernel
  have hle := nearest_le n den
  unfold ofRatio?
  rw [dif_pos (by omega)]
  exact ⟨_, rfl⟩

/-- The signed count of units nearest to another one. -/
def rounded (x : Int) : Int := if x < 0 then -nearest x.natAbs 1 else nearest x.natAbs 1

theorem rounded_mono {x y : Int} (h : x ≤ y) : rounded x ≤ rounded y := by
  unfold rounded
  split_ifs with hx hy
  · have hnearest := nearest_mono (show y.natAbs ≤ x.natAbs by omega)
    omega
  · omega
  · omega
  · have hnearest := nearest_mono (show x.natAbs ≤ y.natAbs by omega)
    omega

theorem rounded_of_dvd {x : Int} (h : gap x.natAbs ∣ x.natAbs) : rounded x = x := by
  rw [rounded, nearest_of_dvd h]
  split_ifs <;> omega

theorem natAbs_value (d : Double) : d.value.natAbs = d.units := by
  unfold value
  split_ifs <;> simp

theorem rounded_value (d : Double) : rounded d.value = d.value := by
  refine rounded_of_dvd ?_
  rw [natAbs_value]
  exact d.onGrid.2

theorem natAbs_mul_one (i : Int) : (i * one).natAbs = i.natAbs * one := by
  rw [Int.natAbs_mul, Int.natAbs_natCast]

/-- Whole numbers of 53 bits are doubles. -/
theorem rounded_mul_one (h : i.natAbs ≤ 2 ^ 53) : rounded (i * one) = i * one := by
  refine rounded_of_dvd ?_
  rw [natAbs_mul_one]
  unfold one
  generalize 1074 = k
  exact gap_dvd h

/-- The magnitude of the least number of 64 bits is a power of two. -/
theorem nearest_least : nearest (2 ^ 63 * one) 1 = 2 ^ 63 * one := by
  refine nearest_of_dvd ?_
  unfold one
  generalize 1074 = k
  have hdvd := gap_dvd (m := 1) (k := 63 + k) (by norm_num)
  rwa [one_mul, pow_add] at hdvd

section ofInt
variable {hi : i.natAbs < 0x20000000000000000}

variable (hi) in
theorem value_ofInt : (ofInt i hi).value = rounded (i * one) := by
  have hneg : i * one < 0 ↔ i < 0 := by
    have hone : (0 : Int) < one := Int.natCast_pos.mpr one_pos
    constructor <;> intro h <;> nlinarith
  rw [rounded, natAbs_mul_one, value, ofInt]
  simp only [decide_eq_true_eq, hneg]

variable (hi) in
theorem units_ofInt : (ofInt i hi).units = nearest (i.natAbs * one) 1 := rfl

theorem one_le_units_ofInt (h : i ≠ 0) : one ≤ (ofInt i hi).units := by
  have hone : gap (1 * one) ∣ 1 * one := by
    unfold one
    generalize 1074 = k
    exact gap_dvd (by norm_num)
  have hle : 1 * one ≤ i.natAbs * one := Nat.mul_le_mul_right _ (by omega)
  have hmono := nearest_mono hle
  rw [nearest_of_dvd hone] at hmono
  rw [units_ofInt]
  omega

theorem units_ofInt_le (h : i.natAbs ≤ 2 ^ 63) : (ofInt i hi).units ≤ 2 ^ 63 * one := by
  have hle : i.natAbs * one ≤ 2 ^ 63 * one := Nat.mul_le_mul_right _ h
  have hmono := nearest_mono hle
  rwa [nearest_least, ← units_ofInt hi] at hmono

end ofInt

/-- Differences below this are rounded to less than the distance from one to the next double: half
a step of the grid below it is taken off. -/
def tolerance : Nat := 2 ^ 1022 - 2 ^ 968

theorem tolerance_pos : 0 < tolerance := by decide +kernel

theorem nearest_lt_epsilon_iff : nearest n 1 < epsilon ↔ n < tolerance := by
  have htie : nearest tolerance 1 = epsilon := by decide +kernel
  have hbelow : nearest (tolerance - 1) 1 < epsilon := by decide +kernel
  constructor
  · intro h
    by_contra hnot
    have hmono := nearest_mono (not_lt.mp hnot)
    omega
  · intro h
    exact (nearest_mono (Nat.le_sub_one_of_lt h)).trans_lt hbelow

variable {a b : Double}

theorem value_neg : a.neg.value = -a.value := by
  cases hneg : a.negative <;> simp [value, neg, hneg]

/-- Two doubles are near when their exact difference is below the tolerance. -/
theorem near_iff : a.near b = true ↔ (a.value - b.value).natAbs < tolerance := by
  have hlimit : epsilon < limit := by decide +kernel
  rw [← nearest_lt_epsilon_iff]
  unfold near sub? add? ofRatio?
  rw [value_neg, ← sub_eq_add_neg]
  by_cases hlt : nearest (a.value - b.value).natAbs 1 < limit
  · simp only [dif_pos hlt, decide_eq_true_eq]
  · simp only [dif_neg hlt]
    exact iff_of_false (by simp) (by omega)

end Statechart.Double
