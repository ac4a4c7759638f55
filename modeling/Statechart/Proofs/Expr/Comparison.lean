import Statechart.Proofs.Expr.Exact

/-!
# Comparisons of numbers

Order compares the doubles nearest to two numbers. Equality compares whole numbers that fit 64 bits
with a sign as they are, and any other two numbers as doubles and up to a tolerance. Rounding is
monotone, so order never contradicts the exact values; and order and equality fit together on
numbers that equality tells apart exactly when they are different doubles.
-/
namespace Statechart

namespace Number

variable {a b c : Number}

/-- The exact value, in the units of doubles. -/
def exact : Number → Int
  | .int i _ => i * Double.one
  | .double d => d.value

theorem value_toDouble (n : Number) : n.toDouble.value = Double.rounded n.exact := by
  cases n with
  | int i h =>
      unfold toDouble
      rw [Double.value_ofInt]
      rfl
  | double d => exact (Double.rounded_value d).symm

theorem value_toDouble_mono (h : a.exact ≤ b.exact) : a.toDouble.value ≤ b.toDouble.value := by
  rw [value_toDouble, value_toDouble]
  exact Double.rounded_mono h

/-- Whole numbers that fit 64 bits with a sign. -/
def IsSigned (n : Number) : Prop := n.signed?.isSome = true

/-- Numbers that become a double without being rounded, as all doubles do. -/
def IsDouble (n : Number) : Prop := n.toDouble.value = n.exact

section int
variable {i j : Int} {hi : InRange i} {hj : InRange j}

theorem isDouble_int (h : i.natAbs ≤ 2 ^ 53) : (int i hi).IsDouble := by
  rw [IsDouble, value_toDouble]
  exact Double.rounded_mul_one h

theorem isSigned_int (h : i.natAbs ≤ 2 ^ 53) : (int i hi).IsSigned := by
  have hsigned : (int i hi).signed? = some i := if_pos (by omega)
  simp [IsSigned, hsigned]

theorem exact_lt_exact_iff : (int i hi).exact < (int j hj).exact ↔ i < j := by
  have hone : (0 : Int) < Double.one := Int.natCast_pos.mpr Double.one_pos
  exact Int.mul_lt_mul_right hone

theorem eq_of_exact_eq (h : (int i hi).exact = (int j hj).exact) : i = j := by
  have hone : (Double.one : Int) ≠ 0 := Int.natCast_ne_zero.mpr Double.one_pos.ne'
  exact Int.eq_of_mul_eq_mul_right hone h

end int

theorem signed?_eq_iff (ha : a.IsSigned) : a.signed? = b.signed? ↔ a = b := by
  refine ⟨fun h => ?_, fun h => h ▸ rfl⟩
  obtain ⟨i, hi⟩ := Option.isSome_iff_exists.mp ha
  have int_of_signed? {n : Number} (h : n.signed? = some i) : ∃ hn, n = .int i hn := by
    cases n with
    | int k hk =>
        obtain rfl : k = i := Option.some.inj (Option.ite_none_right_eq_some.mp h).2
        exact ⟨hk, rfl⟩
    | double d => cases h
  obtain ⟨ha, rfl⟩ := int_of_signed? hi
  obtain ⟨hb, rfl⟩ := int_of_signed? (h ▸ hi)
  rfl

/-- How far apart two numbers are as doubles, in units. -/
def distance (a b : Number) : Nat := (a.toDouble.value - b.toDouble.value).natAbs

theorem distance_comm (a b : Number) : a.distance b = b.distance a := by
  unfold distance
  omega

theorem distance_eq_zero_iff : a.distance b = 0 ↔ a.toDouble.value = b.toDouble.value := by
  unfold distance
  omega

/-- Two numbers that order and equality tell apart in the same way: signed whole numbers are
different doubles unless they are the same number, and others are at least the tolerance apart
unless they are the same double. -/
structure Discerned (a b : Number) : Prop where
  signed : a.IsSigned → b.IsSigned → a.distance b = 0 → a = b
  other : ¬(a.IsSigned ∧ b.IsSigned) → a.distance b < Double.tolerance → a.distance b = 0

end Number

namespace BinaryOp

/-- The operators that take two numbers to a truth value. -/
def IsComparison (op : BinaryOp) : Prop := op ∈ [eq, ne, gt, ge, lt, le]

/-- Comparing two numbers gives true. -/
def Holds (op : BinaryOp) (a b : Number) : Prop := op.apply (.num a) (.num b) = .ok (.bool true)

variable {a b c : Number}

theorem holds_lt_iff : Holds .lt a b ↔ a.toDouble.value < b.toDouble.value := by
  simp [Holds, apply, ordered, Json.number, Double.lt, bind, Except.bind, pure, Except.pure]

theorem holds_le_iff : Holds .le a b ↔ a.toDouble.value ≤ b.toDouble.value := by
  simp [Holds, apply, ordered, Json.number, Double.le, bind, Except.bind, pure, Except.pure]

theorem holds_gt_iff : Holds .gt a b ↔ b.toDouble.value < a.toDouble.value := holds_lt_iff

theorem holds_ge_iff : Holds .ge a b ↔ b.toDouble.value ≤ a.toDouble.value := holds_le_iff

theorem looselyEqual_num (a b : Number) : (Json.num a).looselyEqual (.num b) =
    (match a.signed?, b.signed? with
      | some i, some j => i == j
      | _, _ => a.toDouble.near b.toDouble) := rfl

theorem holds_eq_iff : Holds .eq a b ↔ (Json.num a).looselyEqual (.num b) = true := by
  simp [Holds, apply]

theorem holds_ne_iff : Holds .ne a b ↔ ¬Holds .eq a b := by
  simp [Holds, apply]

theorem holds_eq_iff_of_signed (ha : a.IsSigned) (hb : b.IsSigned) : Holds .eq a b ↔ a = b := by
  rw [holds_eq_iff, looselyEqual_num, ← Number.signed?_eq_iff ha]
  obtain ⟨i, hi⟩ := Option.isSome_iff_exists.mp ha
  obtain ⟨j, hj⟩ := Option.isSome_iff_exists.mp hb
  simp [hi, hj]

theorem holds_eq_iff_of_other (h : ¬(a.IsSigned ∧ b.IsSigned)) :
    Holds .eq a b ↔ a.distance b < Double.tolerance := by
  rw [holds_eq_iff, looselyEqual_num, Number.distance, ← Double.near_iff]
  split
  · next hi hj => exact absurd ⟨by simp [Number.IsSigned, hi], by simp [Number.IsSigned, hj]⟩ h
  · rfl

theorem holds_eq_refl (a : Number) : Holds .eq a a := by
  by_cases h : a.IsSigned
  · exact (holds_eq_iff_of_signed h h).mpr rfl
  · refine (holds_eq_iff_of_other fun hboth => h hboth.1).mpr ?_
    rw [Number.distance_eq_zero_iff.mpr rfl]
    exact Double.tolerance_pos

theorem holds_eq_symm (h : Holds .eq a b) : Holds .eq b a := by
  by_cases hboth : a.IsSigned ∧ b.IsSigned
  · exact (holds_eq_iff_of_signed hboth.1 hboth.2).mp h ▸ holds_eq_refl a
  · rw [holds_eq_iff_of_other hboth, Number.distance_comm] at h
    exact (holds_eq_iff_of_other fun hflip => hboth hflip.symm).mpr h

/-- Numbers that are discerned are equal when they are the same double. -/
theorem holds_eq_iff_of_discerned (h : a.Discerned b) :
    Holds .eq a b ↔ a.toDouble.value = b.toDouble.value := by
  rw [← Number.distance_eq_zero_iff]
  by_cases hboth : a.IsSigned ∧ b.IsSigned
  · rw [holds_eq_iff_of_signed hboth.1 hboth.2]
    refine ⟨?_, h.signed hboth.1 hboth.2⟩
    rintro rfl
    exact Number.distance_eq_zero_iff.mpr rfl
  · rw [holds_eq_iff_of_other hboth]
    refine ⟨h.other hboth, fun hzero => ?_⟩
    rw [hzero]
    exact Double.tolerance_pos

/-- One of the three holds on numbers that are discerned, and no second one. -/
theorem existsUnique_holds (h : a.Discerned b) : ∃! op, op ∈ [lt, eq, gt] ∧ op.Holds a b := by
  have hlt := @holds_lt_iff a b
  have heq := holds_eq_iff_of_discerned h
  have hgt := @holds_gt_iff a b
  have hone (op : BinaryOp) (hop : op ∈ [lt, eq, gt]) (hholds : op.Holds a b)
      (hunique : ∀ other ∈ [lt, eq, gt], other ≠ op → ¬other.Holds a b) :
      ∃! op, op ∈ [lt, eq, gt] ∧ op.Holds a b :=
    ⟨op, ⟨hop, hholds⟩, fun other hother =>
      by_contra fun hne => hunique other hother.1 hne hother.2⟩
  rcases lt_trichotomy a.toDouble.value b.toDouble.value with hvalue | hvalue | hvalue
  · refine hone .lt (by simp) (hlt.mpr hvalue) ?_
    simp [heq, hgt, hvalue.ne, hvalue.le]
  · refine hone .eq (by simp) (heq.mpr hvalue) ?_
    simp [hlt, hgt, hvalue]
  · refine hone .gt (by simp) (hgt.mpr hvalue) ?_
    simp [hlt, heq, hvalue.ne', hvalue.le]

/-- Different doubles within the tolerance are equal and ordered at once. -/
theorem holds_of_not_discerned (hother : ¬(a.IsSigned ∧ b.IsSigned)) (h : ¬a.Discerned b) :
    Holds .eq a b ∧ (Holds .lt a b ∨ Holds .gt a b) := by
  have hband : a.distance b < Double.tolerance ∧ a.distance b ≠ 0 := by
    by_contra hnot
    exact h ⟨fun ha hb => absurd ⟨ha, hb⟩ hother, fun _ hlt => by
      by_contra hne
      exact hnot ⟨hlt, hne⟩⟩
  refine ⟨(holds_eq_iff_of_other hother).mpr hband.1, ?_⟩
  rw [holds_lt_iff, holds_gt_iff]
  exact lt_or_gt_of_ne (mt Number.distance_eq_zero_iff.mpr hband.2)

section int
variable {i j : Int} {hi : Number.InRange i} {hj : Number.InRange j}

theorem discerned_int (hismall : i.natAbs ≤ 2 ^ 53) (hjsmall : j.natAbs ≤ 2 ^ 53) :
    (Number.int i hi).Discerned (.int j hj) := by
  refine ⟨fun _ _ hzero => ?_, fun hother => absurd ⟨?_, ?_⟩ hother⟩
  · have hexact : (Number.int i hi).exact = (Number.int j hj).exact := by
      rw [← Number.isDouble_int hismall, ← Number.isDouble_int hjsmall]
      exact Number.distance_eq_zero_iff.mp hzero
    obtain rfl := Number.eq_of_exact_eq hexact
    rfl
  · exact Number.isSigned_int hismall
  · exact Number.isSigned_int hjsmall

/-- Whole numbers of 53 bits are compared as they are. -/
theorem holds_lt_int_iff (hismall : i.natAbs ≤ 2 ^ 53) (hjsmall : j.natAbs ≤ 2 ^ 53) :
    Holds .lt (.int i hi) (.int j hj) ↔ i < j := by
  rw [holds_lt_iff, Number.isDouble_int hismall, Number.isDouble_int hjsmall,
    Number.exact_lt_exact_iff]

theorem holds_eq_int_iff (hismall : i.natAbs ≤ 2 ^ 53) (hjsmall : j.natAbs ≤ 2 ^ 53) :
    Holds .eq (.int i hi) (.int j hj) ↔ i = j := by
  rw [holds_eq_iff_of_signed (Number.isSigned_int hismall) (Number.isSigned_int hjsmall),
    Number.int.injEq]

end int

/-- How three numbers compare. Order is the one of the doubles and does not contradict the exact
values; equality is exact on signed whole numbers and up to the tolerance otherwise; the two fit
together on numbers that are discerned. -/
structure Coherent (a b c : Number) : Prop where
  evaluates : ∀ op : BinaryOp, op.IsComparison → ∀ {ctx event x y},
    Expr.evaluate ctx event x = .ok (.num a) → Expr.evaluate ctx event y = .ok (.num b) →
    ∃ v : Bool, (Expr.binary op x y).evaluate ctx event = .ok (.bool v) ∧
      (v = true ↔ op.Holds a b)
  lt_asymm : ¬(Holds .lt a b ∧ Holds .gt a b)
  lt_trans : Holds .lt a b → Holds .lt b c → Holds .lt a c
  gt_iff_lt : Holds .gt a b ↔ Holds .lt b a
  le_iff_not_gt : Holds .le a b ↔ ¬Holds .gt a b
  ge_iff_not_lt : Holds .ge a b ↔ ¬Holds .lt a b
  exact_of_lt : Holds .lt a b → a.exact < b.exact
  lt_iff_exact : a.IsDouble → b.IsDouble → (Holds .lt a b ↔ a.exact < b.exact)
  ne_iff_not_eq : Holds .ne a b ↔ ¬Holds .eq a b
  eq_refl : Holds .eq a a
  eq_symm : Holds .eq a b → Holds .eq b a
  eq_signed : a.IsSigned → b.IsSigned → (Holds .eq a b ↔ a = b)
  eq_other : ¬(a.IsSigned ∧ b.IsSigned) → (Holds .eq a b ↔ a.distance b < Double.tolerance)
  one_holds : a.Discerned b → ∃! op, op ∈ [lt, eq, gt] ∧ op.Holds a b
  overlap : ¬(a.IsSigned ∧ b.IsSigned) → ¬a.Discerned b →
    Holds .eq a b ∧ (Holds .lt a b ∨ Holds .gt a b)
  le_iff_lt_or_eq : a.Discerned b → (Holds .le a b ↔ Holds .lt a b ∨ Holds .eq a b)
  ge_iff_gt_or_eq : a.Discerned b → (Holds .ge a b ↔ Holds .gt a b ∨ Holds .eq a b)
  eq_trans : a.Discerned b → b.Discerned c → a.Discerned c →
    Holds .eq a b → Holds .eq b c → Holds .eq a c
  small : ∀ {i j : Int} {hi hj}, a = .int i hi → b = .int j hj → i.natAbs ≤ 2 ^ 53 →
    j.natAbs ≤ 2 ^ 53 → a.Discerned b ∧ (Holds .lt a b ↔ i < j) ∧ (Holds .eq a b ↔ i = j)

/-- Numbers compare coherently wherever equality and order tell them apart in the same way. -/
theorem comparisons_coherent (a b c : Number) : Coherent a b c where
  evaluates op hop ctx event x y hx hy := by
    have happly : ∃ v, op.apply (.num a) (.num b) = .ok (.bool v) := by
      simp only [IsComparison, List.mem_cons, List.not_mem_nil, or_false] at hop
      rcases hop with rfl | rfl | rfl | rfl | rfl | rfl <;> exact ⟨_, rfl⟩
    obtain ⟨v, hv⟩ := happly
    refine ⟨v, by rw [Expr.evaluate_binary hx hy, hv]; rfl, ?_⟩
    simp [Holds, hv]
  lt_asymm := by
    rw [holds_lt_iff, holds_gt_iff]
    omega
  lt_trans := by
    simp only [holds_lt_iff]
    omega
  gt_iff_lt := Iff.rfl
  le_iff_not_gt := by
    rw [holds_le_iff, holds_gt_iff]
    omega
  ge_iff_not_lt := by
    rw [holds_ge_iff, holds_lt_iff]
    omega
  exact_of_lt h := by
    by_contra hle
    have hvalue := Number.value_toDouble_mono (not_lt.mp hle)
    rw [holds_lt_iff] at h
    omega
  lt_iff_exact ha hb := by rw [holds_lt_iff, ha, hb]
  ne_iff_not_eq := holds_ne_iff
  eq_refl := holds_eq_refl a
  eq_symm := holds_eq_symm
  eq_signed := holds_eq_iff_of_signed
  eq_other := holds_eq_iff_of_other
  one_holds := existsUnique_holds
  overlap := holds_of_not_discerned
  le_iff_lt_or_eq h := by
    rw [holds_le_iff, holds_lt_iff, holds_eq_iff_of_discerned h]
    omega
  ge_iff_gt_or_eq h := by
    rw [holds_ge_iff, holds_gt_iff, holds_eq_iff_of_discerned h]
    omega
  eq_trans hab hbc hac := by
    rw [holds_eq_iff_of_discerned hab, holds_eq_iff_of_discerned hbc,
      holds_eq_iff_of_discerned hac]
    exact Eq.trans
  small := by
    rintro i j hi hj rfl rfl hismall hjsmall
    exact ⟨discerned_int hismall hjsmall, holds_lt_int_iff hismall hjsmall,
      holds_eq_int_iff hismall hjsmall⟩

/-- One half is both less than the next double and equal to it. -/
theorem half_overlaps :
    let half := Number.double ⟨false, Nat.pow 2 1073, by decide +kernel⟩
    let above := Number.double ⟨false, Nat.pow 2 1073 + Nat.pow 2 1021, by decide +kernel⟩
    Holds .lt half above ∧ Holds .eq half above ∧
      ¬∃! op, op ∈ [lt, eq, gt] ∧ op.Holds half above := by
  intro half above
  have hlt : Holds .lt half above := holds_lt_iff.mpr (by decide +kernel)
  have heq : Holds .eq half above := by
    have hother : ¬half.IsSigned := by simp [half, Number.IsSigned, Number.signed?]
    exact (holds_eq_iff_of_other fun h => hother h.1).mpr (by decide +kernel)
  refine ⟨hlt, heq, ?_⟩
  rintro ⟨op, -, hunique⟩
  have hsame : lt = eq := (hunique lt ⟨by simp, hlt⟩).trans (hunique eq ⟨by simp, heq⟩).symm
  cases hsame

/-- Beyond 53 bits order does not follow the exact values: 2⁵³ and its successor are the same
double, so neither is less, while equality tells them apart. -/
theorem successor_unordered :
    let large := Number.int (2 ^ 53) (by decide)
    let next := Number.int (2 ^ 53 + 1) (by decide)
    large.exact < next.exact ∧ ¬Holds .lt large next ∧ ¬Holds .eq large next ∧
      ¬Holds .gt large next := by
  intro large next
  have hvalue : large.toDouble.value = next.toDouble.value := by decide +kernel
  refine ⟨Number.exact_lt_exact_iff.mpr (by decide), ?_, ?_, ?_⟩
  · exact fun h => (holds_lt_iff.mp h).ne hvalue
  · have hlarge : large.IsSigned := rfl
    have hnext : next.IsSigned := rfl
    intro h
    simpa [large, next] using (holds_eq_iff_of_signed hlarge hnext).mp h
  · exact fun h => (holds_gt_iff.mp h).ne' hvalue

end BinaryOp

end Statechart
