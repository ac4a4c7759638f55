import Statechart.Expr.Eval
import Statechart.Proofs.Checks
import Statechart.Proofs.Double.Nearest

/-!
# Arithmetic on whole numbers

On two signed numbers of 64 bits an operator gives its exact result as such a number whenever the
result is one, and a double otherwise; it fails only where it divides by zero. One result is lost:
the remainder of the least number by minus one is zero, but it is taken from the doubles and comes
out as the negative zero among them.
-/
namespace Statechart

/-- A signed number of 64 bits. -/
def Number.ofInt64 (i : Int64) : Number :=
  .int i.toInt ⟨by simpa using i.le_toInt, by have := i.toInt_lt; omega⟩

theorem natAbs_toInt_le (i : Int64) : i.toInt.natAbs ≤ 2 ^ 63 := by
  have hlow := i.le_toInt
  have hhigh := i.toInt_lt
  omega

theorem Number.toDouble_ofInt64 (i : Int64) : (ofInt64 i).toDouble =
    Double.ofInt i.toInt (by have := natAbs_toInt_le i; omega) := rfl

theorem Number.signed?_ofInt64 (i : Int64) : (ofInt64 i).signed? = some i.toInt :=
  if_pos (by simpa using i.toInt_lt)

namespace Json

theorem ofSigned?_eq_some {r : Int} (h : -0x8000000000000000 ≤ r ∧ r < 0x8000000000000000)
    (hr : Number.InRange r) : ofSigned? r = some (.num (.int r hr)) := dif_pos h

theorem ofSigned?_toInt (r : Int64) : ofSigned? r.toInt = some (.num (.ofInt64 r)) :=
  ofSigned?_eq_some ⟨by simpa using r.le_toInt, by simpa using r.toInt_lt⟩ _

theorem exists_of_ofSigned? {r : Int} {v : Json} (h : ofSigned? r = some v) :
    ∃ k : Int64, k.toInt = r ∧ v = .num (.ofInt64 k) := by
  unfold ofSigned? at h
  split_ifs at h with hrange
  cases h
  have hr : (Int64.ofInt r).toInt = r :=
    Int64.toInt_ofInt_of_le (by simpa using hrange.1) (by simpa using hrange.2)
  exact ⟨.ofInt r, hr, by simp only [Number.ofInt64, hr]⟩

end Json

theorem Number.negate_int {i : Int} {h : Number.InRange i} (hlow : -0x8000000000000000 < i)
    (hhigh : i < 0x8000000000000000) :
    (Number.int i h).negate = .num (.int (-i) ⟨by omega, by omega⟩) := by
  have hsigned : (Number.int i h).signed? = some i := if_pos hhigh
  rw [negate, hsigned, Option.bind_some, Json.ofSigned?_eq_some (by omega) ⟨by omega, by omega⟩]

theorem Number.negate_ofInt64 {i r : Int64} (h : r.toInt = -i.toInt) :
    (ofInt64 i).negate = .num (.ofInt64 r) := by
  rw [negate, signed?_ofInt64, Option.bind_some, ← h, Json.ofSigned?_toInt]

theorem Number.exists_negate_double {i : Int64} (h : ∀ r : Int64, r.toInt ≠ -i.toInt) :
    ∃ d, (ofInt64 i).negate = .num (.double d) := by
  have hnone : Json.ofSigned? (-i.toInt) = none := by
    by_contra hsome
    obtain ⟨v, hv⟩ := Option.ne_none_iff_exists'.mp hsome
    obtain ⟨r, hr, -⟩ := Json.exists_of_ofSigned? hv
    exact h r hr
  rw [negate, signed?_ofInt64, Option.bind_some, hnone]
  exact ⟨_, rfl⟩

namespace BinaryOp

/-- The operators that take two numbers to a number. -/
def IsArithmetic (op : BinaryOp) : Prop := op ∈ [add, sub, mul, div, rem]

/-- A whole number is the exact result of an operator on two others. A remainder is smaller than the
divisor and has the sign of the dividend. -/
inductive Exact : BinaryOp → Int → Int → Int → Prop where
  | add {i j} : Exact add i j (i + j)
  | sub {i j} : Exact sub i j (i - j)
  | mul {i j} : Exact mul i j (i * j)
  | div {i j q} (hj : j ≠ 0) (h : i = q * j) : Exact div i j q
  | rem {i j q r} (h : i = q * j + r) (hless : r.natAbs < j.natAbs) (hsign : 0 ≤ r * i) :
    Exact rem i j r

variable {op : BinaryOp} {i j r : Int} {v : Json}

theorem exact_tmod (hj : j ≠ 0) : Exact rem i j (i.tmod j) := by
  refine .rem (q := i.tdiv j) ?_ ?_ ?_
  · rw [Int.mul_comm, Int.mul_tdiv_add_tmod]
  · rw [Int.natAbs_tmod]
    exact Nat.mod_lt _ (by omega)
  · by_cases hi : 0 ≤ i
    · exact Int.mul_nonneg (Int.tmod_nonneg j hi) hi
    · have hneg : i.tmod j ≤ 0 := by
        have hflip := Int.tmod_nonneg j (show 0 ≤ -i by omega)
        rw [Int.neg_tmod] at hflip
        omega
      exact Int.mul_nonneg_of_nonpos_of_nonpos hneg (by omega)

/-- There is one remainder. -/
theorem remainder_unique {r s : Int} (hr : Exact rem i j r) (hs : Exact rem i j s) : r = s := by
  cases hr with
  | @rem _ _ q _ hr hrless hrsign =>
  cases hs with
  | @rem _ _ q' _ hs hsless hssign =>
  have hdvd : j ∣ r - s := ⟨q' - q, by rw [Int.mul_sub, Int.mul_comm j, Int.mul_comm j]; omega⟩
  rcases Int.lt_trichotomy i 0 with hi | hi | hi
  · have hrneg : r ≤ 0 := by nlinarith
    have hsneg : s ≤ 0 := by nlinarith
    have hzero := Int.eq_zero_of_dvd_of_natAbs_lt_natAbs hdvd (by omega)
    omega
  · -- a multiple of the divisor that is smaller than it is zero
    have hzero {t p : Int} (h : i = p * j + t) (hless : t.natAbs < j.natAbs) : t = 0 :=
      Int.eq_zero_of_dvd_of_natAbs_lt_natAbs ⟨-p, by rw [Int.mul_neg, Int.mul_comm]; omega⟩ hless
    rw [hzero hr hrless, hzero hs hsless]
  · have hrpos : 0 ≤ r := by nlinarith
    have hspos : 0 ≤ s := by nlinarith
    have hzero := Int.eq_zero_of_dvd_of_natAbs_lt_natAbs hdvd (by omega)
    omega

/-- What is given as a whole number is the exact result. -/
theorem exact_of_wholeResult? (h : op.wholeResult? i j = some v) :
    ∃ r : Int64, op.Exact i j r.toInt ∧ v = .num (.ofInt64 r) := by
  unfold wholeResult? at h
  split at h
  · obtain ⟨r, hr, hv⟩ := Json.exists_of_ofSigned? h
    exact ⟨r, hr ▸ .add, hv⟩
  · obtain ⟨r, hr, hv⟩ := Json.exists_of_ofSigned? h
    exact ⟨r, hr ▸ .sub, hv⟩
  · obtain ⟨r, hr, hv⟩ := Json.exists_of_ofSigned? h
    exact ⟨r, hr ▸ .mul, hv⟩
  · split_ifs at h with hdvd
    obtain ⟨r, hr, hv⟩ := Json.exists_of_ofSigned? h
    have hquotient := Int.mul_tdiv_add_tmod i j
    rw [hdvd.2, Int.add_zero, ← hr, Int.mul_comm] at hquotient
    exact ⟨r, .div hdvd.1 hquotient.symm, hv⟩
  · split_ifs at h with hnone
    obtain ⟨r, hr, hv⟩ := Json.exists_of_ofSigned? h
    exact ⟨r, hr ▸ exact_tmod fun hj => hnone (.inl hj), hv⟩
  · cases h

/-- The exact result is given as a whole number if it fits, one remainder apart. -/
theorem wholeResult?_of_exact (h : op.Exact i j r)
    (hleast : ¬(op = rem ∧ i = -0x8000000000000000 ∧ j = -1)) :
    op.wholeResult? i j = Json.ofSigned? r := by
  cases h with
  | add | sub | mul => rfl
  | @div _ _ q hj h =>
      subst h
      rw [wholeResult?, if_pos ⟨hj, Int.mul_tmod_left r j⟩, Int.mul_tdiv_cancel _ hj]
  | rem h hless hsign =>
      have hj : j ≠ 0 := by
        rintro rfl
        simp at hless
      have hr := remainder_unique (.rem h hless hsign) (exact_tmod hj)
      rw [wholeResult?, if_neg (by tauto), hr]

/-- The double with value zero and a minus sign. -/
def negativeZero : Double := Double.zero.neg

theorem exists_ofDouble? {d : Option Double} (h : ∃ x, d = some x) :
    ∃ x, Json.ofDouble? d = .ok (.num (.double x)) := by
  obtain ⟨x, rfl⟩ := h
  exact ⟨x, rfl⟩

theorem onDoubles_div {x y : Double} (h : y.units ≠ 0) :
    onDoubles div x y = Json.ofDouble? (x.div? y) := if_neg h

theorem onDoubles_rem {x y : Double} (h : y.units ≠ 0) :
    onDoubles rem x y = Json.ofDouble? (x.rem? y) := if_neg h

/-- Doubles of the size of 64-bit numbers have a double as their result under each operator, unless
they are divided by less than one. -/
theorem exists_onDoubles (hop : op.IsArithmetic) {x y : Double} (hx : x.units ≤ 2 ^ 63 * Double.one)
    (hy : y.units ≤ 2 ^ 63 * Double.one) (hone : op.divides → Double.one ≤ y.units) :
    ∃ d, op.onDoubles x y = .ok (.num (.double d)) := by
  have hpos := Double.one_pos
  have hbound : 2 ^ 126 * Double.one < 2 ^ 1300 := by decide +kernel
  have hlarge : 2 ^ 64 * Double.one ≤ 2 ^ 126 * Double.one :=
    Nat.mul_le_mul_right _ (by norm_num)
  have hsum {a b : Double} (ha : a.units ≤ 2 ^ 63 * Double.one)
      (hb : b.units ≤ 2 ^ 63 * Double.one) : ∃ d, a.add? b = some d := by
    refine Double.exists_ofRatio? _ ?_
    have habs := Int.natAbs_add_le a.value b.value
    rw [Double.natAbs_value, Double.natAbs_value] at habs
    rw [Nat.div_one]
    omega
  have hproduct : x.units * y.units / Double.one < 2 ^ 1300 := by
    have hmul := Nat.mul_le_mul hx hy
    refine (Nat.div_le_of_le_mul (hmul.trans_eq ?_)).trans_lt hbound
    generalize Double.one = one
    ring
  unfold IsArithmetic at hop
  simp only [List.mem_cons, List.not_mem_nil, or_false] at hop
  rcases hop with rfl | rfl | rfl | rfl | rfl
  · exact exists_ofDouble? (d := x.add? y) (hsum hx hy)
  · exact exists_ofDouble? (d := x.sub? y) (hsum hx (b := y.neg) hy)
  · exact exists_ofDouble? (d := x.mul? y) (Double.exists_ofRatio? _ hproduct)
  · have hdivisor := hone rfl
    have hne : y.units ≠ 0 := by omega
    rw [onDoubles_div hne, Double.div?, if_neg hne]
    refine exists_ofDouble? (Double.exists_ofRatio? _ ?_)
    have hquotient : x.units * Double.one / y.units ≤ x.units :=
      Nat.div_le_of_le_mul (by rw [Nat.mul_comm]; exact Nat.mul_le_mul_right _ hdivisor)
    omega
  · have hdivisor := hone rfl
    have hne : y.units ≠ 0 := by omega
    rw [onDoubles_rem hne, Double.rem?, if_neg hne]
    refine exists_ofDouble? (Double.exists_ofRatio? _ ?_)
    have hmod := Nat.mod_le x.units y.units
    rw [Nat.div_one]
    omega

theorem onDoubles_least : onDoubles rem (Number.ofInt64 .minValue).toDouble
    (Number.ofInt64 (-1)).toDouble = .ok (.num (.double negativeZero)) := by
  have hunits : (Number.ofInt64 (-1)).toDouble.units ≠ 0 := by decide +kernel
  have hrem : (Number.ofInt64 .minValue).toDouble.rem? (Number.ofInt64 (-1)).toDouble =
      some negativeZero := by
    decide +kernel
  rw [onDoubles_rem hunits, hrem]
  rfl

theorem units_toDouble_le (i : Int64) :
    (Number.ofInt64 i).toDouble.units ≤ 2 ^ 63 * Double.one := by
  rw [Number.toDouble_ofInt64]
  exact Double.units_ofInt_le (natAbs_toInt_le i)

theorem one_le_units_toDouble {i : Int64} (h : i ≠ 0) :
    Double.one ≤ (Number.ofInt64 i).toDouble.units := by
  rw [Number.toDouble_ofInt64]
  exact Double.one_le_units_ofInt fun hzero => h (Int64.toInt_inj.mp hzero)

theorem apply_eq_arithmetic (hop : op.IsArithmetic) (x y : Number) :
    op.apply (.num x) (.num y) = op.arithmetic (.num x) (.num y) := by
  unfold IsArithmetic at hop
  simp only [List.mem_cons, List.not_mem_nil, or_false] at hop
  rcases hop with rfl | rfl | rfl | rfl | rfl <;> rfl

/-- An operator on two whole numbers divides by zero, has a whole result, or goes to the doubles. -/
theorem apply_ofInt64 (hop : op.IsArithmetic) (i j : Int64) :
    op.apply (.num (.ofInt64 i)) (.num (.ofInt64 j)) =
      if j.toInt = 0 ∧ op.divides then .error .divisionByZero
      else match op.wholeResult? i.toInt j.toInt with
        | some result => .ok result
        | none => op.onDoubles (Number.ofInt64 i).toDouble (Number.ofInt64 j).toDouble := by
  rw [apply_eq_arithmetic hop]
  simp only [arithmetic, Json.number, bind, Except.bind, Number.signed?_ofInt64]
  split_ifs with hzero
  · rfl
  · rfl

theorem divides_iff : op.divides = true ↔ op = div ∨ op = rem := by
  cases op <;> simp [divides]

/-- The result of an operator on two whole numbers: a failure that names a place where it divides by
zero, the exact whole number where there is one, and a double otherwise. The remainder of the least
number by minus one is the exception. -/
structure GivesExact (op : BinaryOp) (i j : Int64) (place : String)
    (result : Except ResolutionError Json) : Prop where
  undefined : op = div ∨ op = rem → j = 0 → result = .error (.divisionByZero place)
  exact : ∀ r : Int64, op.Exact i.toInt j.toInt r.toInt →
    ¬(op = rem ∧ i = .minValue ∧ j = -1) → result = .ok (.num (.ofInt64 r))
  inexact : (op = div ∨ op = rem → j ≠ 0) → (∀ r : Int64, ¬op.Exact i.toInt j.toInt r.toInt) →
    ∃ d, result = .ok (.num (.double d))
  least : op = rem → i = .minValue → j = -1 → result = .ok (.num (.double negativeZero))

theorem divisor_ne_zero (h : op.Exact i j r) (hop : op = div ∨ op = rem) : j ≠ 0 := by
  cases h with
  | add | sub | mul => simp at hop
  | div hj => exact hj
  | rem _ hless _ =>
      rintro rfl
      simp at hless

theorem givesExact (hop : op.IsArithmetic) (i j : Int64) (place : String) :
    op.GivesExact i j place
      ((op.apply (.num (.ofInt64 i)) (.num (.ofInt64 j))).mapError (.ofOperator place)) := by
  rw [apply_ofInt64 hop]
  have hzero_iff : j.toInt = 0 ↔ j = 0 := Int64.toInt_inj (y := 0)
  have hdivides (h : op = div ∨ op = rem → j ≠ 0) : ¬(j.toInt = 0 ∧ op.divides = true) := by
    rw [hzero_iff, divides_iff]
    exact fun hboth => h hboth.2 hboth.1
  refine ⟨fun hdiv hj => ?_, fun r hr hleast => ?_, fun hdiv hnone => ?_, ?_⟩
  · rw [if_pos ⟨hzero_iff.mpr hj, divides_iff.mpr hdiv⟩]
    rfl
  · have hwhole := wholeResult?_of_exact hr fun ⟨hrem, hi, hj⟩ =>
      hleast ⟨hrem, Int64.toInt_inj.mp hi, Int64.toInt_inj.mp hj⟩
    rw [if_neg (hdivides fun hdiv hj => divisor_ne_zero hr hdiv (hzero_iff.mpr hj)), hwhole,
      Json.ofSigned?_toInt]
    rfl
  · have hwhole : op.wholeResult? i.toInt j.toInt = none := by
      by_contra hsome
      obtain ⟨v, hv⟩ := Option.ne_none_iff_exists'.mp hsome
      obtain ⟨r, hr, -⟩ := exact_of_wholeResult? hv
      exact hnone r hr
    obtain ⟨d, hd⟩ := exists_onDoubles hop (units_toDouble_le i) (units_toDouble_le j)
      fun h => one_le_units_toDouble (hdiv (divides_iff.mp h))
    rw [if_neg (hdivides hdiv), hwhole]
    exact ⟨d, congrArg _ hd⟩
  · rintro rfl rfl rfl
    rw [if_neg (by decide), show wholeResult? rem _ _ = none from rfl]
    exact congrArg _ onDoubles_least

end BinaryOp

namespace Expr
open BinaryOp

variable {ctx : Context} {event : Option Event} {a b : Expr}

theorem evaluate_binary {op : BinaryOp} {x y : Json} (ha : a.evaluate ctx event = .ok x)
    (hb : b.evaluate ctx event = .ok y) : (binary op a b).evaluate ctx event =
      (op.apply x y).mapError (.ofOperator (binary op a b).render) := by
  rw [evaluate, ha, hb]
  rfl

/-- Operators on operands that evaluate to signed numbers of 64 bits give the exact result as such a
number whenever it is one, one remainder apart, and never a wrong whole number; a changed sign is
exact whenever the opposite fits. -/
theorem evaluate_whole {i j : Int64}
    (ha : a.evaluate ctx event = .ok (.num (.ofInt64 i)))
    (hb : b.evaluate ctx event = .ok (.num (.ofInt64 j))) :
    (∀ op : BinaryOp, op.IsArithmetic →
      op.GivesExact i j (binary op a b).render ((binary op a b).evaluate ctx event)) ∧
    (∀ r : Int64, r.toInt = -i.toInt → (neg a).evaluate ctx event = .ok (.num (.ofInt64 r))) ∧
    ((∀ r : Int64, r.toInt ≠ -i.toInt) →
      ∃ d, (neg a).evaluate ctx event = .ok (.num (.double d))) := by
  have hneg : (neg a).evaluate ctx event = .ok (Number.ofInt64 i).negate := by
    rw [evaluate, ha]
    rfl
  refine ⟨fun op hop => ?_, fun r hr => ?_, fun hnone => ?_⟩
  · exact evaluate_binary ha hb ▸ givesExact hop i j _
  · rw [hneg, Number.negate_ofInt64 hr]
  · obtain ⟨d, hd⟩ := Number.exists_negate_double hnone
    exact ⟨d, hneg.trans (congrArg _ hd)⟩

/-- The remainder of seven by minus two is one. -/
theorem evaluate_whole_remainder :
    let seven : Expr := literal (.num (.ofInt64 7))
    let minusTwo : Expr := literal (.num (.ofInt64 (-2)))
    seven.evaluate .empty none = .ok (.num (.ofInt64 7)) ∧
      minusTwo.evaluate .empty none = .ok (.num (.ofInt64 (-2))) ∧
      (binary .rem seven minusTwo).evaluate .empty none = .ok (.num (.ofInt64 1)) :=
  ⟨rfl, rfl, ((evaluate_whole rfl rfl).1 .rem (by simp [IsArithmetic])).exact 1
    (.rem (q := -3) (by decide) (by decide) (by decide)) (by decide)⟩

/-- The remainder of the least number by minus one is zero, but that is not what it evaluates to. -/
theorem least_remainder_inexact :
    Exact .rem Int64.minValue.toInt (-1 : Int64).toInt (0 : Int64).toInt ∧
      (binary .rem (literal (.num (.ofInt64 .minValue)))
        (literal (.num (.ofInt64 (-1))))).evaluate .empty none ≠ .ok (.num (.ofInt64 0)) := by
  refine ⟨.rem (q := 2 ^ 63) (by decide) (by decide) (by decide), fun heq => ?_⟩
  have hrem : IsArithmetic .rem := by simp [IsArithmetic]
  rw [evaluate_binary rfl rfl, (givesExact hrem .minValue (-1) _).least rfl rfl rfl] at heq
  simp [Number.ofInt64] at heq

end Expr

end Statechart
