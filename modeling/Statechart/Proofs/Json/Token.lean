import Mathlib.Data.List.TakeWhile
import Mathlib.Tactic
import Statechart.Json.Token
import Statechart.Json.Writer

/-!
# Tokens that are read back

A string and a whole number are read back from the text that they are written as, whatever text
follows in a document. A double is written with as many digits as tell it from every other one,
but read with a significand of 64 bits and one rounding too many, so that not every double is read
back: `Number.ReadsBack` tells which are.
-/
namespace Statechart.Json

theorem hexUnit?_hexDigits : ∀ n < 32,
    hexUnit? '0' '0' (hexDigit (n / 16)) (hexDigit (n % 16)) = some n := by
  decide

/-- A character is read back from its escape. -/
theorem scanString_escape (c : Char) (done rest : List Char) :
    scanString done (escape c ++ rest) = scanString (c :: done) rest := by
  unfold escape
  split_ifs with hquote hbackslash hb ht hn hf hr hcontrol
  iterate 7
    subst c
    rfl
  · have hunit := hexUnit?_hexDigits c.toNat hcontrol
    have hlow : c.toNat < 0xD800 := by omega
    simp [scanString, hunit, hlow]
  · rw [List.singleton_append, scanString.eq_def]
    split <;> simp_all

theorem scanString_quoted (s done rest : List Char) :
    scanString done (s.flatMap escape ++ '"' :: rest) = some (done.reverse ++ s, rest) := by
  induction s generalizing done with
  | nil => simp [scanString]
  | cons c s ih =>
      rw [List.flatMap_cons, List.append_assoc, scanString_escape, ih]
      simp

theorem scanFrom_quote (s : String) (rest : List Char) :
    ∃ cs, quote s ++ rest = '"' :: cs ∧ scanFrom false '"' cs = (.scalar (str s), rest) := by
  refine ⟨s.toList.flatMap escape ++ '"' :: rest, by simp [quote], ?_⟩
  simp [scanFrom, stringToken, scanString_quoted]

/-- What follows a value in a document: nothing, or a comma or a bracket that closes. -/
def Follows (after : List Char) : Prop :=
  ∀ c, after.head? = some c → c = ',' ∨ c = ']' ∨ c = '\x7d'

theorem Follows.not_isDigit {after : List Char} (h : Follows after) :
    ∀ c, after.head? = some c → c.isDigit = false := by
  intro c hc
  rcases h c hc with rfl | rfl | rfl <;> rfl

/-- A run of characters of a class ends where a text begins with no character of the class. -/
theorem takeWhile_append_of_head {p : Char → Bool} {after : List Char}
    (h : ∀ c, after.head? = some c → p c = false) (cs : List Char) :
    (cs ++ after).takeWhile p = cs.takeWhile p ∧
      (cs ++ after).dropWhile p = cs.dropWhile p ++ after := by
  induction cs with
  | nil =>
      cases after with
      | nil => simp
      | cons c rest => simp [h c rfl]
  | cons c cs ih =>
      obtain ⟨htake, hdrop⟩ := ih
      by_cases hc : p c = true <;> simp [hc, htake, hdrop]

/-- The fraction of a number, as the digits after its point, and the text after it. -/
def scanFraction (rest : List Char) : Option (List Char) × List Char :=
  match rest with
  | '.' :: r =>
    let digits := r.takeWhile Char.isDigit
    (if digits.isEmpty then none else some digits, r.dropWhile Char.isDigit)
  | _ => (some [], rest)

/-- The sign of an exponent, and the text after it. -/
def scanSign (r : List Char) : Bool × List Char :=
  match r with
  | '-' :: r => (true, r)
  | '+' :: r => (false, r)
  | r => (false, r)

/-- The exponent of a number, if there is one, and the text after it. -/
def scanExponent (rest : List Char) : Option (Option (Bool × List Char)) × List Char :=
  match rest with
  | c :: r =>
    if c = 'e' ∨ c = 'E' then
      let (minus, r) := scanSign r
      let digits := r.takeWhile Char.isDigit
      (if digits.isEmpty then none else some (some (minus, digits)), r.dropWhile Char.isDigit)
    else (some none, rest)
  | [] => (some none, rest)

theorem scanNumber_eq (negative : Bool) (cs : List Char) : scanNumber negative cs =
    let whole := cs.takeWhile Char.isDigit
    let rest := cs.dropWhile Char.isDigit
    if whole.isEmpty ∨ (1 < whole.length ∧ whole.head? = some '0') then (none, rest)
    else
      let fraction := scanFraction rest
      let exponent := scanExponent fraction.2
      (do return ⟨negative, whole, ← fraction.1, ← exponent.1⟩, exponent.2) := by
  rfl

section append
variable {after : List Char} (h : Follows after)
include h

theorem scanFraction_append (rest : List Char) :
    scanFraction (rest ++ after) = ((scanFraction rest).1, (scanFraction rest).2 ++ after) := by
  cases rest with
  | nil =>
      have hpoint : ∀ r, after ≠ '.' :: r := by
        rintro r rfl
        simpa using h '.' rfl
      unfold scanFraction
      split
      · next r heq => exact absurd heq (hpoint r)
      · rfl
  | cons c r =>
      obtain ⟨htake, hdrop⟩ := takeWhile_append_of_head h.not_isDigit r
      by_cases hc : c = '.'
      · subst hc
        simp [scanFraction, htake, hdrop]
      · simp [scanFraction, hc]

theorem scanSign_append (r : List Char) :
    scanSign (r ++ after) = ((scanSign r).1, (scanSign r).2 ++ after) := by
  cases r with
  | nil =>
      unfold scanSign
      split
      · next r heq => simpa using h '-' (by rw [List.nil_append] at heq; rw [heq]; rfl)
      · next r heq => simpa using h '+' (by rw [List.nil_append] at heq; rw [heq]; rfl)
      · rfl
  | cons c r =>
      by_cases hminus : c = '-'
      · subst hminus
        rfl
      · by_cases hplus : c = '+'
        · subst hplus
          rfl
        · simp [scanSign, hminus, hplus]

theorem scanExponent_append (rest : List Char) :
    scanExponent (rest ++ after) = ((scanExponent rest).1, (scanExponent rest).2 ++ after) := by
  cases rest with
  | nil =>
      cases after with
      | nil => rfl
      | cons c r =>
          have hc : ¬(c = 'e' ∨ c = 'E') := by
            rcases h c rfl with rfl | rfl | rfl <;> decide
          simp [scanExponent, hc]
  | cons c r =>
      obtain ⟨htake, hdrop⟩ := takeWhile_append_of_head h.not_isDigit (scanSign r).2
      by_cases hc : c = 'e' ∨ c = 'E'
      · simp [scanExponent, hc, scanSign_append h, htake, hdrop]
      · simp [scanExponent, hc]

/-- The parts of a number do not depend on what follows it. -/
theorem scanNumber_append (negative : Bool) (cs : List Char) : scanNumber negative (cs ++ after) =
    ((scanNumber negative cs).1, (scanNumber negative cs).2 ++ after) := by
  obtain ⟨htake, hdrop⟩ := takeWhile_append_of_head h.not_isDigit cs
  simp only [scanNumber_eq, htake, hdrop, scanFraction_append h, scanExponent_append h]
  split_ifs <;> rfl

end append

theorem numberToken_append {after : List Char} (h : Follows after) (skim negative : Bool)
    (cs : List Char) : numberToken skim negative (cs ++ after) =
      ((numberToken skim negative cs).1, (numberToken skim negative cs).2 ++ after) := by
  simp only [numberToken, scanNumber_append h]

theorem scanFrom_digit {skim : Bool} {c : Char} (h : c.isDigit = true) (cs : List Char) :
    scanFrom skim c cs = numberToken skim false (c :: cs) := by
  have hne (d : Char) (hd : d.isDigit = false) : c ≠ d := by
    rintro rfl
    simp [h] at hd
  simp [scanFrom, h, hne '[' rfl, hne ']' rfl, hne '\x7b' rfl, hne '\x7d' rfl, hne ',' rfl,
    hne ':' rfl, hne '"' rfl, hne 'n' rfl, hne 't' rfl, hne 'f' rfl, hne '-' rfl]

/-- The number that a text is, its sign included, and the text after it. -/
def signedToken : List Char → Token × List Char
  | '-' :: cs => numberToken false true cs
  | cs => numberToken false false cs

theorem signedToken_of_ne {cs : List Char} (h : cs.head? ≠ some '-') :
    signedToken cs = numberToken false false cs := by
  unfold signedToken
  split
  · simp at h
  · rfl

theorem isDigit_of_numberToken {negative : Bool} {cs rest : List Char} {v : Json}
    (h : numberToken false negative cs = (.scalar v, rest)) :
    ∃ c tail, cs = c :: tail ∧ c.isDigit = true := by
  cases cs with
  | nil => cases h
  | cons c tail =>
      refine ⟨c, tail, rfl, ?_⟩
      by_contra hc
      simp [numberToken, scanNumber, hc] at h

/-- The text of a number is read in the same way in a document. -/
theorem scanFrom_signed {text after : List Char} {v : Json} (hafter : Follows after)
    (h : signedToken text = (.scalar v, [])) :
    ∃ c cs, text = c :: cs ∧ isSpace c = false ∧
      scanFrom false c (cs ++ after) = (.scalar v, after) := by
  by_cases hsign : text.head? = some '-'
  · obtain ⟨cs, rfl⟩ : ∃ cs, text = '-' :: cs := by
      cases text <;> simp_all
    refine ⟨'-', cs, rfl, rfl, ?_⟩
    have htoken : numberToken false true cs = (.scalar v, []) := h
    show numberToken false true (cs ++ after) = _
    rw [numberToken_append hafter, htoken]
    rfl
  · rw [signedToken_of_ne hsign] at h
    obtain ⟨c, cs, rfl, hc⟩ := isDigit_of_numberToken h
    have hspace : isSpace c = false := by
      have hne (d : Char) (hd : d.isDigit = false) : c ≠ d := by
        rintro rfl
        simp [hc] at hd
      simp [isSpace, hne ' ' rfl, hne '\n' rfl, hne '\t' rfl, hne '\r' rfl]
    refine ⟨c, cs, rfl, hspace, ?_⟩
    rw [scanFrom_digit hc, ← List.cons_append, numberToken_append hafter, h]
    rfl

end Statechart.Json

namespace Statechart.Number
open Json

/-- A number is read back from the text that it is written as. -/
def ReadsBack (n : Number) : Prop := signedToken n.write = (.scalar (.num n), [])

instance (n : Number) : Decidable n.ReadsBack :=
  decidable_of_iff
    ((match signedToken n.write with
      | (.scalar (.num m), []) => decide (m = n)
      | _ => false) = true) <| by
    unfold ReadsBack
    split
    · next h => simp [h]
    · next h => simpa using h n

theorem head?_toDigits {n : Nat} : n ≠ 0 → (Nat.toDigits 10 n).head? ≠ some '0' := by
  induction n using Nat.strongRecOn with
  | ind n ih =>
      intro hn
      rw [Nat.toDigits_eq_if (by decide)]
      split_ifs with hlt
      · have hfirst : ∀ m < 10, m ≠ 0 → m.digitChar ≠ '0' := by decide
        simpa using hfirst n hlt hn
      · rw [List.head?_append_of_ne_nil _ Nat.toDigits_ne_nil]
        exact ih (n / 10) (by omega) (by omega)

/-- The digits of a number are read up to their end. -/
theorem scanNumber_toDigits (negative : Bool) (n : Nat) :
    scanNumber negative (Nat.toDigits 10 n) =
      (some ⟨negative, Nat.toDigits 10 n, [], none⟩, []) := by
  have hdigits : ∀ c ∈ Nat.toDigits 10 n, c.isDigit = true := fun c hc =>
    Nat.isDigit_of_mem_toDigits (by decide) (by decide) hc
  have htake : (Nat.toDigits 10 n).takeWhile Char.isDigit = Nat.toDigits 10 n :=
    List.takeWhile_eq_self_iff.mpr hdigits
  have hdrop : (Nat.toDigits 10 n).dropWhile Char.isDigit = [] :=
    List.dropWhile_eq_nil_iff.mpr hdigits
  have hlead : ¬(1 < (Nat.toDigits 10 n).length ∧ (Nat.toDigits 10 n).head? = some '0') := by
    rintro ⟨hlong, hzero⟩
    have hn : n = 0 := by
      by_contra hne
      exact head?_toDigits hne hzero
    subst hn
    simp at hlong
  simp [scanNumber_eq, htake, hdrop, hlead, Nat.toDigits_ne_nil, scanFraction, scanExponent]

/-- Whole numbers are read back. -/
theorem readsBack_int (i : Int) (h : InRange i) : ReadsBack (.int i h) := by
  have hvalue (negative : Bool) (hi : (if negative then -(i.natAbs : Int) else i.natAbs) = i)
      (hzero : ¬(negative ∧ i.natAbs = 0)) :
      numberToken false negative (Nat.toDigits 10 i.natAbs) = (.scalar (.num (.int i h)), []) := by
    have hnumber : NumberText.number? ⟨negative, Nat.toDigits 10 i.natAbs, [], none⟩ =
        some (.int i h) := by
      simp only [NumberText.number?, Nat.ofDigitChars_ten_toDigits, hi]
      rw [if_pos ⟨rfl, rfl, hzero, h⟩, ofInt?, dif_pos h]
    simp [numberToken, scanNumber_toDigits, hnumber]
  unfold ReadsBack
  by_cases hneg : i < 0
  · have hwrite : write (.int i h) = '-' :: Nat.toDigits 10 i.natAbs := by
      simp [write, writeInt, hneg]
    rw [hwrite]
    exact hvalue true (by simp only [if_true]; omega) (by simp; omega)
  · have hwrite : write (.int i h) = Nat.toDigits 10 i.natAbs := by
      simp [write, writeInt, hneg]
    have hhead : (Nat.toDigits 10 i.natAbs).head? ≠ some '-' := by
      intro hminus
      have hdigit := Nat.isDigit_of_mem_toDigits (by decide) (by decide)
        (List.mem_of_mem_head? hminus)
      exact absurd hdigit (by decide)
    rw [hwrite, signedToken_of_ne hhead]
    exact hvalue false (by simp; omega) (by simp)

/-- Not every double is: 0.12500000000000105 is read as its neighbour below. -/
example :
    ¬ReadsBack (.double ⟨false, (Nat.pow 2 52 + 38) * Nat.pow 2 1019, by decide +kernel⟩) := by
  decide +kernel

end Statechart.Number
