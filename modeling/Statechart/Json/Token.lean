import Statechart.Json.Basic
import Statechart.Text.CharClass

/-!
# Tokens of JSON text

A text is cut into tokens one at a time, each step returning the text left over, which is
shorter. Anything that is no token is `bad`. A value that nobody wants is skimmed: its numbers need
not be in range, and its strings may hold halves of characters.
-/
namespace Statechart.Json

open Text

inductive Token where
  | openArr
  | closeArr
  | openObj
  | closeObj
  | comma
  | colon
  | scalar (value : Json)
  | bad

/-- Number text: the digits before the point, after it, and of the exponent. -/
structure NumberText where
  negative : Bool
  whole : List Char
  fraction : List Char
  exponent : Option (Bool × List Char)

namespace NumberText

/-- A significand of 64 bits and the power of ten that scales it. -/
structure Parts where
  significand : Nat
  exponent : Int
  full : Bool

/-- Digits before the point are taken while the significand fits; each later one scales. -/
def Parts.addWhole (p : Parts) (c : Char) : Parts :=
  let next := 10 * p.significand + (c.toNat - '0'.toNat)
  if p.full ∨ 0x10000000000000000 ≤ next then { p with exponent := p.exponent + 1, full := true }
  else { p with significand := next }

/-- Digits after the point are taken while the significand fits; the others are dropped. -/
def Parts.addFraction (p : Parts) (c : Char) : Parts :=
  let next := 10 * p.significand + (c.toNat - '0'.toNat)
  if p.full ∨ 0x10000000000000000 ≤ next then { p with full := true }
  else { p with significand := next, exponent := p.exponent - 1 }

def parts (t : NumberText) : Parts :=
  let whole := t.whole.foldl Parts.addWhole ⟨0, 0, false⟩
  t.fraction.foldl Parts.addFraction { whole with full := false }

/-- The double nearest to a power of ten. -/
def powerOfTen? (n : Nat) : Option Double := Double.ofRatio? false (Nat.pow 10 n * Double.one) 1

/-- Divides by 10³⁰⁸ a number of times, or until nothing is left. -/
def shrink? : Nat → Double → Option Double
  | 0, d => some d
  | n + 1, d =>
    if d.units = 0 then some d else ((powerOfTen? 308).bind d.div?).bind (shrink? n)

/-- Scales by one multiplication or division with a power of ten, or by several divisions when
the power is below 10⁻³⁰⁸. -/
def scale? (d : Double) (exponent : Int) : Option Double :=
  if 0 ≤ exponent then
    if exponent ≤ 308 then (powerOfTen? exponent.toNat).bind d.mul?
    else if d.units = 0 then some d else none
  else
    let e := exponent.natAbs
    let times := (e - 1) / 308
    (shrink? times d).bind fun rest => (powerOfTen? (e - 308 * times)).bind rest.div?

/-- The number with a point or an exponent. An exponent of more than 31 bits gives zero, or
nothing when it is positive and the significand is not zero. -/
def double? (t : NumberText) : Option Double := do
  let p := t.parts
  let significand : Double ← Double.ofRatio? false (p.significand * Double.one) 1
  let magnitude ← match t.exponent with
    | none => scale? significand p.exponent
    | some (negative, digits) =>
      let e := Nat.ofDigitChars 10 digits 0
      if e < 0x80000000 then
        scale? significand (if negative then p.exponent - e else p.exponent + e)
      else if negative ∨ p.significand = 0 then some Double.zero
      else none
  return if t.negative then magnitude.neg else magnitude

/-- A whole number of 64 bits keeps its kind; minus zero and everything else is a double. -/
def number? (t : NumberText) : Option Number :=
  let n := Nat.ofDigitChars 10 t.whole 0
  let i : Int := if t.negative then -(n : Int) else n
  if t.fraction.isEmpty ∧ t.exponent.isNone ∧ ¬(t.negative ∧ n = 0) ∧ Number.InRange i then
    Number.ofInt? i
  else
    t.double?.map .double

end NumberText

/-- Reads the digits and the other parts of a number, after its sign. -/
def scanNumber (negative : Bool) (cs : List Char) : Option NumberText × List Char :=
  let whole := cs.takeWhile Char.isDigit
  let rest := cs.dropWhile Char.isDigit
  if whole.isEmpty ∨ (1 < whole.length ∧ whole.head? = some '0') then (none, rest)
  else
    let (fraction?, rest) := match rest with
      | '.' :: r =>
        let digits := r.takeWhile Char.isDigit
        (if digits.isEmpty then none else some digits, r.dropWhile Char.isDigit)
      | _ => (some [], rest)
    let (exponent?, rest) := match rest with
      | c :: r =>
        if c = 'e' ∨ c = 'E' then
          let (minus, r) := match r with
            | '-' :: r => (true, r)
            | '+' :: r => (false, r)
            | r => (false, r)
          let digits := r.takeWhile Char.isDigit
          (if digits.isEmpty then none else some (some (minus, digits)), r.dropWhile Char.isDigit)
        else (some none, rest)
      | [] => (some none, rest)
    (do return ⟨negative, whole, ← fraction?, ← exponent?⟩, rest)

def hexDigit? (c : Char) : Option Nat :=
  if c.isDigit then some (c.toNat - '0'.toNat)
  else if 'a' ≤ c ∧ c ≤ 'f' then some (c.toNat - 'a'.toNat + 10)
  else if 'A' ≤ c ∧ c ≤ 'F' then some (c.toNat - 'A'.toNat + 10)
  else none

/-- The number that four hexadecimal digits denote. -/
def hexUnit? (a b c d : Char) : Option Nat := do
  return 4096 * (← hexDigit? a) + 256 * (← hexDigit? b) + 16 * (← hexDigit? c) + (← hexDigit? d)

/-- The character of a backslash and one letter. -/
def simpleEscape? : Char → Option Char
  | '"' => some '"'
  | '\\' => some '\\'
  | '/' => some '/'
  | 'b' => some '\x08'
  | 'f' => some '\x0c'
  | 'n' => some '\n'
  | 'r' => some '\r'
  | 't' => some '\t'
  | _ => none

/-- Reads a string after its opening quote, with the characters read so far in reverse. A
character beyond 16 bits is escaped as two halves; half of one alone is refused. -/
def scanString (done : List Char) : List Char → Option (List Char × List Char)
  | [] => none
  | '"' :: rest => some (done.reverse, rest)
  | '\\' :: 'u' :: a :: b :: c :: d :: rest =>
    match hexUnit? a b c d with
    | none => none
    | some unit =>
      if unit < 0xD800 ∨ 0xDFFF < unit then scanString (Char.ofNat unit :: done) rest
      else if 0xDC00 ≤ unit then none
      else
        match rest with
        | '\\' :: 'u' :: e :: f :: g :: h :: rest =>
          match hexUnit? e f g h with
          | none => none
          | some low =>
            if 0xDC00 ≤ low ∧ low ≤ 0xDFFF then
              let code := 0x10000 + (unit - 0xD800) * 0x400 + (low - 0xDC00)
              scanString (Char.ofNat code :: done) rest
            else none
        | _ => none
  | '\\' :: letter :: rest =>
    match simpleEscape? letter with
    | some c => scanString (c :: done) rest
    | none => none
  | c :: rest => if c.toNat < 32 then none else scanString (c :: done) rest

theorem length_of_scanString {done cs : List Char} {s rest : List Char}
    (h : scanString done cs = some (s, rest)) : rest.length ≤ cs.length := by
  fun_induction scanString done cs <;> simp_all <;> omega

/-- The text after a string whose characters are not wanted. -/
def skipString : List Char → Option (List Char)
  | [] => none
  | '"' :: rest => some rest
  | '\\' :: 'u' :: a :: b :: c :: d :: rest =>
    if (hexUnit? a b c d).isSome then skipString rest else none
  | '\\' :: letter :: rest => if (simpleEscape? letter).isSome then skipString rest else none
  | c :: rest => if c.toNat < 32 then none else skipString rest

theorem length_of_skipString {cs rest : List Char} (h : skipString cs = some rest) :
    rest.length ≤ cs.length := by
  fun_induction skipString cs <;> simp_all <;> omega

/-- Whether a character separates tokens. -/
def isSpace (c : Char) : Bool := c = ' ' ∨ c = '\n' ∨ c = '\t' ∨ c = '\r'

theorem length_scanNumber_le (negative : Bool) (cs : List Char) :
    (scanNumber negative cs).2.length ≤ (cs.dropWhile Char.isDigit).length := by
  have drop := length_dropWhile_le Char.isDigit
  unfold scanNumber
  grind

def numberToken (skim : Bool) (negative : Bool) (cs : List Char) : Token × List Char :=
  let (text?, rest) := scanNumber negative cs
  let value? := if skim then text?.map fun _ => null else (text?.bind NumberText.number?).map num
  (value?.elim .bad .scalar, rest)

def wordToken (letters : List Char) (value : Json) (cs : List Char) : Token × List Char :=
  match dropWord? letters cs with
  | some rest => (.scalar value, rest)
  | none => (.bad, cs)

def stringToken (skim : Bool) (cs : List Char) : Token × List Char :=
  if skim then
    match skipString cs with
    | some rest => (.scalar (str ""), rest)
    | none => (.bad, cs)
  else
    match scanString [] cs with
    | some (s, rest) => (.scalar (str (String.ofList s)), rest)
    | none => (.bad, cs)

/-- The token that starts with a character, and the text after it. Skimming leaves out the
characters of strings and the values of numbers. -/
def scanFrom (skim : Bool) (c : Char) (cs : List Char) : Token × List Char :=
  if c = '[' then (.openArr, cs)
  else if c = ']' then (.closeArr, cs)
  else if c = '\x7b' then (.openObj, cs)
  else if c = '\x7d' then (.closeObj, cs)
  else if c = ',' then (.comma, cs)
  else if c = ':' then (.colon, cs)
  else if c = '"' then stringToken skim cs
  else if c = 'n' then wordToken ['u', 'l', 'l'] null cs
  else if c = 't' then wordToken ['r', 'u', 'e'] (bool true) cs
  else if c = 'f' then wordToken ['a', 'l', 's', 'e'] (bool false) cs
  else if c = '-' then numberToken skim true cs
  else if c.isDigit then numberToken skim false (c :: cs)
  else (.bad, cs)

theorem length_numberToken_le (skim negative : Bool) (cs : List Char) :
    (numberToken skim negative cs).2.length ≤ (cs.dropWhile Char.isDigit).length :=
  length_scanNumber_le negative cs

theorem length_wordToken_le (letters : List Char) (value : Json) (cs : List Char) :
    (wordToken letters value cs).2.length ≤ cs.length := by
  have word {rest} := @length_of_dropWord? letters cs rest
  grind [wordToken]

theorem length_stringToken_le (skim : Bool) (cs : List Char) :
    (stringToken skim cs).2.length ≤ cs.length := by
  have string {s rest} := @length_of_scanString [] cs s rest
  have skipped {rest} := @length_of_skipString cs rest
  grind [stringToken]

theorem length_ite_le {p : Prop} [Decidable p] {a b : Token × List Char} {n : Nat}
    (ha : p → a.2.length ≤ n) (hb : b.2.length ≤ n) :
    (if p then a else b).2.length ≤ n := by
  by_cases h : p <;> simp [h, ha, hb]

theorem length_scanFrom_le (skim : Bool) (c : Char) (cs : List Char) :
    (scanFrom skim c cs).2.length ≤ cs.length := by
  have drop := length_dropWhile_le Char.isDigit cs
  have digits := length_numberToken_le skim false (c :: cs)
  have same (t : Token) : (t, cs).2.length ≤ cs.length := Nat.le_refl _
  have word letters value := length_wordToken_le letters value cs
  unfold scanFrom
  iterate 6 refine length_ite_le (fun _ => same _) ?_
  refine length_ite_le (fun _ => length_stringToken_le skim cs) ?_
  iterate 3 refine length_ite_le (fun _ => word _ _) ?_
  refine length_ite_le (fun _ => Nat.le_trans (length_numberToken_le skim true cs) drop) ?_
  refine length_ite_le (fun h => ?_) (same _)
  rw [List.dropWhile_cons_of_pos h] at digits
  exact Nat.le_trans digits drop

end Statechart.Json
