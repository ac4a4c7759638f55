import Statechart.Double.Decimal
import Statechart.Json.Token

/-!
# What plain scalars stand for

A plain scalar is read as what is expected of it. Where anything is expected, some words stand for
an absent value or for truth values, and what looks like a number is one.
-/
namespace Statechart.Yaml

/-- Whether a plain scalar is a word for an absent value. -/
def isNullWord (s : String) : Bool := ["~", "null", "Null", "NULL"].contains s

def isBoolWord (s : String) : Bool :=
  ["true", "True", "TRUE", "false", "False", "FALSE"].contains s

/-- The number that a nonempty run of digits denotes in a base up to sixteen. -/
def digits? (base : Nat) (cs : List Char) : Option Nat := do
  let digits ← cs.mapM Json.hexDigit?
  if digits ≠ [] ∧ digits.all (· < base) then
    some (digits.foldl (fun n d => base * n + d) 0)
  else none

/-- The bases that a number may name after a zero. -/
def bases : List (Char × Nat) := [('x', 16), ('o', 8), ('b', 2)]

/-- Digits that begin with a needless zero are not a number. -/
def padded (cs : List Char) : Bool :=
  match cs with
  | '0' :: c :: rest => (c :: rest).all Char.isDigit
  | _ => false

/-- The natural number that digits denote, in the base that they name or else in base ten. -/
def natural? (cs : List Char) : Option Nat :=
  match cs with
  | '0' :: b :: rest =>
    match bases.lookup b with
    | some base => digits? base rest
    | none => if padded cs then none else digits? 10 cs
  | _ => digits? 10 cs

/-- The natural number of 64 bits that a plain scalar denotes. -/
def unsigned? (s : String) : Option Nat :=
  let digits := match s.toList with
    | '+' :: rest => rest
    | cs => cs
  (natural? digits).filter (· < 0x10000000000000000)

/-- Splits off a sign. -/
def dropSign : List Char → List Char
  | '+' :: rest | '-' :: rest => rest
  | cs => cs

/-- The decimal that an unsigned number with a point or an exponent denotes. -/
def decimal? (cs : List Char) : Option Decimal := do
  let whole := cs.takeWhile Char.isDigit
  let rest := cs.dropWhile Char.isDigit
  let (fraction, rest) := match rest with
    | '.' :: rest => (rest.takeWhile Char.isDigit, rest.dropWhile Char.isDigit)
    | _ => ([], rest)
  let digits ← Text.digitsToNat? (whole ++ fraction)
  let places : Int := fraction.length
  match rest with
  | [] => some ⟨digits, -places⟩
  | e :: rest =>
    if e = 'e' ∨ e = 'E' then
      let exponent ← Text.digitsToNat? (dropSign rest)
      let exponent : Int := if rest.head? = some '-' then -exponent else exponent
      some ⟨digits, exponent - places⟩
    else none

/-- The largest magnitude of a whole number of 128 bits. -/
def largestMagnitude (negative : Bool) : Nat :=
  if negative then 0x80000000000000000000000000000000 else 0xffffffffffffffffffffffffffffffff

/-- Whether a plain scalar looks like a number: a whole number of 128 bits, digits that begin with a
needless zero, a number that is nearest to a finite double, or a word for one that is not. -/
def looksNumeric (s : String) : Bool :=
  let cs := dropSign s.toList
  let special := [".inf", ".Inf", ".INF"].contains (String.ofList cs) ||
    [".nan", ".NaN", ".NAN"].contains s
  let whole := (natural? cs).any (· ≤ largestMagnitude (s.toList.head? = some '-'))
  let finite := ((decimal? cs).bind (Decimal.toDouble? false)).isSome
  special || padded cs || whole || finite

/-- Whether a plain scalar is read as a text where anything is expected. -/
def readsAsText (s : String) : Bool :=
  s ≠ "" && !isNullWord s && !isBoolWord s && !looksNumeric s

end Statechart.Yaml
