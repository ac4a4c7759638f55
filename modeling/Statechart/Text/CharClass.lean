import Statechart.Text.Alphabetic
import Statechart.Text.Cased
import Statechart.Text.Numeric
import Statechart.Text.LowerTable

/-!
# Classes of characters

Whitespace, letters and digits are those of Unicode. ASCII characters are decided without the
tables.
-/
namespace Statechart.Text

/-- Whether a code point lies in one of the ranges. -/
def inRanges (ranges : List (Nat × Nat)) (n : Nat) : Bool :=
  ranges.any fun (low, high) => low ≤ n && n ≤ high

/-- The Unicode property White_Space. -/
def isBlank (c : Char) : Bool :=
  inRanges [(9, 13), (32, 32), (133, 133), (160, 160), (5760, 5760), (8192, 8202), (8232, 8233),
    (8239, 8239), (8287, 8287), (12288, 12288)] c.toNat

def isAlphabetic (c : Char) : Bool :=
  if c.toNat < 128 then c.isAlpha else inRanges alphabeticRanges c.toNat

def isNumeric (c : Char) : Bool :=
  if c.toNat < 128 then c.isDigit else inRanges numericRanges c.toNat

def isAlphanumeric (c : Char) : Bool := isAlphabetic c || isNumeric c

/-- The lower-case form of a character. Only the dotted capital I has two characters. -/
def lowerChar (c : Char) : List Char :=
  let n := c.toNat
  if n < 128 then [c.toLower]
  else if n = 304 then ['i', Char.ofNat 775]
  else
    match lowerRuns.find? fun (first, last, step, _) =>
        first ≤ n && n ≤ last && (n - first) % step == 0 with
    | some (_, _, _, distance) => [Char.ofNat ((n : Int) + distance).toNat]
    | none => [c]

/-- The Unicode property Cased. -/
def isCased (c : Char) : Bool :=
  if c.toNat < 128 then c.isAlpha else inRanges casedRanges c.toNat

/-- The Unicode property Case_Ignorable. -/
def isCaseIgnorable (c : Char) : Bool :=
  if c.toNat < 128 then ['\'', '.', ':', '^', '`'].contains c
  else inRanges caseIgnorableRanges c.toNat

/-- Whether the first character that case does not pass over is a letter with case. -/
def meetsCased (cs : List Char) : Bool :=
  match cs.dropWhile isCaseIgnorable with
  | [] => false
  | c :: _ => isCased c

/-- The lower-case form of characters that follow others, given last one first. A sigma that ends
a word has a form of its own. -/
def lowerChars (before : List Char) : List Char → List Char
  | [] => []
  | c :: cs =>
    let form := if c = 'Σ' && meetsCased before && !meetsCased cs then ['ς'] else lowerChar c
    form ++ lowerChars (c :: before) cs

def lower (s : String) : String := String.ofList (lowerChars [] s.toList)

def dropBlank (cs : List Char) : List Char := cs.dropWhile isBlank

/-- Drops the whitespace at both ends. -/
def trimChars (cs : List Char) : List Char :=
  ((dropBlank cs).reverse.dropWhile isBlank).reverse

def trim (s : String) : String := String.ofList (trimChars s.toList)

theorem length_dropWhile_le (p : Char → Bool) (cs : List Char) :
    (cs.dropWhile p).length ≤ cs.length :=
  (List.dropWhile_suffix p).length_le

theorem length_dropBlank_le (cs : List Char) : (dropBlank cs).length ≤ cs.length :=
  length_dropWhile_le isBlank cs

theorem dropWhile_dropWhile (p : Char → Bool) (cs : List Char) :
    (cs.dropWhile p).dropWhile p = cs.dropWhile p := by
  induction cs with
  | nil => rfl
  | cons c cs ih => by_cases h : p c <;> simp [h, ih]

theorem dropBlank_dropBlank (cs : List Char) : dropBlank (dropBlank cs) = dropBlank cs :=
  dropWhile_dropWhile isBlank cs

/-- Dropping from the end keeps a beginning that is already without blanks. -/
theorem dropBlank_of_prefix {cs ds : List Char} (h : ds <+: cs) (hc : dropBlank cs = cs) :
    dropBlank ds = ds := by
  cases ds with
  | nil => rfl
  | cons d ds =>
    obtain ⟨t, rfl⟩ := h
    by_cases hb : isBlank d
    · have := congrArg List.length hc
      have hle := length_dropBlank_le (ds ++ t)
      simp [dropBlank, hb] at this hle
      omega
    · simp [dropBlank, hb]

theorem trimChars_trimChars (cs : List Char) : trimChars (trimChars cs) = trimChars cs := by
  have hp : trimChars cs <+: dropBlank cs := by
    rw [trimChars, ← List.reverse_suffix, List.reverse_reverse]
    exact List.dropWhile_suffix isBlank
  have hd : dropBlank (trimChars cs) = trimChars cs :=
    dropBlank_of_prefix hp (dropBlank_dropBlank cs)
  rw [trimChars, hd, trimChars, List.reverse_reverse, dropWhile_dropWhile]

/-- The rest of a text after a word that it starts with. -/
def dropWord? : List Char → List Char → Option (List Char)
  | [], cs => some cs
  | _ :: _, [] => none
  | w :: ws, c :: cs => if w = c then dropWord? ws cs else none

theorem length_of_dropWord? {word cs rest : List Char} (h : dropWord? word cs = some rest) :
    rest.length + word.length = cs.length := by
  fun_induction dropWord? word cs <;> grind

/-- Splits at the first character of a class, which is dropped. -/
def splitAtFirst (p : Char → Bool) (cs : List Char) : Option (List Char × List Char) :=
  match cs.dropWhile (!p ·) with
  | [] => none
  | _ :: rest => some (cs.takeWhile (!p ·), rest)

/-- The pieces between the occurrences of a character. -/
def splitOn (sep : Char) : List Char → List (List Char)
  | [] => [[]]
  | c :: cs =>
    if c = sep then [] :: splitOn sep cs
    else
      match splitOn sep cs with
      | [] => [[c]]
      | piece :: pieces => (c :: piece) :: pieces

theorem splitOn_ne_nil (sep : Char) (cs : List Char) : splitOn sep cs ≠ [] := by
  cases cs with
  | nil => simp [splitOn]
  | cons c cs =>
    unfold splitOn
    split
    · simp
    · split <;> simp

/-- The natural number that a nonempty run of ASCII digits denotes. -/
def digitsToNat? (cs : List Char) : Option Nat :=
  if cs ≠ [] ∧ cs.all Char.isDigit then
    some (Nat.ofDigitChars 10 cs 0)
  else
    none

/-- A natural number of 64 bits, written in ASCII digits after an optional plus sign. -/
def word? (s : String) : Option Nat :=
  let digits := match s.toList with
    | '+' :: rest => rest
    | cs => cs
  (digitsToNat? digits).filter (· < 0x10000000000000000)

/-- The length in bytes of the UTF-8 form. -/
def byteLength : List Char → Nat
  | [] => 0
  | c :: cs => c.utf8Size + byteLength cs

end Statechart.Text
