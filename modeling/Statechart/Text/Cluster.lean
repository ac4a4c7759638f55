import Statechart.Text.Attached
import Statechart.Text.CharClass

/-!
# Clusters of characters

What is seen as one character may be written as several: a letter and its marks, the parts of a
Hangul syllable, the two letters of a flag, pictographs that are joined. A backspace takes away such
a cluster.
-/
namespace Statechart.Text

/-- Whether a character controls the text and belongs to no other. -/
def isControl (c : Char) : Bool :=
  if c.toNat < 128 then c.toNat < 32 || c.toNat = 127 else inRanges controlRanges c.toNat

/-- Whether a character belongs to the one before it. -/
def isAttached (c : Char) : Bool := 128 ≤ c.toNat && inRanges attachedRanges c.toNat

/-- Whether a character belongs to the one after it. -/
def isLeading (c : Char) : Bool := 128 ≤ c.toNat && inRanges leadingRanges c.toNat

def isPictograph (c : Char) : Bool := 128 ≤ c.toNat && inRanges pictographRanges c.toNat

/-- Whether a character is one of the letters of which two are a flag. -/
def isFlagLetter (c : Char) : Bool := inRanges [(0x1f1e6, 0x1f1ff)] c.toNat

/-- The character that joins pictographs. -/
def joiner : Char := Char.ofNat 0x200d

/-- The part of a Hangul syllable with which a character begins or ends. -/
inductive SyllablePart where
  | initial
  | vowel
  | final
  deriving DecidableEq

/-- The first and the last part of a character of Hangul. A syllable without a final part comes
every twenty-eight code points. -/
def syllableParts? (c : Char) : Option (SyllablePart × SyllablePart) :=
  let n := c.toNat
  if inRanges [(0x1100, 0x115f), (0xa960, 0xa97c)] n then some (.initial, .initial)
  else if inRanges [(0x1160, 0x11a7), (0xd7b0, 0xd7c6)] n then some (.vowel, .vowel)
  else if inRanges [(0x11a8, 0x11ff), (0xd7cb, 0xd7fb)] n then some (.final, .final)
  else if inRanges [(0xac00, 0xd7a3)] n then
    some (.initial, if (n - 0xac00) % 28 = 0 then .vowel else .final)
  else none

/-- Whether one part of a syllable may follow another one. -/
def SyllablePart.mayFollow : SyllablePart → SyllablePart → Bool
  | .initial, before => before = .initial
  | .vowel, before => before ≠ .final
  | .final, before => before ≠ .initial

/-- Whether two characters of Hangul belong to one syllable. -/
def sameSyllable (before c : Char) : Bool :=
  match syllableParts? before, syllableParts? c with
  | some (_, last), some (first, _) => first.mayFollow last
  | _, _ => false

/-- Whether a character belongs to a cluster, given last character first. -/
def continuesCluster (c : Char) : List Char → Bool
  | [] => false
  | last :: earlier =>
    if isControl last || isControl c then last = '\r' && c = '\n'
    else if isAttached c || isLeading last || sameSyllable last c then true
    else if isPictograph c then
      last = joiner && (earlier.dropWhile isAttached).head?.any isPictograph
    else isFlagLetter c && isFlagLetter last && !earlier.head?.any isFlagLetter

/-- Adds a character to clusters, which are given last one first, as are their characters. -/
def addToClusters (done : List (List Char)) (c : Char) : List (List Char) :=
  match done with
  | [] => [[c]]
  | cluster :: earlier =>
    if continuesCluster c cluster then (c :: cluster) :: earlier else [c] :: done

/-- The clusters of a text. -/
def clusters (cs : List Char) : List (List Char) :=
  ((cs.foldl addToClusters []).map List.reverse).reverse

theorem flatten_addToClusters (done : List (List Char)) (c : Char) :
    ((addToClusters done c).map List.reverse).reverse.flatten =
      (done.map List.reverse).reverse.flatten ++ [c] := by
  cases done with
  | nil => rfl
  | cons cluster earlier =>
    cases h : continuesCluster c cluster <;> simp [addToClusters, h]

/-- Nothing of a text is lost in its clusters. -/
theorem flatten_clusters (cs : List Char) : (clusters cs).flatten = cs := by
  suffices h : ∀ done, ((cs.foldl addToClusters done).map List.reverse).reverse.flatten =
      (done.map List.reverse).reverse.flatten ++ cs from h []
  induction cs with
  | nil => simp
  | cons c cs ih =>
    intro done
    rw [List.foldl_cons, ih, flatten_addToClusters, List.append_assoc, List.singleton_append]

/-- What is left of a text when each backspace takes away the cluster before it. -/
def applyBackspaces (cs : List Char) : List Char :=
  ((clusters cs).foldl (fun kept cluster =>
    if cluster = ['\x08'] then kept.drop 1 else cluster :: kept) []).reverse.flatten

end Statechart.Text
