import Statechart.Proofs.Expr.Lexeme

/-!
# The grammar of expressions

A level is what the grammar calls a kind of expression, from loose to tight. An operator joins two
operands at its level; the right one is of the next level, the left one of the same level, so that
chains group to the left, except that a comparison does not go on. A sentence is a text that is
made of lexemes with blanks before and after them, where the lexemes derive a tree at the loosest
level.
-/
namespace Statechart.Expr

open Text

inductive Level where
  | disjunction
  | conjunction
  | unary
  | comparison
  | sum
  | product
  | negation
  | primary

namespace Level

/-- The next level; there is none below the primaries. -/
def tighter : Level → Level
  | disjunction => conjunction
  | conjunction => unary
  | unary => comparison
  | comparison => sum
  | sum => product
  | product => negation
  | negation | primary => primary

def rank : Level → Nat
  | disjunction => 0
  | conjunction => 1
  | unary => 2
  | comparison => 3
  | sum => 4
  | product => 5
  | negation => 6
  | primary => 7

/-- The level of a left operand: only comparisons do not go on. -/
def left : Level → Level
  | comparison => sum
  | l => l

/-- The operators that join two operands at a level. -/
def operators : Level → List Operator
  | disjunction => orOperators
  | conjunction => andOperators
  | comparison => comparisons
  | sum => sumOperators
  | product => productOperators
  | unary | negation | primary => []

/-- Whether operands are joined again and again at a level. -/
def chains : Level → Bool
  | disjunction | conjunction | sum | product => true
  | unary | comparison | negation | primary => false

theorem rank_le_tighter (l : Level) : l.rank ≤ l.tighter.rank := by cases l <;> decide

theorem left_of_chains {l : Level} (h : l.chains = true) : l.left = l := by
  cases l <;> first | rfl | cases h

end Level

/-- A token joins two operands at a level. -/
inductive Joins : Level → Token → (Expr → Expr → Expr) → Prop where
  | or : Joins .disjunction .or Expr.or
  | and : Joins .conjunction .and Expr.and
  | comparison {op} (h : op = .eq ∨ op = .ne ∨ op = .ge ∨ op = .le ∨ op = .gt ∨ op = .lt) :
    Joins .comparison (.operator op) (binary op)
  | sum {op} (h : op = .add ∨ op = .sub) : Joins .sum (.operator op) (binary op)
  | product {op} (h : op = .mul ∨ op = .div ∨ op = .rem) :
    Joins .product (.operator op) (binary op)

/-- Tokens derive a tree at a level. -/
inductive Derives : Level → List Token → Expr → Prop where
  | tighter {l ts e} (hl : l ≠ .primary) (h : Derives l.tighter ts e) : Derives l ts e
  | join {l t build a b x y} (ht : Joins l t build) (ha : Derives l.left a x)
    (hb : Derives l.tighter b y) : Derives l (a ++ t :: b) (build x y)
  | not {ts e} (h : Derives .unary ts e) : Derives .unary (.not :: ts) (.not e)
  /-- A minus sign before a number literal is folded into it. -/
  | neg {ts e} (h : Derives .negation ts e) : Derives .negation (.operator .sub :: ts) (negated e)
  | atom {e} : Derives .primary [.atom e] e
  | group {ts e} (h : Derives .disjunction ts e) :
    Derives .primary (.opening :: (ts ++ [.closing])) e

/-- Tokens are what a text begins with, blanks before each of them apart. -/
inductive Scans : List Char → List Token → List Char → Prop where
  | nil {cs} : Scans cs [] cs
  | cons {cs t text mid ts after} (hcs : dropBlank cs = text ++ mid) (ht : Lexeme t text mid)
    (hts : Scans mid ts after) : Scans cs (t :: ts) after

/-- A whole text is an expression with a tree. -/
def Sentence (cs : List Char) (e : Expr) : Prop :=
  ∃ ts after, Scans cs ts after ∧ dropBlank after = [] ∧ Derives .disjunction ts e

variable {l : Level} {t : Token} {ts a b : List Token} {cs mid after text : List Char}
  {build : Expr → Expr → Expr} {e x y : Expr}

theorem scans_append : Scans cs (a ++ b) after ↔ ∃ mid, Scans cs a mid ∧ Scans mid b after := by
  induction a generalizing cs with
  | nil =>
      constructor
      · exact fun h => ⟨cs, .nil, h⟩
      · rintro ⟨_, ⟨⟩, h⟩
        exact h
  | cons t a ih =>
      constructor
      · rintro (_ | ⟨hcs, ht, hts⟩)
        obtain ⟨mid, ha, hb⟩ := ih.mp hts
        exact ⟨mid, .cons hcs ht ha, hb⟩
      · rintro ⟨mid, _ | ⟨hcs, ht, hts⟩, hb⟩
        exact .cons hcs ht (ih.mpr ⟨mid, hts, hb⟩)

theorem Scans.single (hcs : dropBlank cs = text ++ mid) (ht : Lexeme t text mid) :
    Scans cs [t] mid := .cons hcs ht .nil

/-- A list of operators finds the first whose symbol begins the text. -/
theorem match?_cons_eq_some {o o' : Operator} {ops : List Operator} :
    Operator.match? (o :: ops) cs = some (o', mid) ↔
      (o = o' ∧ dropWord? (o.first :: o.more) cs = some mid) ∨
        (dropWord? (o.first :: o.more) cs = none ∧ Operator.match? ops cs = some (o', mid)) := by
  rw [Operator.match?]
  cases dropWord? (o.first :: o.more) cs <;> simp

theorem dropWord?_single_eq_none_iff {c : Char} {cs : List Char} :
    dropWord? [c] cs = none ↔ cs.head? ≠ some c := by
  cases cs with
  | nil => simp [dropWord?]
  | cons d cs => by_cases h : c = d <;> simp [dropWord?, h, eq_comm]

/-- The operators of a level find every token that joins at it. -/
theorem match?_of_joins (ht : Joins l t build) (h : Lexeme t text mid) :
    ∃ o, Operator.match? l.operators (text ++ mid) = some (o, mid) ∧ o.build = build := by
  cases ht with
  | or | and =>
      cases h
      exact ⟨_, rfl, rfl⟩
  | comparison hop =>
      cases h with
      | operator hlone =>
          rcases hop with rfl | rfl | rfl | rfl | rfl | rfl
          · exact ⟨_, rfl, rfl⟩
          · exact ⟨_, rfl, rfl⟩
          · exact ⟨_, rfl, rfl⟩
          · exact ⟨_, rfl, rfl⟩
          -- an angle bracket alone does not begin the longer symbol
          · have hshort := dropWord?_single_eq_none_iff.mpr (hlone (.inl rfl))
            exact ⟨.ofBinary .gt, by simp [Level.operators, comparisons, Operator.match?, dropWord?,
              Operator.ofBinary, BinaryOp.symbol, hshort], rfl⟩
          · have hshort := dropWord?_single_eq_none_iff.mpr (hlone (.inr rfl))
            exact ⟨.ofBinary .lt, by simp [Level.operators, comparisons, Operator.match?, dropWord?,
              Operator.ofBinary, BinaryOp.symbol, hshort], rfl⟩
  | sum hop =>
      cases h
      rcases hop with rfl | rfl <;> exact ⟨_, rfl, rfl⟩
  | product hop =>
      cases h
      rcases hop with rfl | rfl | rfl <;> exact ⟨_, rfl, rfl⟩

/-- The operators of other levels do not find it. -/
theorem match?_of_joins_ne {l' : Level} (ht : Joins l t build) (h : Lexeme t text mid)
    (hl : l' ≠ l) : Operator.match? l'.operators (text ++ mid) = none := by
  cases ht with
  | or | and =>
      cases h
      cases l' <;> first | rfl | exact absurd rfl hl
  | comparison hop =>
      cases h
      rcases hop with rfl | rfl | rfl | rfl | rfl | rfl <;> cases l' <;>
        first | rfl | exact absurd rfl hl
  | sum hop =>
      cases h
      rcases hop with rfl | rfl <;> cases l' <;> first | rfl | exact absurd rfl hl
  | product hop =>
      cases h
      rcases hop with rfl | rfl | rfl <;> cases l' <;> first | rfl | exact absurd rfl hl

/-- What the operators of a level find is a token that joins at it. -/
theorem joins_of_match? {o : Operator} (h : Operator.match? l.operators cs = some (o, mid)) :
    ∃ t text, cs = text ++ mid ∧ Lexeme t text mid ∧ Joins l t o.build := by
  have hnil : Operator.match? [] cs ≠ some (o, mid) := nofun
  cases l with
  | disjunction =>
      simp only [Level.operators, orOperators, match?_cons_eq_some, dropWord?_eq_some_iff, hnil,
        and_false, or_false] at h
      obtain ⟨rfl, rfl⟩ := h
      exact ⟨_, _, rfl, .or, .or⟩
  | conjunction =>
      simp only [Level.operators, andOperators, match?_cons_eq_some, dropWord?_eq_some_iff, hnil,
        and_false, or_false] at h
      obtain ⟨rfl, rfl⟩ := h
      exact ⟨_, _, rfl, .and, .and⟩
  | comparison =>
      simp only [Level.operators, comparisons, match?_cons_eq_some, dropWord?_eq_some_iff, hnil,
        and_false, or_false] at h
      have hlone {op : BinaryOp} (h : op ≠ .gt ∧ op ≠ .lt) : op = .gt ∨ op = .lt →
          mid.head? ≠ some '=' := fun hor => absurd hor (by simp [h])
      obtain ⟨rfl, rfl⟩ | ⟨-, ⟨rfl, rfl⟩ | ⟨-, ⟨rfl, rfl⟩ | ⟨hge, ⟨rfl, rfl⟩ | ⟨hle, ⟨rfl, rfl⟩ |
        ⟨-, rfl, rfl⟩⟩⟩⟩⟩ := h
      · exact ⟨_, _, rfl, .operator (hlone (by decide)), .comparison (by decide)⟩
      · exact ⟨_, _, rfl, .operator (hlone (by decide)), .comparison (by decide)⟩
      · exact ⟨_, _, rfl, .operator (hlone (by decide)), .comparison (by decide)⟩
      · exact ⟨_, _, rfl, .operator (hlone (by decide)), .comparison (by decide)⟩
      -- the longer symbol has been tried before the angle bracket alone
      · exact ⟨_, _, rfl, .operator fun _ => dropWord?_single_eq_none_iff.mp hge,
          .comparison (by decide)⟩
      · exact ⟨_, _, rfl, .operator fun _ => dropWord?_single_eq_none_iff.mp hle,
          .comparison (by decide)⟩
  | sum =>
      simp only [Level.operators, sumOperators, match?_cons_eq_some, dropWord?_eq_some_iff, hnil,
        and_false, or_false] at h
      obtain ⟨rfl, rfl⟩ | ⟨-, rfl, rfl⟩ := h
      · exact ⟨_, _, rfl, .operator (by simp), .sum (by decide)⟩
      · exact ⟨_, _, rfl, .operator (by simp), .sum (by decide)⟩
  | product =>
      simp only [Level.operators, productOperators, match?_cons_eq_some, dropWord?_eq_some_iff,
        hnil, and_false, or_false] at h
      obtain ⟨rfl, rfl⟩ | ⟨-, ⟨rfl, rfl⟩ | ⟨-, rfl, rfl⟩⟩ := h
      · exact ⟨_, _, rfl, .operator (by simp), .product (by decide)⟩
      · exact ⟨_, _, rfl, .operator (by simp), .product (by decide)⟩
      · exact ⟨_, _, rfl, .operator (by simp), .product (by decide)⟩
  | unary | negation | primary => exact absurd h hnil

/-- What follows a first operand in a chain: tokens that join, and the operands on their right. -/
inductive Chain (l : Level) : Expr → List Token → Expr → Prop where
  | nil {x : Expr} : Chain l x [] x
  | cons {x y e : Expr} {t : Token} {b ts : List Token} {build : Expr → Expr → Expr}
    (ht : Joins l t build) (hb : Derives l.tighter b y) (hts : Chain l (build x y) ts e) :
    Chain l x (t :: (b ++ ts)) e

theorem Chain.concat (h : Chain l x ts e) (ht : Joins l t build) (hb : Derives l.tighter b y) :
    Chain l x (ts ++ t :: b) (build e y) := by
  induction h with
  | nil => simpa using Chain.cons ht hb .nil
  | cons ht' hb' _ ih => simpa using Chain.cons ht' hb' ih

theorem Chain.derives (hl : l.chains = true) (h : Chain l x b e) (ha : Derives l a x) :
    Derives l (a ++ b) e := by
  induction h generalizing a with
  | nil => simpa using ha
  | cons ht hb _ ih =>
      have hjoined := Derives.join ht ((Level.left_of_chains hl).symm ▸ ha) hb
      simpa using ih hjoined

/-- A level that chains derives a first operand and what follows it. -/
theorem derives_iff_chain (hl : l.chains = true) : Derives l ts e ↔
    ∃ a x b, ts = a ++ b ∧ Derives l.tighter a x ∧ Chain l x b e := by
  constructor
  · intro h
    induction h with
    | @tighter l ts e _ h _ => exact ⟨ts, e, [], by simp, h, .nil⟩
    | @join l t build a b x y ht _ hb iha _ =>
        rw [Level.left_of_chains hl] at iha
        obtain ⟨first, z, rest, rfl, hfirst, hrest⟩ := iha hl
        exact ⟨first, z, rest ++ t :: b, by simp, hfirst, hrest.concat ht hb⟩
    | not | neg | atom | group => cases hl
  · rintro ⟨a, x, b, rfl, ha, hb⟩
    exact hb.derives hl (.tighter (by rintro rfl; cases hl) ha)

theorem derives_comparison_iff : Derives .comparison ts e ↔ Derives .sum ts e ∨
    ∃ a t b build x y, ts = a ++ t :: b ∧ Joins .comparison t build ∧ Derives .sum a x ∧
      Derives .sum b y ∧ e = build x y := by
  constructor
  · rintro (⟨-, h⟩ | ⟨ht, ha, hb⟩)
    · exact .inl h
    · exact .inr ⟨_, _, _, _, _, _, rfl, ht, ha, hb, rfl⟩
  · rintro (h | ⟨a, t, b, build, x, y, rfl, ht, ha, hb, rfl⟩)
    · exact .tighter nofun h
    · exact .join ht ha hb

theorem derives_unary_iff : Derives .unary ts e ↔ Derives .comparison ts e ∨
    ∃ rest x, ts = .not :: rest ∧ Derives .unary rest x ∧ e = .not x := by
  constructor
  · rintro (⟨-, h⟩ | ⟨⟨⟩, _, _⟩ | h)
    · exact .inl h
    · exact .inr ⟨_, _, rfl, h, rfl⟩
  · rintro (h | ⟨rest, x, rfl, h, rfl⟩)
    · exact .tighter nofun h
    · exact .not h

theorem derives_negation_iff : Derives .negation ts e ↔ Derives .primary ts e ∨
    ∃ rest x, ts = .operator .sub :: rest ∧ Derives .negation rest x ∧ e = negated x := by
  constructor
  · rintro (⟨-, h⟩ | ⟨⟨⟩, _, _⟩ | _ | h)
    · exact .inl h
    · exact .inr ⟨_, _, rfl, h, rfl⟩
  · rintro (h | ⟨rest, x, rfl, h, rfl⟩)
    · exact .tighter nofun h
    · exact .neg h

theorem derives_primary_iff : Derives .primary ts e ↔ ts = [.atom e] ∨
    ∃ inside, ts = .opening :: (inside ++ [.closing]) ∧ Derives .disjunction inside e := by
  constructor
  · rintro (⟨hne, _⟩ | ⟨⟨⟩, _, _⟩ | _ | _ | _ | h)
    · exact absurd rfl hne
    · exact .inl rfl
    · exact .inr ⟨_, rfl, h⟩
  · rintro (rfl | ⟨inside, rfl, h⟩)
    · exact .atom
    · exact .group h

/-- A derivation begins with a parenthesis, an operand, a minus sign or an exclamation mark; the
last two only at the levels that read them. -/
theorem Derives.head (h : Derives l ts e) : ∃ t rest, ts = t :: rest ∧
    (t = .opening ∨ (∃ x, t = .atom x) ∨ (t = .operator .sub ∧ l.rank ≤ Level.negation.rank) ∨
      (t = .not ∧ l.rank ≤ Level.unary.rank)) := by
  induction h with
  | @tighter l ts e _ _ ih =>
      obtain ⟨t, rest, rfl, hhead⟩ := ih
      have hrank := l.rank_le_tighter
      exact ⟨t, rest, rfl,
        hhead.imp id (.imp id (.imp (.imp id hrank.trans) (.imp id hrank.trans)))⟩
  | @join l t build a b x y ht _ _ iha _ =>
      obtain ⟨u, rest, rfl, hhead⟩ := iha
      have hrank : l.rank ≤ l.left.rank := by cases l <;> decide
      exact ⟨u, rest ++ t :: b, rfl,
        hhead.imp id (.imp id (.imp (.imp id hrank.trans) (.imp id hrank.trans)))⟩
  | not => exact ⟨_, _, rfl, .inr (.inr (.inr ⟨rfl, le_rfl⟩))⟩
  | neg => exact ⟨_, _, rfl, .inr (.inr (.inl ⟨rfl, le_rfl⟩))⟩
  | atom => exact ⟨_, _, rfl, .inr (.inl ⟨_, rfl⟩)⟩
  | group => exact ⟨_, _, rfl, .inl rfl⟩

end Statechart.Expr
