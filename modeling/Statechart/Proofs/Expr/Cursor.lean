import Statechart.Proofs.Expr.Grammar

/-!
# The reader with a cursor

The readers of the levels hand on what is left of a text. Here the same is read with a cursor, which
counts the bytes of the text before it. What lies ahead is looked at through slices of the text, and
there is no slice with an end inside a character. The procedures call each other, and the loops go
round, as long as the text ahead makes them. Fuel bounds both: a run that uses it up has no outcome,
and one that does not is the same with more of it. A run keeps every moment that it has been
through: where the cursor was, and which calls were under way.
-/
namespace Statechart.Expr

open Text

/-- What reads a part of an expression and may come to call itself. -/
inductive Procedure where
  | expression
  | level (l : Level)

/-- A procedure calls others of a higher rank, and any of them once the cursor has moved on. -/
def Procedure.rank : Procedure → Nat
  | expression => 0
  | level l => l.rank + 1

/-- A procedure that has been called, and where the cursor was then. -/
structure Call where
  procedure : Procedure
  position : Nat

/-- Where the cursor is, and the calls that are under way, the innermost first. -/
structure Moment where
  cursor : Nat
  calls : List Call

/-- How far a run has come. -/
structure Progress where
  past : List Moment
  now : Moment

namespace Progress

/-- Nothing has been read or called. -/
def start : Progress := ⟨[], ⟨0, []⟩⟩

/-- All moments, in order. -/
def moments (p : Progress) : List Moment := p.past ++ [p.now]

def next (p : Progress) (m : Moment) : Progress := ⟨p.moments, m⟩

end Progress

/-- Why a run ends without a result. -/
inductive Stop where
  /-- An end of a slice lies inside a character or beyond the text, or its ends are the wrong way
  round. -/
  | badSlice
  | refused (reason : ReadError)

/-- What is done with the cursor. The progress outlives a stop; `none` is a run out of fuel. -/
abbrev Pass := ExceptT Stop (StateT Progress Option)

/-- The bytes that the cursor moves over for each operator of a level. -/
def Level.widths : Level → List Nat
  | disjunction | conjunction => [2]
  | comparison => [2, 2, 2, 2, 1, 1]
  | sum => [1, 1]
  | product => [1, 1, 1]
  | unary | negation | primary => []

/-- The text from a byte on. -/
def textFrom? (text : String) (start : Nat) : Option (List Char) :=
  (text.pos? ⟨start⟩).map fun p => (text.sliceFrom p).copy.toList

/-- The text from a byte to another. -/
def textBetween? (text : String) (start stop : Nat) : Option (List Char) := do
  let p ← text.pos? ⟨start⟩
  let q ← text.pos? ⟨stop⟩
  let slice ← text.slice? p q
  return slice.copy.toList

/-- The characters of a text, each with the number of bytes before it. -/
def charIndices (offset : Nat) : List Char → List (Nat × Char)
  | [] => []
  | c :: cs => (offset, c) :: charIndices (offset + c.utf8Size) cs

/-- The characters of a string up to its closing quote, and the offset of the quote. -/
def closingQuote (done : List Char) : List (Nat × Char) → Option (List Char × Nat)
  | [] => none
  | (offset, '"') :: _ => some (done.reverse, offset)
  | [(_, '\\')] => none
  | (_, '\\') :: (_, c) :: cs => closingQuote (unescape c :: done) cs
  | (_, c) :: cs => closingQuote (c :: done) cs

namespace Pass

variable {α : Type}

def cursor : Pass Nat := return (← get).now.cursor

/-- Moves the cursor on by some bytes. -/
def advance (width : Nat) : Pass Unit :=
  modify fun p => p.next { p.now with cursor := p.now.cursor + width }

def enter (f : Procedure) : Pass Unit :=
  modify fun p => p.next { p.now with calls := ⟨f, p.now.cursor⟩ :: p.now.calls }

def leave : Pass Unit :=
  modify fun p => p.next { p.now with calls := p.now.calls.tail }

def refuse (reason : ReadError) : Pass α := throw (.refused reason)

def outOfFuel : Pass α := ExceptT.mk fun _ => none

def ofResult : Except ReadError α → Pass α
  | .ok a => pure a
  | .error reason => refuse reason

def ofSlice : Option α → Pass α
  | some a => pure a
  | none => throw .badSlice

variable (text : String)

/-- What lies ahead of the cursor. -/
def ahead : Pass (List Char) := do ofSlice (textFrom? text (← cursor))

/-- What the cursor has moved over since it was at a place. -/
def since (start : Nat) : Pass (List Char) := do ofSlice (textBetween? text start (← cursor))

def peek : Pass (Option Char) := return (← ahead text).head?

/-- Whether a word lies ahead. -/
def meets (word : List Char) : Pass Bool := return (dropWord? word (← ahead text)).isSome

/-- The first operator whose symbol lies ahead, and its width. -/
def findOperator : List (Operator × Nat) → Pass (Option (Operator × Nat))
  | [] => pure none
  | (op, width) :: ops => do
    if ← meets text (op.first :: op.more) then pure (some (op, width)) else findOperator ops

/-- Moves over characters of a class. -/
def skip (p : Char → Bool) : Nat → Pass Unit
  | 0 => outOfFuel
  | fuel + 1 => do
    match ← peek text with
    | some c =>
      if p c then do
        advance c.utf8Size
        skip p fuel
      else pure ()
    | none => pure ()

/-- Moves over digits, and a point unless there has been one. -/
def skipDigits (point : Bool) : Nat → Pass Unit
  | 0 => outOfFuel
  | fuel + 1 => do
    match ← peek text with
    | some c =>
      if c.isDigit then do
        advance 1
        skipDigits point fuel
      else if c = '.' ∧ point = false then do
        advance 1
        skipDigits true fuel
      else pure ()
    | none => pure ()

/-! ## Procedures -/

/-- Moves over something and reads what has been moved over. -/
def token (scan : Pass Unit) (read : List Char → Except ReadError Expr) : Pass Expr := do
  let start ← cursor
  scan
  ofResult (read (← since text start))

def word (fuel : Nat) : Pass Expr := token text (skip text isWordChar fuel) ofWord

def number (fuel : Nat) : Pass Expr := token text (skipDigits text false fuel) fun digits =>
  ofDigits (scanNumber digits).1 (scanNumber digits).2.1

def string : Pass Expr := do
  advance 1
  match closingQuote [] (charIndices 0 (← ahead text)) with
  | some (s, offset) => do
    advance (offset + 1)
    pure (literal (.str (String.ofList s)))
  | none => refuse .unterminatedString

section
variable (call : Procedure → Pass Expr)

/-- Goes on with operators of a level and operands after a first operand. -/
def chained (l : Level) : Nat → Expr → Pass Expr
  | 0, _ => outOfFuel
  | fuel + 1, left => do
    skip text isBlank fuel
    match ← findOperator text (l.operators.zip l.widths) with
    | none => pure left
    | some (op, width) => do
      advance width
      let right ← call (.level l.tighter)
      chained l fuel (op.build left right)

/-- What a procedure does, given how it calls others. -/
def body (fuel : Nat) : Procedure → Pass Expr
  | .expression => call (.level .disjunction)
  | .level .comparison => do
    let left ← call (.level .sum)
    skip text isBlank fuel
    match ← findOperator text (comparisons.zip Level.comparison.widths) with
    | none => pure left
    | some (op, width) => do
      advance width
      let right ← call (.level .sum)
      pure (op.build left right)
  | .level .unary => do
    skip text isBlank fuel
    let c ← peek text
    let unequal ← meets text ['!', '=']
    if c = some '!' ∧ unequal = false then do
      advance 1
      let e ← call (.level .unary)
      pure (not e)
    else call (.level .comparison)
  | .level .negation => do
    skip text isBlank fuel
    if (← peek text) = some '-' then do
      advance 1
      let e ← call (.level .negation)
      pure (negated e)
    else call (.level .primary)
  | .level .primary => do
    skip text isBlank fuel
    match ← peek text with
    | none => refuse .unexpectedEnd
    | some c =>
      if c = '(' then do
        advance 1
        let e ← call .expression
        skip text isBlank fuel
        if (← peek text) = some ')' then do
          advance 1
          pure e
        else refuse .unclosedParenthesis
      else if c = '"' then string text
      else if c.isDigit then number text fuel
      else if isWordStart c then word text fuel
      else refuse (.unexpectedCharacter c)
  | .level l => do
    let first ← call (.level l.tighter)
    chained text call l fuel first

end

/-- Calls a procedure and returns from it. -/
def call : Nat → Procedure → Pass Expr
  | 0, _ => outOfFuel
  | fuel + 1, f => do
    enter f
    let e ← body text (call fuel) fuel f
    leave
    pure e

/-- Reads a whole text that has been trimmed. -/
def whole (fuel : Nat) : Pass Expr := do
  if text.isEmpty then refuse .empty
  else do
    let e ← call text fuel .expression
    skip text isBlank fuel
    let position ← cursor
    if position < text.utf8ByteSize then do
      refuse (.unexpectedInput position (← ahead text))
    else pure e

end Pass

/-! ## Places in a text -/

variable {α β : Type} {text : String} {before inside after : List Char} {a : α} {p q : Progress}
  {m : Moment} {f : Procedure}

theorem utf8ByteSize_ofList (cs : List Char) :
    (String.ofList cs).utf8ByteSize = byteLength cs := by
  induction cs with
  | nil => simp [byteLength]
  | cons c cs ih => simp [String.ofList_cons, byteLength, ih]

theorem byteLength_append (cs ds : List Char) :
    byteLength (cs ++ ds) = byteLength cs + byteLength ds := by
  simp [← utf8ByteSize_ofList, String.ofList_append]

theorem isValid_of_split (h : text.toList = before ++ after) :
    (⟨byteLength before⟩ : String.Pos.Raw).IsValid text := by
  refine String.Pos.Raw.isValid_iff_exists_append.mpr
    ⟨String.ofList before, String.ofList after, ?_, ?_⟩
  · rw [← String.ofList_append, ← h, String.ofList_toList]
  · rw [String.rawEndPos, utf8ByteSize_ofList]

theorem pos?_of_split (h : text.toList = before ++ after) :
    ∃ p, text.pos? ⟨byteLength before⟩ = some p ∧
      p.Splits (String.ofList before) (String.ofList after) := by
  have hvalid := isValid_of_split h
  refine ⟨text.pos _ hvalid, by simp [String.pos?, String.pos, String.Slice.pos?, hvalid], ?_, ?_⟩
  · rw [← String.ofList_append, ← h, String.ofList_toList]
  · rw [String.offset_pos, String.rawEndPos, utf8ByteSize_ofList]

theorem textFrom?_of_split (h : text.toList = before ++ after) :
    textFrom? text (byteLength before) = some after := by
  obtain ⟨p, hp, hsplits⟩ := pos?_of_split h
  rw [textFrom?, hp, Option.map_some, hsplits.copy_sliceFrom_eq, String.toList_ofList]

theorem textBetween?_of_split (h : text.toList = before ++ (inside ++ after)) :
    textBetween? text (byteLength before) (byteLength (before ++ inside)) = some inside := by
  obtain ⟨p, hp, hpsplits⟩ := pos?_of_split h
  obtain ⟨q, hq, hqsplits⟩ := pos?_of_split (h.trans (List.append_assoc ..).symm)
  rw [String.ofList_append] at hpsplits hqsplits
  obtain ⟨hle, hcopy⟩ := String.copy_slice_eq_iff_splits.mpr ⟨_, _, hpsplits, hqsplits⟩
  simp [textBetween?, hp, hq, String.slice?, hle, hcopy]

namespace Moment

/-- A text lies ahead of the cursor. -/
def At (text : String) (m : Moment) (after : List Char) : Prop :=
  ∃ before, text.toList = before ++ after ∧ byteLength before = m.cursor

/-- A text lies ahead of the cursor, or does so when the blanks before both are left out. -/
def Near (text : String) (m : Moment) (after : List Char) : Prop :=
  ∃ ahead, m.At text ahead ∧ dropBlank ahead = dropBlank after

/-- Among the calls of one procedure an inner one began further on than an outer one. -/
def Descends (m : Moment) : Prop :=
  m.calls.Pairwise fun inner outer =>
    inner.procedure = outer.procedure → outer.position < inner.position

/-- The calls under way at the place of the cursor are of ranks below a bound. -/
def Below (m : Moment) (rank : Nat) : Prop :=
  ∀ c ∈ m.calls, c.position ≤ m.cursor ∧ (c.procedure.rank < rank ∨ c.position < m.cursor)

theorem At.near (h : m.At text after) : m.Near text after := ⟨after, h, rfl⟩

theorem At.blank (h : m.At text (dropBlank after)) : m.Near text after :=
  ⟨_, h, dropBlank_dropBlank after⟩

theorem At.advance (h : m.At text (inside ++ after)) :
    (⟨m.cursor + byteLength inside, m.calls⟩ : Moment).At text after := by
  obtain ⟨before, htext, hcursor⟩ := h
  exact ⟨before ++ inside, by simp [htext], by simp [byteLength_append, hcursor]⟩

theorem Below.mono {k k' : Nat} (h : m.Below k) (hk : k ≤ k') : m.Below k' :=
  fun c hc => (h c hc).imp_right (Or.imp_left hk.trans_lt')

/-- A procedure that may be called is not at work at the place of the cursor. -/
theorem Descends.enter (h : m.Descends) (hm : m.Below f.rank) :
    (⟨m.cursor, ⟨f, m.cursor⟩ :: m.calls⟩ : Moment).Descends := by
  refine List.pairwise_cons.mpr ⟨fun c hc hsame => ?_, h⟩
  rcases (hm c hc).2 with hrank | hlt
  · rw [← hsame] at hrank
    exact absurd hrank (lt_irrefl _)
  · exact hlt

theorem Below.enter (hm : m.Below f.rank) :
    (⟨m.cursor, ⟨f, m.cursor⟩ :: m.calls⟩ : Moment).Below (f.rank + 1) := by
  refine List.forall_mem_cons.mpr ⟨⟨le_rfl, .inl (Nat.lt_succ_self _)⟩, ?_⟩
  exact hm.mono (Nat.le_succ _)

end Moment

/-- What a run has been through is in order. -/
structure Progress.Steady (text : String) (p : Progress) : Prop where
  begins : p.moments.head? = some ⟨0, []⟩
  forward : p.moments.Pairwise fun m m' => m.cursor ≤ m'.cursor
  placed : ∀ m ∈ p.moments, ∃ after, m.At text after
  descends : ∀ m ∈ p.moments, m.Descends

/-- A run has come from one point to another within the same calls. -/
structure Reaches (text : String) (p q : Progress) : Prop where
  steady : q.Steady text
  calls : q.now.calls = p.now.calls
  le : p.now.cursor ≤ q.now.cursor

theorem Progress.moments_next (p : Progress) (m : Moment) :
    (p.next m).moments = p.moments ++ [m] := rfl

theorem Progress.Steady.next (h : p.Steady text) (hle : p.now.cursor ≤ m.cursor)
    (hplaced : m.At text after) (hdescends : m.Descends) : (p.next m).Steady text where
  begins := by
    rw [Progress.moments_next, List.head?_append, h.begins]
    rfl
  forward := by
    rw [Progress.moments_next]
    refine List.pairwise_append.mpr ⟨h.forward, List.pairwise_singleton .., fun x hx y hy => ?_⟩
    obtain rfl := List.mem_singleton.mp hy
    rcases List.mem_append.mp hx with hpast | hnow
    · have hlast := (List.pairwise_append.mp h.forward).2.2 x hpast _ (List.mem_singleton_self _)
      exact hlast.trans hle
    · exact List.mem_singleton.mp hnow ▸ hle
  placed := by
    rw [Progress.moments_next]
    exact List.forall_mem_append.mpr ⟨h.placed, List.forall_mem_singleton.mpr ⟨after, hplaced⟩⟩
  descends := by
    rw [Progress.moments_next]
    exact List.forall_mem_append.mpr ⟨h.descends, List.forall_mem_singleton.mpr hdescends⟩

theorem Progress.now_mem_moments (p : Progress) : p.now ∈ p.moments :=
  List.mem_append_right _ (List.mem_singleton_self _)

theorem Reaches.refl (h : p.Steady text) : Reaches text p p := ⟨h, rfl, le_rfl⟩

theorem Reaches.trans {r : Progress} (h : Reaches text p q) (h' : Reaches text q r) :
    Reaches text p r := ⟨h'.steady, h'.calls.trans h.calls, h.le.trans h'.le⟩

theorem Reaches.below {k : Nat} (h : Reaches text p q) (hk : p.now.Below k) : q.now.Below k := by
  rw [Moment.Below, h.calls]
  exact fun c hc => ⟨(hk c hc).1.trans h.le, (hk c hc).2.imp_right h.le.trans_lt'⟩

/-- Once the cursor has moved on, every procedure may be called. -/
theorem Reaches.below_of_lt {k k' : Nat} (h : Reaches text p q) (hk : p.now.Below k)
    (hlt : p.now.cursor < q.now.cursor) : q.now.Below k' := by
  rw [Moment.Below, h.calls]
  exact fun c hc => ⟨(hk c hc).1.trans h.le, .inr ((hk c hc).1.trans_lt hlt)⟩

namespace Pass

variable {scan : Pass α} {next : α → Pass β}

theorem run_bind (h : scan.run.run p = some (.ok a, q)) :
    (scan >>= next).run.run p = (next a).run.run q := by
  rw [ExceptT.run_bind, StateT.run_bind, h]
  rfl

theorem run_bind_stop {stop : Stop} (h : scan.run.run p = some (.error stop, q)) :
    (scan >>= next).run.run p = some (.error stop, q) := by
  rw [ExceptT.run_bind, StateT.run_bind, h]
  rfl

theorem run_ahead (h : p.now.At text after) : (ahead text).run.run p = some (.ok after, p) := by
  obtain ⟨before, htext, hcursor⟩ := h
  have hslice := textFrom?_of_split htext
  rw [hcursor] at hslice
  show (ofSlice (textFrom? text p.now.cursor)).run.run p = _
  rw [hslice]
  rfl

theorem run_peek (h : p.now.At text after) :
    (peek text).run.run p = some (.ok after.head?, p) := run_bind (run_ahead h)

theorem run_meets (h : p.now.At text after) (word : List Char) :
    (meets text word).run.run p = some (.ok (dropWord? word after).isSome, p) :=
  run_bind (run_ahead h)

/-- What lies between two places of the cursor can be looked at. -/
theorem run_since (h : p.now.At text (inside ++ after))
    (hcursor : q.now.cursor = p.now.cursor + byteLength inside) :
    (since text p.now.cursor).run.run q = some (.ok inside, q) := by
  obtain ⟨before, htext, hbefore⟩ := h
  have hslice := textBetween?_of_split htext
  rw [byteLength_append, hbefore, ← hcursor] at hslice
  show (ofSlice (textBetween? text p.now.cursor q.now.cursor)).run.run q = _
  rw [hslice]
  rfl

/-- The cursor moves over what lies ahead of it. -/
theorem reaches_advance (inside : List Char) (hp : p.Steady text)
    (h : p.now.At text (inside ++ after)) :
    Reaches text p (p.next ⟨p.now.cursor + byteLength inside, p.now.calls⟩) where
  steady := by
    have hnow : p.now.Descends := hp.descends _ p.now_mem_moments
    exact hp.next (Nat.le_add_right ..) h.advance hnow
  calls := rfl
  le := Nat.le_add_right ..

theorem run_advance (width : Nat) (p : Progress) : (advance width).run.run p =
    some (.ok (), p.next ⟨p.now.cursor + width, p.now.calls⟩) := rfl

/-! ## Loops -/

/-- The cursor is moved over a text, to the one after it. -/
def Moves (text : String) (scan : Pass Unit) (p : Progress) (inside after : List Char) : Prop :=
  ∃ q, scan.run.run p = some (.ok (), q) ∧ Reaches text p q ∧ q.now.At text after ∧
    q.now.cursor = p.now.cursor + byteLength inside

theorem Moves.nil {scan : Pass Unit} (hp : p.Steady text) (h : p.now.At text after)
    (hrun : scan.run.run p = some (.ok (), p)) : Moves text scan p [] after :=
  ⟨p, hrun, .refl hp, h, rfl⟩

/-- A loop moves over a character and goes on. -/
theorem Moves.cons {scan scan' : Pass Unit} {c : Char} (hp : p.Steady text)
    (h : p.now.At text (c :: (inside ++ after)))
    (hrun : scan.run.run p = (advance c.utf8Size >>= fun _ => scan').run.run p)
    (hrest : ∀ q, q.Steady text → q.now.At text (inside ++ after) →
      Moves text scan' q inside after) : Moves text scan p (c :: inside) after := by
  have hmoved := reaches_advance [c] hp h
  obtain ⟨q, hrun', hq, hat, hcursor⟩ := hrest _ hmoved.steady (Moment.At.advance h)
  refine ⟨q, hrun.trans ((run_bind (run_advance ..)).trans hrun'), hmoved.trans hq, hat, ?_⟩
  rw [hcursor]
  exact Nat.add_assoc ..

theorem moves_skip (pred : Char → Bool) {fuel : Nat} (hfuel : after.length < fuel)
    (hp : p.Steady text) (h : p.now.At text after) :
    Moves text (skip text pred fuel) p (after.takeWhile pred) (after.dropWhile pred) := by
  induction after generalizing p fuel with
  | nil =>
      obtain ⟨fuel, rfl⟩ := Nat.exists_eq_succ_of_ne_zero (Nat.ne_zero_of_lt hfuel)
      refine .nil hp h ?_
      rw [skip, run_bind (run_peek h)]
      rfl
  | cons c cs ih =>
      obtain ⟨fuel, rfl⟩ := Nat.exists_eq_succ_of_ne_zero (Nat.ne_zero_of_lt hfuel)
      by_cases hc : pred c = true
      · rw [List.takeWhile_cons_of_pos hc, List.dropWhile_cons_of_pos hc]
        have hshorter := Nat.lt_of_succ_lt_succ hfuel
        refine .cons hp (by rwa [List.takeWhile_append_dropWhile]) ?_ fun q hq hat =>
          ih hshorter hq ?_
        · conv_lhs => rw [skip, run_bind (run_peek h)]
          dsimp only [List.head?_cons]
          rw [if_pos hc]
        · rwa [List.takeWhile_append_dropWhile] at hat
      · rw [List.takeWhile_cons_of_neg hc, List.dropWhile_cons_of_neg hc]
        refine .nil hp h ?_
        rw [skip, run_bind (run_peek h)]
        dsimp only [List.head?_cons]
        rw [if_neg hc]
        rfl

theorem utf8Size_of_isDigit {c : Char} (h : c.isDigit = true) : c.utf8Size = 1 := by
  rw [Char.utf8Size_eq_one_iff, UInt32.le_iff_toNat_le]
  have hrange : c.val.toNat ≤ 57 := by
    simp only [Char.isDigit, ge_iff_le, Bool.and_eq_true, decide_eq_true_eq,
      UInt32.le_iff_toNat_le] at h
    exact h.2
  exact hrange.trans (by decide)

theorem run_skipDigits_digit {c : Char} (point : Bool) (fuel : Nat) (hc : c.isDigit = true)
    (h : p.now.At text (c :: after)) : (skipDigits text point (fuel + 1)).run.run p =
      (advance c.utf8Size >>= fun _ => skipDigits text point fuel).run.run p := by
  conv_lhs => rw [skipDigits, run_bind (run_peek h)]
  dsimp only [List.head?_cons]
  rw [if_pos hc, utf8Size_of_isDigit hc]

theorem run_skipDigits_point (fuel : Nat) (h : p.now.At text ('.' :: after)) :
    (skipDigits text false (fuel + 1)).run.run p =
      (advance '.'.utf8Size >>= fun _ => skipDigits text true fuel).run.run p := by
  conv_lhs => rw [skipDigits, run_bind (run_peek h)]
  rfl

/-- Digits with no more of a number after them. -/
theorem moves_skipDigits (point : Bool) {fuel : Nat} (hfuel : inside.length < fuel)
    (hinside : ∀ c ∈ inside, c.isDigit = true) (hend : Ends Char.isDigit after)
    (hpoint : point = false → after.head? ≠ some '.') (hp : p.Steady text)
    (h : p.now.At text (inside ++ after)) :
    Moves text (skipDigits text point fuel) p inside after := by
  induction inside generalizing p fuel with
  | nil =>
      obtain ⟨fuel, rfl⟩ := Nat.exists_eq_succ_of_ne_zero (Nat.ne_zero_of_lt hfuel)
      refine .nil hp h ?_
      rw [skipDigits, run_bind (run_peek h)]
      cases after with
      | nil => rfl
      | cons c cs =>
          dsimp only [List.nil_append, List.head?_cons]
          rw [if_neg (by simp [hend c rfl]), if_neg fun hc => hpoint hc.2 (by simp [hc.1])]
          rfl
  | cons c cs ih =>
      obtain ⟨fuel, rfl⟩ := Nat.exists_eq_succ_of_ne_zero (Nat.ne_zero_of_lt hfuel)
      obtain ⟨hc, hcs⟩ := List.forall_mem_cons.mp hinside
      exact .cons hp h (run_skipDigits_digit point fuel hc h) fun q hq hat =>
        ih (Nat.lt_of_succ_lt_succ hfuel) hcs hq hat

/-- Digits, a point and the digits after it. -/
theorem moves_skipDigits_point {whole tail : List Char} {fuel : Nat}
    (hfuel : (whole ++ '.' :: tail).length < fuel) (hwhole : ∀ c ∈ whole, c.isDigit = true)
    (htail : ∀ c ∈ tail, c.isDigit = true) (hend : Ends Char.isDigit after)
    (hp : p.Steady text) (h : p.now.At text (whole ++ '.' :: tail ++ after)) :
    Moves text (skipDigits text false fuel) p (whole ++ '.' :: tail) after := by
  induction whole generalizing p fuel with
  | nil =>
      obtain ⟨fuel, rfl⟩ := Nat.exists_eq_succ_of_ne_zero (Nat.ne_zero_of_lt hfuel)
      have hrun := run_skipDigits_point fuel h
      have hshorter := Nat.lt_of_succ_lt_succ hfuel
      exact .cons hp h hrun fun q hq hat =>
        moves_skipDigits true hshorter htail hend nofun hq hat
  | cons c cs ih =>
      obtain ⟨fuel, rfl⟩ := Nat.exists_eq_succ_of_ne_zero (Nat.ne_zero_of_lt hfuel)
      obtain ⟨hc, hcs⟩ := List.forall_mem_cons.mp hwhole
      exact .cons hp h (run_skipDigits_digit false fuel hc h) fun q hq hat =>
        ih (Nat.lt_of_succ_lt_succ hfuel) hcs hq hat

/-- Whatever comes to an outcome comes to the same one with more fuel. -/
def Extends (scan scan' : Pass α) : Prop :=
  ∀ p r, scan.run.run p = some r → scan'.run.run p = some r

namespace Extends

theorem refl (scan : Pass α) : Extends scan scan := fun _ _ h => h

theorem outOfFuel (scan : Pass α) : Extends Pass.outOfFuel scan := by
  intro p r h
  cases h

theorem bind {scan scan' : Pass α} {next next' : α → Pass β} (h : Extends scan scan')
    (hnext : ∀ a, Extends (next a) (next' a)) : Extends (scan >>= next) (scan' >>= next') := by
  intro p r hrun
  rw [ExceptT.run_bind, StateT.run_bind] at hrun ⊢
  obtain ⟨⟨outcome, q⟩, hscan, hrest⟩ := Option.bind_eq_some_iff.mp hrun
  rw [h p _ hscan]
  cases outcome with
  | ok a => exact hnext a q r hrest
  | error stop => exact hrest

end Extends

variable {fuel fuel' : Nat}

theorem skip_extends (pred : Char → Bool) (h : fuel ≤ fuel') :
    Extends (skip text pred fuel) (skip text pred fuel') := by
  induction fuel generalizing fuel' with
  | zero => exact .outOfFuel _
  | succ fuel ih =>
      obtain ⟨fuel', rfl⟩ := Nat.exists_eq_succ_of_ne_zero (Nat.ne_zero_of_lt h)
      refine .bind (.refl _) fun c => ?_
      cases c with
      | none => exact .refl _
      | some c =>
          dsimp only
          split
          · exact .bind (.refl _) fun _ => ih (Nat.le_of_succ_le_succ h)
          · exact .refl _

theorem skipDigits_extends (point : Bool) (h : fuel ≤ fuel') :
    Extends (skipDigits text point fuel) (skipDigits text point fuel') := by
  induction fuel generalizing fuel' point with
  | zero => exact .outOfFuel _
  | succ fuel ih =>
      obtain ⟨fuel', rfl⟩ := Nat.exists_eq_succ_of_ne_zero (Nat.ne_zero_of_lt h)
      have hless := Nat.le_of_succ_le_succ h
      refine .bind (.refl _) fun c => ?_
      cases c with
      | none => exact .refl _
      | some c =>
          dsimp only
          split
          · exact .bind (.refl _) fun _ => ih _ hless
          split
          · exact .bind (.refl _) fun _ => ih _ hless
          · exact .refl _

theorem token_extends {scan scan' : Pass Unit} (h : Extends scan scan')
    (read : List Char → Except ReadError Expr) :
    Extends (token text scan read) (token text scan' read) :=
  .bind (.refl _) fun _ => .bind h fun _ => .refl _

section
variable {call call' : Procedure → Pass Expr} (hcall : ∀ f, Extends (call f) (call' f))
include hcall

theorem chained_extends (l : Level) (left : Expr) (h : fuel ≤ fuel') :
    Extends (chained text call l fuel left) (chained text call' l fuel' left) := by
  induction fuel generalizing fuel' left with
  | zero => exact .outOfFuel _
  | succ fuel ih =>
      obtain ⟨fuel', rfl⟩ := Nat.exists_eq_succ_of_ne_zero (Nat.ne_zero_of_lt h)
      have hless := Nat.le_of_succ_le_succ h
      refine .bind (skip_extends _ hless) fun _ => .bind (.refl _) fun found => ?_
      cases found with
      | none => exact .refl _
      | some found => exact .bind (.refl _) fun _ => .bind (hcall _) fun right => ih _ hless

theorem body_extends (f : Procedure) (h : fuel ≤ fuel') :
    Extends (body text call fuel f) (body text call' fuel' f) := by
  have hskip : Extends (skip text isBlank fuel) (skip text isBlank fuel') := skip_extends _ h
  cases f with
  | expression => exact hcall _
  | level l =>
    cases l with
    | comparison =>
        refine .bind (hcall _) fun left => .bind hskip fun _ => .bind (.refl _) fun found => ?_
        cases found with
        | none => exact .refl _
        | some found => exact .bind (.refl _) fun _ => .bind (hcall _) fun _ => .refl _
    | unary =>
        refine .bind hskip fun _ => .bind (.refl _) fun c => .bind (.refl _) fun unequal => ?_
        split
        · exact .bind (.refl _) fun _ => .bind (hcall _) fun _ => .refl _
        · exact hcall _
    | negation =>
        refine .bind hskip fun _ => .bind (.refl _) fun c => ?_
        split
        · exact .bind (.refl _) fun _ => .bind (hcall _) fun _ => .refl _
        · exact hcall _
    | primary =>
        refine .bind hskip fun _ => .bind (.refl _) fun c => ?_
        cases c with
        | none => exact .refl _
        | some c =>
            dsimp only
            split
            · exact .bind (.refl _) fun _ => .bind (hcall _) fun _ => .bind hskip fun _ => .refl _
            split
            · exact .refl _
            split
            · exact token_extends (skipDigits_extends _ h) _
            split
            · exact token_extends (skip_extends _ h) _
            · exact .refl _
    | disjunction | conjunction | sum | product =>
        exact .bind (hcall _) fun first => chained_extends hcall _ first h

end

theorem call_extends (f : Procedure) (h : fuel ≤ fuel') :
    Extends (call text fuel f) (call text fuel' f) := by
  induction fuel generalizing fuel' f with
  | zero => exact .outOfFuel _
  | succ fuel ih =>
      obtain ⟨fuel', rfl⟩ := Nat.exists_eq_succ_of_ne_zero (Nat.ne_zero_of_lt h)
      have hless := Nat.le_of_succ_le_succ h
      exact .bind (.refl _) fun _ => .bind (body_extends (fun g => ih g hless) f hless) fun _ =>
        .refl _

theorem whole_extends (h : fuel ≤ fuel') : Extends (whole text fuel) (whole text fuel') := by
  unfold whole
  split
  · exact .refl _
  · exact .bind (call_extends _ h) fun _ => .bind (skip_extends _ h) fun _ => .refl _

end Pass

end Statechart.Expr
