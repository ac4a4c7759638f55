import Statechart.Proofs.Expr.Cursor

/-!
# The cursor follows the readers

From a place in a text, a call of a procedure ends with what the reader of its level gives for the
text ahead: the tree and the text after it, or the reason why there is none. So no slice is missing,
and the calls come to an end because the texts of the reader become shorter. On the way every moment
is in order: until the cursor has moved on, a procedure calls others of a higher rank only, and none
is of a higher rank than itself.

A reader hands on the blanks after an operand where the cursor may have moved over them. Both skip
them before they read on, so their places agree up to blanks.
-/
namespace Statechart.Expr

open Text Pass

/-- Something done with the cursor comes to the same result as a reader: what is given and the text
after it, up to blanks, or a refusal. -/
inductive Follows {α : Type} (text : String) (scan : Pass α) (p : Progress) :
    Except ReadError (α × List Char) → Prop
  | ok {a : α} {after : List Char} {q : Progress} (h : scan.run.run p = some (.ok a, q))
    (hq : Reaches text p q) (hafter : q.now.Near text after) : Follows text scan p (.ok (a, after))
  | refuse {reason : ReadError} {q : Progress}
    (h : scan.run.run p = some (.error (.refused reason), q)) (hq : q.Steady text) :
    Follows text scan p (.error reason)

variable {α β : Type} {text : String} {inside after cs ds : List Char} {a : α} {p q : Progress}
  {f g : Procedure} {scan : Pass α} {next : α → Pass β} {reason : ReadError} {fuel : Nat}
  {outcome : Except ReadError (Expr × List Char)} {final : Except ReadError (β × List Char)}

namespace Procedure

/-- Fuel that is enough for a procedure with a text ahead. Nine calls at most are made within each
other before the cursor moves on, and no loop is longer than the whole text. -/
def need (text : String) (f : Procedure) (cs : List Char) : Nat :=
  text.toList.length + 9 * cs.length + (10 - f.rank)

theorem rank_le (f : Procedure) : f.rank ≤ 8 := by
  rcases f with - | l
  · exact Nat.zero_le _
  · cases l <;> decide

theorem need_le_of_le (hle : ds.length ≤ cs.length) (h : f.need text cs ≤ fuel) :
    f.need text ds ≤ fuel := by
  unfold Procedure.need at h ⊢
  omega

theorem rounds_lt (h : f.need text cs ≤ fuel + 1) : text.toList.length + cs.length < fuel := by
  have hrank := f.rank_le
  unfold Procedure.need at h
  omega

theorem loop_lt (h : f.need text cs ≤ fuel + 1) : text.toList.length < fuel :=
  (Nat.le_add_right ..).trans_lt (rounds_lt h)

theorem need_le_of_rank (hrank : g.rank = f.rank + 1) (h : f.need text cs ≤ fuel + 1) :
    g.need text cs ≤ fuel := by
  have hle := g.rank_le
  unfold Procedure.need at h ⊢
  omega

theorem need_le_of_shorter (hlt : ds.length < cs.length)
    (h : f.need text cs ≤ fuel + 1) : g.need text ds ≤ fuel := by
  have hrank := f.rank_le
  unfold Procedure.need at h ⊢
  omega

end Procedure

theorem Moment.At.length_le {m : Moment} (h : m.At text after) :
    after.length ≤ text.toList.length := by
  obtain ⟨before, htext, -⟩ := h
  simp [htext]

namespace Follows

theorem pure (hp : p.Steady text) (h : p.now.Near text after) (a : α) :
    Follows text (Pure.pure a) p (.ok (a, after)) := .ok rfl (.refl hp) h

theorem refusal (hp : p.Steady text) (reason : ReadError) :
    Follows text (Pass.refuse reason : Pass α) p (.error reason) := .refuse rfl hp

theorem ofResult (hp : p.Steady text) (h : p.now.Near text after) (r : Except ReadError α) :
    Follows text (Pass.ofResult r) p (r.map fun a => (a, after)) := by
  cases r with
  | ok a => exact .pure hp h a
  | error reason => exact .refusal hp reason

theorem step (h : scan.run.run p = some (.ok a, q)) (hq : Reaches text p q)
    (hnext : Follows text (next a) q final) : Follows text (scan >>= next) p final := by
  cases hnext with
  | ok h' hq' hafter => exact .ok ((run_bind h).trans h') (hq.trans hq') hafter
  | refuse h' hq' => exact .refuse ((run_bind h).trans h') hq'

/-- A step that moves nothing. -/
theorem look (h : scan.run.run p = some (.ok a, p)) (hp : p.Steady text)
    (hnext : Follows text (next a) p final) : Follows text (scan >>= next) p final :=
  .step h (.refl hp) hnext

theorem bind (h : Follows text scan p (.ok (a, after)))
    (hnext : ∀ q, Reaches text p q → q.now.Near text after → Follows text (next a) q final) :
    Follows text (scan >>= next) p final := by
  cases h with
  | ok h hq hafter => exact .step h hq (hnext _ hq hafter)

theorem bind_refusal (h : Follows text scan p (.error reason)) :
    Follows text (scan >>= next) p (.error reason) := by
  cases h with
  | refuse h hq => exact .refuse (run_bind_stop h) hq

theorem skipBlank {next : Unit → Pass β} (hfuel : text.toList.length < fuel)
    (hp : p.Steady text) (h : p.now.Near text cs)
    (hnext : ∀ q, Reaches text p q → q.now.At text (dropBlank cs) →
      Follows text (next ()) q final) :
    Follows text (skip text isBlank fuel >>= next) p final := by
  obtain ⟨ahead, hat, hblank⟩ := h
  have hlength := hat.length_le.trans_lt hfuel
  obtain ⟨q, hrun, hq, hqat, -⟩ := moves_skip isBlank hlength hp hat
  exact .step hrun hq (hnext q hq (hblank ▸ hqat))

theorem advance {next : Unit → Pass β} (inside : List Char) (hp : p.Steady text)
    (h : p.now.At text (inside ++ after))
    (hnext : ∀ q, Reaches text p q → q.now.cursor = p.now.cursor + byteLength inside →
      q.now.At text after → Follows text (next ()) q final) :
    Follows text (Pass.advance (byteLength inside) >>= next) p final :=
  .step (run_advance ..) (reaches_advance inside hp h)
    (hnext _ (reaches_advance inside hp h) rfl h.advance)

/-- A call is followed when what it calls is, with the call itself among those under way. -/
theorem call (hp : p.Steady text) (h : p.now.Near text cs) (hbelow : p.now.Below f.rank)
    (hfuel : f.need text cs ≤ fuel)
    (hbody : ∀ (q : Progress) (rest : Nat), q.Steady text → q.now.Near text cs →
      q.now.Below (f.rank + 1) → f.need text cs ≤ rest + 1 →
      Follows text (body text (Pass.call text rest) rest f) q outcome) :
    Follows text (Pass.call text fuel f) p outcome := by
  have hnow : p.now.Descends := hp.descends _ p.now_mem_moments
  obtain ⟨ahead, hat, hblank⟩ := h
  have hentered := hp.next (m := ⟨p.now.cursor, ⟨f, p.now.cursor⟩ :: p.now.calls⟩) le_rfl hat
    (hnow.enter hbelow)
  cases fuel with
  | zero =>
      have hrank := f.rank_le
      unfold Procedure.need at hfuel
      omega
  | succ rest =>
      rw [Pass.call]
      cases hbody _ rest hentered ⟨ahead, hat, hblank⟩ hbelow.enter hfuel with
      | @ok e after q hrun hq hafter =>
          obtain ⟨ahead', hat', hblank'⟩ := hafter
          have hcalls : q.now.calls.tail = p.now.calls := congrArg List.tail hq.calls
          have hleft := hq.steady.next (m := ⟨q.now.cursor, q.now.calls.tail⟩) le_rfl hat'
            (hcalls ▸ hnow)
          exact .ok ((run_bind rfl).trans ((run_bind hrun).trans (run_bind rfl)))
            ⟨hleft, hcalls, hq.le⟩ ⟨ahead', hat', hblank'⟩
      | refuse hrun hq => exact .refuse ((run_bind rfl).trans (run_bind_stop hrun)) hq

end Follows

theorem follows_token {scan : Pass Unit} (read : List Char → Except ReadError Expr)
    (hp : p.Steady text) (h : p.now.At text (inside ++ after))
    (hscan : Moves text scan p inside after) : Follows text (token text scan read) p
      ((read inside).map fun e => (e, after)) := by
  obtain ⟨q, hrun, hq, hat, hcursor⟩ := hscan
  refine .look rfl hp (.step hrun hq (.look (run_since h hcursor) hq.steady ?_))
  exact .ofResult hq.steady hat.near _

theorem follows_word (hfuel : text.toList.length < fuel) (hp : p.Steady text)
    (h : p.now.At text cs) : Follows text (word text fuel) p
      ((ofWord (cs.takeWhile isWordChar)).map fun e => (e, cs.dropWhile isWordChar)) :=
  follows_token _ hp (by rwa [List.takeWhile_append_dropWhile])
    (moves_skip isWordChar (h.length_le.trans_lt hfuel) hp h)

/-- How a text begins: digits, and perhaps a point and the digits after it. -/
theorem digits_cases (cs : List Char) :
    (∃ whole after, (∀ c ∈ whole, c.isDigit = true) ∧ Ends Char.isDigit after ∧
      after.head? ≠ some '.' ∧ cs = whole ++ after) ∨
    ∃ whole tail after, (∀ c ∈ whole, c.isDigit = true) ∧ (∀ c ∈ tail, c.isDigit = true) ∧
      Ends Char.isDigit after ∧ cs = whole ++ '.' :: (tail ++ after) := by
  have hall (ds : List Char) : ∀ c ∈ ds.takeWhile Char.isDigit, c.isDigit = true := fun _ hc =>
    List.all_eq_true.mp List.all_takeWhile _ hc
  have hsplit (ds : List Char) : ds = ds.takeWhile Char.isDigit ++ ds.dropWhile Char.isDigit :=
    List.takeWhile_append_dropWhile.symm
  by_cases hpoint : (cs.dropWhile Char.isDigit).head? = some '.'
  · obtain ⟨rest, hrest⟩ := List.head?_eq_some_iff.mp hpoint
    refine .inr ⟨_, _, _, hall cs, hall rest, ends_dropWhile _ rest, ?_⟩
    rw [← hsplit rest, ← hrest, ← hsplit cs]
  · exact .inl ⟨_, _, hall cs, ends_dropWhile _ cs, hpoint, hsplit cs⟩

/-- The cursor moves over the text that a number is scanned from, and of this text alone the same
number is scanned. -/
theorem moves_number (hfuel : text.toList.length < fuel) (hp : p.Steady text)
    (h : p.now.At text cs) : ∃ inside after,
      cs = inside ++ after ∧ Moves text (skipDigits text false fuel) p inside after ∧
        scanNumber cs = ((scanNumber inside).1, (scanNumber inside).2.1, after) := by
  have hlength := h.length_le.trans_lt hfuel
  have hnil : Ends Char.isDigit [] := nofun
  rcases digits_cases cs with ⟨whole, after, hwhole, hend, hpoint, rfl⟩ |
    ⟨whole, tail, after, hwhole, htail, hend, rfl⟩
  · have halone := scanNumber_of_ends hwhole hnil nofun
    rw [List.append_nil] at halone
    rw [List.length_append] at hlength
    refine ⟨whole, after, rfl, moves_skipDigits false (by omega) hwhole hend (fun _ => hpoint) hp h,
      ?_⟩
    rw [scanNumber_of_ends hwhole hend hpoint, halone]
  · have halone := scanNumber_of_point hwhole htail hnil
    rw [List.append_nil] at halone
    have hsplit : whole ++ '.' :: (tail ++ after) = whole ++ '.' :: tail ++ after := by simp
    rw [hsplit, List.length_append] at hlength
    refine ⟨whole ++ '.' :: tail, after, hsplit, ?_, ?_⟩
    · exact moves_skipDigits_point (by omega) hwhole htail hend hp (hsplit ▸ h)
    · rw [scanNumber_of_point hwhole htail hend, halone]

theorem follows_number (hfuel : text.toList.length < fuel) (hp : p.Steady text)
    (h : p.now.At text cs) : Follows text (number text fuel) p
      ((ofDigits (scanNumber cs).1 (scanNumber cs).2.1).map fun e =>
        (e, (scanNumber cs).2.2)) := by
  obtain ⟨inside, after, rfl, hmoves, hscan⟩ := moves_number hfuel hp h
  rw [hscan]
  exact follows_token _ hp h hmoves

/-- The closing quote is found where the string ends: with the text after it, the quote makes up the
rest of the bytes. -/
theorem closingQuote_charIndices (done cs : List Char) (offset : Nat) :
    closingQuote done (charIndices offset cs) = (scanString done cs).map fun (s, rest) =>
      (s, offset + byteLength cs - byteLength ('"' :: rest)) := by
  have hquote : '"'.utf8Size = 1 := rfl
  have hbackslash : '\\'.utf8Size = 1 := rfl
  fun_induction scanString done cs generalizing offset with
  | case1 => rfl
  | case2 done rest => simp [charIndices, closingQuote]
  | case3 => rfl
  | case4 done c rest ih =>
      rw [charIndices, charIndices, closingQuote, unescape, ih]
      simp only [byteLength, Nat.add_assoc]
  | case5 done c rest hplain hlone hescape ih =>
      have hbare : c ≠ '\\' := by
        rintro rfl
        cases rest with
        | nil => exact hlone rfl rfl
        | cons d rest => exact hescape d rest rfl rfl
      have hstep : closingQuote done (charIndices offset (c :: rest)) =
          closingQuote (c :: done) (charIndices (offset + c.utf8Size) rest) := by
        rw [charIndices, closingQuote]
        · exact hplain
        · exact fun _ => hbare
        · exact fun _ _ _ _ => hbare
      rw [hstep, ih]
      simp only [byteLength, Nat.add_assoc]

theorem follows_string (hp : p.Steady text) (h : p.now.At text ('"' :: cs)) :
    Follows text (string text) p (match scanString [] cs with
      | some (s, rest) => .ok (literal (.str (String.ofList s)), rest)
      | none => .error .unterminatedString) := by
  rw [string]
  refine .advance ['"'] hp h fun q hq _ hat => .look (run_ahead hat) hq.steady ?_
  rw [closingQuote_charIndices]
  cases hscan : scanString [] cs with
  | none => exact .refusal hq.steady _
  | some found =>
      obtain ⟨s, rest⟩ := found
      obtain ⟨body, t, -, rfl, -⟩ := scanString_sound hscan
      have hoffset : 0 + byteLength (body ++ '"' :: rest) - byteLength ('"' :: rest) + 1 =
          byteLength (body ++ ['"']) := by
        simp only [byteLength_append]
        have hquote : byteLength ['"'] = 1 := rfl
        omega
      dsimp only [Option.map_some]
      rw [hoffset]
      have hsplit : body ++ '"' :: rest = body ++ ['"'] ++ rest := by simp
      exact .advance _ hq.steady (hsplit ▸ hat) fun q' hq' _ hat' => .pure hq'.steady hat'.near _

/-! ## Primaries -/

/-- The expression and the text after it. -/
def Parsed.pair (p : Parsed cs) : Expr × List Char := (p.expr, p.rest)

/-- A part is read and then what goes on from it, unless the part is refused. -/
theorem Follows.part {scan : Pass Expr} {next : Expr → Pass β} {result : Result cs}
    (h : Follows text scan p (result.map Parsed.pair))
    (hrefused : ∀ reason, result = .error reason → final = .error reason)
    (hnext : ∀ r q, result = .ok r → Reaches text p q → q.now.Near text r.rest →
      Follows text (next r.expr) q final) : Follows text (scan >>= next) p final := by
  cases result with
  | error reason =>
      rw [hrefused reason rfl]
      exact h.bind_refusal
  | ok r => exact h.bind fun q hq hnear => hnext r q rfl hq hnear

/-- A call of a procedure comes to what a reader gives for the text ahead. -/
def Performs (text : String) (f : Procedure) {Readable : List Char → Prop}
    (read : (cs : List Char) → Readable cs → Result cs) : Prop :=
  ∀ (cs : List Char) (h : Readable cs) (p : Progress) (fuel : Nat), p.Steady text →
    p.now.Near text cs → p.now.Below f.rank → f.need text cs ≤ fuel →
    Follows text (call text fuel f) p ((read cs h).map Parsed.pair)

variable {n : Nat} {inner : Inner n}

/-! What the reader of a primary gives for each way to begin. -/

theorem primaryAt_group_eq (h : ('(' :: cs).length ≤ n) :
    (primaryAt inner ('(' :: cs) h).map Parsed.pair =
      match inner cs (Nat.lt_of_succ_le h) with
      | .error reason => .error reason
      | .ok p =>
        match dropBlank p.rest with
        | ')' :: rest => .ok (p.expr, rest)
        | _ => .error .unclosedParenthesis := by
  rw [primaryAt, if_pos rfl]
  cases inner cs (Nat.lt_of_succ_le h) with
  | error reason => rfl
  | ok p =>
      dsimp only
      split
      · next rest hrest =>
        simp only [hrest]
        rfl
      · next hnone =>
        split
        · next rest hrest => exact absurd hrest (hnone rest)
        · rfl

theorem primaryAt_string_eq (h : ('"' :: cs).length ≤ n) :
    (primaryAt inner ('"' :: cs) h).map Parsed.pair =
      match scanString [] cs with
      | some (s, rest) => .ok (literal (.str (String.ofList s)), rest)
      | none => .error .unterminatedString := by
  rw [primaryAt, if_neg (by decide), if_pos rfl]
  split
  · next s rest hs =>
    simp only [hs]
    rfl
  · next hnone =>
    simp only [hnone]
    rfl

theorem primaryAt_number_eq {c : Char} (hc : c.isDigit = true) (h : (c :: cs).length ≤ n) :
    (primaryAt inner (c :: cs) h).map Parsed.pair =
      (ofDigits (scanNumber (c :: cs)).1 (scanNumber (c :: cs)).2.1).map fun e =>
        (e, (scanNumber (c :: cs)).2.2) := by
  have hopening : c ≠ '(' := fun heq => absurd (heq ▸ hc) (by decide)
  have hquote : c ≠ '"' := fun heq => absurd (heq ▸ hc) (by decide)
  rw [primaryAt, if_neg hopening, if_neg hquote, dif_pos hc]
  dsimp only
  split
  · next reason hreason => rw [hreason]; rfl
  · next e he => rw [he]; rfl

theorem primaryAt_word_eq {c : Char} (hc : isWordStart c = true) (h : (c :: cs).length ≤ n) :
    (primaryAt inner (c :: cs) h).map Parsed.pair =
      (ofWord ((c :: cs).takeWhile isWordChar)).map fun e =>
        (e, (c :: cs).dropWhile isWordChar) := by
  have hopening : c ≠ '(' := fun heq => absurd (heq ▸ hc) (by decide)
  have hquote : c ≠ '"' := fun heq => absurd (heq ▸ hc) (by decide)
  have hword := isWordChar_of_isWordStart hc
  rw [primaryAt, if_neg hopening, if_neg hquote,
    dif_neg (by simp [not_isDigit_of_isWordStart hc]), if_pos hc,
    List.takeWhile_cons_of_pos hword, List.dropWhile_cons_of_pos hword]
  split
  · next reason hreason => rw [hreason]; rfl
  · next e he => rw [he]; rfl

/-- Between parentheses the cursor has moved on, so that the whole expression may be called. -/
theorem follows_group (hi : Performs text .expression inner) (hp : p.Steady text) {k : Nat}
    (hbelow : p.now.Below k) (hat : p.now.At text ('(' :: cs)) (h : ('(' :: cs).length ≤ n)
    (hfuel : f.need text ('(' :: cs) ≤ fuel + 1) : Follows text (do
      advance 1
      let e ← call text fuel .expression
      skip text isBlank fuel
      if (← peek text) = some ')' then do
        advance 1
        pure e
      else refuse .unclosedParenthesis) p ((primaryAt inner ('(' :: cs) h).map Parsed.pair) := by
  rw [primaryAt_group_eq]
  refine .advance ['('] hp hat fun q hq hcursor hqat => ?_
  have hmoved : p.now.cursor < q.now.cursor := hcursor ▸ Nat.lt_succ_self _
  have hlt : cs.length < ('(' :: cs).length := Nat.lt_succ_self _
  have hinner : Procedure.expression.need text cs ≤ fuel := Procedure.need_le_of_shorter hlt hfuel
  have hcall := hi cs (Nat.lt_of_succ_le h) q fuel hq.steady hqat.near
    (hq.below_of_lt hbelow hmoved) hinner
  have hloop := Procedure.loop_lt hfuel
  refine hcall.part (fun reason hread => by rw [hread]) fun r q₁ hread hq₁ hnear₁ =>
    .skipBlank hloop hq₁.steady hnear₁ fun q₂ hq₂ hat₂ => .look (run_peek hat₂) hq₂.steady ?_
  rw [hread]
  dsimp only
  split
  · next hclosing =>
    obtain ⟨rest, hrest⟩ := List.head?_eq_some_iff.mp hclosing
    rw [hrest] at hat₂ ⊢
    exact .advance [')'] hq₂.steady hat₂ fun q₃ hq₃ _ hat₃ => .pure hq₃.steady hat₃.near _
  · next hopen =>
    split
    · next rest hrest => exact absurd (hrest ▸ rfl) hopen
    · exact .refusal hq₂.steady _

theorem performs_primary (hi : Performs text .expression inner) :
    Performs text (.level .primary) (primary inner) := by
  intro cs h p fuel hp hnear hbelow hfuel
  refine .call hp hnear hbelow hfuel fun q fuel hq hqnear hqbelow hfuel => ?_
  have hloop := Procedure.loop_lt hfuel
  rw [body]
  refine .skipBlank hloop hq hqnear fun q₁ hq₁ hat => .look (run_peek hat) hq₁.steady ?_
  have hpair : (primary inner cs h).map Parsed.pair =
      (primaryAt inner (dropBlank cs) (Nat.le_trans (length_dropBlank_le cs) h)).map
        Parsed.pair := by
    rw [primary]
    cases primaryAt inner (dropBlank cs) _ <;> rfl
  rw [hpair]
  have hfuel' := Procedure.need_le_of_le (length_dropBlank_le cs) hfuel
  -- the bound of the reader is about the text, so the text cannot be taken apart without it
  generalize Nat.le_trans (length_dropBlank_le cs) h = h'
  revert h'
  generalize dropBlank cs = ds at hat hfuel'
  intro h'
  cases ds with
  | nil => exact .refusal hq₁.steady _
  | cons c ds =>
      dsimp only [List.head?_cons]
      split
      · next hopening =>
        subst hopening
        exact follows_group hi hq₁.steady (hq₁.below hqbelow) hat h' hfuel'
      split
      · next hquote =>
        subst hquote
        rw [primaryAt_string_eq]
        exact follows_string hq₁.steady hat
      split
      · next hdigit =>
        rw [primaryAt_number_eq hdigit]
        exact follows_number hloop hq₁.steady hat
      split
      · next hstart =>
        rw [primaryAt_word_eq hstart]
        exact follows_word hloop hq₁.steady hat
      · next hopening hquote hdigit hstart =>
        rw [primaryAt, if_neg hopening, if_neg hquote, dif_neg hdigit, if_neg hstart]
        exact .refusal hq₁.steady _

theorem Performs.weaken {inner : Inner (n + 1)} (hi : Performs text f inner) :
    Performs text f inner.weaken := fun cs h => hi cs (Nat.lt_succ_of_lt h)

/-- After a sign the cursor has moved on, so that the same procedure may be called again. -/
theorem follows_sign {Readable : List Char → Prop} {k : Nat} {c : Char} (sign : Expr → Expr)
    {read : (cs : List Char) → Readable cs → Result cs} (hread : Performs text f read)
    (h : Readable cs) (hc : byteLength [c] = 1) (hp : p.Steady text) (hbelow : p.now.Below k)
    (hat : p.now.At text (c :: cs)) (hfuel : f.need text cs ≤ fuel) : Follows text (do
      advance 1
      let e ← call text fuel f
      pure (sign e)) p ((read cs h).map fun q => (sign q.expr, q.rest)) := by
  rw [← hc]
  refine .advance [c] hp hat fun q hq hcursor hqat => ?_
  have hmoved : p.now.cursor < q.now.cursor := by omega
  have hcall := hread cs h q fuel hq.steady hqat.near (hq.below_of_lt hbelow hmoved) hfuel
  refine hcall.part (fun reason hresult => by rw [hresult]; rfl) fun r q₁ hresult hq₁ hnear => ?_
  rw [hresult]
  exact .pure hq₁.steady hnear _

theorem head?_dropBlank_ne {c : Char} (h : cs.length ≤ 0) : (dropBlank cs).head? ≠ some c := by
  obtain rfl := List.length_eq_zero_iff.mp (Nat.le_zero.mp h)
  exact nofun

theorem length_lt_of_dropBlank {c : Char} (h : dropBlank cs = c :: ds) : ds.length < cs.length := by
  have hle := length_dropBlank_le cs
  rwa [h] at hle

theorem negation_unsigned (h : cs.length ≤ n) (hcs : (dropBlank cs).head? ≠ some '-') :
    negation n inner cs h = primary inner cs h := by
  cases n with
  | zero => rfl
  | succ n =>
      rw [negation]
      dsimp only
      split
      · next rest hrest => exact absurd (by rw [hrest]; rfl) hcs
      · rfl

theorem negation_signed {inner : Inner (n + 1)} {rest : List Char} (h : cs.length ≤ n + 1)
    (hcs : dropBlank cs = '-' :: rest) : ∃ hrest,
    (negation (n + 1) inner cs h).map Parsed.pair =
      (negation n inner.weaken rest hrest).map fun q => (negated q.expr, q.rest) := by
  have hlt := length_lt_of_dropBlank hcs
  refine ⟨by omega, ?_⟩
  rw [negation]
  dsimp only
  split
  · next rest' heq =>
    obtain rfl : rest = rest' := by simpa using hcs.symm.trans heq
    split
    · next hq => rw [hq]; rfl
    · next q hq => rw [hq]; rfl
  · next hnone => exact absurd hcs (hnone rest)

theorem performs_negation (n : Nat) (inner : Inner n) (hi : Performs text .expression inner) :
    Performs text (.level .negation) (negation n inner) := by
  intro cs h p fuel hp hnear hbelow hfuel
  refine .call hp hnear hbelow hfuel fun q fuel hq hqnear hqbelow hfuel => ?_
  have hloop := Procedure.loop_lt hfuel
  rw [body]
  refine .skipBlank hloop hq hqnear fun q₁ hq₁ hat => .look (run_peek hat) hq₁.steady ?_
  split
  · next hminus =>
    obtain ⟨rest, hrest⟩ := List.head?_eq_some_iff.mp hminus
    cases n with
    | zero => exact absurd hminus (head?_dropBlank_ne h)
    | succ n =>
        obtain ⟨hlen, heq⟩ := negation_signed h hrest
        rw [heq]
        rw [hrest] at hat
        have hagain : (Procedure.level .negation).need text rest ≤ fuel :=
          Procedure.need_le_of_shorter (length_lt_of_dropBlank hrest) hfuel
        exact follows_sign negated (performs_negation n inner.weaken hi.weaken) hlen rfl hq₁.steady
          (hq₁.below hqbelow) hat hagain
  · next hplain =>
    rw [negation_unsigned h hplain]
    have hnext : (Procedure.level .primary).need text cs ≤ fuel :=
      Procedure.need_le_of_rank rfl hfuel
    exact performs_primary hi cs h q₁ fuel hq₁.steady hat.blank (hq₁.below hqbelow) hnext

/-! ## Operators -/

theorem run_findOperator_none {ops : List (Operator × Nat)} (h : p.now.At text cs)
    (hnone : Operator.match? (ops.map Prod.fst) cs = none) :
    (findOperator text ops).run.run p = some (.ok none, p) := by
  induction ops with
  | nil => rfl
  | cons o ops ih =>
      obtain ⟨op, width⟩ := o
      rw [List.map_cons, Operator.match?] at hnone
      cases hword : dropWord? (op.first :: op.more) cs with
      | some rest => simp [hword] at hnone
      | none =>
          rw [hword] at hnone
          rw [findOperator, run_bind (run_meets h _), hword]
          exact ih hnone

/-- The width of an operator that is found is that of its symbol. -/
theorem run_findOperator_some {ops : List (Operator × Nat)} {op : Operator}
    (hwidths : ∀ o ∈ ops, o.2 = byteLength (o.1.first :: o.1.more)) (h : p.now.At text cs)
    (hsome : Operator.match? (ops.map Prod.fst) cs = some (op, after)) :
    ∃ symbol, cs = symbol ++ after ∧
      (findOperator text ops).run.run p = some (.ok (some (op, byteLength symbol)), p) := by
  induction ops with
  | nil => cases hsome
  | cons o ops ih =>
      obtain ⟨op', width⟩ := o
      obtain ⟨hwidth, hwidths⟩ := List.forall_mem_cons.mp hwidths
      rw [List.map_cons, match?_cons_eq_some] at hsome
      rcases hsome with ⟨rfl, hword⟩ | ⟨hword, hsome⟩
      · refine ⟨_, dropWord?_eq_some_iff.mp hword, ?_⟩
        rw [findOperator, run_bind (run_meets h _), hword, ← hwidth]
        rfl
      · obtain ⟨symbol, hcs, hrun⟩ := ih hwidths hsome
        refine ⟨symbol, hcs, ?_⟩
        rw [findOperator, run_bind (run_meets h _), hword]
        exact hrun

theorem map_fst_zip_widths (l : Level) : (l.operators.zip l.widths).map Prod.fst = l.operators := by
  cases l <;> rfl

/-- The cursor moves over the whole symbol of each operator. -/
theorem widths_eq (l : Level) :
    ∀ o ∈ l.operators.zip l.widths, o.2 = byteLength (o.1.first :: o.1.more) :=
  List.map_inj_left.mp (by cases l <;> rfl)

/-- After an operand, the cursor stays before the blanks or moves over an operator of the level. -/
theorem follows_operator {l : Level} {left : Expr} {operate : Operator → Pass Expr}
    (hfuel : text.toList.length < fuel) (hp : p.Steady text) (hnear : p.now.Near text cs)
    (hnone : Operator.match? l.operators (dropBlank cs) = none → outcome = .ok (left, cs))
    (hsome : ∀ op after q, Operator.match? l.operators (dropBlank cs) = some (op, after) →
      Reaches text p q → q.now.At text after → Follows text (operate op) q outcome) :
    Follows text (do
      skip text isBlank fuel
      match ← findOperator text (l.operators.zip l.widths) with
      | none => pure left
      | some (op, width) => do
        advance width
        operate op) p outcome := by
  refine .skipBlank hfuel hp hnear fun q hq hat => ?_
  rw [← map_fst_zip_widths] at hnone hsome
  cases hfound : Operator.match? ((l.operators.zip l.widths).map Prod.fst) (dropBlank cs) with
  | none =>
      rw [hnone hfound]
      exact .look (run_findOperator_none hat hfound) hq.steady (.pure hq.steady hat.blank left)
  | some found =>
      obtain ⟨op, after⟩ := found
      obtain ⟨symbol, hcs, hrun⟩ := run_findOperator_some (widths_eq l) hat hfound
      rw [hcs] at hat
      exact .look hrun hq.steady (.advance symbol hq.steady hat fun q₁ hq₁ _ hat₁ =>
        hsome op after q₁ hfound (hq.trans hq₁) hat₁)

section chain
variable {l : Level} {operand : Reader n}

theorem chainRest_end {m : Nat} (hm : m ≤ n) (left : Expr) (h : cs.length ≤ m)
    (hnone : Operator.match? l.operators (dropBlank cs) = none) :
    (chainRest operand l.operators m hm left cs h).map Subtype.val = .ok (left, cs) := by
  cases m with
  | zero => rfl
  | succ m =>
      rw [chainRest]
      split
      · rfl
      · next hop => cases hnone.symm.trans hop

/-- The loop goes on as the reader does. Its fuel is less in each round, as is the text. -/
theorem follows_chained {called : Nat} (ho : Performs text (.level l.tighter) operand) (m : Nat)
    (hm : m ≤ n) (left : Expr) (cs : List Char) (h : cs.length ≤ m) (p : Progress) (fuel : Nat)
    (hp : p.Steady text) (hnear : p.now.Near text cs)
    (hbelow : p.now.Below (Procedure.level l.tighter).rank)
    (hcalled : (Procedure.level l.tighter).need text cs ≤ called)
    (hfuel : text.toList.length + cs.length + 1 < fuel) :
    Follows text (chained text (call text called) l fuel left) p
      ((chainRest operand l.operators m hm left cs h).map Subtype.val) := by
  obtain ⟨fuel, rfl⟩ := Nat.exists_eq_succ_of_ne_zero (Nat.ne_zero_of_lt hfuel)
  rw [chained]
  have hloop : text.toList.length < fuel := by omega
  refine follows_operator hloop hp hnear (chainRest_end hm left h) fun op after q hop hq hat => ?_
  have hshort := Operator.length_of_match? hop
  have hblank := length_dropBlank_le cs
  cases m with
  | zero => omega
  | succ m =>
      have hcall := ho after (by omega) q called hq.steady hat.near (hq.below hbelow)
        (Procedure.need_le_of_le (by omega) hcalled)
      rw [chainRest]
      split
      · next hnone => cases hop.symm.trans hnone
      · next op' after' hop' =>
        cases hop.symm.trans hop'
        dsimp only
        refine hcall.part (fun reason hread => by rw [hread]; rfl) fun r q₁ hread hq₁ hnear₁ => ?_
        rw [hread]
        have hlt := r.shorter
        have hrest := follows_chained ho m (by omega) (op.build left r.expr) r.rest (by omega)
          q₁ fuel hq₁.steady hnear₁ ((hq.trans hq₁).below hbelow)
          (Procedure.need_le_of_le (by omega) hcalled) (by omega)
        dsimp only
        split
        · next reason hresult =>
          rw [hresult] at hrest
          exact hrest
        · next rest hrest' hresult =>
          rw [hresult] at hrest
          exact hrest

theorem body_of_chains (text : String) (call : Procedure → Pass Expr) (fuel : Nat)
    (hl : l.chains = true) : body text call fuel (.level l) = (do
      let first ← call (.level l.tighter)
      chained text call l fuel first) := by
  cases l with
  | disjunction | conjunction | sum | product => rfl
  | unary | comparison | negation | primary => cases hl

theorem performs_chain (hl : l.chains = true) (ho : Performs text (.level l.tighter) operand) :
    Performs text (.level l) (chain operand l.operators) := by
  intro cs h p fuel hp hnear hbelow hfuel
  -- the operands are of the next rank, so the call of the level itself is below them
  have hrank : (Procedure.level l).rank + 1 = (Procedure.level l.tighter).rank := by
    cases l <;> cases hl <;> rfl
  rw [chain]
  refine .call hp hnear hbelow hfuel fun q fuel hq hqnear hqbelow hfuel => ?_
  rw [hrank] at hqbelow
  rw [body_of_chains text _ fuel hl]
  have hoperand := Procedure.need_le_of_rank hrank.symm hfuel
  have hcall := ho cs h q fuel hq hqnear hqbelow hoperand
  refine hcall.part (fun reason hread => by rw [hread]; rfl) fun r q₁ hread hq₁ hnear₁ => ?_
  rw [hread]
  have hlt := r.shorter
  have hrounds := Procedure.rounds_lt hfuel
  have hcalled := Procedure.need_le_of_le hlt.le hoperand
  have hrest := follows_chained ho n le_rfl r.expr r.rest (by omega) q₁ fuel hq₁.steady hnear₁
    (hq₁.below hqbelow) hcalled (by omega)
  dsimp only
  split
  · next reason hresult =>
    rw [hresult] at hrest
    exact hrest
  · next rest hrest' hresult =>
    rw [hresult] at hrest
    exact hrest

end chain

theorem performs_product (hi : Performs text .expression inner) :
    Performs text (.level .product) (product inner) :=
  performs_chain (l := .product) rfl (performs_negation n inner hi)

theorem performs_sum (hi : Performs text .expression inner) :
    Performs text (.level .sum) (sum inner) :=
  performs_chain (l := .sum) rfl (performs_product hi)

theorem performs_comparison (hi : Performs text .expression inner) :
    Performs text (.level .comparison) (comparison inner) := by
  intro cs h p fuel hp hnear hbelow hfuel
  refine .call hp hnear hbelow hfuel fun q fuel hq hqnear hqbelow hfuel => ?_
  rw [body, comparison]
  have hoperand : (Procedure.level .sum).need text cs ≤ fuel :=
    Procedure.need_le_of_rank rfl hfuel
  have hcall := performs_sum hi cs h q fuel hq hqnear hqbelow hoperand
  refine hcall.part (fun reason hread => by rw [hread]; rfl) fun r q₁ hread hq₁ hnear₁ => ?_
  rw [hread]
  dsimp only
  refine follows_operator (l := .comparison) (Procedure.loop_lt hfuel) hq₁.steady hnear₁
    (fun hnone => ?_) fun op after q₂ hop hq₂ hat => ?_
  · split
    · rfl
    · next hop => cases hnone.symm.trans hop
  · split
    · next hnone => cases hop.symm.trans hnone
    · next op' after' hop' =>
      cases hop.symm.trans hop'
      have hshort := Operator.length_of_match? hop
      have hblank := length_dropBlank_le r.rest
      have hlt := r.shorter
      have hcall' := performs_sum hi after (by omega) q₂ fuel hq₂.steady hat.near
        ((hq₁.trans hq₂).below hqbelow) (Procedure.need_le_of_le (by omega) hoperand)
      refine hcall'.part (fun reason hread' => by rw [hread']; rfl)
        fun r' q₃ hread' hq₃ hnear₃ => ?_
      rw [hread']
      exact .pure hq₃.steady hnear₃ _

theorem unary_unsigned (h : cs.length ≤ n)
    (hcs : ∀ rest, dropBlank cs = '!' :: rest → rest.head? = some '=') :
    unary n inner cs h = comparison inner cs h := by
  cases n with
  | zero => rfl
  | succ n =>
      rw [unary]
      dsimp only
      split
      · next rest hrest => rw [if_pos (hcs rest hrest)]
      · rfl

theorem unary_signed {inner : Inner (n + 1)} {rest : List Char} (h : cs.length ≤ n + 1)
    (hcs : dropBlank cs = '!' :: rest) (hequals : rest.head? ≠ some '=') : ∃ hrest,
    (unary (n + 1) inner cs h).map Parsed.pair =
      (unary n inner.weaken rest hrest).map fun q => (not q.expr, q.rest) := by
  have hlt := length_lt_of_dropBlank hcs
  refine ⟨by omega, ?_⟩
  rw [unary]
  dsimp only
  split
  · next rest' heq =>
    obtain rfl : rest = rest' := by simpa using hcs.symm.trans heq
    rw [if_neg hequals]
    split
    · next hq => rw [hq]; rfl
    · next q hq => rw [hq]; rfl
  · next hnone => exact absurd hcs (hnone rest)

/-- An inequality does not begin with a mark that negates. -/
theorem meets_unequal_iff (rest : List Char) :
    (dropWord? ['!', '='] ('!' :: rest)).isSome = false ↔ rest.head? ≠ some '=' := by
  cases rest with
  | nil => simp [dropWord?]
  | cons c rest =>
      by_cases hc : c = '='
      · simp [dropWord?, hc]
      · simp [dropWord?, hc, Ne.symm hc]

theorem performs_unary (n : Nat) (inner : Inner n) (hi : Performs text .expression inner) :
    Performs text (.level .unary) (unary n inner) := by
  intro cs h p fuel hp hnear hbelow hfuel
  refine .call hp hnear hbelow hfuel fun q fuel hq hqnear hqbelow hfuel => ?_
  have hloop := Procedure.loop_lt hfuel
  rw [body]
  refine .skipBlank hloop hq hqnear fun q₁ hq₁ hat => .look (run_peek hat) hq₁.steady
    (.look (run_meets hat _) hq₁.steady ?_)
  split
  · next hmark =>
    obtain ⟨hhead, hunequal⟩ := hmark
    obtain ⟨rest, hrest⟩ := List.head?_eq_some_iff.mp hhead
    rw [hrest, meets_unequal_iff] at hunequal
    cases n with
    | zero => exact absurd hhead (head?_dropBlank_ne h)
    | succ n =>
        obtain ⟨hlen, heq⟩ := unary_signed h hrest hunequal
        rw [heq]
        rw [hrest] at hat
        have hagain : (Procedure.level .unary).need text rest ≤ fuel :=
          Procedure.need_le_of_shorter (length_lt_of_dropBlank hrest) hfuel
        exact follows_sign not (performs_unary n inner.weaken hi.weaken) hlen rfl hq₁.steady
          (hq₁.below hqbelow) hat hagain
  · next hplain =>
    have hnext : (Procedure.level .comparison).need text cs ≤ fuel :=
      Procedure.need_le_of_rank rfl hfuel
    rw [unary_unsigned h fun rest hrest => ?_]
    · exact performs_comparison hi cs h q₁ fuel hq₁.steady hat.blank (hq₁.below hqbelow) hnext
    · by_contra hequals
      rw [hrest, meets_unequal_iff] at hplain
      exact hplain ⟨rfl, hequals⟩

theorem performs_disjunction (hi : Performs text .expression inner) :
    Performs text (.level .disjunction) (disjunction inner) :=
  performs_chain (l := .disjunction) rfl
    (performs_chain (l := .conjunction) rfl (performs_unary n inner hi))

/-- A whole expression is what the loosest level reads. -/
theorem performs_of_disjunction {read : Reader n}
    (h : Performs text (.level .disjunction) read) : Performs text .expression read := by
  intro cs hcs p fuel hp hnear hbelow hfuel
  refine .call hp hnear hbelow hfuel fun q fuel hq hqnear hqbelow hfuel => ?_
  rw [body]
  exact h cs hcs q fuel hq hqnear hqbelow (Procedure.need_le_of_rank rfl hfuel)

theorem performs_expression : ∀ n : Nat, Performs text .expression (expression n)
  | 0 => performs_of_disjunction (performs_disjunction fun _ h => absurd h (Nat.not_lt_zero _))
  | n + 1 => performs_of_disjunction (performs_disjunction fun cs h =>
      performs_expression n cs (Nat.le_of_lt_succ h))

/-! ## Whole texts -/

theorem steady_start (text : String) : Progress.start.Steady text where
  begins := rfl
  forward := List.pairwise_singleton ..
  placed := List.forall_mem_singleton.mpr ⟨text.toList, [], rfl, rfl⟩
  descends := List.forall_mem_singleton.mpr .nil

/-- With enough fuel the cursor reads a whole text as the readers do. -/
theorem follows_whole (text : String)
    (hfuel : Procedure.expression.need text text.toList ≤ fuel) :
    Follows text (whole text fuel) .start ((readTrimmed text.toList).map fun e => (e, [])) := by
  have hiff : text.isEmpty = true ↔ text.toList.isEmpty = true := by
    rw [String.isEmpty_iff, List.isEmpty_iff, String.toList_eq_nil_iff]
  rw [whole, readTrimmed]
  by_cases hempty : text.toList.isEmpty = true
  · rw [if_pos hempty, if_pos (hiff.mpr hempty)]
    exact .refusal (steady_start text) _
  rw [if_neg hempty, if_neg (hempty ∘ hiff.mp)]
  have hcall := performs_expression text.toList.length text.toList le_rfl .start fuel
    (steady_start text) ⟨text.toList, ⟨[], rfl, rfl⟩, rfl⟩ (List.forall_mem_nil _) hfuel
  have hloop := Procedure.loop_lt (Nat.le_succ_of_le hfuel)
  refine hcall.part (fun reason hread => by rw [hread]; rfl) fun r q hread hq hnear =>
    .skipBlank hloop hq.steady hnear fun q₁ hq₁ hat => .look rfl hq₁.steady ?_
  rw [hread]
  obtain ⟨before, htext, hcursor⟩ := id hat
  have hsize : text.utf8ByteSize = byteLength before + byteLength (dropBlank r.rest) := by
    rw [← byteLength_append, ← htext, ← utf8ByteSize_ofList, String.ofList_toList]
  dsimp only
  -- input is left over exactly when the cursor stands before the end
  cases hrest : dropBlank r.rest with
  | nil =>
      rw [hrest] at hsize hat
      rw [if_neg (by simp [hsize, ← hcursor, byteLength])]
      exact .pure hq₁.steady hat.near _
  | cons c rest =>
      have hpos : 0 < c.utf8Size := Char.utf8Size_pos c
      rw [hrest] at hsize hat
      rw [if_pos (by rw [hsize, ← hcursor, byteLength]; omega), if_neg (by simp)]
      have hposition : byteLength text.toList - byteLength (c :: rest) = q₁.now.cursor := by
        rw [htext, byteLength_append, hrest, hcursor, Nat.add_sub_cancel]
      rw [hposition]
      exact .look (run_ahead hat) hq₁.steady (.refusal hq₁.steady _)

/-- What is followed comes to an end without a missing slice. -/
theorem Follows.exists_run {r : Except ReadError α}
    (h : Follows text scan p (r.map fun a => (a, after))) : ∃ q,
      scan.run.run p = some (r.mapError .refused, q) ∧ q.Steady text := by
  cases r with
  | ok a =>
    cases h with
    | ok h hq => exact ⟨_, h, hq.steady⟩
  | error reason =>
    cases h with
    | refuse h hq => exact ⟨_, h, hq⟩

end Statechart.Expr
