import Statechart.Proofs.Expr.Grammar

/-!
# The reader and the grammar

The reader of each level returns the trees that the level derives from what it has read, and it
reads every derivation after which the text does not go on with an operator of the level or a
tighter one. From the primaries outwards each reader has this from the readers that it calls, so
the readers accept exactly the grammar.
-/
namespace Statechart.Expr

open Text

/-- A text does not go on with an operator of a level or a tighter one. -/
def Stops (l : Level) (after : List Char) : Prop :=
  ∀ l' : Level, l.rank ≤ l'.rank → Operator.match? l'.operators (dropBlank after) = none

/-- A reader of some texts reads a level. -/
structure Reads (l : Level) {Readable : List Char → Prop}
    (f : (cs : List Char) → Readable cs → Result cs) : Prop where
  sound : ∀ {cs h p}, f cs h = .ok p → ∃ ts, Scans cs ts p.rest ∧ Derives l ts p.expr
  complete : ∀ {cs} (h : Readable cs) {ts e after}, Scans cs ts after → Derives l ts e →
    Stops l after → ∃ p, f cs h = .ok p ∧ p.expr = e ∧ p.rest = after

variable {l : Level} {t : Token} {ts a b : List Token} {cs mid after text : List Char}
  {build : Expr → Expr → Expr} {e x y : Expr} {n : Nat} {inner : Inner n}

theorem Stops.tighter (h : Stops l after) : Stops l.tighter after :=
  fun l' hl' => h l' (l.rank_le_tighter.trans hl')

/-- Before a token that joins at a level, the tighter levels stop. -/
theorem stops_of_joins (ht : Joins l t build) (hmid : dropBlank mid = text ++ after)
    (h : Lexeme t text after) : Stops l.tighter mid := by
  intro l' hl'
  have hne : l' ≠ l := by
    rintro rfl
    cases ht <;> exact absurd hl' (by decide)
  rw [hmid]
  exact match?_of_joins_ne ht h hne

theorem stops_of_closing (h : dropBlank mid = ')' :: after) : Stops l mid := by
  intro l' _
  rw [h]
  cases l' <;> rfl

theorem stops_of_end (h : dropBlank mid = []) : Stops l mid := by
  intro l' _
  rw [h]
  cases l' <;> rfl

theorem scans_cons_iff : Scans cs (t :: ts) after ↔
    ∃ text mid, dropBlank cs = text ++ mid ∧ Lexeme t text mid ∧ Scans mid ts after := by
  constructor
  · rintro (_ | ⟨hcs, ht, hts⟩)
    exact ⟨_, _, hcs, ht, hts⟩
  · rintro ⟨text, mid, hcs, ht, hts⟩
    exact .cons hcs ht hts

/-- How a text begins from which a level derives a tree. -/
theorem scans_head (h : Scans cs ts after) (hd : Derives l ts e) :
    ∃ c rest, dropBlank cs = c :: rest ∧ (Level.negation.rank < l.rank → c ≠ '-') ∧
      (Level.unary.rank < l.rank → c ≠ '!') := by
  obtain ⟨t, ts, rfl, hhead⟩ := hd.head
  obtain ⟨text, mid, hcs, ht, -⟩ := scans_cons_iff.mp h
  rw [hcs]
  rcases hhead with rfl | ⟨x, rfl⟩ | ⟨rfl, hrank⟩ | ⟨rfl, hrank⟩
  · cases ht
    exact ⟨_, _, rfl, fun _ => by decide, fun _ => by decide⟩
  · obtain ⟨c, rest, rfl, hc⟩ := ht.atom_head
    refine ⟨c, _, rfl, ?_, ?_⟩
    · rintro - rfl
      exact absurd hc (by decide)
    · rintro - rfl
      exact absurd hc (by decide)
  · cases ht
    exact ⟨'-', _, rfl, fun hlt => absurd hrank (by omega), fun _ => by decide⟩
  · cases ht
    have hlt : Level.unary.rank < Level.negation.rank := by decide
    exact ⟨_, _, rfl, fun _ => by decide, fun hlt' => absurd hrank (by omega)⟩

/-- A word that is read as an operand is one of its lexemes. -/
theorem lexeme_of_ofWord {c : Char} (hstart : isWordStart c = true)
    (he : ofWord (c :: cs.takeWhile isWordChar) = .ok e) :
    Lexeme (.atom e) (c :: cs.takeWhile isWordChar) (cs.dropWhile isWordChar) := by
  have hword : ∀ d ∈ c :: cs.takeWhile isWordChar, isWordChar d = true :=
    List.forall_mem_cons.mpr ⟨isWordChar_of_isWordStart hstart,
      List.all_eq_true.mp List.all_takeWhile⟩
  exact .word (ofWord_sound hword he) (ends_dropWhile _ _)

theorem primaryAt_sound (hi : Reads .disjunction inner) {ds : List Char} (hcs : dropBlank cs = ds)
    {h : ds.length ≤ n} {p : Parsed ds} (hp : primaryAt inner ds h = .ok p) :
    ∃ ts, Scans cs ts p.rest ∧ Derives .primary ts p.expr := by
  cases ds with
  | nil => cases hp
  | cons c ds =>
    rw [primaryAt] at hp
    split at hp
    · next hc =>
      subst hc
      split at hp
      · cases hp
      · next q hq =>
        split at hp
        · next rest hrest =>
          cases hp
          obtain ⟨ts, hts, he⟩ := hi.sound hq
          refine ⟨.opening :: (ts ++ [.closing]), ?_, .group he⟩
          exact .cons hcs .opening (scans_append.mpr ⟨_, hts, .single hrest .closing⟩)
        · cases hp
    split at hp
    · next hc =>
      subst hc
      split at hp
      · next s rest hs =>
        cases hp
        obtain ⟨body, t, hbody, rfl, rfl⟩ := scanString_sound hs
        exact ⟨_, .single (by simpa using hcs) (.string hbody), .atom⟩
      · cases hp
    split at hp
    · next hdigit =>
      dsimp only at hp
      split at hp
      · cases hp
      · next e he =>
        cases hp
        obtain ⟨text, v, hsplit, rfl, hv⟩ := ofDigits_sound hdigit he
        exact ⟨_, .single (hcs.trans hsplit) (.number hv), .atom⟩
    split at hp
    · next hstart =>
      split at hp
      · cases hp
      · next e he =>
        cases hp
        have hsplit : c :: ds = (c :: ds.takeWhile isWordChar) ++ ds.dropWhile isWordChar := by
          rw [List.cons_append, List.takeWhile_append_dropWhile]
        exact ⟨_, .single (hcs.trans hsplit) (lexeme_of_ofWord hstart he), .atom⟩
    · cases hp

/-! What the reader of a primary does with each kind of lexeme. -/

theorem primaryAt_group {h : ('(' :: cs).length ≤ n} {p : Parsed cs} {rest : List Char}
    (hp : inner cs (Nat.lt_of_succ_le h) = .ok p) (hclose : dropBlank p.rest = ')' :: rest) :
    ∃ q, primaryAt inner ('(' :: cs) h = .ok q ∧ q.expr = p.expr ∧ q.rest = rest := by
  rw [primaryAt, if_pos rfl, hp]
  dsimp only
  split
  · next rest' hrest =>
    obtain rfl : rest = rest' := by simpa using hclose.symm.trans hrest
    exact ⟨_, rfl, rfl, rfl⟩
  · next hnone => exact absurd hclose (hnone rest)

theorem primaryAt_string {h : ('"' :: cs).length ≤ n} {s rest : List Char}
    (hs : scanString [] cs = some (s, rest)) : ∃ q, primaryAt inner ('"' :: cs) h = .ok q ∧
      q.expr = literal (.str (String.ofList s)) ∧ q.rest = rest := by
  rw [primaryAt, if_neg (by decide), if_pos rfl]
  split
  · next s' rest' hs' =>
    cases hs.symm.trans hs'
    exact ⟨_, rfl, rfl, rfl⟩
  · next hnone => cases hs.symm.trans hnone

theorem primaryAt_number {c : Char} {h : (c :: cs).length ≤ n} (hc : c.isDigit = true)
    (he : ofDigits (scanNumber (c :: cs)).1 (scanNumber (c :: cs)).2.1 = .ok e) :
    ∃ q, primaryAt inner (c :: cs) h = .ok q ∧ q.expr = e ∧
      q.rest = (scanNumber (c :: cs)).2.2 := by
  have hopening : c ≠ '(' := fun heq => absurd (heq ▸ hc) (by decide)
  have hquote : c ≠ '"' := fun heq => absurd (heq ▸ hc) (by decide)
  rw [primaryAt, if_neg hopening, if_neg hquote, dif_pos hc]
  dsimp only
  split
  · next herror => cases he.symm.trans herror
  · next e' he' =>
    cases he.symm.trans he'
    exact ⟨_, rfl, rfl, rfl⟩

theorem primaryAt_word {c : Char} {h : (c :: cs).length ≤ n} (hc : isWordStart c = true)
    (he : ofWord (c :: cs.takeWhile isWordChar) = .ok e) :
    ∃ q, primaryAt inner (c :: cs) h = .ok q ∧ q.expr = e ∧
      q.rest = cs.dropWhile isWordChar := by
  have hopening : c ≠ '(' := fun heq => absurd (heq ▸ hc) (by decide)
  have hquote : c ≠ '"' := fun heq => absurd (heq ▸ hc) (by decide)
  have hdigit := not_isDigit_of_isWordStart hc
  rw [primaryAt, if_neg hopening, if_neg hquote, dif_neg (by simp [hdigit]), if_pos hc]
  split
  · next herror => cases he.symm.trans herror
  · next e' he' =>
    cases he.symm.trans he'
    exact ⟨_, rfl, rfl, rfl⟩

theorem primaryAt_atom (inner : Inner n) (ht : Lexeme (.atom e) text after)
    (h : (text ++ after).length ≤ n) :
    ∃ p, primaryAt inner (text ++ after) h = .ok p ∧ p.expr = e ∧ p.rest = after := by
  cases ht with
  | @string body s _ hbody =>
      have hscan : scanString [] (body ++ ['"'] ++ after) = some (s, after) := by
        simpa using scanString_complete hbody [] after
      exact primaryAt_string hscan
  | @number text after v hv =>
      obtain ⟨c, rest, rfl, hc⟩ := hv.head
      obtain ⟨hdigits, hend⟩ := ofDigits_complete hv
      exact (primaryAt_number hc hdigits).imp fun p ⟨hp, he, hrest⟩ => ⟨hp, he, hrest.trans hend⟩
  | word hw hend =>
      obtain ⟨⟨c, rest, rfl, hc⟩, hchars⟩ := hw.chars
      obtain ⟨htake, hdrop⟩ := takeWhile_append_of_ends
        (fun d hd => hchars d (List.mem_cons_of_mem c hd)) hend
      have hword : ofWord (c :: (rest ++ after).takeWhile isWordChar) = .ok e := by
        rw [htake]
        exact ofWord_complete hchars hw
      exact (primaryAt_word hc hword).imp fun p ⟨hp, he, hrest⟩ => ⟨hp, he, hrest.trans hdrop⟩

theorem primaryAt_complete (hi : Reads .disjunction inner) {ds : List Char}
    (hcs : dropBlank cs = ds) (h : ds.length ≤ n) (hts : Scans cs ts after)
    (he : Derives .primary ts e) :
    ∃ p, primaryAt inner ds h = .ok p ∧ p.expr = e ∧ p.rest = after := by
  rcases derives_primary_iff.mp he with rfl | ⟨inside, rfl, hinside⟩
  · obtain ⟨text, mid, hsplit, ht, hrest⟩ := scans_cons_iff.mp hts
    cases hrest
    obtain rfl := hcs.symm.trans hsplit
    exact primaryAt_atom inner ht h
  · obtain ⟨text, mid, hsplit, ht, hrest⟩ := scans_cons_iff.mp hts
    cases ht
    obtain rfl := hcs.symm.trans hsplit
    obtain ⟨mid', hinner, hlast⟩ := scans_append.mp hrest
    obtain ⟨text', after', hclose, ht', hend⟩ := scans_cons_iff.mp hlast
    cases ht'
    cases hend
    obtain ⟨p, hp, rfl, rfl⟩ := hi.complete (Nat.lt_of_succ_le h) hinner hinside
      (stops_of_closing hclose)
    exact primaryAt_group hp hclose

theorem reads_primary (hi : Reads .disjunction inner) : Reads .primary (primary inner) where
  sound {cs h p} hp := by
    obtain ⟨q, hq, rfl⟩ := map_eq_ok_iff.mp hp
    exact primaryAt_sound hi rfl hq
  complete {cs} h _ _ _ hts he _ := by
    obtain ⟨q, hq, rfl, rfl⟩ := primaryAt_complete hi rfl
      (Nat.le_trans (length_dropBlank_le cs) h) hts he
    exact ⟨_, map_eq_ok_iff.mpr ⟨q, hq, rfl⟩, rfl, rfl⟩

theorem Reads.weaken {inner : Inner (n + 1)} (h : Reads l inner) : Reads l inner.weaken :=
  ⟨h.sound, fun hcs => h.complete (Nat.lt_succ_of_lt hcs)⟩

/-- A reader reads a level with a sign before an operand when it goes on at the same level after
the sign, and at the next level when there is none. -/
theorem reads_sign {f g : Reader (n + 1)} {again : Reader n} {c : Char} {sign : Expr → Expr}
    (hderives : ∀ {ts e}, Derives l ts e ↔ Derives l.tighter ts e ∨
      ∃ rest x, ts = t :: rest ∧ Derives l rest x ∧ e = sign x)
    (htext : ∀ {text mid}, Lexeme t text mid → text = [c])
    (hhead : ∀ {cs ts e after rest}, Scans cs ts after → Derives l.tighter ts e →
      dropBlank cs ≠ c :: rest)
    (htighter : Reads l.tighter g) (hagain : Reads l again)
    (hsigned : ∀ {cs h rest}, dropBlank cs = c :: rest → Lexeme t [c] rest → ∃ hrest, ∀ p,
      f cs h = .ok p ↔ ∃ q, again rest hrest = .ok q ∧ p.expr = sign q.expr ∧ p.rest = q.rest)
    (hunsigned : ∀ {cs h}, (∀ rest, dropBlank cs = c :: rest → ¬ Lexeme t [c] rest) →
      f cs h = g cs h) : Reads l f := by
  refine ⟨fun {cs h p} hread => ?_, fun {cs} h ts e after hts he hstop => ?_⟩
  · by_cases hsign : ∃ rest, dropBlank cs = c :: rest ∧ Lexeme t [c] rest
    · obtain ⟨rest, hcs, ht⟩ := hsign
      obtain ⟨hrest, hiff⟩ := hsigned hcs ht
      obtain ⟨q, hq, hexpr, hafter⟩ := (hiff p).mp hread
      obtain ⟨ts, hts, hx⟩ := hagain.sound hq
      rw [hexpr, hafter]
      exact ⟨_, .cons hcs ht hts, hderives.mpr (.inr ⟨ts, _, rfl, hx, rfl⟩)⟩
    · rw [hunsigned fun rest hcs ht => hsign ⟨rest, hcs, ht⟩] at hread
      obtain ⟨ts, hts, he⟩ := htighter.sound hread
      exact ⟨ts, hts, hderives.mpr (.inl he)⟩
  · rcases hderives.mp he with htight | ⟨inside, x, rfl, hx, rfl⟩
    · rw [hunsigned fun rest hcs _ => hhead hts htight hcs]
      exact htighter.complete h hts htight hstop.tighter
    · obtain ⟨text, mid, hcs, ht, hinside⟩ := scans_cons_iff.mp hts
      obtain rfl := htext ht
      obtain ⟨hrest, hiff⟩ := hsigned (h := h) hcs ht
      obtain ⟨q, hq, rfl, rfl⟩ := hagain.complete hrest hinside hx hstop
      have hlt := length_dropBlank_le cs
      rw [hcs] at hlt
      exact ⟨⟨sign q.expr, q.rest, q.shorter.trans hlt⟩, (hiff _).mpr ⟨q, hq, rfl, rfl⟩, rfl, rfl⟩

/-- From a text with nothing in it no level derives anything. -/
theorem Reads.of_empty {l' : Level} {f : Reader 0} (h : Reads l f)
    (hderives : ∀ {ts e}, Derives l ts e → Derives l' ts e) : Reads l' f := by
  refine ⟨fun hread => ?_, fun {cs} hcs ts e after hts he _ => ?_⟩
  · obtain ⟨ts, hts, he⟩ := h.sound hread
    exact ⟨ts, hts, hderives he⟩
  · obtain ⟨c, rest, hblank, -⟩ := scans_head hts he
    have hempty : cs = [] := List.length_eq_zero_iff.mp (Nat.le_zero.mp hcs)
    rw [hempty] at hblank
    cases hblank

theorem parsed_iff {sign : Expr → Expr} {cs ds : List Char} {read : Result ds} {q : Parsed ds}
    (hq : read = .ok q) {hlt : q.rest.length < cs.length} {p : Parsed cs} :
    (.ok ⟨sign q.expr, q.rest, hlt⟩ : Result cs) = .ok p ↔
      ∃ q', read = .ok q' ∧ p.expr = sign q'.expr ∧ p.rest = q'.rest := by
  constructor
  · intro h
    cases h
    exact ⟨q, hq, rfl, rfl⟩
  · intro ⟨q', hq', hexpr, hrest⟩
    cases hq.symm.trans hq'
    obtain ⟨expr, rest, hshort⟩ := p
    subst hexpr hrest
    rfl

theorem reads_negation : ∀ (n : Nat) (inner : Inner n), Reads .disjunction inner →
    Reads .negation (negation n inner)
  | 0, inner, hi => (reads_primary hi).of_empty fun h => derives_negation_iff.mpr (.inl h)
  | n + 1, inner, hi => by
      refine reads_sign (c := '-') derives_negation_iff (fun h => by cases h; rfl)
        (fun hts he hcs => ?_) (reads_primary hi) (reads_negation n inner.weaken hi.weaken)
        (fun {cs h rest} hcs _ => ?_) (fun {cs h} hnone => ?_)
      · obtain ⟨c, rest, hblank, hminus, -⟩ := scans_head hts he
        cases hblank.symm.trans hcs
        exact hminus (by decide) rfl
      · have hlt := length_dropBlank_le cs
        rw [hcs, List.length_cons] at hlt
        refine ⟨by omega, fun p => ?_⟩
        rw [negation]
        dsimp only
        split
        · next rest' heq =>
          obtain rfl : rest = rest' := by simpa using hcs.symm.trans heq
          split
          · next hq => exact iff_of_false nofun fun ⟨_, hq', _⟩ => nomatch hq.symm.trans hq'
          · next q hq => exact parsed_iff hq
        · next hnone => exact absurd hcs (hnone rest)
      · rw [negation]
        dsimp only
        split
        · next rest heq => exact (hnone rest heq (.operator (by simp))).elim
        · rfl

section chain
variable {operand : Reader n}

theorem chainRest_sound (ho : Reads l.tighter operand) : ∀ (m : Nat) (hm : m ≤ n) (left : Expr)
    (cs : List Char) (h : cs.length ≤ m) (q),
    chainRest operand l.operators m hm left cs h = .ok q →
      ∃ ts, Scans cs ts q.1.2 ∧ Chain l left ts q.1.1
  | 0, hm, left, cs, h, q, hread => by
      cases hread
      exact ⟨[], .nil, .nil⟩
  | m + 1, hm, left, cs, h, q, hread => by
      rw [chainRest] at hread
      split at hread
      · cases hread
        exact ⟨[], .nil, .nil⟩
      · next o after hop =>
        dsimp only at hread
        split at hread
        · cases hread
        · next p hp =>
          split at hread
          · cases hread
          · next r hr hrest =>
            cases hread
            obtain ⟨t, text, hcs, ht, hjoins⟩ := joins_of_match? hop
            obtain ⟨b, hb, hy⟩ := ho.sound hp
            obtain ⟨ts, hts, hchain⟩ := chainRest_sound ho m _ _ _ _ _ hrest
            exact ⟨t :: (b ++ ts), .cons hcs ht (scans_append.mpr ⟨_, hb, hts⟩),
              .cons hjoins hy hchain⟩

/-- Where a chain goes on, the tighter levels stop. -/
theorem stops_of_chain {left : Expr} (h : Chain l left ts e) (hts : Scans cs ts after)
    (hstop : Stops l after) : Stops l.tighter cs := by
  cases h with
  | nil =>
      cases hts
      exact hstop.tighter
  | cons ht =>
      obtain ⟨text, mid, hcs, hlexeme, -⟩ := scans_cons_iff.mp hts
      exact stops_of_joins ht hcs hlexeme

theorem chainRest_complete (ho : Reads l.tighter operand) {left : Expr} (h : Chain l left ts e)
    (m : Nat) (hm : m ≤ n) (cs : List Char) (hcs : cs.length ≤ m) (hts : Scans cs ts after)
    (hstop : Stops l after) :
    ∃ q, chainRest operand l.operators m hm left cs hcs = .ok q ∧ q.1 = (e, after) := by
  induction h generalizing m cs with
  | nil =>
      cases hts
      cases m with
      | zero => exact ⟨_, rfl, rfl⟩
      | succ m =>
          rw [chainRest]
          split
          · exact ⟨_, rfl, rfl⟩
          · next o rest hop => cases (hstop l le_rfl).symm.trans hop
  | @cons x y e t b ts build ht hb hchain ih =>
      obtain ⟨text, mid, hblank, hlexeme, hrest⟩ := scans_cons_iff.mp hts
      obtain ⟨mid', hscan, hlast⟩ := scans_append.mp hrest
      obtain ⟨o, hmatch, rfl⟩ := match?_of_joins ht hlexeme
      have hshort := Operator.length_of_match? hmatch
      rw [← hblank] at hmatch hshort
      have hle := length_dropBlank_le cs
      cases m with
      | zero => omega
      | succ m =>
          rw [chainRest]
          split
          · next hnone => cases hmatch.symm.trans hnone
          · next o' after' hop =>
            cases hmatch.symm.trans hop
            obtain ⟨p, hp, rfl, rfl⟩ := ho.complete (by omega) hscan hb
              (stops_of_chain hchain hlast hstop)
            dsimp only
            split
            · next hq => cases hp.symm.trans hq
            · next p' hp' =>
              cases hp.symm.trans hp'
              have hlt := p.shorter
              obtain ⟨q, hq, hqe⟩ := ih m (by omega) p.rest (by omega) hlast
              split
              · next hq' => cases hq.symm.trans hq'
              · next r hr hq' =>
                cases hq.symm.trans hq'
                exact ⟨_, rfl, hqe⟩

theorem reads_chain (hl : l.chains = true) (ho : Reads l.tighter operand) :
    Reads l (chain operand l.operators) := by
  refine ⟨fun {cs h p} hread => ?_, fun {cs} h ts e after hts he hstop => ?_⟩
  · unfold chain at hread
    split at hread
    · cases hread
    · next p hp =>
      dsimp only at hread
      split at hread
      · cases hread
      · next q hq hrest =>
        cases hread
        obtain ⟨a, ha, hx⟩ := ho.sound hp
        obtain ⟨b, hb, hchain⟩ := chainRest_sound ho _ _ _ _ _ _ hrest
        exact ⟨a ++ b, scans_append.mpr ⟨_, ha, hb⟩, hchain.derives hl (.tighter (by
          rintro rfl
          cases hl) hx)⟩
  · obtain ⟨a, x, b, rfl, hx, hchain⟩ := (derives_iff_chain hl).mp he
    obtain ⟨mid, ha, hb⟩ := scans_append.mp hts
    obtain ⟨p, hp, rfl, rfl⟩ := ho.complete h ha hx (stops_of_chain hchain hb hstop)
    have hlt := p.shorter
    obtain ⟨q, hq, hqe⟩ := chainRest_complete ho hchain n le_rfl p.rest (by omega) hb hstop
    unfold chain
    split
    · next hp' => cases hp.symm.trans hp'
    · next p' hp' =>
      cases hp.symm.trans hp'
      dsimp only
      split
      · next hq' => cases hq.symm.trans hq'
      · next r hr hq' =>
        cases hq.symm.trans hq'
        exact ⟨_, rfl, congrArg Prod.fst hqe, congrArg Prod.snd hqe⟩

end chain

theorem reads_product (hi : Reads .disjunction inner) : Reads .product (product inner) :=
  reads_chain (l := .product) rfl (reads_negation n inner hi)

theorem reads_sum (hi : Reads .disjunction inner) : Reads .sum (sum inner) :=
  reads_chain (l := .sum) rfl (reads_product hi)

theorem reads_comparison (hi : Reads .disjunction inner) :
    Reads .comparison (comparison inner) := by
  have hsum := reads_sum hi
  refine ⟨fun {cs h p} hread => ?_, fun {cs} h ts e after hts he hstop => ?_⟩
  · unfold comparison at hread
    split at hread
    · cases hread
    · next p' hp =>
      split at hread
      · cases hread
        obtain ⟨ts, hts, he⟩ := hsum.sound hp
        exact ⟨ts, hts, derives_comparison_iff.mpr (.inl he)⟩
      · next o after hop =>
        dsimp only at hread
        split at hread
        · cases hread
        · next q hq =>
          cases hread
          obtain ⟨a, ha, hx⟩ := hsum.sound hp
          obtain ⟨t, text, hcs, ht, hjoins⟩ := joins_of_match? (l := .comparison) hop
          obtain ⟨b, hb, hy⟩ := hsum.sound hq
          exact ⟨a ++ t :: b, scans_append.mpr ⟨_, ha, .cons hcs ht hb⟩, .join hjoins hx hy⟩
  · unfold comparison
    rcases derives_comparison_iff.mp he with hx | ⟨a, t, b, build, x, y, rfl, ht, hx, hy, rfl⟩
    · obtain ⟨p, hp, rfl, rfl⟩ := hsum.complete h hts hx hstop.tighter
      split
      · next hp' => cases hp.symm.trans hp'
      · next p' hp' =>
        cases hp.symm.trans hp'
        split
        · exact ⟨_, rfl, rfl, rfl⟩
        · next o rest hop => cases (hstop .comparison le_rfl).symm.trans hop
    · obtain ⟨mid, ha, hrest⟩ := scans_append.mp hts
      obtain ⟨text, mid', hcs, hlexeme, hb⟩ := scans_cons_iff.mp hrest
      obtain ⟨o, hmatch, rfl⟩ := match?_of_joins ht hlexeme
      rw [← hcs] at hmatch
      obtain ⟨p, hp, rfl, rfl⟩ := hsum.complete h ha hx (stops_of_joins ht hcs hlexeme)
      split
      · next hp' => cases hp.symm.trans hp'
      · next p' hp' =>
        cases hp.symm.trans hp'
        split
        · next hnone => cases hmatch.symm.trans hnone
        · next o' rest hop =>
          cases hmatch.symm.trans hop
          have hlt := Operator.length_of_match? hmatch
          have hle := length_dropBlank_le p.rest
          have hlt' := p.shorter
          obtain ⟨q, hq, rfl, rfl⟩ := hsum.complete (by omega) hb hy hstop.tighter
          dsimp only
          split
          · next hq' => cases hq.symm.trans hq'
          · next q' hq' =>
            cases hq.symm.trans hq'
            exact ⟨_, rfl, rfl, rfl⟩

theorem reads_unary : ∀ (n : Nat) (inner : Inner n), Reads .disjunction inner →
    Reads .unary (unary n inner)
  | 0, inner, hi => (reads_comparison hi).of_empty fun h => derives_unary_iff.mpr (.inl h)
  | n + 1, inner, hi => by
      refine reads_sign (c := '!') derives_unary_iff (fun h => by cases h; rfl)
        (fun hts he hcs => ?_) (reads_comparison hi) (reads_unary n inner.weaken hi.weaken)
        (fun {cs h rest} hcs ht => ?_) (fun {cs h} hnone => ?_)
      · obtain ⟨c, rest, hblank, -, hmark⟩ := scans_head hts he
        cases hblank.symm.trans hcs
        exact hmark (by decide) rfl
      · have hlt := length_dropBlank_le cs
        rw [hcs, List.length_cons] at hlt
        refine ⟨by omega, fun p => ?_⟩
        cases ht with
        | not hequals =>
          rw [unary]
          dsimp only
          split
          · next rest' heq =>
            obtain rfl : rest = rest' := by simpa using hcs.symm.trans heq
            rw [if_neg hequals]
            split
            · next hq => exact iff_of_false nofun fun ⟨_, hq', _⟩ => nomatch hq.symm.trans hq'
            · next q hq => exact parsed_iff hq
          · next hnone => exact absurd hcs (hnone rest)
      · rw [unary]
        dsimp only
        split
        · next rest heq =>
          split
          · rfl
          · next hequals => exact absurd (.not hequals) (hnone rest heq)
        · rfl

theorem reads_disjunction (hi : Reads .disjunction inner) :
    Reads .disjunction (disjunction inner) :=
  reads_chain (l := .disjunction) rfl
    (reads_chain (l := .conjunction) rfl (reads_unary n inner hi))

/-- An expression is read to its end, whatever stands in parentheses in it. -/
theorem reads_expression : ∀ n : Nat, Reads .disjunction (expression n)
  | 0 => reads_disjunction ⟨fun {_ h _} _ => absurd h (Nat.not_lt_zero _),
      fun h => absurd h (Nat.not_lt_zero _)⟩
  | n + 1 =>
      have hread := reads_expression n
      reads_disjunction ⟨hread.sound, fun h => hread.complete (Nat.le_of_lt_succ h)⟩

/-- The trimmed texts that can be read are the sentences of the grammar. -/
theorem readTrimmed_ok_iff : readTrimmed cs = .ok e ↔ Sentence cs e := by
  have hread := reads_expression cs.length
  unfold readTrimmed
  constructor
  · intro h
    split at h
    · cases h
    split at h
    · cases h
    · next p hp =>
      dsimp only at h
      split at h
      · next hend =>
        cases h
        obtain ⟨ts, hts, he⟩ := hread.sound hp
        exact ⟨ts, p.rest, hts, List.isEmpty_iff.mp hend, he⟩
      · cases h
  · intro ⟨ts, after, hts, hend, he⟩
    obtain ⟨p, hp, rfl, rfl⟩ := hread.complete le_rfl hts he (stops_of_end hend)
    have hne : ¬ cs.isEmpty = true := by
      intro hempty
      obtain ⟨c, rest, hblank, -⟩ := scans_head hts he
      rw [List.isEmpty_iff.mp hempty] at hblank
      cases hblank
    rw [if_neg hne, hp]
    simp [hend]

/-- Reading a text succeeds with a tree exactly when the text without the blanks around it is a
sentence with that tree, and no text is a sentence with two trees. -/
theorem read_ok_iff_sentence (source : String) :
    (∀ e, read source = .ok e ↔ Sentence (trimChars source.toList) e) ∧
      Subsingleton { e // Sentence (trimChars source.toList) e } := by
  refine ⟨fun e => readTrimmed_ok_iff, ⟨fun ⟨a, ha⟩ ⟨b, hb⟩ => Subtype.ext ?_⟩⟩
  have hsame := (readTrimmed_ok_iff.mpr ha).symm.trans (readTrimmed_ok_iff.mpr hb)
  cases hsame
  rfl

end Statechart.Expr
