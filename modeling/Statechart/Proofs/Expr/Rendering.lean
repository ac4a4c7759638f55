import Statechart.Proofs.Expr.Exact
import Statechart.Proofs.Expr.Reading

/-!
# Rendered trees are read back

A rendering is put together from lexemes: a blank stands on both sides of an operator, compound
operands stand in parentheses, and a string is escaped as in JSON. A text is a phrase of a level
when the level derives the tree from it in front of everything that does not go on a word. Phrases
are closed under the forms of the renderer, each at the level of its operator, so that the
rendering of a tree is a phrase of the loosest level and the reader gives the tree back. This asks
that the literals are written as expressions write them, and that no exclamation mark stands where
only a tighter level is read and no sign before a number that it would become part of.
-/
namespace Statechart.Expr

open Text

/-- Literals that expressions write in the same way as JSON: whole numbers that fit 64 bits with
either sign, and strings whose control characters have an escape that expressions know. -/
def LegibleValue : Json → Prop
  | .null | .bool _ => True
  | .num (.int i _) => i.natAbs < 0x8000000000000000
  | .str s => ∀ c ∈ s.toList, c.toNat < 32 → c = '\n' ∨ c = '\t'
  | .num (.double _) | .arr _ | .obj _ => False

/-- Trees that can be told from their rendering. -/
def Legible : Expr → Prop
  | literal value => LegibleValue value
  | context path => IsPath path.toList
  | eventName => True
  | eventData path => path = "" ∨ IsPath path.toList
  | not e => e.Legible
  | neg e => e.Legible ∧ (∀ x, e ≠ not x) ∧ ∀ n, e ≠ literal (.num n)
  | and a b | or a b => a.Legible ∧ b.Legible
  | binary _ a b => (a.Legible ∧ ∀ x, a ≠ not x) ∧ b.Legible ∧ ∀ x, b ≠ not x

variable {l l' : Level} {t : Token} {ts : List Token} {c : Char}
  {cs mid after text text' symbol : List Char} {build : Expr → Expr → Expr} {e x y : Expr}

/-- The code points of White_Space. -/
def blankPoints : List Nat :=
  [9, 10, 11, 12, 13, 32, 133, 160, 5760, 8192, 8193, 8194, 8195, 8196, 8197, 8198, 8199, 8200,
    8201, 8202, 8232, 8233, 8239, 8287, 12288]

theorem mem_blankPoints (h : isBlank c = true) : c.toNat ∈ blankPoints := by
  simp only [isBlank, inRanges, List.any_cons, List.any_nil, Bool.or_false, Bool.or_eq_true,
    Bool.and_eq_true, decide_eq_true_eq] at h
  simp only [blankPoints, List.mem_cons, List.not_mem_nil, or_false]
  omega

/-- No character of a word is blank. -/
theorem not_isBlank_of_isWordChar (h : isWordChar c = true) : isBlank c = false := by
  by_contra hblank
  have hnone : ∀ n ∈ blankPoints, isWordChar (Char.ofNat n) = false := by decide +kernel
  have hc := hnone _ (mem_blankPoints (by simpa using hblank))
  rw [Char.ofNat_toNat, h] at hc
  cases hc

theorem dropBlank_cons (h : isBlank c = false) (cs : List Char) :
    dropBlank (c :: cs) = c :: cs := by
  simp [dropBlank, h]

/-- A token that stands at the beginning of a text. -/
theorem Scans.start (hc : isBlank c = false) (ht : Lexeme t (c :: text) mid)
    (hts : Scans mid ts after) : Scans (c :: (text ++ mid)) (t :: ts) after :=
  .cons (dropBlank_cons hc _) ht hts

/-- A blank before the first token makes no difference. -/
theorem Scans.blank (h : Scans cs (t :: ts) after) : Scans (' ' :: cs) (t :: ts) after := by
  obtain ⟨text, mid, hcs, ht, hts⟩ := scans_cons_iff.mp h
  have hblank : isBlank ' ' = true := by decide
  exact .cons (by simpa [dropBlank, hblank] using hcs) ht hts

/-- What a level derives is derived by every looser level. -/
theorem derives_of_rank_le {l l' : Level} (hl : l.rank ≤ l'.rank) (h : Derives l' ts e) :
    Derives l ts e := by
  by_cases heq : l = l'
  · exact heq ▸ h
  · have hnext : l ≠ .primary ∧ l.tighter.rank = l.rank + 1 ∧ l.rank < l'.rank := by
      cases l <;> cases l' <;> simp_all [Level.rank, Level.tighter]
    exact .tighter hnext.1 (derives_of_rank_le (by omega) h)
termination_by l'.rank - l.rank

/-- A text from which a level derives a tree in front of everything that does not go on a word. Its
first and last characters are not blank, and it does not turn a mark before it into an
inequality. -/
structure Phrase (l : Level) (text : List Char) (e : Expr) : Prop where
  first : ∃ c rest, text = c :: rest ∧ isBlank c = false ∧ c ≠ '='
  last : ∃ c init, text = init ++ [c] ∧ isBlank c = false
  derives : ∀ after, Ends isWordChar after →
    ∃ ts, Scans (text ++ after) ts after ∧ Derives l ts e

theorem Phrase.loosen (hl : l.rank ≤ l'.rank) (h : Phrase l' text e) : Phrase l text e :=
  ⟨h.first, h.last, fun after hend => (h.derives after hend).imp fun _ hts =>
    ⟨hts.1, derives_of_rank_le hl hts.2⟩⟩

theorem ends_cons (h : isWordChar c = false) (cs : List Char) : Ends isWordChar (c :: cs) := by
  rintro d ⟨⟩
  exact h

theorem isWordChar_of_isDigit (h : c.isDigit = true) : isWordChar c = true := by
  have hrange : 48 ≤ c.toNat ∧ c.toNat ≤ 57 := by
    simpa [Char.isDigit, UInt32.le_iff_toNat_le] using h
  have hnumeric : isNumeric c = true := by rwa [isNumeric, if_pos (by omega)]
  simp [isWordChar, isAlphanumeric, hnumeric]

/-- An operand that is read at once is a phrase. -/
theorem phrase_atom (hlast : ∃ c init, text = init ++ [c] ∧ isBlank c = false)
    (h : ∀ after, Ends isWordChar after → Lexeme (.atom e) text after) :
    Phrase .primary text e := by
  obtain ⟨c, rest, rfl, hc⟩ := (h [] (by simp [Ends])).atom_head
  have hfirst : isBlank c = false ∧ c ≠ '=' := by
    rcases hc with rfl | hdigit | hstart
    · decide
    · exact ⟨not_isBlank_of_isWordChar (isWordChar_of_isDigit hdigit), by
        rintro rfl
        exact absurd hdigit (by decide)⟩
    · exact ⟨not_isBlank_of_isWordChar (isWordChar_of_isWordStart hstart), by
        rintro rfl
        exact absurd hstart (by decide)⟩
  exact ⟨⟨c, rest, rfl, hfirst⟩, hlast, fun after hend =>
    ⟨_, .start hfirst.1 (h after hend) .nil, .atom⟩⟩

/-- A phrase in parentheses is an operand at every level. -/
theorem Phrase.group (h : Phrase .disjunction text e) :
    Phrase .primary ('(' :: (text ++ [')'])) e := by
  refine ⟨⟨_, _, rfl, by decide⟩, ⟨')', '(' :: text, by simp, by decide⟩, fun after _ => ?_⟩
  obtain ⟨ts, hts, he⟩ := h.derives (')' :: after) (ends_cons (by decide) after)
  have hclosed : Scans (text ++ ')' :: after) (ts ++ [.closing]) after :=
    scans_append.mpr ⟨_, hts, .start (by decide) .closing .nil⟩
  refine ⟨_, ?_, .group he⟩
  simpa using Scans.start (by decide) .opening hclosed

/-- Two phrases with an operator between them, blanks around it. -/
theorem Phrase.join (ht : Joins l t build) (hsymbol : ∀ cs, Lexeme t symbol (' ' :: cs))
    (hfirst : ∃ c rest, symbol = c :: rest ∧ isBlank c = false) (hx : Phrase l.left text x)
    (hy : Phrase l.tighter text' y) :
    Phrase l (text ++ ' ' :: (symbol ++ ' ' :: text')) (build x y) := by
  obtain ⟨c, rest, rfl, hc⟩ := hfirst
  obtain ⟨d, init, rfl, hd⟩ := hy.last
  obtain ⟨f, first, rfl, hf⟩ := hx.first
  refine ⟨⟨f, _, rfl, hf⟩, ⟨d, f :: first ++ ' ' :: (c :: rest ++ ' ' :: init), by simp, hd⟩,
    fun after hend => ?_⟩
  obtain ⟨b, hb, hderives⟩ := hy.derives after hend
  obtain ⟨u, us, rfl, -⟩ := hderives.head
  have hoperator : Scans (c :: (rest ++ ' ' :: (init ++ [d] ++ after))) (t :: u :: us) after :=
    .start hc (hsymbol _) hb.blank
  obtain ⟨a, ha, hleft⟩ := hx.derives
    (' ' :: c :: (rest ++ ' ' :: (init ++ [d] ++ after))) (ends_cons (by decide) _)
  refine ⟨a ++ t :: u :: us, ?_, .join ht hleft hderives⟩
  simpa using scans_append.mpr ⟨_, ha, hoperator.blank⟩

/-- A sign before a phrase. -/
theorem Phrase.neg (h : Phrase .negation text e) : Phrase .negation ('-' :: text) (negated e) := by
  obtain ⟨c, init, rfl, hc⟩ := h.last
  refine ⟨⟨'-', _, rfl, by decide⟩, ⟨c, '-' :: init, rfl, hc⟩, fun after hend => ?_⟩
  obtain ⟨ts, hts, he⟩ := h.derives after hend
  have hsign : Lexeme (.operator .sub) ['-'] (init ++ [c] ++ after) := .operator (by simp)
  have hscan := Scans.start (by decide) hsign hts
  exact ⟨_, hscan, .neg he⟩

/-- An exclamation mark before a phrase. -/
theorem Phrase.not (h : Phrase .unary text e) : Phrase .unary ('!' :: text) (.not e) := by
  obtain ⟨f, rest, rfl, -, hf⟩ := h.first
  obtain ⟨c, init, heq, hc⟩ := h.last
  refine ⟨⟨'!', _, rfl, by decide⟩, ⟨c, '!' :: init, by rw [heq, List.cons_append], hc⟩,
    fun after hend => ?_⟩
  obtain ⟨ts, hts, he⟩ := h.derives after hend
  have hmark : Lexeme .not ['!'] (f :: rest ++ after) := .not (by simpa using hf)
  have hscan := Scans.start (by decide) hmark hts
  exact ⟨_, hscan, .not he⟩

theorem trimChars_of_ends (hfirst : ∃ c rest, text = c :: rest ∧ isBlank c = false)
    (hlast : ∃ c init, text = init ++ [c] ∧ isBlank c = false) : trimChars text = text := by
  obtain ⟨c, rest, rfl, hc⟩ := hfirst
  obtain ⟨d, init, heq, hd⟩ := hlast
  rw [trimChars, dropBlank_cons hc, heq]
  simp [hd]

/-- A phrase that stands alone is a sentence. -/
theorem Phrase.sentence (h : Phrase .disjunction text e) : Sentence (trimChars text) e := by
  obtain ⟨c, rest, htext, hc, -⟩ := h.first
  obtain ⟨ts, hts, he⟩ := h.derives [] (by simp [Ends])
  rw [trimChars_of_ends ⟨c, rest, htext, hc⟩ h.last]
  exact ⟨ts, [], by simpa using hts, rfl, he⟩

/-- What JSON escapes is read as it is meant, if expressions know the escape. -/
theorem Quoted.escape {body s : List Char} (hc : c.toNat < 32 → c = '\n' ∨ c = '\t')
    (h : Quoted body s) : Quoted (Json.escape c ++ body) (c :: s) := by
  unfold Json.escape
  split_ifs with hquote hbackslash hb ht hn hf hr hcontrol
  · subst hquote
    exact .escaped (c := '"') h
  · subst hbackslash
    exact .escaped (c := '\\') h
  · exact absurd (hc (by rw [hb]; decide)) (by rw [hb]; decide)
  · subst ht
    exact .escaped (c := 't') h
  · subst hn
    exact .escaped (c := 'n') h
  · exact absurd (hc (by rw [hf]; decide)) (by rw [hf]; decide)
  · exact absurd (hc (by rw [hr]; decide)) (by rw [hr]; decide)
  · exact absurd (hc hcontrol) (by simp [hn, ht])
  · exact .plain hquote hbackslash h

theorem quoted_flatMap_escape : ∀ {s : List Char},
    (∀ c ∈ s, c.toNat < 32 → c = '\n' ∨ c = '\t') → Quoted (s.flatMap Json.escape) s
  | [], _ => .nil
  | _ :: _, h =>
      have h := List.forall_mem_cons.mp h
      .escape h.1 (quoted_flatMap_escape h.2)

theorem phrase_string {s : String} (h : LegibleValue (.str s)) :
    Phrase .primary (Json.str s).compact (literal (.str s)) := by
  refine phrase_atom ⟨'"', '"' :: s.toList.flatMap Json.escape, rfl, by decide⟩ fun after _ => ?_
  have hstring : Lexeme (.atom (literal (.str (String.ofList s.toList)))) _ after :=
    .string (quoted_flatMap_escape h)
  rwa [String.ofList_toList] at hstring

theorem isDigits_toDigits (n : Nat) : IsDigits (Nat.toDigits 10 n) :=
  ⟨Nat.toDigits_ne_nil, fun _ hc => Nat.isDigit_of_mem_toDigits (by decide) (by decide) hc⟩

/-- A whole number without a sign is a phrase. -/
theorem phrase_digits {n : Nat} (hn : n < 0x8000000000000000) :
    Phrase .primary (Nat.toDigits 10 n)
      (literal (.num (.int n (Number.inRange_of_lt hn)))) := by
  have hdigits := isDigits_toDigits n
  obtain ⟨init, c, hlast⟩ := (List.eq_nil_or_concat' _).resolve_left hdigits.1
  have hc : c.isDigit = true := hdigits.2 c (by simp [hlast])
  refine phrase_atom ⟨c, init, hlast, not_isBlank_of_isWordChar (isWordChar_of_isDigit hc)⟩
    fun after hend => ?_
  have hvalue : ofDecimal (Nat.toDigits 10 n) = n := Nat.ofDigitChars_ten_toDigits
  have hstop : Ends Char.isDigit after := fun d hd => by
    by_contra hdigit
    have hword := isWordChar_of_isDigit (by simpa using hdigit)
    rw [hend d hd] at hword
    cases hword
  have hpoint : after.head? ≠ some '.' := fun hpoint => absurd (hend '.' hpoint) (by decide)
  have hnumeral := Numeral.int hdigits hstop hpoint (hvalue.symm ▸ hn)
  simpa only [hvalue] using Lexeme.number hnumeral

/-- A whole number with its sign is a phrase. -/
theorem phrase_int {i : Int} (hi : Number.InRange i) (h : LegibleValue (.num (.int i hi))) :
    Phrase .negation (Json.num (.int i hi)).compact (literal (.num (.int i hi))) := by
  have habs : i.natAbs < 0x8000000000000000 := h
  have hdigits := (phrase_digits habs).loosen (l := .negation) (by decide)
  unfold Json.compact Number.write Number.writeInt
  dsimp only
  split_ifs with hneg
  · have hopposite : -(i.natAbs : Int) = i := by omega
    have hsigned : negated (literal (.num (.int i.natAbs (Number.inRange_of_lt habs)))) =
        literal (.num (.int i hi)) := by
      rw [negated, Number.negate_int (by omega) (by omega)]
      simp only [hopposite]
    exact hsigned ▸ hdigits.neg
  · have hself : (i.natAbs : Int) = i := by omega
    simpa only [hself, List.nil_append] using hdigits

theorem phrase_word (h : Word text e) : Phrase .primary text e := by
  obtain ⟨⟨c, rest, rfl, -⟩, hchars⟩ := h.chars
  obtain ⟨init, d, hlast⟩ := (List.eq_nil_or_concat' (c :: rest)).resolve_left (by simp)
  have hd : isWordChar d = true := hchars d (by simp [hlast])
  exact phrase_atom ⟨d, init, hlast, not_isBlank_of_isWordChar hd⟩ fun _ => .word h

theorem phrase_literal {v : Json} (h : LegibleValue v) :
    Phrase .negation v.compact (literal v) := by
  have hword {text : List Char} {e : Expr} (h : Word text e) : Phrase .negation text e :=
    (phrase_word h).loosen (by decide)
  cases v with
  | null => exact hword .litNull
  | bool b =>
      cases b
      · exact hword .litFalse
      · exact hword .litTrue
  | num n =>
      cases n with
      | int i hi => exact phrase_int hi h
      | double d => exact h.elim
  | str s => exact (phrase_string h).loosen (by decide)
  | arr | obj => exact h.elim

theorem isPath_of_all {segments : List (List Char)} (hsome : segments ≠ [])
    (h : (segments.all fun s => !s.isEmpty && s.all fun c => isAlphanumeric c || c == '_') =
      true) : IsPath (['.'].intercalate segments) := by
  refine ⟨segments, hsome, ?_, rfl⟩
  simpa using h

theorem IsPath.ne_nil {path : List Char} (h : IsPath path) : path ≠ [] := by
  rintro rfl
  obtain ⟨segments, hsome, hsegments, hpath⟩ := h
  obtain ⟨s, rest, rfl⟩ := List.exists_cons_of_ne_nil hsome
  have hs := (hsegments s List.mem_cons_self).1
  cases rest with
  | nil => exact hs (by simpa using hpath.symm)
  | cons t rest =>
      rw [List.intercalate_cons_cons] at hpath
      exact absurd (congrArg List.length hpath) (by simp)

theorem phrase_context {path : String} (h : IsPath path.toList) :
    Phrase .primary (context path).renderChars (context path) := by
  have hword := phrase_word (.context h)
  rw [String.ofList_toList] at hword
  exact hword

theorem renderChars_eventData {path : String} (h : path ≠ "") :
    (eventData path).renderChars = "event.data.".toList ++ path.toList := by
  have hrender : (eventData path).renderChars =
      "event.data".toList ++ if path.isEmpty then [] else '.' :: path.toList := rfl
  have hsplit : "event.data.".toList = "event.data".toList ++ ['.'] := by decide
  rw [hrender, hsplit]
  simp [h]

theorem phrase_eventData {path : String} (h : path = "" ∨ IsPath path.toList) :
    Phrase .primary (eventData path).renderChars (eventData path) := by
  rcases h with rfl | hpath
  · exact phrase_word .event
  · have hsome : path ≠ "" := by
      rintro rfl
      exact hpath.ne_nil rfl
    have hword := phrase_word (.eventData hpath)
    rwa [String.ofList_toList, ← renderChars_eventData hsome] at hword

/-- The level that joins the operands of an operator. -/
def operatorLevel : BinaryOp → Level
  | .eq | .ne | .gt | .ge | .lt | .le => .comparison
  | .add | .sub => .sum
  | .mul | .div | .rem => .product

theorem joins_operatorLevel (op : BinaryOp) :
    Joins (operatorLevel op) (.operator op) (binary op) := by
  cases op with
  | eq | ne | gt | ge | lt | le => exact .comparison (by decide)
  | add | sub => exact .sum (by decide)
  | mul | div | rem => exact .product (by decide)

/-- The level of a tree when it is rendered without parentheses around it. -/
def level : Expr → Level
  | literal _ | context _ | eventName | eventData _ | neg _ => .negation
  | not _ => .unary
  | and .. => .conjunction
  | or .. => .disjunction
  | binary op .. => operatorLevel op

/-- Parentheses make an operand of every level of a compound tree, and all other trees are of a
level that logical operators take. -/
theorem Phrase.asOperand (h : Phrase e.level e.renderChars e) :
    Phrase .unary (e.asOperand e.renderChars) e := by
  unfold Expr.asOperand
  split_ifs with hcompound
  · exact (h.loosen (by simp [Level.rank])).group.loosen (by decide)
  · refine h.loosen ?_
    cases e with
    | and | or | binary => exact absurd rfl hcompound
    | _ => simp [level, Level.rank]

/-- Only exclamation marks are left out by arithmetic and comparisons. -/
theorem Phrase.asOperand_of_ne (hne : ∀ x, e ≠ .not x) (h : Phrase e.level e.renderChars e) :
    Phrase .negation (e.asOperand e.renderChars) e := by
  unfold Expr.asOperand
  split_ifs with hcompound
  · exact (h.loosen (by simp [Level.rank])).group.loosen (by decide)
  · refine h.loosen ?_
    cases e with
    | not x => exact absurd rfl (hne x)
    | and | or | binary => exact absurd rfl hcompound
    | _ => exact le_rfl

theorem negated_of_ne (h : ∀ n, e ≠ literal (.num n)) : negated e = neg e := by
  unfold negated
  split
  · next n => exact absurd rfl (h n)
  · rfl

theorem renderChars_and (a b : Expr) : (and a b).renderChars =
    a.asOperand a.renderChars ++ ' ' :: (['&', '&'] ++ ' ' :: b.asOperand b.renderChars) :=
  List.append_assoc (a.asOperand a.renderChars) " && ".toList (b.asOperand b.renderChars)

theorem renderChars_or (a b : Expr) : (or a b).renderChars =
    a.asOperand a.renderChars ++ ' ' :: (['|', '|'] ++ ' ' :: b.asOperand b.renderChars) :=
  List.append_assoc (a.asOperand a.renderChars) " || ".toList (b.asOperand b.renderChars)

/-- The rendering of a legible tree is a phrase of its level. -/
theorem phrase_renderChars : ∀ {e : Expr}, e.Legible → Phrase e.level e.renderChars e
  | literal _, h => phrase_literal h
  | context _, h => Phrase.loosen (l := .negation) (by decide) (phrase_context h)
  | eventName, _ => Phrase.loosen (l := .negation) (by decide) (phrase_word .eventName)
  | eventData _, h => Phrase.loosen (l := .negation) (by decide) (phrase_eventData h)
  | not e, h => (phrase_renderChars (e := e) h).asOperand.not
  | neg e, ⟨h, hne, hnum⟩ => by
      have hneg := ((phrase_renderChars h).asOperand_of_ne hne).neg
      rwa [negated_of_ne hnum] at hneg
  | and a b, ⟨ha, hb⟩ => by
      rw [renderChars_and]
      exact .join (l := .conjunction) .and (fun _ => .and) ⟨_, _, rfl, by decide⟩
        ((phrase_renderChars ha).asOperand.loosen (by decide)) (phrase_renderChars hb).asOperand
  | or a b, ⟨ha, hb⟩ => by
      rw [renderChars_or]
      exact .join (l := .disjunction) .or (fun _ => .or) ⟨_, _, rfl, by decide⟩
        ((phrase_renderChars ha).asOperand.loosen (by decide))
        ((phrase_renderChars hb).asOperand.loosen (by decide))
  | binary op a b, ⟨⟨ha, hna⟩, hb, hnb⟩ => by
      have hlevels : (operatorLevel op).left.rank ≤ Level.negation.rank ∧
          (operatorLevel op).tighter.rank ≤ Level.negation.rank := by
        cases op <;> decide
      have hfirst : ∃ c rest, op.symbol = c :: rest ∧ isBlank c = false := by
        cases op <;> exact ⟨_, _, rfl, by decide⟩
      exact .join (joins_operatorLevel op) (fun _ => .operator (by simp)) hfirst
        (((phrase_renderChars ha).asOperand_of_ne hna).loosen hlevels.1)
        (((phrase_renderChars hb).asOperand_of_ne hnb).loosen hlevels.2)

/-- A legible tree is read back from its rendering. -/
theorem read_render (e : Expr) (h : e.Legible) : read e.render = .ok e := by
  have hphrase := (phrase_renderChars h).loosen (l := .disjunction) (by simp [Level.rank])
  have hsentence : Sentence (trimChars e.render.toList) e := by
    simpa [render] using hphrase.sentence
  exact readTrimmed_ok_iff.mpr hsentence

/-- Signs, an exclamation mark, escapes, a negative number and all kinds of references. -/
theorem read_render_mixed :
    let total := binary .add (context "order.total_2") (neg (eventData "fee"))
    let note := not (binary .eq (eventData "") (literal (.str "\"a\"\n")))
    let tree := or (binary .le total (literal (.num (.ofInt64 (-5)))))
      (and note (binary .ne eventName (literal .null)))
    tree.Legible ∧ tree.render = "((ctx.order.total_2 + -event.data.fee) <= -5) || " ++
      "(!(event.data == \"\\\"a\\\"\\n\") && (event.name != null))" ∧
      read tree.render = .ok tree := by
  intro total note tree
  have htotal : IsPath "order.total_2".toList :=
    isPath_of_all (by simp : ["order".toList, "total_2".toList] ≠ []) (by decide)
  have hfee : IsPath "fee".toList := isPath_of_all (by simp : ["fee".toList] ≠ []) (by decide)
  have hnote : LegibleValue (.str "\"a\"\n") := by simp [LegibleValue]
  have hsum : total.Legible :=
    ⟨⟨htotal, by simp⟩, ⟨.inr hfee, by simp, by simp⟩, by simp⟩
  have hfive : LegibleValue (.num (.ofInt64 (-5))) := by simp [LegibleValue, Number.ofInt64]
  have hleft : (binary .le total (literal (.num (.ofInt64 (-5))))).Legible :=
    ⟨⟨hsum, by simp [total]⟩, hfive, by simp⟩
  have hright : (and note (binary .ne eventName (literal .null))).Legible :=
    ⟨⟨⟨.inl rfl, by simp⟩, hnote, by simp⟩, ⟨trivial, by simp⟩, trivial, by simp⟩
  have hlegible : tree.Legible := ⟨hleft, hright⟩
  exact ⟨hlegible, by decide +kernel, read_render tree hlegible⟩

end Statechart.Expr
