import Mathlib.Tactic
import Statechart.Expr.Reader
import Statechart.Proofs.Checks

/-!
# Lexemes of expressions

The smallest parts of an expression, as relations between a piece of text, the text after it and
what the piece stands for. Words and numbers go as far as they can, which is a condition on the
text after them; an exclamation mark and an angle bracket are not followed by an equals sign. The
scanners of the reader find exactly these pieces.
-/
namespace Statechart.Expr

open Text

/-- What expressions are written in: operands that are read at once, operators and parentheses. -/
inductive Token where
  | atom (e : Expr)
  | operator (op : BinaryOp)
  | or
  | and
  | not
  | opening
  | closing

/-- A text does not go on with a character of a class. -/
def Ends (p : Char → Bool) (after : List Char) : Prop := ∀ c, after.head? = some c → p c = false

theorem ends_dropWhile (p : Char → Bool) (cs : List Char) : Ends p (cs.dropWhile p) := by
  intro c hc
  have hhead := List.head?_dropWhile_not p cs
  rw [hc] at hhead
  simpa using hhead

/-- A run of characters of a class that does not go on is what is taken off the front. -/
theorem takeWhile_append_of_ends {p : Char → Bool} {text after : List Char}
    (htext : ∀ c ∈ text, p c = true) (hend : Ends p after) :
    (text ++ after).takeWhile p = text ∧ (text ++ after).dropWhile p = after := by
  rw [List.takeWhile_append_of_pos htext, List.dropWhile_append_of_pos htext]
  cases after with
  | nil => simp
  | cons c rest => simp [hend c rfl]

/-- What a character stands for after a backslash. -/
def unescape (c : Char) : Char := if c = 'n' then '\n' else if c = 't' then '\t' else c

/-- The text between the quotes of a string, and the characters that it stands for. -/
inductive Quoted : List Char → List Char → Prop where
  | nil : Quoted [] []
  | plain {c body s} (hquote : c ≠ '"') (hbackslash : c ≠ '\\') (h : Quoted body s) :
    Quoted (c :: body) (c :: s)
  | escaped {c body s} (h : Quoted body s) : Quoted ('\\' :: c :: body) (unescape c :: s)

theorem scanString_sound {done cs s rest : List Char} (h : scanString done cs = some (s, rest)) :
    ∃ body t, Quoted body t ∧ cs = body ++ '"' :: rest ∧ s = done.reverse ++ t := by
  fun_induction scanString done cs with
  | case1 => cases h
  | case2 done rest' =>
      cases h
      exact ⟨[], [], .nil, rfl, by simp⟩
  | case3 => cases h
  | case4 done c rest' ih =>
      obtain ⟨body, t, hbody, hcs, hs⟩ := ih h
      exact ⟨_, _, .escaped (c := c) hbody, by simp [hcs], by simp [hs, unescape]⟩
  | case5 done c rest' hquote hlone hescape ih =>
      obtain ⟨body, t, hbody, hcs, hs⟩ := ih h
      refine ⟨_, _, .plain (c := c) hquote ?_ hbody, by simp [hcs], by simp [hs]⟩
      rintro rfl
      cases rest' with
      | nil => exact hlone rfl rfl
      | cons d rest' => exact hescape d rest' rfl rfl

theorem scanString_complete {body t : List Char} (h : Quoted body t) : ∀ done rest : List Char,
    scanString done (body ++ '"' :: rest) = some (done.reverse ++ t, rest) := by
  induction h with
  | nil => simp [scanString]
  | @plain c body s hquote hbackslash _ ih =>
      intro done rest
      have hstep : scanString done (c :: (body ++ '"' :: rest)) =
          scanString (c :: done) (body ++ '"' :: rest) := by
        rw [scanString]
        · exact fun h => hquote h
        · exact fun h => absurd h hbackslash
        · exact fun _ _ h => absurd h hbackslash
      simpa [ih] using hstep
  | escaped _ ih =>
      intro done rest
      simp [scanString, ih, unescape]

/-- A run of ASCII digits, at least one. -/
def IsDigits (cs : List Char) : Prop := cs ≠ [] ∧ ∀ c ∈ cs, c.isDigit = true

/-- The number that digits stand for. -/
def ofDecimal (digits : List Char) : Nat := Nat.ofDigitChars 10 digits 0

/-- A number at the front of a text: digits with at most one point among or after them. It is a
whole number when it has no point and fits 64 bits with a sign, and the nearest double otherwise,
if there is one. -/
inductive Numeral : List Char → List Char → Number → Prop where
  | int {digits after} (hdigits : IsDigits digits) (hend : Ends Char.isDigit after)
    (hpoint : after.head? ≠ some '.') (hfits : ofDecimal digits < 0x8000000000000000) :
    Numeral digits after (.int (ofDecimal digits) (Number.inRange_of_lt hfits))
  | large {digits after d} (hdigits : IsDigits digits) (hend : Ends Char.isDigit after)
    (hpoint : after.head? ≠ some '.') (hlarge : 0x8000000000000000 ≤ ofDecimal digits)
    (hd : (⟨ofDecimal digits, 0⟩ : Decimal).toDouble? false = some d) :
    Numeral digits after (.double d)
  | point {whole tail after d} (hwhole : IsDigits whole) (htail : ∀ c ∈ tail, c.isDigit = true)
    (hend : Ends Char.isDigit after)
    (hd : (⟨ofDecimal (whole ++ tail), -(tail.length : Int)⟩ : Decimal).toDouble? false = some d) :
    Numeral (whole ++ '.' :: tail) after (.double d)

theorem Numeral.head {text after : List Char} {v : Number} (h : Numeral text after v) :
    ∃ c rest, text = c :: rest ∧ c.isDigit = true := by
  have hfirst {digits : List Char} (hdigits : IsDigits digits) :
      ∃ c rest, digits = c :: rest ∧ c.isDigit = true := by
    obtain ⟨c, rest, rfl⟩ := List.exists_cons_of_ne_nil hdigits.1
    exact ⟨c, rest, rfl, hdigits.2 c List.mem_cons_self⟩
  cases h with
  | int hdigits | large hdigits => exact hfirst hdigits
  | point hdigits =>
      obtain ⟨c, rest, rfl, hc⟩ := hfirst hdigits
      exact ⟨c, _, rfl, hc⟩

theorem scanNumber_of_ends {digits after : List Char} (hdigits : ∀ c ∈ digits, c.isDigit = true)
    (hend : Ends Char.isDigit after) (hpoint : after.head? ≠ some '.') :
    scanNumber (digits ++ after) = (digits, none, after) := by
  obtain ⟨htake, hdrop⟩ := takeWhile_append_of_ends hdigits hend
  unfold scanNumber
  rw [htake, hdrop]
  split
  · next rest => simp at hpoint
  · rfl

theorem scanNumber_of_point {whole tail after : List Char}
    (hwhole : ∀ c ∈ whole, c.isDigit = true) (htail : ∀ c ∈ tail, c.isDigit = true)
    (hend : Ends Char.isDigit after) :
    scanNumber (whole ++ '.' :: (tail ++ after)) = (whole, some tail, after) := by
  have hdot : Ends Char.isDigit ('.' :: (tail ++ after)) := by
    rintro c ⟨⟩
    rfl
  obtain ⟨htake, hdrop⟩ := takeWhile_append_of_ends hwhole hdot
  obtain ⟨htake', hdrop'⟩ := takeWhile_append_of_ends htail hend
  simp only [scanNumber, htake, hdrop, htake', hdrop']

theorem ofDigits_complete {text after : List Char} {v : Number} (h : Numeral text after v) :
    ofDigits (scanNumber (text ++ after)).1 (scanNumber (text ++ after)).2.1 =
        .ok (literal (.num v)) ∧
      (scanNumber (text ++ after)).2.2 = after := by
  cases h with
  | int hdigits hend hpoint hfits =>
      rw [scanNumber_of_ends hdigits.2 hend hpoint]
      rw [ofDecimal] at hfits
      simp [ofDigits, hfits, ofDecimal]
  | large hdigits hend hpoint hlarge hd =>
      rw [scanNumber_of_ends hdigits.2 hend hpoint]
      rw [ofDecimal] at hlarge hd
      simp [ofDigits, not_lt.mpr hlarge, hd]
  | point hwhole htail hend hd =>
      rw [List.append_assoc, List.cons_append, scanNumber_of_point hwhole.2 htail hend]
      rw [ofDecimal] at hd
      simp [ofDigits, hd]

theorem isDigits_takeWhile {c : Char} (cs : List Char) (hc : c.isDigit = true) :
    IsDigits ((c :: cs).takeWhile Char.isDigit) :=
  ⟨by simp [hc], fun _ h => List.all_eq_true.mp (List.all_takeWhile ..) _ h⟩

/-- Digits give a whole number, or a double when there is a point or they are too large. -/
theorem ofDigits_ok {whole : List Char} {fraction : Option (List Char)} {e : Expr}
    (h : ofDigits whole fraction = .ok e) :
    (∃ hfits : ofDecimal whole < 0x8000000000000000, fraction = none ∧
      e = literal (.num (.int (ofDecimal whole) (Number.inRange_of_lt hfits)))) ∨
    ((fraction = none → 0x8000000000000000 ≤ ofDecimal whole) ∧
      ∃ d, (⟨ofDecimal (whole ++ fraction.getD []), -((fraction.getD []).length : Int)⟩ :
        Decimal).toDouble? false = some d ∧ e = literal (.num (.double d))) := by
  unfold ofDigits at h
  dsimp only at h
  split at h
  · next hwhole =>
      cases h
      exact .inl ⟨hwhole.2, by simpa using hwhole.1, rfl⟩
  · next hnot =>
      split at h
      · next d hd =>
          cases h
          refine .inr ⟨fun hnone => ?_, d, hd, rfl⟩
          rw [hnone] at hnot
          simpa [ofDecimal] using hnot
      · cases h

theorem ofDigits_sound {c : Char} {cs : List Char} {e : Expr} (hc : c.isDigit = true)
    (h : ofDigits (scanNumber (c :: cs)).1 (scanNumber (c :: cs)).2.1 = .ok e) :
    ∃ text v, c :: cs = text ++ (scanNumber (c :: cs)).2.2 ∧ e = literal (.num v) ∧
      Numeral text (scanNumber (c :: cs)).2.2 v := by
  have hdigits := isDigits_takeWhile cs hc
  have hsplit := List.takeWhile_append_dropWhile (p := Char.isDigit) (l := c :: cs)
  have hend := ends_dropWhile Char.isDigit (c :: cs)
  unfold scanNumber at h ⊢
  generalize (c :: cs).takeWhile Char.isDigit = whole at *
  generalize (c :: cs).dropWhile Char.isDigit = rest at *
  rw [← hsplit]
  split at h
  · next rest =>
      have htail : ∀ d ∈ rest.takeWhile Char.isDigit, d.isDigit = true := fun _ hd =>
        List.all_eq_true.mp (List.all_takeWhile ..) _ hd
      rcases ofDigits_ok h with ⟨_, hnone, _⟩ | ⟨_, d, hd, rfl⟩
      · cases hnone
      · refine ⟨_, _, ?_, rfl, .point hdigits htail (ends_dropWhile _ _) hd⟩
        simp
  · next hpoint =>
      have hhead : rest.head? ≠ some '.' := by
        rintro hhead
        obtain ⟨rest', rfl⟩ := List.head?_eq_some_iff.mp hhead
        exact hpoint rest' rfl
      rcases ofDigits_ok h with ⟨hfits, _, rfl⟩ | ⟨hlarge, d, hd, rfl⟩
      · exact ⟨_, _, rfl, rfl, .int hdigits hend hhead hfits⟩
      · exact ⟨_, _, rfl, rfl, .large hdigits hend hhead (hlarge rfl) (by simpa using hd)⟩

/-- A path of segments between points, none of them empty, of letters, digits and underscores. -/
def IsPath (path : List Char) : Prop :=
  ∃ segments : List (List Char), segments ≠ [] ∧
    (∀ s ∈ segments, s ≠ [] ∧ ∀ c ∈ s, isAlphanumeric c = true ∨ c = '_') ∧
    path = ['.'].intercalate segments

/-- The words and what they stand for. -/
inductive Word : List Char → Expr → Prop where
  | litTrue : Word "true".toList (literal (.bool true))
  | litFalse : Word "false".toList (literal (.bool false))
  | litNull : Word "null".toList (literal .null)
  | eventName : Word "event.name".toList eventName
  | event : Word "event.data".toList (eventData "")
  | context {path} (h : IsPath path) : Word ("ctx.".toList ++ path) (context (String.ofList path))
  | eventData {path} (h : IsPath path) :
    Word ("event.data.".toList ++ path) (eventData (String.ofList path))

theorem dropWord?_eq_some_iff {word cs rest : List Char} :
    dropWord? word cs = some rest ↔ cs = word ++ rest := by
  induction word generalizing cs with
  | nil => simp [dropWord?, eq_comm]
  | cons w ws ih =>
      cases cs with
      | nil => simp [dropWord?]
      | cons c cs =>
          by_cases hwc : w = c
          · simp [dropWord?, hwc, ih]
          · simp [dropWord?, hwc, Ne.symm hwc]

theorem dropWord?_append (word rest : List Char) : dropWord? word (word ++ rest) = some rest :=
  dropWord?_eq_some_iff.mpr rfl

theorem splitOn_eq (sep : Char) (cs : List Char) : Text.splitOn sep cs = cs.splitOn sep := by
  induction cs with
  | nil => rfl
  | cons c cs ih =>
      rw [Text.splitOn, List.splitOn_cons_eq_if_modifyHead, ih]
      obtain ⟨piece, pieces, hpieces⟩ := List.exists_cons_of_ne_nil (List.splitOn_ne_nil sep cs)
      simp [hpieces]

/-- The pieces between separators are made of the other characters of a text. -/
theorem mem_splitOn {sep : Char} {cs s : List Char} (hs : s ∈ Text.splitOn sep cs) :
    ∀ c ∈ s, c ∈ cs ∧ c ≠ sep := by
  induction cs generalizing s with
  | nil =>
      obtain rfl : s = [] := by simpa [Text.splitOn] using hs
      simp
  | cons d cs ih =>
      unfold Text.splitOn at hs
      obtain ⟨piece, pieces, hpieces⟩ := List.exists_cons_of_ne_nil (Text.splitOn_ne_nil sep cs)
      rw [hpieces] at hs ih
      have hrest {t : List Char} (ht : t ∈ piece :: pieces) : ∀ c ∈ t, c ∈ d :: cs ∧ c ≠ sep :=
        fun c hc => (ih ht c hc).imp (List.mem_cons_of_mem d) id
      split at hs
      · rcases List.mem_cons.mp hs with rfl | hs
        · simp
        · exact hrest hs
      · next hd =>
          rcases List.mem_cons.mp hs with rfl | hs
          · rintro c hc
            rcases List.mem_cons.mp hc with rfl | hc
            · exact ⟨List.mem_cons_self, hd⟩
            · exact hrest List.mem_cons_self c hc
          · exact hrest (List.mem_cons_of_mem _ hs)

theorem fieldPath?_ok_iff {path : List Char} (hpath : ∀ c ∈ path, isWordChar c = true)
    {p : String} : fieldPath? path = .ok p ↔ IsPath path ∧ p = String.ofList path := by
  have hok : fieldPath? path = .ok p ↔
      (∀ s ∈ Text.splitOn '.' path, s ≠ []) ∧ p = String.ofList path := by
    unfold fieldPath?
    split
    · next hbad =>
        refine iff_of_false (by simp) fun h => ?_
        rcases hbad with hempty | hany
        · exact h.1 [] (by simp [List.isEmpty_iff.mp hempty, Text.splitOn]) rfl
        · obtain ⟨s, hs, hnil⟩ := List.any_eq_true.mp hany
          exact h.1 s hs (List.isEmpty_iff.mp hnil)
    · next hgood =>
        simp only [Bool.not_eq_true, not_or, List.any_eq_false, List.isEmpty_iff] at hgood
        simp only [Except.ok.injEq, eq_comm (a := p), iff_and_self]
        exact fun _ => hgood.2
  rw [hok]
  refine and_congr_left fun _ => ⟨fun hne => ?_, ?_⟩
  · refine ⟨_, Text.splitOn_ne_nil '.' path, fun s hs => ⟨hne s hs, fun c hc => ?_⟩, ?_⟩
    · obtain ⟨hmem, hdot⟩ := mem_splitOn hs c hc
      simpa [isWordChar, hdot] using hpath c hmem
    · rw [splitOn_eq, List.intercalate_splitOn]
  · rintro ⟨segments, hsome, hsegments, rfl⟩
    have hdot : ∀ s ∈ segments, '.' ∉ s := fun s hs hmem => by
      rcases (hsegments s hs).2 '.' hmem with h | h
      · exact absurd h (by decide)
      · exact absurd h (by decide)
    rw [splitOn_eq, List.splitOn_intercalate '.' hdot hsome]
    exact fun s hs => (hsegments s hs).1

theorem ofWord_sound {word : List Char} {e : Expr} (hword : ∀ c ∈ word, isWordChar c = true)
    (h : ofWord word = .ok e) : Word word e := by
  unfold ofWord at h
  split at h
  · next hw => cases h; exact hw ▸ .litTrue
  split at h
  · next hw => cases h; exact hw ▸ .litFalse
  split at h
  · next hw => cases h; exact hw ▸ .litNull
  split at h
  · next hw => cases h; exact hw ▸ .eventName
  split at h
  · next hw => cases h; exact hw ▸ .event
  cases hcontext : dropWord? "ctx.".toList word with
  | some path =>
      obtain rfl := dropWord?_eq_some_iff.mp hcontext
      rw [hcontext] at h
      obtain ⟨p, hp, rfl⟩ := map_eq_ok_iff.mp h
      obtain ⟨hpath, rfl⟩ :=
        (fieldPath?_ok_iff fun c hc => hword c (List.mem_append_right _ hc)).mp hp
      exact .context hpath
  | none =>
    cases hevent : dropWord? "event.data.".toList word with
    | some path =>
        obtain rfl := dropWord?_eq_some_iff.mp hevent
        rw [hcontext, hevent] at h
        obtain ⟨p, hp, rfl⟩ := map_eq_ok_iff.mp h
        obtain ⟨hpath, rfl⟩ :=
          (fieldPath?_ok_iff fun c hc => hword c (List.mem_append_right _ hc)).mp hp
        exact .eventData hpath
    | none =>
        rw [hcontext, hevent] at h
        dsimp only at h
        split at h <;> cases h

theorem ofWord_complete {word : List Char} {e : Expr} (hword : ∀ c ∈ word, isWordChar c = true)
    (h : Word word e) : ofWord word = .ok e := by
  cases h with
  | litTrue | litFalse | litNull | eventName | event => rfl
  | @context path hpath =>
      have hp := (fieldPath?_ok_iff fun c hc => hword c (List.mem_append_right _ hc)).mpr
        ⟨hpath, rfl⟩
      unfold ofWord
      rw [dropWord?_append, if_neg (by simp), if_neg (by simp), if_neg (by simp),
        if_neg (by simp), if_neg (by simp)]
      exact map_eq_ok_iff.mpr ⟨_, hp, rfl⟩
  | @eventData path hpath =>
      have hp := (fieldPath?_ok_iff fun c hc => hword c (List.mem_append_right _ hc)).mpr
        ⟨hpath, rfl⟩
      have hcontext : dropWord? "ctx.".toList ("event.data.".toList ++ path) = none := by
        simp [dropWord?]
      unfold ofWord
      rw [hcontext, dropWord?_append, if_neg (by simp), if_neg (by simp), if_neg (by simp),
        if_neg (by simp), if_neg (by simp)]
      exact map_eq_ok_iff.mpr ⟨_, hp, rfl⟩

/-- A piece of text that is a token, and the text after it. -/
inductive Lexeme : Token → List Char → List Char → Prop where
  | string {body s after} (h : Quoted body s) :
    Lexeme (.atom (literal (.str (String.ofList s)))) ('"' :: (body ++ ['"'])) after
  | number {text after v} (h : Numeral text after v) : Lexeme (.atom (literal (.num v))) text after
  | word {word after e} (h : Word word e) (hend : Ends isWordChar after) :
    Lexeme (.atom e) word after
  | operator {op after} (h : op = .gt ∨ op = .lt → after.head? ≠ some '=') :
    Lexeme (.operator op) op.symbol after
  | or {after} : Lexeme .or ['|', '|'] after
  | and {after} : Lexeme .and ['&', '&'] after
  | not {after} (h : after.head? ≠ some '=') : Lexeme .not ['!'] after
  | opening {after} : Lexeme .opening ['('] after
  | closing {after} : Lexeme .closing [')'] after

theorem mem_intercalate {sep c : Char} : ∀ {segments : List (List Char)},
    c ∈ [sep].intercalate segments → c = sep ∨ ∃ s ∈ segments, c ∈ s
  | [], h => by simp at h
  | [s], h => .inr ⟨s, by simp, by simpa using h⟩
  | s :: t :: rest, h => by
      rw [List.intercalate_cons_cons, List.mem_append, List.mem_append, List.mem_singleton] at h
      rcases h with (h | h) | h
      · exact .inr ⟨s, by simp, h⟩
      · exact .inl h
      · exact (mem_intercalate h).imp id fun ⟨u, hu, hc⟩ => ⟨u, List.mem_cons_of_mem _ hu, hc⟩

theorem IsPath.isWordChar {path : List Char} (h : IsPath path) :
    ∀ c ∈ path, isWordChar c = true := by
  obtain ⟨segments, -, hsegments, rfl⟩ := h
  intro c hc
  rcases mem_intercalate hc with rfl | ⟨s, hs, hcs⟩
  · decide
  · rcases (hsegments s hs).2 c hcs with h | rfl
    · simp [Expr.isWordChar, h]
    · decide

/-- A word begins like one and is made of the characters of one. -/
theorem Word.chars {word : List Char} {e : Expr} (h : Word word e) :
    (∃ c rest, word = c :: rest ∧ isWordStart c = true) ∧ ∀ c ∈ word, isWordChar c = true := by
  cases h with
  | litTrue | litFalse | litNull | eventName | event =>
      exact ⟨⟨_, _, rfl, by decide⟩, List.all_eq_true.mp (by decide)⟩
  | context h =>
      refine ⟨⟨_, _, rfl, by decide⟩, fun c hc => ?_⟩
      rcases List.mem_append.mp hc with hc | hc
      · have hall : "ctx.".toList.all Expr.isWordChar = true := by decide
        exact List.all_eq_true.mp hall c hc
      · exact h.isWordChar c hc
  | eventData h =>
      refine ⟨⟨_, _, rfl, by decide⟩, fun c hc => ?_⟩
      rcases List.mem_append.mp hc with hc | hc
      · have hall : "event.data.".toList.all Expr.isWordChar = true := by decide
        exact List.all_eq_true.mp hall c hc
      · exact h.isWordChar c hc

theorem isWordChar_of_isWordStart {c : Char} (h : isWordStart c = true) : isWordChar c = true := by
  rcases Bool.or_eq_true _ _ ▸ h with h | h <;> simp [isWordChar, isAlphanumeric, h]

theorem not_isDigit_of_isWordStart {c : Char} (h : isWordStart c = true) : c.isDigit = false := by
  by_contra hdigit
  rw [Bool.not_eq_false] at hdigit
  have hrange : 48 ≤ c.toNat ∧ c.toNat ≤ 57 := by
    simpa [Char.isDigit, UInt32.le_iff_toNat_le] using hdigit
  have hne : c ≠ '_' := by
    rintro rfl
    exact absurd hdigit (by decide)
  have hletter : isAlphabetic c = true := by simpa [isWordStart, hne] using h
  have hnot : c.isAlpha = false := by
    unfold Char.isAlpha Char.isUpper Char.isLower
    simp [UInt32.le_iff_toNat_le]
    omega
  rw [isAlphabetic, if_pos (by omega), hnot] at hletter
  cases hletter

/-- How the text of an operand that is read at once begins. -/
theorem Lexeme.atom_head {e : Expr} {text after : List Char} (h : Lexeme (.atom e) text after) :
    ∃ c rest, text = c :: rest ∧ (c = '"' ∨ c.isDigit = true ∨ isWordStart c = true) := by
  cases h with
  | string h => exact ⟨_, _, rfl, .inl rfl⟩
  | number h =>
      obtain ⟨c, rest, rfl, hc⟩ := h.head
      exact ⟨c, rest, rfl, .inr (.inl hc)⟩
  | word h =>
      obtain ⟨c, rest, rfl, hstart⟩ := h.chars.1
      exact ⟨c, rest, rfl, .inr (.inr hstart)⟩

end Statechart.Expr
