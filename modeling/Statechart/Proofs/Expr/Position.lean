import Mathlib.Data.List.DropRight
import Statechart.Proofs.Expr.Procedures
import Statechart.Proofs.Expr.Rendering

/-!
# Where the reader stops

The tokens that a text begins with do not depend on what it goes on with: a word or a number that
has come to its end before other characters has come to it before none, and a mark that no equals
sign follows is not followed by one there either. So when input is left over, the tokens in front of
it make an expression of their own. Tokens do not end in blanks, which are what else has been moved
over. That input is left over is said of whole texts only, never of a part.

The main result puts this together with the run of the cursor: from its moments being in order, the
cursor goes forward from one boundary between characters to another within the text, and no
procedure is called again where it is already at work.
-/
namespace Statechart.Expr

open Text

variable {α : Type} {t : Token} {ts : List Token} {cs text mid rest after : List Char} {c : Char}
  {n : Nat} {inner : Inner n}

theorem head?_ne_of_append (h : (mid ++ rest).head? ≠ some c) : mid.head? ≠ some c := by
  intro hc
  obtain ⟨tail, rfl⟩ := List.head?_eq_some_iff.mp hc
  exact h rfl

theorem Ends.of_append {p : Char → Bool} (h : Ends p (mid ++ rest)) : Ends p mid := by
  intro c hc
  obtain ⟨tail, rfl⟩ := List.head?_eq_some_iff.mp hc
  exact h c rfl

theorem Numeral.of_append {v : Number} (h : Numeral text (mid ++ rest) v) : Numeral text mid v := by
  cases h with
  | int hdigits hend hpoint hfits =>
      exact .int hdigits hend.of_append (head?_ne_of_append hpoint) hfits
  | large hdigits hend hpoint hlarge hd =>
      exact .large hdigits hend.of_append (head?_ne_of_append hpoint) hlarge hd
  | point hwhole htail hend hd => exact .point hwhole htail hend.of_append hd

/-- A lexeme is one also when the text after it ends sooner. -/
theorem Lexeme.of_append (h : Lexeme t text (mid ++ rest)) : Lexeme t text mid := by
  cases h with
  | string h => exact .string h
  | number h => exact .number h.of_append
  | word h hend => exact .word h hend.of_append
  | operator h => exact .operator fun hop => head?_ne_of_append (h hop)
  | or => exact .or
  | and => exact .and
  | not h => exact .not (head?_ne_of_append h)
  | opening => exact .opening
  | closing => exact .closing

theorem exists_blanks (cs : List Char) :
    ∃ blanks, cs = blanks ++ dropBlank cs ∧ ∀ c ∈ blanks, isBlank c = true :=
  ⟨_, List.takeWhile_append_dropWhile.symm, List.all_eq_true.mp List.all_takeWhile⟩

/-- The tokens that a text begins with are those of its beginning alone. -/
theorem Scans.alone (h : Scans cs ts after) : ∃ used, cs = used ++ after ∧ Scans used ts [] := by
  induction h with
  | nil => exact ⟨[], rfl, .nil⟩
  | @cons cs t text mid ts after hcs ht _ ih =>
      obtain ⟨used, rfl, hused⟩ := ih
      obtain ⟨blanks, hsplit, hblanks⟩ := exists_blanks cs
      -- the text of the token does not begin with a blank, whatever is cut off behind it
      have hbegins : text ++ used <+: dropBlank cs := ⟨after, by simp [hcs]⟩
      have hdrop : dropBlank (blanks ++ (text ++ used)) = text ++ used := by
        rw [dropBlank, List.dropWhile_append_of_pos hblanks]
        exact dropBlank_of_prefix hbegins (dropBlank_dropBlank cs)
      rw [hcs] at hsplit
      exact ⟨blanks ++ (text ++ used), by simp [hsplit], .cons hdrop ht.of_append hused⟩

theorem last_of_isWordChar (hne : text ≠ []) (h : ∀ c ∈ text, isWordChar c = true) :
    ∃ c init, text = init ++ [c] ∧ isBlank c = false := by
  have hlast := h _ (List.getLast_mem hne)
  exact ⟨_, _, (List.dropLast_append_getLast hne).symm, not_isBlank_of_isWordChar hlast⟩

theorem Numeral.isWordChar {v : Number} (h : Numeral text after v) :
    ∀ c ∈ text, isWordChar c = true := by
  cases h with
  | int hdigits | large hdigits => exact fun c hc => isWordChar_of_isDigit (hdigits.2 c hc)
  | point hwhole htail =>
      refine List.forall_mem_append.mpr ⟨fun c hc => isWordChar_of_isDigit (hwhole.2 c hc), ?_⟩
      exact List.forall_mem_cons.mpr ⟨by decide, fun c hc => isWordChar_of_isDigit (htail c hc)⟩

theorem Lexeme.last (h : Lexeme t text after) :
    ∃ c init, text = init ++ [c] ∧ isBlank c = false := by
  cases h with
  | @string body => exact ⟨'"', '"' :: body, rfl, by decide⟩
  | number h =>
      obtain ⟨c, rest, rfl, -⟩ := h.head
      exact last_of_isWordChar nofun h.isWordChar
  | word h =>
      obtain ⟨⟨c, rest, rfl, -⟩, hchars⟩ := h.chars
      exact last_of_isWordChar nofun hchars
  | @operator op =>
      cases op <;> first | exact ⟨_, [], rfl, by decide⟩ | exact ⟨_, [_], rfl, by decide⟩
  | or | and => exact ⟨_, [_], rfl, by decide⟩
  | not | opening | closing => exact ⟨_, [], rfl, by decide⟩

/-- Tokens do not end in a blank. -/
theorem Scans.last (h : Scans cs ts after) (hne : ts ≠ []) :
    ∃ c init, cs = init ++ c :: after ∧ isBlank c = false := by
  induction h with
  | nil => exact absurd rfl hne
  | @cons cs t text mid ts after hcs ht hts ih =>
      obtain ⟨blanks, hsplit, -⟩ := exists_blanks cs
      rw [hcs] at hsplit
      cases hts with
      | nil =>
          obtain ⟨c, init, rfl, hc⟩ := ht.last
          exact ⟨c, blanks ++ init, by rw [hsplit]; simp, hc⟩
      | cons =>
          obtain ⟨c, init, rfl, hc⟩ := ih nofun
          exact ⟨c, blanks ++ (text ++ init), by rw [hsplit]; simp, hc⟩

/-- Whether a text is refused for what is left over after an expression. -/
def ReadError.isLeftOver : ReadError → Bool
  | unexpectedInput .. => true
  | _ => false

/-- Nothing is said of input that is left over. -/
def Inside : Except ReadError α → Prop
  | .ok _ => True
  | .error reason => reason.isLeftOver = false

theorem Inside.error {β : Type} {result : Except ReadError α} {reason : ReadError}
    (h : Inside result) (hresult : result = .error reason) :
    Inside (.error reason : Except ReadError β) := by
  rw [hresult] at h
  exact h

theorem Inside.map {β : Type} {result : Except ReadError α} (h : Inside result) (f : α → β) :
    Inside (result.map f) := by
  cases result with
  | ok => exact trivial
  | error reason => exact h.error rfl

theorem inside_ofDigits (whole : List Char) (fraction : Option (List Char)) :
    Inside (ofDigits whole fraction) := by
  unfold ofDigits
  dsimp only
  split
  · exact trivial
  split
  · exact trivial
  · exact rfl

theorem inside_fieldPath? (path : List Char) : Inside (fieldPath? path) := by
  unfold fieldPath?
  split
  · exact rfl
  · exact trivial

theorem inside_ofWord (word : List Char) : Inside (ofWord word) := by
  unfold ofWord
  split
  · exact trivial
  split
  · exact trivial
  split
  · exact trivial
  split
  · exact trivial
  split
  · exact trivial
  split
  · exact (inside_fieldPath? _).map _
  · exact (inside_fieldPath? _).map _
  split
  · exact rfl
  · exact rfl

section parts
variable (hi : ∀ cs h, Inside (inner cs h))
include hi

theorem inside_primaryAt (h : cs.length ≤ n) : Inside (primaryAt inner cs h) := by
  cases cs with
  | nil => exact rfl
  | cons c cs =>
      rw [primaryAt]
      split
      · split
        · next reason hreason => exact (hi _ _).error hreason
        split
        · exact trivial
        · exact rfl
      split
      · split
        · exact trivial
        · exact rfl
      split
      · dsimp only
        split
        · next reason hreason => exact (inside_ofDigits _ _).error hreason
        · exact trivial
      split
      · split
        · next reason hreason => exact (inside_ofWord _).error hreason
        · exact trivial
      · exact rfl

theorem inside_primary (h : cs.length ≤ n) : Inside (primary inner cs h) :=
  (inside_primaryAt hi _).map _

omit hi in
theorem inside_negation : ∀ (n : Nat) (inner : Inner n), (∀ cs h, Inside (inner cs h)) →
    ∀ cs h, Inside (negation n inner cs h)
  | 0, _, hi, _, h => inside_primary hi h
  | n + 1, inner, hi, cs, h => by
      rw [negation]
      dsimp only
      split
      · have hagain := inside_negation n inner.weaken fun cs h => hi cs (Nat.lt_succ_of_lt h)
        split
        · next reason hreason => exact (hagain _ _).error hreason
        · exact trivial
      · exact inside_primary hi h

section chain
omit hi
variable {operand : Reader n} {ops : List Operator} (ho : ∀ cs h, Inside (operand cs h))
include ho

theorem inside_chainRest : ∀ (m : Nat) (hm : m ≤ n) (left : Expr) (cs : List Char)
    (h : cs.length ≤ m), Inside (chainRest operand ops m hm left cs h)
  | 0, _, _, _, _ => trivial
  | m + 1, hm, left, cs, h => by
      rw [chainRest]
      split
      · exact trivial
      dsimp only
      split
      · next reason hreason => exact (ho _ _).error hreason
      split
      · next reason hreason => exact (inside_chainRest m _ _ _ _).error hreason
      · exact trivial

theorem inside_chain (h : cs.length ≤ n) : Inside (chain operand ops cs h) := by
  unfold chain
  split
  · next reason hreason => exact (ho _ _).error hreason
  dsimp only
  split
  · next reason hreason => exact (inside_chainRest ho _ _ _ _ _).error hreason
  · exact trivial

end chain

theorem inside_sum (h : cs.length ≤ n) : Inside (sum inner cs h) :=
  inside_chain (fun _ => inside_chain (inside_negation n inner hi)) h

theorem inside_comparison (h : cs.length ≤ n) : Inside (comparison inner cs h) := by
  unfold comparison
  split
  · next reason hreason => exact (inside_sum hi _).error hreason
  split
  · exact trivial
  dsimp only
  split
  · next reason hreason => exact (inside_sum hi _).error hreason
  · exact trivial

omit hi in
theorem inside_unary : ∀ (n : Nat) (inner : Inner n), (∀ cs h, Inside (inner cs h)) →
    ∀ cs h, Inside (unary n inner cs h)
  | 0, _, hi, _, h => inside_comparison hi h
  | n + 1, inner, hi, cs, h => by
      rw [unary]
      dsimp only
      split
      · split
        · exact inside_comparison hi h
        have hagain := inside_unary n inner.weaken fun cs h => hi cs (Nat.lt_succ_of_lt h)
        split
        · next reason hreason => exact (hagain _ _).error hreason
        · exact trivial
      · exact inside_comparison hi h

theorem inside_disjunction (h : cs.length ≤ n) : Inside (disjunction inner cs h) :=
  inside_chain (fun _ => inside_chain (inside_unary n inner hi)) h

end parts

theorem inside_expression : ∀ (n : Nat) (cs : List Char) (h : cs.length ≤ n),
    Inside (expression n cs h)
  | 0, _, h => inside_disjunction (fun _ h => absurd h (Nat.not_lt_zero _)) h
  | n + 1, _, h => inside_disjunction (fun cs h => inside_expression n cs (Nat.le_of_lt_succ h)) h

theorem rdropWhile_blanks {blanks : List Char}
    (hlast : ∃ c init, text = init ++ [c] ∧ isBlank c = false)
    (hblanks : ∀ c ∈ blanks, isBlank c = true) : (text ++ blanks).rdropWhile isBlank = text := by
  obtain ⟨c, init, rfl, hc⟩ := hlast
  rw [List.rdropWhile, List.reverse_append, List.dropWhile_append_of_pos (by simpa using hblanks)]
  simp [hc]

/-- In front of input that is left over there is a sentence, and perhaps blanks after it. -/
theorem sentence_of_unexpectedInput {position : Nat}
    (h : readTrimmed cs = .error (.unexpectedInput position rest)) :
    ∃ used blanks e, cs = used ++ blanks ++ rest ∧ byteLength (used ++ blanks) = position ∧
      Sentence used e ∧ (used ++ blanks).rdropWhile isBlank = used ∧
      used.rdropWhile isBlank = used := by
  unfold readTrimmed at h
  split at h
  · cases h
  split at h
  · next reason hreason =>
    cases h
    have hinside := inside_expression cs.length cs le_rfl
    rw [hreason] at hinside
    cases hinside
  · next p hp =>
    dsimp only at h
    split at h
    · cases h
    cases h
    obtain ⟨ts, hts, he⟩ := (reads_expression _).sound hp
    obtain ⟨used, hused, halone⟩ := hts.alone
    obtain ⟨blanks, hblanks, hall⟩ := exists_blanks p.rest
    obtain ⟨t, more, rfl, -⟩ := he.head
    have hlast := halone.last (List.cons_ne_nil t more)
    have hsplit : cs = used ++ blanks ++ dropBlank p.rest := by
      rw [List.append_assoc, ← hblanks, ← hused]
    refine ⟨used, blanks, p.expr, hsplit, ?_, ⟨_, _, halone, rfl, he⟩, ?_, ?_⟩
    · have hlength : byteLength cs =
          byteLength (used ++ blanks) + byteLength (dropBlank p.rest) := by
        rw [← byteLength_append, ← hsplit]
      rw [hlength, Nat.add_sub_cancel]
    · exact rdropWhile_blanks hlast hall
    · have hnone : (used ++ []).rdropWhile isBlank = used :=
        rdropWhile_blanks hlast (List.forall_mem_nil _)
      rwa [List.append_nil] at hnone

/-- What the moments of a run over a text are like. The cursor does not go back, does not leave the
text and stands between two of its characters; and of two calls of one procedure that are under way
at once, the inner one has been made further on. -/
structure Course (text : String) (moments : List Moment) : Prop where
  begins : moments.head? = some ⟨0, []⟩
  forward : moments.Pairwise fun m m' => m.cursor ≤ m'.cursor
  inside : ∀ m ∈ moments, m.cursor ≤ text.utf8ByteSize
  boundary : ∀ m ∈ moments, (⟨m.cursor⟩ : String.Pos.Raw).IsValid text
  advances : ∀ m ∈ moments, m.calls.Pairwise fun inner outer =>
    inner.procedure = outer.procedure → outer.position < inner.position

theorem Progress.Steady.course {text : String} {p : Progress} (h : p.Steady text) :
    Course text p.moments where
  begins := h.begins
  forward := h.forward
  inside m hm := by
    obtain ⟨after, before, htext, hcursor⟩ := h.placed m hm
    rw [← hcursor, ← String.ofList_toList (s := text), htext, utf8ByteSize_ofList,
      byteLength_append]
    exact Nat.le_add_right ..
  boundary m hm := by
    obtain ⟨after, before, htext, hcursor⟩ := h.placed m hm
    exact hcursor ▸ isValid_of_split htext
  advances := h.descends

/-- With enough fuel the cursor has one run over every text, and it comes to the same outcome as the
readers. No slice is missing in it, and its moments are in order. Where input is left over at a
position, the trimmed text is as many bytes and then this input, and what stands before it is an
expression by itself, the blanks at its end apart. -/
theorem read_cursor (source : String) :
    (∃ p enough, (∀ fuel ≥ enough, (Pass.whole (trim source) fuel).run.run .start =
      some ((read source).mapError .refused, p)) ∧ Course (trim source) p.moments) ∧
    ∀ position rest, read source = .error (.unexpectedInput position rest) →
      ∃ before : String, trim source = before ++ String.ofList rest ∧
        before.utf8ByteSize = position ∧
        ∃ e, read (String.ofList (before.toList.rdropWhile isBlank)) = .ok e := by
  refine ⟨?_, fun position rest h => ?_⟩
  · obtain ⟨p, hrun, hp⟩ := (follows_whole (trim source) le_rfl).exists_run
    rw [trim, String.toList_ofList] at hrun
    exact ⟨p, _, fun fuel hfuel => Pass.whole_extends hfuel _ _ hrun, hp.course⟩
  · obtain ⟨used, blanks, e, hsplit, hlength, he, hdrop, hdrop'⟩ := sentence_of_unexpectedInput h
    refine ⟨String.ofList (used ++ blanks), ?_, (utf8ByteSize_ofList _).trans hlength, e, ?_⟩
    · rw [trim, hsplit, String.ofList_append]
    · have hbegins : used <+: trimChars source.toList := ⟨blanks ++ rest, by simp [hsplit]⟩
      have hfirst : dropBlank used = used := dropBlank_of_prefix
        (hbegins.trans (List.rdropWhile_prefix _ _)) (dropBlank_dropBlank source.toList)
      have htrim : trimChars used = used := by
        rw [trimChars, hfirst]
        exact hdrop'
      rw [String.toList_ofList, hdrop, read, String.toList_ofList, htrim]
      exact readTrimmed_ok_iff.mpr he

/-- Letters and a blank of more than one byte. -/
theorem read_cursor_wide :
    read "\u3000ctx.größe > 1 > 2" = .error (.unexpectedInput 16 "> 2".toList) ∧
      ∃ before : String, trim "\u3000ctx.größe > 1 > 2" = before ++ "> 2" ∧
        before.utf8ByteSize = 16 ∧
        ∃ e, read (String.ofList (before.toList.rdropWhile isBlank)) = .ok e := by
  have hrefused : (match read "\u3000ctx.größe > 1 > 2" with
      | .ok _ => none
      | .error reason => some reason) = some (.unexpectedInput 16 "> 2".toList) := by
    decide +kernel
  have hread : read "\u3000ctx.größe > 1 > 2" = .error (.unexpectedInput 16 "> 2".toList) := by
    split at hrefused
    · cases hrefused
    · next reason hreason => rw [hreason, Option.some.inj hrefused]
  exact ⟨hread, (read_cursor _).2 _ _ hread⟩

end Statechart.Expr
