import Statechart.Json.Reader
import Statechart.Proofs.Json.Token

/-!
# Text that is read back

The compact text of a value in which every double is read back from its own text is read back as
the value, exactly if fewer arrays and objects are nested than the reader can hold open. The proof
follows the text through the machine of the reader: whatever is open when a value begins, the
machine comes to the end of its text with the value as the last one and the same things open, or it
stops where one thing too many is opened.
-/
namespace Statechart.Json

mutual

/-- How deep the arrays and objects of a value are nested. -/
def depth : Json → Nat
  | arr items => depthItems items + 1
  | obj members => depthMembers members + 1
  | _ => 0

def depthItems : List Json → Nat
  | [] => 0
  | item :: items => max item.depth (depthItems items)

def depthMembers : List (String × Json) → Nat
  | [] => 0
  | (_, v) :: members => max v.depth (depthMembers members)

end

mutual

/-- The doubles in a value, in the order in which they are written. -/
def doubles : Json → List Double
  | num (.double d) => [d]
  | arr items => doublesItems items
  | obj members => doublesMembers members
  | _ => []

def doublesItems : List Json → List Double
  | [] => []
  | item :: items => item.doubles ++ doublesItems items

def doublesMembers : List (String × Json) → List Double
  | [] => []
  | (_, v) :: members => v.doubles ++ doublesMembers members

end

/-- The names of the members of an object. -/
def memberNames : Json → List String
  | obj members => Keyed.keys members
  | _ => []

section steps
variable {wanted : String → Bool} {stack : List Frame} {c : Char} {cs rest after : List Char}
  {t : Token} {v : Json}

/-- The machine takes the next token or stops at it. -/
theorem readFrom_token {state : ReadState} (hopen : state.finished? = none)
    (hspace : isSpace c = false) (hscan : scanFrom false c cs = (t, rest)) :
    readFrom wanted false state (c :: cs) =
      (state.step? false t).bind fun next =>
        readFrom wanted (next.skims wanted false) next rest := by
  rw [readFrom]
  simp only [hopen]
  split
  · next h => simp [hspace] at h
  · next c' cs' h =>
      obtain ⟨rfl, rfl⟩ : c = c' ∧ cs = cs' := by simpa [hspace] using h
      simp only [hscan]
      cases state.step? false t <;> rfl

theorem readFrom_step {state next : ReadState} (hopen : state.finished? = none)
    (hspace : isSpace c = false) (hscan : scanFrom false c cs = (t, rest))
    (hstep : state.step? false t = some next) :
    readFrom wanted false state (c :: cs) =
      readFrom wanted (next.skims wanted false) next rest := by
  rw [readFrom_token hopen hspace hscan, hstep]
  rfl

/-- What is skimmed begins at the colon of a member of the outermost object. -/
theorem skims_eq_false {state : ReadState}
    (h : ∀ done key, state.stack = [.member done key] → state.place ≠ .value ∨ wanted key = true) :
    state.skims wanted false = false := by
  unfold ReadState.skims
  split
  · next done key hplace hstack => simpa [hplace] using h done key hstack
  · rfl
  · rfl

theorem readFrom_end (wanted : String → Bool) (skim : Bool) (v : Json) (rest : List Char) :
    readFrom wanted skim ⟨.afterValue v, []⟩ rest = some (v, rest) := by
  rw [readFrom]
  rfl

/-- A value may begin. -/
def Opens (place : Place) : Prop := place = .value ∨ place = .itemOrClose

theorem Opens.finished? {place : Place} (h : Opens place) (stack : List Frame) :
    ReadState.finished? ⟨place, stack⟩ = none := by
  rcases h with rfl | rfl <;> rfl

/-- A token that is a value is taken. -/
theorem readFrom_scalar {place : Place} (hplace : Opens place) (hspace : isSpace c = false)
    (hscan : scanFrom false c cs = (.scalar v, rest)) :
    readFrom wanted false ⟨place, stack⟩ (c :: cs) =
      readFrom wanted false ⟨.afterValue v, stack⟩ rest := by
  have hstep : ReadState.step? false ⟨place, stack⟩ (.scalar v) = some ⟨.afterValue v, stack⟩ := by
    rcases hplace with rfl | rfl <;> rfl
  rw [readFrom_step (hplace.finished? stack) hspace hscan hstep, skims_eq_false (by simp)]

/-- A token that opens or closes something, or stands between two values, is taken. -/
theorem readFrom_mark {state next : ReadState} (hopen : state.finished? = none)
    (hspace : isSpace c = false) (hscan : scanFrom false c cs = (t, cs))
    (hstep : state.step? false t = some next)
    (hnext : ∀ done key, next.stack = [.member done key] →
      next.place ≠ .value ∨ wanted key = true) :
    readFrom wanted false state (c :: cs) = readFrom wanted false next cs := by
  rw [readFrom_step hopen hspace hscan hstep, skims_eq_false hnext]

/-- A token that opens something is taken unless too much is open. -/
theorem readFrom_open {state : ReadState} {place : Place} {frame : Frame}
    (hopen : state.finished? = none) (hspace : isSpace c = false)
    (hscan : scanFrom false c cs = (t, cs)) (hplace : place ≠ .value)
    (hstep : state.step? false t =
      if stack.length + 1 < depthLimit then some ⟨place, frame :: stack⟩ else none) :
    readFrom wanted false state (c :: cs) =
      if stack.length + 1 < depthLimit then readFrom wanted false ⟨place, frame :: stack⟩ cs
      else none := by
  rw [readFrom_token hopen hspace hscan, hstep]
  split
  · rw [Option.bind_some, skims_eq_false fun _ _ _ => .inl hplace]
  · rfl

theorem readFrom_openArr {place : Place} (hplace : Opens place) :
    readFrom wanted false ⟨place, stack⟩ ('[' :: cs) =
      if stack.length + 1 < depthLimit then
        readFrom wanted false ⟨.itemOrClose, .items [] :: stack⟩ cs
      else none := by
  have hscan : scanFrom false '[' cs = (.openArr, cs) := rfl
  refine readFrom_open (hplace.finished? stack) rfl hscan nofun ?_
  rcases hplace with rfl | rfl <;> simp [ReadState.step?, beginValue?]

theorem readFrom_openObj {place : Place} (hplace : Opens place) :
    readFrom wanted false ⟨place, stack⟩ ('\x7b' :: cs) =
      if stack.length + 1 < depthLimit then
        readFrom wanted false ⟨.keyOrClose, .members [] :: stack⟩ cs
      else none := by
  have hscan : scanFrom false '\x7b' cs = (.openObj, cs) := rfl
  refine readFrom_open (hplace.finished? stack) rfl hscan nofun ?_
  rcases hplace with rfl | rfl <;> simp [ReadState.step?, beginValue?]

/-- An array or object ends, be it after its last part or empty. -/
theorem readFrom_close {state : ReadState} (hspace : isSpace c = false)
    (hopen : state.finished? = none) (hscan : scanFrom false c cs = (t, cs))
    (hstep : state.step? false t = some ⟨.afterValue v, stack⟩) :
    readFrom wanted false state (c :: cs) = readFrom wanted false ⟨.afterValue v, stack⟩ cs :=
  readFrom_mark hopen hspace hscan hstep (by simp)

/-- A key may begin. -/
def OpensKey (place : Place) : Prop := place = .key ∨ place = .keyOrClose

/-- The name of a member and its colon are taken. -/
theorem readFrom_key {place : Place} (hplace : OpensKey place) (done : List (String × Json))
    (key : String) (hwanted : stack = [] → wanted key = true) :
    readFrom wanted false ⟨place, .members done :: stack⟩ (quote key ++ ':' :: cs) =
      readFrom wanted false ⟨.value, .member done key :: stack⟩ cs := by
  obtain ⟨tail, htext, hscan⟩ := scanFrom_quote key (':' :: cs)
  have hstep : ReadState.step? false ⟨place, .members done :: stack⟩ (.scalar (str key)) =
      some ⟨.colon, .member done key :: stack⟩ := by
    rcases hplace with rfl | rfl <;> rfl
  have hopen : ReadState.finished? ⟨place, .members done :: stack⟩ = none := by
    rcases hplace with rfl | rfl <;> rfl
  have hscan' : scanFrom false ':' cs = (.colon, cs) := rfl
  rw [htext, readFrom_step hopen rfl hscan hstep, skims_eq_false (by simp)]
  refine readFrom_mark rfl rfl hscan' rfl fun done' key' hstack => ?_
  simp only [List.cons.injEq, Frame.member.injEq] at hstack
  obtain ⟨⟨-, rfl⟩, hnil⟩ := hstack
  exact .inr (hwanted hnil)

end steps

theorem follows_cons {c : Char} (h : c = ',' ∨ c = ']' ∨ c = '\x7d') (rest : List Char) :
    Follows (c :: rest) := by
  intro d hd
  obtain rfl : c = d := by simpa using hd
  exact h

section values
variable {wanted : String → Bool}

mutual

/-- From where a value may begin, the machine comes to the end of its text, if it is not nested too
deeply. -/
theorem readFrom_compact : ∀ (v : Json) (place : Place) (stack : List Frame) (after : List Char),
    Opens place → Follows after → stack.length < depthLimit →
    (∀ d ∈ v.doubles, Number.ReadsBack (.double d)) →
    (stack = [] → ∀ key ∈ v.memberNames, wanted key = true) →
    readFrom wanted false ⟨place, stack⟩ (v.compact ++ after) =
      if v.depth + stack.length < depthLimit then
        readFrom wanted false ⟨.afterValue v, stack⟩ after
      else none
  | null, _, _, _, hplace, _, hopen, _, _ =>
      (readFrom_scalar hplace rfl rfl).trans (if_pos (by simpa [depth] using hopen)).symm
  | bool true, _, _, _, hplace, _, hopen, _, _ =>
      (readFrom_scalar hplace rfl rfl).trans (if_pos (by simpa [depth] using hopen)).symm
  | bool false, _, _, _, hplace, _, hopen, _, _ =>
      (readFrom_scalar hplace rfl rfl).trans (if_pos (by simpa [depth] using hopen)).symm
  | num n, place, stack, after, hplace, hafter, hopen, hdoubles, _ => by
      have hback : n.ReadsBack := by
        cases n with
        | int i h => exact Number.readsBack_int i h
        | double d => exact hdoubles d (by simp [doubles])
      obtain ⟨c, cs, htext, hspace, hscan⟩ := scanFrom_signed hafter hback
      rw [if_pos (by simpa [depth] using hopen), compact, htext]
      exact readFrom_scalar hplace hspace hscan
  | str s, place, stack, after, hplace, _, hopen, _, _ => by
      obtain ⟨cs, htext, hscan⟩ := scanFrom_quote s after
      rw [if_pos (by simpa [depth] using hopen), compact, htext]
      exact readFrom_scalar hplace rfl hscan
  | arr [], place, stack, after, hplace, _, _, _, _ => by
      have hclose : scanFrom false ']' after = (.closeArr, after) := rfl
      show readFrom wanted false ⟨place, stack⟩ ('[' :: ']' :: after) = _
      rw [readFrom_openArr hplace, readFrom_close rfl rfl hclose rfl, depth, depthItems,
        Nat.zero_add, Nat.add_comm]
      rfl
  | arr (item :: items), place, stack, after, hplace, _, _, hdoubles, _ => by
      simp only [compact, List.cons_append, List.append_assoc, List.nil_append]
      rw [readFrom_openArr hplace, depth]
      split
      · next hlength =>
          rw [readFrom_items item items .itemOrClose [] stack after (.inr rfl) hlength hdoubles,
            Nat.add_right_comm]
          rfl
      · rw [if_neg (by omega)]
  | obj [], place, stack, after, hplace, _, _, _, _ => by
      have hclose : scanFrom false '\x7d' after = (.closeObj, after) := rfl
      show readFrom wanted false ⟨place, stack⟩ ('\x7b' :: '\x7d' :: after) = _
      rw [readFrom_openObj hplace, readFrom_close rfl rfl hclose rfl, depth, depthMembers,
        Nat.zero_add, Nat.add_comm]
      rfl
  | obj (m :: members), place, stack, after, hplace, _, _, hdoubles, hwanted => by
      simp only [compact, List.cons_append, List.append_assoc, List.nil_append]
      rw [readFrom_openObj hplace, depth]
      split
      · next hlength =>
          rw [readFrom_members m members .keyOrClose [] stack after (.inr rfl) hlength hdoubles
            fun hstack key hkey => hwanted hstack key hkey, Nat.add_right_comm]
          rfl
      · rw [if_neg (by omega)]
termination_by v => sizeOf v

/-- The items of an array, from the first of some of them to the bracket that closes it. -/
theorem readFrom_items : ∀ (item : Json) (items : List Json) (place : Place) (done : List Json)
    (stack : List Frame) (after : List Char), Opens place → stack.length + 1 < depthLimit →
    (∀ d ∈ doublesItems (item :: items), Number.ReadsBack (.double d)) →
    readFrom wanted false ⟨place, .items done :: stack⟩
        (compactItems (item :: items) ++ ']' :: after) =
      if depthItems (item :: items) + stack.length + 1 < depthLimit then
        readFrom wanted false ⟨.afterValue (arr (done.reverse ++ item :: items)), stack⟩ after
      else none
  | item, [], place, done, stack, after, hplace, hlength, hdoubles => by
      have hclose : scanFrom false ']' after = (.closeArr, after) := rfl
      simp only [depthItems, doublesItems, List.append_nil, Nat.max_zero] at hdoubles ⊢
      rw [compactItems, readFrom_compact item place (.items done :: stack) _ hplace
        (follows_cons (by simp) _) hlength hdoubles (by simp), List.length_cons, ← Nat.add_assoc,
        readFrom_close rfl rfl hclose rfl, List.reverse_cons]
  | item, next :: items, place, done, stack, after, hplace, hlength, hdoubles => by
      have hcomma (cs : List Char) : scanFrom false ',' cs = (.comma, cs) := rfl
      rw [doublesItems, List.forall_mem_append] at hdoubles
      simp only [compactItems, List.append_assoc, List.cons_append]
      rw [readFrom_compact item place (.items done :: stack) _ hplace
        (follows_cons (by simp) _) hlength hdoubles.1 (by simp)]
      rw [readFrom_mark rfl rfl (hcomma _) rfl (by simp)]
      rw [readFrom_items next items .value (item :: done) stack after (.inl rfl) hlength
        hdoubles.2, List.length_cons, List.reverse_cons, List.append_assoc, ← ite_and]
      simp only [depthItems]
      exact ite_congr (propext (by omega)) (fun _ => rfl) (fun _ => rfl)
termination_by item items => sizeOf (item :: items)

/-- The members of an object, from the first of some of them to the brace that closes it. -/
theorem readFrom_members : ∀ (m : String × Json) (members : List (String × Json)) (place : Place)
    (done : List (String × Json)) (stack : List Frame) (after : List Char), OpensKey place →
    stack.length + 1 < depthLimit →
    (∀ d ∈ doublesMembers (m :: members), Number.ReadsBack (.double d)) →
    (stack = [] → ∀ key ∈ Keyed.keys (m :: members), wanted key = true) →
    readFrom wanted false ⟨place, .members done :: stack⟩
        (compactMembers (m :: members) ++ '\x7d' :: after) =
      if depthMembers (m :: members) + stack.length + 1 < depthLimit then
        readFrom wanted false ⟨.afterValue (obj (done.reverse ++ m :: members)), stack⟩ after
      else none
  | (key, v), [], place, done, stack, after, hplace, hlength, hdoubles, hwanted => by
      have hclose : scanFrom false '\x7d' after = (.closeObj, after) := rfl
      simp only [depthMembers, doublesMembers, List.append_nil, Nat.max_zero] at hdoubles ⊢
      have hkey (hstack : stack = []) : wanted key = true :=
        hwanted hstack key (by simp [Keyed.keys])
      simp only [compactMembers, List.append_assoc, List.cons_append]
      rw [readFrom_key hplace done key hkey, readFrom_compact v .value (.member done key :: stack) _
        (.inl rfl) (follows_cons (by simp) _) hlength hdoubles (by simp), List.length_cons,
        ← Nat.add_assoc, readFrom_close rfl rfl hclose rfl, List.reverse_cons]
  | (key, v), next :: members, place, done, stack, after, hplace, hlength, hdoubles, hwanted => by
      have hcomma (cs : List Char) : scanFrom false ',' cs = (.comma, cs) := rfl
      rw [doublesMembers, List.forall_mem_append] at hdoubles
      have hkey (hstack : stack = []) : wanted key = true :=
        hwanted hstack key (by simp [Keyed.keys])
      have hrest (hstack : stack = []) : ∀ key ∈ Keyed.keys (next :: members), wanted key = true :=
        fun key hkey => hwanted hstack key (List.mem_cons_of_mem _ hkey)
      simp only [compactMembers, List.append_assoc, List.cons_append]
      rw [readFrom_key hplace done key hkey, readFrom_compact v .value (.member done key :: stack) _
        (.inl rfl) (follows_cons (by simp) _) hlength hdoubles.1 (by simp)]
      rw [readFrom_mark rfl rfl (hcomma _) rfl (by simp)]
      rw [readFrom_members next members .key ((key, v) :: done) stack after (.inl rfl) hlength
        hdoubles.2 hrest, List.length_cons, List.reverse_cons, List.append_assoc, ← ite_and]
      simp only [depthMembers]
      exact ite_congr (propext (by omega)) (fun _ => rfl) (fun _ => rfl)
termination_by m members => sizeOf (m :: members)

end

end values

/-- The text of a value is read back as the value, unless it is nested too deeply. -/
theorem readFirst_write {v : Json} (hdoubles : ∀ d ∈ v.doubles, Number.ReadsBack (.double d)) :
    readFirst v.write = if v.depth < depthLimit then some (v, []) else none := by
  have htext : v.write.toList = v.compact ++ [] := by simp [write]
  rw [readFirst, htext, readFrom_compact v .value [] [] (.inl rfl) (by simp [Follows]) (by decide)
    hdoubles (by simp), readFrom_end]
  rfl

end Statechart.Json
