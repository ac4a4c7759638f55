import Statechart.Proofs.Machine.Move

/-!
# Histories of invocations

A history is orderly when every happening in it was due when it came: a state is activated only
while it is not active, its invocation gets one token after that, a token that is accepted or taken
away is the one of the latest activation. In an orderly history no token is issued, accepted or
taken away twice, and none is both accepted and taken away.
-/
namespace Statechart

namespace Happening

/-- The state that a happening is about. -/
def state? : Happening → Option Nat
  | entered i | resumed i | issued i _ _ | exited i _ => some i
  | accepted _ | became _ => none

/-- Whether a happening makes a state active. -/
def activates : Happening → Bool
  | entered _ | resumed _ => true
  | _ => false

def issued? : Happening → Option Token
  | issued _ t _ => some t
  | _ => none

def accepted? : Happening → Option Token
  | accepted t => some t
  | _ => none

def revoked? : Happening → Option Token
  | exited _ held => held
  | _ => none

end Happening

abbrev History := List Happening

namespace History

/-- What has happened to a state last. -/
def latest (i : Nat) (hs : History) : Option Happening :=
  hs.reverse.find? fun h => h.state? = some i

/-- The tokens issued, in order. -/
def issued (hs : History) : List Token := hs.filterMap Happening.issued?

/-- The tokens whose completion has been accepted, in order. -/
def accepted (hs : History) : List Token := hs.filterMap Happening.accepted?

/-- The tokens taken away on exits, in order. -/
def revoked (hs : History) : List Token := hs.filterMap Happening.revoked?

/-- A token is the one of the latest activation of a state, which has been active since, and its
completion has not been accepted. -/
def Current (hs : History) (i : Nat) (t : Token) : Prop :=
  (∃ input, latest i hs = some (.issued i t input)) ∧ t ∉ accepted hs

/-- A state has never been activated, or it has been exited since. -/
def Inactive (hs : History) (i : Nat) : Prop :=
  ∀ h, latest i hs = some h → ∃ held, h = .exited i held

/-- A state is active, and a token has been issued since if it invokes. -/
def Settled (c : Chart) (hs : History) (i : Nat) : Prop :=
  match (c.state i).invoke with
  | none => ∃ h, latest i hs = some h ∧ h.activates = true
  | some _ => ∃ t input, latest i hs = some (.issued i t input)

/-- A happening may come next in a history. -/
def Lawful (c : Chart) (hs : History) : Happening → Prop
  | .entered i | .resumed i => Inactive hs i
  | .issued i t _ => (∃ v, (c.state i).invoke = some v ∧ t.invokeId = v.id) ∧
      (∃ h, latest i hs = some h ∧ h.activates = true) ∧
      ∀ u ∈ issued hs, u.generation < t.generation
  | .accepted t => ∃ i, Current hs i t
  | .exited i held => Settled c hs i ∧ ∀ t, held = some t ↔ Current hs i t
  | .became _ => True

/-- Every happening was due when it came. -/
def Orderly (c : Chart) (hs : History) : Prop :=
  ∀ pre h post, hs = pre ++ h :: post → Lawful c pre h

variable {c : Chart} {hs : History} {h : Happening} {i : Nat} {t : Token}

theorem latest_concat (i : Nat) (hs : History) (h : Happening) :
    latest i (hs ++ [h]) = if h.state? = some i then some h else latest i hs := by
  simp only [latest, List.reverse_append, List.reverse_cons, List.reverse_nil, List.nil_append,
    List.singleton_append, List.find?_cons]
  split <;> simp_all

theorem latest_concat_self (hs : History) (hi : h.state? = some i) :
    latest i (hs ++ [h]) = some h := by
  rw [latest_concat, if_pos hi]

theorem latest_concat_of_ne (hs : History) (hi : h.state? ≠ some i) :
    latest i (hs ++ [h]) = latest i hs := by
  rw [latest_concat, if_neg hi]

/-- The latest happening of a state is followed by none about it. -/
theorem split_of_latest (hlatest : latest i hs = some h) :
    ∃ pre post, hs = pre ++ h :: post ∧ h.state? = some i ∧ ∀ x ∈ post, x.state? ≠ some i := by
  obtain ⟨hi, post, pre, hsplit, hnone⟩ := List.find?_eq_some_iff_append.mp hlatest
  refine ⟨pre.reverse, post.reverse, ?_, by simpa using hi, by simpa using hnone⟩
  have hreverse := congrArg List.reverse hsplit
  simpa using hreverse

theorem mem_of_latest (hlatest : latest i hs = some h) : h ∈ hs := by
  obtain ⟨pre, post, rfl, _⟩ := split_of_latest hlatest
  simp

@[simp] theorem issued_concat (hs : History) (h : Happening) :
    issued (hs ++ [h]) = issued hs ++ h.issued?.toList := by
  cases hq : h.issued? <;> simp [issued, hq]

@[simp] theorem accepted_concat (hs : History) (h : Happening) :
    accepted (hs ++ [h]) = accepted hs ++ h.accepted?.toList := by
  cases hq : h.accepted? <;> simp [accepted, hq]

theorem mem_issued : t ∈ issued hs ↔ ∃ i input, .issued i t input ∈ hs := by
  simp only [issued, List.mem_filterMap]
  constructor
  · rintro ⟨h, hmem, heq⟩
    cases h with
    | issued i u input =>
        cases heq
        exact ⟨i, input, hmem⟩
    | _ => cases heq
  · rintro ⟨i, input, hmem⟩
    exact ⟨_, hmem, rfl⟩

theorem mem_accepted : t ∈ accepted hs ↔ .accepted t ∈ hs := by
  simp only [accepted, List.mem_filterMap]
  constructor
  · rintro ⟨h, hmem, heq⟩
    cases h with
    | accepted u =>
        cases heq
        exact hmem
    | _ => cases heq
  · exact fun hmem => ⟨_, hmem, rfl⟩

theorem Current.mem_issued (hcur : Current hs i t) : t ∈ issued hs := by
  obtain ⟨⟨input, hlatest⟩, _⟩ := hcur
  exact History.mem_issued.mpr ⟨i, input, mem_of_latest hlatest⟩

/-- A state has one current token at most. -/
theorem Current.unique {u : Token} (h : Current hs i t) (h' : Current hs i u) : t = u := by
  obtain ⟨⟨_, hlatest⟩, _⟩ := h
  obtain ⟨⟨_, hlatest'⟩, _⟩ := h'
  cases hlatest.symm.trans hlatest'
  rfl

theorem Inactive.not_current (hin : Inactive hs i) : ¬ Current hs i t := by
  rintro ⟨⟨input, hlatest⟩, _⟩
  obtain ⟨held, heq⟩ := hin _ hlatest
  cases heq

theorem Settled.not_inactive (hset : Settled c hs i) : ¬ Inactive hs i := by
  intro hin
  unfold Settled at hset
  split at hset
  · obtain ⟨h, hlatest, hact⟩ := hset
    obtain ⟨held, rfl⟩ := hin _ hlatest
    cases hact
  · obtain ⟨t, input, hlatest⟩ := hset
    obtain ⟨held, heq⟩ := hin _ hlatest
    cases heq

theorem state?_ne {j : Nat} (hi : h.state? = some i) (hj : j ≠ i) : h.state? ≠ some j := by
  rw [hi]
  simpa using hj.symm

theorem inactive_concat (hi : h.state? ≠ some i) : Inactive (hs ++ [h]) i ↔ Inactive hs i := by
  simp only [Inactive, latest_concat_of_ne hs hi]

theorem settled_concat (hi : h.state? ≠ some i) : Settled c (hs ++ [h]) i ↔ Settled c hs i := by
  simp only [Settled, latest_concat_of_ne hs hi]

theorem current_concat (hi : h.state? ≠ some i) :
    Current (hs ++ [h]) i t ↔ Current hs i t ∧ h.accepted? ≠ some t := by
  simp only [Current, latest_concat_of_ne hs hi, accepted_concat, List.mem_append,
    Option.mem_toList, not_or, and_assoc, ne_eq]

/-- An exit leaves the tokens of all other states. -/
theorem current_exited {j : Nat} {held : Option Token} :
    Current (hs ++ [.exited i held]) j t ↔ Current hs j t ∧ j ≠ i := by
  by_cases hj : j = i
  · subst hj
    refine iff_of_false ?_ fun h => h.2 rfl
    rintro ⟨⟨input, hlatest⟩, _⟩
    rw [latest_concat_self hs rfl] at hlatest
    cases hlatest
  · have hne := state?_ne (h := .exited i held) rfl hj
    simp [current_concat hne, Happening.accepted?, hj]

theorem current_accepted {u : Token} :
    Current (hs ++ [.accepted t]) i u ↔ Current hs i u ∧ t ≠ u := by
  simp [current_concat (h := .accepted t) (by simp [Happening.state?]), Happening.accepted?]

/-- A token that has not been accepted before is current as soon as it is issued. -/
theorem current_issued {j : Nat} {u : Token} {input : Except ResolutionError Json}
    (ht : t ∉ accepted hs) : Current (hs ++ [.issued i t input]) j u ↔
      j = i ∧ u = t ∨ j ≠ i ∧ Current hs j u := by
  by_cases hj : j = i
  · subst hj
    have hlatest := latest_concat_self (h := .issued j t input) hs rfl
    simp only [Current, hlatest, accepted_concat, Happening.accepted?, Option.toList_none,
      List.append_nil, ne_eq, not_true_eq_false, false_and, or_false, true_and]
    constructor
    · rintro ⟨⟨_, heq⟩, _⟩
      cases heq
      rfl
    · rintro rfl
      exact ⟨⟨input, rfl⟩, ht⟩
  · have hne := state?_ne (h := .issued i t input) rfl hj
    simp [current_concat hne, Happening.accepted?, hj]

theorem Orderly.nil : Orderly c [] := by
  intro pre h post heq
  simp at heq

theorem Orderly.concat (ho : Orderly c hs) (hlast : Lawful c hs h) : Orderly c (hs ++ [h]) := by
  intro pre x post heq
  rcases List.eq_nil_or_concat post with rfl | ⟨post', y, rfl⟩
  · obtain ⟨hpre, hx⟩ := List.append_inj' heq rfl
    cases hx
    exact hpre ▸ hlast
  · refine ho pre x post' ?_
    rw [List.concat_eq_append, ← List.cons_append, ← List.append_assoc] at heq
    exact (List.append_inj' heq rfl).1

theorem Orderly.init {more : History} (ho : Orderly c (hs ++ more)) : Orderly c hs := by
  intro pre h post heq
  exact ho pre h (post ++ more) (by simp [heq])

theorem Orderly.last (ho : Orderly c (hs ++ [h])) : Lawful c hs h := ho hs h [] rfl

/-- Later tokens have larger generations. -/
theorem Orderly.issued_increasing (ho : Orderly c hs) :
    (issued hs).Pairwise fun a b => a.generation < b.generation := by
  induction hs using List.reverseRecOn with
  | nil => simp [issued]
  | append_singleton hs h ih =>
      rw [issued_concat]
      refine List.pairwise_append.mpr ⟨ih ho.init, by cases h.issued? <;> simp, ?_⟩
      intro a ha b hb
      have hlast := ho.last
      cases h with
      | issued i t input =>
          obtain rfl : b = t := by simpa [Happening.issued?] using hb
          exact hlast.2.2 a ha
      | _ => simp [Happening.issued?] at hb

theorem Orderly.issued_nodup (ho : Orderly c hs) : (issued hs).Nodup :=
  ho.issued_increasing.imp fun hlt heq => absurd (congrArg Token.generation heq) hlt.ne

/-- A token carries the invoke id of its state. -/
theorem Orderly.invokeId (ho : Orderly c hs) {input : Except ResolutionError Json}
    (hmem : .issued i t input ∈ hs) : ∃ v, (c.state i).invoke = some v ∧ t.invokeId = v.id := by
  obtain ⟨pre, post, rfl⟩ := List.append_of_mem hmem
  exact (ho pre _ post rfl).1

theorem Orderly.current_invokeId (ho : Orderly c hs) (hcur : Current hs i t) :
    ∃ v, (c.state i).invoke = some v ∧ t.invokeId = v.id := by
  obtain ⟨⟨input, hlatest⟩, _⟩ := hcur
  exact ho.invokeId (mem_of_latest hlatest)

/-- No two states have the same current token. -/
theorem Orderly.current_injective (ho : Orderly c hs) (hc : c.Sound) {j : Nat}
    (h : Current hs i t) (h' : Current hs j t) : i = j := by
  obtain ⟨v, hv, hid⟩ := ho.current_invokeId h
  obtain ⟨w, hw, hid'⟩ := ho.current_invokeId h'
  exact hc.invoke i j v w hv hw (hid.symm.trans hid')

theorem Orderly.accepted_subset (ho : Orderly c hs) : accepted hs ⊆ issued hs := by
  intro t ht
  obtain ⟨pre, post, rfl⟩ := List.append_of_mem (mem_accepted.mp ht)
  obtain ⟨i, hcur⟩ := ho pre _ post rfl
  obtain ⟨j, input, hmem⟩ := History.mem_issued.mp hcur.mem_issued
  exact History.mem_issued.mpr ⟨j, input, by simp [hmem]⟩

theorem Orderly.revoked_subset (ho : Orderly c hs) : revoked hs ⊆ issued hs := by
  intro t ht
  simp only [revoked, List.mem_filterMap] at ht
  obtain ⟨h, hmem, heq⟩ := ht
  obtain ⟨pre, post, rfl⟩ := List.append_of_mem hmem
  cases h with
  | exited i held =>
      have hcur := ((ho pre _ post rfl).2 t).mp heq
      obtain ⟨j, input, hissued⟩ := History.mem_issued.mp hcur.mem_issued
      exact History.mem_issued.mpr ⟨j, input, by simp [hissued]⟩
  | _ => cases heq

/-- No completion is accepted twice. -/
theorem Orderly.accepted_nodup (ho : Orderly c hs) : (accepted hs).Nodup := by
  induction hs using List.reverseRecOn with
  | nil => simp [accepted]
  | append_singleton hs h ih =>
      rw [accepted_concat]
      refine List.nodup_append.mpr ⟨ih ho.init, by cases h.accepted? <;> simp, ?_⟩
      intro a ha b hb
      have hlast := ho.last
      cases h with
      | accepted t =>
          obtain rfl : b = t := by simpa [Happening.accepted?] using hb
          obtain ⟨i, _, hnot⟩ := hlast
          exact fun heq => hnot (heq ▸ ha)
      | _ => simp [Happening.accepted?] at hb

/-- What is current next was current before, unless it has just been issued. -/
theorem Orderly.current_concat (ho : Orderly c (hs ++ [h])) (hcur : Current (hs ++ [h]) i t) :
    t ∉ issued hs ∨ Current hs i t := by
  obtain ⟨⟨input, hlatest⟩, hnot⟩ := hcur
  rw [latest_concat] at hlatest
  split at hlatest
  · cases hlatest
    exact .inl fun hmem => absurd (ho.last.2.2 t hmem) (Nat.lt_irrefl _)
  · refine .inr ⟨⟨input, hlatest⟩, fun hmem => hnot ?_⟩
    simp [hmem]

/-- A token that has been issued and is not current never becomes current. -/
theorem Orderly.not_current_append {more : History} (ho : Orderly c (hs ++ more))
    (hissued : t ∈ issued hs) (hnot : ∀ i, ¬ Current hs i t) (i : Nat) :
    ¬ Current (hs ++ more) i t := by
  induction more using List.reverseRecOn with
  | nil => simpa using hnot i
  | append_singleton more h ih =>
      rw [← List.append_assoc] at ho ⊢
      intro hcur
      rcases ho.current_concat hcur with hnew | hold
      · exact hnew (by simp only [issued, List.filterMap_append] at hissued ⊢; simp [hissued])
      · exact ih ho.init hold

/-- A token is not current once its state has been exited. -/
theorem Orderly.not_current_of_exited {before middle after : History} {held : Option Token}
    {input : Except ResolutionError Json} (hc : c.Sound)
    (ho : Orderly c (before ++ .issued i t input :: (middle ++ .exited i held :: after)))
    (j : Nat) :
    ¬ Current (before ++ .issued i t input :: (middle ++ .exited i held :: after)) j t := by
  have hsplit : before ++ .issued i t input :: (middle ++ .exited i held :: after) =
      (before ++ .issued i t input :: middle ++ [.exited i held]) ++ after := by simp
  have hmem : t ∈ issued (before ++ .issued i t input :: middle ++ [.exited i held]) :=
    History.mem_issued.mpr ⟨i, input, by simp⟩
  rw [hsplit] at ho ⊢
  refine ho.not_current_append hmem (fun k hcur => ?_) j
  have hhappened :
      .issued i t input ∈ before ++ .issued i t input :: middle ++ [.exited i held] := by simp
  obtain ⟨w, hw, hid⟩ := ho.init.invokeId hhappened
  obtain ⟨v, hv, hid'⟩ := ho.init.current_invokeId hcur
  obtain rfl := hc.invoke k i v w hv hw (hid'.symm.trans hid)
  obtain ⟨⟨_, hlatest⟩, _⟩ := hcur
  rw [latest_concat_self _ rfl] at hlatest
  cases hlatest

end History

end Statechart
