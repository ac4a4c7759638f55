import Statechart.Proofs.Machine.History

/-!
# The books of a machine

The configuration and the table of invocations are what the history of the moves says that they
are: a state is active exactly when it has not been exited since its latest activation, and the
table holds the tokens that are current. Every move keeps this.
-/
namespace Statechart.Machine
open History

/-- A machine agrees with its history. -/
structure Books (c : Chart) (hs : History) (p : Point) : Prop where
  chart : p.machine.chart = c
  rooted : p.machine.Rooted
  orderly : Orderly c hs
  /-- The generations to come are new. -/
  generation : ∀ t ∈ issued hs, t.generation ≤ p.machine.generation
  sorted : Keyed.Sorted p.machine.invocations
  awaiting : p.awaiting <:+ p.machine.configuration
  inactive : ∀ i, i ∉ p.machine.configuration → Inactive hs i
  fresh : ∀ i ∈ p.awaiting, ∃ h, latest i hs = some h ∧ h.activates = true
  settled : ∀ i ∈ p.machine.configuration, i ∉ p.awaiting → Settled c hs i
  held : ∀ k t, Keyed.get? k p.machine.invocations = some t ↔
    ∃ i v, (c.state i).invoke = some v ∧ v.id = k ∧ Current hs i t

namespace Books

variable {c : Chart} {hs : History} {m m' : Machine} {a : List Nat} {i : Nat} {t : Token}

/-- A machine that has just been made has no history. -/
theorem nil (hempty : m.configuration = []) (hnone : m.invocations = []) :
    Books m.chart [] ⟨m, []⟩ where
  chart := rfl
  rooted := .inl hempty
  orderly := Orderly.nil
  generation := by simp [issued]
  sorted := by simp [hnone, Keyed.Sorted]
  awaiting := by simp
  inactive := by simp [Inactive, latest]
  fresh := by simp
  settled := by simp [hempty]
  held := by simp [hnone, Keyed.get?, Current, latest]

theorem nodup (hb : Books c hs ⟨m, a⟩) (hc : c.Sound) : m.configuration.Nodup := by
  have hchart : m.chart = c := hb.chart
  have hrooted : m.Rooted := hb.rooted
  rcases hrooted with hnil | ⟨i, hi, hpath⟩
  · simp [hnil]
  · subst hchart
    rw [hpath]
    exact hc.nodup_pathTo hi

/-- A current token belongs to an active state. -/
theorem active_of_current (hb : Books c hs ⟨m, a⟩) (hcur : Current hs i t) :
    i ∈ m.configuration := by
  by_contra hnot
  exact (hb.inactive i hnot).not_current hcur

/-- When nothing is active, nothing is held. -/
theorem invocations_nil (hb : Books c hs ⟨m, a⟩) (hempty : m.configuration = []) :
    m.invocations = [] := by
  apply Keyed.eq_nil_of_get?
  intro k
  by_contra hne
  obtain ⟨t, ht⟩ := Option.ne_none_iff_exists'.mp hne
  obtain ⟨i, v, _, _, hcur⟩ := (hb.held k t).mp ht
  have hactive := hb.active_of_current hcur
  simp [hempty] at hactive

/-- With the entry of a state's invocation taken out, the table has the current tokens of the
others. -/
theorem held_erase {v : Invocation} (hb : Books c hs ⟨m, a⟩) (hc : c.Sound)
    (hv : (c.state i).invoke = some v) (k : String) (t : Token) :
    Keyed.get? k (Keyed.erase v.id m.invocations) = some t ↔
      ∃ j w, (c.state j).invoke = some w ∧ w.id = k ∧ Current hs j t ∧ j ≠ i := by
  by_cases hk : k = v.id
  · subst hk
    rw [Keyed.get?_erase_self hb.sorted]
    refine iff_of_false (by simp) ?_
    rintro ⟨j, w, hw, hid, _, hji⟩
    exact hji (hc.invoke j i w v hw hv hid)
  · rw [Keyed.get?_erase_of_ne hk, hb.held k t]
    refine exists_congr fun j => exists_congr fun w => and_congr_right fun hw =>
      and_congr_right fun hid => ⟨fun hcur => ⟨hcur, ?_⟩, And.left⟩
    rintro rfl
    cases hw.symm.trans hv
    exact hk hid.symm

/-- With another token for a state's invocation, the table has that and the current tokens of the
others. -/
theorem held_insert {v : Invocation} (hb : Books c hs ⟨m, a⟩) (hc : c.Sound)
    (hv : (c.state i).invoke = some v) (k : String) (u : Token) :
    Keyed.get? k (Keyed.insert v.id t m.invocations) = some u ↔
      ∃ j w, (c.state j).invoke = some w ∧ w.id = k ∧ (j = i ∧ u = t ∨ j ≠ i ∧ Current hs j u) := by
  by_cases hk : k = v.id
  · subst hk
    rw [Keyed.get?_insert_self]
    constructor
    · rintro ⟨⟩
      exact ⟨i, v, hv, rfl, .inl ⟨rfl, rfl⟩⟩
    · rintro ⟨j, w, hw, hid, ⟨rfl, rfl⟩ | ⟨hji, _⟩⟩
      · rfl
      · exact absurd (hc.invoke j i w v hw hv hid) hji
  · rw [Keyed.get?_insert_of_ne hk, hb.held k u]
    refine exists_congr fun j => exists_congr fun w => and_congr_right fun hw =>
      and_congr_right fun hid => ?_
    have hji : j ≠ i := by
      rintro rfl
      cases hw.symm.trans hv
      exact hk hid.symm
    simp [hji]

theorem quiet (hb : Books c hs ⟨m, a⟩) (h : m.Quiet m') : Books c hs ⟨m', a⟩ where
  chart := h.chart.trans hb.chart
  rooted := by simpa [Rooted, h.configuration, h.chart] using hb.rooted
  orderly := hb.orderly
  generation := by simpa [h.generation] using hb.generation
  sorted := by simpa [h.invocations] using hb.sorted
  awaiting := by simpa [h.configuration] using hb.awaiting
  inactive := by simpa [h.configuration] using hb.inactive
  fresh := hb.fresh
  settled := by simpa [h.configuration] using hb.settled
  held := by simpa [h.invocations] using hb.held

theorem become (hb : Books c hs ⟨m, []⟩) (status : Status) :
    Books c (hs ++ [.became status]) ⟨{ m with status }, []⟩ where
  chart := hb.chart
  rooted := hb.rooted
  orderly := hb.orderly.concat trivial
  generation := by simpa [Happening.issued?] using hb.generation
  sorted := hb.sorted
  awaiting := hb.awaiting
  inactive j hj := (inactive_concat (by simp [Happening.state?])).mpr (hb.inactive j hj)
  fresh := by simp
  settled j hj hnot := (settled_concat (by simp [Happening.state?])).mpr (hb.settled j hj hnot)
  held k t := by
    simp only [hb.held k t, current_concat (h := .became status) (by simp [Happening.state?]),
      Happening.accepted?, ne_eq, reduceCtorEq, not_false_eq_true, and_true]

/-- A state that is not active is activated, in whatever way. -/
theorem activate {h : Happening} (hb : Books c hs ⟨m, a⟩) (hc : c.Sound)
    (hact : h.activates = true) (hstate : h.state? = some i)
    (hlawful : Inactive hs i → Lawful c hs h)
    (hi : i < m.chart.size) (hpath : m.configuration ++ [i] = m.chart.pathTo i)
    (hchart : m'.chart = m.chart) (hconfiguration : m'.configuration = m.configuration ++ [i])
    (hinvocations : m'.invocations = m.invocations) (hgeneration : m'.generation = m.generation) :
    Books c (hs ++ [h]) ⟨m', a ++ [i]⟩ := by
  have hnodup : (m.configuration ++ [i]).Nodup := by
    rw [hpath, hb.chart]
    exact hc.nodup_pathTo (by rwa [← hb.chart])
  have hnew : i ∉ m.configuration := fun hmem =>
    (List.nodup_append.mp hnodup).2.2 i hmem i (by simp) rfl
  have hne : ∀ j, j ≠ i → h.state? ≠ some j := fun _ => state?_ne hstate
  have hissued : h.issued? = none ∧ h.accepted? = none := by
    cases h <;> simp_all [Happening.activates, Happening.issued?, Happening.accepted?]
  have hlatest : latest i (hs ++ [h]) = some h := latest_concat_self hs hstate
  refine ⟨hchart.trans hb.chart, .inr ⟨i, by rwa [hchart], by rw [hconfiguration, hchart, hpath]⟩,
    hb.orderly.concat (hlawful (hb.inactive i hnew)), ?_, ?_, ?_, fun j hj => ?_, fun j hj => ?_,
    fun j hj hnot => ?_, fun k t => ?_⟩
  · simpa [hissued.1, hgeneration] using hb.generation
  · simpa [hinvocations] using hb.sorted
  · obtain ⟨before, heq⟩ : ∃ before, before ++ a = m.configuration := hb.awaiting
    exact ⟨before, by simp [hconfiguration, ← heq]⟩
  · simp only [hconfiguration, List.mem_append, List.mem_singleton, not_or] at hj
    exact (inactive_concat (hne j hj.2)).mpr (hb.inactive j hj.1)
  · by_cases hji : j = i
    · exact ⟨h, by rw [hji, hlatest], hact⟩
    · rw [latest_concat_of_ne hs (hne j hji)]
      exact hb.fresh j (by simpa [hji] using hj)
  · simp only [List.mem_append, List.mem_singleton, not_or] at hnot
    refine (settled_concat (hne j hnot.2)).mpr (hb.settled j ?_ hnot.1)
    simpa [hconfiguration, hnot.2] using hj
  · rw [hinvocations, hb.held k t]
    refine exists_congr fun j => exists_congr fun v => and_congr_right fun _ =>
      and_congr_right fun _ => ?_
    -- a state has no current token before its activation, and none until one is issued
    by_cases hji : j = i
    · subst hji
      refine iff_of_false (hb.inactive j hnew).not_current ?_
      rintro ⟨⟨input, heq⟩, _⟩
      cases hlatest.symm.trans heq
      cases hact
    · simp [current_concat (hne j hji), hissued.2]

theorem issue {v : Invocation} (hb : Books c hs ⟨m, i :: a⟩) (hc : c.Sound)
    (hv : (m.chart.state i).invoke = some v) :
    Books c (hs ++ [.issued i ⟨v.id, m.generation + 1⟩ (v.inputIn m.context)])
      ⟨m.startInvocation i, a⟩ := by
  have hstart := startInvocation_starts hv
  rw [hb.chart] at hv
  obtain ⟨before, hsplit⟩ : ∃ before, before ++ i :: a = m.configuration := hb.awaiting
  have hnodup : (before ++ i :: a).Nodup := by
    rw [hsplit]
    exact hb.nodup hc
  have hnot : i ∉ a := (List.nodup_cons.mp (List.nodup_append.mp hnodup).2.1).1
  have hactive : i ∈ m.configuration := by
    rw [← hsplit]
    simp
  have hnew : (⟨v.id, m.generation + 1⟩ : Token) ∉ issued hs := fun hmem =>
    absurd (hb.generation _ hmem) (Nat.not_succ_le_self _)
  have hne : ∀ j, j ≠ i →
      Happening.state? (.issued i ⟨v.id, m.generation + 1⟩ (v.inputIn m.context)) ≠ some j :=
    fun _ => state?_ne rfl
  refine ⟨hstart.chart.trans hb.chart, ?_, hb.orderly.concat ⟨⟨v, hv, rfl⟩, hb.fresh i (by simp),
    fun u hu => Nat.lt_succ_of_le (hb.generation u hu)⟩, fun u hu => ?_, ?_, ?_, fun j hj => ?_,
    fun j hj => ?_, fun j hj hwait => ?_, fun k t => ?_⟩
  · simpa [Rooted, hstart.configuration, hstart.chart] using hb.rooted
  · simp only [hstart.generation]
    simp only [issued_concat, Happening.issued?, List.mem_append, Option.toList_some,
      List.mem_singleton] at hu
    rcases hu with hu | rfl
    · exact (hb.generation u hu).trans (Nat.le_succ _)
    · exact le_rfl
  · simpa [hstart.invocations] using hb.sorted.insert
  · exact ⟨before ++ [i], by simp [hstart.configuration, ← hsplit]⟩
  · rw [hstart.configuration] at hj
    exact (inactive_concat (hne j fun heq => hj (heq ▸ hactive))).mpr (hb.inactive j hj)
  · rw [latest_concat_of_ne hs (hne j fun heq => hnot (heq ▸ hj))]
    exact hb.fresh j (by simp [hj])
  · by_cases hji : j = i
    · subst hji
      simp [Settled, hv, latest_concat, Happening.state?]
    · rw [hstart.configuration] at hj
      exact (settled_concat (hne j hji)).mpr (hb.settled j hj (by simp [hji, hwait]))
  · rw [hstart.invocations, hb.held_insert hc hv]
    simp only [current_issued fun hmem => hnew (hb.orderly.accepted_subset hmem)]

theorem pass (hb : Books c hs ⟨m, i :: a⟩) (hv : (m.chart.state i).invoke = none) :
    Books c hs ⟨m, a⟩ := by
  obtain ⟨before, hsplit⟩ : ∃ before, before ++ i :: a = m.configuration := hb.awaiting
  refine ⟨hb.chart, hb.rooted, hb.orderly, hb.generation, hb.sorted,
    ⟨before ++ [i], by simp [← hsplit]⟩, hb.inactive, fun j hj => hb.fresh j (by simp [hj]),
    fun j hj hnot => ?_, hb.held⟩
  by_cases hji : j = i
  · subst hji
    rw [hb.chart] at hv
    simpa [Settled, hv] using hb.fresh j (by simp)
  · exact hb.settled j hj (by simp [hji, hnot])

theorem accept (hb : Books c hs ⟨m, []⟩) (hc : c.Sound)
    (h : Keyed.get? t.invokeId m.invocations = some t) :
    Books c (hs ++ [.accepted t]) ⟨m.accept t, []⟩ := by
  obtain ⟨i, v, hv, hid, hcur⟩ := (hb.held t.invokeId t).mp h
  refine ⟨hb.chart, hb.rooted, hb.orderly.concat ⟨i, hcur⟩,
    by simpa [Happening.issued?, Machine.accept] using hb.generation, hb.sorted.erase, hb.awaiting,
    fun j hj => (inactive_concat (by simp [Happening.state?])).mpr (hb.inactive j hj), by simp,
    fun j hj hnot => (settled_concat (by simp [Happening.state?])).mpr (hb.settled j hj hnot),
    fun k u => ?_⟩
  have htable := hb.held_erase hc hv k u
  rw [hid] at htable
  rw [Machine.accept, htable]
  refine exists_congr fun j => exists_congr fun w => and_congr_right fun hw =>
    and_congr_right fun _ => ?_
  rw [current_accepted]
  refine and_congr_right fun hcur' => not_congr ⟨?_, ?_⟩
  · rintro rfl
    exact hcur.unique hcur'
  · rintro rfl
    exact hb.orderly.current_injective hc hcur' hcur

/-- What is held for an active state is its current token. -/
theorem held_iff (hb : Books c hs ⟨m, []⟩) (hc : c.Sound) (i : Nat) (t : Token) :
    m.held i = some t ↔ Current hs i t := by
  have hchart : m.chart = c := hb.chart
  have hheld := hb.held
  dsimp only at hheld
  simp only [Machine.held, Option.bind_eq_some_iff, hheld, hchart]
  constructor
  · rintro ⟨v, hv, j, w, hw, hid, hcur⟩
    exact hc.invoke j i w v hw hv hid ▸ hcur
  · intro hcur
    obtain ⟨v, hv, _⟩ := hb.orderly.current_invokeId hcur
    exact ⟨v, hv, i, v, hv, rfl, hcur⟩

theorem exit (hb : Books c hs ⟨m, []⟩) (hc : c.Sound) (h : m.leaf? = some i) :
    Books c (hs ++ [.exited i (m.held i)]) ⟨m.leave i, []⟩ := by
  have hleave := leave_leaves m i
  obtain ⟨before, hsplit⟩ := List.getLast?_eq_some_iff.mp h
  have hnodup := hb.nodup hc
  rw [hsplit] at hnodup
  have hgone : i ∉ before := fun hmem => (List.nodup_append.mp hnodup).2.2 i hmem i (by simp) rfl
  have hactive : i ∈ m.configuration := by simp [hsplit]
  have hconfiguration : (m.leave i).configuration = before := by
    simp [hleave.configuration, hsplit]
  have hne : ∀ j, j ≠ i → Happening.state? (.exited i (m.held i)) ≠ some j := fun _ => state?_ne rfl
  refine ⟨hleave.chart.trans hb.chart, ?_, hb.orderly.concat
    ⟨hb.settled i hactive (by simp), hb.held_iff hc i⟩, ?_, ?_, by simp, fun j hj => ?_, by simp,
    fun j hj hnot => ?_, fun k t => ?_⟩
  · exact (Move.exit h).rooted (by rw [hb.chart]; exact hc) hb.rooted
  · simpa [Happening.issued?, hleave.generation] using hb.generation
  · simp only [hleave.invocations]
    split
    · exact hb.sorted.erase
    · exact hb.sorted
  · by_cases hji : j = i
    · subst hji
      intro x hx
      rw [latest_concat_self hs rfl] at hx
      cases hx
      exact ⟨_, rfl⟩
    · refine (inactive_concat (hne j hji)).mpr (hb.inactive j ?_)
      rw [hconfiguration] at hj
      simp [hsplit, hj, hji]
  · rw [hconfiguration] at hj
    exact (settled_concat (hne j fun heq => hgone (heq ▸ hj))).mpr
      (hb.settled j (by simp [hsplit, hj]) hnot)
  · have hchart : m.chart = c := hb.chart
    have hheld := hb.held k t
    dsimp only at hheld
    simp only [current_exited, hleave.invocations, hchart]
    cases hv : (c.state i).invoke with
    | some v => exact hb.held_erase hc hv k t
    | none =>
      dsimp only
      rw [hheld]
      refine exists_congr fun j => exists_congr fun w => and_congr_right fun hw =>
        and_congr_right fun _ => ⟨fun hcur => ⟨hcur, ?_⟩, And.left⟩
      rintro rfl
      cases hw.symm.trans hv

end Books

variable {c : Chart} {hs new : History} {p q : Point}

theorem Move.books (h : Move p new q) (hc : c.Sound) (hb : Books c hs p) :
    Books c (hs ++ new) q := by
  cases h with
  | quiet h => simpa using hb.quiet h
  | activate hi h => exact hb.activate hc rfl rfl id hi h rfl rfl rfl rfl
  | resume hi h => exact hb.activate hc rfl rfl id hi h rfl rfl rfl rfl
  | issue h => exact hb.issue hc h
  | pass h => simpa using hb.pass h
  | accept h => exact hb.accept hc h
  | exit h => exact hb.exit hc h
  | become status => exact hb.become status

theorem Moves.books (h : Moves p new q) (hc : c.Sound) (hb : Books c hs p) :
    Books c (hs ++ new) q := by
  induction h with
  | refl => simpa using hb
  | tail _ last ih =>
      rw [← List.append_assoc]
      exact last.books hc ih

end Statechart.Machine
