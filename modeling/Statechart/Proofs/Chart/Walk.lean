import Statechart.Proofs.Chart.Sound

/-!
# Walks through a chart

Upwards, the path to a state begins at the root and goes from parent to child; it ends before the
bound of the walk does, because every parent stands above its children. Downwards, the initial
chain of a state ends in a leaf, and together with the path to the state it is the path to that
leaf. The domain of a transition lies on the paths to its source and to its target.
-/
namespace Statechart.Chart.Sound

variable {c : Chart} {i j p : Nat}

/-- All that is known of a state with a parent. -/
theorem of_parent (hc : c.Sound) (h : (c.state i).parent = some p) :
    p < i ∧ i < c.size ∧ (c.state i).depth = (c.state p).depth + 1 ∧ i ∈ (c.state p).children := by
  have hi : i < c.size := by
    by_contra hge
    rw [state_eq_default (not_lt.mp hge)] at h
    cases h
  have hne : i ≠ root := by
    rintro rfl
    rw [hc.root_parent] at h
    cases h
  obtain ⟨q, hq, hlt, hdepth, hmem⟩ := hc.parent i hi hne
  cases hq.symm.trans h
  exact ⟨hlt, hi, hdepth, hmem⟩

/-- Induction along the parents, from the root downwards. -/
theorem induction (hc : c.Sound) {motive : (i : Nat) → i < c.size → Prop}
    (base : motive root hc.root_lt)
    (step : ∀ i p (hi : i < c.size) (hp : (c.state i).parent = some p),
      motive p ((hc.of_parent hp).1.trans hi) → motive i hi) (i : Nat) (hi : i < c.size) :
    motive i hi := by
  induction i using Nat.strong_induction_on with
  | _ i ih =>
      by_cases hroot : i = root
      · subst hroot
        exact base
      · obtain ⟨p, hp, hlt, _⟩ := hc.parent i hi hroot
        exact step i p hi hp (ih p hlt (hlt.trans hi))

/-- A walk upwards has ended when its bound is the position at which it begins. -/
theorem ancestors_eq (hc : c.Sound) : ∀ {n m i : Nat}, i ≤ n → i ≤ m →
    c.ancestors n i = c.ancestors m i
  | 0, 0, _, _, _ => rfl
  | 0, m + 1, i, hn, _ => by
      obtain rfl : i = root := Nat.le_zero.mp hn
      simp [ancestors, hc.root_parent]
  | n + 1, 0, i, _, hm => by
      obtain rfl : i = root := Nat.le_zero.mp hm
      simp [ancestors, hc.root_parent]
  | n + 1, m + 1, i, hn, hm => by
      simp only [ancestors]
      cases hp : (c.state i).parent with
      | none => rfl
      | some p =>
          have hlt := (hc.of_parent hp).1
          simp only [hc.ancestors_eq (show p ≤ n by omega) (show p ≤ m by omega)]

theorem ancestors_of_parent (hc : c.Sound) (h : (c.state i).parent = some p) :
    c.ancestors c.size i = p :: c.ancestors c.size p := by
  obtain ⟨hlt, hi, _⟩ := hc.of_parent h
  have hone : c.ancestors c.size i = c.ancestors (c.size + 1) i :=
    hc.ancestors_eq hi.le (by omega)
  rw [hone]
  simp [ancestors, h]

theorem pathTo_of_parent (hc : c.Sound) (h : (c.state i).parent = some p) :
    c.pathTo i = c.pathTo p ++ [i] := by
  simp [pathTo, hc.ancestors_of_parent h]

theorem pathTo_root (hc : c.Sound) : c.pathTo root = [root] := by
  have hnone : c.ancestors c.size root = [] := by
    exact hc.ancestors_eq (Nat.zero_le _) (Nat.le_refl 0)
  simp [pathTo, hnone]

theorem getLast?_pathTo (c : Chart) (i : Nat) : (c.pathTo i).getLast? = some i := by
  simp [pathTo]

theorem head?_pathTo (hc : c.Sound) (hi : i < c.size) : (c.pathTo i).head? = some root := by
  induction i, hi using hc.induction with
  | base => simp [hc.pathTo_root]
  | step i p _ hp ih =>
      simp [hc.pathTo_of_parent hp, ih]

theorem length_pathTo (hc : c.Sound) (hi : i < c.size) :
    (c.pathTo i).length = (c.state i).depth + 1 := by
  induction i, hi using hc.induction with
  | base =>
      simp [hc.pathTo_root, hc.root_depth]
  | step i p _ hp ih =>
      simp [hc.pathTo_of_parent hp, ih, (hc.of_parent hp).2.2.1]

theorem le_of_mem_pathTo (hc : c.Sound) (hi : i < c.size) (h : j ∈ c.pathTo i) : j ≤ i := by
  induction i, hi using hc.induction with
  | base =>
      rw [hc.pathTo_root, List.mem_singleton] at h
      exact h.le
  | step i p _ hp ih =>
      rw [hc.pathTo_of_parent hp, List.mem_append, List.mem_singleton] at h
      rcases h with h | rfl
      · exact (ih h).trans (hc.of_parent hp).1.le
      · exact le_rfl

theorem lt_of_mem_pathTo (hc : c.Sound) (hi : i < c.size) (h : j ∈ c.pathTo i) : j < c.size :=
  (hc.le_of_mem_pathTo hi h).trans_lt hi

/-- A path goes strictly down the arena. -/
theorem pathTo_increasing (hc : c.Sound) (hi : i < c.size) : (c.pathTo i).Pairwise (· < ·) := by
  induction i, hi using hc.induction with
  | base => simp [hc.pathTo_root]
  | step i p _ hp ih =>
      obtain ⟨hlt, hi, _⟩ := hc.of_parent hp
      rw [hc.pathTo_of_parent hp]
      refine List.pairwise_append.mpr ⟨ih, by simp, fun a ha b hb => ?_⟩
      obtain rfl := List.mem_singleton.mp hb
      exact (hc.le_of_mem_pathTo (hlt.trans hi) ha).trans_lt hlt

theorem nodup_pathTo (hc : c.Sound) (hi : i < c.size) : (c.pathTo i).Nodup :=
  (hc.pathTo_increasing hi).imp fun h => h.ne

/-- On a path, every state is a child of the one before it. -/
theorem isChain_pathTo (hc : c.Sound) (hi : i < c.size) :
    (c.pathTo i).IsChain fun p j => j ∈ (c.state p).children := by
  induction i, hi using hc.induction with
  | base => simp [hc.pathTo_root]
  | step i p _ hp ih =>
      rw [hc.pathTo_of_parent hp]
      refine List.isChain_append.mpr ⟨ih, by simp, fun a ha b hb => ?_⟩
      rw [getLast?_pathTo, Option.mem_some_iff] at ha
      rw [List.head?_cons, Option.mem_some_iff] at hb
      subst ha hb
      exact (hc.of_parent hp).2.2.2

/-- What begins a path is nothing, or is itself the path to a state. -/
theorem prefix_pathTo (hc : c.Sound) (hi : i < c.size) {l : List Nat} (h : l <+: c.pathTo i) :
    l = [] ∨ ∃ a < c.size, l = c.pathTo a := by
  induction i, hi using hc.induction with
  | base =>
      rw [hc.pathTo_root, ← List.nil_append [root], List.prefix_concat_iff] at h
      rcases h with h | h
      · exact .inr ⟨root, hc.root_lt, by rw [h, hc.pathTo_root]; rfl⟩
      · exact .inl (List.prefix_nil.mp h)
  | step i p hi hp ih =>
      rw [hc.pathTo_of_parent hp, List.prefix_concat_iff] at h
      rcases h with h | h
      · exact .inr ⟨i, hi, by rw [h, hc.pathTo_of_parent hp]⟩
      · exact ih h

/-- The path to a state on a path begins that path. -/
theorem pathTo_prefix (hc : c.Sound) (hi : i < c.size) (h : j ∈ c.pathTo i) :
    c.pathTo j <+: c.pathTo i := by
  induction i, hi using hc.induction with
  | base =>
      rw [hc.pathTo_root, List.mem_singleton] at h
      rw [h]
  | step i p _ hp ih =>
      rw [hc.pathTo_of_parent hp, List.mem_append, List.mem_singleton] at h
      rcases h with h | rfl
      · rw [hc.pathTo_of_parent hp]
        exact (ih h).trans (List.prefix_append _ _)
      · exact List.prefix_rfl

/-- Cutting a path below one of its states leaves the path to that state. -/
theorem take_pathTo (hc : c.Sound) (hi : i < c.size) (h : j ∈ c.pathTo i) :
    (c.pathTo i).take ((c.state j).depth + 1) = c.pathTo j := by
  rw [← hc.length_pathTo (hc.lt_of_mem_pathTo hi h)]
  exact (List.prefix_iff_eq_take.mp (hc.pathTo_prefix hi h)).symm

theorem isWithin_iff (c : Chart) (i a : Nat) : c.isWithin i a = true ↔ a ∈ c.pathTo i := by
  simp [isWithin, pathTo, or_comm]

/-- A domain lies on the paths to the source and to the target. -/
theorem domain_mem {source target domain : Nat}
    (h : c.transitionDomain source target = some domain) :
    domain ∈ c.pathTo source ∧ domain ∈ c.pathTo target := by
  have hmem := List.mem_of_find?_eq_some h
  have hwithin := List.find?_some h
  simp only [Bool.and_eq_true] at hwithin
  exact ⟨by simp [pathTo, hmem], (isWithin_iff c target domain).mp hwithin.2⟩

theorem of_initial (hc : c.Sound) (h : (c.state i).initial = some j) :
    i < j ∧ j < c.size ∧ (c.state j).parent = some i :=
  hc.child i j ((hc.initial i).2 j h)

/-- A walk downwards has ended when its bound is the number of states from its start on. -/
theorem initials_eq (hc : c.Sound) : ∀ {n m i : Nat}, c.size ≤ i + n → c.size ≤ i + m →
    c.initials n i = c.initials m i
  | 0, 0, _, _, _ => rfl
  | 0, m + 1, i, hn, _ => by
      have hnone : (c.state i).initial = none := by
        rw [state_eq_default (show c.size ≤ i from hn)]
        rfl
      simp [initials, hnone]
  | n + 1, 0, i, _, hm => by
      have hnone : (c.state i).initial = none := by
        rw [state_eq_default (show c.size ≤ i from hm)]
        rfl
      simp [initials, hnone]
  | n + 1, m + 1, i, hn, hm => by
      simp only [initials]
      cases hj : (c.state i).initial with
      | none => rfl
      | some j =>
          have hlt := (hc.of_initial hj).1
          simp only [hc.initials_eq (show c.size ≤ j + n by omega) (show c.size ≤ j + m by omega)]

theorem initialChain_of_some (hc : c.Sound) (h : (c.state i).initial = some j) :
    c.initialChain i = j :: c.initialChain j := by
  have hone : c.initials c.size i = c.initials (c.size + 1) i :=
    hc.initials_eq (by omega) (by omega)
  simp only [initialChain]
  rw [hone]
  simp [initials, h]

theorem initialChain_of_none (c : Chart) (h : (c.state i).initial = none) :
    c.initialChain i = [] := by
  unfold initialChain
  cases c.size with
  | zero => rfl
  | succ n => simp [initials, h]

/-- Going down from a state along initial children ends the path in a leaf. -/
theorem pathTo_append_initialChain (hc : c.Sound) (hi : i < c.size) :
    ∃ leaf < c.size, c.pathTo i ++ c.initialChain i = c.pathTo leaf ∧
      (c.state leaf).isLeaf = true := by
  obtain ⟨k, hk⟩ : ∃ k, k = c.size - i := ⟨_, rfl⟩
  induction k using Nat.strong_induction_on generalizing i with
  | _ k ih =>
      cases hj : (c.state i).initial with
      | none =>
          refine ⟨i, hi, by simp [initialChain_of_none c hj], ?_⟩
          simp [State.isLeaf, (hc.initial i).1.mp hj]
      | some j =>
          obtain ⟨hlt, hjlt, hparent⟩ := hc.of_initial hj
          obtain ⟨leaf, hleaf, hpath, hend⟩ := ih (c.size - j) (by omega) hjlt rfl
          refine ⟨leaf, hleaf, ?_, hend⟩
          rw [← hpath, hc.initialChain_of_some hj, hc.pathTo_of_parent hparent]
          simp

end Statechart.Chart.Sound
