import Statechart.Proofs.Chart.Loops

/-!
# Domains of transitions

The domain of a transition is the deepest state that stands above both its source and its target.
The search for it goes up from the source, so what it meets first is deepest, and it can miss
nothing, because what stands above both stands above the source. On the paths from the root the
domain is where two states part, unless one of them lies on the path to the other.
-/
namespace Statechart.Chart

/-- A state is a proper ancestor of another. -/
def Above (c : Chart) : Nat → Nat → Prop :=
  Relation.TransGen fun p i => (c.state i).parent = some p

/-- The paths to two states have the same state so many steps below the root. -/
def Share (c : Chart) (i j steps : Nat) : Prop :=
  ∃ a, (c.pathTo i)[steps]? = some a ∧ (c.pathTo j)[steps]? = some a

/-- Whether a candidate stands properly above a target. -/
def aboveLoop (c : Chart) (target a : Nat) : Part Bool :=
  if target = a then Part.some false else c.withinLoop a (some target)

/-- Goes up from a candidate until it stands properly above a target. -/
def domainLoop (c : Chart) (target : Nat) : Option Nat →. Option Nat :=
  PFun.fix fun
    | none => Part.some (.inl none)
    | some a => (c.aboveLoop target a).bind fun above =>
      if above then Part.some (.inl (some a)) else (c.stateAt a).map fun s => .inr s.parent

/-- The deepest of the states above both. -/
structure Deepest (c : Chart) (i j domain : Nat) : Prop where
  left : c.Above domain i
  right : c.Above domain j
  depth : ∀ a, c.Above a i → c.Above a j → (c.state a).depth ≤ (c.state domain).depth

theorem Deepest.symm {c : Chart} {i j domain : Nat} (h : c.Deepest i j domain) :
    c.Deepest j i domain :=
  ⟨h.right, h.left, fun a hj hi => h.depth a hi hj⟩

/-- What is known of the domain of two states. -/
structure Domain (c : Chart) (i j : Nat) : Prop where
  /-- The search ends, without leaving the arena. -/
  loop : (c.stateAt i).bind (fun s => c.domainLoop j s.parent) = Part.some (c.transitionDomain i j)
  some_iff : ∀ domain, c.transitionDomain i j = some domain ↔ c.Deepest i j domain
  none_iff : c.transitionDomain i j = none ↔ i = root ∨ j = root
  symm : c.transitionDomain i j = c.transitionDomain j i
  /-- The paths agree down to the domain and no further, unless one state is on the way to the
  other. -/
  parts : ∀ domain, c.transitionDomain i j = some domain →
    ((∀ steps, c.Share i j steps ↔ steps < (c.state domain).depth + 1) ↔
      ¬(i = j ∨ c.Above i j ∨ c.Above j i))

/-- In a list that falls strictly, the first to pass a test is the greatest that does. -/
theorem find?_eq_some_iff_of_pairwise {α : Type} {rank : α → Nat} {test : α → Bool} {a : α} :
    ∀ {list : List α}, list.Pairwise (fun x y => rank y < rank x) →
      (list.find? test = some a ↔
        a ∈ list ∧ test a = true ∧ ∀ b ∈ list, test b = true → rank b ≤ rank a)
  | [], _ => by simp
  | x :: rest, hfalls => by
      obtain ⟨hfirst, hrest⟩ := List.pairwise_cons.mp hfalls
      cases hx : test x with
      | true =>
          rw [List.find?_cons_of_pos hx, Option.some.injEq]
          constructor
          · rintro rfl
            refine ⟨List.mem_cons_self, hx, List.forall_mem_cons.mpr ⟨fun _ => le_rfl, ?_⟩⟩
            exact fun b hb _ => (hfirst b hb).le
          · rintro ⟨ha, -, hmax⟩
            rcases List.mem_cons.mp ha with rfl | ha
            · rfl
            · exact absurd (hfirst a ha) (not_lt.mpr (hmax x List.mem_cons_self hx))
      | false =>
          have hne : test a = true → a ≠ x := by
            rintro ha rfl
            rw [hx] at ha
            cases ha
          rw [List.find?_cons_of_neg (by simp [hx]), find?_eq_some_iff_of_pairwise hrest]
          simp only [List.mem_cons, forall_eq_or_imp, hx]
          grind

namespace Sound

variable {c : Chart} {i j p a k : Nat}

theorem not_above_root (hc : c.Sound) : ¬c.Above a root := by
  intro h
  obtain ⟨p, -, hp⟩ := Relation.TransGen.tail'_iff.mp h
  rw [hc.root_parent] at hp
  cases hp

theorem above_of_parent_iff (h : (c.state i).parent = some p) :
    c.Above a i ↔ a = p ∨ c.Above a p := by
  constructor
  · intro habove
    obtain ⟨q, hup, hq⟩ := Relation.TransGen.tail'_iff.mp habove
    obtain rfl : q = p := Option.some.inj (hq.symm.trans h)
    exact (Relation.reflTransGen_iff_eq_or_transGen.mp hup).imp_left Eq.symm
  · rintro (rfl | habove)
    · exact .single h
    · exact .tail habove h

/-- The bounded walk upwards meets exactly what stands above. -/
theorem mem_ancestors_iff (hc : c.Sound) (hi : i < c.size) :
    a ∈ c.ancestors c.size i ↔ c.Above a i := by
  induction i, hi using hc.induction with
  | base => simp [hc.ancestors_root, hc.not_above_root]
  | step i p hi hp ih => rw [hc.ancestors_of_parent hp, List.mem_cons, ih, above_of_parent_iff hp]

theorem mem_pathTo_iff (hc : c.Sound) (hi : i < c.size) :
    a ∈ c.pathTo i ↔ a = i ∨ c.Above a i := by
  rw [pathTo_eq, List.mem_append, List.mem_reverse, List.mem_singleton, hc.mem_ancestors_iff hi,
    or_comm]

theorem above_lt (hc : c.Sound) (h : c.Above a i) : a < i := by
  induction h with
  | single h => exact (hc.of_parent h).1
  | tail _ h ih => exact ih.trans (hc.of_parent h).1

theorem depth_of_above (hc : c.Sound) (h : c.Above a i) :
    (c.state a).depth < (c.state i).depth := by
  induction h with
  | single h => exact Nat.lt_of_succ_le (hc.of_parent h).2.2.1.ge
  | tail _ h ih => exact ih.trans (Nat.lt_of_succ_le (hc.of_parent h).2.2.1.ge)

/-- Upwards the states are less and less deep. -/
theorem ancestors_pairwise (hc : c.Sound) (hi : i < c.size) :
    (c.ancestors c.size i).Pairwise fun a b => (c.state b).depth < (c.state a).depth := by
  induction i, hi using hc.induction with
  | base => simp [hc.ancestors_root]
  | step i p hi hp ih =>
      rw [hc.ancestors_of_parent hp, List.pairwise_cons]
      have hlt : p < c.size := (hc.of_parent hp).1.trans hi
      exact ⟨fun b hb => hc.depth_of_above ((hc.mem_ancestors_iff hlt).mp hb), ih⟩

/-- What the search tests for. -/
theorem test_iff (hc : c.Sound) (hj : j < c.size) :
    (j != a && c.isWithin j a) = true ↔ c.Above a j := by
  rw [Bool.and_eq_true, bne_iff_ne, isWithin_iff, hc.mem_pathTo_iff hj]
  constructor
  · rintro ⟨hne, rfl | habove⟩
    · exact absurd rfl hne
    · exact habove
  · exact fun habove => ⟨(hc.above_lt habove).ne', .inr habove⟩

theorem transitionDomain_eq_some_iff (hc : c.Sound) (hi : i < c.size) (hj : j < c.size) :
    c.transitionDomain i j = some a ↔ c.Deepest i j a := by
  rw [transitionDomain, find?_eq_some_iff_of_pairwise (hc.ancestors_pairwise hi)]
  simp only [hc.mem_ancestors_iff hi, hc.test_iff hj]
  exact ⟨fun ⟨hleft, hright, hdepth⟩ => ⟨hleft, hright, hdepth⟩,
    fun h => ⟨h.left, h.right, h.depth⟩⟩

theorem above_root (hc : c.Sound) (hi : i < c.size) (hne : i ≠ root) : c.Above root i := by
  have hmem : root ∈ c.pathTo i := List.mem_of_mem_head? (hc.head?_pathTo hi)
  exact ((hc.mem_pathTo_iff hi).mp hmem).resolve_left hne.symm

/-- Two states have no common domain exactly when one of them is the root. -/
theorem transitionDomain_eq_none_iff (hc : c.Sound) (hi : i < c.size) (hj : j < c.size) :
    c.transitionDomain i j = none ↔ i = root ∨ j = root := by
  simp only [transitionDomain, List.find?_eq_none, hc.test_iff hj, hc.mem_ancestors_iff hi]
  constructor
  · intro hnone
    by_contra hne
    obtain ⟨hi', hj'⟩ := not_or.mp hne
    exact hnone root (hc.above_root hi hi') (hc.above_root hj hj')
  · rintro (rfl | rfl) a ha hb
    · exact hc.not_above_root ha
    · exact hc.not_above_root hb

theorem aboveLoop_eq (hc : c.Sound) (hj : j < c.size) (a : Nat) :
    c.aboveLoop j a = Part.some (j != a && c.isWithin j a) := by
  unfold aboveLoop
  split
  · next heq => simp [heq]
  · next hne => simp [hc.withinLoop_eq hj, hne]

theorem domainLoop_of_above (hc : c.Sound) (hj : j < c.size)
    (ha : (j != a && c.isWithin j a) = true) : c.domainLoop j (some a) = Part.some (some a) :=
  fix_of_done (by simp [hc.aboveLoop_eq hj, ha])

theorem domainLoop_of_not_above (hc : c.Sound) (hj : j < c.size) (hi : a < c.size)
    (ha : (j != a && c.isWithin j a) = false) :
    c.domainLoop j (some a) = c.domainLoop j (c.state a).parent :=
  fix_of_next (by simp [hc.aboveLoop_eq hj, ha, stateAt_of_lt hi])

/-- The search from a candidate on. -/
theorem domainLoop_eq (hc : c.Sound) (hj : j < c.size) (ha : a < c.size) :
    c.domainLoop j (some a) = Part.some
      ((a :: c.ancestors c.size a).find? fun b => j != b && c.isWithin j b) := by
  have hnone : c.domainLoop j none = Part.some none := fix_of_done rfl
  induction a, ha using hc.induction with
  | base =>
      cases hb : (j != root && c.isWithin j root) with
      | true => simp only [hc.domainLoop_of_above hj hb, List.find?_cons, hb]
      | false =>
          rw [hc.domainLoop_of_not_above hj hc.root_lt hb, hc.root_parent, hnone]
          simp only [List.find?_cons, hb, hc.ancestors_root, List.find?_nil]
  | step a p hlt hp ih =>
      cases hb : (j != a && c.isWithin j a) with
      | true => simp only [hc.domainLoop_of_above hj hb, List.find?_cons, hb]
      | false =>
          rw [hc.domainLoop_of_not_above hj hlt hb, hp, ih, ← hc.ancestors_of_parent hp]
          simp only [List.find?_cons (a := a), hb]

/-- The search for a domain, from the parent of the source on. -/
theorem domain_loop (hc : c.Sound) (hi : i < c.size) (hj : j < c.size) :
    (c.stateAt i).bind (fun s => c.domainLoop j s.parent) = Part.some (c.transitionDomain i j) := by
  rw [stateAt_of_lt hi, Part.bind_some, transitionDomain]
  cases hp : (c.state i).parent with
  | none =>
      have hroot : i = root := by
        by_contra hne
        obtain ⟨p, hp', -⟩ := hc.parent i hi hne
        rw [hp] at hp'
        cases hp'
      rw [hroot, hc.ancestors_root]
      exact fix_of_done rfl
  | some p =>
      rw [hc.domainLoop_eq hj ((hc.of_parent hp).1.trans hi), hc.ancestors_of_parent hp]

/-- A state stands on a path as many steps from its beginning as it is deep. -/
theorem getElem?_pathTo_iff (hc : c.Sound) (hi : i < c.size) :
    (c.pathTo i)[k]? = some a ↔ a ∈ c.pathTo i ∧ (c.state a).depth = k := by
  have hplace (b : Nat) (hb : b ∈ c.pathTo i) : (c.pathTo i)[(c.state b).depth]? = some b := by
    obtain ⟨rest, hrest⟩ := hc.pathTo_prefix hi hb
    have hlength : (c.ancestors c.size b).length = (c.state b).depth := by
      have hpath := hc.length_pathTo (hc.lt_of_mem_pathTo hi hb)
      rw [pathTo_eq] at hpath
      simpa using hpath
    rw [← hrest, pathTo_eq, List.append_assoc, List.getElem?_append_right (by simp [hlength])]
    simp [hlength]
  constructor
  · intro hk
    have hmem := List.mem_of_getElem? hk
    have hsame := (hplace a hmem).trans hk.symm
    have hlt : (c.state a).depth < (c.pathTo i).length :=
      (List.getElem?_eq_some_iff.mp (hplace a hmem)).1
    exact ⟨hmem, (List.getElem?_inj hlt (hc.nodup_pathTo hi)).mp hsame⟩
  · rintro ⟨hmem, rfl⟩
    exact hplace a hmem

theorem share_iff (hc : c.Sound) (hi : i < c.size) (hj : j < c.size) :
    c.Share i j k ↔ ∃ a, a ∈ c.pathTo i ∧ a ∈ c.pathTo j ∧ (c.state a).depth = k := by
  simp only [Share, hc.getElem?_pathTo_iff hi, hc.getElem?_pathTo_iff hj]
  exact exists_congr fun a => ⟨fun ⟨⟨hl, hd⟩, hr, _⟩ => ⟨hl, hr, hd⟩,
    fun ⟨hl, hr, hd⟩ => ⟨⟨hl, hd⟩, hr, hd⟩⟩

/-- What is above a state on a path is on it too. -/
theorem share_of_le (hc : c.Sound) (hi : i < c.size) (hj : j < c.size) (hl : a ∈ c.pathTo i)
    (hr : a ∈ c.pathTo j) (hk : k ≤ (c.state a).depth) : c.Share i j k := by
  have ha := hc.lt_of_mem_pathTo hi hl
  have hlt : k < (c.pathTo a).length := by rw [hc.length_pathTo ha]; omega
  obtain ⟨hmem, hdepth⟩ := (hc.getElem?_pathTo_iff ha).mp (List.getElem?_eq_getElem hlt)
  exact (hc.share_iff hi hj).mpr
    ⟨_, (hc.pathTo_prefix hi hl).subset hmem, (hc.pathTo_prefix hj hr).subset hmem, hdepth⟩

/-- Below the deepest common ancestor the paths to two states have nothing in common, unless one of
the states is on both. -/
theorem share_iff_of_deepest (hc : c.Sound) (hi : i < c.size) (hj : j < c.size)
    (h : c.Deepest i j a) (hapart : ¬(i = j ∨ c.Above i j ∨ c.Above j i)) :
    c.Share i j k ↔ k < (c.state a).depth + 1 := by
  have hl : a ∈ c.pathTo i := (hc.mem_pathTo_iff hi).mpr (.inr h.left)
  have hr : a ∈ c.pathTo j := (hc.mem_pathTo_iff hj).mpr (.inr h.right)
  refine ⟨fun hshare => ?_, fun hk => hc.share_of_le hi hj hl hr (Nat.le_of_lt_succ hk)⟩
  obtain ⟨b, hbl, hbr, rfl⟩ := (hc.share_iff hi hj).mp hshare
  rw [hc.mem_pathTo_iff hi] at hbl
  rw [hc.mem_pathTo_iff hj] at hbr
  obtain ⟨hne, hij, hji⟩ : i ≠ j ∧ ¬c.Above i j ∧ ¬c.Above j i := by simpa using hapart
  rcases hbl with rfl | hbl <;> rcases hbr with rfl | hbr
  · exact absurd rfl hne
  · exact absurd hbr hij
  · exact absurd hbl hji
  · exact Nat.lt_succ_of_le (h.depth b hbl hbr)

/-- When one of two states is on the path to the other, it is on both, below their deepest common
proper ancestor. -/
theorem exists_share_of_deepest (hc : c.Sound) (hi : i < c.size) (hj : j < c.size)
    (h : c.Deepest i j a) (hline : i = j ∨ c.Above i j ∨ c.Above j i) :
    ∃ k, (c.state a).depth < k ∧ c.Share i j k := by
  rcases hline with rfl | hij | hji
  · exact ⟨_, hc.depth_of_above h.left, (hc.share_iff hi hi).mpr
      ⟨i, (hc.mem_pathTo_iff hi).mpr (.inl rfl), (hc.mem_pathTo_iff hi).mpr (.inl rfl), rfl⟩⟩
  · exact ⟨_, hc.depth_of_above h.left, (hc.share_iff hi hj).mpr
      ⟨i, (hc.mem_pathTo_iff hi).mpr (.inl rfl), (hc.mem_pathTo_iff hj).mpr (.inr hij), rfl⟩⟩
  · exact ⟨_, hc.depth_of_above h.right, (hc.share_iff hi hj).mpr
      ⟨j, (hc.mem_pathTo_iff hi).mpr (.inr hji), (hc.mem_pathTo_iff hj).mpr (.inl rfl), rfl⟩⟩

end Sound

/-- The domain of two states of a built chart is the deepest state above both. -/
theorem transitionDomain_deepest {d : Definition} {c : Chart} (h : build d = .ok c) {i j : Nat}
    (hi : i < c.size) (hj : j < c.size) : c.Domain i j := by
  have hc := build_sound h
  refine ⟨hc.domain_loop hi hj, fun domain => hc.transitionDomain_eq_some_iff hi hj,
    hc.transitionDomain_eq_none_iff hi hj, Option.ext fun domain => ?_, fun domain hdomain => ?_⟩
  · rw [hc.transitionDomain_eq_some_iff hi hj, hc.transitionDomain_eq_some_iff hj hi]
    exact ⟨Deepest.symm, Deepest.symm⟩
  · have hdeepest := (hc.transitionDomain_eq_some_iff hi hj).mp hdomain
    refine ⟨fun hexact hline => ?_, fun hapart steps =>
      hc.share_iff_of_deepest hi hj hdeepest hapart⟩
    obtain ⟨k, hbelow, hshare⟩ := hc.exists_share_of_deepest hi hj hdeepest hline
    exact absurd ((hexact k).mp hshare) (by omega)

/-- Bed and garden part at the root, bed and desk in their room. -/
theorem transitionDomain_deepest_house :
    (houseChart.Domain 4 6 ∧ houseChart.transitionDomain 4 6 = some 0) ∧
      houseChart.Domain 4 5 ∧ houseChart.transitionDomain 4 5 = some 3 :=
  ⟨⟨transitionDomain_deepest build_house (by decide) (by decide), rfl⟩,
    transitionDomain_deepest build_house (by decide) (by decide), rfl⟩

end Statechart.Chart
