import Mathlib.Data.PFun
import Statechart.Proofs.Chart.Walk

/-!
# Loops through a chart

A walk through a chart is a loop that goes on as long as there is a parent, or an initial child, and
nothing else bounds it. It ends all the same: a parent stands above its child and an initial child
below its parent, and neither leads out of the arena. So each loop gives what the bounded walk
gives. A loop is a partial value here, which is missing when the loop does not end or looks up a
state where there is none.
-/
namespace Statechart.Chart

/-- The state at a position of the arena. -/
def stateAt (c : Chart) (i : Nat) : Part State := Part.ofOption c.states[i]?

/-- Goes on to the parent, keeping what has been met, and turns it round in the end. -/
def pathLoop (c : Chart) : List Nat × Nat →. List Nat :=
  PFun.fix fun (path, i) => (c.stateAt i).map fun s =>
    match s.parent with
    | none => .inl path.reverse
    | some p => .inr (path ++ [p], p)

/-- Goes on to the parent until the state that is looked for is met. -/
def withinLoop (c : Chart) (ancestor : Nat) : Option Nat →. Bool :=
  PFun.fix fun
    | none => Part.some (.inl false)
    | some i =>
      if i = ancestor then Part.some (.inl true)
      else (c.stateAt i).map fun s => .inr s.parent

/-- Goes on to the initial child, keeping what has been met. -/
def chainLoop (c : Chart) : List Nat × Nat →. List Nat :=
  PFun.fix fun (chain, i) => (c.stateAt i).map fun s =>
    match s.initial with
    | none => .inl chain
    | some j => .inr (chain ++ [j], j)

/-- What is known of the walks from a state. -/
structure Walks (c : Chart) (i : Nat) : Prop where
  /-- The loops end, without leaving the arena, and give what the bounded walks give. -/
  pathLoop : c.pathLoop ([i], i) = Part.some (c.pathTo i)
  withinLoop : ∀ a, c.withinLoop a (some i) = Part.some (c.isWithin i a)
  chainLoop : c.chainLoop ([], i) = Part.some (c.initialChain i)
  increasing : (c.pathTo i).Pairwise (· < ·)
  head : (c.pathTo i).head? = some root
  last : (c.pathTo i).getLast? = some i
  length : (c.pathTo i).length = (c.state i).depth + 1
  linked : (c.pathTo i).IsChain fun p j => (c.state j).parent = some p
  within : ∀ a, c.isWithin i a = true ↔ a ∈ c.pathTo i
  /-- The initial chain is empty exactly for a leaf. -/
  chain_eq_nil : c.initialChain i = [] ↔ (c.state i).isLeaf = true
  /-- Path and initial chain together are the path to a leaf, the last of them. -/
  descent : ∃ leaf, (c.pathTo i ++ c.initialChain i).getLast? = some leaf ∧
    c.pathTo i ++ c.initialChain i = c.pathTo leaf ∧ (c.state leaf).isLeaf = true

section rounds
variable {σ α : Type} {body : σ →. α ⊕ σ} {s s' : σ} {a : α}

theorem fix_of_done (h : body s = Part.some (.inl a)) : PFun.fix body s = Part.some a :=
  Part.eq_some_iff.mpr (PFun.fix_stop (h ▸ Part.mem_some _))

theorem fix_of_next (h : body s = Part.some (.inr s')) : PFun.fix body s = PFun.fix body s' :=
  PFun.fix_fwd_eq (h ▸ Part.mem_some _)

end rounds

variable {c : Chart} {i j p a : Nat}

theorem stateAt_of_lt (hi : i < c.size) : c.stateAt i = Part.some (c.state i) := by
  have hsome : c.states[i]? = some c.states[i] := Array.getElem?_eq_getElem hi
  rw [stateAt, state, hsome]
  rfl

theorem pathLoop_of_root (hi : i < c.size) (h : (c.state i).parent = none) (path : List Nat) :
    c.pathLoop (path, i) = Part.some path.reverse :=
  fix_of_done (by simp [stateAt_of_lt hi, h])

theorem pathLoop_of_parent (hi : i < c.size) (h : (c.state i).parent = some p) (path : List Nat) :
    c.pathLoop (path, i) = c.pathLoop (path ++ [p], p) :=
  fix_of_next (by simp [stateAt_of_lt hi, h])

theorem withinLoop_self (c : Chart) (a : Nat) : c.withinLoop a (some a) = Part.some true :=
  fix_of_done (by simp)

theorem withinLoop_none (c : Chart) (a : Nat) : c.withinLoop a none = Part.some false :=
  fix_of_done rfl

theorem withinLoop_of_ne (hi : i < c.size) (hne : i ≠ a) :
    c.withinLoop a (some i) = c.withinLoop a (c.state i).parent :=
  fix_of_next (by simp [stateAt_of_lt hi, hne])

theorem chainLoop_of_leaf (hi : i < c.size) (h : (c.state i).initial = none) (chain : List Nat) :
    c.chainLoop (chain, i) = Part.some chain :=
  fix_of_done (by simp [stateAt_of_lt hi, h])

theorem chainLoop_of_initial (hi : i < c.size) (h : (c.state i).initial = some j)
    (chain : List Nat) : c.chainLoop (chain, i) = c.chainLoop (chain ++ [j], j) :=
  fix_of_next (by simp [stateAt_of_lt hi, h])

namespace Sound

theorem pathTo_eq (c : Chart) (i : Nat) : c.pathTo i = (c.ancestors c.size i).reverse ++ [i] :=
  List.reverse_cons

theorem ancestors_root (hc : c.Sound) : c.ancestors c.size root = [] := by
  have hpath := hc.pathTo_root
  rw [pathTo_eq] at hpath
  simpa using hpath

theorem pathLoop_eq (hc : c.Sound) (hi : i < c.size) (path : List Nat) :
    c.pathLoop (path, i) = Part.some ((c.ancestors c.size i).reverse ++ path.reverse) := by
  induction i, hi using hc.induction generalizing path with
  | base => rw [pathLoop_of_root hc.root_lt hc.root_parent, hc.ancestors_root]; rfl
  | step i p hi hp ih =>
      rw [pathLoop_of_parent hi hp, ih, hc.ancestors_of_parent hp]
      simp

theorem withinLoop_eq (hc : c.Sound) (hi : i < c.size) (a : Nat) :
    c.withinLoop a (some i) = Part.some (c.isWithin i a) := by
  induction i, hi using hc.induction with
  | base =>
      by_cases hne : root = a
      · subst hne
        rw [withinLoop_self]
        simp [isWithin]
      · rw [withinLoop_of_ne hc.root_lt hne, hc.root_parent, withinLoop_none, isWithin,
          hc.ancestors_root]
        simp [Ne.symm hne]
  | step i p hi hp ih =>
      by_cases hne : i = a
      · subst hne
        rw [withinLoop_self]
        simp [isWithin]
      · rw [withinLoop_of_ne hi hne, hp, ih, isWithin, isWithin, hc.ancestors_of_parent hp,
          List.contains_cons (a := i)]
        simp [Ne.symm hne]

/-- Every round of the loop leaves fewer states below. -/
theorem chainLoop_eq (hc : c.Sound) (hi : i < c.size) (chain : List Nat) :
    c.chainLoop (chain, i) = Part.some (chain ++ c.initialChain i) := by
  induction hk : c.size - i using Nat.strong_induction_on generalizing i chain with
  | _ k ih =>
      cases hj : (c.state i).initial with
      | none => rw [chainLoop_of_leaf hi hj, initialChain_of_none c hj, List.append_nil]
      | some j =>
          obtain ⟨hlt, hjlt, -⟩ := hc.of_initial hj
          have hfewer : c.size - j < k := by omega
          rw [chainLoop_of_initial hi hj, ih _ hfewer hjlt _ rfl, hc.initialChain_of_some hj]
          simp

/-- On a path, every state is the parent of the one after it. -/
theorem isChain_parent (hc : c.Sound) (hi : i < c.size) :
    (c.pathTo i).IsChain fun p j => (c.state j).parent = some p :=
  (hc.isChain_pathTo hi).imp fun p j hj => (hc.child p j hj).2.2

theorem initialChain_eq_nil_iff (hc : c.Sound) :
    c.initialChain i = [] ↔ (c.state i).isLeaf = true := by
  rw [State.isLeaf, List.isEmpty_iff, ← (hc.initial i).1]
  refine ⟨fun hnil => ?_, initialChain_of_none c⟩
  by_contra hsome
  obtain ⟨j, hj⟩ := Option.ne_none_iff_exists'.mp hsome
  rw [hc.initialChain_of_some hj] at hnil
  cases hnil

end Sound

/-- The walks of a built chart end and give paths from the root. -/
theorem walks_end {d : Definition} (h : build d = .ok c) (hi : i < c.size) : c.Walks i := by
  have hc := build_sound h
  obtain ⟨leaf, -, hpath, hleaf⟩ := hc.pathTo_append_initialChain hi
  exact {
    pathLoop := by rw [hc.pathLoop_eq hi, Sound.pathTo_eq]; rfl
    withinLoop := hc.withinLoop_eq hi
    chainLoop := hc.chainLoop_eq hi []
    increasing := hc.pathTo_increasing hi
    head := hc.head?_pathTo hi
    last := Sound.getLast?_pathTo c i
    length := hc.length_pathTo hi
    linked := hc.isChain_parent hi
    within := Sound.isWithin_iff c i
    chain_eq_nil := hc.initialChain_eq_nil_iff
    descent := ⟨leaf, by rw [hpath, Sound.getLast?_pathTo], hpath, hleaf⟩ }

/-- Rooms on floors: a state with two levels below it beside a leaf. -/
def houseDefinition : Definition where
  id := "house"
  root :=
    { initial := some "floor"
      states := [
        ("floor", { initial := some "room", states := [("hall", {}), ("room", {
          initial := some "bed", states := [("bed", {}), ("desk", {})] })] }),
        ("garden", {})] }

def houseChart : Chart where
  definition := houseDefinition
  states := #[
    ⟨"house", none, 0, [1, 6], some 1, [], [], [], none⟩,
    ⟨"floor", some 0, 1, [2, 3], some 3, [], [], [], none⟩,
    ⟨"hall", some 1, 2, [], none, [], [], [], none⟩,
    ⟨"room", some 1, 2, [4, 5], some 4, [], [], [], none⟩,
    ⟨"bed", some 3, 3, [], none, [], [], [], none⟩,
    ⟨"desk", some 3, 3, [], none, [], [], [], none⟩,
    ⟨"garden", some 0, 1, [], none, [], [], [], none⟩]
  defaultContext := .obj []
  checksum := houseDefinition.checksum

theorem build_house : build houseDefinition = .ok houseChart := rfl

/-- From the floor two initial states lead down to the bed. -/
theorem walks_end_house : houseChart.Walks 1 ∧ houseChart.pathTo 1 = [0, 1] ∧
    houseChart.initialChain 1 = [3, 4] :=
  ⟨walks_end build_house (by decide), rfl, rfl⟩

end Statechart.Chart
