import Statechart.Proofs.Chart.WellFormed
import Statechart.Proofs.Chart.Walk

/-!
# The arena of a chart

The states of a built chart stand in the order of a depth-first walk through the tree of its
definition, and each of them is the state of the tree at its place, with positions instead of ids.
So a walk along the children meets the positions in order, ids and positions determine each other,
and a position that is stored anywhere is one of the arena.
-/
namespace Statechart.Chart

/-- The states met on a depth-first walk along the children of a state, at most so many levels
deep. -/
def walk (c : Chart) : Nat → Nat → List Nat
  | 0, _ => []
  | levels + 1, i => i :: (c.state i).children.flatMap (c.walk levels)

/-- A transition as it is written, its target being named by its id. -/
def transitionDef (c : Chart) (t : Transition) : TransitionDef :=
  ⟨t.target.map fun i => (c.state i).id, t.guard, t.actions⟩

/-- A state of the arena is one of the tree, with positions for ids. -/
structure Represents (c : Chart) (s : State) (n : String × StateDef) : Prop where
  id : s.id = n.1
  children : s.children.map (fun i => (c.state i).id) = n.2.states.map (·.1)
  initial : s.initial.map (fun i => (c.state i).id) = n.2.initial
  entry : s.entry = n.2.entry
  exit : s.exit = n.2.exit
  transitions : s.transitions.map (fun e => (e.1, e.2.map c.transitionDef)) = n.2.on
  invoke : s.invoke = n.2.invoke.map (invocationOf n.1)

/-- The arena of a chart that has been built from a definition. -/
structure Arena (c : Chart) (d : Definition) : Prop where
  nodes : List.Forall₂ c.Represents c.states.toList d.nodes
  root : root < c.size ∧ (c.state root).parent = none ∧ (c.state root).depth = 0
  /-- Every other state stands once among the children of one state, which is its parent. -/
  parent : ∀ i < c.size, i ≠ Chart.root → ∃ p, (c.state i).parent = some p ∧ p < i ∧
    (c.state i).depth = (c.state p).depth + 1 ∧ (c.state p).children.count i = 1 ∧
    ∀ q, q ≠ p → i ∉ (c.state q).children
  children : ∀ i, (c.state i).children.Pairwise fun j k => j < k ∧ (c.state j).id < (c.state k).id
  walk : c.walk c.size Chart.root = List.range c.size
  lookup : ∀ id i, c.lookup id = some i ↔ i < c.size ∧ (c.state i).id = id
  initial : ∀ i, ((c.state i).children ≠ [] →
      ∃ j ∈ (c.state i).children, (c.state i).initial = some j) ∧
    ((c.state i).children = [] → (c.state i).initial = none)
  transition : ∀ i, ∀ entry ∈ (c.state i).transitions, ∀ t ∈ entry.2,
    t.source = i ∧ t.source < c.size ∧ ∀ target, t.target = some target → target < c.size
  /-- What is stored as a parent or a child, and every state on a path or an initial chain, is
  there. -/
  inside : ∀ i, (∀ p, (c.state i).parent = some p → p < c.size) ∧
    (∀ j ∈ (c.state i).children, j < c.size) ∧
    (i < c.size → ∀ j ∈ c.pathTo i ++ c.initialChain i, j < c.size)
  /-- The chains of parents and of initial children are finite. -/
  up : WellFounded fun p i => (c.state i).parent = some p
  down : WellFounded fun j i => (c.state i).initial = some j

section walk
open StateDef
variable (c : Chart)

mutual

/-- A walk from the root of a tree meets the places of its layout in order. -/
theorem walk_place (id : String) (parent : Option Nat) (depth position : Nat) :
    ∀ (s : StateDef) (levels : Nat), s.size ≤ levels →
      (∀ i p, At position (place id parent depth position s) i p →
        (c.state i).children = p.children) →
      c.walk levels position = List.range' position s.size
  | { states, .. }, levels, hlevels, hchildren => by
      simp only [place, StateDef.size] at hlevels hchildren ⊢
      obtain ⟨n, rfl⟩ : ∃ n, levels = n + 1 := ⟨levels - 1, by omega⟩
      have hroot := hchildren position _ (at_cons.mpr (.inl ⟨rfl, rfl⟩))
      have hbelow := walk_placeTable position (depth + 1) states (position + 1) n (by omega)
        fun i p hat => hchildren i p (at_cons.mpr (.inr hat))
      rw [walk, hroot, hbelow, Nat.add_comm 1, List.range'_succ]

theorem walk_placeTable (parent depth : Nat) :
    ∀ (t : List (String × StateDef)) (position levels : Nat), tableSize t ≤ levels →
      (∀ i p, At position (placeTable parent depth position t) i p →
        (c.state i).children = p.children) →
      (childPositions position t).flatMap (c.walk levels) = List.range' position (tableSize t)
  | [], _, _, _, _ => rfl
  | (id, state) :: rest, position, levels, hlevels, hchildren => by
      simp only [placeTable, tableSize] at hlevels hchildren ⊢
      have hfirst := walk_place id (some parent) depth position state levels (by omega)
        fun i p hat => hchildren i p (at_append.mpr (.inl hat))
      have hrest := walk_placeTable parent depth rest (position + state.size) levels (by omega)
        fun i p hat => hchildren i p (at_append.mpr (.inr (by rwa [length_place])))
      rw [childPositions, List.flatMap_cons, hfirst, hrest, List.range'_append_1]

end

end walk

section build
variable {d : Definition} {c : Chart} {i : Nat}

theorem build_walk (h : build d = .ok c) : c.walk c.size root = List.range c.size := by
  obtain ⟨hsize, hall⟩ := build_resolves h
  have hlength : c.size = d.root.size := by
    rw [hsize]
    exact StateDef.length_place d.id none 0 0 d.root
  have hwalk := walk_place c d.id none 0 0 d.root c.size hlength.ge fun i p hat =>
    (hall i p (at_zero_iff.mp hat)).children
  rw [root, hwalk, hlength, List.range_eq_range']

/-- The id at a position of the layout is that of the chart. -/
theorem id_of_positionOf (h : build d = .ok c) {id : String}
    (hi : positionOf (layout d) id = some i) : (c.state i).id = id := by
  obtain ⟨hlt, hid, _⟩ := List.findIdx?_eq_some_iff_getElem.mp hi
  have hres := (build_resolves h).2 i _ (List.getElem?_eq_getElem hlt)
  rw [hres.id]
  simpa using hid

theorem resolveInitial_id (h : build d = .ok c) {p : Placed} {initial : Option Nat}
    (hp : resolveInitial (layout d) p = .ok initial) :
    initial.map (fun i => (c.state i).id) = p.source.initial := by
  unfold resolveInitial at hp
  split at hp
  · next hnone _ =>
      cases hp
      simp [hnone]
  · cases hp
  · cases hp
  · next id hid _ =>
      split at hp
      · next i hi =>
          split at hp
          · cases hp
            simp [id_of_positionOf h hi, hid]
          · cases hp
      · cases hp

theorem resolveTransition_def (h : build d = .ok c) {source : Nat} {id event : String}
    {t : TransitionDef} {u : Transition}
    (ht : resolveTransition (layout d) source id event t = .ok u) : c.transitionDef u = t := by
  unfold resolveTransition at ht
  split at ht
  · next hnone =>
      cases ht
      simp [transitionDef, ← hnone]
  · next target htarget =>
      split at ht
      · next i hi =>
          cases ht
          simp [transitionDef, id_of_positionOf h hi, ← htarget]
      · cases ht

theorem resolveOn_defs (h : build d = .ok c) {source : Nat} {id : String} :
    ∀ {on : List (String × List TransitionDef)} {table : Keyed (List Transition)},
      resolveOn (layout d) source id on = .ok table →
      table.map (fun e => (e.1, e.2.map c.transitionDef)) = on
  | [], table, ht => by
      cases ht
      rfl
  | (event, list) :: rest, table, ht => by
      simp only [resolveOn] at ht
      split at ht
      · cases ht
      simp only [bind_eq_ok_iff, pure_eq_ok_iff] at ht
      obtain ⟨resolved, hlist, others, hrest, rfl⟩ := ht
      have hresolved : resolved.map c.transitionDef = list := by
        rw [← List.forall₂_eq_eq_eq, List.forall₂_map_left_iff]
        exact (mapM_eq_ok_iff.mp hlist).flip.imp fun u t hu => resolveTransition_def h hu
      rw [List.map_cons, resolveOn_defs h hrest, hresolved]

theorem build_represents (h : build d = .ok c) {p : Placed} (hp : (layout d)[i]? = some p) :
    c.Represents (c.state i) (p.id, p.source) := by
  have hres := (build_resolves h).2 i p hp
  obtain ⟨seen, hinvoke⟩ := hres.invoke
  refine ⟨hres.id, ?_, resolveInitial_id h hres.initial, hres.entry, hres.exit,
    resolveOn_defs h hres.transitions, (resolveInvoke_ok_iff.mp hinvoke).2.symm⟩
  rw [hres.children, ← List.forall₂_eq_eq_eq, List.forall₂_map_left_iff, List.forall₂_map_right_iff]
  refine (layout_lists hp).ids.imp fun j entry ⟨r, hat, hid⟩ => ?_
  rw [← hid]
  exact ((build_resolves h).2 j r (at_zero_iff.mp hat)).id

theorem build_nodes (h : build d = .ok c) :
    List.Forall₂ c.Represents c.states.toList d.nodes := by
  have hsize := (build_resolves h).1
  rw [← layout_nodes, List.forall₂_map_right_iff, List.forall₂_iff_get]
  refine ⟨by simpa [size] using hsize, fun i hi hp => ?_⟩
  have hlt : i < c.states.size := by simpa using hi
  have hstate : c.state i = c.states.toList[i] := by simp [state, hlt]
  have hrep := build_represents h (List.getElem?_eq_getElem hp)
  rw [hstate] at hrep
  exact hrep

theorem lookup_iff (hc : c.Sound) {id : String} :
    c.lookup id = some i ↔ i < c.size ∧ (c.state i).id = id := by
  have hstate {j : Nat} (hj : j < c.states.size) : c.state j = c.states[j] := by simp [state, hj]
  unfold lookup size
  rw [Array.findIdx?_eq_some_iff_getElem]
  constructor
  · rintro ⟨hi, hid, _⟩
    exact ⟨hi, by rw [hstate hi]; simpa using hid⟩
  · rintro ⟨hi, hid⟩
    refine ⟨hi, by rw [← hstate hi]; simpa using hid, fun j hj => ?_⟩
    have hlt : j < c.states.size := hj.trans hi
    have hne : (c.state j).id ≠ id := fun heq =>
      hj.ne (hc.id_injective j i hlt hi (heq.trans hid.symm))
    rw [← hstate hlt]
    simpa using hne

theorem children_increasing (h : build d = .ok c) (i : Nat) :
    (c.state i).children.Pairwise (· < ·) := by
  by_cases hi : i < c.size
  · obtain ⟨p, hp, hres⟩ := exists_placed h hi
    rw [hres.children, (layout_lists hp).positions]
    exact StateDef.childPositions_increasing _ _
  · rw [state_eq_default (not_lt.mp hi)]
    exact .nil

/-- The children of a state stand in the order of their ids when those of the tree do. -/
theorem children_sorted (hd : d.root.Ordered) (h : build d = .ok c) (i : Nat) :
    (c.state i).children.Pairwise fun j k => (c.state j).id < (c.state k).id := by
  by_cases hi : i < c.size
  · obtain ⟨p, hp, hres⟩ := exists_placed h hi
    have hn : (p.id, p.source) ∈ d.nodes := mem_nodes.mpr ⟨p, List.mem_of_getElem? hp, rfl, rfl⟩
    have hsorted : Keyed.Sorted p.source.states := (hd.nodes d.id _ hn).2
    have hids : ((c.state i).children.map fun j => (c.state j).id).Pairwise (· < ·) := by
      rw [(build_represents h hp).children]
      exact List.pairwise_map.mpr hsorted
    exact List.pairwise_map.mp hids
  · rw [state_eq_default (not_lt.mp hi)]
    exact .nil

theorem parent_unique (hc : c.Sound) (h : build d = .ok c) (hi : i < c.size) (hroot : i ≠ root) :
    ∃ p, (c.state i).parent = some p ∧ p < i ∧ (c.state i).depth = (c.state p).depth + 1 ∧
      (c.state p).children.count i = 1 ∧ ∀ q, q ≠ p → i ∉ (c.state q).children := by
  obtain ⟨p, hp, hlt, hdepth, hmem⟩ := hc.parent i hi hroot
  have hnodup : (c.state p).children.Nodup := (children_increasing h p).imp fun hlt => hlt.ne
  refine ⟨p, hp, hlt, hdepth, List.count_eq_one_of_mem hnodup hmem, fun q hq hmem' => hq ?_⟩
  exact Option.some.inj ((hc.child q i hmem').2.2.symm.trans hp)

theorem parents_wellFounded (hc : c.Sound) :
    WellFounded fun p i => (c.state i).parent = some p :=
  Subrelation.wf (fun {_ _} h => (hc.of_parent h).1) Nat.lt_wfRel.wf

/-- An initial child stands below its parent and above the end of the arena. -/
theorem initials_wellFounded (hc : c.Sound) :
    WellFounded fun j i => (c.state i).initial = some j := by
  refine Subrelation.wf (fun {j i} h => ?_) (measure fun i => c.size - i).wf
  obtain ⟨hlt, hj, _⟩ := hc.of_initial h
  show c.size - j < c.size - i
  omega

theorem lt_of_mem_walk (hc : c.Sound) {j : Nat} (hi : i < c.size)
    (hj : j ∈ c.pathTo i ++ c.initialChain i) : j < c.size := by
  obtain ⟨leaf, hleaf, hpath, _⟩ := hc.pathTo_append_initialChain hi
  rw [hpath] at hj
  exact hc.lt_of_mem_pathTo hleaf hj

/-- The arena of a chart that has been built from a definition in order. -/
theorem build_arena (hd : d.root.Ordered) (h : build d = .ok c) : c.Arena d := by
  have hc := build_sound h
  refine {
    nodes := build_nodes h
    root := ⟨hc.root_lt, hc.root_parent, hc.root_depth⟩
    parent := fun i hi hroot => parent_unique hc h hi hroot
    children := fun i => (children_increasing h i).and (children_sorted hd h i)
    walk := build_walk h
    lookup := fun id i => lookup_iff hc
    initial := fun i => ⟨fun hne => ?_, (hc.initial i).1.mpr⟩
    transition := fun i entry hentry t ht => ?_
    inside := fun i => ⟨fun p hp => ?_, fun j hj => (hc.child i j hj).2.1,
      fun hi j => lt_of_mem_walk hc hi⟩
    up := parents_wellFounded hc
    down := initials_wellFounded hc }
  · obtain ⟨j, hj⟩ := Option.ne_none_iff_exists'.mp fun hnone => hne ((hc.initial i).1.mp hnone)
    exact ⟨j, (hc.initial i).2 j hj, hj⟩
  · obtain ⟨hsource, htarget⟩ := hc.transition i entry hentry t ht
    refine ⟨hsource, ?_, htarget⟩
    by_contra hge
    rw [state_eq_default (by omega)] at hentry
    cases hentry
  · obtain ⟨hlt, hi, _⟩ := hc.of_parent hp
    exact hlt.trans hi

end build

end Statechart.Chart
