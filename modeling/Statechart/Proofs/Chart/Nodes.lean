import Statechart.Proofs.Keyed
import Statechart.Proofs.Chart.Sound

/-!
# The states of a definition

The states of a definition in the order of a depth-first walk through its tree. The layout of a
definition holds them in that order, and the children that it lists for a state are those of the
tree, from the place after the state on. Definitions that are built step by step have their tables
in order.
-/
namespace Statechart

namespace StateDef

mutual

/-- The states of a tree with their ids, each one before those that it contains. -/
def nodes (id : String) : StateDef → List (String × StateDef)
  | { initial, entry, exit, on, invoke, states, unknown } =>
    (id, { initial, entry, exit, on, invoke, states, unknown }) :: tableNodes states

def tableNodes : List (String × StateDef) → List (String × StateDef)
  | [] => []
  | (id, state) :: rest => nodes id state ++ tableNodes rest

end

theorem nodes_eq (id : String) (s : StateDef) : s.nodes id = (id, s) :: tableNodes s.states := by
  cases s
  rfl

theorem mem_tableNodes {t : List (String × StateDef)} {n : String × StateDef} :
    n ∈ tableNodes t ↔ ∃ entry ∈ t, n ∈ entry.2.nodes entry.1 := by
  induction t with
  | nil => simp [tableNodes]
  | cons entry rest ih => simp [tableNodes, ih]

mutual

theorem place_nodes (id : String) (parent : Option Nat) (depth position : Nat) : ∀ s : StateDef,
    (place id parent depth position s).map (fun p => (p.id, p.source)) = s.nodes id
  | { states, .. } => by
      simp only [place, nodes, List.map_cons,
        placeTable_nodes position (depth + 1) (position + 1) states]

theorem placeTable_nodes (parent depth position : Nat) : ∀ t : List (String × StateDef),
    (placeTable parent depth position t).map (fun p => (p.id, p.source)) = tableNodes t
  | [] => rfl
  | (id, state) :: rest => by
      simp only [placeTable, tableNodes, List.map_append,
        place_nodes id (some parent) depth position state,
        placeTable_nodes parent depth (position + state.size) rest]

end

theorem size_pos (s : StateDef) : 0 < s.size := by
  cases s
  simp only [size]
  omega

theorem le_of_mem_childPositions {t : List (String × StateDef)} {first j : Nat}
    (h : j ∈ childPositions first t) : first ≤ j := by
  induction t generalizing first with
  | nil => simp [childPositions] at h
  | cons entry rest ih =>
      simp only [childPositions, List.mem_cons] at h
      rcases h with rfl | h
      · exact le_rfl
      · have hle := ih h
        omega

theorem childPositions_increasing (t : List (String × StateDef)) (first : Nat) :
    (childPositions first t).Pairwise (· < ·) := by
  induction t generalizing first with
  | nil => simp [childPositions]
  | cons entry rest ih =>
      simp only [childPositions]
      refine List.pairwise_cons.mpr ⟨fun j hj => ?_, ih _⟩
      have hle := le_of_mem_childPositions hj
      have hpos := entry.2.size_pos
      omega

/-- The positions of a list hold states with the ids of a table, one by one. -/
def Listed (first : Nat) (l : List Placed) (positions : List Nat)
    (t : List (String × StateDef)) : Prop :=
  List.Forall₂ (fun j entry => ∃ r, At first l j r ∧ r.id = entry.1) positions t

section Listed
variable {first first' : Nat} {l l' : List Placed} {positions : List Nat}
  {t : List (String × StateDef)}

theorem Listed.mono (h : Listed first l positions t)
    (hl : ∀ j r, At first l j r → At first' l' j r) : Listed first' l' positions t :=
  h.imp fun _ _ ⟨r, hat, hid⟩ => ⟨r, hl _ r hat, hid⟩

theorem Listed.mem_left {j : Nat} (h : Listed first l positions t) (hj : j ∈ positions) :
    ∃ entry ∈ t, ∃ r, At first l j r ∧ r.id = entry.1 :=
  exists_of_mem_forall₂ h.flip j hj

theorem Listed.mem_right {entry : String × StateDef} (h : Listed first l positions t)
    (hentry : entry ∈ t) : ∃ j ∈ positions, ∃ r, At first l j r ∧ r.id = entry.1 :=
  exists_of_mem_forall₂ h entry hentry

end Listed

theorem placeTable_listed (parent depth : Nat) : ∀ (t : List (String × StateDef)) (position : Nat),
    Listed position (placeTable parent depth position t) (childPositions position t) t
  | [], _ => .nil
  | (id, state) :: rest, position => by
      have hrest := placeTable_listed parent depth rest (position + state.size)
      simp only [childPositions, placeTable]
      refine .cons ?_ (hrest.mono fun j r hat => at_append.mpr (.inr ?_))
      · obtain ⟨p, hat, hid, _⟩ := place_head id (some parent) depth position state
        exact ⟨p, at_append.mpr (.inl hat), hid⟩
      · rwa [length_place]

/-- What a placed state lists: the children of its source, in order, from the next place on. -/
structure Lists (first : Nat) (l : List Placed) (i : Nat) (p : Placed) : Prop where
  positions : p.children = childPositions (i + 1) p.source.states
  ids : Listed first l p.children p.source.states

mutual

theorem place_lists (id : String) (parent : Option Nat) (depth position : Nat) :
    ∀ (s : StateDef) (i : Nat) (p : Placed), At position (place id parent depth position s) i p →
      Lists position (place id parent depth position s) i p
  | { initial, entry, exit, on, invoke, states, unknown }, i, p, hat => by
      simp only [place] at hat ⊢
      rcases at_cons.mp hat with ⟨rfl, rfl⟩ | hat
      · have htable := placeTable_listed i (depth + 1) states (i + 1)
        exact ⟨rfl, htable.mono fun j r h => at_cons.mpr (.inr h)⟩
      · obtain ⟨hpositions, hids⟩ :=
          placeTable_lists position (depth + 1) (position + 1) states i p hat
        exact ⟨hpositions, hids.mono fun j r h => at_cons.mpr (.inr h)⟩

theorem placeTable_lists (parent depth position : Nat) :
    ∀ (t : List (String × StateDef)) (i : Nat) (p : Placed),
      At position (placeTable parent depth position t) i p →
      Lists position (placeTable parent depth position t) i p
  | [], i, p, hat => by simp [placeTable, At] at hat
  | (id, state) :: rest, i, p, hat => by
      simp only [placeTable] at hat ⊢
      rw [at_append, length_place] at hat
      rcases hat with hat | hat
      · obtain ⟨hpositions, hids⟩ := place_lists id (some parent) depth position state i p hat
        exact ⟨hpositions, hids.mono fun j r h => at_append.mpr (.inl h)⟩
      · obtain ⟨hpositions, hids⟩ :=
          placeTable_lists parent depth (position + state.size) rest i p hat
        exact ⟨hpositions, hids.mono fun j r h =>
          at_append.mpr (.inr (by rwa [length_place]))⟩

end

/-- All tables of a tree are sorted by key. -/
structure Ordered (s : StateDef) : Prop where
  on : Keyed.Sorted s.on
  states : Keyed.Sorted s.states
  below : ∀ n ∈ tableNodes s.states, Keyed.Sorted n.2.on ∧ Keyed.Sorted n.2.states

instance (s : StateDef) : Decidable s.Ordered :=
  decidable_of_iff (Keyed.Sorted s.on ∧ Keyed.Sorted s.states ∧
      ∀ n ∈ tableNodes s.states, Keyed.Sorted n.2.on ∧ Keyed.Sorted n.2.states)
    ⟨fun ⟨hon, hstates, hbelow⟩ => ⟨hon, hstates, hbelow⟩,
      fun h => ⟨h.on, h.states, h.below⟩⟩

example : ¬Ordered { on := [("stop", []), ("go", [])] } := by decide

section Ordered
variable {s child : StateDef}

theorem Ordered.nodes (h : s.Ordered) (id : String) :
    ∀ n ∈ s.nodes id, Keyed.Sorted n.2.on ∧ Keyed.Sorted n.2.states := by
  rw [nodes_eq, List.forall_mem_cons]
  exact ⟨⟨h.on, h.states⟩, h.below⟩

theorem ordered_iff : s.Ordered ↔ Keyed.Sorted s.on ∧ Keyed.Sorted s.states ∧
    ∀ entry ∈ s.states, entry.2.Ordered := by
  constructor
  · rintro ⟨hon, hstates, hbelow⟩
    refine ⟨hon, hstates, fun entry hentry => ?_⟩
    have hnodes : ∀ n ∈ entry.2.nodes entry.1, Keyed.Sorted n.2.on ∧ Keyed.Sorted n.2.states :=
      fun n hn => hbelow n (mem_tableNodes.mpr ⟨entry, hentry, hn⟩)
    rw [nodes_eq, List.forall_mem_cons] at hnodes
    exact ⟨hnodes.1.1, hnodes.1.2, hnodes.2⟩
  · rintro ⟨hon, hstates, hall⟩
    refine ⟨hon, hstates, fun n hn => ?_⟩
    obtain ⟨entry, hentry, hn⟩ := mem_tableNodes.mp hn
    exact (hall entry hentry).nodes entry.1 n hn

/-- A state to which no transition and no child has been added. -/
theorem Ordered.bare (hon : s.on = []) (hstates : s.states = []) : s.Ordered :=
  ordered_iff.mpr ⟨hon ▸ .nil, hstates ▸ .nil, by simp [hstates]⟩

theorem Ordered.withTransition (h : s.Ordered) (event : String) (t : TransitionDef) :
    (s.withTransition event t).Ordered :=
  ⟨h.on.insert, h.states, h.below⟩

theorem Ordered.withChild (h : s.Ordered) (id : String) (hchild : child.Ordered) :
    (s.withChild id child).Ordered := by
  obtain ⟨hon, hstates, hall⟩ := ordered_iff.mp h
  refine ordered_iff.mpr ⟨hon, hstates.insert, fun entry hentry => ?_⟩
  rcases Keyed.mem_insert hentry with rfl | hentry
  · exact hchild
  · exact hall entry hentry

end Ordered

end StateDef

/-- The states of a definition with their ids, the root first. -/
def Definition.nodes (d : Definition) : List (String × StateDef) := d.root.nodes d.id

namespace Chart

/-- The layout of a definition holds its states in order. -/
theorem layout_nodes (d : Definition) :
    (layout d).map (fun p => (p.id, p.source)) = d.nodes :=
  StateDef.place_nodes d.id none 0 0 d.root

theorem layout_lists {d : Definition} {i : Nat} {p : Placed} (h : (layout d)[i]? = some p) :
    StateDef.Lists 0 (layout d) i p :=
  StateDef.place_lists d.id none 0 0 d.root i p (at_zero_iff.mpr h)

theorem mem_nodes {d : Definition} {n : String × StateDef} :
    n ∈ d.nodes ↔ ∃ p ∈ layout d, p.id = n.1 ∧ p.source = n.2 := by
  rw [← layout_nodes, List.mem_map]
  simp only [Prod.ext_iff]

/-- Among states with different ids, an id stands at the position of its state. -/
theorem positionOf_iff {placed : List Placed} (hids : (placed.map (·.id)).Nodup) {id : String}
    {i : Nat} : positionOf placed id = some i ↔ ∃ p, placed[i]? = some p ∧ p.id = id := by
  unfold positionOf
  rw [List.findIdx?_eq_some_iff_getElem]
  constructor
  · rintro ⟨hi, hid, _⟩
    exact ⟨placed[i], List.getElem?_eq_getElem hi, by simpa using hid⟩
  · rintro ⟨p, hp, hid⟩
    obtain ⟨hi, rfl⟩ := List.getElem?_eq_some_iff.mp hp
    refine ⟨hi, by simpa using hid, fun j hj => ?_⟩
    have hlt : j < placed.length := hj.trans hi
    have hne : placed[j].id ≠ placed[i].id := by
      intro heq
      have hsame : (placed.map (·.id))[j]? = (placed.map (·.id))[i]? := by
        simp [hlt, hi, heq]
      exact hj.ne ((List.getElem?_inj (by simpa using hlt) hids).mp hsame)
    simpa [hid] using hne

end Chart

end Statechart
