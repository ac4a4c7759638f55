import Mathlib.Data.List.Basic
import Statechart.Chart.Build

/-!
# The layout of a tree

A tree is laid out depth first, so that every state stands below its parent in the list. The links
agree in both directions: a child is listed by its parent, and what is listed as a child names the
lister as its parent. Positions count from the place of the first state in the whole arena.
-/
namespace Statechart.StateDef

/-- The state at a position of a list that begins at a position. -/
def At (first : Nat) (l : List Placed) (i : Nat) (p : Placed) : Prop :=
  first ≤ i ∧ l[i - first]? = some p

section At
variable {first i : Nat} {p : Placed} {l l₁ l₂ : List Placed}

theorem at_append : At first (l₁ ++ l₂) i p ↔ At first l₁ i p ∨ At (first + l₁.length) l₂ i p := by
  unfold At
  rw [List.getElem?_append]
  by_cases h : i - first < l₁.length
  · have hnot : ¬ first + l₁.length ≤ i := by omega
    simp [h, hnot]
  · have hnone : l₁[i - first]? = none := by simp only [List.getElem?_eq_none_iff]; omega
    simp only [if_neg h, hnone, reduceCtorEq, and_false, false_or, Nat.sub_sub]
    constructor
    · rintro ⟨hle, hget⟩
      exact ⟨by omega, hget⟩
    · rintro ⟨hle, hget⟩
      exact ⟨by omega, hget⟩

theorem at_cons {a : Placed} :
    At first (a :: l) i p ↔ (i = first ∧ p = a) ∨ At (first + 1) l i p := by
  have h : At first ([a] ++ l) i p ↔ At first [a] i p ∨ At (first + 1) l i p := at_append
  rw [List.singleton_append] at h
  rw [h]
  apply or_congr_left
  unfold At
  constructor
  · rintro ⟨hle, hget⟩
    have hlt : i - first < 1 := (List.getElem?_eq_some_iff.mp hget).1
    have hi : i = first := by omega
    subst hi
    simp only [Nat.sub_self, List.getElem?_cons_zero, Option.some.injEq] at hget
    exact ⟨rfl, hget.symm⟩
  · rintro ⟨rfl, rfl⟩
    simp

theorem At.first_le (h : At first l i p) : first ≤ i := h.1

end At

/-- The links of a list of states: apart from the states that hang from outside, each one has its
parent in the list, above it and listing it; and every child that is listed stands below. -/
structure Linked (first : Nat) (l : List Placed) (hangs : Nat → Placed → Prop) : Prop where
  up : ∀ i p, At first l i p → hangs i p ∨ ∃ q r, p.parent = some q ∧ q < i ∧ At first l q r ∧
    p.depth = r.depth + 1 ∧ i ∈ r.children
  down : ∀ i p, At first l i p → ∀ j ∈ p.children, i < j ∧ ∃ r, At first l j r ∧ r.parent = some i

mutual

theorem length_place (id : String) (parent : Option Nat) (depth position : Nat) :
    ∀ s : StateDef, (place id parent depth position s).length = s.size
  | { states, .. } => by
      simp only [place, size, List.length_cons,
        length_placeTable position (depth + 1) (position + 1) states]
      omega

theorem length_placeTable (parent depth position : Nat) :
    ∀ t : List (String × StateDef), (placeTable parent depth position t).length = tableSize t
  | [] => rfl
  | (id, state) :: rest => by
      simp only [placeTable, tableSize, List.length_append,
        length_place id (some parent) depth position state,
        length_placeTable parent depth (position + state.size) rest]

end

theorem place_head (id : String) (parent : Option Nat) (depth position : Nat) (s : StateDef) :
    ∃ p, At position (place id parent depth position s) position p ∧ p.id = id ∧
      p.parent = parent ∧ p.depth = depth := by
  cases s
  simp only [place]
  exact ⟨_, at_cons.mpr (.inl ⟨rfl, rfl⟩), rfl, rfl, rfl⟩

/-- Every position that a table's parent lists holds a state that names this parent. -/
theorem placeTable_children (parent depth : Nat) : ∀ {t : List (String × StateDef)} {position j},
    j ∈ childPositions position t →
      ∃ r, At position (placeTable parent depth position t) j r ∧ r.parent = some parent
  | [], _, _, h => by simp [childPositions] at h
  | (id, state) :: rest, position, j, h => by
      simp only [placeTable, at_append, length_place]
      rcases List.mem_cons.mp h with rfl | h
      · obtain ⟨p, hat, _, hparent, _⟩ := place_head id (some parent) depth j state
        exact ⟨p, .inl hat, hparent⟩
      · obtain ⟨r, hat, hparent⟩ := placeTable_children parent depth h
        exact ⟨r, .inr hat, hparent⟩

mutual

theorem place_linked (id : String) (parent : Option Nat) (depth position : Nat) :
    ∀ s : StateDef, Linked position (place id parent depth position s) fun i _ => i = position
  | { initial, entry, exit, on, invoke, states, unknown } => by
      have below := placeTable_linked position (depth + 1) (position + 1) states
      simp only [place]
      constructor
      · intro i p hat
        rcases at_cons.mp hat with ⟨rfl, _⟩ | hat
        · exact .inl rfl
        · right
          -- a state that hangs from the table has the root of this tree as its parent
          rcases below.up i p hat with
            ⟨hparent, hdepth, hmem⟩ | ⟨q, r, hparent, hlt, hq, hdepth, hmem⟩
          · exact ⟨position, _, hparent, by have := hat.first_le; omega,
              at_cons.mpr (.inl ⟨rfl, rfl⟩), hdepth, hmem⟩
          · exact ⟨q, r, hparent, hlt, at_cons.mpr (.inr hq), hdepth, hmem⟩
      · intro i p hat j hj
        rcases at_cons.mp hat with ⟨rfl, rfl⟩ | hat
        · obtain ⟨r, hr, hparent⟩ := placeTable_children i (depth + 1) hj
          exact ⟨by have := hr.first_le; omega, r, at_cons.mpr (.inr hr), hparent⟩
        · obtain ⟨hlt, r, hr, hparent⟩ := below.down i p hat j hj
          exact ⟨hlt, r, at_cons.mpr (.inr hr), hparent⟩

theorem placeTable_linked (parent depth position : Nat) :
    ∀ t : List (String × StateDef), Linked position (placeTable parent depth position t)
      fun i p => p.parent = some parent ∧ p.depth = depth ∧ i ∈ childPositions position t
  | [] => by constructor <;> simp [placeTable, At]
  | (id, state) :: rest => by
      have first := place_linked id (some parent) depth position state
      have later := placeTable_linked parent depth (position + state.size) rest
      simp only [placeTable]
      constructor
      · intro i p hat
        rw [at_append, length_place] at hat
        rcases hat with hat | hat
        · rcases first.up i p hat with rfl | ⟨q, r, hparent, hlt, hq, hdepth, hmem⟩
          · obtain ⟨p', hat', _, hparent, hdepth⟩ := place_head id (some parent) depth i state
            have he : p = p' := Option.some.inj (hat.2.symm.trans hat'.2)
            subst he
            exact .inl ⟨hparent, hdepth, by simp [childPositions]⟩
          · exact .inr ⟨q, r, hparent, hlt, at_append.mpr (.inl hq), hdepth, hmem⟩
        · rcases later.up i p hat with
            ⟨hparent, hdepth, hmem⟩ | ⟨q, r, hparent, hlt, hq, hdepth, hmem⟩
          · exact .inl ⟨hparent, hdepth, List.mem_cons_of_mem _ hmem⟩
          · refine .inr ⟨q, r, hparent, hlt, at_append.mpr (.inr ?_), hdepth, hmem⟩
            rwa [length_place]
      · intro i p hat j hj
        rw [at_append, length_place] at hat
        rcases hat with hat | hat
        · obtain ⟨hlt, r, hr, hparent⟩ := first.down i p hat j hj
          exact ⟨hlt, r, at_append.mpr (.inl hr), hparent⟩
        · obtain ⟨hlt, r, hr, hparent⟩ := later.down i p hat j hj
          exact ⟨hlt, r, at_append.mpr (.inr (by rwa [length_place])), hparent⟩

end

end Statechart.StateDef
