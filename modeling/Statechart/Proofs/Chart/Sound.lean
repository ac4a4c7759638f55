import Mathlib.Tactic
import Statechart.Proofs.Chart.Layout
import Statechart.Proofs.Checks

/-!
# What a chart that has been built satisfies

The states of a built chart are the placed states of its definition, one by one, with initial
children, transitions and invocations resolved. `Sound` collects what the walks along parents and
initial children and the machines rely on; `build_sound` derives it from the checks.
-/
namespace Statechart.Chart

/-- What a state of a chart has in common with its placed state, after its references have been
resolved at its position. -/
structure Resolves (placed : List Placed) (i : Nat) (p : Placed) (s : State) : Prop where
  id : s.id = p.id
  parent : s.parent = p.parent
  depth : s.depth = p.depth
  children : s.children = p.children
  entry : s.entry = p.source.entry
  exit : s.exit = p.source.exit
  initial : resolveInitial placed p = .ok s.initial
  transitions : resolveOn placed i p.id p.source.on = .ok s.transitions
  invoke : ∃ seen, resolveInvoke seen p.id p.source.invoke = .ok s.invoke

/-- The invocation ids of states in order. -/
def invokeIds (states : List State) : List String :=
  states.filterMap fun s => s.invoke.map (·.id)

theorem resolveInvoke_unseen {seen : List String} {id : String} {i : Option InvokeDef}
    {v : Invocation} (h : resolveInvoke seen id i = .ok (some v)) : v.id ∉ seen := by
  cases i with
  | none => simp [resolveInvoke] at h
  | some i =>
      simp only [resolveInvoke] at h
      split at h
      · cases h
      · split at h
        · cases h
        · next hseen =>
            cases h
            simpa using hseen

/-- One state is resolved at a time: the first, and then the others, which may not invoke under an
id that has been seen. -/
theorem resolveAll_cons {placed : List Placed} {seen : List String} {i : Nat} {p : Placed}
    {rest : List Placed} {states : List State}
    (h : resolveAll placed seen i (p :: rest) = .ok states) :
    ∃ s tail seen', states = s :: tail ∧ Resolves placed i p s ∧
      (∀ v, s.invoke = some v → v.id ∉ seen ∧ seen' = v.id :: seen) ∧
      (s.invoke = none → seen' = seen) ∧ resolveAll placed seen' (i + 1) rest = .ok tail := by
  simp only [resolveAll, bind_eq_ok_iff, pure_eq_ok_iff] at h
  obtain ⟨initial, hinitial, transitions, hon, invoke, hinvoke, tail, hrest, rfl⟩ := h
  refine ⟨_, tail, _, rfl, ⟨rfl, rfl, rfl, rfl, rfl, rfl, hinitial, hon, seen, hinvoke⟩, ?_, ?_,
    hrest⟩
  · rintro v rfl
    exact ⟨resolveInvoke_unseen hinvoke, rfl⟩
  · rintro rfl
    rfl

theorem resolveAll_resolves {placed : List Placed} : ∀ {rest : List Placed} {seen : List String}
    {i : Nat} {states : List State}, resolveAll placed seen i rest = .ok states →
      states.length = rest.length ∧
      ∀ (k : Nat) (p : Placed) (s : State), rest[k]? = some p → states[k]? = some s →
        Resolves placed (i + k) p s
  | [], _, _, states, h => by
      cases h
      simp
  | p :: rest, seen, i, states, h => by
      obtain ⟨s, tail, seen', rfl, hs, _, _, htail⟩ := resolveAll_cons h
      obtain ⟨hlength, hall⟩ := resolveAll_resolves htail
      refine ⟨by simp [hlength], fun k q u hq hu => ?_⟩
      cases k with
      | zero =>
          simp only [List.getElem?_cons_zero, Option.some.injEq] at hq hu
          subst hq hu
          exact hs
      | succ k =>
          have hk : i + (k + 1) = i + 1 + k := by omega
          rw [hk]
          exact hall k q u hq hu

theorem resolveAll_invokeIds {placed : List Placed} : ∀ {rest : List Placed} {seen : List String}
    {i : Nat} {states : List State}, resolveAll placed seen i rest = .ok states →
      (invokeIds states).Nodup ∧ ∀ id ∈ invokeIds states, id ∉ seen
  | [], _, _, states, h => by
      cases h
      simp [invokeIds]
  | p :: rest, seen, i, states, h => by
      obtain ⟨s, tail, seen', rfl, _, hsome, hnone, htail⟩ := resolveAll_cons h
      obtain ⟨hnodup, hunseen⟩ := resolveAll_invokeIds htail
      cases hv : s.invoke with
      | none =>
          rw [hnone hv] at hunseen
          have hids : invokeIds (s :: tail) = invokeIds tail := by simp [invokeIds, hv]
          rw [hids]
          exact ⟨hnodup, hunseen⟩
      | some v =>
          obtain ⟨hfresh, rfl⟩ := hsome v hv
          have hids : invokeIds (s :: tail) = v.id :: invokeIds tail := by simp [invokeIds, hv]
          rw [hids]
          refine ⟨List.nodup_cons.mpr ⟨fun hmem => ?_, hnodup⟩, fun id hid => ?_⟩
          · exact hunseen v.id hmem (by simp)
          · rcases List.mem_cons.mp hid with rfl | hid
            · exact hfresh
            · exact fun hmem => hunseen id hid (List.mem_cons_of_mem _ hmem)

theorem checkPlaced_ids {seen : List String} : ∀ {placed : List Placed},
    checkPlaced seen placed = .ok () →
      (placed.map (·.id)).Nodup ∧ ∀ p ∈ placed, p.id ∉ seen := by
  intro placed
  induction placed generalizing seen with
  | nil => simp
  | cons p rest ih =>
      intro h
      simp only [checkPlaced] at h
      split at h
      · cases h
      · split at h
        · cases h
        · next hseen =>
            split at h
            · cases h
            · obtain ⟨hnodup, hunseen⟩ := ih h
              have hp : p.id ∉ seen := by simpa using hseen
              refine ⟨?_, ?_⟩
              · simp only [List.map_cons, List.nodup_cons, List.mem_map, not_exists, not_and]
                exact ⟨fun q hq he => hunseen q hq (by simp [he]), hnodup⟩
              · intro q hq
                rcases List.mem_cons.mp hq with rfl | hq
                · exact hp
                · exact fun hmem => hunseen q hq (List.mem_cons_of_mem _ hmem)

theorem positionOf_lt {placed : List Placed} {id : String} {i : Nat}
    (h : positionOf placed id = some i) : i < placed.length :=
  (List.findIdx?_eq_some_iff_getElem.mp h).1

/-- A leaf has no initial child; a composite state has one of its own children. -/
theorem resolveInitial_ok {placed : List Placed} {p : Placed} {initial : Option Nat}
    (h : resolveInitial placed p = .ok initial) :
    (initial = none ↔ p.children = []) ∧ ∀ i, initial = some i → i ∈ p.children := by
  unfold resolveInitial at h
  split at h
  · next hchildren =>
      cases h
      simp [hchildren]
  · cases h
  · cases h
  · next hne =>
      split at h
      · split at h
        · next hmem =>
            cases h
            refine ⟨⟨by simp, fun hnil => ?_⟩, fun i hi => ?_⟩
            · simp [hnil] at hmem
            · cases hi
              simpa using hmem
        · cases h
      · cases h

theorem resolveTransition_ok {placed : List Placed} {source : Nat} {id event : String}
    {d : TransitionDef} {t : Transition} (h : resolveTransition placed source id event d = .ok t) :
    t.source = source ∧ ∀ target, t.target = some target → target < placed.length := by
  unfold resolveTransition at h
  split at h
  · cases h
    simp
  · split at h
    · next i hi =>
        cases h
        refine ⟨rfl, fun target ht => ?_⟩
        cases ht
        exact positionOf_lt hi
    · cases h

theorem mapM_resolveTransition {placed : List Placed} {source : Nat} {id event : String} :
    ∀ {list : List TransitionDef} {resolved : List Transition},
      list.mapM (resolveTransition placed source id event) = .ok resolved →
      ∀ t ∈ resolved, t.source = source ∧ ∀ target, t.target = some target → target < placed.length
  | [], resolved, h => by
      simp only [List.mapM_nil, pure, Except.pure, Except.ok.injEq] at h
      simp [← h]
  | d :: list, resolved, h => by
      simp only [List.mapM_cons, bind_eq_ok_iff, pure_eq_ok_iff] at h
      obtain ⟨u, hd, us, hl, rfl⟩ := h
      intro t ht
      rcases List.mem_cons.mp ht with rfl | ht
      · exact resolveTransition_ok hd
      · exact mapM_resolveTransition hl t ht

theorem resolveOn_ok {placed : List Placed} {source : Nat} {id : String} :
    ∀ {on : List (String × List TransitionDef)} {table : Keyed (List Transition)},
      resolveOn placed source id on = .ok table →
      ∀ entry ∈ table, ∀ t ∈ entry.2,
        t.source = source ∧ ∀ target, t.target = some target → target < placed.length
  | [], table, h => by
      cases h
      simp
  | (event, list) :: rest, table, h => by
      simp only [resolveOn] at h
      split at h
      · cases h
      simp only [bind_eq_ok_iff, pure_eq_ok_iff] at h
      obtain ⟨resolved, hl, others, hr, rfl⟩ := h
      intro entry hentry
      rcases List.mem_cons.mp hentry with rfl | hentry
      · exact mapM_resolveTransition hl
      · exact resolveOn_ok hr entry hentry

/-- The checks that a definition has passed when a chart has been built from it. -/
theorem build_ok {d : Definition} {c : Chart} (h : build d = .ok c) :
    ∃ context states, d.id.isEmpty = false ∧ defaultContextOf d.context = .ok context ∧
      checkPlaced [] (layout d) = .ok () ∧ resolveAll (layout d) [] 0 (layout d) = .ok states ∧
      c = ⟨d, states.toArray, context, d.checksum⟩ := by
  simp only [build] at h
  split at h
  · cases h
  next hid =>
    simp only [bind_eq_ok_iff, pure_eq_ok_iff] at h
    obtain ⟨context, hcontext, ⟨⟩, hcheck, states, hstates, rfl⟩ := h
    exact ⟨context, states, by simpa using hid, hcontext, hcheck, hstates, rfl⟩

theorem state_of_list {d : Definition} {states : List State} {context : Json} {sum : String}
    (i : Nat) : (Chart.mk d states.toArray context sum).state i = states[i]?.getD default := by
  simp [state]

/-- A built chart has the placed states of its definition, each one resolved. -/
theorem build_resolves {d : Definition} {c : Chart} (h : build d = .ok c) :
    c.size = (layout d).length ∧
      ∀ i p, (layout d)[i]? = some p → Resolves (layout d) i p (c.state i) := by
  obtain ⟨context, states, _, _, _, hstates, rfl⟩ := build_ok h
  obtain ⟨hlength, hall⟩ := resolveAll_resolves hstates
  refine ⟨by simp [size, hlength], fun i p hp => ?_⟩
  have hlt : i < states.length := by
    rw [hlength]
    exact (List.getElem?_eq_some_iff.mp hp).1
  have hs : states[i]? = some states[i] := by simp [hlt]
  simpa [state_of_list, hs] using hall i p states[i] hp hs

theorem state_eq_default {c : Chart} {i : Nat} (h : c.size ≤ i) : c.state i = default := by
  have hnone : c.states[i]? = none := by simpa [size] using h
  simp [state, hnone]

/-- What the walks through a chart and the machines that run it rely on. -/
structure Sound (c : Chart) : Prop where
  root_lt : root < c.size
  root_parent : (c.state root).parent = none
  root_depth : (c.state root).depth = 0
  /-- Every other state has a parent above it, which lists it. -/
  parent : ∀ i, i < c.size → i ≠ root → ∃ p, (c.state i).parent = some p ∧ p < i ∧
    (c.state i).depth = (c.state p).depth + 1 ∧ i ∈ (c.state p).children
  child : ∀ i, ∀ j ∈ (c.state i).children, i < j ∧ j < c.size ∧ (c.state j).parent = some i
  /-- A composite state begins in one of its children, a leaf nowhere. -/
  initial : ∀ i, ((c.state i).initial = none ↔ (c.state i).children = []) ∧
    ∀ j, (c.state i).initial = some j → j ∈ (c.state i).children
  id_injective : ∀ i j, i < c.size → j < c.size → (c.state i).id = (c.state j).id → i = j
  transition : ∀ i, ∀ entry ∈ (c.state i).transitions, ∀ t ∈ entry.2,
    t.source = i ∧ ∀ target, t.target = some target → target < c.size
  /-- No two states invoke under one id. -/
  invoke : ∀ i j v w, (c.state i).invoke = some v → (c.state j).invoke = some w →
    v.id = w.id → i = j

section build_sound
variable {d : Definition} {c : Chart}

/-- A position inside a built chart holds a placed state. -/
theorem exists_placed (h : build d = .ok c) {i : Nat} (hi : i < c.size) :
    ∃ p, (layout d)[i]? = some p ∧ Resolves (layout d) i p (c.state i) := by
  obtain ⟨hsize, hall⟩ := build_resolves h
  have hlt : i < (layout d).length := by omega
  exact ⟨_, List.getElem?_eq_getElem hlt, hall i _ (List.getElem?_eq_getElem hlt)⟩

theorem layout_linked (d : Definition) :
    StateDef.Linked 0 (layout d) fun i _ => i = 0 :=
  StateDef.place_linked d.id none 0 0 d.root

theorem at_zero_iff {l : List Placed} {i : Nat} {p : Placed} :
    StateDef.At 0 l i p ↔ l[i]? = some p := by simp [StateDef.At]

theorem build_parent (h : build d = .ok c) {i : Nat} (hi : i < c.size) (hroot : i ≠ root) :
    ∃ p, (c.state i).parent = some p ∧ p < i ∧ (c.state i).depth = (c.state p).depth + 1 ∧
      i ∈ (c.state p).children := by
  obtain ⟨p, hp, hres⟩ := exists_placed h hi
  rcases (layout_linked d).up i p (at_zero_iff.mpr hp) with
    rfl | ⟨q, r, hparent, hlt, hq, hdepth, hmem⟩
  · exact absurd rfl hroot
  · have hr := (build_resolves h).2 q r (at_zero_iff.mp hq)
    exact ⟨q, by rw [hres.parent, hparent], hlt, by rw [hres.depth, hr.depth, hdepth],
      by rwa [hr.children]⟩

theorem build_child (h : build d = .ok c) {i j : Nat} (hj : j ∈ (c.state i).children) :
    i < j ∧ j < c.size ∧ (c.state j).parent = some i := by
  by_cases hi : i < c.size
  · obtain ⟨p, hp, hres⟩ := exists_placed h hi
    rw [hres.children] at hj
    obtain ⟨hlt, r, hr, hparent⟩ := (layout_linked d).down i p (at_zero_iff.mpr hp) j hj
    have hr' := (build_resolves h).2 j r (at_zero_iff.mp hr)
    refine ⟨hlt, ?_, by rw [hr'.parent, hparent]⟩
    rw [(build_resolves h).1]
    exact (List.getElem?_eq_some_iff.mp (at_zero_iff.mp hr)).1
  · rw [state_eq_default (not_lt.mp hi)] at hj
    exact absurd hj List.not_mem_nil

theorem build_id_injective (h : build d = .ok c) {i j : Nat} (hi : i < c.size) (hj : j < c.size)
    (he : (c.state i).id = (c.state j).id) : i = j := by
  obtain ⟨p, hp, hresp⟩ := exists_placed h hi
  obtain ⟨q, hq, hresq⟩ := exists_placed h hj
  obtain ⟨_, _, _, _, hcheck, _, _⟩ := build_ok h
  have hnodup := (checkPlaced_ids hcheck).1
  have hlti : i < ((layout d).map (·.id)).length := by
    simpa using (List.getElem?_eq_some_iff.mp hp).1
  apply (List.getElem?_inj hlti hnodup).mp
  rw [List.getElem?_map, List.getElem?_map, hp, hq]
  simpa [← hresp.id, ← hresq.id] using he

/-- A state of a list that invokes is there. -/
theorem invoke_of_list {states : List State} {i : Nat} {v : Invocation}
    (h : (states[i]?.getD default).invoke = some v) :
    ∃ hi : i < states.length, (states[i].invoke.map (·.id)) = some v.id := by
  by_cases hi : i < states.length
  · simp only [List.getElem?_eq_getElem hi, Option.getD_some] at h
    exact ⟨hi, by simp [h]⟩
  · simp only [List.getElem?_eq_none (not_lt.mp hi), Option.getD_none] at h
    cases h

theorem build_invoke_ne (h : build d = .ok c) {i j : Nat} {v w : Invocation} (hlt : i < j)
    (hv : (c.state i).invoke = some v) (hw : (c.state j).invoke = some w) : v.id ≠ w.id := by
  obtain ⟨_, states, _, _, _, hstates, rfl⟩ := build_ok h
  rw [state_of_list] at hv hw
  obtain ⟨hi, hv⟩ := invoke_of_list hv
  obtain ⟨hj, hw⟩ := invoke_of_list hw
  have hapart := List.pairwise_filterMap.mp (resolveAll_invokeIds hstates).1
  exact List.pairwise_iff_getElem.mp hapart i j hi hj hlt _ hv _ hw

theorem build_invoke (h : build d = .ok c) {i j : Nat} {v w : Invocation}
    (hv : (c.state i).invoke = some v) (hw : (c.state j).invoke = some w) (he : v.id = w.id) :
    i = j := by
  by_contra hne
  rcases Nat.lt_or_gt_of_ne hne with hlt | hlt
  · exact build_invoke_ne h hlt hv hw he
  · exact build_invoke_ne h hlt hw hv he.symm

end build_sound

theorem build_sound {d : Definition} {c : Chart} (h : build d = .ok c) : c.Sound := by
  obtain ⟨hsize, hall⟩ := build_resolves h
  obtain ⟨p, hat, _, hparent, hdepth⟩ := StateDef.place_head d.id none 0 0 d.root
  have hroot : (layout d)[root]? = some p := at_zero_iff.mp hat
  have hres := hall root p hroot
  refine ⟨?_, by rw [hres.parent, hparent], by rw [hres.depth, hdepth],
    fun i hi hne => build_parent h hi hne, fun i j hj => build_child h hj, fun i => ?_,
    fun i j hi hj he => build_id_injective h hi hj he, fun i entry hentry => ?_,
    fun i j v w hv hw he => build_invoke h hv hw he⟩
  · rw [hsize]
    exact (List.getElem?_eq_some_iff.mp hroot).1
  · by_cases hi : i < c.size
    · obtain ⟨q, _, hq⟩ := exists_placed h hi
      rw [hq.children]
      exact resolveInitial_ok hq.initial
    · rw [state_eq_default (not_lt.mp hi)]
      exact ⟨⟨fun _ => rfl, fun _ => rfl⟩, fun j hj => by cases hj⟩
  · by_cases hi : i < c.size
    · obtain ⟨q, _, hq⟩ := exists_placed h hi
      rw [hsize]
      exact resolveOn_ok hq.transitions entry hentry
    · rw [state_eq_default (not_lt.mp hi)] at hentry
      exact absurd hentry List.not_mem_nil

end Statechart.Chart
