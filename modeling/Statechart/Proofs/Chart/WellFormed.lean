import Statechart.Chart.Reader
import Statechart.Proofs.Chart.Nodes

/-!
# Well-formed definitions

A chart is built from a definition exactly when the definition is well-formed. The conditions are
those of a tree; the building checks them in two passes over the layout, the first of which sees to
it that an id stands at one position, so that the second can look ids up there.
-/
namespace Statechart

/-- What a definition has to satisfy for a chart to be built from it. -/
structure Definition.WellFormed (d : Definition) : Prop where
  id : d.id ≠ ""
  context : d.context = none ∨ d.context = some .null ∨ ∃ members, d.context = some (.obj members)
  ids : ∀ n ∈ d.nodes, n.1 ≠ ""
  distinct : (d.nodes.map (·.1)).Nodup
  known : ∀ n ∈ d.nodes, n.2.unknown = []
  /-- A state with children begins in one of its own. -/
  composite : ∀ n ∈ d.nodes, n.2.states ≠ [] →
    ∃ initial ∈ n.2.states.map (·.1), n.2.initial = some initial
  leaf : ∀ n ∈ d.nodes, n.2.states = [] → n.2.initial = none
  events : ∀ n ∈ d.nodes, ∀ entry ∈ n.2.on, entry.1 ≠ ""
  targets : ∀ n ∈ d.nodes, ∀ entry ∈ n.2.on, ∀ t ∈ entry.2, ∀ target, t.target = some target →
    target ∈ d.nodes.map (·.1)
  sources : ∀ n ∈ d.nodes, ∀ v, n.2.invoke = some v → v.src ≠ ""
  /-- An invocation without an id has that of its state. -/
  invocations : (d.nodes.filterMap fun n => n.2.invoke.map fun v => v.id.getD n.1).Nodup

namespace Chart

theorem defaultContextOf_passes_iff {context : Option Json} :
    (∃ value, defaultContextOf context = .ok value) ↔
      context = none ∨ context = some .null ∨ ∃ members, context = some (.obj members) := by
  cases context with
  | none => simp [defaultContextOf]
  | some value => cases value <;> simp [defaultContextOf]

/-- The first pass: no state lacks an id, has an id that came before or an unknown member. -/
theorem checkPlaced_passes_iff : ∀ {placed : List Placed} {seen : List String},
    checkPlaced seen placed = .ok () ↔
      (∀ p ∈ placed, p.id ≠ "" ∧ p.source.unknown = [] ∧ p.id ∉ seen) ∧
        (placed.map (·.id)).Nodup
  | [], seen => by simp [checkPlaced]
  | p :: rest, seen => by
      simp only [checkPlaced, List.forall_mem_cons, List.map_cons, List.nodup_cons]
      by_cases hid : p.id = ""
      · simp [hid]
      by_cases hseen : p.id ∈ seen
      · simp [hid, hseen]
      cases hunknown : p.source.unknown with
      | cons entry more => simp [hid, hseen]
      | nil =>
          have hfirst : checkPlaced (p.id :: seen) rest = .ok () ↔
              (∀ q ∈ rest, q.id ≠ "" ∧ q.source.unknown = [] ∧ q.id ∉ seen) ∧
                p.id ∉ rest.map (·.id) ∧ (rest.map (·.id)).Nodup := by
            rw [checkPlaced_passes_iff]
            simp only [List.mem_cons, not_or, List.mem_map, not_exists, not_and]
            constructor
            · rintro ⟨hall, hnodup⟩
              exact ⟨fun q hq => ⟨(hall q hq).1, (hall q hq).2.1, (hall q hq).2.2.2⟩,
                fun q hq => (hall q hq).2.2.1, hnodup⟩
            · rintro ⟨hall, hnew, hnodup⟩
              exact ⟨fun q hq => ⟨(hall q hq).1, (hall q hq).2.1, hnew q hq, (hall q hq).2.2⟩,
                hnodup⟩
          simpa [hid, hseen] using hfirst

theorem resolveInitial_passes_iff {placed : List Placed} {p : Placed} :
    (∃ initial, resolveInitial placed p = .ok initial) ↔
      (p.source.initial = none ∧ p.children = []) ∨
        ∃ id, p.source.initial = some id ∧ ∃ i ∈ p.children, positionOf placed id = some i := by
  unfold resolveInitial
  cases p.source.initial with
  | none => cases p.children <;> simp
  | some id =>
      cases hchildren : p.children with
      | nil => simp
      | cons first rest =>
          simp only [Option.some.injEq, exists_eq_left', reduceCtorEq, false_and, false_or]
          cases positionOf placed id with
          | none => simp
          | some i => by_cases hi : i ∈ first :: rest <;> simp_all [eq_comm]

theorem resolveTransition_passes_iff {placed : List Placed} {source : Nat} {id event : String}
    {t : TransitionDef} : (∃ u, resolveTransition placed source id event t = .ok u) ↔
      ∀ target, t.target = some target → ∃ i, positionOf placed target = some i := by
  unfold resolveTransition
  cases t.target with
  | none => simp
  | some target => cases hpos : positionOf placed target <;> simp [hpos]

theorem resolveOn_passes_iff {placed : List Placed} {source : Nat} {id : String} :
    ∀ {on : List (String × List TransitionDef)},
      (∃ table, resolveOn placed source id on = .ok table) ↔
        ∀ entry ∈ on, entry.1 ≠ "" ∧ ∀ t ∈ entry.2, ∀ target, t.target = some target →
          ∃ i, positionOf placed target = some i
  | [] => by simp [resolveOn]
  | (event, list) :: rest => by
      simp only [resolveOn, List.forall_mem_cons]
      by_cases hevent : event = ""
      · simp [hevent, throw, throwThe, MonadExceptOf.throw, bind, Except.bind]
      · simp only [String.isEmpty_iff, hevent, if_false, exists_bind_eq_ok_iff,
          pure_eq_ok_iff, exists_eq', and_true, ne_eq, not_false_eq_true, true_and]
        have hlist : (∃ resolved, list.mapM (resolveTransition placed source id event) =
            .ok resolved) ↔ ∀ t ∈ list, ∀ target, t.target = some target →
              ∃ i, positionOf placed target = some i := by
          simp only [exists_mapM_eq_ok_iff, resolveTransition_passes_iff]
        rw [← hlist, ← resolveOn_passes_iff]
        constructor
        · rintro ⟨resolved, hresolved, table, htable⟩
          exact ⟨⟨resolved, hresolved⟩, table, htable⟩
        · rintro ⟨⟨resolved, hresolved⟩, table, htable⟩
          exact ⟨resolved, hresolved, table, htable⟩

/-- The id of the invocation of a placed state. -/
def invokeId? (p : Placed) : Option String := p.source.invoke.map fun v => v.id.getD p.id

/-- The invocation of a definition in the state with an id. -/
def invocationOf (id : String) (v : InvokeDef) : Invocation := ⟨v.id.getD id, v.src, v.input⟩

theorem resolveInvoke_ok_iff {seen : List String} {id : String} {i : Option InvokeDef}
    {r : Option Invocation} : resolveInvoke seen id i = .ok r ↔
      (∀ v, i = some v → v.src ≠ "" ∧ v.id.getD id ∉ seen) ∧ i.map (invocationOf id) = r := by
  cases i with
  | none => simp [resolveInvoke]
  | some v =>
      simp only [resolveInvoke, String.isEmpty_iff, List.contains_eq_mem, decide_eq_true_eq]
      by_cases hsrc : v.src = ""
      · simp [hsrc]
      by_cases hseen : v.id.getD id ∈ seen
      · simp [hsrc, hseen]
      · simp [hsrc, hseen, invocationOf]

/-- What the second pass asks of one state. -/
structure Resolvable (placed : List Placed) (p : Placed) : Prop where
  initial : ∃ initial, resolveInitial placed p = .ok initial
  on : ∀ entry ∈ p.source.on, entry.1 ≠ "" ∧ ∀ t ∈ entry.2, ∀ target, t.target = some target →
    ∃ i, positionOf placed target = some i
  source : ∀ v, p.source.invoke = some v → v.src ≠ ""

theorem resolveAll_cons_passes_iff {placed : List Placed} {p : Placed} {rest : List Placed}
    {seen : List String} {i : Nat} :
    (∃ states, resolveAll placed seen i (p :: rest) = .ok states) ↔
      Resolvable placed p ∧ (∀ id ∈ invokeId? p, id ∉ seen) ∧
        ∃ states, resolveAll placed ((invokeId? p).toList ++ seen) (i + 1) rest = .ok states := by
  simp only [resolveAll, exists_bind_eq_ok_iff, pure_eq_ok_iff, exists_eq', and_true,
    resolveInvoke_ok_iff]
  constructor
  · rintro ⟨initial, hinitial, table, htable, _, ⟨hinvoke, rfl⟩, hrest⟩
    refine ⟨⟨⟨initial, hinitial⟩, resolveOn_passes_iff.mp ⟨table, htable⟩,
      fun v hv => (hinvoke v hv).1⟩, fun id hid => ?_, ?_⟩
    · obtain ⟨v, hv, rfl⟩ := Option.map_eq_some_iff.mp hid
      exact (hinvoke v hv).2
    · cases h : p.source.invoke <;> simpa [invokeId?, invocationOf, h] using hrest
  · rintro ⟨⟨⟨initial, hinitial⟩, hon, hsource⟩, hunseen, hrest⟩
    obtain ⟨table, htable⟩ := resolveOn_passes_iff.mpr hon
    refine ⟨initial, hinitial, table, htable, _, ⟨fun v hv => ⟨hsource v hv, ?_⟩, rfl⟩, ?_⟩
    · exact hunseen _ (by simp [invokeId?, hv])
    · cases h : p.source.invoke <;> simpa [invokeId?, invocationOf, h] using hrest

/-- The second pass: every state can be resolved, and no id invokes twice. -/
theorem resolveAll_passes_iff {placed : List Placed} : ∀ {rest : List Placed} {seen : List String}
    {i : Nat}, (∃ states, resolveAll placed seen i rest = .ok states) ↔
      (∀ p ∈ rest, Resolvable placed p) ∧ (rest.filterMap invokeId?).Nodup ∧
        ∀ id ∈ rest.filterMap invokeId?, id ∉ seen
  | [], seen, i => by simp [resolveAll]
  | p :: rest, seen, i => by
      rw [resolveAll_cons_passes_iff, resolveAll_passes_iff, List.forall_mem_cons, and_assoc]
      refine and_congr_right fun _ => ?_
      cases hid : invokeId? p with
      | none =>
          simp only [List.filterMap_cons, hid, Option.toList_none, List.nil_append]
          simp
      | some id =>
          simp only [List.filterMap_cons, hid, Option.toList_some, List.singleton_append,
            List.nodup_cons, List.forall_mem_cons, Option.mem_some_iff, forall_eq']
          constructor
          · rintro ⟨hunseen, hall, hnodup, hrest⟩
            simp only [List.mem_cons, not_or] at hrest
            exact ⟨hall, ⟨fun hmem => (hrest id hmem).1 rfl, hnodup⟩, hunseen,
              fun k hk => (hrest k hk).2⟩
          · rintro ⟨hall, ⟨hnew, hnodup⟩, hunseen, hrest⟩
            refine ⟨hunseen, hall, hnodup, fun k hk => ?_⟩
            simp only [List.mem_cons, not_or]
            exact ⟨fun heq => hnew (heq ▸ hk), hrest k hk⟩

section layout
variable {d : Definition}

/-- A child of a state stands at one of the positions that the layout lists for it. -/
theorem exists_child_iff (hids : (d.nodes.map (·.1)).Nodup) {i : Nat} {p : Placed}
    (hp : (layout d)[i]? = some p) {id : String} :
    (∃ j ∈ p.children, positionOf (layout d) id = some j) ↔
      id ∈ p.source.states.map (·.1) := by
  have hplaced : ((layout d).map (·.id)).Nodup := by
    rw [← layout_nodes, List.map_map] at hids
    exact hids
  have hlisted := (layout_lists hp).ids
  constructor
  · rintro ⟨j, hj, hpos⟩
    obtain ⟨entry, hentry, r, hat, hid⟩ := hlisted.mem_left hj
    obtain ⟨q, hq, rfl⟩ := (positionOf_iff hplaced).mp hpos
    obtain rfl : r = q := Option.some.inj ((at_zero_iff.mp hat).symm.trans hq)
    exact List.mem_map.mpr ⟨entry, hentry, hid.symm⟩
  · intro hmem
    obtain ⟨entry, hentry, rfl⟩ := List.mem_map.mp hmem
    obtain ⟨j, hj, r, hat, hid⟩ := hlisted.mem_right hentry
    exact ⟨j, hj, (positionOf_iff hplaced).mpr ⟨r, at_zero_iff.mp hat, hid⟩⟩

/-- An id has a position when it is that of some state. -/
theorem exists_positionOf_iff (hids : (d.nodes.map (·.1)).Nodup) {id : String} :
    (∃ i, positionOf (layout d) id = some i) ↔ id ∈ d.nodes.map (·.1) := by
  have hplaced : ((layout d).map (·.id)).Nodup := by
    rw [← layout_nodes, List.map_map] at hids
    exact hids
  rw [← layout_nodes, List.map_map, List.mem_map]
  constructor
  · rintro ⟨i, hi⟩
    obtain ⟨p, hp, rfl⟩ := (positionOf_iff hplaced).mp hi
    exact ⟨p, List.mem_of_getElem? hp, rfl⟩
  · rintro ⟨p, hp, rfl⟩
    obtain ⟨i, hi⟩ := List.getElem?_of_mem hp
    exact ⟨i, (positionOf_iff hplaced).mpr ⟨p, hi, rfl⟩⟩

/-- The first pass over a layout, in terms of the tree. -/
theorem checkPlaced_layout_iff : checkPlaced [] (layout d) = .ok () ↔
    (∀ n ∈ d.nodes, n.1 ≠ "" ∧ n.2.unknown = []) ∧ (d.nodes.map (·.1)).Nodup := by
  rw [checkPlaced_passes_iff, ← layout_nodes, List.map_map, List.forall_mem_map]
  simp only [List.not_mem_nil, not_false_eq_true, and_true]
  rfl

/-- What the second pass asks of a state of a layout, in terms of the tree. -/
theorem resolvable_iff (hids : (d.nodes.map (·.1)).Nodup) {i : Nat} {p : Placed}
    (hp : (layout d)[i]? = some p) : Resolvable (layout d) p ↔
      ((p.source.states ≠ [] →
          ∃ initial ∈ p.source.states.map (·.1), p.source.initial = some initial) ∧
        (p.source.states = [] → p.source.initial = none)) ∧
      (∀ entry ∈ p.source.on, entry.1 ≠ "" ∧ ∀ t ∈ entry.2, ∀ target, t.target = some target →
        target ∈ d.nodes.map (·.1)) ∧
      ∀ v, p.source.invoke = some v → v.src ≠ "" := by
  have hleaf : p.children = [] ↔ p.source.states = [] := by
    rw [← List.length_eq_zero_iff, (layout_lists hp).ids.length_eq, List.length_eq_zero_iff]
  have hinitial : (∃ initial, resolveInitial (layout d) p = .ok initial) ↔
      (p.source.states ≠ [] →
          ∃ initial ∈ p.source.states.map (·.1), p.source.initial = some initial) ∧
        (p.source.states = [] → p.source.initial = none) := by
    simp only [resolveInitial_passes_iff, exists_child_iff hids hp, hleaf]
    by_cases hstates : p.source.states = []
    · simp [hstates]
    · simp [hstates, and_comm]
  simp only [← hinitial, ← exists_positionOf_iff hids]
  exact ⟨fun h => ⟨h.initial, h.on, h.source⟩, fun ⟨h, hon, hsource⟩ => ⟨h, hon, hsource⟩⟩

/-- The second pass over a layout with different ids, in terms of the tree. -/
theorem resolveAll_layout_iff (hids : (d.nodes.map (·.1)).Nodup) :
    (∃ states, resolveAll (layout d) [] 0 (layout d) = .ok states) ↔
      (∀ n ∈ d.nodes, ((n.2.states ≠ [] →
            ∃ initial ∈ n.2.states.map (·.1), n.2.initial = some initial) ∧
          (n.2.states = [] → n.2.initial = none)) ∧
        (∀ entry ∈ n.2.on, entry.1 ≠ "" ∧ ∀ t ∈ entry.2, ∀ target, t.target = some target →
          target ∈ d.nodes.map (·.1)) ∧
        ∀ v, n.2.invoke = some v → v.src ≠ "") ∧
      (d.nodes.filterMap fun n => n.2.invoke.map fun v => v.id.getD n.1).Nodup := by
  have hinvocations : (d.nodes.filterMap fun n => n.2.invoke.map fun v => v.id.getD n.1) =
      (layout d).filterMap invokeId? := by
    rw [← layout_nodes, List.filterMap_map]
    rfl
  rw [resolveAll_passes_iff, hinvocations]
  simp only [List.not_mem_nil, not_false_eq_true, implies_true, and_true]
  refine and_congr_left fun _ => ?_
  constructor
  · intro h n hn
    obtain ⟨p, hp, hid, hsource⟩ := mem_nodes.mp hn
    obtain ⟨i, hi⟩ := List.getElem?_of_mem hp
    rw [← hsource]
    exact (resolvable_iff hids hi).mp (h p hp)
  · intro h p hp
    obtain ⟨i, hi⟩ := List.getElem?_of_mem hp
    exact (resolvable_iff hids hi).mpr (h (p.id, p.source) (mem_nodes.mpr ⟨p, hp, rfl, rfl⟩))

end layout

theorem build_passes_iff {d : Definition} : (∃ c, build d = .ok c) ↔
    d.id ≠ "" ∧ (∃ context, defaultContextOf d.context = .ok context) ∧
      checkPlaced [] (layout d) = .ok () ∧
      ∃ states, resolveAll (layout d) [] 0 (layout d) = .ok states := by
  constructor
  · rintro ⟨c, h⟩
    obtain ⟨context, states, hid, hcontext, hcheck, hstates, _⟩ := build_ok h
    exact ⟨by simpa using hid, ⟨context, hcontext⟩, hcheck, states, hstates⟩
  · rintro ⟨hid, ⟨context, hcontext⟩, hcheck, states, hstates⟩
    refine ⟨⟨d, states.toArray, context, d.checksum⟩, ?_⟩
    simp only [build, String.isEmpty_iff, hid, if_false, hcontext, hcheck, hstates]
    rfl

theorem build_passes_iff_wellFormed {d : Definition} :
    (∃ c, build d = .ok c) ↔ d.WellFormed := by
  rw [build_passes_iff, defaultContextOf_passes_iff, checkPlaced_layout_iff]
  constructor
  · rintro ⟨hid, hcontext, ⟨hnodes, hdistinct⟩, hresolved⟩
    obtain ⟨hstates, hinvocations⟩ := (resolveAll_layout_iff hdistinct).mp hresolved
    exact {
      id := hid
      context := hcontext
      ids := fun n hn => (hnodes n hn).1
      distinct := hdistinct
      known := fun n hn => (hnodes n hn).2
      composite := fun n hn => (hstates n hn).1.1
      leaf := fun n hn => (hstates n hn).1.2
      events := fun n hn entry hentry => ((hstates n hn).2.1 entry hentry).1
      targets := fun n hn entry hentry => ((hstates n hn).2.1 entry hentry).2
      sources := fun n hn => (hstates n hn).2.2
      invocations := hinvocations }
  · intro h
    refine ⟨h.id, h.context, ⟨fun n hn => ⟨h.ids n hn, h.known n hn⟩, h.distinct⟩, ?_⟩
    refine (resolveAll_layout_iff h.distinct).mpr ⟨fun n hn => ?_, h.invocations⟩
    exact ⟨⟨h.composite n hn, h.leaf n hn⟩,
      fun entry hentry => ⟨h.events n hn entry hentry, h.targets n hn entry hentry⟩,
      h.sources n hn⟩

/-- A chart is made from a definition exactly when that is well-formed; every other definition is
refused as invalid. -/
theorem ofDefinition_ok_iff_wellFormed (d : Definition) :
    ((∃ c, ofDefinition d = .ok c) ↔ d.WellFormed) ∧
      (d.WellFormed ∨ ∃ fault, ofDefinition d = .error (.invalidDefinition (.chart fault))) := by
  rw [← build_passes_iff_wellFormed]
  unfold ofDefinition
  cases build d with
  | ok c => simp [Except.mapError]
  | error fault => simp [Except.mapError]

end Chart

end Statechart
