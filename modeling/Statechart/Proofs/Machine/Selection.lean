import Statechart.Proofs.Machine.Execution

/-!
# Selecting a transition

The transitions that active states declare for an event are searched from the innermost state
outwards, and within a state in the order of their declaration. The first one that has no guard or
whose guard is true is selected. A guard that fails is taken as false and noted, or it ends the
search, as the machine is set. What comes after the end of the search does not count. An event for
which nothing is selected changes nothing.
-/
namespace Statechart.Machine

/-- The transitions that active states declare for an event, each with its state: innermost state
first, and in the order of declaration within a state. -/
def declared (m : Machine) (event : Event) : List (Nat × Transition) :=
  m.configuration.reverse.flatMap fun i =>
    ((m.chart.state i).transitionsFor event.name).map fun t => (i, t)

/-- Whether a transition may be taken: it has no guard, or its guard is true. -/
def admits (m : Machine) (event : Event) (p : Nat × Transition) : Bool :=
  match p.2.guard with
  | none => true
  | some guard =>
    match guard.evaluate m.setup.predicates m.context (some event) with
    | .ok passes => passes
    | .error _ => false

/-- The error of a guard that fails. It names the state that declares the transition. -/
def guardError? (m : Machine) (event : Event) (p : Nat × Transition) : Option MachineError :=
  match p.2.guard with
  | none => none
  | some guard =>
    match guard.evaluate m.setup.predicates m.context (some event) with
    | .ok _ => none
    | .error reason =>
      some (.guardEvaluation guard.describe (m.chart.state p.1).id event.name reason)

/-- Whether the search for a transition ends with this one, as it is selected or its guard fails
where that counts. -/
def settles (m : Machine) (event : Event) (p : Nat × Transition) : Prop :=
  m.admits event p = true ∨ m.settings.guardErrors = .fail ∧ (m.guardError? event p).isSome

/-- The first declared transition that may be taken. -/
def firstAdmitted (m : Machine) (event : Event) : Option Transition :=
  ((m.declared event).find? (m.admits event)).map (·.2)

/-- The errors of the guards before the first transition that may be taken. -/
def errorsBefore (m : Machine) (event : Event) : List MachineError :=
  ((m.declared event).takeWhile fun p => !m.admits event p).filterMap (m.guardError? event)

/-- Another machine is in a position to evaluate the same guards in the same way. -/
structure Parallels (m m' : Machine) : Prop where
  context : m'.context = m.context
  predicates : m'.setup.predicates = m.setup.predicates
  guardErrors : m'.settings.guardErrors = m.settings.guardErrors
  id : ∀ i, (m'.chart.state i).id = (m.chart.state i).id

variable {m₀ m m' : Machine} {event : Event} {p : Nat × Transition}

theorem map_declared (m : Machine) (event : Event) :
    (m.declared event).map (·.2) = m.candidates event := by
  simp [declared, candidates, List.map_flatMap, Function.comp_def]

/-- In a sound chart transitions know the state that declares them. -/
theorem declared_source (hc : m.chart.Sound) (hp : p ∈ m.declared event) : p.2.source = p.1 := by
  simp only [declared, List.mem_flatMap, List.mem_map] at hp
  obtain ⟨i, _, t, ht, rfl⟩ := hp
  simp only [State.transitionsFor] at ht
  cases hlist : Keyed.get? event.name (m.chart.state i).transitions with
  | none => simp [hlist] at ht
  | some list =>
      rw [hlist, Option.getD_some] at ht
      exact (hc.transition i _ (Keyed.mem_of_get? hlist) t ht).1

/-- A search looks at one transition after another. -/
theorem choose_cons (hp : p.2.source = p.1) (rest : List Transition) :
    m.choose event (p.2 :: rest) =
      if m.admits event p then (.ok (some p.2), [])
      else
        match m.guardError? event p, m.settings.guardErrors with
        | none, _ => m.choose event rest
        | some e, .fail => (.error e, [])
        | some e, .skip =>
          ((m.choose event rest).1, .ofError event.name e :: (m.choose event rest).2) := by
  cases hguard : p.2.guard with
  | none => simp [choose, admits, hguard, Guard.passes]
  | some guard =>
      obtain ⟨result, hresult⟩ :
          ∃ result, guard.evaluate m.setup.predicates m.context (some event) = result := ⟨_, rfl⟩
      rcases result with reason | _ | _
      · cases hpolicy : m.settings.guardErrors <;>
          simp [choose, admits, guardError?, hguard, Guard.passes, hresult, hpolicy, hp]
      · simp [choose, admits, guardError?, hguard, Guard.passes, hresult]
      · simp [choose, admits, hguard, Guard.passes, hresult]

/-- A search that passes failing guards over notes each of them. -/
theorem choose_skip (hskip : m.settings.guardErrors = .skip) :
    ∀ list : List (Nat × Transition), (∀ p ∈ list, p.2.source = p.1) →
    m.choose event (list.map (·.2)) =
      (.ok ((list.find? (m.admits event)).map (·.2)),
        ((list.takeWhile fun p => !m.admits event p).filterMap (m.guardError? event)).map
          (.ofError event.name))
  | [], _ => rfl
  | p :: rest, h => by
      have hrest := choose_skip hskip rest fun q hq => h q (List.mem_cons_of_mem _ hq)
      rw [List.map_cons, choose_cons (h p (by simp)), hrest, hskip]
      cases hp : m.admits event p with
      | true => simp [hp]
      | false => cases he : m.guardError? event p <;> simp [hp, he]

/-- A search in which failing guards count ends with the first of them before any that passes. -/
theorem choose_fail (hfail : m.settings.guardErrors = .fail) :
    ∀ list : List (Nat × Transition), (∀ p ∈ list, p.2.source = p.1) →
    m.choose event (list.map (·.2)) =
      (match ((list.takeWhile fun p => !m.admits event p).filterMap
          (m.guardError? event)).head? with
        | some e => .error e
        | none => .ok ((list.find? (m.admits event)).map (·.2)), [])
  | [], _ => rfl
  | p :: rest, h => by
      have hrest := choose_fail hfail rest fun q hq => h q (List.mem_cons_of_mem _ hq)
      rw [List.map_cons, choose_cons (h p (by simp)), hrest, hfail]
      cases hp : m.admits event p with
      | true => simp [hp]
      | false => cases he : m.guardError? event p <;> simp [hp, he]

/-- The transitions after the end of a search do not count. -/
theorem choose_of_settles (hp : p.2.source = p.1) (hsettles : m.settles event p)
    (after after' : List Transition) : ∀ before : List Transition,
    m.choose event (before ++ p.2 :: after') = m.choose event (before ++ p.2 :: after)
  | [] => by
      simp only [List.nil_append, choose_cons hp]
      rcases hsettles with hadmits | ⟨hfail, herror⟩
      · rw [if_pos hadmits, if_pos hadmits]
      · obtain ⟨e, he⟩ := Option.isSome_iff_exists.mp herror
        rw [he, hfail]
  | t :: before => by
      simp only [List.cons_append, choose, choose_of_settles hp hsettles after after' before]

theorem Parallels.choose (h : m.Parallels m') (event : Event) : ∀ list : List Transition,
    m'.choose event list = m.choose event list
  | [] => rfl
  | t :: rest => by
      simp only [Machine.choose, h.choose event rest, h.context, h.predicates, h.guardErrors, h.id]

theorem declared_of_not_enabled (h : event.name ∉ m.enabledEvents) : m.declared event = [] := by
  simp only [enabledEvents, Keyed.mem_sortedKeys, List.mem_flatMap, not_exists, not_and] at h
  simp only [declared, List.flatMap_eq_nil_iff, List.mem_reverse, List.map_eq_nil_iff,
    State.transitionsFor]
  intro i hi
  cases hlist : Keyed.get? event.name (m.chart.state i).transitions with
  | none => rfl
  | some list =>
      exact absurd (List.mem_map_of_mem (f := (·.1)) (Keyed.mem_of_get? hlist)) (h i hi)

/-- An event that is not handled is told to observers, and nothing else happens. -/
theorem dispatch_of_unselected {diagnostics : List Diagnostic} (hrunning : m.status = .running)
    (hpending : m.pending = []) (hlimit : 1 ≤ m.settings.maxMicrosteps)
    (h : m.select event = (.ok none, diagnostics)) : m.dispatch event =
      ({ m with trace := m.trace.push (.notified (.dispatched m.chart.id event.name false
          m.configurationIds m.context.toJson)) },
        .ok ⟨event.name, false, m.configurationIds, 1, diagnostics⟩) := by
  have hstep : m.microstep event = ⟨m, diagnostics, .ok (false, [])⟩ := by
    simp [microstep, h]
  have htaken : m.takePending.1 = m := by
    rw [takePending, ← hpending]
  obtain ⟨budget, hbudget⟩ := Nat.exists_eq_add_of_le' hlimit
  have hrun : m.runEvents [event] = ⟨m, diagnostics, .ok [false]⟩ := by
    rw [runEvents, hbudget]
    simp [drain, hstep, Except.map]
  rw [dispatch_of_running hrunning, htaken, hpending]
  simp [processAll, processedCount, runToCompletion, hrun, Except.map, notify, record,
    configurationIds, hpending]

/-- What is selected for an event. -/
structure Selects (m : Machine) (event : Event) : Prop where
  /-- If failing guards are passed over, the first transition that may be taken is selected, and
  each failing guard before it is noted. -/
  skip : m.settings.guardErrors = .skip → m.select event =
    (.ok (m.firstAdmitted event), (m.errorsBefore event).map (.ofError event.name))
  /-- If failing guards count, the first of them before any that passes is the result. -/
  fail : m.settings.guardErrors = .fail → m.select event =
    (match (m.errorsBefore event).head? with
      | some e => .error e
      | none => .ok (m.firstAdmitted event), [])
  /-- What is declared after the end of the search does not count. -/
  later : ∀ before p after, m.declared event = before ++ p :: after → m.settles event p →
    ∀ m' after', m.Parallels m' → m'.declared event = before ++ p :: after' →
    m'.select event = m.select event
  /-- When nothing is selected for the event, a dispatch only tells observers of it. -/
  ignore : m.status = .running → m.pending = [] → 1 ≤ m.settings.maxMicrosteps →
    (m.select event).1 = .ok none → m.dispatch event =
      ({ m with trace := m.trace.push (.notified (.dispatched m.chart.id event.name false
          m.configurationIds m.context.toJson)) },
        .ok ⟨event.name, false, m.configurationIds, 1, (m.select event).2⟩)
  /-- Nothing is selected for an event that is not enabled. -/
  unknown : event.name ∉ m.enabledEvents → m.select event = (.ok none, [])

theorem selects_of_sound (hc : m.chart.Sound) (event : Event) : Selects m event where
  skip hskip := by
    rw [select, ← map_declared]
    exact choose_skip hskip _ fun p hp => declared_source hc hp
  fail hfail := by
    rw [select, ← map_declared]
    exact choose_fail hfail _ fun p hp => declared_source hc hp
  later before p after hsplit hsettles m' after' hparallel hsplit' := by
    have hp : p ∈ m.declared event := by simp [hsplit]
    rw [select, select, hparallel.choose, ← map_declared, ← map_declared, hsplit, hsplit']
    simp only [List.map_append, List.map_cons]
    exact choose_of_settles (declared_source hc hp) hsettles _ _ _
  ignore hrunning hpending hlimit hnone :=
    dispatch_of_unselected hrunning hpending hlimit (Prod.ext hnone rfl)
  unknown h := by
    rw [select, ← map_declared, declared_of_not_enabled h]
    rfl

/-- At every place of a run, what is selected for an event is the first of the transitions declared
for it that may be taken, from the innermost state outwards. -/
theorem selects_first {d : Definition} {c : Chart} {initial : Json} {setup : Setup}
    (hbuild : Chart.build d = .ok c) (hcreate : create c initial setup = .ok m₀)
    (hm : m₀.Occurs m) (event : Event) : Selects m event :=
  selects_of_sound (hm.still (create_begins (Chart.build_sound hbuild) hcreate)).1 event

/-- A chart in which the guards of the inner state fail or are false, and the root goes on. -/
def tollDefinition : Definition where
  id := "m"
  root :=
    { initial := some "a"
      on := [("go", [{ target := some "b" }])]
      states := [
        ("a", { on := [("go", [
          { target := some "a", guard := some (.expression ⟨"ctx.paid", .context "paid", rfl⟩) },
          { target := some "a", guard := some (.expression ⟨"false", .literal (.bool false), rfl⟩) }
          ])] }),
        ("b", {})] }

def tollChart : Chart where
  definition := tollDefinition
  states := #[
    ⟨"m", none, 0, [1, 2], some 1, [], [], [("go", [⟨0, "go", some 2, none, []⟩])], none⟩,
    ⟨"a", some 0, 1, [], none, [], [],
      [("go", [
        ⟨1, "go", some 1, some (.expression ⟨"ctx.paid", .context "paid", rfl⟩), []⟩,
        ⟨1, "go", some 1, some (.expression ⟨"false", .literal (.bool false), rfl⟩), []⟩])], none⟩,
    ⟨"b", some 0, 1, [], none, [], [], [], none⟩]
  defaultContext := .obj []
  checksum := tollDefinition.checksum

def tollMachine (guardErrors : GuardErrorPolicy) : Machine :=
  { chart := tollChart, setup := { settings := { guardErrors } }, context := .empty }

theorem build_toll : Chart.build tollDefinition = .ok tollChart := rfl

theorem create_toll (guardErrors : GuardErrorPolicy) :
    create tollChart .null { settings := { guardErrors } } = .ok (tollMachine guardErrors) := rfl

/-- The failing guard is passed over, or it ends the search. -/
theorem selects_first_toll :
    Selects ((tollMachine .skip).after [.start]) ⟨"go", .null⟩ ∧
    Selects ((tollMachine .fail).after [.start]) ⟨"go", .null⟩ :=
  ⟨selects_first build_toll (create_toll .skip) ⟨[.start], .inl rfl⟩ _,
    selects_first build_toll (create_toll .fail) ⟨[.start], .inl rfl⟩ _⟩

example : ((tollMachine .fail).after [.start]).errorsBefore ⟨"go", .null⟩ =
    [.guardEvaluation "ctx.paid" "a" "go" (.missingPath "paid")] := rfl

example : (((tollMachine .skip).after [.start]).firstAdmitted ⟨"go", .null⟩).map (·.source) =
    some Chart.root := rfl

end Statechart.Machine
