import Statechart.Proofs.Machine.Course
import Statechart.Proofs.Machine.Lasting

/-!
# Predicates of guards

A machine is vetted when every predicate that its guards name is registered. A start refuses a
machine that is not vetted and a restore does not look. No input changes the chart or the registry,
so a machine is vetted at the end of a run if and only if it has been at the beginning. In a
microstep, only a guard that names a predicate which is not registered fails for want of it.
-/
namespace Statechart

/-- A result that is no failure to find a predicate. -/
def FindsPredicates {α : Type} (result : Except ResolutionError α) : Prop :=
  ∀ name, result ≠ .error (.unknownPredicate name)

namespace FindsPredicates

variable {α β : Type} {result : Except ResolutionError α}

theorem ok (a : α) : FindsPredicates (.ok a) := fun _ => by simp

theorem error {e : ResolutionError} (h : ∀ name, e ≠ .unknownPredicate name) :
    FindsPredicates (.error e : Except ResolutionError α) :=
  fun name heq => h name (Except.error.inj heq)

theorem bind {f : α → Except ResolutionError β} (h : FindsPredicates result)
    (hf : ∀ a, FindsPredicates (f a)) : FindsPredicates (result >>= f) := by
  cases result with
  | ok a => exact hf a
  | error e =>
      rintro name ⟨⟩
      exact h name rfl

theorem map (h : FindsPredicates result) (f : α → β) : FindsPredicates (result.map f) := by
  cases result with
  | ok a => exact ok (f a)
  | error e =>
      rintro name ⟨⟩
      exact h name rfl

theorem ofOperator (place : String) (result : Except OperatorError α) :
    FindsPredicates (result.mapError (.ofOperator place)) := by
  rcases result with e | a
  · exact error fun _ => by cases e <;> simp [ResolutionError.ofOperator]
  · exact ok a

end FindsPredicates

theorem Expr.evaluate_findsPredicates (ctx : Context) (event : Option Event) (e : Expr) :
    FindsPredicates (e.evaluate ctx event) := by
  induction e with
  | literal value => exact .ok value
  | context path =>
      rw [evaluate, Context.lookup]
      cases Path.follow? (Path.segments path) ctx.toJson with
      | some value => exact .ok value
      | none => exact .error (by simp)
  | eventName =>
      rw [evaluate.eq_def]
      cases event with
      | some e => exact .ok _
      | none => exact .error (by simp)
  | eventData path =>
      rw [evaluate.eq_def]
      cases event with
      | none => exact .error (by simp)
      | some e =>
          dsimp only
          cases Path.lookupIn? path e.data with
          | some value => exact .ok value
          | none => exact .error (by simp)
  | not e ih => exact ih.bind fun _ => .ok _
  | neg e ih => exact ih.bind fun _ => .ofOperator _ _
  | and a b iha ihb =>
      refine iha.bind fun x => ?_
      split
      · exact ihb.bind fun _ => .ok _
      · exact .ok _
  | or a b iha ihb =>
      refine iha.bind fun x => ?_
      split
      · exact .ok _
      · exact ihb.bind fun _ => .ok _
  | binary op a b iha ihb => exact iha.bind fun _ => ihb.bind fun _ => .ofOperator _ _

/-- Only a guard that names a predicate fails for want of it. -/
theorem Guard.passes_unknownPredicate_iff {predicates : Predicates} {ctx : Context}
    {event : Option Event} {guard : Option Guard} {name : String} :
    Guard.passes predicates ctx event guard = .error (.unknownPredicate name) ↔
      guard = some (.predicate name) ∧ Keyed.contains name predicates = false := by
  cases guard with
  | none => simp [passes]
  | some g =>
      cases g with
      | expression e =>
          have htest := (e.tree.evaluate_findsPredicates ctx event).map Json.isTruthy name
          simpa [passes, evaluate, Expr.test] using htest
      | predicate other =>
          cases hget : Keyed.get? other predicates with
          | some holds =>
              simp only [passes, evaluate, hget, reduceCtorEq, Option.some.injEq,
                Guard.predicate.injEq, false_iff, not_and]
              rintro rfl
              simp [Keyed.contains, hget]
          | none =>
              simp only [passes, evaluate, hget, Except.error.injEq,
                ResolutionError.unknownPredicate.injEq, Option.some.injEq, Guard.predicate.injEq]
              refine ⟨?_, And.left⟩
              rintro rfl
              simp [Keyed.contains, hget]

/-- What guards of transitions name is among the predicates of the chart. -/
theorem Chart.mem_predicateNames {c : Chart} {t : Transition} {name : String}
    (ht : t ∈ c.transitions) (hguard : t.guard = some (.predicate name)) :
    name ∈ c.predicateNames := by
  simp only [predicateNames, Keyed.mem_sortedKeys, List.mem_filterMap]
  exact ⟨t, ht, by simp [hguard, Guard.predicateName?]⟩

namespace Machine

variable {m₀ m m' : Machine} {event : Event}

/-- Every predicate that guards of the chart name is registered. -/
def Vetted (m : Machine) : Prop :=
  ∀ name ∈ m.chart.predicateNames, Keyed.contains name m.setup.predicates = true

theorem vetted_iff : m.Vetted ↔ m.missingPredicate? = none := by
  simp [Vetted, missingPredicate?]

/-- Two machines of one chart that know the same predicates. -/
structure Alike (m m' : Machine) : Prop where
  chart : m'.chart = m.chart
  predicates : m'.setup.predicates = m.setup.predicates

theorem Alike.vetted_iff (h : m.Alike m') : m'.Vetted ↔ m.Vetted := by
  rw [Vetted, Vetted, h.chart, h.predicates]

theorem stopInvocation_alike (m : Machine) (i : Nat) : m.Alike (m.stopInvocation i) := by
  unfold stopInvocation
  split
  · exact ⟨rfl, rfl⟩
  · split <;> exact ⟨rfl, rfl⟩

theorem startInvocation_alike (m : Machine) (i : Nat) : m.Alike (m.startInvocation i) := by
  unfold startInvocation
  split
  · exact ⟨rfl, rfl⟩
  · dsimp only
    split
    · split <;> exact ⟨rfl, rfl⟩
    · exact ⟨rfl, rfl⟩

/-- No operation changes the chart or the registry. -/
theorem alike_lasting : Lasting Alike where
  refl _ := ⟨rfl, rfl⟩
  trans h h' := ⟨h'.chart.trans h.chart, h'.predicates.trans h.predicates⟩
  act _ _ _ := ⟨rfl, rfl⟩
  leave m i :=
    have h := stopInvocation_alike m i
    ⟨h.chart, h.predicates⟩
  activate _ _ := ⟨rfl, rfl⟩
  startInvocation := startInvocation_alike
  accept _ _ := ⟨rfl, rfl⟩
  revokeAll _ := ⟨rfl, rfl⟩
  become _ _ := ⟨rfl, rfl⟩
  adopt _ _ := ⟨rfl, rfl⟩
  queue _ _ _ := ⟨rfl, rfl⟩
  attend _ _ := ⟨rfl, rfl⟩

/-- The guard of a transition, evaluated for an event. -/
def guardResult (m : Machine) (event : Event) (t : Transition) : Except ResolutionError Bool :=
  Guard.passes m.setup.predicates m.context (some event) t.guard

theorem candidates_subset (m : Machine) (event : Event) :
    m.candidates event ⊆ m.chart.transitions := by
  intro t ht
  simp only [candidates, List.mem_flatMap, List.mem_reverse, State.transitionsFor] at ht
  obtain ⟨i, _, ht⟩ := ht
  cases hlist : Keyed.get? event.name (m.chart.state i).transitions with
  | none => simp [hlist] at ht
  | some list =>
      rw [hlist, Option.getD_some] at ht
      have hentry := Keyed.mem_of_get? hlist
      cases hstate : m.chart.states[i]? with
      | none =>
          rw [Chart.state, hstate] at hentry
          cases hentry
      | some state =>
          rw [Chart.state, hstate, Option.getD_some] at hentry
          have hmem : state ∈ m.chart.states.toList :=
            Array.mem_toList_iff.mpr (Array.mem_of_getElem? hstate)
          exact List.mem_flatMap.mpr ⟨state, hmem, List.mem_flatMap.mpr ⟨_, hentry, ht⟩⟩

/-- Guards of a vetted machine find their predicates. -/
theorem Vetted.guardResult (h : m.Vetted) {t : Transition} (ht : t ∈ m.candidates event) :
    FindsPredicates (m.guardResult event t) := by
  intro name hname
  obtain ⟨hguard, hmissing⟩ := Guard.passes_unknownPredicate_iff.mp hname
  have hregistered := h name (Chart.mem_predicateNames (candidates_subset m event ht) hguard)
  rw [hmissing] at hregistered
  cases hregistered

/-- What guards find in a machine whose chart and registry are those of another one. -/
structure Searches (m₀ m : Machine) : Prop where
  vetted : m.Vetted ↔ m₀.Vetted
  /-- A guard that is evaluated in a microstep fails for want of a predicate if and only if it names
  one that is not registered. -/
  missed (input : Input) : ∀ p ∈ m.microsteps input, ∀ t ∈ p.1.candidates p.2, ∀ name,
    p.1.guardResult p.2 t = .error (.unknownPredicate name) ↔
      t.guard = some (.predicate name) ∧ Keyed.contains name m₀.setup.predicates = false
  /-- When the other one is vetted, none does. -/
  found : m₀.Vetted → ∀ input, ∀ p ∈ m.microsteps input, ∀ t ∈ p.1.candidates p.2,
    FindsPredicates (p.1.guardResult p.2 t)

theorem Alike.searches (h : m₀.Alike m) : Searches m₀ m where
  vetted := h.vetted_iff
  missed input p hp t _ name := by
    have hsame := alike_lasting.trans h (alike_lasting.microsteps m input p hp)
    rw [Machine.guardResult, Guard.passes_unknownPredicate_iff, hsame.predicates]
  found hvetted input p hp t ht := by
    have hsame := alike_lasting.trans h (alike_lasting.microsteps m input p hp)
    exact (hsame.vetted_iff.mpr hvetted).guardResult ht

/-- A machine comes to run because it is vetted and started, or because it is restored. -/
theorem feed_runs (input : Input) (hnot : m.status ≠ .running)
    (hrun : (m.feed input).status = .running) :
    m.status = .uninitialized ∧
      (input = .start ∧ m.Vetted ∨ ∃ s, input = .restore s ∧ s.status = .running) := by
  cases input with
  | start =>
      rw [feed, start_eq] at hrun
      split at hrun
      · next hnew =>
          split at hrun
          · exact absurd hrun hnot
          · next hnone => exact ⟨hnew, .inl ⟨rfl, vetted_iff.mpr hnone⟩⟩
      · exact absurd hrun hnot
  | restore s =>
      rcases restore_cases m s with ⟨e, heq⟩ | ⟨configuration, context, hnew, _, _, heq⟩
      · rw [feed, heq] at hrun
        exact absurd hrun hnot
      · refine ⟨hnew, .inr ⟨s, rfl, ?_⟩⟩
        by_contra hs
        rw [feed, heq, if_neg hs] at hrun
        exact hs hrun
  | dispatch event =>
      rw [feed, dispatch_of_ne hnot] at hrun
      exact absurd hrun hnot
  | processPending =>
      rw [feed, processPending_of_ne hnot] at hrun
      exact absurd hrun hnot
  | stop =>
      rw [feed, stop_of_ne hnot] at hrun
      exact absurd hrun hnot
  | report | requeue | attend => exact absurd hrun hnot

/-- A machine that runs at the end of a run has been started while it was vetted, or restored. -/
theorem after_runs (hnew : m₀.status = .uninitialized) (inputs : List Input)
    (hrun : (m₀.after inputs).status = .running) :
    ∃ before input later, inputs = before ++ input :: later ∧
      (m₀.after before).status = .uninitialized ∧
      (input = .start ∧ m₀.Vetted ∨ ∃ s, input = .restore s ∧ s.status = .running) := by
  induction inputs using List.reverseRecOn with
  | nil =>
      rw [after_nil, hnew] at hrun
      cases hrun
  | append_singleton inputs input ih =>
      by_cases hbefore : (m₀.after inputs).status = .running
      · obtain ⟨before, cause, later, rfl, hcause⟩ := ih hbefore
        exact ⟨before, cause, later ++ [input], by simp, hcause⟩
      · rw [after_concat] at hrun
        obtain ⟨hstill, hcause⟩ := feed_runs input hbefore hrun
        have hvetted := (alike_lasting.after m₀ inputs).vetted_iff
        exact ⟨inputs, input, [], rfl, hstill, hcause.imp_left (And.imp_right hvetted.mp)⟩

/-- A chart that goes on if a predicate holds. -/
def gateDefinition : Definition where
  id := "m"
  root :=
    { initial := some "a"
      states := [
        ("a", { on := [("go", [{ target := some "b", guard := some (.predicate "p") }])] }),
        ("b", {})] }

def gateChart : Chart where
  definition := gateDefinition
  states := #[
    ⟨"m", none, 0, [1, 2], some 1, [], [], [], none⟩,
    ⟨"a", some 0, 1, [], none, [], [],
      [("go", [⟨1, "go", some 2, some (.predicate "p"), []⟩])], none⟩,
    ⟨"b", some 0, 1, [], none, [], [], [], none⟩]
  defaultContext := .obj []
  checksum := gateDefinition.checksum

def gateMachine (predicates : Predicates) : Machine :=
  { chart := gateChart, setup := { predicates }, context := .empty }

theorem build_gate : Chart.build gateDefinition = .ok gateChart := rfl

theorem create_gate (predicates : Predicates) :
    create gateChart .null { predicates } = .ok (gateMachine predicates) := rfl

/-- The snapshot of a machine that runs in the first state. -/
def gateSnapshot : Snapshot := ⟨"m", gateChart.checksum, .running, some "a", [], .obj []⟩

theorem after_restore (m : Machine) (s : Snapshot) : m.after [.restore s] = (m.restore s).1 := rfl

/-- The snapshot is taken over whether or not the predicate is registered. -/
theorem after_restore_gate (predicates : Predicates) :
    (gateMachine predicates).after [.restore gateSnapshot] =
      { gateMachine predicates with configuration := [0, 1], status := .running }.announce "m" := by
  have hchart : gateSnapshot.chart = gateChart.id := rfl
  have hsum : gateSnapshot.checksum = gateChart.checksum := rfl
  have hconfiguration : snapshotConfiguration gateChart gateSnapshot = .ok [0, 1] := by
    decide +kernel
  have hcontext : Context.ofJson gateSnapshot.context = .ok .empty := rfl
  rw [after_restore, restore_of_valid (m := gateMachine predicates) rfl hchart hsum
    hconfiguration hcontext]
  rfl

/-- A machine that does not know the predicate is not started. But it can be restored, and then it
runs and its guard fails for want of the predicate. -/
theorem restore_unvetted :
    Chart.build gateDefinition = .ok gateChart ∧
    create gateChart .null {} = .ok (gateMachine []) ∧
    (gateMachine []).start.2 = .error (.invalidDefinition (.unregisteredPredicate "p")) ∧
    let m := (gateMachine []).after [.restore gateSnapshot]
    m.status = .running ∧ ¬ m.Vetted ∧
    ∃ p ∈ m.microsteps (.dispatch ⟨"go", .null⟩), ∃ t ∈ p.1.candidates p.2,
      p.1.guardResult p.2 t = .error (.unknownPredicate "p") := by
  refine ⟨build_gate, create_gate [], by decide +kernel, ?_⟩
  rw [after_restore_gate]
  refine ⟨rfl, ?_, _, .head _, _, .head _, rfl⟩
  rw [vetted_iff]
  decide +kernel

end Machine

end Statechart
