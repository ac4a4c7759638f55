import Statechart.Proofs.Machine.Mirror

/-!
# Machines that invoke nothing

A machine of a chart without invocations never asks its runner, and no report is for it. So it
makes no difference to it how a runner answers, which generation comes next and which reports have
arrived: every operation commutes with a change of these.
-/
namespace Statechart

/-- No state declares an invocation. -/
def Chart.InvokesNothing (c : Chart) : Prop := ∀ i, (c.state i).invoke = none

/-- What a machine that invokes nothing makes no use of. -/
structure Surroundings where
  answer : InvokeRequest → Option Outcome
  generation : Nat
  pending : List Completion
  signalled : Bool

/-- A machine in other surroundings. -/
def Machine.amid (u : Surroundings) (m : Machine) : Machine :=
  { m with
    setup := { m.setup with answer := u.answer }
    generation := u.generation
    pending := u.pending
    signalled := u.signalled }

def Step.amid (u : Surroundings) (s : Step) : Step := s.update (·.amid u)

def Attempt.amid (u : Surroundings) (a : Attempt) : Attempt := (a.1.amid u, a.2)

def Machine.Run.amid {α : Type} (u : Surroundings) (r : Machine.Run α) : Machine.Run α :=
  ⟨r.machine.amid u, r.diagnostics, r.result⟩

variable {u : Surroundings} {c : Chart}

namespace Machine

variable {m : Machine}

theorem startInvocations_of_invokesNothing (h : m.chart.InvokesNothing) (states : List Nat) :
    m.startInvocations states = m := by
  induction states with
  | nil => rfl
  | cons i rest ih =>
      rw [startInvocations, List.foldl_cons, startInvocation_of_none (h i)]
      exact ih

theorem stopInvocation_of_invokesNothing (h : m.chart.InvokesNothing) (i : Nat) :
    m.stopInvocation i = m := by
  simp [stopInvocation, h i]

theorem leave_amid (h : m.chart.InvokesNothing) (i : Nat) :
    (m.amid u).leave i = (m.leave i).amid u := by
  have hother : (m.amid u).chart.InvokesNothing := h
  rw [leave, leave, stopInvocation_of_invokesNothing h, stopInvocation_of_invokesNothing hother]
  rfl

end Machine

namespace Step
open Machine

variable {cause : Cause}

/-- Going on with an attempt commutes with a change of surroundings if both of its parts do. -/
theorem andThen_amid {a : Attempt} {next : Step → Attempt} (ha : a.1.machine.chart = c)
    (hnext : ∀ s : Step, s.machine.chart = c → next (s.amid u) = (next s).amid u) :
    (a.amid u).andThen next = (a.andThen next).amid u := by
  obtain ⟨s, e | ⟨⟩⟩ := a
  · rfl
  · exact hnext s ha

theorem runActions_amid (actions : List Action) (s : Step) :
    (s.amid u).runActions cause actions = (s.runActions cause actions).amid u := by
  unfold runActions
  dsimp only [Step.amid, Step.update, Machine.amid, Machine.settings]
  split <;> rfl

theorem exitInnermost_amid (hc : c.InvokesNothing) {s : Step} (hs : s.machine.chart = c) :
    (s.amid u).exitInnermost cause = (s.exitInnermost cause).amid u := by
  have hleaf : (s.amid u).machine.leaf? = s.machine.leaf? := rfl
  unfold exitInnermost
  rw [hleaf]
  cases s.machine.leaf? with
  | none => rfl
  | some i =>
      have hrun := runActions_tells cause (s.machine.chart.state i).exit s
      have hstate : (s.amid u).machine.chart.state i = s.machine.chart.state i := rfl
      dsimp only
      rw [hstate, runActions_amid]
      refine andThen_amid (hrun.chart.trans hs) fun t ht => ?_
      have hleave : (t.machine.amid u).leave i = (t.machine.leave i).amid u :=
        leave_amid (ht ▸ hc) i
      exact congrArg (fun m => ((⟨m, t.raised⟩, .ok ()) : Attempt)) hleave

theorem exitMany_amid (hc : c.InvokesNothing) (n : Nat) : ∀ {s : Step}, s.machine.chart = c →
    (s.amid u).exitMany cause n = (s.exitMany cause n).amid u := by
  induction n with
  | zero => exact fun _ => rfl
  | succ n ih =>
      intro s hs
      rw [exitMany, exitMany, exitInnermost_amid hc hs]
      exact andThen_amid ((exitInnermost_tells cause s).chart.trans hs) fun t ht => ih ht

theorem activateAll_amid : ∀ (states : List Nat) (s : Step), activateAll cause states (s.amid u) =
    ((activateAll cause states s).1.amid u, (activateAll cause states s).2)
  | [], s => rfl
  | i :: rest, s => by
      have hactive : (s.amid u).update (·.activate i) = (s.update (·.activate i)).amid u := rfl
      rw [activateAll, activateAll]
      dsimp only
      rw [hactive, runActions_amid]
      have hstate : ((s.update (·.activate i)).amid u).machine.chart.state i =
          (s.update (·.activate i)).machine.chart.state i := rfl
      rw [hstate]
      cases hrun : (s.update (·.activate i)).runActions cause
          ((s.update (·.activate i)).machine.chart.state i).entry with
      | mk t result =>
        cases result with
        | error e => rfl
        | ok _ =>
            dsimp only [Attempt.amid]
            rw [activateAll_amid rest t]
            rfl

theorem enter_amid (hc : c.InvokesNothing) (states : List Nat) {s : Step}
    (hs : s.machine.chart = c) : (s.amid u).enter cause states = (s.enter cause states).amid u := by
  have hchart := (activateAll_tells cause states s).chart.trans hs
  have hnone : (activateAll cause states s).1.1.machine.chart.InvokesNothing := hchart ▸ hc
  have hother : ((activateAll cause states s).1.1.amid u).machine.chart.InvokesNothing := hnone
  unfold enter
  rw [activateAll_amid]
  dsimp only [Attempt.amid, Step.update]
  rw [startInvocations_of_invokesNothing hnone, startInvocations_of_invokesNothing hother]

theorem move_chart (t : Transition) (event : Event) (target : Nat) (s : Step) :
    (move t event target s).1.machine.chart = s.machine.chart :=
  (andThen_tells (andThen_tells (exitMany_tells _ _ s) (runActions_tells _ _))
    (enter_tells _ _)).chart

theorem move_amid (hc : c.InvokesNothing) (t : Transition) (event : Event) (target : Nat)
    {s : Step} (hs : s.machine.chart = c) :
    move t event target (s.amid u) = (move t event target s).amid u := by
  have hchart : (s.amid u).machine.chart = s.machine.chart := rfl
  have hlength : (s.amid u).machine.configuration.length = s.machine.configuration.length := rfl
  unfold move
  dsimp only
  rw [hchart, hlength, exitMany_amid hc _ hs, andThen_amid ((exitMany_tells _ _ s).chart.trans hs)
    fun v _ => runActions_amid t.actions v]
  exact andThen_amid ((andThen_tells (exitMany_tells _ _ s) (runActions_tells _ _)).chart.trans hs)
    fun v hv => enter_amid hc _ hv

theorem execute_amid (hc : c.InvokesNothing) (t : Transition) (event : Event) {s : Step}
    (hs : s.machine.chart = c) : (s.amid u).execute t event = (s.execute t event).amid u := by
  have hchart : (s.amid u).machine.chart = s.machine.chart := rfl
  cases htarget : t.target with
  | none =>
      unfold execute
      simp only [htarget, hchart]
      rw [runActions_amid]
      exact andThen_amid ((runActions_tells _ t.actions s).chart.trans hs) fun _ _ => rfl
  | some target =>
      have hmoved : (move t event target s).1.machine.chart = c :=
        (move_chart t event target s).trans hs
      rw [execute_of_some htarget, execute_of_some htarget, move_amid hc t event target hs, hchart]
      exact andThen_amid hmoved fun _ _ => rfl

end Step

namespace Machine

variable {m : Machine}

theorem choose_amid (m : Machine) (event : Event) : ∀ list : List Transition,
    (m.amid u).choose event list = m.choose event list
  | [] => rfl
  | t :: rest => by
      have hpasses : Guard.passes (m.amid u).setup.predicates (m.amid u).context (some event)
          t.guard = Guard.passes m.setup.predicates m.context (some event) t.guard := rfl
      have hpolicy : (m.amid u).settings.guardErrors = m.settings.guardErrors := rfl
      rw [choose, choose, choose_amid m event rest, hpasses, hpolicy]
      rfl

theorem microstep_amid (h : m.chart.InvokesNothing) (event : Event) :
    (m.amid u).microstep event = (m.microstep event).amid u := by
  have hselect : (m.amid u).select event = m.select event := choose_amid m event _
  have hstep : (⟨m.amid u, []⟩ : Step) = Step.amid u ⟨m, []⟩ := rfl
  unfold microstep
  rw [hselect]
  rcases m.select event with ⟨e | ⟨_ | t⟩, diagnostics⟩
  · rfl
  · rfl
  · dsimp only
    rw [hstep, Step.execute_amid h t event rfl]
    rcases Step.execute t event ⟨m, []⟩ with ⟨s, e | ⟨⟩⟩ <;> rfl

theorem drain_amid (hc : c.InvokesNothing) (budget : Nat) : ∀ {m : Machine} (queue : List Event),
    m.chart = c → (m.amid u).drain budget queue = (m.drain budget queue).amid u := by
  induction budget with
  | zero =>
      intro m queue _
      cases queue <;> rfl
  | succ budget ih =>
      intro m queue hm
      cases queue with
      | nil => rfl
      | cons event queue =>
          have hchart := (microstep_tells m event).chart.trans hm
          rw [drain, drain, microstep_amid (hm ▸ hc)]
          rcases hrun : m.microstep event with ⟨m', diagnostics, e | ⟨handled, raised⟩⟩
          · rfl
          · rw [hrun] at hchart
            dsimp only [Run.amid]
            rw [ih (queue ++ raised) hchart]
            rfl

theorem runToCompletion_amid (h : m.chart.InvokesNothing) (event : Event) :
    (m.amid u).runToCompletion event = (m.runToCompletion event).amid u := by
  have hrun : (m.amid u).runEvents [event] = (m.runEvents [event]).amid u :=
    drain_amid h _ [event] rfl
  unfold runToCompletion
  rw [hrun]
  rcases m.runEvents [event] with ⟨m', diagnostics, e | processed⟩ <;> rfl

theorem exitAll_amid (hc : c.InvokesNothing) (n : Nat) : ∀ {s : Step}, s.machine.chart = c →
    exitAll n (s.amid u) = ((exitAll n s).1.amid u, (exitAll n s).2) := by
  induction n with
  | zero => exact fun _ => rfl
  | succ n ih =>
      intro s hs
      have hleaf : (s.amid u).machine.leaf? = s.machine.leaf? := rfl
      have hchart : (s.amid u).machine.chart = s.machine.chart := rfl
      rw [exitAll, exitAll, hleaf, hchart]
      cases s.machine.leaf? with
      | none => rfl
      | some i =>
          have hrun := Step.runActions_tells ⟨none, (s.machine.chart.state i).id, "(stopped)"⟩
            (s.machine.chart.state i).exit s
          dsimp only
          rw [Step.runActions_amid]
          rcases hattempt : s.runActions ⟨none, (s.machine.chart.state i).id, "(stopped)"⟩
            (s.machine.chart.state i).exit with ⟨v, result⟩
          rw [hattempt] at hrun
          have hv : v.machine.chart = c := hrun.chart.trans hs
          have hleft : (v.update (·.leave i)).machine.chart = c :=
            (leave_leaves v.machine i).chart.trans hv
          have hleave : (v.amid u).update (·.leave i) = (v.update (·.leave i)).amid u :=
            congrArg (fun m => (⟨m, v.raised⟩ : Step)) (leave_amid (hv ▸ hc) i)
          dsimp only [Attempt.amid]
          rw [hleave, ih hleft]
          cases result <;> rfl

/-- What is done to a machine that has been started, until it stops. -/
inductive Call where
  | dispatch (event : Event)
  | processPending
  | stop

/-- What a call returns. -/
inductive Reply where
  | dispatched (result : Except MachineError DispatchOutcome)
  | processed (result : Except MachineError Nat)
  | stopped (result : Except MachineError Unit)

def call (m : Machine) : Call → Machine × Reply
  | .dispatch event => ((m.dispatch event).1, .dispatched (m.dispatch event).2)
  | .processPending => (m.processPending.1, .processed m.processPending.2)
  | .stop => (m.stop.1, .stopped m.stop.2)

/-- What can be seen of a call: what it returns, all that it does to the outside in order, and the
snapshot afterwards. -/
structure Sight where
  reply : Reply
  effects : List Effect
  snapshot : Snapshot

/-- What can be seen of calls, one after the other. -/
def observe (m : Machine) : List Call → List Sight
  | [] => []
  | call :: rest =>
    let (after, reply) := m.takeTrace.1.call call
    ⟨reply, after.trace.toList, after.snapshot⟩ :: after.observe rest

/-- A machine that holds no token drops the reports that have arrived. -/
theorem processAll_of_nil (h : m.invocations = []) (completions : List Completion) :
    m.processAll completions = (m, completions.map fun r => (r, [], .ok 0)) := by
  induction completions with
  | nil => rfl
  | cons r rest ih =>
      have hfirst : m.processCompletion r = ⟨m, [], .ok 0⟩ := by
        simp [processCompletion, h, Keyed.get?]
      rw [processAll, hfirst]
      dsimp only
      rw [ih, List.map_cons]

theorem processedCount_dropped (completions : List Completion) :
    processedCount (completions.map fun _ => .ok 0) = 0 := by
  induction completions with
  | nil => rfl
  | cons r rest ih => rw [List.map_cons, processedCount, ih]

theorem processPending_of_nil (h : m.invocations = []) :
    m.processPending = (m.takePending.1, .ok 0) := by
  have hall := processAll_of_nil (m := m.takePending.1) h m.pending
  by_cases hstatus : m.status = .running
  · have htaken : m.takePending.1.status = .running := hstatus
    have hfirst : firstError? (m.pending.map fun _ => .ok 0) = none := by
      simp [firstError?]
    have hcount : (m.pending.map fun _ => (.ok 0 : Except MachineError Nat)).countP
        (fun r => r.toOption.getD 0 != 0) = 0 := by
      simp [Except.toOption]
    unfold processPending
    dsimp only [takePending] at hall htaken ⊢
    rw [if_pos htaken, hall]
    simp only [List.map_map, Function.comp_def, hfirst, hcount]
  · exact processPending_of_ne hstatus

theorem dispatch_of_nil (h : m.invocations = []) (hstatus : m.status = .running) (event : Event) :
    m.dispatch event =
      let run := m.takePending.1.runToCompletion event
      (run.machine, run.result.map fun p => {
        event := event.name
        handled := p.1
        configuration := run.machine.configurationIds
        processed := p.2
        diagnostics := run.diagnostics }) := by
  have hall := processAll_of_nil (m := m.takePending.1) h m.pending
  have hcount := processedCount_dropped m.pending
  have hnothing : m.pending.flatMap (fun r => reportDiagnostics r [] (.ok 0)) = [] := by
    simp [reportDiagnostics]
  unfold dispatch require
  dsimp only [takePending] at hall ⊢
  rw [if_pos hstatus, hall]
  simp only [List.flatMap_map, hnothing, List.map_map, Function.comp_def, hcount, Nat.zero_add,
    List.nil_append]
  rcases runToCompletion { m with pending := [] } event with ⟨m', diagnostics, e | ⟨_, _⟩⟩ <;> rfl

/-- A call in other surroundings returns the same and does the same. -/
theorem call_amid (hc : m.chart.InvokesNothing) (hnone : m.invocations = []) (call : Call) :
    ∃ v, (m.amid u).call call = ((m.call call).1.amid v, (m.call call).2) := by
  have hother : (m.amid u).invocations = [] := hnone
  cases call with
  | dispatch event =>
      by_cases hstatus : m.status = .running
      · have hrunning : (m.amid u).status = .running := hstatus
        have htaken :
            (m.amid u).takePending.1 = m.takePending.1.amid { u with pending := [] } := rfl
        refine ⟨{ u with pending := [] }, ?_⟩
        rw [call, call, dispatch_of_nil hnone hstatus, dispatch_of_nil hother hrunning, htaken,
          runToCompletion_amid (m := m.takePending.1) hc]
        rfl
      · have hrefused : (m.amid u).status ≠ .running := hstatus
        refine ⟨u, ?_⟩
        rw [call, call, dispatch_of_ne hstatus, dispatch_of_ne hrefused]
        rfl
  | processPending =>
      refine ⟨{ u with pending := [] }, ?_⟩
      rw [call, call, processPending_of_nil hnone, processPending_of_nil hother]
      rfl
  | stop =>
      by_cases hstatus : m.status = .running
      · refine ⟨{ u with pending := [] }, ?_⟩
        have hrunning : (m.amid u).status = .running := hstatus
        have hexits : exitAll m.configuration.length (Step.amid u ⟨m, []⟩) =
            ((exitAll m.configuration.length ⟨m, []⟩).1.amid u,
              (exitAll m.configuration.length ⟨m, []⟩).2) := exitAll_amid hc _ rfl
        have hlength : (m.amid u).configuration.length = m.configuration.length := rfl
        have hstep : (⟨m.amid u, []⟩ : Step) = Step.amid u ⟨m, []⟩ := rfl
        rw [call, call, stop, stop, require, require, if_pos hstatus, if_pos hrunning, hlength,
          hstep, hexits]
        rcases exitAll m.configuration.length ⟨m, []⟩ with ⟨s, _ | e⟩ <;> rfl
      · refine ⟨u, ?_⟩
        have hrefused : (m.amid u).status ≠ .running := hstatus
        rw [call, call, stop, stop, require, require, if_neg hstatus, if_neg hrefused]
        rfl

theorem call_chart (m : Machine) (call : Call) : (m.call call).1.chart = m.chart := by
  cases call with
  | dispatch event =>
      by_cases hstatus : m.status = .running
      · exact (dispatch_tells hstatus event).chart
      · rw [Machine.call, dispatch_of_ne hstatus]
  | processPending => exact (processPending_tells m).chart
  | stop =>
      rcases stop_tells m with heq | ⟨v, hexits, hstops⟩
      · exact congrArg chart heq
      · exact hstops.chart.trans hexits.chart

theorem takeTrace_regular (h : m.Regular) : m.takeTrace.1.Regular := by
  obtain ⟨hs, hb⟩ := h.books
  exact ⟨h.sound, ⟨hs, hb.chart, hb.rooted, hb.orderly, hb.generation, hb.sorted, hb.awaiting,
    hb.inactive, hb.fresh, hb.settled, hb.held⟩, h.atRest⟩

theorem call_regular (h : m.Regular) (call : Call) : (m.call call).1.Regular := by
  cases call with
  | dispatch event => exact feed_regular h (.dispatch event)
  | processPending => exact feed_regular h .processPending
  | stop => exact feed_regular h .stop

/-- Nothing is held by a machine that invokes nothing. -/
theorem Regular.invocations_of_invokesNothing (h : m.Regular) (hc : m.chart.InvokesNothing) :
    m.invocations = [] := by
  obtain ⟨hs, hb⟩ := h.books
  refine Keyed.eq_nil_of_get? fun k => Option.eq_none_iff_forall_ne_some.mpr fun t ht => ?_
  obtain ⟨i, v, hv, _⟩ := (hb.held k t).mp ht
  rw [hc i] at hv
  cases hv

/-- Nothing that can be seen of a machine that invokes nothing depends on its surroundings. -/
theorem observe_amid (calls : List Call) : ∀ {m : Machine} {u : Surroundings}, m.Regular →
    m.chart.InvokesNothing → (m.amid u).observe calls = m.observe calls := by
  induction calls with
  | nil => exact fun _ _ => rfl
  | cons call rest ih =>
      intro m u hm hc
      have htaken := takeTrace_regular hm
      have hnone := htaken.invocations_of_invokesNothing hc
      obtain ⟨v, hcall⟩ := call_amid (m := m.takeTrace.1) (u := u) hc hnone call
      have hafter := call_regular htaken call
      have hchart := call_chart m.takeTrace.1 call
      have htrace : (m.amid u).takeTrace.1 = m.takeTrace.1.amid u := rfl
      rw [observe, observe, htrace, hcall]
      dsimp only
      rw [ih hafter (hchart ▸ hc)]
      rfl

end Machine

end Statechart
