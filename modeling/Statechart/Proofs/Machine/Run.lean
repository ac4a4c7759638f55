import Statechart.Machine.Operations

/-!
# Runs of a machine

A run is a list of inputs: calls of the operations, completions that are reported, and changes of
how a runner answers. An operation processes events in microsteps; `microsteps` lists each of them
with the machine as it was before.
-/
namespace Statechart

/-- Whether a failure is that of an action. -/
def MachineError.isAction : MachineError → Bool
  | actionExecution .. => true
  | _ => false

namespace Machine

/-- What a machine meets in a run. -/
inductive Input where
  | start
  | dispatch (event : Event)
  | processPending
  | stop
  | restore (snapshot : Snapshot)
  /-- A completion is queued, whoever reports it and under whatever token. -/
  | report (completion : Completion)
  /-- The queue comes to hold other completions or has them in another order, as when some have
  been reported while an operation was going on. -/
  | requeue (pending : List Completion)
  /-- The runner answers requests in another way from now on. -/
  | attend (answer : InvokeRequest → Option Outcome)

/-- The machine after one input, whatever the result. -/
def feed (m : Machine) : Input → Machine
  | .start => m.start.1
  | .dispatch event => (m.dispatch event).1
  | .processPending => m.processPending.1
  | .stop => m.stop.1
  | .restore snapshot => (m.restore snapshot).1
  | .report completion => m.report completion
  | .requeue pending => { m with pending }
  | .attend answer => { m with setup := { m.setup with answer } }

/-- The machine after a run. -/
def after (m : Machine) (inputs : List Input) : Machine := inputs.foldl feed m

@[simp] theorem after_nil (m : Machine) : m.after [] = m := rfl

@[simp] theorem after_concat (m : Machine) (inputs : List Input) (input : Input) :
    m.after (inputs ++ [input]) = (m.after inputs).feed input := by
  simp [after]

/-- The microsteps that process queued events, each with the machine before it. -/
def drainSteps (m : Machine) : Nat → List Event → List (Machine × Event)
  | _, [] => []
  | 0, _ :: _ => []
  | budget + 1, event :: queue =>
    (m, event) :: match m.microstep event with
      | ⟨_, _, .error _⟩ => []
      | ⟨m, _, .ok (_, raised)⟩ => m.drainSteps budget (queue ++ raised)

/-- The microsteps of one run to completion. -/
def runSteps (m : Machine) (queue : List Event) : List (Machine × Event) :=
  m.drainSteps m.settings.maxMicrosteps queue

/-- Takes the completion of a token: its invocation has ended. -/
def accept (m : Machine) (t : Token) : Machine :=
  { m with invocations := Keyed.erase t.invokeId m.invocations }

/-- The microsteps that process completions in order; those that are not current have none. -/
def completionSteps (m : Machine) : List Completion → List (Machine × Event)
  | [] => []
  | c :: rest =>
    (if Keyed.get? c.token.invokeId m.invocations = some c.token then
      (m.accept c.token).runSteps [c.toEvent] else []) ++
      (m.processCompletion c).machine.completionSteps rest

/-- The name of a predicate that guards need and that is not registered. -/
def missingPredicate? (m : Machine) : Option String :=
  m.chart.predicateNames.find? fun name => !Keyed.contains name m.setup.predicates

/-- Enters the initial configuration, as the first part of a start. -/
def boot (m : Machine) : Attempt :=
  Step.enter ⟨none, m.chart.id, m.chart.id⟩ (Chart.root :: m.chart.initialChain Chart.root)
    ⟨{ m with status := .running }, []⟩

/-- Tells observers that the machine of a chart runs. -/
def announce (m : Machine) (chart : String) : Machine :=
  m.notify (.started chart m.configurationIds)

/-- The microsteps of an operation in order. -/
def microsteps (m : Machine) : Input → List (Machine × Event)
  | .start =>
    if m.status = .uninitialized ∧ m.missingPredicate? = none then
      match m.boot with
      | (s, .ok ()) => (s.machine.announce m.chart.id).runSteps s.raised
      | (_, .error _) => []
    else []
  | .dispatch event =>
    if m.status = .running then
      m.takePending.1.completionSteps m.pending ++
        (m.takePending.1.processAll m.pending).1.runSteps [event]
    else []
  | .processPending =>
    if m.status = .running then m.takePending.1.completionSteps m.pending else []
  | _ => []

/-- A start is refused, or it enters the initial configuration and goes on with what that raises. -/
theorem start_eq (m : Machine) : m.start =
    if m.status = .uninitialized then
      match m.missingPredicate? with
      | some name => (m, .error (.invalidDefinition (.unregisteredPredicate name)))
      | none =>
        match m.boot with
        | (s, .error e) => (s.machine, .error e)
        | (s, .ok ()) =>
          let run := (s.machine.announce m.chart.id).runEvents s.raised
          (run.machine, run.result.map fun _ => ())
    else (m, .error (.lifecycle .start m.status)) := by
  unfold start require
  split
  · next h =>
      split at h
      · cases h
      · next hs =>
          cases h
          rw [if_neg hs]
  · next h =>
      split at h
      · next hs =>
          rw [if_pos hs]
          rfl
      · cases h

/-- An action fails in an operation: in one of its microsteps, while the initial configuration is
entered, or while a machine that stops is left. -/
def ActionFails (m : Machine) (input : Input) : Prop :=
  (∃ p ∈ m.microsteps input, ∃ e, (p.1.microstep p.2).result = .error e ∧ e.isAction = true) ∨
  (input = .start ∧ ∃ e, m.start.2 = .error e ∧ e.isAction = true) ∨
  (input = .stop ∧ ∃ e, m.stop.2 = .error e ∧ e.isAction = true)

end Machine

end Statechart
