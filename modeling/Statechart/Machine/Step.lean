import Statechart.Machine.Basic

/-!
# Steps of a machine

A step takes one transition: it exits states, runs actions and enters states, in that order. When
an action fails, what was done before it stays done.
-/
namespace Statechart

/-- A machine inside a step, with the events raised so far. -/
structure Step where
  machine : Machine
  raised : List Event := []

/-- A step that has succeeded or failed, with what it has done either way. -/
abbrev Attempt := Step × Except MachineError Unit

namespace Attempt

/-- Goes on with a step that has not failed. -/
def andThen (a : Attempt) (next : Step → Attempt) : Attempt :=
  match a.2 with
  | .ok () => next a.1
  | .error _ => a

end Attempt

namespace Step

/-- What a step is taken for: the event, and the states that messages name. -/
structure Cause where
  event : Option Event
  source : String
  target : String

def update (s : Step) (f : Machine → Machine) : Step := { s with machine := f s.machine }

def notify (s : Step) (n : Notification) : Step := s.update (·.notify n)

/-- Runs actions up to the first that fails. -/
def runActions (cause : Cause) (actions : List Action) (s : Step) : Attempt :=
  let m := s.machine
  let (scope, failed) := Action.applyAll m.chart.id m.settings.raisePolicy cause.event actions
    ⟨m.context, s.raised, []⟩
  let next : Step :=
    ⟨{ m with context := scope.context, trace := m.trace ++ scope.logs.map Effect.logged },
      scope.raised⟩
  match failed with
  | none => (next, .ok ())
  | some (action, reason) =>
    (next, .error (.actionExecution action.describe cause.source cause.target reason))

end Step

namespace Machine

/-- Starts the invocation of a state with a new token. An input that cannot be resolved fails the
invocation. -/
def startInvocation (m : Machine) (i : Nat) : Machine :=
  match (m.chart.state i).invoke with
  | none => m
  | some invocation =>
    let token : Token := ⟨invocation.id, m.generation + 1⟩
    let m := { m with
      generation := m.generation + 1
      invocations := Keyed.insert invocation.id token m.invocations }
    let input := match invocation.input with
      | some provider => provider.resolve m.context none
      | none => .ok .null
    match input with
    | .ok input =>
      let request : InvokeRequest := ⟨token, m.chart.id, invocation.src, input⟩
      let m := m.record (.invoked request)
      match m.setup.answer request with
      | some outcome => m.report ⟨token, outcome⟩
      | none => m
    | .error e => m.report ⟨token, .failure e.message⟩

def startInvocations (m : Machine) (states : List Nat) : Machine :=
  states.foldl startInvocation m

/-- Stops the invocation of a state if it has not ended. -/
def stopInvocation (m : Machine) (i : Nat) : Machine :=
  match (m.chart.state i).invoke with
  | none => m
  | some invocation =>
    match Keyed.get? invocation.id m.invocations with
    | none => m
    | some token =>
      { m with invocations := Keyed.erase invocation.id m.invocations }.record (.revoked token)

/-- Stops the invocation of the innermost active state and deactivates it. -/
def leave (m : Machine) (i : Nat) : Machine :=
  let m := m.stopInvocation i
  { m with configuration := m.configuration.dropLast }.notify
    (.exited m.chart.id (m.chart.state i).id)

/-- Activates a state below the active ones. -/
def activate (m : Machine) (i : Nat) : Machine :=
  { m with configuration := m.configuration ++ [i] }.notify
    (.entered m.chart.id (m.chart.state i).id)

end Machine

namespace Step

/-- Exits the innermost active state. It stays active when its exit actions fail. -/
def exitInnermost (cause : Cause) (s : Step) : Attempt :=
  match s.machine.leaf? with
  | none => (s, .ok ())
  | some i =>
    (s.runActions cause (s.machine.chart.state i).exit).andThen fun s =>
      (s.update (·.leave i), .ok ())

/-- Exits a number of states, innermost first. -/
def exitMany (cause : Cause) : Nat → Step → Attempt
  | 0, s => (s, .ok ())
  | n + 1, s => (s.exitInnermost cause).andThen (exitMany cause n)

/-- Activates states and runs their entry actions, outermost first. Returns the states that have
been activated, the one whose entry failed included. -/
def activateAll (cause : Cause) : List Nat → Step → Attempt × List Nat
  | [], s => ((s, .ok ()), [])
  | i :: rest, s =>
    let s := s.update (·.activate i)
    match s.runActions cause (s.machine.chart.state i).entry with
    | (s, .error e) => ((s, .error e), [i])
    | (s, .ok ()) =>
      let (attempt, activated) := activateAll cause rest s
      (attempt, i :: activated)

/-- Enters states, then starts the invocations of those that were activated. -/
def enter (cause : Cause) (states : List Nat) (s : Step) : Attempt :=
  let ((s, result), activated) := activateAll cause states s
  (s.update (·.startInvocations activated), result)

/-- Takes a transition for an event. Only the states below the transition's domain are exited
and entered. -/
def execute (t : Transition) (event : Event) (s : Step) : Attempt :=
  let chart := s.machine.chart
  let source := (chart.state t.source).id
  match t.target with
  | none =>
    (s.runActions ⟨some event, source, source⟩ t.actions).andThen fun s =>
      (s.notify (.transitioned chart.id event.name source none), .ok ())
  | some target =>
    let targetId := (chart.state target).id
    let cause : Cause := ⟨some event, source, targetId⟩
    let keep := match chart.transitionDomain t.source target with
      | some domain => (chart.state domain).depth + 1
      | none => 0
    let entering := (chart.pathTo target).drop keep ++ chart.initialChain target
    ((((s.exitMany cause (s.machine.configuration.length - keep)).andThen
      (runActions cause t.actions)).andThen
      (enter cause entering)).andThen fun s =>
        (s.notify (.transitioned chart.id event.name source (some targetId)), .ok ()))

end Step

namespace Machine

/-- The transitions that active states have for an event, innermost state first. -/
def candidates (m : Machine) (event : Event) : List Transition :=
  m.configuration.reverse.flatMap fun i => (m.chart.state i).transitionsFor event.name

/-- The first transition whose guard passes. A guard that fails is taken as false and noted, or
ends the selection. -/
def choose (m : Machine) (event : Event) :
    List Transition → Except MachineError (Option Transition) × List Diagnostic
  | [] => (.ok none, [])
  | t :: rest =>
    match Guard.passes m.setup.predicates m.context (some event) t.guard with
    | .ok true => (.ok (some t), [])
    | .ok false => m.choose event rest
    | .error reason =>
      let guard := (t.guard.map Guard.describe).getD ""
      let error : MachineError :=
        .guardEvaluation guard (m.chart.state t.source).id event.name reason
      match m.settings.guardErrors with
      | .fail => (.error error, [])
      | .skip =>
        let (result, diagnostics) := m.choose event rest
        (result, .ofError event.name error :: diagnostics)

def select (m : Machine) (event : Event) :
    Except MachineError (Option Transition) × List Diagnostic :=
  m.choose event (m.candidates event)

/-- What a run leaves behind, whether it has succeeded or not. -/
structure Run (α : Type) where
  machine : Machine
  diagnostics : List Diagnostic
  result : Except MachineError α

/-- Processes one event. Tells whether a transition was taken, and returns the events raised. -/
def microstep (m : Machine) (event : Event) : Run (Bool × List Event) :=
  match m.select event with
  | (.error e, diagnostics) => ⟨m, diagnostics, .error e⟩
  | (.ok none, diagnostics) => ⟨m, diagnostics, .ok (false, [])⟩
  | (.ok (some t), diagnostics) =>
    match Step.execute t event ⟨m, []⟩ with
    | (s, .ok ()) => ⟨s.machine, diagnostics, .ok (true, s.raised)⟩
    | (s, .error e) => ⟨s.machine, diagnostics, .error e⟩

/-- Processes queued events and those they raise, in order of arrival, as long as the budget
lasts. Returns whether each of them was handled. -/
def drain (m : Machine) : Nat → List Event → Run (List Bool)
  | _, [] => ⟨m, [], .ok []⟩
  | 0, _ :: _ => ⟨m, [], .error (.microstepLimit m.settings.maxMicrosteps)⟩
  | budget + 1, event :: queue =>
    match m.microstep event with
    | ⟨m, diagnostics, .error e⟩ => ⟨m, diagnostics, .error e⟩
    | ⟨m, diagnostics, .ok (handled, raised)⟩ =>
      let rest := m.drain budget (queue ++ raised)
      ⟨rest.machine, diagnostics ++ rest.diagnostics, rest.result.map (handled :: ·)⟩

/-- Processes events up to the limit of one run. -/
def runEvents (m : Machine) (queue : List Event) : Run (List Bool) :=
  m.drain m.settings.maxMicrosteps queue

/-- Processes an event and everything it raises, then tells observers. Returns whether the event
itself was handled and how many events were processed. -/
def runToCompletion (m : Machine) (event : Event) : Run (Bool × Nat) :=
  match m.runEvents [event] with
  | ⟨m, diagnostics, .error e⟩ => ⟨m, diagnostics, .error e⟩
  | ⟨m, diagnostics, .ok processed⟩ =>
    let handled := processed.headD false
    let note : Notification :=
      .dispatched m.chart.id event.name handled m.configurationIds m.context.toJson
    ⟨m.notify note, diagnostics, .ok (handled, processed.length)⟩

end Machine

end Statechart
