import Statechart.Machine.Step
import Statechart.Machine.Snapshot

/-!
# Operations on a machine

Starting, dispatching, processing reports, stopping and restoring. Each returns the machine as it
is afterwards together with a result.
-/
namespace Statechart.Machine

/-- What a dispatch has done. -/
structure DispatchOutcome where
  event : String
  handled : Bool
  /-- The active states afterwards, root first. -/
  configuration : List String
  /-- The number of events processed, those of reports included. -/
  processed : Nat
  diagnostics : List Diagnostic

/-- The diagnostics are left out when there are none. -/
def DispatchOutcome.toJson (o : DispatchOutcome) : Json :=
  .obj ([("configuration", .strings o.configuration)] ++
    (if o.diagnostics.isEmpty then []
      else [("diagnostics", .arr (o.diagnostics.map Diagnostic.toJson))]) ++
    [("event", .str o.event), ("handled", .bool o.handled), ("processed", .ofNat o.processed)])

/-- Refuses an operation in any other status. -/
def require (m : Machine) (status : Status) (operation : Operation) : Except MachineError Unit :=
  if m.status = status then .ok () else .error (.lifecycle operation m.status)

/-- The machine without its reports, and the reports. -/
def takePending (m : Machine) : Machine × List Completion := ({ m with pending := [] }, m.pending)

/-- Enters the initial configuration and processes the events raised on the way. -/
def start (m : Machine) : Machine × Except MachineError Unit :=
  match m.require .uninitialized .start with
  | .error e => (m, .error e)
  | .ok () =>
    match m.chart.predicateNames.find? fun name => !Keyed.contains name m.setup.predicates with
    | some name => (m, .error (.invalidDefinition (.unregisteredPredicate name)))
    | none =>
      let m := { m with status := .running }
      let chart := m.chart
      match Step.enter ⟨none, chart.id, chart.id⟩ (Chart.root :: chart.initialChain Chart.root)
          ⟨m, []⟩ with
      | (s, .error e) => (s.machine, .error e)
      | (s, .ok ()) =>
        let m := s.machine.notify (.started chart.id s.machine.configurationIds)
        let run := m.runEvents s.raised
        (run.machine, run.result.map fun _ => ())

/-- Processes a report unless its token is not the current one of its invocation. Returns the
number of events processed. -/
def processCompletion (m : Machine) (c : Completion) : Run Nat :=
  if Keyed.get? c.token.invokeId m.invocations = some c.token then
    let run := { m with invocations := Keyed.erase c.token.invokeId m.invocations }.runToCompletion
      c.toEvent
    ⟨run.machine, run.diagnostics, run.result.map (·.2)⟩
  else
    ⟨m, [], .ok 0⟩

/-- Processes reports in order, going on after one that fails. Returns a result for each. -/
def processAll (m : Machine) :
    List Completion → Machine × List (Completion × List Diagnostic × Except MachineError Nat)
  | [] => (m, [])
  | c :: rest =>
    let run := m.processCompletion c
    let (m, results) := run.machine.processAll rest
    (m, (c, run.diagnostics, run.result) :: results)

/-- The diagnostics of a processed report, with its failure as the last of them. -/
def reportDiagnostics (c : Completion) (diagnostics : List Diagnostic) :
    Except MachineError Nat → List Diagnostic
  | .ok _ => diagnostics
  | .error e => diagnostics ++ [.ofError c.toEvent.name e]

/-- The number of events that reports have led to, the failed ones left out. -/
def processedCount : List (Except MachineError Nat) → Nat
  | [] => 0
  | .ok n :: rest => n + processedCount rest
  | .error _ :: rest => processedCount rest

/-- Processes the reports that have arrived, then the event and everything it raises. A failing
report is noted in the diagnostics. -/
def dispatch (m : Machine) (event : Event) : Machine × Except MachineError DispatchOutcome :=
  match m.require .running .dispatch with
  | .error e => (m, .error e)
  | .ok () =>
    let (m, completions) := m.takePending
    let (m, results) := m.processAll completions
    let before := results.flatMap fun (c, diagnostics, result) =>
      reportDiagnostics c diagnostics result
    let count := processedCount (results.map (·.2.2))
    match m.runToCompletion event with
    | ⟨m, _, .error e⟩ => (m, .error e)
    | ⟨m, diagnostics, .ok (handled, processed)⟩ =>
      (m, .ok {
        event := event.name
        handled
        configuration := m.configurationIds
        processed := count + processed
        diagnostics := before ++ diagnostics })

/-- The first failure among results. -/
def firstError? (results : List (Except MachineError Nat)) : Option MachineError :=
  results.findSome? fun
    | .error e => some e
    | .ok _ => none

/-- Processes the reports that have arrived and returns how many had an effect, or the first
failure. They are dropped when the machine is not running. -/
def processPending (m : Machine) : Machine × Except MachineError Nat :=
  let (m, completions) := m.takePending
  if m.status = .running then
    let (m, processed) := m.processAll completions
    let results := processed.map (·.2.2)
    match firstError? results with
    | some e => (m, .error e)
    | none => (m, .ok (results.countP fun r => r.toOption.getD 0 != 0))
  else
    (m, .ok 0)

/-- Exits a number of states, innermost first, going on when exit actions fail. Returns the first
failure. -/
def exitAll : Nat → Step → Step × Option MachineError
  | 0, s => (s, none)
  | n + 1, s =>
    match s.machine.leaf? with
    | none => (s, none)
    | some i =>
      let state := s.machine.chart.state i
      let (s, result) := s.runActions ⟨none, state.id, "(stopped)"⟩ state.exit
      let (s, later) := exitAll n (s.update (·.leave i))
      match result with
      | .error e => (s, some e)
      | .ok () => (s, later)

/-- Stops invocations whatever states they belong to. -/
def revokeAll (m : Machine) : Machine :=
  let tokens := m.invocations.map (·.2)
  { m with
    invocations := []
    trace := m.trace ++ tokens.map Effect.revoked }

/-- Exits every active state and stops. Failures of exit actions do not keep the machine from
stopping; the first of them is returned. -/
def stop (m : Machine) : Machine × Except MachineError Unit :=
  match m.require .running .stop with
  | .error e => (m, .error e)
  | .ok () =>
    let (s, failed) := exitAll m.configuration.length ⟨m, []⟩
    let m := s.machine.revokeAll
    let m := { m with pending := [], status := .stopped }.notify (.stopped m.chart.id)
    match failed with
    | some e => (m, .error e)
    | none => (m, .ok ())

/-- The configuration that a snapshot describes. -/
def snapshotConfiguration (chart : Chart) (s : Snapshot) : Except MachineError (List Nat) :=
  match s.status, s.active with
  | .running, some id =>
    match chart.lookup id with
    | some i => .ok (chart.pathTo i)
    | none => .error (.invalidDefinition (.unknownActiveState id))
  | .running, none => .error (.invalidDefinition .noActiveState)
  | _, _ => .ok []

/-- Takes over the state of a snapshot. No entry action runs; the invocations of the active states
are started again. -/
def restore (m : Machine) (s : Snapshot) : Machine × Except MachineError Unit :=
  let checked : Except MachineError (List Nat × Context) := do
    m.require .uninitialized .restore
    if s.chart ≠ m.chart.id then
      throw (.invalidDefinition (.foreignSnapshot s.chart m.chart.id))
    if s.checksum ≠ m.chart.checksum then
      throw (.checksumMismatch m.chart.checksum s.checksum)
    let configuration ← snapshotConfiguration m.chart s
    let context ← (Context.ofJson s.context).mapError .ofContext
    return (configuration, context)
  match checked with
  | .error e => (m, .error e)
  | .ok (configuration, context) =>
    let m := { m with configuration, context, status := s.status }
    if s.status = .running then
      let m := m.startInvocations configuration
      (m.notify (.started m.chart.id m.configurationIds), .ok ())
    else
      (m, .ok ())

end Statechart.Machine
