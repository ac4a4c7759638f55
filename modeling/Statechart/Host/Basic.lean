import Statechart.Broadcast.Basic
import Statechart.Config.Basic
import Statechart.Host.Error
import Statechart.Machine.Operations
import Statechart.Service.Runner

/-!
# Hosts

A host runs instances of charts. Each instance has an actor, which owns its machine and carries
out the commands that it has accepted, in order, between them processing the completions of its
invocations. All actors share one runner for their services and one broadcaster for their
notifications.
-/
namespace Statechart

/-- What a caller asks of an instance. -/
inductive Command where
  | dispatch (event : Event)
  | snapshot
  | stop

inductive Reply where
  | dispatched (result : Except MachineError Machine.DispatchOutcome)
  | snapshot (snapshot : Snapshot)
  | stopped (result : Except MachineError Snapshot)

/-- An accepted command and the call that waits for its reply. -/
structure Request where
  call : Nat
  command : Command

/-- The owner of an instance's machine. -/
structure Actor where
  number : Nat
  instanceId : String
  machine : Machine
  /-- Whether its launch is complete; until then it takes no turns. -/
  live : Bool := false
  /-- The commands that have been accepted and not carried out, oldest first. -/
  inbox : List Request := []
  /-- Whether no more commands can arrive, so that it ends once it has carried out the others. -/
  orphaned : Bool := false

/-- What is known of an instance under its id. -/
structure Registration where
  chart : String
  actor : Nat

structure Host where
  config : Config
  charts : Keyed Chart := []
  predicates : Predicates := []
  runner : Runner
  broadcaster : Broadcaster
  /-- The registered instances by id. -/
  instances : Keyed Registration := []
  /-- The ids of launches in progress. -/
  reserved : List String := []
  /-- The actors that have not ended. -/
  actors : List Actor := []
  /-- The actors of the instances that stops have taken out to await their end. -/
  awaited : List Nat := []
  /-- The replies that their callers have not taken, by call. -/
  replies : List (Nat × Reply) := []
  shuttingDown : Bool := false
  nextActor : Nat := 1
  nextCall : Nat := 1
  /-- What instances have logged, oldest first. -/
  logs : List LogRecord := []

namespace Host

/-- A host without charts. Without anything to run tasks on, it launches nothing. -/
def create (config : Config) (available : Bool) : Host :=
  let config := { config with host := config.host.usable }
  { config
    runner := { services := Services.builtin config.serviceDelay, available }
    broadcaster := { capacity := config.host.notificationCapacity } }

/-- A host, unless its notifications would need a channel that there is not. -/
def create? (config : Config) (available : Bool) : Except HostError Host :=
  if config.host.notificationCapacity < HostLimits.channelLimit then .ok (create config available)
  else .error .overflow

/-- Registers a chart under its id in place of any earlier one. Instances keep the chart with
which they were launched. -/
def registerChart (chart : Chart) (h : Host) : Host :=
  { h with charts := Keyed.insert chart.id chart h.charts }

/-- Registers a predicate for instances that are launched later. -/
def registerPredicate (name : String) (holds : Predicate) (h : Host) : Host :=
  { h with predicates := Keyed.insert name holds h.predicates }

def registerService (name : String) (service : Service) (h : Host) : Host :=
  { h with runner := { h.runner with services := Keyed.insert name service h.runner.services } }

/-- The registered instances with their charts, sorted by id. -/
def list (h : Host) : List (String × String) := h.instances.map fun (id, r) => (id, r.chart)

/-- The log so far, and the host with an empty one. -/
def takeLogs (h : Host) : Host × List LogRecord := ({ h with logs := [] }, h.logs)

def actor? (number : Nat) (h : Host) : Option Actor := h.actors.find? fun a => a.number == number

/-- Replaces an actor by its later state. -/
def update (a : Actor) (h : Host) : Host :=
  { h with actors := h.actors.map fun b => if b.number = a.number then a else b }

/-- Ends an actor; commands that it has not carried out are never answered. -/
def remove (number : Nat) (h : Host) : Host :=
  { h with actors := h.actors.filter fun a => a.number ≠ number }

/-- Gives an actor a turn. -/
def wake (number : Nat) (h : Host) : Host := { h with runner := h.runner.queue (.owner number) }

/-- Adds a completion to the machine that waits for it, if that is still there. -/
def deliver (r : Report) (h : Host) : Host :=
  match h.actor? r.owner with
  | none => h
  | some a => (h.update { a with machine := a.machine.report r.completion }).wake r.owner

/-- Carries out what the machine of an actor has done to the outside. -/
def perform (number : Nat) (instanceId : String) (h : Host) : Effect → Host
  | .logged record => { h with logs := h.logs ++ [record] }
  | .notified n => { h with broadcaster := h.broadcaster.notify ⟨instanceId, n⟩ }
  | .invoked request => { h with runner := h.runner.start number request }
  | .revoked token => { h with runner := h.runner.stop token }

/-- Runs an operation on the machine of an actor and carries out its effects. -/
def operate {α : Type} (operation : Machine → Machine × α) (a : Actor) (h : Host) :
    Host × Actor × α :=
  let setup := { a.machine.setup with answer := h.runner.refusal }
  let (m, result) := operation { a.machine with setup }
  let (m, effects) := m.takeTrace
  let a := { a with machine := m }
  (effects.foldl (perform a.number a.instanceId) (h.update a), a, result)

end Host

end Statechart
