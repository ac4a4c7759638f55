import Statechart.Chart.Basic
import Statechart.Machine.Error
import Statechart.Machine.Notification

/-!
# Machines

A machine is a chart in the course of a run: its configuration is the path of active states, root
first. Everything that it does to the outside is an entry of its trace, oldest first.
-/
namespace Statechart

/-- What to do when a guard cannot be evaluated: take it as false, or fail. -/
inductive GuardErrorPolicy where
  | skip
  | fail
  deriving DecidableEq

def GuardErrorPolicy.names : List (String × GuardErrorPolicy) := [("skip", .skip), ("fail", .fail)]

def GuardErrorPolicy.name : GuardErrorPolicy → String
  | skip => "skip"
  | fail => "fail"

structure Settings where
  guardErrors : GuardErrorPolicy := .skip
  raisePolicy : RaisePolicy := .queue
  /-- The most events that one run processes, raised ones included. -/
  maxMicrosteps : Nat := 1000
  deriving DecidableEq

namespace Settings

def toJson (s : Settings) : Json :=
  .obj [("guard_errors", .str s.guardErrors.name), ("max_microsteps", .ofNat s.maxMicrosteps),
    ("raise_policy", .str s.raisePolicy.name)]

def fieldNames : List String := ["guard_errors", "raise_policy", "max_microsteps"]

/-- Every field has a default; members of other names are ignored. -/
def decode : Json → Decoded Settings := Decode.record fieldNames fun members => do
  let guardErrors ←
    Decode.fieldOr "guard_errors" .skip (Decode.oneOf GuardErrorPolicy.names) members
  let raisePolicy ← Decode.fieldOr "raise_policy" .queue (Decode.oneOf RaisePolicy.names) members
  let maxMicrosteps ← Decode.fieldOr "max_microsteps" 1000 Decode.nat members
  return { guardErrors, raisePolicy, maxMicrosteps }

end Settings

/-- Names one start of an invocation. -/
structure Token where
  invokeId : String
  generation : Nat
  deriving DecidableEq

def Token.text (t : Token) : String := t.invokeId ++ "#" ++ toString t.generation

/-- A call of a service for an invocation. -/
structure InvokeRequest where
  token : Token
  machine : String
  src : String
  input : Json

inductive Outcome where
  | done (result : Json)
  | error (error : Json)

def Outcome.toJson : Outcome → Json
  | done result => .obj [("done", result)]
  | error e => .obj [("error", e)]

/-- A failure that is told as a message. -/
def Outcome.failure (message : String) : Outcome := .error (.obj [("message", .str message)])

/-- A report that an invocation has ended. -/
structure Completion where
  token : Token
  outcome : Outcome

def Completion.toEvent (c : Completion) : Event :=
  match c.outcome with
  | .done result => .done c.token.invokeId result
  | .error error => .failed c.token.invokeId error

/-- What a machine does to the outside. -/
inductive Effect where
  | logged (record : LogRecord)
  | notified (notification : Notification)
  | invoked (request : InvokeRequest)
  | revoked (token : Token)

/-- A contained problem met while an event was processed. -/
structure Diagnostic where
  event : String
  code : String
  message : String

def Diagnostic.toJson (d : Diagnostic) : Json :=
  .obj [("code", .str d.code), ("event", .str d.event), ("message", .str d.message)]

def Diagnostic.ofError (event : String) (e : MachineError) : Diagnostic :=
  ⟨event, e.code, e.message⟩

/-- What a machine is given by its host. -/
structure Setup where
  settings : Settings := {}
  predicates : Predicates := []
  /-- The outcome of a request that is known at once. -/
  answer : InvokeRequest → Option Outcome := fun _ => none

structure Machine where
  chart : Chart
  setup : Setup
  context : Context
  status : Status := .uninitialized
  /-- The active states, root first. -/
  configuration : List Nat := []
  /-- The current token of each invocation. -/
  invocations : Keyed Token := []
  generation : Nat := 0
  /-- Reports that have not been processed, oldest first. -/
  pending : List Completion := []
  /-- Whether a report has arrived since the signal was last taken. -/
  signalled : Bool := false
  trace : Array Effect := #[]

namespace Machine

/-- A machine that has not been started, with the given data put over the chart's defaults. -/
def create (chart : Chart) (initial : Json) (setup : Setup) : Except MachineError Machine :=
  match Context.merged chart.defaultContext initial with
  | .ok context => .ok { chart, setup, context }
  | .error found => .error (.ofContext found)

def settings (m : Machine) : Settings := m.setup.settings

/-- The ids of the active states, root first. -/
def configurationIds (m : Machine) : List String :=
  m.configuration.map fun i => (m.chart.state i).id

/-- The innermost active state. -/
def leaf? (m : Machine) : Option Nat := m.configuration.getLast?

def activeLeaf? (m : Machine) : Option String := m.leaf?.map fun i => (m.chart.state i).id

def isActive (m : Machine) (id : String) : Bool :=
  match m.chart.lookup id with
  | some i => m.configuration.contains i
  | none => false

/-- The event names that active states have transitions for, sorted. -/
def enabledEvents (m : Machine) : List String :=
  Keyed.sortedKeys (m.configuration.flatMap fun i => Keyed.keys (m.chart.state i).transitions)

def record (m : Machine) (e : Effect) : Machine := { m with trace := m.trace.push e }

def notify (m : Machine) (n : Notification) : Machine := m.record (.notified n)

/-- Queues a report and raises the signal. -/
def report (m : Machine) (c : Completion) : Machine :=
  { m with pending := m.pending ++ [c], signalled := true }

/-- The machine with an empty trace, and the trace it had. -/
def takeTrace (m : Machine) : Machine × List Effect := ({ m with trace := #[] }, m.trace.toList)

end Machine

end Statechart
