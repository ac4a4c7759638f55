import Statechart.Bench.Observers
import Statechart.Machine.Operations
import Statechart.Service.Runner

/-!
# Benches

On a bench, a single machine runs without a host. Its invocations are ignored, kept to be
completed by hand, or carried out by a runner, and what it does is recorded.
-/
namespace Statechart

/-- How the invocations of a machine are carried out. -/
inductive Attendance where
  /-- Nothing is started, so that invocations never end. -/
  | ignored
  /-- Requests are kept and completed by hand. -/
  | manual
  | services
  deriving DecidableEq

/-- What has happened, oldest first. -/
structure Record where
  logs : List LogRecord := []
  /-- The notifications, each for the observer who has been told. -/
  notes : List (String × Notification) := []
  started : List InvokeRequest := []
  stopped : List Token := []

structure Bench where
  machine : Machine
  attendance : Attendance
  runner : Runner
  observers : Observers String := {}
  /-- Counts the machines that have been on the bench before. -/
  serial : Nat := 0
  /-- All requests that have been kept, with the machines that made them, oldest first. -/
  requests : List (Nat × InvokeRequest) := []
  /-- What has happened since the record was last taken. -/
  record : Record := {}

namespace Bench

/-- The requests that are answered at once. -/
def answers (attendance : Attendance) (runner : Runner) : InvokeRequest → Option Outcome :=
  if attendance = .services then runner.refusal else fun _ => none

/-- Puts a new machine in place of the one on the bench. -/
def replace (machine : Machine) (attendance : Attendance) (b : Bench) : Bench :=
  { b with machine, attendance, observers := {}, serial := b.serial + 1 }

def start (request : InvokeRequest) (b : Bench) : Bench :=
  match b.attendance with
  | .ignored => b
  | .manual =>
    { b with
      requests := b.requests ++ [(b.serial, request)],
      record := { b.record with started := b.record.started ++ [request] } }
  | .services => { b with runner := b.runner.start b.serial request }

def stop (token : Token) (b : Bench) : Bench :=
  match b.attendance with
  | .ignored => b
  | .manual => { b with record := { b.record with stopped := b.record.stopped ++ [token] } }
  | .services => { b with runner := b.runner.stop token }

/-- Carries out what the machine has done to the outside. -/
def perform (b : Bench) : Effect → Bench
  | .logged entry => { b with record := { b.record with logs := b.record.logs ++ [entry] } }
  | .notified n =>
    let told := b.observers.toList.map fun observer => (observer, n)
    { b with record := { b.record with notes := b.record.notes ++ told } }
  | .invoked request => b.start request
  | .revoked token => b.stop token

/-- Runs an operation on the machine and carries out its effects. -/
def operate {α : Type} (operation : Machine → Machine × α) (b : Bench) : Bench × α :=
  let (m, result) := operation b.machine
  let (m, effects) := m.takeTrace
  (effects.foldl perform { b with machine := m }, result)

/-- The token of the latest request for an invocation. -/
def latest? (invokeId : String) (b : Bench) : Option Token :=
  (b.requests.reverse.find? fun (_, r) => r.token.invokeId = invokeId).map (·.2.token)

/-- Reports an outcome for the latest request with a token, even if it has been stopped. Tells
whether the machine that made it is there to hear it. -/
def complete (token : Token) (outcome : Outcome) (b : Bench) : Bench × Bool :=
  match b.requests.reverse.find? fun (_, r) => r.token = token with
  | some (serial, _) =>
    if serial = b.serial then ({ b with machine := b.machine.report ⟨token, outcome⟩ }, true)
    else (b, false)
  | none => (b, false)

/-- Runs the tasks of the runner until they wait, and delivers their reports. -/
def runTasks (b : Bench) : Bench :=
  let (runner, reports) := b.runner.runTurns
  let own := reports.filter fun r => r.owner = b.serial
  { b with runner, machine := own.foldl (fun m r => m.report r.completion) b.machine }

/-- The bench with an empty record, and the record it had. -/
def takeRecord (b : Bench) : Bench × Record := ({ b with record := {} }, b.record)

end Bench

end Statechart
