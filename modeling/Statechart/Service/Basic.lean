import Statechart.Machine.Basic

/-!
# Services

A service turns the input of an invocation into a job, which takes some time and has an outcome.
-/
namespace Statechart

/-- The longest wait in milliseconds: thirty years of 365 days. A longer one is cut to it. -/
def longestWait : Nat := 30 * 365 * 86400000

/-- What is done for one input: waiting for some milliseconds, then ending with an outcome. -/
structure Job where
  /-- The wait that was asked for. -/
  delay : Nat := 0
  outcome : Outcome

/-- How long a job waits in milliseconds. -/
def Job.wait (j : Job) : Nat := min j.delay longestWait

abbrev Service := Json → Job

/-- The registered services by name. -/
abbrev Services := Keyed Service

namespace Service

/-- Ends at once with its input. -/
def echo : Service := fun input => { outcome := .done input }

/-- The waiting time that an input names: a natural number, or one under the key `ms`. -/
def delayOf? : Json → Option Nat
  | .num n => n.unsigned?
  | .obj members => (Keyed.get? "ms" members).bind Json.nat?
  | _ => none

/-- Waits for the time that the input names, or else for a given time, and ends with its input. -/
def delay (otherwise : Nat) : Service := fun input =>
  { delay := (delayOf? input).getD otherwise, outcome := .done input }

/-- Fails with its input; without one it fails with a message. -/
def fail : Service := fun input =>
  { outcome := if input.isNull then .failure "failed" else .error input }

end Service

/-- The services that every host has. -/
def Services.builtin (defaultDelay : Nat) : Services :=
  Keyed.ofList [("echo", .echo), ("delay", .delay defaultDelay), ("fail", .fail)]

end Statechart
