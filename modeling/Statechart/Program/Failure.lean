import Statechart.Config.Environment
import Statechart.Host.Error

/-!
# Failures of programs

What keeps a program from doing what it was asked for.
-/
namespace Statechart

inductive Failure where
  | unreadable (path : String)
  /-- A text that is not JSON or does not have the shape that is asked for. -/
  | malformed
  | machine (cause : MachineError)
  | host (cause : HostError)
  | config (cause : ConfigError)
  | noDefinition
  deriving DecidableEq

def Failure.message : Failure → String
  | unreadable path => "cannot read file '" ++ path ++ "'"
  | malformed => "not the JSON text that is expected here"
  | machine cause => cause.message
  | host cause => cause.message
  | config cause => cause.message
  | noDefinition => "no chart definition configured"

/-- The status of a program that ends with the failure. An overflow is not foreseen. -/
def Failure.status : Failure → Nat
  | host .overflow => 101
  | _ => 1

/-- A line that a program shows: a text of its own or a report of a failure. -/
inductive Shown where
  | text (s : String)
  | failure (cause : Failure)

def Shown.line : Shown → String
  | text s => s
  | failure cause => "Error: " ++ cause.message

end Statechart
