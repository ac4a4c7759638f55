import Statechart.Machine.Error

/-!
# Failures of hosts

Only a caller who has not been answered in time may try the same again.
-/
namespace Statechart

inductive HostError where
  | machine (cause : MachineError)
  | chartNotFound (id : String)
  | instanceNotFound (id : String)
  | instanceExists (id : String)
  | timeout (id : String)
  | shuttingDown
  /-- There is nothing that could run an instance. -/
  | unavailable
  /-- There is nothing with the capacity that is asked for. -/
  | overflow
  deriving DecidableEq

namespace HostError

def isRetryable : HostError → Bool
  | timeout _ => true
  | _ => false

def code : HostError → String
  | machine cause => cause.code
  | chartNotFound _ => "CHART_NOT_FOUND"
  | instanceNotFound _ => "INSTANCE_NOT_FOUND"
  | instanceExists _ => "INSTANCE_EXISTS"
  | timeout _ => "TIMEOUT"
  | shuttingDown => "SHUTTING_DOWN"
  | unavailable | overflow => "INTERNAL_ERROR"

def message : HostError → String
  | machine cause => "core error: " ++ cause.message
  | chartNotFound id => "chart not found: " ++ id
  | instanceNotFound id => "instance not found: " ++ id
  | instanceExists id => "instance already exists: " ++ id
  | timeout id => "instance " ++ id ++ " did not answer in time"
  | shuttingDown => "host shutting down"
  | unavailable => "no tokio runtime to run the instance on"
  | overflow => "capacity overflow"

end HostError

end Statechart
