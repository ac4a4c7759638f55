import Statechart.Definition.Decode
import Statechart.Chart.Error

/-!
# Failures of machines

A contained failure leaves the machine running; every other one is refused before anything has
changed.
-/
namespace Statechart

inductive Status where
  | uninitialized
  | running
  | stopped
  deriving DecidableEq

def Status.name : Status → String
  | uninitialized => "uninitialized"
  | running => "running"
  | stopped => "stopped"

def Status.names : List (String × Status) :=
  [("uninitialized", .uninitialized), ("running", .running), ("stopped", .stopped)]

/-- The operations that need a machine to be in a given status. -/
inductive Operation where
  | start
  | dispatch
  | stop
  | restore
  deriving DecidableEq

def Operation.name : Operation → String
  | start => "start"
  | dispatch => "dispatch"
  | stop => "stop"
  | restore => "restore"

/-- Why a definition, a context or a snapshot is not accepted. -/
inductive DefinitionFault where
  | chart (fault : ChartError)
  | contextKind (found : String)
  | unregisteredPredicate (name : String)
  | foreignSnapshot (snapshot chart : String)
  | unknownActiveState (id : String)
  | noActiveState
  deriving DecidableEq

def DefinitionFault.reason : DefinitionFault → String
  | chart fault => fault.reason
  | contextKind found => "context must be a JSON object, got " ++ found
  | unregisteredPredicate name => "guard predicate '" ++ name ++ "' is not registered"
  | foreignSnapshot theirs ours =>
    "snapshot is for chart '" ++ theirs ++ "', not '" ++ ours ++ "'"
  | unknownActiveState id => "snapshot state '" ++ id ++ "' not in chart"
  | noActiveState => "running snapshot without an active state"

inductive MachineError where
  | guardEvaluation (guard state event : String) (reason : ResolutionError)
  | actionExecution (action source target : String) (reason : ActionFailure)
  | invalidDefinition (fault : DefinitionFault)
  | invalidExpression (cause : Expr.ReadError)
  | lifecycle (operation : Operation) (status : Status)
  | microstepLimit (limit : Nat)
  | checksumMismatch (expected actual : String)
  | malformed (cause : DecodeError)
  deriving DecidableEq

namespace MachineError

/-- Whether the machine goes on running. -/
def isContained : MachineError → Bool
  | guardEvaluation .. | actionExecution .. | microstepLimit _ => true
  | _ => false

def code : MachineError → String
  | guardEvaluation .. => "GUARD_EVALUATION_ERROR"
  | actionExecution .. => "ACTION_EXECUTION_ERROR"
  | invalidDefinition _ | invalidExpression _ => "INVALID_DEFINITION"
  | lifecycle .. => "LIFECYCLE_ERROR"
  | microstepLimit _ => "MICROSTEP_LIMIT"
  | checksumMismatch .. => "CONFLICT"
  | malformed _ => "BAD_REQUEST"

def message : MachineError → String
  | guardEvaluation guard state event reason =>
    "guard '" ++ guard ++ "' on '" ++ event ++ "' in state '" ++ state ++ "' failed: " ++
      reason.message
  | actionExecution action source target reason =>
    "action '" ++ action ++ "' failed (" ++ source ++ " -> " ++ target ++ "): " ++ reason.message
  | invalidDefinition fault => "invalid chart definition: " ++ fault.reason
  | invalidExpression cause => "invalid expression: " ++ cause.message
  | lifecycle operation status =>
    "cannot " ++ operation.name ++ " an interpreter that is " ++ status.name
  | microstepLimit limit =>
    s!"more than {limit} events processed in one run; raised events discarded"
  | checksumMismatch expected actual =>
    "snapshot checksum mismatch: chart is " ++ expected ++ ", snapshot has " ++ actual
  | malformed .shape => "JSON error"
  | malformed (.expression cause) => "JSON error: invalid expression: " ++ cause.message

/-- A context that is not an object. -/
def ofContext (found : Json) : MachineError := invalidDefinition (.contextKind found.kind)

end MachineError

end Statechart
