/-!
# Faults of definitions

Each constructor is one rule that a definition breaks.
-/
namespace Statechart

inductive ChartError where
  | emptyChartId
  | contextNotObject
  | emptyStateId
  | duplicateState (id : String)
  | unknownField (state key : String)
  | noInitial (state : String)
  | initialOfLeaf (state initial : String)
  | initialNotChild (state initial : String)
  | emptyEvent (state : String)
  | unknownTarget (event source target : String)
  | emptySource (state : String)
  | duplicateInvoke (id : String)
  deriving DecidableEq

def ChartError.reason : ChartError → String
  | emptyChartId => "chart id must not be empty"
  | contextNotObject => "chart context must be a JSON object"
  | emptyStateId => "state id must not be empty"
  | duplicateState id => "duplicate state id '" ++ id ++ "'"
  | unknownField state key => "state '" ++ state ++ "' has unknown field '" ++ key ++ "'"
  | noInitial state => "composite state '" ++ state ++ "' has no initial child"
  | initialOfLeaf state initial =>
    "leaf state '" ++ state ++ "' declares initial '" ++ initial ++ "'"
  | initialNotChild state initial =>
    "initial '" ++ initial ++ "' of state '" ++ state ++ "' is not one of its children"
  | emptyEvent state =>
    "state '" ++ state ++ "' declares a transition on an empty event name"
  | unknownTarget event source target =>
    "transition '" ++ event ++ "' from '" ++ source ++ "' targets unknown state '" ++ target ++ "'"
  | emptySource state => "invoke in state '" ++ state ++ "' has an empty src"
  | duplicateInvoke id => "duplicate invoke id '" ++ id ++ "'"

end Statechart
