import Statechart.Chart.Basic

/-!
# Outlines of charts

An outline shows the tree of states, indented by depth, each state with its actions and its
transitions in order of priority. Below it stand the events and the predicates that occur.
-/
namespace Statechart.Chart

/-- The actions with commas between them. -/
def actionList (actions : List Action) : String := ", ".intercalate (actions.map Action.describe)

/-- The line of a transition: where it goes, when, and what it does. -/
def transitionLine (c : Chart) (event : String) (t : Transition) : String :=
  let target := (t.target.map fun i => (c.state i).id).getD "(internal)"
  let guard := (t.guard.map fun g => " if " ++ g.describe).getD ""
  let actions := if t.actions.isEmpty then "" else " / " ++ actionList t.actions
  event ++ " -> " ++ target ++ guard ++ actions

/-- Whether a state is the one in which its parent begins. -/
def isInitial (c : Chart) (i : Nat) : Bool :=
  match (c.state i).parent with
  | some p => (c.state p).initial == some i
  | none => false

/-- The line that names a state. -/
def headline (c : Chart) (i : Nat) : String :=
  let s := c.state i
  let initial := if c.isInitial i then " (initial)" else ""
  let invoke := (s.invoke.map fun v => " invokes " ++ v.src ++ " as " ++ v.id).getD ""
  s.id ++ initial ++ invoke

/-- The lines below the name of a state. -/
def detailLines (c : Chart) (i : Nat) : List String :=
  let s := c.state i
  let actionLine (label : String) (actions : List Action) : List String :=
    if actions.isEmpty then [] else [label ++ actionList actions]
  actionLine "entry: " s.entry ++ actionLine "exit: " s.exit ++
    s.transitions.flatMap fun (event, transitions) => transitions.map (c.transitionLine event)

/-- The lines of one state at its depth. -/
def stateLines (c : Chart) (i : Nat) : List String :=
  let indent := String.ofList (List.replicate (2 * (c.state i).depth) ' ')
  (indent ++ c.headline i) :: (c.detailLines i).map fun line => indent ++ "  " ++ line

/-- The names with commas between them. -/
def nameList (names : List String) : String :=
  if names.isEmpty then "(none)" else ", ".intercalate names

/-- The chart in numbers. -/
def synopsis (c : Chart) : String :=
  c.id ++ " (" ++ toString c.size ++ " states, checksum: " ++ c.checksum ++ ")"

/-- The states stand in the order of the arena, in which every state is followed by what it
contains. -/
def outline (c : Chart) : String :=
  "\n".intercalate (("Chart " ++ c.synopsis) :: (List.range c.size).flatMap c.stateLines ++
    ["", "Events: " ++ nameList c.events, "Predicates: " ++ nameList c.predicateNames])

end Statechart.Chart
