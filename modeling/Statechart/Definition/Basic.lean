import Statechart.Guard
import Statechart.Action
import Statechart.Checksum

/-!
# Definitions

A definition is a tree of states with a chart's id, its default context and metadata. Its
canonical text lists the fields in a fixed order and leaves out what is empty or absent.
-/
namespace Statechart

/-- A transition as it is written; without a target it only runs actions. -/
structure TransitionDef where
  target : Option String := none
  guard : Option Guard := none
  actions : List Action := []

/-- An invocation as it is written; its id defaults to that of the state. -/
structure InvokeDef where
  id : Option String := none
  src : String
  input : Option Provider := none

structure StateDef where
  initial : Option String := none
  entry : List Action := []
  exit : List Action := []
  /-- The transitions for each event name, in order of priority. -/
  on : List (String × List TransitionDef) := []
  invoke : Option InvokeDef := none
  states : List (String × StateDef) := []
  /-- Members with unknown names, which keep a chart from being built. -/
  unknown : List (String × Json) := []

instance : Inhabited StateDef := ⟨{}⟩

structure Definition where
  /-- The chart's id, which is also that of the root state. -/
  id : String
  root : StateDef
  context : Option Json := none
  metadata : Option Json := none

/-- The array of some items under a key, left out when there is none. -/
def listMember (key : String) (items : List Json) : List (String × Json) :=
  if items.isEmpty then [] else [(key, .arr items)]

/-- The object of some members under a key, left out when there is none. -/
def objectMember (key : String) (members : List (String × Json)) : List (String × Json) :=
  if members.isEmpty then [] else [(key, .obj members)]

def TransitionDef.toJson (t : TransitionDef) : Json :=
  .obj (Action.optionalMember "target" (t.target.map .str) ++
    Action.optionalMember "guard" (t.guard.map Guard.toJson) ++
    listMember "actions" (t.actions.map Action.toJson))

def InvokeDef.toJson (i : InvokeDef) : Json :=
  .obj (Action.optionalMember "id" (i.id.map .str) ++ ("src", .str i.src) ::
    Action.optionalMember "input" (i.input.map Provider.toJson))

namespace StateDef

mutual

/-- The members of a state in canonical order. -/
def members : StateDef → List (String × Json)
  | { initial, entry, exit, on, invoke, states, unknown } =>
    Action.optionalMember "initial" (initial.map .str) ++
      listMember "entry" (entry.map Action.toJson) ++
      listMember "exit" (exit.map Action.toJson) ++
      objectMember "on" (on.map fun (event, list) => (event, .arr (list.map (·.toJson)))) ++
      Action.optionalMember "invoke" (invoke.map InvokeDef.toJson) ++
      objectMember "states" (tableMembers states) ++ unknown

def tableMembers : List (String × StateDef) → List (String × Json)
  | [] => []
  | (id, state) :: rest => (id, .obj state.members) :: tableMembers rest

end

/-- Appends a transition for an event. -/
def withTransition (state : StateDef) (event : String) (t : TransitionDef) : StateDef :=
  { state with
    on := Keyed.insert event (((Keyed.get? event state.on).getD []) ++ [t]) state.on }

/-- Adds a child, replacing one of the same id. -/
def withChild (state : StateDef) (id : String) (child : StateDef) : StateDef :=
  { state with states := Keyed.insert id child state.states }

end StateDef

namespace Definition

/-- The document in canonical order. -/
def toDocument (d : Definition) : Json :=
  .obj (("id", .str d.id) :: (d.root.members ++ Action.optionalMember "context" d.context ++
    Action.optionalMember "meta" d.metadata))

def canonicalText (d : Definition) : String := d.toDocument.write

def toJson (d : Definition) : Json := d.toDocument.normal

def checksum (d : Definition) : String := Checksum.ofText d.canonicalText

end Definition

end Statechart
