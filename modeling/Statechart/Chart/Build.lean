import Statechart.Chart.Basic
import Statechart.Chart.Error

/-!
# Building charts

The tree of a definition is laid out depth first. The ids are checked state by state in that
order; then initial children, transitions and invocations are resolved in the same order. The
first fault found is the one reported.
-/
namespace Statechart

/-- A state of a definition with its place in the arena. -/
structure Placed where
  id : String
  parent : Option Nat
  depth : Nat
  children : List Nat
  source : StateDef

namespace StateDef

mutual

/-- The number of states in a tree. -/
def size : StateDef → Nat
  | { states, .. } => 1 + tableSize states

def tableSize : List (String × StateDef) → Nat
  | [] => 0
  | (_, state) :: rest => state.size + tableSize rest

end

/-- The positions of children when the first of them is at a position. -/
def childPositions (first : Nat) : List (String × StateDef) → List Nat
  | [] => []
  | (_, state) :: rest => first :: childPositions (first + state.size) rest

mutual

/-- Lays out a tree depth first, its root being at a position. -/
def place (id : String) (parent : Option Nat) (depth position : Nat) : StateDef → List Placed
  | { initial, entry, exit, on, invoke, states, unknown } =>
    { id, parent, depth, children := childPositions (position + 1) states,
      source := { initial, entry, exit, on, invoke, states, unknown } } ::
      placeTable position (depth + 1) (position + 1) states

def placeTable (parent depth position : Nat) : List (String × StateDef) → List Placed
  | [] => []
  | (id, state) :: rest =>
    place id (some parent) depth position state ++
      placeTable parent depth (position + state.size) rest

end

end StateDef

namespace Chart

/-- Checks the ids and members of states in order, given the ids that came before. -/
def checkPlaced : List String → List Placed → Except ChartError Unit
  | _, [] => .ok ()
  | seen, p :: rest =>
    if p.id.isEmpty then .error .emptyStateId
    else if seen.contains p.id then .error (.duplicateState p.id)
    else
      match p.source.unknown with
      | (key, _) :: _ => .error (.unknownField p.id key)
      | [] => checkPlaced (p.id :: seen) rest

/-- The position of an id among the placed states. -/
def positionOf (placed : List Placed) (id : String) : Option Nat :=
  placed.findIdx? fun p => p.id == id

/-- A composite state starts in one of its own children, a leaf in none. -/
def resolveInitial (placed : List Placed) (p : Placed) : Except ChartError (Option Nat) :=
  match p.source.initial, p.children with
  | none, [] => .ok none
  | none, _ :: _ => .error (.noInitial p.id)
  | some initial, [] => .error (.initialOfLeaf p.id initial)
  | some initial, children =>
    match positionOf placed initial with
    | some i =>
      if children.contains i then .ok (some i) else .error (.initialNotChild p.id initial)
    | none => .error (.initialNotChild p.id initial)

def resolveTransition (placed : List Placed) (source : Nat) (id event : String)
    (t : TransitionDef) : Except ChartError Transition :=
  match t.target with
  | none => .ok ⟨source, event, none, t.guard, t.actions⟩
  | some target =>
    match positionOf placed target with
    | some i => .ok ⟨source, event, some i, t.guard, t.actions⟩
    | none => .error (.unknownTarget event id target)

def resolveOn (placed : List Placed) (source : Nat) (id : String) :
    List (String × List TransitionDef) → Except ChartError (Keyed (List Transition))
  | [] => .ok []
  | (event, list) :: rest => do
    if event.isEmpty then
      throw (.emptyEvent id)
    let resolved ← list.mapM (resolveTransition placed source id event)
    return (event, resolved) :: (← resolveOn placed source id rest)

/-- Resolves an invocation, given the ids of those before it. -/
def resolveInvoke (seen : List String) (id : String) :
    Option InvokeDef → Except ChartError (Option Invocation)
  | none => .ok none
  | some i =>
    let invokeId := i.id.getD id
    if i.src.isEmpty then .error (.emptySource id)
    else if seen.contains invokeId then .error (.duplicateInvoke invokeId)
    else .ok (some ⟨invokeId, i.src, i.input⟩)

/-- Resolves states in order, from a position on, given the invocation ids that came before. -/
def resolveAll (placed : List Placed) : List String → Nat → List Placed →
    Except ChartError (List State)
  | _, _, [] => .ok []
  | seen, i, p :: rest => do
    let initial ← resolveInitial placed p
    let transitions ← resolveOn placed i p.id p.source.on
    let invoke ← resolveInvoke seen p.id p.source.invoke
    let seen := match invoke with
      | some inv => inv.id :: seen
      | none => seen
    let state : State :=
      ⟨p.id, p.parent, p.depth, p.children, initial, p.source.entry, p.source.exit, transitions,
        invoke⟩
    return state :: (← resolveAll placed seen (i + 1) rest)

/-- The default context of a definition: an object, empty when absent or null. -/
def defaultContextOf : Option Json → Except ChartError Json
  | none | some .null => .ok (.obj [])
  | some (.obj members) => .ok (.obj members)
  | some _ => .error .contextNotObject

/-- The states of a definition in arena order. -/
def layout (d : Definition) : List Placed := d.root.place d.id none 0 0

def build (d : Definition) : Except ChartError Chart := do
  if d.id.isEmpty then
    throw .emptyChartId
  let defaultContext ← defaultContextOf d.context
  let placed := layout d
  checkPlaced [] placed
  let states ← resolveAll placed [] 0 placed
  return ⟨d, states.toArray, defaultContext, d.checksum⟩

end Chart

end Statechart
