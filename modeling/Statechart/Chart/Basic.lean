import Statechart.Definition.Basic

/-!
# Charts

A chart holds the states of a definition in an arena, depth first: the root is at position 0 and
every parent comes before its children. States refer to each other by position.
-/
namespace Statechart

structure Transition where
  source : Nat
  event : String
  target : Option Nat
  guard : Option Guard
  actions : List Action

structure Invocation where
  id : String
  src : String
  input : Option Provider

structure State where
  id : String
  parent : Option Nat
  /-- The distance from the root. -/
  depth : Nat
  /-- The children in the order of their ids. -/
  children : List Nat
  initial : Option Nat
  entry : List Action
  exit : List Action
  /-- The transitions for each event name, in order of priority. -/
  transitions : Keyed (List Transition)
  invoke : Option Invocation

instance : Inhabited State := ⟨⟨"", none, 0, [], none, [], [], [], none⟩⟩

def State.isLeaf (s : State) : Bool := s.children.isEmpty

/-- The transitions for an event, none when the state does not name it. -/
def State.transitionsFor (s : State) (event : String) : List Transition :=
  (Keyed.get? event s.transitions).getD []

structure Chart where
  definition : Definition
  states : Array State
  defaultContext : Json
  checksum : String

namespace Chart

def id (c : Chart) : String := c.definition.id

def root : Nat := 0

def size (c : Chart) : Nat := c.states.size

/-- The state at a position. -/
def state (c : Chart) (i : Nat) : State := c.states[i]?.getD default

/-- The position of the state with an id. -/
def lookup (c : Chart) (id : String) : Option Nat := c.states.findIdx? fun s => s.id == id

/-- The ancestors of a state, nearest first, at most so many. -/
def ancestors (c : Chart) : Nat → Nat → List Nat
  | 0, _ => []
  | fuel + 1, i =>
    match (c.state i).parent with
    | none => []
    | some p => p :: ancestors c fuel p

/-- The path from the root down to a state. -/
def pathTo (c : Chart) (i : Nat) : List Nat := (i :: c.ancestors c.size i).reverse

/-- Whether a state is an ancestor or one of its descendants. -/
def isWithin (c : Chart) (i ancestor : Nat) : Bool := (i :: c.ancestors c.size i).contains ancestor

/-- The initial descendants of a state, at most so many. -/
def initials (c : Chart) : Nat → Nat → List Nat
  | 0, _ => []
  | fuel + 1, i =>
    match (c.state i).initial with
    | none => []
    | some child => child :: initials c fuel child

/-- The initial descendants of a state, outermost first. -/
def initialChain (c : Chart) (i : Nat) : List Nat := c.initials c.size i

/-- The deepest state that is a proper ancestor of both; none when one of them is the root. -/
def transitionDomain (c : Chart) (source target : Nat) : Option Nat :=
  (c.ancestors c.size source).find? fun a => target != a && c.isWithin target a

/-- All transitions, state by state. -/
def transitions (c : Chart) : List Transition :=
  c.states.toList.flatMap fun s => s.transitions.flatMap (·.2)

/-- The names of the predicates that guards refer to, sorted. -/
def predicateNames (c : Chart) : List String :=
  Keyed.sortedKeys (c.transitions.filterMap fun t => t.guard.bind Guard.predicateName?)

/-- The names of the events with a transition, sorted. -/
def events (c : Chart) : List String :=
  Keyed.sortedKeys (c.states.toList.flatMap fun s => Keyed.keys s.transitions)

end Chart

end Statechart
