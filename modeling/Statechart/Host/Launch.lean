import Statechart.Host.Basic

/-!
# Launching instances

A launch goes through stages: it is approved, reserves its id, brings up a machine, and is
registered. The reservation keeps two launches of one id apart and ends with the launch, whatever
has become of it.
-/
namespace Statechart

/-- A launch that has been approved. -/
structure Launch where
  id : String
  chart : Chart

namespace Host

/-- The id of an instance whose caller has given none. -/
def generatedId (number : Nat) : String :=
  let digits := Nat.toDigits 10 number
  "inst-" ++ String.ofList (List.replicate (12 - digits.length) '0' ++ digits)

/-- Decides on a launch: the host must not be shutting down, know the chart, and be able to run
instances. -/
def approve (id : Option String) (chart : String) (h : Host) : Except HostError (Host × Launch) :=
  if h.shuttingDown then .error .shuttingDown
  else
    match Keyed.get? chart h.charts with
    | none => .error (.chartNotFound chart)
    | some c =>
      if h.runner.available then
        .ok ({ h with nextActor := h.nextActor + 1 }, ⟨id.getD (generatedId h.nextActor), c⟩)
      else .error .unavailable

/-- Reserves the id of a launch. -/
def reserve (id : String) (h : Host) : Except HostError Host :=
  if h.reserved.contains id then .error (.instanceExists id)
  else .ok { h with reserved := id :: h.reserved }

def unreserve (id : String) (h : Host) : Host := { h with reserved := h.reserved.erase id }

/-- Brings up a machine. It has an actor, which is not live yet; its number is returned. When
the machine cannot be brought up, the actor is gone. -/
def bringUp (l : Launch) (context : Json)
    (setUp : Machine → Machine × Except MachineError Unit) (h : Host) :
    Host × Except HostError Nat :=
  if Keyed.contains l.id h.instances then (h, .error (.instanceExists l.id))
  else
    match Machine.create l.chart context
        { settings := h.config.settings, predicates := h.predicates } with
    | .error e => (h, .error (.machine e))
    | .ok machine =>
      let number := h.nextActor
      let a : Actor := { number, instanceId := l.id, machine }
      let h := { h with nextActor := number + 1, actors := h.actors ++ [a] }
      match h.operate setUp a with
      | (h, _, .ok ()) =>
        if h.config.host.commandCapacity < HostLimits.inboxLimit then (h, .ok number)
        else (h.remove number, .error .overflow)
      | (h, _, .error e) => (h.remove number, .error (.machine e))

/-- Registers the instance of a launch and gives its actor a turn. -/
def register (l : Launch) (number : Nat) (h : Host) : Host :=
  let h := { h with instances := Keyed.insert l.id ⟨l.chart.id, number⟩ h.instances }
  match h.actor? number with
  | none => h
  | some a => (h.update { a with live := true }).wake number

/-- Launches an instance. Returns its id. -/
def launch (id : Option String) (chart : String) (context : Json)
    (setUp : Machine → Machine × Except MachineError Unit) (h : Host) :
    Host × Except HostError String :=
  match h.approve id chart with
  | .error e => (h, .error e)
  | .ok (h, l) =>
    match h.reserve l.id with
    | .error e => (h, .error e)
    | .ok h =>
      match h.bringUp l context setUp with
      | (h, .ok number) => ((h.register l number).unreserve l.id, .ok l.id)
      | (h, .error e) => (h.unreserve l.id, .error e)

/-- Starts a machine; contained failures do not matter. -/
def startTolerantly (m : Machine) : Machine × Except MachineError Unit :=
  match m.start with
  | (m, .error e) => if e.isContained then (m, .ok ()) else (m, .error e)
  | (m, .ok ()) => (m, .ok ())

/-- Starts a new instance of a chart. -/
def spawn (id : Option String) (chart : String) (context : Json) (h : Host) :
    Host × Except HostError String :=
  h.launch id chart context startTolerantly

/-- Brings an instance back from a snapshot. -/
def restore (id : Option String) (snapshot : Snapshot) (h : Host) :
    Host × Except HostError String :=
  h.launch id snapshot.chart .null (·.restore snapshot)

end Host

end Statechart
