import Statechart.Decode
import Statechart.Machine.Notification

/-!
# Filtering notifications

A notification of an instance carries the instance's id. A filter has five lists; each of them
restricts one aspect of a notification, and an empty list restricts nothing.
-/
namespace Statechart

structure InstanceEvent where
  instanceId : String
  notification : Notification

/-- The members in the order in which they are written. -/
def InstanceEvent.toDocument (e : InstanceEvent) : Json :=
  .obj (("instance_id", .str e.instanceId) :: e.notification.members)

/-- Reads a notification with the id of its instance. -/
def InstanceEvent.ofDocument (v : Json) : InstanceEvent :=
  ⟨(v.field "instance_id").string?.getD "", .ofDocument v⟩

structure EventFilter where
  machines : List String := []
  instances : List String := []
  kinds : List String := []
  events : List String := []
  states : List String := []

namespace EventFilter

def toJson (f : EventFilter) : Json :=
  .obj [("events", .strings f.events), ("instances", .strings f.instances),
    ("kinds", .strings f.kinds), ("machines", .strings f.machines),
    ("states", .strings f.states)]

/-- A list that is absent or not one of strings restricts nothing. -/
def ofJson (document : Json) : EventFilter :=
  let listed (key : String) : List String :=
    (Decode.list Decode.string (document.field key)).toOption.getD []
  { machines := listed "machines", instances := listed "instances", kinds := listed "kinds",
    events := listed "events", states := listed "states" }

/-- Whether one of the values is listed, or nothing is. -/
def allows (listed values : List String) : Bool := listed.isEmpty || values.any listed.contains

def accepts (f : EventFilter) (e : InstanceEvent) : Bool :=
  let n := e.notification
  allows f.machines [n.machine] && allows f.instances [e.instanceId] && allows f.kinds [n.kind] &&
    allows f.events n.event?.toList && allows f.states n.states

end EventFilter

end Statechart
