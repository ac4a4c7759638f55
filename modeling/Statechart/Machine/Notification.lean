import Statechart.Json.Basic

/-!
# Notifications

What observers of a machine are told, in the order in which it happens.
-/
namespace Statechart

inductive Notification where
  | started (machine : String) (configuration : List String)
  | entered (machine state : String)
  | exited (machine state : String)
  | transitioned (machine event source : String) (target : Option String)
  | dispatched (machine event : String) (handled : Bool) (configuration : List String)
    (context : Json)
  | stopped (machine : String)

namespace Notification

def kind : Notification → String
  | started .. => "started"
  | entered .. => "entered"
  | exited .. => "exited"
  | transitioned .. => "transitioned"
  | dispatched .. => "dispatched"
  | stopped _ => "stopped"

def machine : Notification → String
  | started m _ | entered m _ | exited m _ | transitioned m .. | dispatched m .. | stopped m => m

/-- The event that a notification is about. -/
def event? : Notification → Option String
  | transitioned _ event .. | dispatched _ event .. => some event
  | _ => none

/-- The states that a notification mentions. -/
def states : Notification → List String
  | started _ configuration | dispatched _ _ _ configuration _ => configuration
  | entered _ state | exited _ state => [state]
  | transitioned _ _ source target => source :: target.toList
  | stopped _ => []

/-- The members after the kind and the machine. -/
def details : Notification → List (String × Json)
  | started _ configuration => [("configuration", .strings configuration)]
  | entered _ state | exited _ state => [("state", .str state)]
  | transitioned _ event source target =>
    [("event", .str event), ("source", .str source)] ++
      (target.map fun t => ("target", Json.str t)).toList
  | dispatched _ event handled configuration context =>
    [("event", .str event), ("handled", .bool handled),
      ("configuration", .strings configuration), ("context", context)]
  | stopped _ => []

/-- The members in the order in which they are written. -/
def members (n : Notification) : List (String × Json) :=
  ("type", .str n.kind) :: ("machine", .str n.machine) :: n.details

def toDocument (n : Notification) : Json := .obj n.members

/-- Reads a notification. What is not there is empty. -/
def ofDocument (v : Json) : Notification :=
  let text (key : String) : String := (v.field key).string?.getD ""
  let machine := text "machine"
  let configuration := ((v.field "configuration").array?.getD []).filterMap Json.string?
  match text "type" with
  | "started" => started machine configuration
  | "entered" => entered machine (text "state")
  | "exited" => exited machine (text "state")
  | "transitioned" =>
    transitioned machine (text "event") (text "source") (v.field "target").string?
  | "dispatched" =>
    dispatched machine (text "event") ((v.field "handled").bool?.getD false) configuration
      (v.field "context")
  | _ => stopped machine

end Notification

end Statechart
