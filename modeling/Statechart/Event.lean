import Statechart.Decode

/-!
# Events

An event has a name and a payload, `null` when there is none.
-/
namespace Statechart

structure Event where
  name : String
  data : Json := .null

namespace Event

def hasData (e : Event) : Bool := !e.data.isNull

/-- A null payload is left out. -/
def toJson (e : Event) : Json :=
  .obj ((if e.hasData then [("data", e.data)] else []) ++ [("name", .str e.name)])

/-- The names that the members of an event can have. -/
def memberNames : List String := ["name", "event", "data"]

/-- The name may be given as `name` or as `event`. -/
def decode : Json → Decoded Event := Decode.record ["name", "data"] fun members => do
  let name ← Decode.string (← Decode.required (← Decode.field? ["name", "event"] members))
  let data ← Decode.fieldOr "data" .null (fun value => .ok value.normal) members
  return ⟨name, data⟩

/-- The event of an invocation that has succeeded. -/
def done (invokeId : String) (result : Json) : Event := ⟨invokeId ++ ".done", result⟩

/-- The event of an invocation that has failed. -/
def failed (invokeId : String) (error : Json) : Event := ⟨invokeId ++ ".error", error⟩

end Event

end Statechart
