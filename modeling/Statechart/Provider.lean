import Statechart.Expr.Eval

/-!
# Value providers

A provider gives a value when an action runs or an invocation starts. It is written as an object
with one member.
-/
namespace Statechart

inductive Provider where
  | literal (value : Json)
  | context (path : String)
  /-- A path into the payload of the event; the empty path is the payload. -/
  | event (path : String)
  | expression (e : Expression)

namespace Provider

def resolve (ctx : Context) (event : Option Event) : Provider → Except ResolutionError Json
  | literal value => .ok value
  | context path => ctx.lookup path
  | .event path =>
    match event with
    | none => .error (.noEvent ("event." ++ path))
    | some e =>
      match Path.lookupIn? path e.data with
      | some value => .ok value
      | none => .error (.missingPath ("event." ++ path))
  | expression e => e.tree.evaluate ctx event

def toJson : Provider → Json
  | literal value => .obj [("literal", value)]
  | context path => .obj [("context", .str path)]
  | event path => .obj [("event", .str path)]
  | expression e => .obj [("expr", .str e.source)]

def decode : Json → Decoded Provider
  | .obj [(kind, value)] =>
    if kind = "literal" then .ok (literal value.normal)
    else if kind = "context" then (Decode.string value).map context
    else if kind = "event" then (Decode.string value).map event
    else if kind = "expr" then do
      match Expression.read (← Decode.string value) with
      | .ok e => return expression e
      | .error cause => throw (.expression cause)
    else .error .shape
  | _ => .error .shape

end Provider

end Statechart
