import Statechart.Expr.Reader
import Statechart.Context
import Statechart.Event

/-!
# Evaluating expressions

An expression reads the context and the event that is being handled. The logical operators
evaluate their right side only when the left one does not decide.
-/
namespace Statechart

namespace Expr

def evaluate (ctx : Context) (event : Option Event) : Expr → Except ResolutionError Json
  | literal value => .ok value
  | context path => ctx.lookup path
  | eventName =>
    match event with
    | some e => .ok (.str e.name)
    | none => .error (.noEvent "event.name")
  | eventData path =>
    match event with
    | none => .error (.noEvent (eventData path).render)
    | some e =>
      match Path.lookupIn? path e.data with
      | some value => .ok value
      | none => .error (.missingPath (eventData path).render)
  | not e => do return .bool !(← evaluate ctx event e).isTruthy
  | neg e => do
    let value ← evaluate ctx event e
    value.negated.mapError (.ofOperator (neg e).render)
  | and a b => do
    if (← evaluate ctx event a).isTruthy then
      return .bool (← evaluate ctx event b).isTruthy
    else
      return .bool false
  | or a b => do
    if (← evaluate ctx event a).isTruthy then
      return .bool true
    else
      return .bool (← evaluate ctx event b).isTruthy
  | binary op a b => do
    let x ← evaluate ctx event a
    let y ← evaluate ctx event b
    (op.apply x y).mapError (.ofOperator (binary op a b).render)

/-- The value of an expression as a condition. -/
def test (ctx : Context) (event : Option Event) (e : Expr) : Except ResolutionError Bool :=
  (e.evaluate ctx event).map Json.isTruthy

end Expr

/-- A tree together with the trimmed text it was read from. -/
structure Expression where
  source : String
  tree : Expr
  reads : Expr.read source = .ok tree

namespace Expression

theorem read_trim (source : String) : Expr.read (Text.trim source) = Expr.read source := by
  simp [Expr.read, Text.trim, Text.trimChars_trimChars]

def read (source : String) : Except Expr.ReadError Expression :=
  match h : Expr.read source with
  | .ok tree => .ok ⟨Text.trim source, tree, (read_trim source).trans h⟩
  | .error e => .error e

/-- Expressions are the same when their trees are, however they are written. -/
def same (a b : Expression) : Bool := a.tree.same b.tree

end Expression

end Statechart
