import Statechart.Expr.Eval

/-!
# Guards

A guard is an expression, which passes when its value is truthy, or the name of a predicate
that is registered elsewhere.
-/
namespace Statechart

inductive Guard where
  | expression (e : Expression)
  | predicate (name : String)

/-- A condition with a name. -/
abbrev Predicate := Context → Option Event → Bool

/-- Holds where an expression has a truthy value, and not where it has none. -/
def Predicate.ofExpression (e : Expression) : Predicate := fun ctx event =>
  (e.tree.test ctx event).toOption.getD false

/-- The registered predicates by name. -/
abbrev Predicates := Keyed Predicate

namespace Guard

def predicateName? : Guard → Option String
  | predicate name => some name
  | expression _ => none

/-- The guard as messages show it. -/
def describe : Guard → String
  | expression e => e.source
  | predicate name => "predicate:" ++ name

def evaluate (predicates : Predicates) (ctx : Context) (event : Option Event) :
    Guard → Except ResolutionError Bool
  | expression e => e.tree.test ctx event
  | predicate name =>
    match Keyed.get? name predicates with
    | some holds => .ok (holds ctx event)
    | none => .error (.unknownPredicate name)

/-- An absent guard passes. -/
def passes (predicates : Predicates) (ctx : Context) (event : Option Event) :
    Option Guard → Except ResolutionError Bool
  | none => .ok true
  | some g => g.evaluate predicates ctx event

def toJson : Guard → Json
  | expression e => .str e.source
  | predicate name => .obj [("predicate", .str name)]

/-- What is neither an expression nor an object with the name of a predicate is refused as a
whole, whatever is wrong with it. -/
def decode : Json → Decoded Guard
  | .str source =>
    match Expression.read source with
    | .ok e => .ok (expression e)
    | .error _ => .error .shape
  | .obj members => do
    let name ← Decode.string (← Decode.required (← Decode.field? ["predicate"] members))
    return predicate name
  | _ => .error .shape

end Guard

end Statechart
