import Statechart.Expr.Arithmetic

/-!
# Failures to find a value

Everything that reads the context or an event fails with one of these causes.
-/
namespace Statechart

inductive ResolutionError where
  | missingPath (path : String)
  | typeMismatch (place expected found : String)
  | noEvent (path : String)
  | divisionByZero (place : String)
  | nonFinite (place : String)
  | unknownPredicate (name : String)
  deriving DecidableEq

namespace ResolutionError

def message : ResolutionError → String
  | missingPath path => "path '" ++ path ++ "' not found"
  | typeMismatch place expected found =>
    "type mismatch in '" ++ place ++ "': expected " ++ expected ++ ", found " ++ found
  | noEvent path =>
    "'" ++ path ++ "' refers to the triggering event but none is available"
  | divisionByZero place => "division by zero in '" ++ place ++ "'"
  | nonFinite place => "result of '" ++ place ++ "' is not a finite number"
  | unknownPredicate name => "predicate '" ++ name ++ "' is not registered"

/-- The failure of an operator at an expression. -/
def ofOperator (place : String) : OperatorError → ResolutionError
  | .notNumber found => typeMismatch place "number" found.kind
  | .divisionByZero => divisionByZero place
  | .nonFinite => nonFinite place

end ResolutionError

end Statechart
