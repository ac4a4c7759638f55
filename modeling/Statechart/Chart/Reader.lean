import Statechart.Chart.Build
import Statechart.Machine.Error
import Statechart.Json.Reader

/-!
# Reading charts

A chart is read from a definition, given as a JSON value or as a text. In a text, the definition
is judged before what follows it.
-/
namespace Statechart.Chart

def ofDefinition (d : Definition) : Except MachineError Chart :=
  (build d).mapError fun fault => .invalidDefinition (.chart fault)

def ofJson (document : Json) : Except MachineError Chart := do
  let d ← (Definition.decode document).mapError .malformed
  ofDefinition d

def ofText (text : String) : Except MachineError Chart :=
  match Json.readFirst text with
  | none => .error (.malformed .shape)
  | some (document, rest) => do
    let d ← (Definition.decode document).mapError .malformed
    if rest.all Json.isSpace then ofDefinition d else .error (.malformed .shape)

end Statechart.Chart
