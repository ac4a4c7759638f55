import Statechart.Chart.Reader
import Statechart.Event
import Statechart.Program.Failure

/-!
# Arguments

The arguments of commands hold JSON text or name a file of it.
-/
namespace Statechart.Environment

def text (env : Environment) (path : String) : Except Failure String :=
  (env.file? path).elim (.error (.unreadable path)) .ok

/-- The value of a JSON text. -/
def value (s : String) : Except Failure Json := (Json.read? s).elim (.error .malformed) .ok

/-- A JSON text, or the file named after an at sign. -/
def payload (env : Environment) (arg : String) : Except Failure Json :=
  match arg.toList with
  | '@' :: path => env.text (String.ofList path) >>= value
  | _ => value arg

/-- A chart, from a text that begins with a brace or from a file whose name may follow an at
sign. -/
def chart (env : Environment) (arg : String) : Except Failure Chart := do
  let document ←
    match Text.dropBlank arg.toList, arg.toList with
    | '\x7b' :: _, _ => value arg
    | _, '@' :: path => env.text (String.ofList path) >>= value
    | _, _ => env.text arg >>= value
  (Chart.ofJson document).mapError .machine

/-- An event, given by its name or by a name, an equals sign and a payload. -/
def event (env : Environment) (arg : String) : Except Failure Event :=
  match Text.splitAtFirst (· == '=') arg.toList with
  | none => .ok ⟨Text.trim arg, .null⟩
  | some (name, rest) => do
    let data ← env.payload (Text.trim (String.ofList rest))
    return ⟨Text.trim (String.ofList name), data⟩

/-- A context; null when none is given. -/
def context (env : Environment) (arg : Option String) : Except Failure Json :=
  arg.elim (.ok .null) env.payload

/-- The configuration in a file, or else the defaults under the variables. -/
def config (env : Environment) (path : Option String) : Except Failure Config := do
  let c ← match path with
    | some path => (Config.ofFile env path).mapError .config
    | none => pure (Config.ofVariables env)
  c.validated.mapError .config

end Statechart.Environment
