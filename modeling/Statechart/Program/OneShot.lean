import Statechart.Chart.Outline
import Statechart.Program.Argument
import Statechart.Program.Console

/-!
# Commands that end by themselves

A chart is checked, shown, or run on a list of events.
-/
namespace Statechart.OneShot

/-- Reads a chart and describes it in one line. -/
def validate (env : Environment) (definition : String) : Except Failure String := do
  return "Valid chart " ++ (← env.chart definition).synopsis

/-- Shows a chart as an outline or as its definition. -/
def inspect (env : Environment) (definition : String) (json : Bool) : Except Failure String := do
  let chart ← env.chart definition
  return if json then chart.definition.toJson.pretty else chart.outline

/-- What to run. -/
structure Order where
  definition : String
  events : List String := []
  context : Option String := none
  watch : Bool := false
  /-- How long invocations may take after the last event, in milliseconds. -/
  settleTime : Nat := 0
  config : Option String := none

/-- The console of a run and the lines of its result so far. -/
structure Run where
  console : Console
  lines : List String := []

/-- A notification with the id of its instance. -/
def notificationLine (e : InstanceEvent) : String := e.toDocument.write

/-- Sends one event and notes what became of it. -/
def send (env : Environment) (id arg : String) (r : Run) : Except (Run × Failure) Run :=
  match env.event arg with
  | .error e => .error (r, e)
  | .ok event =>
    let (host, result) := r.console.host.dispatch id event
    let line := match result with
      | .ok outcome => outcome.report
      | .error e => arg ++ " failed: " ++ e.message
    .ok {
      console := { r.console with host }.catchUp notificationLine
      lines := r.lines ++ [line] }

/-- Waits for invocations if there is a time for them, and takes the last state. -/
def conclude (id : String) (settleTime : Nat) (r : Run) : Except (Run × Failure) Run :=
  let console := r.console
  let console :=
    if settleTime = 0 then console
    else { console with host := console.host.sleep settleTime }.catchUp notificationLine
  match console.host.snapshot id with
  | (host, .error e) => .error ({ r with console := { console with host } }, .host e)
  | (host, .ok snapshot) =>
    .ok {
      console := { console with host }.shutdown notificationLine
      lines := r.lines ++ [snapshot.toJson.pretty] }

/-- Launches an instance on a new host. -/
def launch (env : Environment) (order : Order) : Except Failure (Run × Except Failure String) := do
  let chart ← env.chart order.definition
  let config ← env.config order.config
  let host ← (Host.create? config true).mapError .host
  let context ← env.context order.context
  let console : Console := { host := host.registerChart chart }
  let console := if order.watch then console.watchAll else console
  let (host, launched) := console.host.spawn none chart.id context
  return ({ console := { console with host } }, launched.mapError .host)

/-- Runs an order. Returns the lines shown on the way and the result. -/
def run (env : Environment) (order : Order) : List Shown × Except Failure String :=
  match launch env order with
  | .error e => ([], .error e)
  | .ok (r, .error e) => (r.console.shown, .error e)
  | .ok (r, .ok id) =>
    let r := { r with console := r.console.catchUp notificationLine }
    let sent := order.events.foldlM (fun r arg => send env id arg r) r
    match sent >>= conclude id order.settleTime with
    | .error (r, e) => (r.console.shown, .error e)
    | .ok r => (r.console.shown, .ok ("\n".intercalate r.lines))

end Statechart.OneShot
