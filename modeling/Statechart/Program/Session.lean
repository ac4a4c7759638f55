import Statechart.Chart.Outline
import Statechart.Program.Argument
import Statechart.Program.Console
import Statechart.Text.Cluster

/-!
# Interactive sessions

A session runs one instance of a chart and obeys one line after another until it is told to quit
or the lines run out. What a line asks for is read first and then carried out.
-/
namespace Statechart

/-- What a line of a session asks for. -/
inductive SessionOrder where
  | help
  | quit
  | send (event : String) (payload : Option String)
  | state
  | context
  | events
  | snapshot
  | inspect
  | watch
  | unwatch
  | restart
  /-- An order without what it needs, and how it is meant to be written. -/
  | incomplete (usage : String)
  | unknown (word : String)
  deriving DecidableEq

/-- The first word and the trimmed rest. -/
def SessionOrder.firstWord (line : String) : String × String :=
  match Text.splitAtFirst Text.isBlank line.toList with
  | some (word, rest) => (String.ofList word, Text.trim (String.ofList rest))
  | none => (line, "")

/-- Reads a line that neither begins nor ends with a blank. The word that names the order may have
letters of any case. -/
def SessionOrder.read (line : String) : SessionOrder :=
  let (word, rest) := firstWord line
  match Text.lower word with
  | "help" | "?" => .help
  | "quit" | "exit" | "q" => .quit
  | "send" | "s" =>
    if rest.isEmpty then .incomplete "Usage: send <event> [payload_json]"
    else
      let (name, payload) := firstWord rest
      .send name (if payload.isEmpty then none else some payload)
  | "state" | "st" => .state
  | "ctx" | "context" => .context
  | "events" | "e" => .events
  | "snapshot" | "snap" => .snapshot
  | "inspect" | "i" => .inspect
  | "watch" | "w" =>
    if rest = "on" ∨ rest = "" then .watch
    else if rest = "off" then .unwatch
    else .incomplete "Usage: watch on|off"
  | "restart" => .restart
  | other => .unknown other

structure Session where
  console : Console
  chart : Chart
  /-- The context with which instances are launched. -/
  context : Json
  /-- The id of the instance. -/
  id : String

namespace Session

def banner : String := "arbor CLI"

def helpText : String := "\n".intercalate [
  "",
  "Available commands:",
  "  help                          Show this help",
  "",
  "  send <event> [payload]        Dispatch an event",
  "  state                         Show the active configuration",
  "  ctx                           Show the context",
  "  events                        Events declared by the active states",
  "  snapshot                      Show the full snapshot",
  "  inspect                       Show the chart",
  "",
  "  watch on|off                  Print notifications as they happen",
  "  restart                       Stop the instance and start a fresh one",
  "",
  "  quit, exit                    Exit the REPL",
  ""]

/-- A notification after its kind; the instance goes without saying. -/
def notificationLine (e : InstanceEvent) : String :=
  "  " ++ e.notification.kind ++ " " ++ e.notification.toDocument.write

/-- Launches the instance and lets it come to rest. -/
def start (env : Environment) (definition : String) (context config : Option String) :
    Except Failure Session := do
  let chart ← env.chart definition
  let config ← env.config config
  let host ← (Host.create? config true).mapError .host
  let context ← env.context context
  let (host, launched) := (host.registerChart chart).spawn none chart.id context
  let id ← launched.mapError .host
  let console : Console := { host := host.settle }
  return {
    console := console.print ("Started " ++ chart.id ++ " (" ++ id ++ ")") |>.printBlock
      (.text "Type 'help' for available commands.")
    chart, context, id }

/-- Lets time pass for the invocations of the instance. -/
def sleep (ms : Nat) (s : Session) : Session :=
  { s with console := { s.console with host := s.console.host.sleep ms } }

/-- Shows the notifications that have arrived. -/
def catchUp (s : Session) : Session := { s with console := s.console.catchUp notificationLine }

/-- Sends an event. -/
def send (event : Event) (s : Session) : Session × Except Failure String :=
  let (host, result) := s.console.host.dispatch s.id event
  (catchUp { s with console := { s.console with host } },
    (result.map Machine.DispatchOutcome.report).mapError .host)

/-- Says something about the state of the instance. -/
def describe (text : Snapshot → String) (s : Session) : Session × Except Failure String :=
  let (host, result) := s.console.host.snapshot s.id
  ({ s with console := { s.console with host } }, (result.map text).mapError .host)

/-- The events that the states of a configuration declare, sorted. -/
def declaredEvents (chart : Chart) (configuration : List String) : List String :=
  Keyed.sortedKeys ((configuration.filterMap chart.lookup).flatMap fun i =>
    Keyed.keys (chart.state i).transitions)

/-- Watches the instance unless it is watched already. -/
def watch (s : Session) : Session × Except Failure String :=
  if s.console.watcher.isSome then (s, .ok "Watching notifications")
  else
    match s.console.watch s.id with
    | .ok console => ({ s with console }, .ok "Watching notifications")
    | .error e => (s, .error (.host e))

/-- Stops the instance; what goes wrong is only mentioned. -/
def stop (s : Session) : Session :=
  let (host, stopped) := s.console.host.stop s.id
  let s := catchUp { s with console := { s.console with host } }
  match stopped with
  | .ok _ => s
  | .error e => { s with console := s.console.print ("Warning: " ++ e.message) }

/-- Stops the instance and launches a new one. A watcher sees the end of the one and the beginning
of the other: in between it watches all instances. -/
def restart (s : Session) : Session × Except Failure String :=
  let watching := s.console.watcher.isSome
  let s := s.stop
  let console := if watching then s.console.unwatch.watchAll else s.console
  let (host, launched) := console.host.spawn none s.chart.id s.context
  let s := { s with console := { console with host } }
  match launched with
  | .error e => (s, .error (.host e))
  | .ok id =>
    let s := catchUp { s with id }
    match if watching then s.console.unwatch.watch id else .ok s.console with
    | .error e => (s, .error (.host e))
    | .ok console =>
      ({ s with console := { console with host := console.host.settle } }, .ok ("Restarted " ++ id))

/-- Carries out an order. There is no answer to the order to quit. -/
def obey (env : Environment) (order : SessionOrder) (s : Session) :
    Session × Except Failure (Option String) :=
  let answered : Session × Except Failure String → Session × Except Failure (Option String)
    | (s, result) => (s, result.map some)
  match order with
  | .help => (s, .ok (some helpText))
  | .quit => (s, .ok none)
  | .send name payload =>
    match env.context payload with
    | .ok data => answered (s.send ⟨name, data⟩)
    | .error e => (s, .error e)
  | .state => answered <| s.describe fun t =>
    t.status.name ++ " [" ++ " > ".intercalate t.configuration ++ "]"
  | .context => answered <| s.describe fun t => t.context.pretty
  | .events => answered <| s.describe fun t =>
    let events := declaredEvents s.chart t.configuration
    if events.isEmpty then "No events" else ", ".intercalate events
  | .snapshot => answered <| s.describe fun t => t.toJson.pretty
  | .inspect => (s, .ok (some s.chart.outline))
  | .watch => answered s.watch
  | .unwatch => ({ s with console := s.console.unwatch }, .ok (some "Stopped watching"))
  | .restart => answered s.restart
  | .incomplete usage => (s, .ok (some usage))
  | .unknown word => (s, .ok (some ("Unknown command: " ++ word ++ ". Type 'help' for help.")))

/-- Obeys a line. Tells whether the session goes on. Backspaces take away what was typed before
them, and a blank line asks for nothing. -/
def line (env : Environment) (line : String) (s : Session) : Session × Bool :=
  let line := Text.trim (String.ofList (Text.applyBackspaces line.toList))
  if line.isEmpty then (s, true)
  else
    match s.obey env (.read line) with
    | (s, .ok (some answer)) => ({ s with console := s.console.printBlock (.text answer) }, true)
    | (s, .ok none) => (s, false)
    | (s, .error e) => ({ s with console := s.console.printBlock (.failure e) }, true)

/-- Stops the instance and says good-bye. -/
def finish (s : Session) : Session :=
  { s with console := (s.console.shutdown notificationLine).print "Stopped." }

/-- Notes that the lines have run out. -/
def endOfInput (s : Session) : Session := { s with console := s.console.print "^D" }

/-- Obeys lines up to the order to quit or to their end. -/
def run (env : Environment) : List String → Session → Session
  | [], s => s.endOfInput.finish
  | l :: lines, s =>
    match s.line env l with
    | (s, true) => run env lines s
    | (s, false) => s.finish

end Session

end Statechart
