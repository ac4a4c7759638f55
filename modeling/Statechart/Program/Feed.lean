import Statechart.Program.Argument
import Statechart.Program.Console

/-!
# Feeding an instance

The configured chart is run on events that arrive as lines: a bare name, or a JSON object with a
name and a payload. Blank lines and lines that begin with a number sign are passed over.
-/
namespace Statechart

/-- Something that the feeding of an instance shows. -/
inductive FeedLine where
  | notification (e : InstanceEvent)
  | error (code message : String)

def FeedLine.toDocument : FeedLine → Json
  | notification e => e.toDocument
  | error code message =>
    .obj [("code", .str code), ("message", .str message), ("type", .str "error")]

structure Feed where
  host : Host
  /-- The handle of the watcher whose notifications are shown. -/
  watcher : Nat
  /-- The id of the instance. -/
  id : String

namespace Feed

/-- Launches an instance of the configured chart and lets it come to rest. -/
def start (env : Environment) : Except Failure Feed := do
  let config ← (Config.load env).mapError .config
  let some path := config.definition | throw .noDefinition
  let document ← env.text path >>= Environment.value
  let host ← (Host.create? config true).mapError .host
  let chart ← ((Chart.ofJson document).mapError HostError.machine).mapError .host
  let (host, watcher) := (host.registerChart chart).watchAll {}
  let (host, launched) := host.spawn none chart.id .null
  return { host := host.settle, watcher, id := ← launched.mapError .host }

/-- Takes the notifications that have arrived. -/
def take (f : Feed) : Feed × List FeedLine :=
  let (broadcaster, events) := f.host.broadcaster.drain f.watcher
  ({ f with host := { f.host with broadcaster } }, events.map .notification)

/-- The event of a line, if it has one. -/
def event? (line : String) : Except Failure (Option Event) :=
  let line := Text.trim line
  match line.toList with
  | [] | '#' :: _ => .ok none
  | '\x7b' :: _ =>
    match Json.readRecord? Event.memberNames line with
    | some document => ((Event.decode document).map some).mapError fun _ => .malformed
    | none => .error .malformed
  | _ => .ok (some ⟨line, .null⟩)

/-- Sends the event of a line. -/
def line (line : String) (f : Feed) : Feed × List FeedLine :=
  match event? line with
  | .ok none => (f, [])
  | .error e => (f, [.error "BAD_REQUEST" e.message])
  | .ok (some event) =>
    let (host, result) := f.host.dispatch f.id event
    let (f, lines) := { f with host }.take
    match result with
    | .ok _ => (f, lines)
    | .error e => (f, lines ++ [.error e.code e.message])

/-- Lets time pass for the invocations of the instance. -/
def sleep (ms : Nat) (f : Feed) : Feed × List FeedLine :=
  { f with host := f.host.sleep ms }.take

/-- Stops the instance. -/
def finish (f : Feed) : List FeedLine := ({ f with host := f.host.shutdown }.take).2

/-- What an instance shows that is fed with lines. -/
def run (env : Environment) (lines : List String) : Except Failure (List FeedLine) := do
  let (f, shown) := (← start env).take
  let (f, shown) := lines.foldl (fun (f, shown) l =>
    let (f, more) := f.line l
    (f, shown ++ more)) (f, shown)
  return shown ++ f.finish

end Feed

end Statechart
