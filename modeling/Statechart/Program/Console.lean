import Statechart.Host.Launch
import Statechart.Host.Request
import Statechart.Program.Failure

/-!
# Consoles

A console is a host with at most one watcher and what has been shown so far.
-/
namespace Statechart

/-- One line for a dispatched event, followed by a line for each diagnostic. -/
def Machine.DispatchOutcome.report (o : Machine.DispatchOutcome) : String :=
  let status := if o.handled then "handled" else "ignored"
  "\n".intercalate
    ((o.event ++ " " ++ status ++ " [" ++ " > ".intercalate o.configuration ++ "]") ::
      o.diagnostics.map fun d =>
        "  warning " ++ d.code ++ " (" ++ d.event ++ "): " ++ d.message)

structure Console where
  host : Host
  watcher : Option Nat := none
  /-- The lines shown, oldest first. -/
  shown : List Shown := []

namespace Console

def print (line : String) (c : Console) : Console := { c with shown := c.shown ++ [.text line] }

/-- Shows a text and a blank line after it. -/
def printBlock (block : Shown) (c : Console) : Console :=
  { c with shown := c.shown ++ [block, .text ""] }

/-- Shows the notifications that have arrived. -/
def catchUp (line : InstanceEvent → String) (c : Console) : Console :=
  match c.watcher with
  | none => c
  | some handle =>
    let (broadcaster, events) := c.host.broadcaster.drain handle
    { c with
      host := { c.host with broadcaster }
      shown := c.shown ++ events.map fun e => .text (line e) }

/-- Watches all instances. -/
def watchAll (c : Console) : Console :=
  let (host, handle) := c.host.watchAll {}
  { c with host, watcher := some handle }

/-- Watches one instance. -/
def watch (id : String) (c : Console) : Except HostError Console := do
  let (host, handle) ← c.host.watchInstance id
  return { c with host, watcher := some handle }

/-- Drops the watcher and its subscription. -/
def unwatch (c : Console) : Console :=
  match c.watcher with
  | none => c
  | some handle =>
    let broadcaster := c.host.broadcaster
    let broadcaster := match broadcaster.watcher? handle with
      | some w => (broadcaster.unsubscribe w.subscription).1
      | none => broadcaster
    { c with
      host := { c.host with broadcaster := broadcaster.dropWatcher handle }
      watcher := none }

/-- Stops everything and shows what is still to be shown. -/
def shutdown (line : InstanceEvent → String) (c : Console) : Console :=
  { c with host := c.host.shutdown }.catchUp line

end Console

end Statechart
