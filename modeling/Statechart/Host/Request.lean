import Statechart.Host.Turn

/-!
# Requests

A caller sends a command to an instance and waits for the reply for a limited time. A command
that has been accepted is carried out whether or not its caller still waits.
-/
namespace Statechart.Host

/-- Sends a command to the actor registered under an id, if there is room in its inbox. Returns the
number of the call. -/
def send (id : String) (command : Command) (h : Host) : Except HostError (Host × Nat) :=
  match (Keyed.get? id h.instances).bind fun r => h.actor? r.actor with
  | none => .error (.instanceNotFound id)
  | some a =>
    if a.inbox.length < h.config.host.commandCapacity then
      let call := h.nextCall
      let a := { a with inbox := a.inbox ++ [⟨call, command⟩] }
      .ok ({ h with nextCall := call + 1 }.update a |>.wake a.number, call)
    else .error (.timeout id)

/-- Sends a command. A caller who has any time waits for room in the inbox while everyone takes
turns. -/
def submit (id : String) (command : Command) (h : Host) : Host × Except HostError Nat :=
  match h.send id command with
  | .ok (h, call) => (h, .ok call)
  | .error e =>
    if e.isRetryable ∧ h.config.host.replyTimeout ≠ 0 then
      match h.settle.send id command with
      | .ok (h, call) => (h, .ok call)
      | .error e => (h.settle, .error e)
    else (h, .error e)

/-- Takes the reply to a call. -/
def takeReply (call : Nat) (h : Host) : Host × Option Reply :=
  ({ h with replies := h.replies.filter fun (c, _) => c ≠ call }, h.replies.lookup call)

/-- Sends a command and waits. A command that is never answered has met an instance that ended. -/
def request (id : String) (command : Command) (h : Host) : Host × Except HostError Reply :=
  match h.submit id command with
  | (h, .error e) => (h, .error e)
  | (h, .ok call) =>
    let (h, reply) := h.settle.takeReply call
    if h.config.host.replyTimeout = 0 then (h, .error (.timeout id))
    else
      match reply with
      | some r => (h, .ok r)
      | none => (h, .error (.instanceNotFound id))

/-- Sends an event to an instance. -/
def dispatch (id : String) (event : Event) (h : Host) :
    Host × Except HostError Machine.DispatchOutcome :=
  match h.request id (.dispatch event) with
  | (h, .ok (.dispatched result)) => (h, result.mapError .machine)
  | (h, .ok _) => (h, .error (.instanceNotFound id))
  | (h, .error e) => (h, .error e)

/-- The state of an instance. -/
def snapshot (id : String) (h : Host) : Host × Except HostError Snapshot :=
  match h.request id .snapshot with
  | (h, .ok (.snapshot s)) => (h, .ok s)
  | (h, .ok _) => (h, .error (.instanceNotFound id))
  | (h, .error e) => (h, .error e)

/-- Takes an instance out of the registry. The end of its actor is awaited from then on, and
meanwhile its inbox stays open: an actor that has not been told to stop goes on. -/
def unregister (id : String) (h : Host) : Host :=
  let registered := Keyed.get? id h.instances
  { h with
    instances := Keyed.erase id h.instances
    awaited := h.awaited ++ (registered.map Registration.actor).toList }

/-- Ends the streams of an instance's watchers. -/
def closeWatchers (id : String) (h : Host) : Host :=
  { h with broadcaster := h.broadcaster.closeInstance id }

/-- What a stop returns for a reply to its request. -/
def stopResult (id : String) : Except HostError Reply → Except HostError Snapshot
  | .ok (.stopped result) => result.mapError .machine
  | .ok _ => .error (.instanceNotFound id)
  | .error e => .error e

/-- Stops an instance. It is taken out of the registry whatever the reply, and when its actor has
ended its watchers are closed. There is no result when the actor goes on, which has accepted no
command to stop then: the call awaits it and never returns. -/
def stop? (id : String) (h : Host) : Host × Option (Except HostError Snapshot) :=
  let (h, reply) := h.request id .stop
  let registered := Keyed.get? id h.instances
  let h := (h.unregister id).settle
  if registered.any fun r => (h.actor? r.actor).isSome then (h, none)
  else (h.closeWatchers id, some (stopResult id reply))

/-- A stop that awaits the end of an actor is given up. Nobody else can send the actor anything, so
that it ends. -/
def abandon (number : Nat) (h : Host) : Host :=
  if h.awaited.contains number then
    let h := { h with awaited := h.awaited.erase number }
    match h.actor? number with
    | none => h
    | some a => (h.update { a with orphaned := true }).wake number
  else h

/-- Stops an instance and returns its last state, for a caller who gives up a stop that does not
return. -/
def stop (id : String) (h : Host) : Host × Except HostError Snapshot :=
  let registered := Keyed.get? id h.instances
  match h.stop? id with
  | (h, some result) => (h, result)
  | (h, none) =>
    (registered.elim h fun r => (h.abandon r.actor).settle, .error (.timeout id))

/-- Refuses launches from now on. Returns the instances that are to be stopped, which only the
first call does. -/
def close (h : Host) : Host × List String :=
  if h.shuttingDown then (h, []) else ({ h with shuttingDown := true }, Keyed.keys h.instances)

/-- Stops instances one after another, up to a stop that does not return. -/
def stopEach : List String → Host → Host
  | [], h => h
  | id :: ids, h =>
    match h.stop? id with
    | (h, some _) => stopEach ids h
    | (h, none) => h

/-- Refuses launches from now on and stops every instance. -/
def shutdown (h : Host) : Host :=
  let (h, ids) := h.close
  h.stopEach ids

/-- Watches a registered instance. Returns the handle of the watcher. -/
def watchInstance (id : String) (h : Host) : Except HostError (Host × Nat) :=
  if Keyed.contains id h.instances then
    let (broadcaster, handle) := h.broadcaster.subscribe (.one id)
    .ok ({ h with broadcaster }, handle)
  else .error (.instanceNotFound id)

/-- Watches all instances, present and future. -/
def watchAll (filter : EventFilter) (h : Host) : Host × Nat :=
  let (broadcaster, handle) := h.broadcaster.subscribe (.all filter)
  ({ h with broadcaster }, handle)

end Statechart.Host
