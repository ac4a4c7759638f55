import Statechart.Proofs.Host.Registry

/-!
# Stages of stops and of a shutdown

A stop looks its instance up twice: first to send the command, and when that request is over, to
take the instance out of the registry. Between the two it waits, and others go on. A shutdown
refuses launches first, then reads which instances there are, and stops these one after another.
-/
namespace Statechart.Host

/-- How far a stop has come. -/
inductive StopStage where
  | asked
  /-- The instance was registered with this actor, to which the command is being sent. -/
  | sending (actor : Nat)
  /-- The actor has accepted the command. -/
  | waiting (actor call : Nat)
  /-- The request is over. -/
  | answered (reply : Except HostError Reply)
  /-- An instance has been taken out, and the end of its actor is awaited. -/
  | ending (actor : Nat) (reply : Except HostError Reply)
  /-- The watchers of the id are to be closed. -/
  | closing (reply : Except HostError Reply)
  | returned (result : Except HostError Snapshot)

/-- One step of a stop. It can run out of time as long as its request is not over. -/
inductive Stops (id : String) (h : Host) : StopStage → Sign → Host → StopStage → Prop where
  | missing (hnone : Keyed.get? id h.instances = none) :
    Stops id h .asked (.found id none) h (.answered (.error (.instanceNotFound id)))
  | find {r : Registration} (hfound : Keyed.get? id h.instances = some r) :
    Stops id h .asked (.found id (some r.actor)) h (.sending r.actor)
  | refused {n : Nat} (hgone : h.actor? n = none) :
    Stops id h (.sending n) (.sent n .refused) h (.answered (.error (.instanceNotFound id)))
  | crowded (n : Nat) :
    Stops id h (.sending n) (.sent n .crowded) h (.answered (.error (.timeout id)))
  | send {n : Nat} {a : Actor} (ha : h.actor? n = some a)
      (hroom : a.inbox.length < h.config.host.commandCapacity) :
    Stops id h (.sending n) (.sent n .accepted) ((h.accept a .stop).wake n) (.waiting n h.nextCall)
  | receive {n call : Nat} {reply : Reply} (hreply : h.replies.lookup call = some reply) :
    Stops id h (.waiting n call) .other (h.takeReply call).1 (.answered (.ok reply))
  | lost {n call : Nat} (hgone : h.actor? n = none) (hnone : h.replies.lookup call = none) :
    Stops id h (.waiting n call) .other h (.answered (.error (.instanceNotFound id)))
  | late (n call : Nat) :
    Stops id h (.waiting n call) .other h (.answered (.error (.timeout id)))
  | remove {reply : Except HostError Reply} {r : Registration}
      (hfound : Keyed.get? id h.instances = some r) :
    Stops id h (.answered reply) (.unregistered id r.actor) (h.unregister id)
      (.ending r.actor reply)
  | absent {reply : Except HostError Reply} (hnone : Keyed.get? id h.instances = none) :
    Stops id h (.answered reply) .other h (.closing reply)
  | ended {n : Nat} {reply : Except HostError Reply} (hgone : h.actor? n = none) :
    Stops id h (.ending n reply) .other h (.closing reply)
  | close (reply : Except HostError Reply) :
    Stops id h (.closing reply) .other (h.closeWatchers id) (.returned (stopResult id reply))

/-- How far a shutdown has come. -/
inductive ShutdownStage where
  | asked
  /-- Launches are refused. -/
  | closed
  /-- These instances are still to be stopped. -/
  | between (ids : List String)
  | stopping (id : String) (stage : StopStage) (ids : List String)
  /-- A shutdown that was not the first has done nothing. -/
  | returned (performed : Bool)

/-- One step of a shutdown. -/
inductive ShutsDown (h : Host) : ShutdownStage → Sign → Host → ShutdownStage → Prop where
  | repeated (hdown : h.shuttingDown = true) : ShutsDown h .asked .other h (.returned false)
  | close (hopen : h.shuttingDown = false) : ShutsDown h .asked .closed h.close.1 .closed
  | list : ShutsDown h .closed .listed h (.between (Keyed.keys h.instances))
  | next (id : String) (ids : List String) :
    ShutsDown h (.between (id :: ids)) .other h (.stopping id .asked ids)
  | stop {id : String} {ids : List String} {s s' : StopStage} {sign : Sign} {h' : Host}
      (hstep : Stops id h s sign h' s') :
    ShutsDown h (.stopping id s ids) sign h' (.stopping id s' ids)
  | stopped (id : String) (ids : List String) (result : Except HostError Snapshot) :
    ShutsDown h (.stopping id (.returned result) ids) .other h (.between ids)
  | finish : ShutsDown h (.between []) .other h (.returned true)

variable {h h' : Host} {id : String} {sign : Sign}

theorem aside_unregister (id : String) (h : Host) :
    Aside { h with instances := Keyed.erase id h.instances } (h.unregister id) :=
  ⟨rfl, rfl, rfl, rfl, le_rfl⟩

theorem aside_accept (a : Actor) (command : Command) (h : Host) : Aside h (h.accept a command) :=
  ⟨rfl, rfl, rfl, rfl, le_rfl⟩

theorem Stops.shifts {s s' : StopStage} (hstep : Stops id h s sign h' s') :
    Shifts h .nothing sign h' .nothing := by
  cases hstep with
  | missing | find | refused | crowded | lost | late | absent | ended =>
      exact .stay rfl (aside_refl h)
  | send => exact .stay rfl ((aside_accept _ _ h).wake _)
  | receive => exact .stay rfl (aside_takeReply _ h)
  | remove hfound => exact .unregister hfound (aside_unregister id h)
  | close => exact .stay rfl ⟨rfl, rfl, rfl, rfl, le_rfl⟩

theorem ShutsDown.shifts {s s' : ShutdownStage} (hstep : ShutsDown h s sign h' s') :
    Shifts h .nothing sign h' .nothing := by
  cases hstep with
  | repeated | list | next | stopped | finish => exact .stay rfl (aside_refl h)
  | close hopen =>
      have hclosed : h.close.1 = { h with shuttingDown := true } := by
        rw [Host.close, hopen]
        rfl
      rw [hclosed]
      exact .close
  | stop hstep => exact hstep.shifts

variable {n : Nat}

theorem stops_find (hn : (Keyed.get? id h.instances).map Registration.actor = some n) :
    Stops id h .asked (.found id (some n)) h (.sending n) := by
  obtain ⟨r, hr, rfl⟩ := Option.map_eq_some_iff.mp hn
  exact .find hr

theorem stops_remove (reply : Except HostError Reply)
    (hn : (Keyed.get? id h.instances).map Registration.actor = some n) :
    Stops id h (.answered reply) (.unregistered id n) (h.unregister id) (.ending n reply) := by
  obtain ⟨r, hr, rfl⟩ := Option.map_eq_some_iff.mp hn
  exact .remove hr

/-- A command that is sent by a stop is sent as any other command is. -/
theorem stops_send (hn : (Keyed.get? id h.instances).map Registration.actor = some n)
    (hroom : (h.actor? n).any fun a => a.inbox.length < h.config.host.commandCapacity) :
    Stops id h (.sending n) (.sent n .accepted) (h.feed (.send id .stop))
      (.waiting n h.nextCall) := by
  obtain ⟨r, hr, rfl⟩ := Option.map_eq_some_iff.mp hn
  cases ha : h.actor? r.actor with
  | none => simp [ha] at hroom
  | some a =>
      have hlt : a.inbox.length < h.config.host.commandCapacity := by simpa [ha] using hroom
      have hsent : h.feed (.send id .stop) = (h.accept a .stop).wake r.actor := by
        simp [feed, Host.send, hr, ha, hlt, Host.accept, (actor?_some ha).2]
      exact hsent ▸ .send ha hlt

theorem stops_receive (id : String) (n : Nat) {call : Nat}
    (hreply : (h.replies.lookup call).isSome) :
    ∃ reply, Stops id h (.waiting n call) .other (h.takeReply call).1 (.answered (.ok reply)) := by
  obtain ⟨reply, hreply⟩ := Option.isSome_iff_exists.mp hreply
  exact ⟨reply, .receive hreply⟩

end Statechart.Host
