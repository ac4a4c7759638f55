import Statechart.Broadcast.Filter
import Statechart.Keyed

/-!
# Broadcasting notifications

A watcher receives the notifications of one instance, or those of all instances that pass a
filter, from the moment of its subscription on. There is a channel for all instances, and one for
each instance that is watched, which is opened by the first subscription to it. A watcher keeps what
is sent on its channel and not yet read up to a capacity; when more arrives, the oldest are lost.
Closing an instance closes its channel, so that the streams of its watchers end, which still give
what they have kept; a later subscription opens another channel.
-/
namespace Statechart

/-- What a subscription is about: one instance, or all of them under a filter. -/
inductive Subject where
  | one (id : String)
  | all (filter : EventFilter)

namespace Subject

/-- Whether a notification that was sent is shown. A filter applies only now, when notifications
are read. -/
def shows (e : InstanceEvent) : Subject → Bool
  | .one _ => true
  | .all filter => filter.accepts e

/-- Whether a subscription is one to an instance. -/
def concerns (id : String) : Subject → Bool
  | .one other => other == id
  | .all _ => false

end Subject

/-- The channel for all instances, or one that has been opened for a single instance. -/
inductive Channel where
  | shared
  | own (number : Nat)
  deriving DecidableEq

/-- The receiving end of a subscription. -/
structure Watcher where
  subscription : String
  subject : Subject
  channel : Channel
  /-- What has been sent and not yet read, oldest first. -/
  unread : List InstanceEvent := []

/-- The outcome of trying to receive. -/
inductive Received where
  | event (e : InstanceEvent)
  | pending
  | closed

namespace Watcher

/-- Adds a notification, keeping the newest ones up to a capacity. -/
def push (capacity : Nat) (e : InstanceEvent) (w : Watcher) : Watcher :=
  let unread := w.unread ++ [e]
  { w with unread := unread.drop (unread.length - capacity) }

/-- Takes the next notification that is shown, if there is one, passing over the others. -/
def next (w : Watcher) : Watcher × Option InstanceEvent :=
  match w.unread.dropWhile fun e => !w.subject.shows e with
  | e :: rest => ({ w with unread := rest }, some e)
  | [] => ({ w with unread := [] }, none)

/-- Takes everything that is shown. -/
def drain (w : Watcher) : Watcher × List InstanceEvent :=
  ({ w with unread := [] }, w.unread.filter w.subject.shows)

end Watcher

structure Broadcaster where
  /-- How many unread notifications a watcher is meant to keep. -/
  capacity : Nat
  /-- The open channels of single instances, by instance. -/
  channels : Keyed Nat := []
  /-- The registered subscriptions by id. -/
  subscriptions : Keyed Subject := []
  /-- The watchers with their handles, in the order of their subscription. -/
  watchers : List (Nat × Watcher) := []
  nextHandle : Nat := 1
  nextChannel : Nat := 1

namespace Broadcaster

/-- How many notifications are kept: the capacity rounded up to a power of two. -/
def slots (b : Broadcaster) : Nat := b.capacity.nextPowerOfTwo

/-- Whether anything can still be sent on a channel. -/
def isOpen (b : Broadcaster) : Channel → Bool
  | .shared => true
  | .own number => b.channels.any fun (_, n) => n == number

/-- The channel of an instance, which is opened unless it is open. -/
def openChannel (id : String) (b : Broadcaster) : Broadcaster × Nat :=
  match Keyed.get? id b.channels with
  | some number => (b, number)
  | none =>
    ({ b with
        channels := Keyed.insert id b.nextChannel b.channels
        nextChannel := b.nextChannel + 1 }, b.nextChannel)

/-- The channel on which the notifications of a subject are sent. -/
def channelFor (subject : Subject) (b : Broadcaster) : Broadcaster × Channel :=
  match subject with
  | .one id =>
    let (b, number) := b.openChannel id
    (b, .own number)
  | .all _ => (b, .shared)

/-- Subscribes to a subject. Returns the handle of the watcher. -/
def subscribe (subject : Subject) (b : Broadcaster) : Broadcaster × Nat :=
  let subscription := "sub-" ++ toString b.nextHandle
  let (b, channel) := b.channelFor subject
  ({ b with
      subscriptions := Keyed.insert subscription subject b.subscriptions
      watchers := b.watchers ++ [(b.nextHandle, { subscription, subject, channel })]
      nextHandle := b.nextHandle + 1 }, b.nextHandle)

def watcher? (handle : Nat) (b : Broadcaster) : Option Watcher := b.watchers.lookup handle

/-- Changes a watcher. -/
def update (handle : Nat) (w : Watcher) (b : Broadcaster) : Broadcaster :=
  { b with watchers := b.watchers.map fun (h, old) => if h = handle then (h, w) else (h, old) }

/-- Forgets a subscription, whose watcher goes on receiving. Tells whether there was one. -/
def unsubscribe (subscription : String) (b : Broadcaster) : Broadcaster × Bool :=
  ({ b with subscriptions := Keyed.erase subscription b.subscriptions },
    Keyed.contains subscription b.subscriptions)

/-- Drops a watcher without forgetting its subscription. -/
def dropWatcher (handle : Nat) (b : Broadcaster) : Broadcaster :=
  { b with watchers := b.watchers.filter fun (h, _) => h ≠ handle }

/-- Sends a notification on a channel. -/
def send (channel : Channel) (e : InstanceEvent) (b : Broadcaster) : Broadcaster :=
  { b with watchers := b.watchers.map fun (h, w) =>
      if w.channel = channel then (h, w.push b.slots e) else (h, w) }

/-- Sends a notification on the channel of its instance, if that is open, and on the one for all
instances. -/
def notify (e : InstanceEvent) (b : Broadcaster) : Broadcaster :=
  let b :=
    match Keyed.get? e.instanceId b.channels with
    | some number => b.send (.own number) e
    | none => b
  b.send .shared e

/-- Closes the channel of an instance and forgets the subscriptions to it. -/
def closeInstance (id : String) (b : Broadcaster) : Broadcaster :=
  { b with
    channels := Keyed.erase id b.channels
    subscriptions := b.subscriptions.filter fun (_, subject) => !subject.concerns id }

/-- Takes the next notification of a watcher; there is none from an unknown one. -/
def receive (handle : Nat) (b : Broadcaster) : Broadcaster × Received :=
  match b.watcher? handle with
  | none => (b, .closed)
  | some w =>
    match w.next with
    | (w, some e) => (b.update handle w, .event e)
    | (w, none) => (b.update handle w, if b.isOpen w.channel then .pending else .closed)

/-- Takes all notifications that a watcher has kept. -/
def drain (handle : Nat) (b : Broadcaster) : Broadcaster × List InstanceEvent :=
  match b.watcher? handle with
  | none => (b, [])
  | some w =>
    let (w, events) := w.drain
    (b.update handle w, events)

end Broadcaster

end Statechart
