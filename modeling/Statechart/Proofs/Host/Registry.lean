import Statechart.Proofs.Host.Run
import Statechart.Proofs.Keyed

/-!
# The registry of a host

A host knows its instances by id, and the ids of launches in progress. Launches, stops and a
shutdown are all that changes these, and there are few ways in which one step of theirs does.
Whatever else a host does leaves the registry alone, since machines, their actors and the runner
have no access to it.
-/
namespace Statechart.Host

/-- What else a host does meanwhile: nothing changes of what is registered, of what is reserved, or
of whether launches are refused. -/
structure Aside (h h' : Host) : Prop where
  config : h'.config = h.config
  instances : h'.instances = h.instances
  reserved : h'.reserved = h.reserved
  shuttingDown : h'.shuttingDown = h.shuttingDown
  nextActor : h.nextActor ≤ h'.nextActor

variable {h h' h'' : Host}

theorem aside_refl (h : Host) : Aside h h := ⟨rfl, rfl, rfl, rfl, le_rfl⟩

theorem Aside.trans (haside : Aside h h') (haside' : Aside h' h'') : Aside h h'' where
  config := haside'.config.trans haside.config
  instances := haside'.instances.trans haside.instances
  reserved := haside'.reserved.trans haside.reserved
  shuttingDown := haside'.shuttingDown.trans haside.shuttingDown
  nextActor := haside.nextActor.trans haside'.nextActor

theorem aside_performs (number : Nat) (id : String) (effects : List Effect) : ∀ h : Host,
    Aside h (effects.foldl (perform number id) h) := by
  induction effects with
  | nil => exact aside_refl
  | cons e effects ih =>
      intro h
      have hfirst : Aside h (h.perform number id e) := by
        cases e <;> exact ⟨rfl, rfl, rfl, rfl, le_rfl⟩
      exact hfirst.trans (ih _)

theorem aside_operate {α : Type} (operation : Machine → Machine × α) (a : Actor) (h : Host) :
    Aside h (h.operate operation a).1 := by
  have hupdated : Aside h (h.update (carried operation a h)) := ⟨rfl, rfl, rfl, rfl, le_rfl⟩
  exact hupdated.trans (aside_performs a.number a.instanceId _ _)

theorem Aside.update (haside : Aside h h') (a : Actor) : Aside h (h'.update a) :=
  haside.trans ⟨rfl, rfl, rfl, rfl, le_rfl⟩

theorem Aside.remove (haside : Aside h h') (n : Nat) : Aside h (h'.remove n) :=
  haside.trans ⟨rfl, rfl, rfl, rfl, le_rfl⟩

theorem Aside.wake (haside : Aside h h') (n : Nat) : Aside h (h'.wake n) :=
  haside.trans ⟨rfl, rfl, rfl, rfl, le_rfl⟩

theorem Aside.answer (haside : Aside h h') (call : Nat) (reply : Reply) :
    Aside h (h'.answer call reply) :=
  haside.trans ⟨rfl, rfl, rfl, rfl, le_rfl⟩

theorem Aside.runner (haside : Aside h h') (r : Runner) : Aside h { h' with runner := r } :=
  haside.trans ⟨rfl, rfl, rfl, rfl, le_rfl⟩

theorem aside_carryOut (r : Request) (a : Actor) (h : Host) : Aside h (h.carryOut r a) := by
  unfold Host.carryOut
  cases r.command with
  | dispatch event => exact (aside_operate (·.dispatch event) a h).answer _ _
  | snapshot => exact (aside_refl h).answer _ _
  | stop => exact ((aside_operate Machine.halt a h).answer _ _).remove _

theorem aside_act (a : Actor) (h : Host) : Aside h (h.act a) := by
  unfold Host.act
  split
  · next r rest _ =>
      exact ((aside_refl h).update { a with inbox := rest }).trans (aside_carryOut r _ _)
  · split
    · exact (aside_operate _ a h).remove _
    · split
      · exact aside_operate _ a h
      · exact aside_refl h

theorem aside_actorTurn (n : Nat) (h : Host) : Aside h (h.actorTurn n) := by
  unfold Host.actorTurn
  split
  · exact aside_refl h
  · next a _ =>
      split
      · have hact := aside_act a h
        dsimp only
        split
        · exact hact
        · split
          · exact hact.runner _
          · exact hact
      · exact aside_refl h

theorem Aside.deliver (haside : Aside h h') (r : Report) : Aside h (h'.deliver r) := by
  unfold Host.deliver
  split
  · exact haside
  · exact (haside.update _).wake _

theorem aside_turn? (ht : h.turn? = some h') : Aside h h' := by
  unfold Host.turn? at ht
  split at ht
  · cases ht
  · next turn rest _ =>
      have hrest := (aside_refl h).runner { h.runner with turns := rest }
      cases turn with
      | owner n =>
          cases ht
          exact hrest.trans (aside_actorTurn n _)
      | task n =>
          dsimp only at ht
          split at ht <;> cases ht
          · exact (hrest.runner _).deliver _
          · exact hrest.runner _

theorem aside_takeTurns (fuel : Nat) : ∀ h : Host, Aside h (h.takeTurns fuel) := by
  induction fuel with
  | zero => exact aside_refl
  | succ fuel ih =>
      intro h
      unfold Host.takeTurns
      split
      · exact aside_refl h
      · next ht => exact (aside_turn? ht).trans (ih _)

theorem Aside.settle (haside : Aside h h') : Aside h h'.settle :=
  haside.trans (aside_takeTurns _ _)

theorem Aside.advance (haside : Aside h h') (ms : Nat) : Aside h (h'.advance ms) :=
  (haside.runner _).settle

theorem aside_sleepUntil (fuel : Nat) : ∀ (time : Nat) (h : Host),
    Aside h (h.sleepUntil fuel time) := by
  induction fuel with
  | zero => exact fun _ => aside_refl
  | succ fuel ih =>
      intro time h
      unfold Host.sleepUntil
      split
      · split
        · exact ((aside_refl h).advance _).trans (ih time _)
        · exact (aside_refl h).advance _
      · exact (aside_refl h).advance _

theorem aside_send {id : String} {command : Command} {call : Nat}
    (hs : h.send id command = .ok (h', call)) : Aside h h' := by
  unfold Host.send at hs
  split at hs
  · cases hs
  · split at hs <;> cases hs
    exact ⟨rfl, rfl, rfl, rfl, le_rfl⟩

theorem aside_takeReply (call : Nat) (h : Host) : Aside h (h.takeReply call).1 :=
  ⟨rfl, rfl, rfl, rfl, le_rfl⟩

theorem aside_submit (id : String) (command : Command) (h : Host) :
    Aside h (h.submit id command).1 := by
  unfold Host.submit
  split
  · next hs => exact aside_send hs
  · split
    · split
      · next hs => exact (aside_refl h).settle.trans (aside_send hs)
      · exact (aside_refl h).settle
    · exact aside_refl h

theorem aside_request (id : String) (command : Command) (h : Host) :
    Aside h (h.request id command).1 := by
  have hsubmitted := aside_submit id command h
  unfold Host.request
  split
  · next heq => rwa [heq] at hsubmitted
  · next h' call heq =>
      rw [heq] at hsubmitted
      have htaken := hsubmitted.settle.trans (aside_takeReply call _)
      dsimp only
      split
      · exact htaken
      · split <;> exact htaken

theorem aside_dispatch (id : String) (event : Event) (h : Host) :
    Aside h (h.dispatch id event).1 := by
  have hrequest := aside_request id (.dispatch event) h
  unfold Host.dispatch
  split <;> next heq => rwa [heq] at hrequest

theorem aside_snapshot (id : String) (h : Host) : Aside h (h.snapshot id).1 := by
  have hrequest := aside_request id .snapshot h
  unfold Host.snapshot
  split <;> next heq => rwa [heq] at hrequest

theorem aside_abandon (n : Nat) (h : Host) : Aside h (h.abandon n) := by
  unfold Host.abandon
  split
  · have hforgotten : Aside h { h with awaited := h.awaited.erase n } :=
      ⟨rfl, rfl, rfl, rfl, le_rfl⟩
    dsimp only
    split
    · exact hforgotten
    · exact (hforgotten.update _).wake n
  · exact aside_refl h

/-- An input that may change what is registered. -/
def Input.administers : Input → Bool
  | .spawn .. | .restore .. | .stop _ | .shutdown => true
  | _ => false

/-- All other inputs leave the registry alone. -/
theorem aside_feed (input : Input) (hother : input.administers = false) (h : Host) :
    Aside h (h.feed input) := by
  cases input with
  | spawn | restore | stop | shutdown => cases hother
  | registerChart | registerPredicate | registerService =>
      exact ⟨rfl, rfl, rfl, rfl, le_rfl⟩
  | dispatch id event => exact aside_dispatch id event h
  | snapshot id => exact aside_snapshot id h
  | abandon actor => exact aside_abandon actor h
  | send id command =>
      rw [feed]
      split
      · next hs => exact aside_send hs
      · exact aside_refl h
  | turn =>
      rw [feed]
      cases ht : h.turn? with
      | none => exact aside_refl h
      | some h' => exact aside_turn? ht
  | advance ms => exact (aside_refl h).advance ms
  | sleep ms => exact (aside_refl h).settle.trans (aside_sleepUntil _ _ _)

/-- What has become of a command that was to be sent to an actor. -/
inductive Sending where
  | accepted
  /-- The actor has ended. -/
  | refused
  /-- There has been no room in the actor's inbox in time. -/
  | crowded
  deriving DecidableEq

/-- What can be told of a step by looking at what has become of the registry and of commands. -/
inductive Sign where
  | registered (id : String) (actor : Nat)
  | unregistered (id : String) (actor : Nat)
  /-- A stop has looked up which actor is registered under its id. -/
  | found (id : String) (actor : Option Nat)
  /-- A stop was to send its command to an actor. -/
  | sent (actor : Nat) (outcome : Sending)
  /-- Launches are refused from now on. -/
  | closed
  /-- A shutdown has read which instances there are. -/
  | listed
  | other

/-- Whether a step has changed what is registered. -/
def Sign.enrols : Sign → Bool
  | registered .. | unregistered .. => true
  | _ => false

/-- The actor registered under an id after a step, from that before it. -/
def Sign.entry (id : String) (before : Option Nat) : Sign → Option Nat
  | registered i n => if i = id then some n else before
  | unregistered i _ => if i = id then none else before
  | found .. | sent .. | closed | listed | other => before

theorem Sign.entry_of_not {sign : Sign} (h : sign.enrols = false) (id : String)
    (before : Option Nat) : sign.entry id before = before := by
  cases sign <;> first | rfl | cases h

/-- Only a step that registers or takes out the instance of an id changes what is known of it. -/
theorem Sign.entry_cases (sign : Sign) (id : String) (before : Option Nat) :
    sign.entry id before = before ∨
      (∃ n, sign = .registered id n ∧ sign.entry id before = some n) ∨
      ∃ n, sign = .unregistered id n ∧ sign.entry id before = none := by
  cases sign with
  | registered i n =>
      by_cases hi : i = id
      · exact .inr (.inl ⟨n, by rw [hi], if_pos hi⟩)
      · exact .inl (if_neg hi)
  | unregistered i n =>
      by_cases hi : i = id
      · exact .inr (.inr ⟨n, by rw [hi], if_pos hi⟩)
      · exact .inl (if_neg hi)
  | found | sent | closed | listed | other => exact .inl rfl

/-- What a call has of the registry. -/
inductive Stake where
  | nothing
  /-- It has reserved the id. -/
  | holds (id : String)
  /-- Also, nothing is registered under the id. -/
  | claims (id : String)
  /-- Also, there is an actor that can be registered. -/
  | raises (id : String) (actor : Nat)

def Stake.held? : Stake → Option String
  | nothing => none
  | holds id | claims id | raises id _ => some id

def Stake.claimed? : Stake → Option String
  | claims id | raises id _ => some id
  | _ => none

def Stake.actor? : Stake → Option Nat
  | raises _ n => some n
  | _ => none

/-- The ways in which a step of a call changes the registry and what the call has of it. -/
inductive Shifts (h : Host) : Stake → Sign → Host → Stake → Prop where
  | stay {stake : Stake} {sign : Sign} {h' : Host} (hsign : sign.enrols = false)
      (haside : Aside h h') : Shifts h stake sign h' stake
  | reserve {id : String} (hnew : id ∉ h.reserved) :
    Shifts h .nothing .other { h with reserved := id :: h.reserved } (.holds id)
  | claim {id : String} (hnone : Keyed.get? id h.instances = none) :
    Shifts h (.holds id) .other h (.claims id)
  | raise {id : String} {h' : Host} (haside : Aside h h') (hnext : h.nextActor < h'.nextActor) :
    Shifts h (.claims id) .other h' (.raises id h.nextActor)
  | yield {id : String} {stake : Stake} {h' : Host} (hheld : stake.held? = some id)
      (haside : Aside h h') : Shifts h stake .other h' (.holds id)
  | register {id : String} {n : Nat} {r : Registration} {h' : Host} (hactor : r.actor = n)
      (haside : Aside { h with instances := Keyed.insert id r h.instances } h') :
    Shifts h (.raises id n) (.registered id n) h' (.holds id)
  | release (id : String) : Shifts h (.holds id) .other (h.unreserve id) .nothing
  | unregister {id : String} {r : Registration} {h' : Host}
      (hfound : Keyed.get? id h.instances = some r)
      (haside : Aside { h with instances := Keyed.erase id h.instances } h') :
    Shifts h .nothing (.unregistered id r.actor) h' .nothing
  | close : Shifts h .nothing .closed { h with shuttingDown := true } .nothing

section shifts
variable {s s' : Stake} {sign : Sign}

theorem Shifts.nextActor (hshift : Shifts h s sign h' s') : h.nextActor ≤ h'.nextActor := by
  cases hshift with
  | stay _ haside | raise haside | yield _ haside => exact haside.nextActor
  | register _ haside | unregister _ haside => exact haside.nextActor
  | reserve | claim | release | close => exact le_rfl

theorem Shifts.config (hshift : Shifts h s sign h' s') : h'.config = h.config := by
  cases hshift with
  | stay _ haside | raise haside | yield _ haside => exact haside.config
  | register _ haside | unregister _ haside => exact haside.config
  | reserve | claim | release | close => rfl

/-- Once launches are refused, they stay so. -/
theorem Shifts.shuttingDown (hshift : Shifts h s sign h' s') (hdown : h.shuttingDown = true) :
    h'.shuttingDown = true := by
  cases hshift with
  | stay _ haside | raise haside | yield _ haside => exact haside.shuttingDown.trans hdown
  | register _ haside | unregister _ haside => exact haside.shuttingDown.trans hdown
  | reserve | claim | release => exact hdown
  | close => rfl

/-- The sign of a step tells what has become of the instance of an id. -/
theorem Shifts.entry (hshift : Shifts h s sign h' s') (hsorted : Keyed.Sorted h.instances)
    (id : String) : (Keyed.get? id h'.instances).map Registration.actor =
      sign.entry id ((Keyed.get? id h.instances).map Registration.actor) := by
  cases hshift with
  | stay hsign haside => rw [haside.instances, Sign.entry_of_not hsign]
  | raise haside | yield _ haside => rw [haside.instances, Sign.entry]
  | reserve | claim | release | close => rfl
  | @register i n r h' hactor haside =>
      rw [haside.instances, Sign.entry]
      split
      · next hi => rw [hi, Keyed.get?_insert_self, Option.map_some, hactor]
      · next hi => rw [Keyed.get?_insert_of_ne (Ne.symm hi)]
  | @unregister i r h' _ haside =>
      rw [haside.instances, Sign.entry]
      split
      · next hi => rw [hi, Keyed.get?_erase_self hsorted, Option.map_none]
      · next hi => rw [Keyed.get?_erase_of_ne (Ne.symm hi)]

theorem Shifts.sorted (hshift : Shifts h s sign h' s') (hsorted : Keyed.Sorted h.instances) :
    Keyed.Sorted h'.instances := by
  cases hshift with
  | stay _ haside | raise haside | yield _ haside =>
      rw [haside.instances]
      exact hsorted
  | reserve | claim | release | close => exact hsorted
  | register _ haside =>
      rw [haside.instances]
      exact hsorted.insert
  | unregister _ haside =>
      rw [haside.instances]
      exact hsorted.erase

/-- What a call has of actors after a step: what it had before, or a new one. -/
theorem Shifts.actor {n : Nat} (hshift : Shifts h s sign h' s')
    (hn : s'.actor? = some n) : s.actor? = some n ∨ n = h.nextActor ∧ n < h'.nextActor := by
  cases hshift with
  | stay => exact .inl hn
  | raise _ hnext =>
      cases hn
      exact .inr ⟨rfl, hnext⟩
  | reserve | claim | yield | register | release | unregister | close => cases hn

end shifts

end Statechart.Host
