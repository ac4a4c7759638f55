import Mathlib.Data.List.Infix
import Mathlib.Data.List.TakeWhile
import Statechart.Proofs.Broadcast.Channels

/-!
# Delivery of notifications

What a subscription is due is told by the calls that come after it: a watcher of all instances is
due what is notified and passes its filter, a watcher of one instance what is notified of it before
the instance is closed. As long as a watcher has room, what it has been given together with what it
keeps is what it is due, in order. The channel of the watcher carries this: until the instance is
closed it is the open channel of the instance, and then it is no open channel any more.
-/
namespace Statechart

open Broadcaster (Call)

namespace Broadcaster.Call

def notified? : Call → Option InstanceEvent
  | .notify e => some e
  | _ => none

/-- Whether the instance of a subscription is closed. -/
def ends (subject : Subject) : Call → Bool
  | .close id => subject.concerns id
  | _ => false

end Broadcaster.Call

namespace Subject

/-- What is notified in some calls, in order. -/
def notified (calls : List Call) : List InstanceEvent := calls.filterMap Call.notified?

/-- What a watcher is to be given of the calls after its subscription. -/
def due (calls : List Call) : Subject → List InstanceEvent
  | .one id =>
    (notified (calls.takeWhile fun c => !c.ends (.one id))).filter fun e => e.instanceId == id
  | .all filter => (notified calls).filter filter.accepts

/-- Whether the stream of a watcher ends in the calls after its subscription. -/
def ended (calls : List Call) (subject : Subject) : Bool := calls.any (Call.ends subject)

/-- Whether a watcher is due a notification while its stream goes on. -/
def wants (e : InstanceEvent) : Subject → Bool
  | .one id => e.instanceId == id
  | .all filter => filter.accepts e

variable {subject : Subject} {id : String} {calls : List Call}

@[simp] theorem ended_concat (calls : List Call) (c : Call) (subject : Subject) :
    subject.ended (calls ++ [c]) = (subject.ended calls || c.ends subject) := by
  simp [ended]

theorem ended_all (filter : EventFilter) (calls : List Call) :
    (Subject.all filter).ended calls = false := by
  refine List.any_eq_false.mpr fun c _ => ?_
  cases c <;> simp [Call.ends, concerns]

/-- Up to the end of a stream, one more call counts unless the stream has ended. -/
theorem going_concat (calls : List Call) (c : Call) (subject : Subject) :
    (calls ++ [c]).takeWhile (fun c => !c.ends subject) =
      calls.takeWhile (fun c => !c.ends subject) ++
        if subject.ended calls then [] else [c].takeWhile fun c => !c.ends subject := by
  induction calls with
  | nil => simp [ended]
  | cons first rest ih =>
      cases hfirst : first.ends subject with
      | true => simp [ended, hfirst]
      | false => simpa [ended, hfirst] using ih

/-- What one more call adds to what is due. -/
theorem due_concat (calls : List Call) (c : Call) (subject : Subject) :
    subject.due (calls ++ [c]) = subject.due calls ++
      if subject.ended calls then [] else c.notified?.toList.filter subject.wants := by
  cases subject with
  | one id =>
      simp only [due, going_concat, notified, List.filterMap_append, List.filter_append]
      cases hended : (Subject.one id).ended calls with
      | true => simp
      | false =>
          cases c with
          | close other =>
              cases hother : (Call.close other).ends (.one id) <;> simp [Call.notified?, hother]
          | notify e => simp [Call.notified?, Call.ends, wants]
          | subscribe | unsubscribe | receive | drain | drop => simp [Call.notified?, Call.ends]
  | all filter =>
      simp only [due, ended_all, notified, List.filterMap_append, List.filter_append]
      cases c <;> simp [Call.notified?, wants]

/-- Nothing that comes after the end of a stream is due. -/
theorem due_close (before after : List Call) (id : String) :
    (Subject.one id).due (before ++ .close id :: after) = (Subject.one id).due before := by
  have hends : (Call.close id).ends (.one id) = true := by simp [Call.ends, concerns]
  have hgoing : (before ++ .close id :: after).takeWhile (fun c => !c.ends (.one id)) =
      before.takeWhile fun c => !c.ends (.one id) := by
    induction before with
    | nil => simp [hends]
    | cons first rest ih =>
        cases hfirst : first.ends (.one id) with
        | true => simp [hfirst]
        | false => simpa [hfirst] using ih
  simp only [due, hgoing]

end Subject

namespace Broadcaster

variable {b : Broadcaster} {handle : Nat} {subject : Subject} {past : List Call}
  {had : List InstanceEvent} {w : Watcher} {channel : Channel}

/-- What a call takes from a watcher for its reader. -/
def taken (handle : Nat) (b : Broadcaster) : Call → List InstanceEvent
  | .receive other =>
    if other = handle then
      match (b.receive handle).2 with
      | .event e => [e]
      | .pending | .closed => []
    else []
  | .drain other => if other = handle then (b.drain handle).2 else []
  | .subscribe _ | .unsubscribe _ | .notify _ | .close _ | .drop _ => []

/-- What some calls take from a watcher, in order. -/
def given (handle : Nat) : Broadcaster → List Call → List InstanceEvent
  | _, [] => []
  | b, c :: rest => b.taken handle c ++ given handle (b.feed c) rest

/-- Whether a call leaves a watcher all that it keeps: it is not dropped, and a notification on its
channel finds room. -/
def spares (handle : Nat) (b : Broadcaster) : Call → Bool
  | .notify e =>
    (b.watcher? handle).all fun w => !b.carries e w.channel || w.unread.length < b.slots
  | .drop other => other != handle
  | _ => true

/-- Whether each of some calls leaves a watcher all that it keeps. -/
def sparesAll (handle : Nat) : Broadcaster → List Call → Bool
  | _, [] => true
  | b, c :: rest => b.spares handle c && sparesAll handle (b.feed c) rest

/-- The channel of a watcher after some calls: the shared one, or the one that has been opened for
the instance, which is open until the instance is closed. -/
def Tuned (b : Broadcaster) (past : List Call) (channel : Channel) : Subject → Prop
  | .all _ => channel = .shared
  | .one id => ∃ n, channel = .own n ∧ n < b.nextChannel ∧
      if (Subject.one id).ended past then ∀ entry ∈ b.channels, entry.2 ≠ n
      else Keyed.get? id b.channels = some n

/-- A watcher is reached by what it wants while its stream goes on. -/
theorem Tuned.carries (h : b.Tuned past channel subject) (hb : b.Wired) (e : InstanceEvent) :
    (b.carries e channel = true ∧ subject.ended past = false ∧ subject.shows e = subject.wants e) ∨
      (b.carries e channel = false ∧ (subject.ended past = true ∨ subject.wants e = false)) := by
  cases subject with
  | all filter =>
      obtain rfl : channel = .shared := h
      exact .inl ⟨rfl, Subject.ended_all filter past, rfl⟩
  | one id =>
      obtain ⟨n, rfl, -, hopen⟩ := h
      cases hended : (Subject.one id).ended past with
      | true =>
          rw [if_pos hended] at hopen
          have hne : Keyed.get? e.instanceId b.channels ≠ some n := fun hfound =>
            hopen _ (Keyed.mem_of_get? hfound) rfl
          exact .inr ⟨beq_false_of_ne hne, .inl rfl⟩
      | false =>
          rw [if_neg (by simp [hended])] at hopen
          by_cases hid : e.instanceId = id
          · left
            simp [Broadcaster.carries, hid, hopen, Subject.shows, Subject.wants]
          · right
            -- Another instance has another channel.
            refine ⟨beq_false_of_ne fun hfound => hid ?_, .inr (by simp [Subject.wants, hid])⟩
            have hsame := hb.distinct _ (Keyed.mem_of_get? hfound) _ (Keyed.mem_of_get? hopen) rfl
            exact congrArg Prod.fst hsame

/-- The channel of a watcher is open until its stream ends. -/
theorem Tuned.isOpen (h : b.Tuned past channel subject) :
    b.isOpen channel = !subject.ended past := by
  cases subject with
  | all filter =>
      obtain rfl : channel = .shared := h
      rw [Subject.ended_all]
      rfl
  | one id =>
      obtain ⟨n, rfl, -, hopen⟩ := h
      cases hended : (Subject.one id).ended past with
      | true =>
          rw [if_pos hended] at hopen
          simpa [Broadcaster.isOpen] using fun key m hm => hopen (key, m) hm
      | false =>
          rw [if_neg (by simp [hended])] at hopen
          exact List.any_eq_true.mpr ⟨_, Keyed.mem_of_get? hopen, beq_self_eq_true n⟩

/-- Channels are left alone by a call that ends no stream. -/
theorem Tuned.keep {b' : Broadcaster} {c : Call} (h : b.Tuned past channel subject)
    (hchannels : b'.channels = b.channels) (hnext : b'.nextChannel = b.nextChannel)
    (hends : c.ends subject = false) : b'.Tuned (past ++ [c]) channel subject := by
  cases subject with
  | all => exact h
  | one id =>
      obtain ⟨n, hchannel, hlt, hopen⟩ := h
      refine ⟨n, hchannel, hnext ▸ hlt, ?_⟩
      rwa [Subject.ended_concat, hends, Bool.or_false, hchannels]

theorem Tuned.openChannel (h : b.Tuned past channel subject) (id : String) (c : Call)
    (hends : c.ends subject = false) :
    (b.openChannel id).1.Tuned (past ++ [c]) channel subject := by
  unfold Broadcaster.openChannel
  split
  · exact h.keep rfl rfl hends
  · next hnone =>
      cases subject with
      | all => exact h
      | one other =>
          obtain ⟨n, hchannel, hlt, hopen⟩ := h
          refine ⟨n, hchannel, hlt.trans (Nat.lt_succ_self _), ?_⟩
          rw [Subject.ended_concat, hends, Bool.or_false]
          split at hopen <;> rename_i hended
          · rw [if_pos hended]
            intro entry hentry
            rcases Keyed.mem_insert hentry with rfl | hentry
            · exact hlt.ne'
            · exact hopen entry hentry
          · rw [if_neg hended]
            have hne : other ≠ id := by
              rintro rfl
              rw [hnone] at hopen
              cases hopen
            rwa [Keyed.get?_insert_of_ne hne]

theorem Tuned.close (h : b.Tuned past channel subject) (hb : b.Wired) (id : String) :
    (b.closeInstance id).Tuned (past ++ [.close id]) channel subject := by
  cases subject with
  | all => exact h
  | one other =>
      obtain ⟨n, hchannel, hlt, hopen⟩ := h
      refine ⟨n, hchannel, hlt, ?_⟩
      rw [Subject.ended_concat]
      cases hended : (Subject.one other).ended past with
      | true =>
          rw [if_pos hended] at hopen
          rw [Bool.true_or, if_pos rfl]
          exact fun entry hentry => hopen entry (Keyed.erase_subset hentry)
      | false =>
          rw [if_neg (by simp [hended])] at hopen
          by_cases hid : other = id
          · obtain rfl := hid
            rw [if_pos (by simp [Call.ends, Subject.concerns])]
            intro entry hentry hnumber
            -- The number belongs to the entry that is gone.
            have hsame :=
              hb.distinct entry (Keyed.erase_subset hentry) _ (Keyed.mem_of_get? hopen) hnumber
            exact hb.sorted.ne_of_mem_erase hentry (congrArg Prod.fst hsame)
          · rw [if_neg (by simp [Call.ends, Subject.concerns, hid])]
            exact (Keyed.get?_erase_of_ne hid).trans hopen

theorem filter_of_dropWhile {l rest : List InstanceEvent} {e : InstanceEvent}
    {p : InstanceEvent → Bool} (h : l.dropWhile (fun e => !p e) = e :: rest) :
    l.filter p = e :: rest.filter p := by
  induction l with
  | nil => cases h
  | cons x l ih =>
      cases hp : p x with
      | true =>
          obtain ⟨rfl, rfl⟩ : x = e ∧ l = rest := by simpa [hp] using h
          exact List.filter_cons_of_pos hp
      | false =>
          rw [List.filter_cons_of_neg (by simp [hp])]
          exact ih (by simpa [hp] using h)

theorem filter_of_dropWhile_nil {l : List InstanceEvent} {p : InstanceEvent → Bool}
    (h : l.dropWhile (fun e => !p e) = []) : l.filter p = [] := by
  rw [List.filter_eq_nil_iff]
  simpa using List.dropWhile_eq_nil_iff.mp h

theorem push_of_lt {capacity : Nat} (h : w.unread.length < capacity) (e : InstanceEvent) :
    w.push capacity e = { w with unread := w.unread ++ [e] } := by
  have hfits : w.unread.length + 1 - capacity = 0 := by omega
  simp [Watcher.push, hfits]

/-- A watcher that has been given something after its subscription: together with what it keeps,
this is what it is due of the calls since then. -/
structure Serves (handle : Nat) (subject : Subject) (past : List Call) (had : List InstanceEvent)
    (b : Broadcaster) : Prop where
  wired : b.Wired
  watches : ∃ w, b.watcher? handle = some w ∧ w.subject = subject ∧
    had ++ w.unread.filter (fun e => subject.shows e) = subject.due past ∧
    b.Tuned past w.channel subject

section serves
variable (h : Serves handle subject past had b)
include h

/-- A call that notifies nothing and leaves the watcher what it is. -/
theorem Serves.other {c : Call} (hnone : c.notified? = none)
    (hwatcher : (b.feed c).watcher? handle = b.watcher? handle)
    (htuned : ∀ channel, b.Tuned past channel subject →
      (b.feed c).Tuned (past ++ [c]) channel subject) :
    Serves handle subject (past ++ [c]) had (b.feed c) := by
  obtain ⟨w, hw, hsubject, hdue, hchannel⟩ := h.watches
  refine ⟨h.wired.feed c, w, hwatcher.trans hw, hsubject, ?_, htuned _ hchannel⟩
  rw [Subject.due_concat, hnone, hdue]
  simp

/-- A call that only takes from the watcher. -/
theorem Serves.take {c : Call} {w w' : Watcher} {new : List InstanceEvent}
    (hnone : c.notified? = none) (hends : c.ends subject = false) (hw : b.watcher? handle = some w)
    (hfed : b.feed c = b.update handle w') (hsubject : w'.subject = w.subject)
    (hchannel : w'.channel = w.channel)
    (hnew : new ++ w'.unread.filter (fun e => w.subject.shows e) =
      w.unread.filter fun e => w.subject.shows e) :
    Serves handle subject (past ++ [c]) (had ++ new) (b.feed c) := by
  obtain ⟨_, hw', rfl, hdue, htuned⟩ := h.watches
  obtain rfl := Option.some.inj (hw.symm.trans hw')
  rw [hfed]
  refine ⟨h.wired.update handle w', w', watcher?_update_self hw w', hsubject, ?_, ?_⟩
  · rw [List.append_assoc, hnew, hdue, Subject.due_concat, hnone]
    simp
  · rw [hchannel]
    exact htuned.keep rfl rfl hends

theorem Serves.subscribe (other : Subject) :
    Serves handle subject (past ++ [.subscribe other]) had (b.feed (.subscribe other)) := by
  obtain ⟨w, hw, -⟩ := h.watches
  have hne : handle ≠ b.nextHandle := by
    rintro rfl
    rw [h.wired.watcher?_next] at hw
    cases hw
  refine h.other rfl ?_ fun channel htuned => ?_
  · obtain ⟨hwatchers, hnext⟩ := channelFor_watchers other b
    simp only [Broadcaster.feed, Broadcaster.subscribe, watcher?, hwatchers, List.lookup_append,
      hnext, List.lookup_cons, beq_false_of_ne hne, List.lookup_nil, Option.or_none]
  · cases other with
    | one id => exact htuned.openChannel id _ rfl
    | all => exact htuned.keep rfl rfl rfl

theorem Serves.notify (e : InstanceEvent) (hspares : b.spares handle (.notify e) = true) :
    Serves handle subject (past ++ [.notify e]) had (b.feed (.notify e)) := by
  obtain ⟨w, hw, hsubject, hdue, htuned⟩ := h.watches
  obtain ⟨hchannels, hnext⟩ := notify_channels e b
  have hfed : (b.feed (.notify e)).watcher? handle = _ := watcher?_notify e b
  have hkept := htuned.keep (c := .notify e) hchannels hnext rfl
  rw [hw, Option.map_some] at hfed
  rcases htuned.carries h.wired e with ⟨hcarries, hgoing, hshows⟩ | ⟨hcarries, hnot⟩
  · have hroom : w.unread.length < b.slots := by simpa [spares, hw, hcarries] using hspares
    rw [if_pos hcarries, push_of_lt hroom] at hfed
    refine ⟨h.wired.notify e, _, hfed, hsubject, ?_, hkept⟩
    rw [Subject.due_concat, if_neg (by simp [hgoing]), ← hdue, List.filter_append]
    simp [Call.notified?, List.filter_singleton, hshows]
  · rw [if_neg (by simp [hcarries])] at hfed
    refine ⟨h.wired.notify e, w, hfed, hsubject, ?_, hkept⟩
    rw [Subject.due_concat, hdue]
    rcases hnot with hended | hunwanted
    · simp [hended]
    · simp [Call.notified?, hunwanted]

/-- A call that only takes from another watcher. -/
theorem Serves.takeOther {c : Call} {other : Nat} (hc : c = .receive other ∨ c = .drain other)
    (hother : other ≠ handle) : Serves handle subject (past ++ [c]) had (b.feed c) := by
  have hnone : c.notified? = none ∧ c.ends subject = false := by
    rcases hc with rfl | rfl <;> exact ⟨rfl, rfl⟩
  rcases feed_takes hc b with heq | ⟨w, heq⟩
  · exact h.other hnone.1 (by rw [heq]) fun _ htuned => by
      rw [heq]
      exact htuned.keep rfl rfl hnone.2
  · refine h.other hnone.1 ?_ fun _ htuned => ?_
    · rw [heq]
      exact watcher?_update_of_ne hother w b
    · rw [heq]
      exact htuned.keep rfl rfl hnone.2

theorem Serves.receive (other : Nat) :
    Serves handle subject (past ++ [.receive other]) (had ++ b.taken handle (.receive other))
      (b.feed (.receive other)) := by
  obtain ⟨w, hw, rfl, -⟩ := h.watches
  by_cases hother : other = handle
  · obtain rfl := hother
    cases hnext : w.unread.dropWhile fun e => !w.subject.shows e with
    | nil =>
        have hfed : b.feed (.receive other) = b.update other { w with unread := [] } := by
          simp [Broadcaster.feed, Broadcaster.receive, hw, Watcher.next, hnext]
        have htaken : b.taken other (.receive other) = [] := by
          simp only [taken, Broadcaster.receive, hw, Watcher.next, hnext, if_true]
          cases b.isOpen w.channel <;> rfl
        rw [htaken]
        exact h.take rfl rfl hw hfed rfl rfl (filter_of_dropWhile_nil hnext).symm
    | cons e rest =>
        have hfed : b.feed (.receive other) = b.update other { w with unread := rest } := by
          simp [Broadcaster.feed, Broadcaster.receive, hw, Watcher.next, hnext]
        have htaken : b.taken other (.receive other) = [e] := by
          simp [taken, Broadcaster.receive, hw, Watcher.next, hnext]
        rw [htaken]
        exact h.take rfl rfl hw hfed rfl rfl (filter_of_dropWhile hnext).symm
  · rw [taken, if_neg hother, List.append_nil]
    exact h.takeOther (.inl rfl) hother

theorem Serves.drain (other : Nat) :
    Serves handle subject (past ++ [.drain other]) (had ++ b.taken handle (.drain other))
      (b.feed (.drain other)) := by
  obtain ⟨w, hw, rfl, -⟩ := h.watches
  by_cases hother : other = handle
  · obtain rfl := hother
    have hfed : b.feed (.drain other) = b.update other { w with unread := [] } := by
      simp [Broadcaster.feed, Broadcaster.drain, hw, Watcher.drain]
    have htaken : b.taken other (.drain other) = w.unread.filter fun e => w.subject.shows e := by
      simp [taken, Broadcaster.drain, hw, Watcher.drain]
    rw [htaken]
    exact h.take rfl rfl hw hfed rfl rfl (by simp)
  · rw [taken, if_neg hother, List.append_nil]
    exact h.takeOther (.inr rfl) hother

theorem Serves.feed (c : Call) (hspares : b.spares handle c = true) :
    Serves handle subject (past ++ [c]) (had ++ b.taken handle c) (b.feed c) := by
  cases c with
  | receive other => exact h.receive other
  | drain other => exact h.drain other
  | subscribe other =>
      rw [taken, List.append_nil]
      exact h.subscribe other
  | notify e =>
      rw [taken, List.append_nil]
      exact h.notify e hspares
  | unsubscribe subscription =>
      rw [taken, List.append_nil]
      exact h.other rfl rfl fun _ htuned => htuned.keep rfl rfl rfl
  | close id =>
      rw [taken, List.append_nil]
      exact h.other rfl rfl fun _ htuned => htuned.close h.wired id
  | drop other =>
      rw [taken, List.append_nil]
      have hother : other ≠ handle := by simpa [spares] using hspares
      exact h.other rfl (watcher?_dropWatcher hother b) fun _ htuned => htuned.keep rfl rfl rfl

omit h in
theorem Serves.after (calls : List Call) : ∀ {past : List Call} {had : List InstanceEvent}
    {b : Broadcaster}, Serves handle subject past had b → b.sparesAll handle calls = true →
    Serves handle subject (past ++ calls) (had ++ b.given handle calls) (b.after calls) := by
  induction calls with
  | nil => exact fun h _ => by simpa [given] using h
  | cons c calls ih =>
      intro past had b h hspares
      obtain ⟨hfirst, hrest⟩ := Bool.and_eq_true_iff.mp hspares
      simpa [given] using ih (h.feed c hfirst) hrest

end serves

theorem openChannel_get? (id : String) (b : Broadcaster) :
    Keyed.get? id (b.openChannel id).1.channels = some (b.openChannel id).2 := by
  unfold openChannel
  split
  · assumption
  · exact Keyed.get?_insert_self id _ _

theorem Wired.tuned (hb : b.Wired) (subject : Subject) :
    (b.channelFor subject).1.Tuned [] (b.channelFor subject).2 subject := by
  cases subject with
  | all => rfl
  | one id =>
      have hopen := openChannel_get? id b
      exact ⟨_, rfl, (hb.openChannel id).below _ (Keyed.mem_of_get? hopen), hopen⟩

/-- Who subscribes is served from then on. -/
theorem Wired.serves (hb : b.Wired) (subject : Subject) :
    Serves b.nextHandle subject [] [] (b.subscribe subject).1 := by
  obtain ⟨hwatchers, hnext⟩ := channelFor_watchers subject b
  have hw : (b.subscribe subject).1.watcher? b.nextHandle = some
      { subscription := "sub-" ++ toString b.nextHandle, subject,
        channel := (b.channelFor subject).2 } := by
    have hfree : b.watchers.lookup b.nextHandle = none := hb.watcher?_next
    simp only [Broadcaster.subscribe, watcher?, hwatchers, hnext, List.lookup_append, hfree,
      List.lookup_cons, beq_self_eq_true, Option.none_or]
  refine ⟨hb.subscribe subject, _, hw, rfl, ?_, hb.tuned subject⟩
  cases subject <;> rfl

/-- What is received next of a stream when some notifications are left of it. -/
def upcoming (ended : Bool) : List InstanceEvent → Received
  | e :: _ => .event e
  | [] => if ended then .closed else .pending

/-- How a watcher is served after some calls since its subscription, which have given it
something. -/
structure Delivers (subject : Subject) (calls : List Call) (had : List InstanceEvent)
    (handle : Nat) (b : Broadcaster) : Prop where
  /-- It has been given what it is due so far, in order. -/
  inOrder : had <+: subject.due calls
  /-- Next it is given the first that it is due and has not been given. When there is none, its
  stream goes on, or it has ended. -/
  next : (b.receive handle).2 =
    upcoming (subject.ended calls) ((subject.due calls).drop had.length)
  /-- All that it is due and has not been given is there for it. -/
  rest : (b.drain handle).2 = (subject.due calls).drop had.length
  /-- A watcher of an instance is given nothing that is notified after the instance has been closed,
  even if there are other subscriptions to the instance then. -/
  apart : ∀ id before after, subject = .one id → calls = before ++ .close id :: after →
    had <+: subject.due before

theorem Serves.delivers (h : Serves handle subject past had b) :
    Delivers subject past had handle b := by
  obtain ⟨w, hw, rfl, hdue, htuned⟩ := h.watches
  have hstart : had <+: w.subject.due past := ⟨_, hdue⟩
  have hdrop : (w.subject.due past).drop had.length =
      w.unread.filter fun e => w.subject.shows e := by
    rw [← hdue, List.drop_left]
  refine ⟨hstart, ?_, ?_, fun id before after hid hpast => ?_⟩
  · rw [hdrop]
    cases hnext : w.unread.dropWhile fun e => !w.subject.shows e with
    | nil =>
        rw [filter_of_dropWhile_nil hnext]
        simp only [Broadcaster.receive, hw, Watcher.next, hnext, htuned.isOpen]
        cases hended : w.subject.ended past <;> rfl
    | cons e rest =>
        rw [filter_of_dropWhile hnext]
        simp [Broadcaster.receive, hw, Watcher.next, hnext, upcoming]
  · rw [hdrop]
    simp [Broadcaster.drain, hw, Watcher.drain]
  · rw [hpast, hid, Subject.due_close] at hstart
    rwa [hid]

/-- Whatever has been done with a broadcaster before a subscription and is done after it, by
whomever: as long as the watcher is not dropped and never has more unread notifications than there
is room for, it is given what it is due and nothing else, each once and in the order of
notification. What has been sent before its instance is closed is still given, and then its stream
ends. -/
theorem delivered (capacity : Nat) (before : List Call) (subject : Subject) (later : List Call)
    (hspares : sparesAll (({ capacity } : Broadcaster).after before).nextHandle
      ((({ capacity } : Broadcaster).after before).feed (.subscribe subject)) later = true) :
    let b := ({ capacity } : Broadcaster).after before
    Delivers subject later (given b.nextHandle (b.feed (.subscribe subject)) later) b.nextHandle
      ((b.feed (.subscribe subject)).after later) := by
  intro b
  have hserves := ((wired_new capacity).after before).serves subject
  exact (hserves.after later hspares).delivers

/-- Two subscriptions to one instance, before and after it is closed, with room for two
notifications each: the first watcher is given what is notified before and then the end of its
stream, the second one what is notified after. -/
theorem delivered_reopened :
    let e (n : String) : InstanceEvent := ⟨"a", .stopped n⟩
    let first : List Call := [.notify (e "1"), .notify (e "2"), .receive 1, .receive 1, .close "a"]
    let second : List Call := [.notify (e "3"), .receive 1]
    let b := ({ capacity := 2 } : Broadcaster).feed (.subscribe (.one "a"))
    given 1 b (first ++ .subscribe (.one "a") :: second) = [e "1", e "2"] ∧
      ((b.after (first ++ .subscribe (.one "a") :: second)).receive 1).2 = .closed ∧
      ((((b.after first).feed (.subscribe (.one "a"))).after second).receive 2).2 =
        .event (e "3") := by
  intro e first second b
  have hdue : (Subject.one "a").due (first ++ .subscribe (.one "a") :: second) =
      [e "1", e "2"] := rfl
  have hended : (Subject.one "a").ended (first ++ .subscribe (.one "a") :: second) = true := by
    decide +kernel
  have hfirst : Delivers (.one "a") (first ++ .subscribe (.one "a") :: second)
      (given 1 b (first ++ .subscribe (.one "a") :: second)) 1
      (b.after (first ++ .subscribe (.one "a") :: second)) :=
    delivered 2 [] (.one "a") _ (by decide +kernel)
  have hgiven : given 1 b (first ++ .subscribe (.one "a") :: second) = [e "1", e "2"] :=
    (hdue ▸ hfirst.inOrder).eq_of_length (by decide +kernel)
  have hend := hfirst.next
  rw [hgiven, hdue, hended] at hend
  have hnext := (delivered 2 (.subscribe (.one "a") :: first) (.one "a") second
    (by decide +kernel)).next
  have hhandle :
      Broadcaster.nextHandle (after { capacity := 2 } (.subscribe (.one "a") :: first)) = 2 := by
    decide +kernel
  have hlate : (Subject.one "a").due second = [e "3"] := rfl
  have hnone : given 2 ((b.after first).feed (.subscribe (.one "a"))) second = [] := rfl
  rw [hhandle, hlate] at hnext
  exact ⟨hgiven, hend, hnext.trans (congrArg _ (congrArg (fun l => [e "3"].drop l.length) hnone))⟩

end Broadcaster

end Statechart
