import Statechart.Broadcast.Basic
import Statechart.Proofs.Keyed

/-!
# Channels of a broadcaster

Whatever is done with a broadcaster, its open channels have numbers of their own, which were never
given before. So a channel that has been closed is never opened again: another subscription to the
same instance gets a new one, and what is sent on that does not reach the watchers of the old one.
-/
namespace Statechart.Broadcaster

/-- What is done with a broadcaster. -/
inductive Call where
  | subscribe (subject : Subject)
  | unsubscribe (subscription : String)
  | notify (e : InstanceEvent)
  | close (id : String)
  | receive (handle : Nat)
  | drain (handle : Nat)
  | drop (handle : Nat)

/-- The broadcaster after one call. -/
def feed (b : Broadcaster) : Call → Broadcaster
  | .subscribe subject => (b.subscribe subject).1
  | .unsubscribe subscription => (b.unsubscribe subscription).1
  | .notify e => b.notify e
  | .close id => b.closeInstance id
  | .receive handle => (b.receive handle).1
  | .drain handle => (b.drain handle).1
  | .drop handle => b.dropWatcher handle

def after (b : Broadcaster) (calls : List Call) : Broadcaster := calls.foldl feed b

@[simp] theorem after_nil (b : Broadcaster) : b.after [] = b := rfl

@[simp] theorem after_cons (b : Broadcaster) (c : Call) (calls : List Call) :
    b.after (c :: calls) = (b.feed c).after calls := rfl

variable {b : Broadcaster} {handle other : Nat} {w : Watcher}

theorem lookup_map {g : Nat × Watcher → Nat × Watcher} (hg : ∀ p, (g p).1 = p.1) (handle : Nat)
    (watchers : List (Nat × Watcher)) :
    (watchers.map g).lookup handle =
      (watchers.lookup handle).map fun w => (g (handle, w)).2 := by
  induction watchers with
  | nil => rfl
  | cons p rest ih =>
      rw [List.map_cons, List.lookup_cons, List.lookup_cons, ih, hg]
      by_cases heq : handle = p.1
      · simp [heq]
      · simp [beq_false_of_ne heq]

theorem watcher?_update_self (h : b.watcher? handle = some w) (w' : Watcher) :
    (b.update handle w').watcher? handle = some w' := by
  rw [watcher?, update, lookup_map (fun p => by dsimp only; split <;> rfl), ← watcher?, h]
  simp

theorem watcher?_update_of_ne (h : other ≠ handle) (w : Watcher) (b : Broadcaster) :
    (b.update other w).watcher? handle = b.watcher? handle := by
  rw [watcher?, update, lookup_map (fun p => by dsimp only; split <;> rfl)]
  simp [watcher?, Ne.symm h]

theorem watcher?_send (channel : Channel) (e : InstanceEvent) (b : Broadcaster) :
    (b.send channel e).watcher? handle =
      (b.watcher? handle).map fun w => if w.channel = channel then w.push b.slots e else w := by
  rw [watcher?, send, lookup_map (fun p => by dsimp only; split <;> rfl), ← watcher?]
  congr 1
  funext w
  dsimp only
  split <;> rfl

theorem watcher?_dropWatcher (h : other ≠ handle) (b : Broadcaster) :
    (b.dropWatcher other).watcher? handle = b.watcher? handle := by
  unfold watcher? dropWatcher
  induction b.watchers with
  | nil => rfl
  | cons p rest ih =>
      by_cases hp : p.1 = other
      · have hne : (handle == p.1) = false := beq_false_of_ne fun heq => h (hp.symm.trans heq.symm)
        rw [List.filter_cons_of_neg (by simp [hp]), List.lookup_cons, hne, ih]
      · rw [List.filter_cons_of_pos (by simp [hp]), List.lookup_cons, List.lookup_cons, ih]

/-- Whether a notification is sent on a channel. -/
def carries (e : InstanceEvent) (b : Broadcaster) : Channel → Bool
  | .shared => true
  | .own number => Keyed.get? e.instanceId b.channels == some number

/-- A notification is added once to what the watchers of its two channels keep. -/
theorem watcher?_notify (e : InstanceEvent) (b : Broadcaster) :
    (b.notify e).watcher? handle = (b.watcher? handle).map fun w =>
      if b.carries e w.channel then w.push b.slots e else w := by
  unfold notify
  cases hopen : Keyed.get? e.instanceId b.channels with
  | none =>
      simp only [watcher?_send]
      congr 1
      funext w
      cases hw : w.channel <;> simp [carries, hopen]
  | some number =>
      simp only [watcher?_send, Option.map_map]
      congr 1
      funext w
      have hslots : (b.send (.own number) e).slots = b.slots := rfl
      cases hw : w.channel with
      | shared => simp [carries, hw, hslots]
      | own n =>
          by_cases hn : n = number
          · simp [carries, hopen, hw, hn, Watcher.push]
          · simp [carries, hopen, hw, hn, Ne.symm hn]

theorem notify_channels (e : InstanceEvent) (b : Broadcaster) :
    (b.notify e).channels = b.channels ∧ (b.notify e).nextChannel = b.nextChannel := by
  unfold notify
  split <;> exact ⟨rfl, rfl⟩

/-- Reading from a watcher changes that watcher only. -/
theorem feed_takes {c : Call} (hc : c = .receive other ∨ c = .drain other) (b : Broadcaster) :
    b.feed c = b ∨ ∃ w, b.feed c = b.update other w := by
  rcases hc with rfl | rfl
  · simp only [feed, receive]
    split
    · exact .inl rfl
    · split <;> exact .inr ⟨_, rfl⟩
  · simp only [feed, drain]
    split
    · exact .inl rfl
    · exact .inr ⟨_, rfl⟩

/-- Open channels have numbers of their own that have been given, and so have watchers. -/
structure Wired (b : Broadcaster) : Prop where
  sorted : Keyed.Sorted b.channels
  below : ∀ entry ∈ b.channels, entry.2 < b.nextChannel
  distinct : ∀ entry ∈ b.channels, ∀ entry' ∈ b.channels, entry.2 = entry'.2 → entry = entry'
  handles : ∀ p ∈ b.watchers, p.1 < b.nextHandle

theorem wired_new (capacity : Nat) : Wired { capacity } := ⟨.nil, nofun, nofun, nofun⟩

/-- Nobody watches under a handle that has not been given. -/
theorem Wired.watcher?_next (hb : b.Wired) : b.watcher? b.nextHandle = none := by
  refine List.lookup_eq_none_iff.mpr fun p hp => ?_
  exact bne_iff_ne.mpr (hb.handles p hp).ne'

/-- Changes of watchers leave the channels alone. -/
theorem Wired.watchers (hb : b.Wired) {watchers : List (Nat × Watcher)}
    {subscriptions : Keyed Subject} (h : ∀ p ∈ watchers, ∃ q ∈ b.watchers, q.1 = p.1) :
    Wired { b with watchers, subscriptions } := by
  refine ⟨hb.sorted, hb.below, hb.distinct, fun p hp => ?_⟩
  obtain ⟨q, hq, hsame⟩ := h p hp
  exact hsame ▸ hb.handles q hq

theorem Wired.update (hb : b.Wired) (handle : Nat) (w : Watcher) : (b.update handle w).Wired := by
  refine hb.watchers fun p hp => ?_
  obtain ⟨q, hq, rfl⟩ := List.mem_map.mp hp
  exact ⟨q, hq, by dsimp only; split <;> rfl⟩

theorem Wired.send (hb : b.Wired) (channel : Channel) (e : InstanceEvent) :
    (b.send channel e).Wired := by
  refine hb.watchers fun p hp => ?_
  obtain ⟨q, hq, rfl⟩ := List.mem_map.mp hp
  exact ⟨q, hq, by dsimp only; split <;> rfl⟩

theorem Wired.notify (hb : b.Wired) (e : InstanceEvent) : (b.notify e).Wired := by
  unfold Broadcaster.notify
  split
  · exact (hb.send _ e).send _ e
  · exact hb.send _ e

theorem Wired.openChannel (hb : b.Wired) (id : String) : (b.openChannel id).1.Wired := by
  unfold Broadcaster.openChannel
  split
  · exact hb
  · refine ⟨hb.sorted.insert, fun entry hentry => ?_, fun entry hentry entry' hentry' heq => ?_,
      hb.handles⟩
    · rcases Keyed.mem_insert hentry with rfl | hentry
      · exact Nat.lt_succ_self _
      · exact (hb.below entry hentry).trans (Nat.lt_succ_self _)
    · rcases Keyed.mem_insert hentry with rfl | hold <;>
        rcases Keyed.mem_insert hentry' with rfl | hold'
      · rfl
      · exact absurd heq (hb.below entry' hold').ne'
      · exact absurd heq (hb.below entry hold).ne
      · exact hb.distinct entry hold entry' hold' heq

theorem Wired.channelFor (hb : b.Wired) (subject : Subject) : (b.channelFor subject).1.Wired := by
  cases subject with
  | one id => exact hb.openChannel id
  | all => exact hb

theorem openChannel_watchers (id : String) (b : Broadcaster) :
    (b.openChannel id).1.watchers = b.watchers ∧
      (b.openChannel id).1.nextHandle = b.nextHandle := by
  unfold openChannel
  split <;> exact ⟨rfl, rfl⟩

theorem channelFor_watchers (subject : Subject) (b : Broadcaster) :
    (b.channelFor subject).1.watchers = b.watchers ∧
      (b.channelFor subject).1.nextHandle = b.nextHandle := by
  cases subject with
  | one id => exact openChannel_watchers id b
  | all => exact ⟨rfl, rfl⟩

theorem Wired.subscribe (hb : b.Wired) (subject : Subject) : (b.subscribe subject).1.Wired := by
  have hchannel := hb.channelFor subject
  obtain ⟨hwatchers, hnext⟩ := channelFor_watchers subject b
  refine ⟨hchannel.sorted, hchannel.below, hchannel.distinct, fun p hp => ?_⟩
  rcases List.mem_append.mp hp with hp | hp
  · exact (hchannel.handles p hp).trans (Nat.lt_succ_self _)
  · rw [List.mem_singleton.mp hp, ← hnext]
    exact Nat.lt_succ_self _

theorem Wired.closeInstance (hb : b.Wired) (id : String) : (b.closeInstance id).Wired :=
  ⟨hb.sorted.erase, fun entry hentry => hb.below entry (Keyed.erase_subset hentry),
    fun entry hentry entry' hentry' =>
      hb.distinct entry (Keyed.erase_subset hentry) entry' (Keyed.erase_subset hentry'),
    hb.handles⟩

theorem Wired.feed (hb : b.Wired) (c : Call) : (b.feed c).Wired := by
  cases c with
  | subscribe subject => exact hb.subscribe subject
  | unsubscribe => exact hb.watchers fun p hp => ⟨p, hp, rfl⟩
  | notify e => exact hb.notify e
  | close id => exact hb.closeInstance id
  | receive handle =>
      rcases feed_takes (.inl rfl) b with heq | ⟨w, heq⟩ <;> rw [heq]
      · exact hb
      · exact hb.update handle w
  | drain handle =>
      rcases feed_takes (.inr rfl) b with heq | ⟨w, heq⟩ <;> rw [heq]
      · exact hb
      · exact hb.update handle w
  | drop handle => exact hb.watchers fun p hp => ⟨p, List.mem_of_mem_filter hp, rfl⟩

theorem Wired.after (hb : b.Wired) (calls : List Call) : (b.after calls).Wired := by
  induction calls generalizing b with
  | nil => exact hb
  | cons c calls ih => exact ih (hb.feed c)

end Statechart.Broadcaster
