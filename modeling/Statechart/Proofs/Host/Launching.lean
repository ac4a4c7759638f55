import Mathlib.Logic.Relation
import Statechart.Proofs.Host.Registry
import Statechart.Proofs.Machine.Refusals

/-!
# Stages of a launch

A launch goes from stage to stage, and each step between two of them is one that nothing interrupts:
a look at the host, one change of what is reserved or registered, or one thing that the new machine
does to the outside. A launch that nobody gets in the way of is all of its steps in a row. A machine
that cannot be brought up has done nothing to the outside, so a launch that fails has not either.
-/
namespace Statechart.Host

/-- What a launch is asked for. -/
structure Order where
  id : Option String
  chart : String
  context : Json
  setUp : Machine → Machine × Except MachineError Unit
  setsUp : SetsUp setUp

/-- How far a launch has come. -/
inductive LaunchStage where
  | asked
  /-- The host was not shutting down. -/
  | admitted
  /-- The chart and the id are known. -/
  | approved (l : Launch)
  /-- It holds the reservation of its id, from now on until it returns. -/
  | reserved (l : Launch)
  /-- No instance was registered under its id. -/
  | free (l : Launch)
  /-- There is a machine that has been started or restored, and what it has done to the outside is
  being carried out. -/
  | starting (l : Launch) (actor : Nat) (effects : List Effect) (result : Except MachineError Unit)
  /-- The instance can be registered. -/
  | up (l : Launch) (actor : Nat)
  | leaving (id : String) (result : Except HostError String)
  | returned (result : Except HostError String)

/-- One step of a launch. What the machine is told about its invocations while it is brought up may
be anything, since services can be registered meanwhile. -/
inductive Advances (o : Order) (h : Host) : LaunchStage → Sign → Host → LaunchStage → Prop where
  | shut (hdown : h.shuttingDown = true) :
    Advances o h .asked .other h (.returned (.error .shuttingDown))
  | allow (hopen : h.shuttingDown = false) : Advances o h .asked .other h .admitted
  | unknown (hnone : Keyed.get? o.chart h.charts = none) :
    Advances o h .admitted .other h (.returned (.error (.chartNotFound o.chart)))
  | unavailable {c : Chart} (hchart : Keyed.get? o.chart h.charts = some c)
      (hnone : h.runner.available = false) :
    Advances o h .admitted .other h (.returned (.error .unavailable))
  | approve {c : Chart} (hchart : Keyed.get? o.chart h.charts = some c)
      (havailable : h.runner.available = true) :
    Advances o h .admitted .other { h with nextActor := h.nextActor + 1 }
      (.approved ⟨o.id.getD (generatedId h.nextActor), c⟩)
  | taken {l : Launch} {e : HostError} (hreserve : h.reserve l.id = .error e) :
    Advances o h (.approved l) .other h (.returned (.error e))
  | reserve {l : Launch} {h' : Host} (hreserve : h.reserve l.id = .ok h') :
    Advances o h (.approved l) .other h' (.reserved l)
  | occupied {l : Launch} (hfound : Keyed.contains l.id h.instances = true) :
    Advances o h (.reserved l) .other h (.leaving l.id (.error (.instanceExists l.id)))
  | vacant {l : Launch} (hnone : Keyed.contains l.id h.instances = false) :
    Advances o h (.reserved l) .other h (.free l)
  | malformed {l : Launch} {e : MachineError}
      (hcreate : Machine.create l.chart o.context
        { settings := h.config.settings, predicates := h.predicates } = .error e) :
    Advances o h (.free l) .other h (.leaving l.id (.error (.machine e)))
  | make {l : Launch} {m : Machine} (answer : InvokeRequest → Option Outcome)
      (hcreate : Machine.create l.chart o.context
        { settings := h.config.settings, predicates := h.predicates } = .ok m) :
    Advances o h (.free l) .other
      ((h.join l.id m).update
        { number := h.nextActor, instanceId := l.id,
          machine := (o.setUp (m.feed (.attend answer))).1.takeTrace.1 })
      (.starting l h.nextActor (o.setUp (m.feed (.attend answer))).1.trace.toList
        (o.setUp (m.feed (.attend answer))).2)
  | perform (l : Launch) (n : Nat) (e : Effect) (rest : List Effect)
      (result : Except MachineError Unit) :
    Advances o h (.starting l n (e :: rest) result) .other (h.perform n l.id e)
      (.starting l n rest result)
  | fail (l : Launch) (n : Nat) (e : MachineError) :
    Advances o h (.starting l n [] (.error e)) .other (h.remove n)
      (.leaving l.id (.error (.machine e)))
  | overflow (l : Launch) (n : Nat)
      (hlimit : HostLimits.inboxLimit ≤ h.config.host.commandCapacity) :
    Advances o h (.starting l n [] (.ok ())) .other (h.remove n) (.leaving l.id (.error .overflow))
  | ready (l : Launch) (n : Nat)
      (hlimit : h.config.host.commandCapacity < HostLimits.inboxLimit) :
    Advances o h (.starting l n [] (.ok ())) .other h (.up l n)
  | register (l : Launch) (n : Nat) :
    Advances o h (.up l n) (.registered l.id n) (h.register l n) (.leaving l.id (.ok l.id))
  | unreserve (id : String) (result : Except HostError String) :
    Advances o h (.leaving id result) .other (h.unreserve id) (.returned result)

variable {o : Order} {h h' : Host} {s s' : LaunchStage} {sign : Sign} {l : Launch} {n : Nat}

/-- A launch goes on, in any number of steps, and nothing else happens. -/
def Launches (o : Order) : Host × LaunchStage → Host × LaunchStage → Prop :=
  Relation.ReflTransGen fun p q => ∃ sign, Advances o p.1 p.2 sign q.1 q.2

theorem Advances.launches (hstep : Advances o h s sign h' s') : Launches o (h, s) (h', s') :=
  .single ⟨sign, hstep⟩

/-- The stage of a launch when it has been decided on. -/
def LaunchStage.decided (h : Host) : Except HostError (Host × Launch) → Host × LaunchStage
  | .ok (h, l) => (h, .approved l)
  | .error e => (h, .returned (.error e))

theorem launches_approve (o : Order) (h : Host) :
    Launches o (h, .asked) (LaunchStage.decided h (h.approve o.id o.chart)) := by
  unfold approve
  split
  · next hdown => exact (Advances.shut hdown).launches
  next hopen =>
  refine (Advances.allow (Bool.not_eq_true _ ▸ hopen)).launches.trans ?_
  split
  · next hnone => exact (Advances.unknown hnone).launches
  next c hchart =>
  split
  · next havailable => exact (Advances.approve hchart havailable).launches
  · next hnone => exact (Advances.unavailable hchart (Bool.not_eq_true _ ▸ hnone)).launches

theorem launches_performs (l : Launch) (n : Nat) (result : Except MachineError Unit)
    (effects : List Effect) : ∀ h : Host,
    Launches o (h, .starting l n effects result)
      (effects.foldl (Host.perform n l.id) h, .starting l n [] result) := by
  induction effects with
  | nil => exact fun h => .refl
  | cons e rest ih => exact fun h => (Advances.perform l n e rest result).launches.trans (ih _)

/-- The stage of a launch when its machine has been brought up, or could not be. -/
def LaunchStage.broughtUp (l : Launch) : Except HostError Nat → LaunchStage
  | .ok n => .up l n
  | .error e => .leaving l.id (.error e)

theorem launches_bringUp (o : Order) (l : Launch) (h : Host) :
    Launches o (h, .reserved l) ((h.bringUp l o.context o.setUp).1,
      .broughtUp l (h.bringUp l o.context o.setUp).2) := by
  unfold bringUp
  split
  · next hfound => exact (Advances.occupied hfound).launches
  next hnone =>
  refine (Advances.vacant (Bool.not_eq_true _ ▸ hnone)).launches.trans ?_
  cases hcreate : Machine.create l.chart o.context
      { settings := h.config.settings, predicates := h.predicates } with
  | error e => exact (Advances.malformed hcreate).launches
  | ok m =>
      obtain ⟨ran, hran⟩ : ∃ ran, ran = (h.join l.id m).operate o.setUp
          { number := h.nextActor, instanceId := l.id, machine := m } := ⟨_, rfl⟩
      have hmade : Launches o (h, .free l) (ran.1, .starting l h.nextActor [] ran.2.2) := by
        rw [hran]
        exact (Advances.make h.runner.refusal hcreate).launches.trans (launches_performs l _ _ _ _)
      obtain ⟨h₁, a, result⟩ := ran
      dsimp only
      rw [← join, ← hran]
      cases result with
      | error e => exact hmade.trans (Advances.fail l _ e).launches
      | ok =>
          dsimp only
          split
          · next hlimit => exact hmade.trans (Advances.ready l _ hlimit).launches
          · next hlimit => exact hmade.trans (Advances.overflow l _ (not_lt.mp hlimit)).launches

/-- A launch that nobody gets in the way of. -/
theorem launches_launch (o : Order) (h : Host) :
    Launches o (h, .asked) ((h.launch o.id o.chart o.context o.setUp).1,
      .returned (h.launch o.id o.chart o.context o.setUp).2) := by
  have hdecided := launches_approve o h
  unfold launch
  cases happroved : h.approve o.id o.chart with
  | error e => rwa [happroved] at hdecided
  | ok approved =>
      obtain ⟨h₁, l⟩ := approved
      rw [happroved] at hdecided
      refine hdecided.trans ?_
      dsimp only
      cases hreserved : h₁.reserve l.id with
      | error e => exact (Advances.taken hreserved).launches
      | ok h₂ =>
          have hbrought := launches_bringUp o l h₂
          refine (Advances.reserve hreserved).launches.trans ?_
          dsimp only
          generalize h₂.bringUp l o.context o.setUp = brought at hbrought ⊢
          obtain ⟨h₃, result⟩ := brought
          cases result with
          | error e => exact hbrought.trans (Advances.unreserve _ _).launches
          | ok n =>
              exact (hbrought.trans (Advances.register l n).launches).trans
                (Advances.unreserve _ _).launches

def LaunchStage.stake : LaunchStage → Stake
  | .reserved l => .holds l.id
  | .free l => .claims l.id
  | .starting l n _ _ | .up l n => .raises l.id n
  | .leaving id _ => .holds id
  | .asked | .admitted | .approved _ | .returned _ => .nothing

theorem reserve_ok {id : String} (hreserve : h.reserve id = .ok h') :
    id ∉ h.reserved ∧ h' = { h with reserved := id :: h.reserved } := by
  unfold Host.reserve at hreserve
  split at hreserve
  · cases hreserve
  · next hnew =>
      cases hreserve
      exact ⟨by simpa using hnew, rfl⟩

theorem reserve_error {id : String} {e : HostError} (hreserve : h.reserve id = .error e) :
    e = .instanceExists id := by
  unfold Host.reserve at hreserve
  split at hreserve <;> cases hreserve
  rfl

theorem aside_register (l : Launch) (n : Nat) (h : Host) :
    Aside { h with instances := Keyed.insert l.id ⟨l.chart.id, n⟩ h.instances }
      (h.register l n) := by
  unfold Host.register
  dsimp only
  split
  · exact aside_refl _
  · exact ((aside_refl _).update _).wake _

theorem Advances.shifts (hstep : Advances o h s sign h' s') :
    Shifts h s.stake sign h' s'.stake := by
  cases hstep with
  | shut | allow | unknown | unavailable | taken | occupied | ready =>
      exact .stay rfl (aside_refl h)
  | approve => exact .stay rfl ⟨rfl, rfl, rfl, rfl, Nat.le_succ _⟩
  | reserve hreserve =>
      obtain ⟨hnew, rfl⟩ := reserve_ok hreserve
      exact .reserve hnew
  | vacant hnone => exact .claim (by simpa [Keyed.contains] using hnone)
  | malformed => exact .yield rfl (aside_refl h)
  | make => exact .raise ⟨rfl, rfl, rfl, rfl, Nat.le_succ _⟩ (Nat.lt_succ_self _)
  | perform l n e rest => exact .stay rfl (aside_performs n l.id [e] h)
  | fail | overflow => exact .yield rfl ((aside_refl h).remove _)
  | register l n => exact .register rfl (aside_register l n h)
  | unreserve id => exact .release id

/-- An id that the instance of a launch can have: the one that was asked for, if any. -/
def Order.Names (o : Order) (id : String) : Prop := ∃ number, id = o.id.getD (generatedId number)

/-- What a launch can fail with. -/
inductive Refusal (c : Config) (o : Order) : HostError → Prop where
  | shuttingDown : Refusal c o .shuttingDown
  | chartNotFound : Refusal c o (.chartNotFound o.chart)
  | unavailable : Refusal c o .unavailable
  | instanceExists {id : String} (hid : o.Names id) : Refusal c o (.instanceExists id)
  | machine {e : MachineError} (hnot : e.isContained = false) : Refusal c o (.machine e)
  /-- There is no channel with the capacity that the host is configured with. -/
  | overflow (hlimit : HostLimits.inboxLimit ≤ c.host.commandCapacity) : Refusal c o .overflow

def Order.Settles (c : Config) (o : Order) : Except HostError String → Prop
  | .ok id => o.Names id
  | .error e => Refusal c o e

/-- The results that are known at a stage fit the launch. A machine that could not be brought up has
nothing left to be carried out. -/
def LaunchStage.Sound (c : Config) (o : Order) : LaunchStage → Prop
  | .asked | .admitted => True
  | .approved l | .reserved l | .free l | .up l _ => o.Names l.id
  | .starting l _ effects result =>
    o.Names l.id ∧ ∀ e, result = .error e → effects = [] ∧ e.isContained = false
  | .leaving _ result | .returned result => o.Settles c result

/-- A machine that cannot be brought up is left as it was. -/
theorem SetsUp.fails {setUp : Machine → Machine × Except MachineError Unit} (h : SetsUp setUp)
    {m : Machine} {e : MachineError} (he : (setUp m).2 = .error e) :
    e.isContained = false ∧ (setUp m).1 = m := by
  cases h with
  | restore snapshot =>
      obtain ⟨hrefusal, heq⟩ := Machine.restore_error he
      exact ⟨MachineError.isContained_of_isRefusal hrefusal, congrArg Prod.fst heq⟩
  | start =>
      unfold startTolerantly at he ⊢
      split at he
      · next m' e' hstart =>
          split at he
          · cases he
          next hnot =>
          cases he
          rcases (Machine.start_ends m).fails (congrArg Prod.snd hstart) with ⟨_, hsame⟩ | ⟨hc, _⟩
          · rw [hstart] at hsame
            exact ⟨Bool.not_eq_true _ ▸ hnot, by simpa [hstart, hnot] using hsame⟩
          · exact absurd hc hnot
      · cases he

theorem create_error {c : Chart} {context : Json} {setup : Setup} {e : MachineError}
    (h : Machine.create c context setup = .error e) : e.isContained = false := by
  unfold Machine.create at h
  split at h <;> cases h
  rfl

theorem Advances.sound (hstep : Advances o h s sign h' s') (hsound : s.Sound h.config o) :
    s'.Sound h.config o := by
  cases hstep with
  | shut => exact .shuttingDown
  | allow => trivial
  | unknown => exact .chartNotFound
  | unavailable => exact .unavailable
  | approve => exact ⟨_, rfl⟩
  | taken hreserve =>
      rw [reserve_error hreserve]
      exact .instanceExists hsound
  | reserve | vacant => exact hsound
  | occupied => exact .instanceExists hsound
  | malformed hcreate => exact .machine (create_error hcreate)
  | make answer hcreate =>
      refine ⟨hsound, fun e he => ?_⟩
      obtain ⟨hnot, hsame⟩ := o.setsUp.fails he
      obtain ⟨context, rfl⟩ := Machine.create_eq hcreate
      exact ⟨by rw [hsame]; rfl, hnot⟩
  | perform l n e rest result =>
      refine ⟨hsound.1, fun e' he => ?_⟩
      cases (hsound.2 e' he).1
  | fail => exact .machine (hsound.2 _ rfl).2
  | overflow l n hlimit => exact .overflow hlimit
  | ready => exact hsound.1
  | register => exact hsound
  | unreserve => exact hsound

/-- A launch that has failed or will, or of which it is not known yet. -/
def LaunchStage.Mild : LaunchStage → Prop
  | .starting _ _ _ result => ∃ e, result = .error e
  | .up .. => False
  | .leaving _ result | .returned result => ∃ e, result = .error e ∧ e ≠ .overflow
  | .asked | .admitted | .approved _ | .reserved _ | .free _ => True

/-- Nothing changes but what is reserved, and actors that have no instance. -/
structure Harmless (h h' : Host) : Prop where
  same : ∃ reserved actors nextActor, h' = { h with reserved, actors, nextActor }
  actors : ∀ id r, Keyed.get? id h.instances = some r → h'.actor? r.actor = h.actor? r.actor

theorem actor?_join_of_ne {k : Nat} (hk : k ≠ h.nextActor) (id : String) (m : Machine) :
    (h.join id m).actor? k = h.actor? k := by
  rw [actor?, Host.join, List.find?_append, ← actor?]
  simp [hk.symm]

theorem actor?_update_of_ne {k : Nat} {a : Actor} (hk : k ≠ a.number) :
    (h.update a).actor? k = h.actor? k := by
  rw [actor?_update]
  cases hfound : h.actor? k with
  | none => rfl
  | some b => simp [(actor?_some hfound).2, hk]

theorem actor?_remove_of_ne {k n : Nat} (hk : k ≠ n) : (h.remove n).actor? k = h.actor? k := by
  rw [actor?, Host.remove, List.find?_filter, actor?]
  congr 1
  funext a
  by_cases ha : a.number = k
  · simp [ha, hk]
  · simp [ha]

/-- The steps of a launch that fails do no harm. -/
theorem Advances.harmless (hstep : Advances o h s sign h' s') (hsound : s.Sound h.config o)
    (hfresh : ∀ id r, Keyed.get? id h.instances = some r →
      r.actor < h.nextActor ∧ s.stake.actor? ≠ some r.actor)
    (hmild : s'.Mild) : s.Mild ∧ Harmless h h' := by
  have hrefl : Harmless h h := ⟨⟨_, _, _, rfl⟩, fun _ _ _ => rfl⟩
  cases hstep with
  | shut | allow | unknown | unavailable | taken | occupied | vacant | malformed =>
      exact ⟨trivial, hrefl⟩
  | approve => exact ⟨trivial, ⟨_, _, _, rfl⟩, fun _ _ _ => rfl⟩
  | reserve hreserve =>
      obtain ⟨_, rfl⟩ := reserve_ok hreserve
      exact ⟨trivial, ⟨_, _, _, rfl⟩, fun _ _ _ => rfl⟩
  | make answer hcreate =>
      refine ⟨trivial, ⟨_, _, _, rfl⟩, fun id r hr => ?_⟩
      have hne : r.actor ≠ h.nextActor := (hfresh id r hr).1.ne
      rw [actor?_update_of_ne hne, actor?_join_of_ne hne]
  | perform l n e rest result =>
      obtain ⟨e', he⟩ := hmild
      cases (hsound.2 e' he).1
  | fail l n e =>
      refine ⟨⟨e, rfl⟩, ⟨_, _, _, rfl⟩, fun id r hr => ?_⟩
      have hne : r.actor ≠ n := fun heq => (hfresh id r hr).2 (by rw [heq]; rfl)
      exact actor?_remove_of_ne hne
  | overflow =>
      obtain ⟨e, he, hne⟩ := hmild
      cases he
      exact absurd rfl hne
  | ready => exact hmild.elim
  | register =>
      obtain ⟨e, he, _⟩ := hmild
      cases he
  | unreserve id result => exact ⟨hmild, ⟨_, _, _, rfl⟩, fun _ _ _ => rfl⟩

end Statechart.Host
