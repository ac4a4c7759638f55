import Statechart.Host.Launch
import Statechart.Host.Request
import Statechart.Proofs.Host.Step

/-!
# Runs of a host

A run of a host is a list of inputs: its operations, single commands and turns in any order, and
the passing of time. All that its operations do is made of a few kinds of moves. What is closed
under these moves holds after every run; the recursions of the operations are followed once, for
any such property. Steps lead through every run, since what steps lead to is closed.
-/
namespace Statechart

/-- What an actor works with: its machine and the requests that it has accepted. -/
structure Post where
  machine : Machine
  inbox : List Request

def Actor.post (a : Actor) : Post := ⟨a.machine, a.inbox⟩

namespace Host
open Machine History

/-- What a host meets in a run. -/
inductive Input where
  | registerChart (d : Definition) (c : Chart) (built : Chart.build d = .ok c)
  | registerPredicate (name : String) (holds : Predicate)
  | registerService (name : String) (service : Service)
  | spawn (id : Option String) (chart : String) (context : Json)
  | restore (id : Option String) (snapshot : Snapshot)
  | dispatch (id : String) (event : Event)
  | snapshot (id : String)
  | stop (id : String)
  | shutdown
  /-- The stop that awaits the end of an actor is given up. -/
  | abandon (actor : Nat)
  /-- A command is sent by a caller that does not wait. -/
  | send (id : String) (command : Command)
  /-- Someone takes a turn. -/
  | turn
  | advance (ms : Nat)
  | sleep (ms : Nat)

/-- The host after one input, whatever the result. -/
def feed (h : Host) : Input → Host
  | .registerChart _ c _ => h.registerChart c
  | .registerPredicate name holds => h.registerPredicate name holds
  | .registerService name service => h.registerService name service
  | .spawn id chart context => (h.spawn id chart context).1
  | .restore id snapshot => (h.restore id snapshot).1
  | .dispatch id event => (h.dispatch id event).1
  | .snapshot id => (h.snapshot id).1
  | .stop id => (h.stop? id).1
  | .shutdown => h.shutdown
  | .abandon actor => h.abandon actor
  | .send id command =>
    match h.send id command with
    | .ok (h, _) => h
    | .error _ => h
  | .turn => h.turn?.getD h
  | .advance ms => h.advance ms
  | .sleep ms => h.sleep ms

/-- The host after a run. -/
def after (h : Host) (inputs : List Input) : Host := inputs.foldl feed h

variable {h₀ h h' : Host}

theorem actor?_of_mem (hnodup : (h.actors.map Actor.number).Nodup) {a : Actor}
    (ha : a ∈ h.actors) : h.actor? a.number = some a := by
  cases hfound : h.actor? a.number with
  | none =>
      have hne := List.find?_eq_none.mp hfound a ha
      simp at hne
  | some b =>
      obtain ⟨hb, hnumber⟩ := actor?_some hfound
      rw [List.inj_on_of_nodup_map hnodup hb ha hnumber]

theorem actor?_update (a : Actor) (n : Nat) (h : Host) : (h.update a).actor? n =
    (h.actor? n).map fun b => if b.number = a.number then a else b := by
  have hsame : ((fun b : Actor => b.number == n) ∘ fun b => if b.number = a.number then a else b) =
      fun b => b.number == n := by
    funext b
    simp only [Function.comp_apply]
    split
    · next heq => rw [heq]
    · rfl
  rw [actor?, Host.update, List.find?_map, hsame, actor?]

theorem actor?_update_self {n : Nat} {a b : Actor} (ha : h.actor? n = some a)
    (hb : b.number = n) : (h.update b).actor? n = some b := by
  rw [actor?_update, ha, Option.map_some, if_pos ((actor?_some ha).2.trans hb.symm)]

theorem actor?_operate {n : Nat} {a : Actor} (ha : h.actor? n = some a) {α : Type}
    (operation : Machine → Machine × α) :
    (h.operate operation a).1.actor? n = some (carried operation a h) := by
  rw [actor?, (operate_serves operation a h).2.1]
  exact actor?_update_self ha (actor?_some ha).2

/-- What the actor of a number works with. -/
def post? (n : Nat) (h : Host) : Option Post := (h.actor? n).map Actor.post

/-- No machine does anything, no command is accepted, and no reply is given or taken. -/
structure Rests (h h' : Host) : Prop where
  posts (n : Nat) : h'.post? n = h.post? n
  replies : h'.replies = h.replies
  nextCall : h'.nextCall = h.nextCall
  nextActor : h.nextActor ≤ h'.nextActor

theorem rests_refl (h : Host) : Rests h h := ⟨fun _ => rfl, rfl, rfl, le_rfl⟩

theorem Rests.of_core (hcore : h'.core = h.core) (hreplies : h'.replies = h.replies)
    (hcall : h'.nextCall = h.nextCall) : Rests h h' := by
  simp only [core, Prod.mk.injEq] at hcore
  obtain ⟨-, -, -, hactors, hnext, -⟩ := hcore
  exact ⟨fun n => by rw [post?, actor?, hactors]; rfl, hreplies, hcall, hnext.ge⟩

/-- An actor is replaced by one that works with the same. -/
theorem rests_update (hnodup : (h.actors.map Actor.number).Nodup) {a a' : Actor}
    (ha : a ∈ h.actors) (hnumber : a'.number = a.number) (hpost : a'.post = a.post) :
    Rests h (h.update a') := by
  refine ⟨fun n => ?_, rfl, rfl, le_rfl⟩
  rw [post?, actor?_update, post?, Option.map_map]
  cases hfound : h.actor? n with
  | none => rfl
  | some b =>
      simp only [Option.map_some, Function.comp_apply, Option.some.injEq]
      split
      · next heq =>
          have hb := (actor?_some hfound).1
          rw [List.inj_on_of_nodup_map hnodup hb ha (heq.trans hnumber), hpost]
      · rfl

/-- How the machine of a launch is brought up. -/
inductive SetsUp : (Machine → Machine × Except MachineError Unit) → Prop where
  | start : SetsUp startTolerantly
  | restore (s : Snapshot) : SetsUp (·.restore s)

/-- A new actor joins, which is not live yet. -/
def join (id : String) (machine : Machine) (h : Host) : Host :=
  { h with
    nextActor := h.nextActor + 1
    actors := h.actors ++ [{ number := h.nextActor, instanceId := id, machine }] }

/-- An actor accepts a command. -/
def accept (a : Actor) (command : Command) (h : Host) : Host :=
  let a := { a with inbox := a.inbox ++ [⟨h.nextCall, command⟩] }
  { h with nextCall := h.nextCall + 1 }.update a

theorem actor?_accept {n : Nat} {a : Actor} (ha : h.actor? n = some a) (command : Command) :
    (h.accept a command).actor? n =
      some { a with inbox := a.inbox ++ [⟨h.nextCall, command⟩] } :=
  actor?_update_self (h := { h with nextCall := h.nextCall + 1 }) ha (actor?_some ha).2

/-- A property of hosts that every move keeps. The actors of hosts that have it have numbers of
their own, and their charts are sound. -/
structure Closed (P : Host → Prop) : Prop where
  numbers {h : Host} : P h → (h.actors.map Actor.number).Nodup
  charts {h : Host} : P h → ∀ e ∈ h.charts, e.2.Sound
  rest {h h' : Host} : P h → Unaffected h h' → Rests h h' → P h'
  join {h : Host} {c : Chart} {context : Json} {machine : Machine} (id : String) :
    P h → c.Sound →
    Machine.create c context { settings := h.config.settings, predicates := h.predicates } =
      .ok machine → P (h.join id machine)
  setUp {h : Host} {a : Actor} {operation : Machine → Machine × Except MachineError Unit} :
    P h → a ∈ h.actors → SetsUp operation → P (h.operate operation a).1
  /-- The machine of an actor could not be brought up. -/
  discard {h : Host} {a : Actor} : P h → a ∈ h.actors → a.inbox = [] → P (h.remove a.number)
  accept {h : Host} {a : Actor} (command : Command) : P h → a ∈ h.actors →
    a.inbox.length < h.config.host.commandCapacity → P (h.accept a command)
  serve {h : Host} {a : Actor} {r : Request} {rest : List Request} : P h →
    a ∈ h.actors → a.inbox = r :: rest →
    P ((h.update { a with inbox := rest }).carryOut r { a with inbox := rest })
  wake {h : Host} {a : Actor} : P h → a ∈ h.actors →
    P (h.operate (fun m => { m with signalled := false }.processPending) a).1
  /-- An actor ends that can get no more commands. -/
  lapse {h : Host} {a : Actor} : P h → a ∈ h.actors → a.inbox = [] →
    P ((h.operate Machine.halt a).1.remove a.number)
  collect {h : Host} (call : Nat) : P h → P (h.takeReply call).1
  finish {h : Host} {n : Nat} {k : Task} : P h → h.runner.task? n = some k →
    k.stage = .ready 0 →
    P ({ h with runner := (h.runner.turn n).1 }.deliver ⟨k.owner, k.token, k.job.outcome⟩)

section closed
variable {P : Host → Prop} (hP : Closed P)
include hP

theorem Closed.same (hr : P h) (hcore : h'.core = h.core) (hreplies : h'.replies = h.replies)
    (hcall : h'.nextCall = h.nextCall) : P h' :=
  hP.rest hr (.of_core hcore) (.of_core hcore hreplies hcall)

theorem Closed.update (hr : P h) {a a' : Actor} (ha : a ∈ h.actors)
    (hnumber : a'.number = a.number) (hpost : a'.post = a.post) : P (h.update a') :=
  hP.rest hr (unaffected_update ha (.of_machine hnumber (congrArg Post.machine hpost)))
    (rests_update (hP.numbers hr) ha hnumber hpost)

theorem Closed.nudge (hr : P h) (n : Nat) : P (h.wake n) := by
  have hcore : (h.wake n).core = h.core := by simp [core, Host.wake]
  exact hP.same hr hcore rfl rfl

/-! ## Turns -/

theorem Closed.act (hr : P h) {a : Actor} (ha : a ∈ h.actors) : P (h.act a) := by
  unfold Host.act
  split
  · next hinbox => exact hP.serve hr ha hinbox
  · next hinbox =>
      split
      · exact hP.lapse hr ha hinbox
      · split
        · exact hP.wake hr ha
        · exact hr

theorem Closed.actorTurn (hr : P h) (n : Nat) : P (h.actorTurn n) := by
  unfold Host.actorTurn
  split
  · exact hr
  · next a ha =>
      split
      · have hact := hP.act hr (actor?_some ha).1
        dsimp only
        split
        · exact hact
        · split
          · exact hP.same hact rfl rfl rfl
          · exact hact
      · exact hr

/-- A task takes its turn: it goes on waiting, or it ends and its completion is delivered. -/
theorem Closed.taskTurn (hr : P h) (n : Nat) :
    P (match (h.runner.turn n).2 with
      | some r => { h with runner := (h.runner.turn n).1 }.deliver r
      | none => { h with runner := (h.runner.turn n).1 }) := by
  by_cases hready : ∃ k, h.runner.task? n = some k ∧ k.stage = .ready 0
  · obtain ⟨k, htask, hstage⟩ := hready
    have hturn : (h.runner.turn n).2 = some ⟨k.owner, k.token, k.job.outcome⟩ := by
      rw [Runner.turn_of_ready htask hstage]
    rw [hturn]
    exact hP.finish hr htask hstage
  · push Not at hready
    obtain ⟨hnone, heq | ⟨m, due, heq⟩⟩ := Runner.turn_of_not_ready hready
    · rw [hnone, heq]
      exact hr
    · rw [hnone, heq]
      exact hP.rest hr (unaffected_move rfl (Runner.roster_move _) rfl
        (Runner.waiting_move trivial)) ⟨fun _ => rfl, rfl, rfl, le_rfl⟩

theorem Closed.turn? (hr : P h) (ht : h.turn? = some h') : P h' := by
  unfold Host.turn? at ht
  split at ht
  · cases ht
  · next turn rest _ =>
      have hrest : P { h with runner := { h.runner with turns := rest } } :=
        hP.same hr rfl rfl rfl
      cases turn with
      | owner n =>
          cases ht
          exact hP.actorTurn hrest n
      | task n =>
          have htask := hP.taskTurn hrest n
          dsimp only at ht htask
          split at ht <;> rename_i heq <;> rw [heq] at htask <;> cases ht <;> exact htask

theorem Closed.takeTurns (fuel : Nat) : ∀ {h : Host}, P h → P (h.takeTurns fuel) := by
  induction fuel with
  | zero => exact id
  | succ fuel ih =>
      intro h hr
      unfold Host.takeTurns
      split
      · exact hr
      · next ht => exact ih (hP.turn? hr ht)

theorem Closed.settle (hr : P h) : P h.settle := hP.takeTurns _ hr

omit hP in
theorem unaffected_releases (numbers : List Nat) : ∀ h : Host, Unaffected h
    { h with runner := numbers.foldl (fun r number => r.release number 0) h.runner } := by
  suffices hall : ∀ (numbers : List Nat) (r : Runner),
      let r' := numbers.foldl (fun r number => r.release number 0) r
      r'.table = r.table ∧ r'.roster = r.roster ∧ r'.nextNumber = r.nextNumber ∧
        ((∀ k ∈ r.tasks, k.stage.Waits) → ∀ k ∈ r'.tasks, k.stage.Waits) by
    intro h
    obtain ⟨htable, hroster, hnumber, hwaiting⟩ := hall numbers h.runner
    exact unaffected_move htable hroster hnumber hwaiting
  intro numbers
  induction numbers with
  | nil => exact fun r => ⟨rfl, rfl, rfl, id⟩
  | cons number rest ih =>
      intro r
      obtain ⟨htable, hroster, hnumber, hwaiting⟩ := ih (r.release number 0)
      have hfirst : (r.release number 0).roster = r.roster := by
        rw [Runner.roster, Runner.release, Runner.queue_tasks]
        exact Runner.roster_move _
      refine ⟨htable.trans (Runner.queue_table _), hroster.trans hfirst,
        hnumber.trans (Runner.queue_nextNumber _), fun h => hwaiting ?_⟩
      rw [Runner.release, Runner.queue_tasks]
      exact Runner.waiting_move trivial h

theorem Closed.advance (hr : P h) (ms : Nat) : P (h.advance ms) := by
  have hlater : P { h with runner := { h.runner with now := h.runner.after ms } } :=
    hP.same hr rfl rfl rfl
  have hreleased := hP.rest hlater
    (unaffected_releases (h.runner.dueBy (h.runner.after ms)) _) ⟨fun _ => rfl, rfl, rfl, le_rfl⟩
  exact hP.settle hreleased

theorem Closed.sleepUntil (fuel : Nat) : ∀ (time : Nat) {h : Host}, P h →
    P (h.sleepUntil fuel time) := by
  induction fuel with
  | zero => exact fun _ _ hr => hr
  | succ fuel ih =>
      intro time h hr
      unfold Host.sleepUntil
      split
      · split
        · exact ih time (hP.advance hr _)
        · exact hP.advance hr _
      · exact hP.advance hr _

theorem Closed.sleep (hr : P h) (ms : Nat) : P (h.sleep ms) := hP.sleepUntil _ _ (hP.settle hr)

theorem Closed.send (hr : P h) {id : String} {command : Command} {call : Nat}
    (hs : h.send id command = .ok (h', call)) : P h' := by
  unfold Host.send at hs
  split at hs
  · cases hs
  · next a ha =>
      split at hs
      · next hroom =>
          cases hs
          obtain ⟨registration, _, ha⟩ := Option.bind_eq_some_iff.mp ha
          exact hP.nudge (hP.accept command hr (actor?_some ha).1 hroom) _
      · cases hs

theorem Closed.submit (hr : P h) (id : String) (command : Command) :
    P (h.submit id command).1 := by
  unfold Host.submit
  split
  · next hs => exact hP.send hr hs
  · split
    · split
      · next hs => exact hP.send (hP.settle hr) hs
      · exact hP.settle hr
    · exact hr

theorem Closed.request (hr : P h) (id : String) (command : Command) :
    P (h.request id command).1 := by
  have hsubmitted := hP.submit hr id command
  unfold Host.request
  split
  · next heq => rwa [heq] at hsubmitted
  · next h' call heq =>
      rw [heq] at hsubmitted
      have hreply : P (h'.settle.takeReply call).1 := hP.collect call (hP.settle hsubmitted)
      dsimp only
      split
      · exact hreply
      · split <;> exact hreply

theorem Closed.dispatch (hr : P h) (id : String) (event : Event) : P (h.dispatch id event).1 := by
  have hrequest := hP.request hr id (.dispatch event)
  unfold Host.dispatch
  split <;> next heq => rwa [heq] at hrequest

theorem Closed.snapshot (hr : P h) (id : String) : P (h.snapshot id).1 := by
  have hrequest := hP.request hr id .snapshot
  unfold Host.snapshot
  split <;> next heq => rwa [heq] at hrequest

theorem Closed.unregister (hr : P h) (id : String) : P (h.unregister id) := hP.same hr rfl rfl rfl

theorem Closed.stop? (hr : P h) (id : String) : P (h.stop? id).1 := by
  have hsettled := hP.settle (hP.unregister (hP.request hr id .stop) id)
  unfold Host.stop?
  dsimp only
  split
  · exact hsettled
  · exact hP.same hsettled rfl rfl rfl

theorem Closed.abandon (hr : P h) (n : Nat) : P (h.abandon n) := by
  unfold Host.abandon
  split
  · have hforgotten : P { h with awaited := h.awaited.erase n } := hP.same hr rfl rfl rfl
    dsimp only
    split
    · exact hforgotten
    · next a ha =>
        have horphaned : P ({ h with awaited := h.awaited.erase n }.update
            { a with orphaned := true }) := hP.update hforgotten (actor?_some ha).1 rfl rfl
        exact hP.nudge horphaned n
  · exact hr

theorem Closed.stopEach (ids : List String) : ∀ {h : Host}, P h → P (h.stopEach ids) := by
  induction ids with
  | nil => exact id
  | cons id ids ih =>
      intro h hr
      have hstopped := hP.stop? hr id
      unfold Host.stopEach
      split
      · next heq =>
          rw [heq] at hstopped
          exact ih hstopped
      · next heq => rwa [heq] at hstopped

theorem Closed.shutdown (hr : P h) : P h.shutdown := by
  have hclosed : P h.close.1 := by
    unfold Host.close
    split
    · exact hr
    · exact hP.same hr rfl rfl rfl
  exact hP.stopEach h.close.2 hclosed

/-! ## Launches -/

omit hP in
theorem mem_carried {α : Type} (operation : Machine → Machine × α) {a : Actor}
    (ha : a ∈ h.actors) : carried operation a h ∈ (h.operate operation a).1.actors := by
  rw [(operate_serves operation a h).2.1]
  exact mem_update_self ⟨a, ha, rfl⟩

theorem Closed.bringUp (hr : P h) {l : Launch} (hl : l.chart.Sound) (context : Json)
    {setUp : Machine → Machine × Except MachineError Unit} (hop : SetsUp setUp) :
    P (h.bringUp l context setUp).1 := by
  unfold Host.bringUp
  split
  · exact hr
  · split
    · exact hr
    · next machine hmachine =>
        let a : Actor := { number := h.nextActor, instanceId := l.id, machine }
        have ha : a ∈ (h.join l.id machine).actors := by simp [Host.join, a]
        have hup : P ((h.join l.id machine).operate setUp a).1 :=
          hP.setUp (hP.join l.id hr hl hmachine) ha hop
        have hdown : P (((h.join l.id machine).operate setUp a).1.remove h.nextActor) :=
          hP.discard hup (mem_carried setUp ha) rfl
        simp only [Host.join] at hup hdown
        dsimp only
        split
        · next heq =>
            rw [heq] at hup hdown
            split
            · exact hup
            · exact hdown
        · next heq =>
            rw [heq] at hdown
            exact hdown

theorem Closed.register (hr : P h) (l : Launch) (n : Nat) : P (h.register l n) := by
  have hlisted : P { h with instances := Keyed.insert l.id ⟨l.chart.id, n⟩ h.instances } :=
    hP.same hr rfl rfl rfl
  unfold Host.register
  dsimp only
  split
  · exact hlisted
  · next a ha =>
      have hlive : P ({ h with instances := Keyed.insert l.id ⟨l.chart.id, n⟩ h.instances }.update
          { a with live := true }) := hP.update hlisted (actor?_some ha).1 rfl rfl
      exact hP.nudge hlive _

omit hP in
/-- An approved launch is one of a registered chart. -/
theorem approve_ok {id : Option String} {chart : String} {l : Launch}
    (ha : h.approve id chart = .ok (h', l)) :
    h' = { h with nextActor := h.nextActor + 1 } ∧ ∃ key, (key, l.chart) ∈ h.charts := by
  unfold approve at ha
  split at ha
  · cases ha
  · split at ha
    · cases ha
    · next c hc =>
        split at ha
        · cases ha
          exact ⟨rfl, chart, Keyed.mem_of_get? hc⟩
        · cases ha

theorem Closed.launch (hr : P h) (id : Option String) (chart : String) (context : Json)
    {setUp : Machine → Machine × Except MachineError Unit} (hop : SetsUp setUp) :
    P (h.launch id chart context setUp).1 := by
  unfold Host.launch
  split
  · exact hr
  · next h₁ l happrove =>
      obtain ⟨rfl, key, hchart⟩ := approve_ok happrove
      have hsound : l.chart.Sound := hP.charts hr _ hchart
      have happroved : P { h with nextActor := h.nextActor + 1 } :=
        hP.rest hr { unaffected_refl h with nextActor := Nat.le_succ _ }
          { rests_refl h with nextActor := Nat.le_succ _ }
      split
      · exact happroved
      · next h₂ hreserve =>
          have hreserved : P h₂ := by
            unfold reserve at hreserve
            split at hreserve
            · cases hreserve
            · cases hreserve
              exact hP.same happroved rfl rfl rfl
          have hup := hP.bringUp hreserved hsound context hop
          split
          · next heq =>
              rw [heq] at hup
              exact hP.same (hP.register hup l _) rfl rfl rfl
          · next heq =>
              rw [heq] at hup
              exact hP.same hup rfl rfl rfl

theorem Closed.feed (hr : P h) (input : Input) : P (h.feed input) := by
  cases input with
  | registerChart d c built =>
      refine hP.rest hr { unaffected_refl h with charts := fun e he => ?_ }
        ⟨fun _ => rfl, rfl, rfl, le_rfl⟩
      rcases Keyed.mem_insert he with rfl | he
      · exact .inr (Chart.build_sound built)
      · exact .inl he
  | registerPredicate name holds => exact hP.same hr rfl rfl rfl
  | registerService name service => exact hP.same hr rfl rfl rfl
  | spawn id chart context => exact hP.launch hr id chart context .start
  | restore id snapshot => exact hP.launch hr id _ _ (.restore snapshot)
  | dispatch id event => exact hP.dispatch hr id event
  | snapshot id => exact hP.snapshot hr id
  | stop id => exact hP.stop? hr id
  | shutdown => exact hP.shutdown hr
  | abandon actor => exact hP.abandon hr actor
  | send id command =>
      simp only [Host.feed]
      split
      · next hs => exact hP.send hr hs
      · exact hr
  | turn =>
      cases ht : h.turn? with
      | none => simpa [Host.feed, ht] using hr
      | some h' => simpa [Host.feed, ht] using hP.turn? hr ht
  | advance ms => exact hP.advance hr ms
  | sleep ms => exact hP.sleep hr ms

/-- What moves keep holds after every run. -/
theorem Closed.after (hr : P h₀) (inputs : List Input) : P (h₀.after inputs) := by
  induction inputs using List.reverseRecOn with
  | nil => exact hr
  | append_singleton inputs input ih =>
      rw [Host.after, List.foldl_concat]
      exact hP.feed ih input

end closed

/-! ## Steps -/

/-- Steps lead from one host to another. -/
def Reaches (h₀ h : Host) : Prop := ∃ acts, Steps h₀ acts h

theorem kept_create (config : Config) (available : Bool) : Kept [] (create config available) :=
  Kept.nil rfl rfl rfl rfl

theorem Reaches.other (hr : Reaches h₀ h) (hsame : Unaffected h h') : Reaches h₀ h' := by
  obtain ⟨acts, hsteps⟩ := hr
  exact ⟨_, hsteps.tail (.other hsame)⟩

theorem Reaches.same (hr : Reaches h₀ h) (hcore : h'.core = h.core) : Reaches h₀ h' :=
  hr.other (.of_core hcore)

theorem Reaches.remove (hr : Reaches h₀ h) (n : Nat) : Reaches h₀ (h.remove n) := by
  obtain ⟨acts, hsteps⟩ := hr
  exact ⟨_, hsteps.tail (.remove n)⟩

theorem halt_fst (m : Machine) : m.halt.1 = m.stop.1 := by
  unfold Machine.halt
  split
  · rfl
  · next hstatus => rw [stop_of_ne hstatus]

theorem startTolerantly_fst (m : Machine) : (startTolerantly m).1 = m.start.1 := by
  unfold startTolerantly
  split
  · next heq =>
      rw [heq]
      split <;> rfl
  · next heq => rw [heq]

/-- An operation that moves lead through, and after which a machine that does not run is at
rest. -/
def Regulated {α : Type} (operation : Machine → Machine × α) : Prop :=
  ∀ m : Machine, m.Regular → m.Reaches (operation m).1 ∧ (operation m).1.AtRest

theorem regulated_dispatch (event : Event) : Regulated (·.dispatch event) :=
  fun _ hm => feed_reaches hm (.dispatch event)

theorem regulated_halt : Regulated Machine.halt := by
  intro m hm
  rw [halt_fst]
  exact feed_reaches hm .stop

theorem regulated_start : Regulated startTolerantly := by
  intro m hm
  rw [startTolerantly_fst]
  exact feed_reaches hm .start

theorem regulated_restore (s : Snapshot) : Regulated (·.restore s) :=
  fun _ hm => feed_reaches hm (.restore s)

theorem SetsUp.regulated {operation : Machine → Machine × Except MachineError Unit}
    (h : SetsUp operation) : Regulated operation := by
  cases h with
  | start => exact regulated_start
  | restore s => exact regulated_restore s

theorem regulated_processPending :
    Regulated fun m => { m with signalled := false }.processPending := by
  intro m hm
  have hidles : m.Idles { m with signalled := false } := ⟨m.setup, m.pending, false, rfl⟩
  have hreach := (hidles.quiet.leads (a := [])).reaches
  obtain ⟨hmore, hrest⟩ := feed_reaches (hm.reach hreach hm.atRest) .processPending
  exact ⟨hreach.trans hmore, hrest⟩

section reach
variable (hk : Kept [] h₀)
include hk

theorem Reaches.operate (hr : Reaches h₀ h) {a : Actor} (ha : a ∈ h.actors) {α : Type}
    {operation : Machine → Machine × α} (hop : Regulated operation) :
    Reaches h₀ (h.operate operation a).1 := by
  obtain ⟨acts, hsteps⟩ := hr
  have hm := ((hsteps.kept hk).machines a ha).idles (equip_idles a.machine h.runner)
  obtain ⟨⟨hs, hmoves⟩, hrest⟩ := hop _ hm.regular
  exact ⟨_, hsteps.tail (.operate operation ha hmoves hrest)⟩

theorem Reaches.carryOut (hr : Reaches h₀ h) {a : Actor} (ha : a ∈ h.actors) (r : Request) :
    Reaches h₀ (h.carryOut r a) := by
  unfold Host.carryOut
  split
  · next event _ => exact (hr.operate hk ha (regulated_dispatch event)).same rfl
  · exact hr.same rfl
  · have hanswered : ∀ reply, Reaches h₀ ((h.operate Machine.halt a).1.answer r.call reply) :=
      fun _ => (hr.operate hk ha regulated_halt).same rfl
    exact (hanswered _).remove _

/-- What steps lead to is closed under moves. -/
theorem closed_reaches : Closed (Reaches h₀) where
  numbers := fun ⟨_, hsteps⟩ => (hsteps.kept hk).numbers
  charts := fun ⟨_, hsteps⟩ => (hsteps.kept hk).charts
  rest hr hsame _ := hr.other hsame
  join := fun id ⟨_, hsteps⟩ hsound hcreate =>
    ⟨_, hsteps.tail (.launch rfl (create_begins hsound hcreate))⟩
  setUp hr ha hop := hr.operate hk ha hop.regulated
  discard hr _ _ := hr.remove _
  accept {h a} command hr ha _ := by
    have hcounted : Reaches h₀ { h with nextCall := h.nextCall + 1 } := hr.same rfl
    exact hcounted.other (unaffected_update (a := a) ha (.of_machine rfl rfl))
  serve {h a r rest} hr ha _ := by
    have htaken : Reaches h₀ (h.update { a with inbox := rest }) :=
      hr.other (unaffected_update ha (.of_machine rfl rfl))
    exact htaken.carryOut hk (mem_update_self ⟨a, ha, rfl⟩) r
  wake hr ha := hr.operate hk ha regulated_processPending
  lapse hr ha _ := (hr.operate hk ha regulated_halt).remove _
  collect _ hr := hr.same rfl
  finish := fun ⟨_, hsteps⟩ htask hready => ⟨_, hsteps.tail (.finish htask hready)⟩

theorem reaches_after (inputs : List Input) : Reaches h₀ (h₀.after inputs) :=
  (closed_reaches hk).after ⟨[], .refl⟩ inputs

end reach

end Host

end Statechart
