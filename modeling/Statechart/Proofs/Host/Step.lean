import Statechart.Host.Basic
import Statechart.Proofs.Machine.Course
import Statechart.Proofs.Service.Serve

/-!
# Steps of a host

Whatever a host does is made of a few steps: a machine carries out an operation and the runner
serves its calls, a task ends and reports, an actor is added or ends, or neither the table of the
runner nor what machines hold is touched. The ledger of a run gives the history of each instance.
Every step keeps the books of all machines in agreement with the ledger.
-/
namespace Statechart

/-- An actor stays what it was, except that completions may have arrived for its machine. -/
structure Actor.Stays (a a' : Actor) : Prop where
  number : a'.number = a.number
  idles : a.machine.Idles a'.machine
  pending : a.machine.pending <+: a'.machine.pending

theorem Actor.Stays.of_machine {a a' : Actor} (hnumber : a'.number = a.number)
    (hmachine : a'.machine = a.machine) : a.Stays a' :=
  ⟨hnumber, hmachine ▸ Machine.Idles.refl _, by rw [hmachine]⟩

theorem Actor.Stays.refl (a : Actor) : a.Stays a := .of_machine rfl rfl

theorem Actor.Stays.trans {a b c : Actor} (h : a.Stays b) (h' : b.Stays c) : a.Stays c :=
  ⟨h'.number.trans h.number, h.idles.trans h'.idles, h.pending.trans h'.pending⟩

/-- A machine as it is given to an operation by the host of a runner. -/
def Machine.equip (m : Machine) (r : Runner) : Machine :=
  { m with setup := { m.setup with answer := r.refusal } }

namespace Host
open Machine History

/-- What a step does. -/
inductive Act where
  /-- The machine of an actor has carried out an operation, with a history and its effects. -/
  | operated (actor : Nat) (hs : History) (effects : List Effect)
  /-- A task has ended by itself. -/
  | ended (task : Nat)
  /-- An actor has ended. -/
  | removed (actor : Nat)
  | other

/-- What one step adds to the history of an instance. -/
def Act.history (actor : Nat) : Act → History
  | operated a hs _ => if a = actor then hs else []
  | ended _ | removed _ | other => []

/-- The history of an instance over some steps. -/
def ledger (acts : List Act) (actor : Nat) : History := acts.flatMap (Act.history actor)

@[simp] theorem ledger_nil (actor : Nat) : ledger [] actor = [] := rfl

@[simp] theorem ledger_concat (acts : List Act) (act : Act) (actor : Nat) :
    ledger (acts ++ [act]) actor = ledger acts actor ++ act.history actor := by
  simp [ledger]

/-- Neither the table of the runner nor what the machines hold is touched. -/
structure Unaffected (h h' : Host) : Prop where
  table : h'.runner.table = h.runner.table
  roster : h'.runner.roster = h.runner.roster
  nextNumber : h'.runner.nextNumber = h.runner.nextNumber
  waiting : (∀ k ∈ h.runner.tasks, k.stage.Waits) → ∀ k ∈ h'.runner.tasks, k.stage.Waits
  numbers : h'.actors.map Actor.number = h.actors.map Actor.number
  actors : ∀ a' ∈ h'.actors, ∃ a ∈ h.actors, a.Stays a'
  nextActor : h.nextActor ≤ h'.nextActor
  charts : ∀ e ∈ h'.charts, e ∈ h.charts ∨ e.2.Sound

inductive Step (h : Host) : Act → Host → Prop where
  | operate {α : Type} (operation : Machine → Machine × α) {a : Actor} {hs : History}
      (ha : a ∈ h.actors)
      (hmoves : Moves ⟨a.machine.equip h.runner, []⟩ hs
        ⟨(operation (a.machine.equip h.runner)).1, []⟩)
      (hrest : (operation (a.machine.equip h.runner)).1.AtRest) :
    Step h (.operated a.number hs (operation (a.machine.equip h.runner)).1.trace.toList)
      (h.operate operation a).1
  | finish {n : Nat} {k : Task} (hk : h.runner.task? n = some k) (hready : k.stage = .ready 0) :
    Step h (.ended n)
      ({ h with runner := (h.runner.turn n).1 }.deliver ⟨k.owner, k.token, k.job.outcome⟩)
  | remove (n : Nat) : Step h (.removed n) (h.remove n)
  | launch {a : Actor} (hnumber : a.number = h.nextActor) (hbegins : a.machine.Begins) :
    Step h .other { h with nextActor := h.nextActor + 1, actors := h.actors ++ [a] }
  | other {h' : Host} (hsame : Unaffected h h') : Step h .other h'

/-- A run of a host, step by step. -/
inductive Steps (h₀ : Host) : List Act → Host → Prop where
  | refl : Steps h₀ [] h₀
  | tail {acts h act h'} (hsteps : Steps h₀ acts h) (hstep : Step h act h') :
    Steps h₀ (acts ++ [act]) h'

/-- A machine of a host agrees with the history of its instance. -/
structure Tracked (hs : History) (m : Machine) : Prop where
  sound : m.chart.Sound
  atRest : m.AtRest
  trace : m.trace = #[]
  books : Books m.chart hs ⟨m, []⟩

/-- A host agrees with its ledger. -/
structure Kept (acts : List Act) (h : Host) : Prop where
  tidy : h.runner.Tidy
  single : h.runner.Single
  numbers : (h.actors.map Actor.number).Nodup
  below : ∀ a ∈ h.actors, a.number < h.nextActor
  unborn : ∀ n, h.nextActor ≤ n → ledger acts n = []
  machines : ∀ a ∈ h.actors, Tracked (ledger acts a.number) a.machine
  charts : ∀ e ∈ h.charts, e.2.Sound
  issued : ∀ k ∈ h.runner.roster, k.token ∈ issued (ledger acts k.owner)

variable {h h' h₀ : Host} {acts : List Act} {act : Act}

section machines
variable {hs new : History} {m m' : Machine}

theorem equip_idles (m : Machine) (r : Runner) : m.Idles (m.equip r) :=
  ⟨_, m.pending, m.signalled, rfl⟩

theorem Tracked.idles (hm : Tracked hs m) (h : m.Idles m') : Tracked hs m' := by
  have hbooks := hm.books.quiet h.quiet
  obtain ⟨setup, pending, signalled, rfl⟩ := h
  exact ⟨hm.sound, hm.atRest, hm.trace, hbooks⟩

theorem Tracked.regular (hm : Tracked hs m) : m.Regular :=
  ⟨hm.sound, ⟨hs, hm.books⟩, hm.atRest⟩

theorem Tracked.begins (hm : m.Begins) : Tracked [] m :=
  ⟨hm.sound, hm.regular.atRest, hm.trace, Books.nil hm.configuration hm.invocations⟩

/-- Moves extend the history of a machine; its trace is handed over. -/
theorem Tracked.moves (hm : Tracked hs m) (h : Moves ⟨m, []⟩ new ⟨m', []⟩) (hrest : m'.AtRest) :
    Tracked (hs ++ new) m'.takeTrace.1 := by
  have hchart : m'.chart = m.chart := h.chart
  have hb := h.books hm.sound hm.books
  rw [← hchart] at hb
  refine ⟨by rw [takeTrace, hchart]; exact hm.sound, hrest, rfl, ?_⟩
  exact ⟨hb.chart, hb.rooted, hb.orderly, hb.generation, hb.sorted, hb.awaiting, hb.inactive,
    hb.fresh, hb.settled, hb.held⟩

/-- What the trace of an operation shows is what has happened in it. -/
theorem Tracked.shown (hm : Tracked hs m) (h : Moves ⟨m, []⟩ new ⟨m', []⟩) :
    m'.trace.toList.filter Effect.shows = new.flatMap (Happening.effects m.chart) := by
  simpa [hm.trace] using h.effects

theorem Tracked.orderly (hm : Tracked hs m) (h : Moves ⟨m, []⟩ new ⟨m', []⟩) :
    Orderly m.chart (hs ++ new) :=
  (h.books hm.sound hm.books).orderly

theorem Tracked.stopped (hm : Tracked hs m) (h : Moves ⟨m, []⟩ new ⟨m', []⟩) :
    m'.trace.toList.filterMap Effect.stopped? = revoked new :=
  stopped_eq (hm.shown h)

theorem Tracked.started (hm : Tracked hs m) (h : Moves ⟨m, []⟩ new ⟨m', []⟩) :
    m'.trace.toList.filterMap Effect.started? = started new :=
  started_eq (fun i t input hmem => (hm.orderly h).invokes i t input
    (List.mem_append_right _ hmem)) (hm.shown h)

/-- The tokens started in an operation are new, each one started once. -/
theorem Tracked.started_new (hm : Tracked hs m) (h : Moves ⟨m, []⟩ new ⟨m', []⟩) :
    (History.started new).Nodup ∧ ∀ t ∈ issued hs, t ∉ History.started new := by
  have hnodup := (hm.orderly h).issued_nodup
  rw [issued, List.filterMap_append, List.nodup_append] at hnodup
  refine ⟨hnodup.2.1.sublist (started_sublist new), fun t ht hstarted => ?_⟩
  exact hnodup.2.2 t ht t ((started_sublist new).subset hstarted) rfl

end machines

theorem mem_update {a b : Actor} (hb : b ∈ (h.update a).actors) :
    b = a ∨ b ∈ h.actors ∧ b.number ≠ a.number := by
  obtain ⟨c, hc, rfl⟩ := List.mem_map.mp hb
  by_cases heq : c.number = a.number
  · exact .inl (if_pos heq)
  · rw [if_neg heq]
    exact .inr ⟨hc, heq⟩

theorem numbers_update (a : Actor) (h : Host) :
    (h.update a).actors.map Actor.number = h.actors.map Actor.number := by
  simp only [update, List.map_map]
  refine List.map_congr_left fun b _ => ?_
  simp only [Function.comp_apply]
  split
  · next heq => exact heq.symm
  · rfl

theorem mem_update_self {a : Actor} (ha : ∃ b ∈ h.actors, b.number = a.number) :
    a ∈ (h.update a).actors := by
  obtain ⟨b, hb, heq⟩ := ha
  exact List.mem_map.mpr ⟨b, hb, if_pos heq⟩

/-- An operation of another actor leaves an actor as it is. -/
theorem mem_update_of_ne {a b : Actor} (hb : b ∈ h.actors) (hne : b.number ≠ a.number) :
    b ∈ (h.update a).actors :=
  List.mem_map.mpr ⟨b, hb, if_neg hne⟩

theorem actor?_some {n : Nat} {a : Actor} (ha : h.actor? n = some a) :
    a ∈ h.actors ∧ a.number = n :=
  ⟨List.mem_of_find?_eq_some ha, by simpa using List.find?_some ha⟩

/-- Carrying out effects is serving their calls, as far as actors and the runner go. -/
theorem perform_serves (number : Nat) (id : String) (effects : List Effect) : ∀ h : Host,
    (effects.foldl (perform number id) h).runner = h.runner.serve number effects ∧
    (effects.foldl (perform number id) h).actors = h.actors ∧
    (effects.foldl (perform number id) h).nextActor = h.nextActor ∧
    (effects.foldl (perform number id) h).charts = h.charts := by
  induction effects with
  | nil => exact fun h => ⟨rfl, rfl, rfl, rfl⟩
  | cons e effects ih =>
      intro h
      obtain ⟨hrunner, hactors, hnext, hcharts⟩ := ih (h.perform number id e)
      rw [List.foldl_cons, hrunner, hactors, hnext, hcharts]
      cases e <;> exact ⟨rfl, rfl, rfl, rfl⟩

/-- The machine after an operation, without its trace, in its actor. -/
def carried {α : Type} (operation : Machine → Machine × α) (a : Actor) (h : Host) : Actor :=
  { a with machine := (operation (a.machine.equip h.runner)).1.takeTrace.1 }

theorem operate_serves {α : Type} (operation : Machine → Machine × α) (a : Actor) (h : Host) :
    (h.operate operation a).1.runner =
      h.runner.serve a.number (operation (a.machine.equip h.runner)).1.trace.toList ∧
    (h.operate operation a).1.actors = (h.update (carried operation a h)).actors ∧
    (h.operate operation a).1.nextActor = h.nextActor ∧
    (h.operate operation a).1.charts = h.charts :=
  perform_serves a.number a.instanceId _ (h.update (carried operation a h))

/-- All that the steps of a host are about. -/
def core (h : Host) := (h.runner.tasks, h.runner.table, h.runner.nextNumber, h.actors, h.nextActor,
  h.charts)

theorem Unaffected.of_core (hcore : h'.core = h.core) : Unaffected h h' := by
  simp only [core, Prod.mk.injEq] at hcore
  obtain ⟨htasks, htable, hnumber, hactors, hnext, hcharts⟩ := hcore
  exact ⟨htable, congrArg (List.map Task.identity) htasks, hnumber, by rw [htasks]; exact id,
    by rw [hactors], fun a ha => ⟨a, hactors ▸ ha, .refl a⟩, hnext.ge,
    fun _ he => .inl (hcharts ▸ he)⟩

theorem unaffected_refl (h : Host) : Unaffected h h := .of_core rfl

theorem Unaffected.trans {h'' : Host} (hsame : Unaffected h h') (hsame' : Unaffected h' h'') :
    Unaffected h h'' where
  table := hsame'.table.trans hsame.table
  roster := hsame'.roster.trans hsame.roster
  nextNumber := hsame'.nextNumber.trans hsame.nextNumber
  waiting hwaiting := hsame'.waiting (hsame.waiting hwaiting)
  numbers := hsame'.numbers.trans hsame.numbers
  actors a'' ha'' := by
    obtain ⟨a', ha', hstays'⟩ := hsame'.actors a'' ha''
    obtain ⟨a, ha, hstays⟩ := hsame.actors a' ha'
    exact ⟨a, ha, hstays.trans hstays'⟩
  nextActor := hsame.nextActor.trans hsame'.nextActor
  charts e he := by
    rcases hsame'.charts e he with he | hsound
    · exact hsame.charts e he
    · exact .inr hsound

/-- No actor is lost where machines are left alone. -/
theorem Unaffected.stays (hsame : Unaffected h h') (hnodup : (h.actors.map Actor.number).Nodup)
    {a : Actor} (ha : a ∈ h.actors) : ∃ a' ∈ h'.actors, a.Stays a' := by
  have hmem : a.number ∈ h'.actors.map Actor.number := by
    rw [hsame.numbers]
    exact List.mem_map_of_mem ha
  obtain ⟨a', ha', hnumber⟩ := List.mem_map.mp hmem
  obtain ⟨b, hb, hstays⟩ := hsame.actors a' ha'
  obtain rfl := List.inj_on_of_nodup_map hnodup ha hb (hnumber.symm.trans hstays.number)
  exact ⟨a', ha', hstays⟩

/-- An actor is replaced by a later state, but what its machine holds is the same. -/
theorem unaffected_update {a a' : Actor} (ha : a ∈ h.actors) (hstays : a.Stays a') :
    Unaffected h (h.update a') := by
  refine { unaffected_refl h with numbers := by rw [numbers_update], actors := fun b hb => ?_ }
  rcases mem_update hb with rfl | ⟨hb, _⟩
  · exact ⟨a, ha, hstays⟩
  · exact ⟨b, hb, .refl b⟩

theorem unaffected_wake (n : Nat) (h : Host) : Unaffected h (h.wake n) :=
  .of_core (by simp [core, Host.wake])

theorem unaffected_deliver (r : Report) (h : Host) : Unaffected h (h.deliver r) := by
  unfold deliver
  split
  · exact unaffected_refl h
  · next a ha =>
      have hstays : a.Stays { a with machine := a.machine.report r.completion } :=
        ⟨rfl, ⟨a.machine.setup, _, _, rfl⟩, List.prefix_append _ _⟩
      exact (unaffected_update (actor?_some ha).1 hstays).trans (unaffected_wake _ _)

/-- Tasks are moved to other stages of waiting. -/
theorem unaffected_move {r : Runner} (htable : r.table = h.runner.table)
    (hroster : r.roster = h.runner.roster) (hnumber : r.nextNumber = h.runner.nextNumber)
    (hwaiting : (∀ k ∈ h.runner.tasks, k.stage.Waits) → ∀ k ∈ r.tasks, k.stage.Waits) :
    Unaffected h { h with runner := r } :=
  { unaffected_refl h with
    table := htable, roster := hroster, nextNumber := hnumber, waiting := hwaiting }

theorem Kept.nil {h : Host} (htasks : h.runner.tasks = []) (htable : h.runner.table = [])
    (hactors : h.actors = []) (hcharts : h.charts = []) : Kept [] h where
  tidy := ⟨by simp [Runner.roster, htasks], by simp [Runner.roster, htasks], by simp [htasks],
    by simp [htable], by simp [htable]⟩
  single := by simp [Runner.Single, Runner.roster, htasks]
  numbers := by simp [hactors]
  below := by simp [hactors]
  unborn := by simp
  machines := by simp [hactors]
  charts := by simp [hcharts]
  issued := by simp [Runner.roster, htasks]

/-- What adds nothing to any history leaves the agreement as it is. -/
theorem Kept.silent (hk : Kept acts h) (hact : ∀ n, act.history n = []) :
    Kept (acts ++ [act]) h := by
  have hledger : ledger (acts ++ [act]) = ledger acts := by
    funext n
    rw [ledger_concat, hact, List.append_nil]
  exact ⟨hk.tidy, hk.single, hk.numbers, hk.below, hledger ▸ hk.unborn, hledger ▸ hk.machines,
    hk.charts, hledger ▸ hk.issued⟩

theorem Kept.unaffected (hk : Kept acts h) (hsame : Unaffected h h') : Kept acts h' := by
  refine ⟨?_, ?_, hsame.numbers ▸ hk.numbers, fun a' ha' => ?_,
    fun n hn => hk.unborn n (hsame.nextActor.trans hn), fun a' ha' => ?_, fun e he => ?_,
    fun k hmem => hk.issued k (hsame.roster ▸ hmem)⟩
  · have htidy := hk.tidy
    exact ⟨by rw [hsame.roster]; exact htidy.numbers,
      by rw [hsame.roster, hsame.nextNumber]; exact htidy.below, hsame.waiting htidy.waiting,
      by rw [hsame.table]; exact htidy.keys,
      by rw [hsame.table, hsame.roster]; exact htidy.entries⟩
  · rw [Runner.Single, hsame.roster]
    exact hk.single
  · obtain ⟨a, ha, hstays⟩ := hsame.actors a' ha'
    rw [hstays.number]
    exact (hk.below a ha).trans_le hsame.nextActor
  · obtain ⟨a, ha, hstays⟩ := hsame.actors a' ha'
    rw [hstays.number]
    exact (hk.machines a ha).idles hstays.idles
  · rcases hsame.charts e he with he | he
    · exact hk.charts e he
    · exact he

theorem Kept.remove (hk : Kept acts h) (n : Nat) : Kept acts (h.remove n) := by
  have hsub : (h.remove n).actors ⊆ h.actors := List.filter_sublist.subset
  exact ⟨hk.tidy, hk.single, hk.numbers.sublist (List.filter_sublist.map _),
    fun a ha => hk.below a (hsub ha), hk.unborn, fun a ha => hk.machines a (hsub ha), hk.charts,
    hk.issued⟩

theorem Kept.launch (hk : Kept acts h) {a : Actor} (hnumber : a.number = h.nextActor)
    (hbegins : a.machine.Begins) :
    Kept acts { h with nextActor := h.nextActor + 1, actors := h.actors ++ [a] } := by
  refine ⟨hk.tidy, hk.single, ?_, fun b hb => ?_,
    fun n hn => hk.unborn n ((Nat.le_succ _).trans hn), fun b hb => ?_, hk.charts, hk.issued⟩
  · simp only [List.map_append, List.map_cons, List.map_nil, List.nodup_append]
    refine ⟨hk.numbers, by simp, fun n hn m hm => ?_⟩
    obtain ⟨b, hb, rfl⟩ := List.mem_map.mp hn
    rw [List.mem_singleton.mp hm, hnumber]
    exact (hk.below b hb).ne
  · rcases List.mem_append.mp hb with hb | hb
    · exact (hk.below b hb).trans (Nat.lt_succ_self _)
    · rw [List.mem_singleton.mp hb, hnumber]
      exact Nat.lt_succ_self _
  · rcases List.mem_append.mp hb with hb | hb
    · exact hk.machines b hb
    · rw [List.mem_singleton.mp hb, hk.unborn a.number hnumber.ge]
      exact Tracked.begins hbegins

theorem Kept.finish (hk : Kept acts h) {n : Nat} {k : Task} (htask : h.runner.task? n = some k)
    (hready : k.stage = .ready 0) : Kept acts { h with runner := (h.runner.turn n).1 } := by
  have hremoved := Runner.finish_removed hk.tidy htask hready
  have hsub := hremoved.sublist.subset
  exact ⟨hremoved.tidy hk.tidy, fun l hl l' hl' => hk.single l (hsub hl) l' (hsub hl'),
    hk.numbers, hk.below, hk.unborn, hk.machines, hk.charts, fun l hl => hk.issued l (hsub hl)⟩

theorem issued_append (hs new : History) : issued (hs ++ new) = issued hs ++ issued new :=
  List.filterMap_append

theorem Kept.operate (hk : Kept acts h) {α : Type} {operation : Machine → Machine × α} {a : Actor}
    {hs : History} (ha : a ∈ h.actors)
    (hmoves : Moves ⟨a.machine.equip h.runner, []⟩ hs
      ⟨(operation (a.machine.equip h.runner)).1, []⟩)
    (hrest : (operation (a.machine.equip h.runner)).1.AtRest) :
    Kept (acts ++ [.operated a.number hs (operation (a.machine.equip h.runner)).1.trace.toList])
      (h.operate operation a).1 := by
  have hm := (hk.machines a ha).idles (equip_idles a.machine h.runner)
  have hstarted := hm.started hmoves
  obtain ⟨hnodup, hnew⟩ := hm.started_new hmoves
  have hother : ∀ n, n ≠ a.number →
      Act.history n (.operated a.number hs (operation (a.machine.equip h.runner)).1.trace.toList) =
        [] := fun n hn => if_neg hn.symm
  have hown : Act.history a.number
      (.operated a.number hs (operation (a.machine.equip h.runner)).1.trace.toList) = hs :=
    if_pos rfl
  obtain ⟨hrunner, hactors, hnext, hcharts⟩ := operate_serves operation a h
  refine ⟨?_, ?_, ?_, fun b hb => ?_, fun n hn => ?_, fun b hb => ?_, ?_, fun k hmem => ?_⟩
  · rw [hrunner]
    exact Runner.serve_tidy _ hk.tidy
  · rw [hrunner]
    -- the tokens of earlier tasks of the instance have been issued before, the new ones have not
    refine Runner.serve_single _ hk.tidy hk.single (by rwa [hstarted]) fun k hmem howner => ?_
    rw [hstarted]
    exact hnew _ (howner ▸ hk.issued k hmem)
  · rw [hactors, numbers_update]
    exact hk.numbers
  · rw [hactors] at hb
    rw [hnext]
    rcases mem_update hb with rfl | ⟨hb, _⟩
    · exact hk.below a ha
    · exact hk.below b hb
  · rw [hnext] at hn
    have hne : n ≠ a.number := fun heq => absurd (hk.below a ha) (by rw [← heq]; exact hn.not_gt)
    rw [ledger_concat, hk.unborn n hn, hother n hne]
    rfl
  · rw [hactors] at hb
    rw [ledger_concat]
    rcases mem_update hb with rfl | ⟨hb, hne⟩
    · rw [show (carried operation a h).number = a.number from rfl, hown]
      exact hm.moves hmoves hrest
    · rw [hother _ hne, List.append_nil]
      exact hk.machines b hb
  · rw [hcharts]
    exact hk.charts
  · rw [hrunner] at hmem
    rw [ledger_concat, issued_append, List.mem_append]
    rcases Runner.mem_roster_serve _ hk.tidy hmem with hmem | ⟨howner, htoken⟩
    · exact .inl (hk.issued k hmem)
    · rw [hstarted] at htoken
      rw [howner, hown]
      exact .inr ((started_sublist hs).subset htoken)

theorem Step.kept (hstep : Step h act h') (hk : Kept acts h) : Kept (acts ++ [act]) h' := by
  cases hstep with
  | operate operation ha hmoves hrest => exact hk.operate ha hmoves hrest
  | finish htask hready =>
      exact ((hk.finish htask hready).unaffected (unaffected_deliver _ _)).silent fun _ => rfl
  | remove n => exact (hk.remove n).silent fun _ => rfl
  | launch hnumber hbegins => exact (hk.launch hnumber hbegins).silent fun _ => rfl
  | other hsame => exact (hk.unaffected hsame).silent fun _ => rfl

theorem Steps.kept (hsteps : Steps h₀ acts h) (hk : Kept [] h₀) : Kept acts h := by
  induction hsteps with
  | refl => exact hk
  | tail _ hstep ih => exact hstep.kept ih

end Host

end Statechart
