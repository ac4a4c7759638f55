import Statechart.Proofs.Chart.Arena
import Statechart.Proofs.Expr.Values
import Statechart.Proofs.Machine.Course

/-!
# The values of a machine

A machine of a tidy definition that is given nothing but values in normal form holds nothing else:
its context, the reports that it has been sent and the events that its actions raise are in normal
form after every run, wherever actions have failed in it.
-/
namespace Statechart

/-- A state has tidy actions and a tidy invocation. -/
structure State.Tidy (s : State) : Prop where
  entry : ∀ a ∈ s.entry, a.Tidy
  exit : ∀ a ∈ s.exit, a.Tidy
  actions : ∀ e ∈ s.transitions, ∀ t ∈ e.2, ∀ a ∈ t.actions, a.Tidy
  input : ∀ v ∈ s.invoke, ∀ p ∈ v.input, p.Tidy

def Chart.Tidy (c : Chart) : Prop := ∀ i, (c.state i).Tidy

theorem StateDef.Tidy.nodes {s : StateDef} (h : s.Tidy) : ∀ id, ∀ n ∈ s.nodes id, n.2.Tidy := by
  induction h with
  | @intro s honSorted hstatesSorted hentry hexit hon hinvoke hstates ih =>
      intro id
      rw [nodes_eq, List.forall_mem_cons]
      refine ⟨.intro honSorted hstatesSorted hentry hexit hon hinvoke hstates, fun n hn => ?_⟩
      obtain ⟨e, he, hn⟩ := mem_tableNodes.mp hn
      exact ih e he e.1 n hn

theorem Chart.Represents.tidy {c : Chart} {s : State} {n : String × StateDef}
    (h : c.Represents s n) (hn : n.2.Tidy) : s.Tidy := by
  obtain ⟨_, _, hentry, hexit, hon, hinvoke, _⟩ := hn
  refine ⟨h.entry ▸ hentry, h.exit ▸ hexit, fun e he t ht a ha => ?_, fun v hv p hp => ?_⟩
  · have hmem : (e.1, e.2.map c.transitionDef) ∈ n.2.on := by
      rw [← h.transitions]
      exact List.mem_map_of_mem he
    exact (hon _ hmem (c.transitionDef t) (List.mem_map_of_mem ht)).actions a ha
  · rw [h.invoke] at hv
    obtain ⟨i, hi, rfl⟩ := Option.mem_map.mp hv
    exact hinvoke i hi p hp

theorem Chart.build_tidy {d : Definition} {c : Chart} (hd : d.Tidy) (h : build d = .ok c) :
    c.Tidy := by
  intro i
  by_cases hi : i < c.size
  · have hlt : i < c.states.toList.length := hi
    obtain ⟨n, hn, hrep⟩ := exists_of_mem_forall₂ (build_nodes h).flip
      c.states.toList[i] (List.getElem_mem hlt)
    have hstate : c.state i = c.states.toList[i] := by
      have hsize : i < c.states.size := hi
      simp [state, hsize]
    rw [hstate]
    exact hrep.tidy (hd.root.nodes d.id n hn)
  · rw [state_eq_default (by omega)]
    exact ⟨by simp [default], by simp [default], by simp [default], by simp [default]⟩

theorem Chart.build_defaultContext {d : Definition} {c : Chart} (hd : d.Tidy)
    (h : build d = .ok c) : c.defaultContext.IsNormal := by
  obtain ⟨context, states, _, hcontext, _, _, rfl⟩ := build_ok h
  have hnormal := hd.context
  unfold defaultContextOf at hcontext
  split at hcontext
  · cases hcontext
    rfl
  · cases hcontext
    rfl
  · next members heq =>
      cases hcontext
      exact hnormal _ heq
  · cases hcontext

def Outcome.IsNormal : Outcome → Prop
  | done v | error v => v.IsNormal

theorem Completion.toEvent_isNormal {r : Completion} (h : r.outcome.IsNormal) :
    r.toEvent.IsNormal := by
  obtain ⟨token, outcome⟩ := r
  cases outcome <;> exact h

/-- What a runner answers is in normal form. -/
def AnswersNormal (answer : InvokeRequest → Option Outcome) : Prop :=
  ∀ request, ∀ o ∈ answer request, o.IsNormal

namespace Machine

/-- Everything that a machine holds is in normal form. -/
structure Tidy (m : Machine) : Prop where
  chart : m.chart.Tidy
  answer : AnswersNormal m.setup.answer
  context : m.context.IsNormal
  pending : ∀ r ∈ m.pending, r.outcome.IsNormal

variable {m m' : Machine}

theorem Tidy.congr (h : m.Tidy) (hchart : m'.chart = m.chart) (hsetup : m'.setup = m.setup)
    (hcontext : m'.context = m.context) (hpending : m'.pending = m.pending) : m'.Tidy :=
  ⟨hchart ▸ h.chart, hsetup ▸ h.answer, hcontext ▸ h.context, hpending ▸ h.pending⟩

theorem Tidy.report (h : m.Tidy) {r : Completion} (hr : r.outcome.IsNormal) : (m.report r).Tidy :=
  ⟨h.chart, h.answer, h.context,
    List.forall_mem_append.mpr ⟨h.pending, List.forall_mem_singleton.mpr hr⟩⟩

theorem Tidy.startInvocation (h : m.Tidy) (i : Nat) : (m.startInvocation i).Tidy := by
  cases hv : (m.chart.state i).invoke with
  | none => rwa [startInvocation_of_none hv]
  | some v =>
      have hstarted (table : Keyed Token) (generation : Nat) (trace : Array Effect) :
          Tidy { m with invocations := table, generation, trace } := h.congr rfl rfl rfl rfl
      rw [startInvocation_eq hv]
      dsimp only
      split
      · split
        · next outcome houtcome =>
            have hanswer : outcome.IsNormal := h.answer _ outcome houtcome
            exact Tidy.report (hstarted _ _ _) hanswer
        · exact hstarted _ _ _
      · exact Tidy.report (hstarted _ _ _) rfl

theorem Tidy.startInvocations (states : List Nat) : ∀ {m : Machine}, m.Tidy →
    (m.startInvocations states).Tidy := by
  induction states with
  | nil => exact fun h => h
  | cons i rest ih => exact fun h => ih (h.startInvocation i)

theorem Tidy.leave (h : m.Tidy) (i : Nat) : (m.leave i).Tidy := by
  have hstop : (m.stopInvocation i).Tidy := by
    unfold stopInvocation
    split
    · exact h
    · split
      · exact h
      · exact h.congr rfl rfl rfl rfl
  exact hstop.congr rfl rfl rfl rfl

end Machine

namespace Step
open Machine

/-- The machine is tidy, and the events raised so far are in normal form. -/
structure Tidy (s : Step) : Prop where
  machine : s.machine.Tidy
  raised : ∀ e ∈ s.raised, e.IsNormal

/-- The event of a cause is in normal form. -/
def Cause.IsNormal (cause : Cause) : Prop := ∀ e ∈ cause.event, e.IsNormal

variable {cause : Cause} {s : Step}

theorem Cause.isNormal_of_none {source target : String} : IsNormal ⟨none, source, target⟩ := nofun

theorem Tidy.notify (h : s.Tidy) (n : Notification) : (s.notify n).Tidy :=
  ⟨h.machine.congr rfl rfl rfl rfl, h.raised⟩

/-- Going on with an attempt keeps what both of its parts keep. -/
theorem Tidy.andThen {a : Attempt} {next : Step → Attempt} (h : a.1.Tidy)
    (hnext : ∀ s, s.Tidy → (next s).1.Tidy) : (a.andThen next).1.Tidy := by
  unfold Attempt.andThen
  split
  · exact hnext _ h
  · exact h

theorem Tidy.runActions (h : s.Tidy) (hcause : cause.IsNormal) {actions : List Action}
    (hactions : ∀ a ∈ actions, a.Tidy) : (s.runActions cause actions).1.Tidy := by
  have hscope : Scope.IsNormal ⟨s.machine.context, s.raised, []⟩ := ⟨h.machine.context, h.raised⟩
  have hafter : (Action.applyAll s.machine.chart.id s.machine.settings.raisePolicy cause.event
      actions ⟨s.machine.context, s.raised, []⟩).1.IsNormal :=
    Action.applyAll_isNormal hcause hactions hscope
  unfold Step.runActions
  dsimp only
  split <;> exact ⟨⟨h.machine.chart, h.machine.answer, hafter.context, h.machine.pending⟩,
    hafter.raised⟩

theorem Tidy.exitInnermost (h : s.Tidy) (hcause : cause.IsNormal) :
    (s.exitInnermost cause).1.Tidy := by
  unfold Step.exitInnermost
  split
  · exact h
  · next i _ =>
      exact (h.runActions hcause (h.machine.chart i).exit).andThen fun u hu =>
        ⟨hu.machine.leave i, hu.raised⟩

theorem Tidy.exitMany (hcause : cause.IsNormal) (n : Nat) : ∀ {s : Step}, s.Tidy →
    (s.exitMany cause n).1.Tidy := by
  induction n with
  | zero => exact fun h => h
  | succ n ih => exact fun h => (h.exitInnermost hcause).andThen fun u hu => ih hu

theorem Tidy.activateAll (hcause : cause.IsNormal) : ∀ (states : List Nat) {s : Step}, s.Tidy →
    (activateAll cause states s).1.1.Tidy
  | [], s, h => h
  | i :: rest, s, h => by
      have hactive : (s.update (·.activate i)).Tidy :=
        ⟨h.machine.congr rfl rfl rfl rfl, h.raised⟩
      have hentered := hactive.runActions hcause (hactive.machine.chart i).entry
      rw [Step.activateAll]
      dsimp only
      split
      · next u e heq => rwa [heq] at hentered
      · next u heq =>
          rw [heq] at hentered
          exact Tidy.activateAll hcause rest hentered

theorem Tidy.enter (h : s.Tidy) (hcause : cause.IsNormal) (states : List Nat) :
    (s.enter cause states).1.Tidy := by
  have hactivated := Tidy.activateAll hcause states h
  exact ⟨Machine.Tidy.startInvocations _ hactivated.machine, hactivated.raised⟩

theorem Tidy.execute (h : s.Tidy) {t : Transition} (ht : ∀ a ∈ t.actions, a.Tidy) {event : Event}
    (hevent : event.IsNormal) : (s.execute t event).1.Tidy := by
  have hcause (source target : String) : Cause.IsNormal ⟨some event, source, target⟩ := by
    rintro e ⟨⟩
    exact hevent
  cases htarget : t.target with
  | none =>
      simp only [Step.execute, htarget]
      exact (h.runActions (hcause _ _) ht).andThen fun u hu => hu.notify _
  | some target =>
      rw [execute_of_some htarget]
      have hmoved : (move t event target s).1.Tidy :=
        ((Tidy.exitMany (hcause _ _) _ h).andThen fun u hu => hu.runActions (hcause _ _) ht).andThen
          fun u hu => hu.enter (hcause _ _) _
      exact hmoved.andThen fun u hu => hu.notify _

end Step

namespace Machine

variable {m : Machine} {event : Event}

theorem candidates_tidy (hm : m.chart.Tidy) :
    ∀ t ∈ m.candidates event, ∀ a ∈ t.actions, a.Tidy := by
  intro t ht
  simp only [candidates, List.mem_flatMap] at ht
  obtain ⟨i, _, ht⟩ := ht
  rw [State.transitionsFor] at ht
  cases hlist : Keyed.get? event.name (m.chart.state i).transitions with
  | none => simp [hlist] at ht
  | some list =>
      rw [hlist] at ht
      exact (hm i).actions _ (Keyed.mem_of_get? hlist) t ht

theorem Tidy.taken (h : m.Tidy) (hevent : event.IsNormal) {t : Transition}
    (ht : t ∈ m.candidates event) : ((⟨m, []⟩ : Step).execute t event).1.Tidy :=
  Step.Tidy.execute ⟨h, by simp⟩ (candidates_tidy h.chart t ht) hevent

/-- A microstep keeps the machine tidy and raises events in normal form. -/
theorem Tidy.microstep (h : m.Tidy) (hevent : event.IsNormal) :
    (m.microstep event).machine.Tidy ∧
      ∀ handled raised, (m.microstep event).result = .ok (handled, raised) →
        ∀ e ∈ raised, e.IsNormal := by
  have hcases := microstep_cases m event
  cases hrun : m.microstep event with
  | mk m' diagnostics result =>
    rw [hrun] at hcases
    cases hcases with
    | unselected => exact ⟨h, fun _ _ heq => nomatch heq⟩
    | ignored =>
        refine ⟨h, fun handled raised heq => ?_⟩
        cases heq
        simp
    | taken ht hexecute =>
        have htaken := h.taken hevent ht
        rw [hexecute] at htaken
        refine ⟨htaken.machine, fun handled raised heq => ?_⟩
        cases heq
        exact htaken.raised
    | failed ht hexecute =>
        have htaken := h.taken hevent ht
        rw [hexecute] at htaken
        exact ⟨htaken.machine, fun _ _ heq => nomatch heq⟩

theorem Tidy.drain (budget : Nat) : ∀ {m : Machine} {queue : List Event}, m.Tidy →
    (∀ e ∈ queue, e.IsNormal) → (m.drain budget queue).machine.Tidy := by
  induction budget with
  | zero =>
      intro m queue h _
      cases queue <;> exact h
  | succ budget ih =>
      intro m queue h hqueue
      cases queue with
      | nil => exact h
      | cons event queue =>
          rw [List.forall_mem_cons] at hqueue
          obtain ⟨hstep, hraised⟩ := h.microstep hqueue.1
          rw [Machine.drain]
          split
          · next heq => rwa [heq] at hstep
          · next m' diagnostics handled raised heq =>
              rw [heq] at hstep hraised
              refine ih hstep (List.forall_mem_append.mpr ⟨hqueue.2, hraised handled raised rfl⟩)

theorem Tidy.runToCompletion (h : m.Tidy) (hevent : event.IsNormal) :
    (m.runToCompletion event).machine.Tidy := by
  have hrun : (m.runEvents [event]).machine.Tidy :=
    Tidy.drain _ h (List.forall_mem_singleton.mpr hevent)
  unfold Machine.runToCompletion
  split
  · next heq => rwa [heq] at hrun
  · next heq =>
      rw [heq] at hrun
      exact hrun.congr rfl rfl rfl rfl

theorem Tidy.processAll : ∀ (completions : List Completion) {m : Machine}, m.Tidy →
    (∀ r ∈ completions, r.outcome.IsNormal) → (m.processAll completions).1.Tidy
  | [], m, h, _ => h
  | r :: rest, m, h, hall => by
      rw [List.forall_mem_cons] at hall
      have hfirst : (m.processCompletion r).machine.Tidy := by
        unfold processCompletion
        split
        · have haccepted : (m.accept r.token).Tidy := h.congr rfl rfl rfl rfl
          exact haccepted.runToCompletion (Completion.toEvent_isNormal hall.1)
        · exact h
      exact Tidy.processAll rest hfirst hall.2

theorem Tidy.processPending (h : m.Tidy) : (m.takePending.1.processAll m.pending).1.Tidy :=
  Tidy.processAll m.pending ⟨h.chart, h.answer, h.context, by simp [takePending]⟩ h.pending

theorem Tidy.exitAll (n : Nat) : ∀ {s : Step}, s.Tidy → (exitAll n s).1.Tidy := by
  induction n with
  | zero => exact fun h => h
  | succ n ih =>
      intro s h
      rw [Machine.exitAll]
      split
      · exact h
      · next i _ =>
          let cause : Step.Cause := ⟨none, (s.machine.chart.state i).id, "(stopped)"⟩
          have hexited : (s.runActions cause (s.machine.chart.state i).exit).1.Tidy :=
            h.runActions Step.Cause.isNormal_of_none (h.machine.chart i).exit
          have hleft : Step.Tidy ((s.runActions cause (s.machine.chart.state i).exit).1.update
              (·.leave i)) := ⟨hexited.machine.leave i, hexited.raised⟩
          dsimp only
          split <;> exact ih hleft

theorem Tidy.start (h : m.Tidy) : m.start.1.Tidy := by
  rw [start_eq]
  split
  · split
    · exact h
    · have hrunning : Step.Tidy ⟨{ m with status := .running }, []⟩ :=
        ⟨h.congr rfl rfl rfl rfl, by simp⟩
      have hboot : m.boot.1.Tidy := hrunning.enter Step.Cause.isNormal_of_none _
      split
      · next s e heq =>
          rw [heq] at hboot
          exact hboot.machine
      · next s heq =>
          rw [heq] at hboot
          have hannounced : (s.machine.announce m.chart.id).Tidy :=
            hboot.machine.congr rfl rfl rfl rfl
          exact Tidy.drain _ hannounced hboot.raised
  · exact h

theorem Tidy.dispatch (h : m.Tidy) (hevent : event.IsNormal) : (m.dispatch event).1.Tidy := by
  by_cases hstatus : m.status = .running
  · rw [dispatch_fst_of_running hstatus]
    exact h.processPending.runToCompletion hevent
  · rw [dispatch_of_ne hstatus]
    exact h

theorem Tidy.stop (h : m.Tidy) : m.stop.1.Tidy := by
  rcases stop_cases m with ⟨_, heq⟩ | ⟨_, heq⟩
  · rwa [heq]
  · have hexited : (Machine.exitAll m.configuration.length ⟨m, []⟩).1.Tidy :=
      Tidy.exitAll _ ⟨h, by simp⟩
    rw [heq]
    exact ⟨hexited.machine.chart, hexited.machine.answer, hexited.machine.context,
      fun _ hr => nomatch hr⟩

theorem Tidy.restore (h : m.Tidy) {s : Snapshot} (hs : s.context.IsNormal) :
    (m.restore s).1.Tidy := by
  rcases restore_cases m s with ⟨_, heq⟩ | ⟨configuration, context, _, _, hcontext, heq⟩
  · rwa [heq]
  · have htaken : Tidy { m with configuration, context, status := s.status } :=
      ⟨h.chart, h.answer, Context.ofJson_isNormal hs hcontext, h.pending⟩
    rw [heq]
    dsimp only
    split
    · exact (htaken.startInvocations configuration).congr rfl rfl rfl rfl
    · exact htaken

/-- What a machine is given by an input is in normal form. -/
def Input.IsNormal : Input → Prop
  | dispatch event => event.IsNormal
  | restore s => s.context.IsNormal
  | report r => r.outcome.IsNormal
  | requeue pending => ∀ r ∈ pending, r.outcome.IsNormal
  | attend answer => AnswersNormal answer
  | start | processPending | stop => True

theorem Tidy.feed (h : m.Tidy) {input : Input} (hinput : input.IsNormal) :
    (m.feed input).Tidy := by
  cases input with
  | start => exact h.start
  | dispatch event => exact h.dispatch hinput
  | processPending =>
      rw [Machine.feed, processPending_fst]
      split
      · exact h.processPending
      · exact ⟨h.chart, h.answer, h.context, by simp [takePending]⟩
  | stop => exact h.stop
  | restore s => exact h.restore hinput
  | report r => exact h.report hinput
  | requeue pending => exact ⟨h.chart, h.answer, h.context, hinput⟩
  | attend answer => exact ⟨h.chart, hinput, h.context, h.pending⟩

theorem create_tidy {d : Definition} {c : Chart} {initial : Json} {setup : Setup}
    (hd : d.Tidy) (hbuild : Chart.build d = .ok c) (hinitial : initial.IsNormal)
    (hanswer : AnswersNormal setup.answer) (hcreate : create c initial setup = .ok m) :
    m.Tidy := by
  unfold create at hcreate
  split at hcreate
  · next context hcontext =>
      cases hcreate
      exact ⟨Chart.build_tidy hd hbuild, hanswer,
        Context.merged_isNormal (Chart.build_defaultContext hd hbuild) hinitial hcontext, by simp⟩
  · cases hcreate

/-- A machine that is given values in normal form holds no others after any run. -/
theorem Tidy.after {m₀ : Machine} (h : m₀.Tidy) {inputs : List Input}
    (hinputs : ∀ input ∈ inputs, input.IsNormal) : (m₀.after inputs).Tidy := by
  induction inputs using List.reverseRecOn with
  | nil => exact h
  | append_singleton inputs input ih =>
      rw [List.forall_mem_append, List.forall_mem_singleton] at hinputs
      rw [after_concat]
      exact (ih hinputs.1).feed hinputs.2

end Machine

end Statechart
