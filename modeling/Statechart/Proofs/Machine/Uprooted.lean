import Statechart.Proofs.Chart.Domain
import Statechart.Proofs.Machine.Configuration

/-!
# Running without an active state

A transition that comes from the root or leads to it exits every active state before its own
actions run. When one of these fails, nothing has been entered yet, and the machine goes on running
with no active state: it handles no event any more, and its snapshot is refused. In every run this
is the only way in which a running machine comes to have no active state; at all other points,
wherever actions have failed, the root is the first of its active states.
-/
namespace Statechart

namespace Step
open Machine

variable {cause : Cause} {e : MachineError}

/-- A state whose exit actions fail stays active. -/
theorem exitInnermost_error {s : Step} (h : (s.exitInnermost cause).2 = .error e) :
    (s.exitInnermost cause).1.machine.configuration ≠ [] := by
  unfold exitInnermost at h ⊢
  cases hleaf : s.machine.leaf? with
  | none => simp [hleaf] at h
  | some i =>
      have hactive : s.machine.configuration ≠ [] := by
        rintro hnil
        simp [leaf?, hnil] at hleaf
      have hquiet := runActions_quiet cause (s.machine.chart.state i).exit s
      simp only [hleaf] at h ⊢
      cases hrun : s.runActions cause (s.machine.chart.state i).exit with
      | mk u result =>
        rw [hrun] at h hquiet
        cases result with
        | error _ => exact hquiet.configuration ▸ hactive
        | ok _ => cases h

theorem exitMany_error (n : Nat) : ∀ {s : Step}, (s.exitMany cause n).2 = .error e →
    (s.exitMany cause n).1.machine.configuration ≠ [] := by
  induction n with
  | zero => exact fun h => nomatch h
  | succ n ih =>
      intro s h
      unfold exitMany at h ⊢
      cases hfirst : s.exitInnermost cause with
      | mk u result =>
        rw [hfirst] at h
        cases result with
        | error e' =>
            have hstays := exitInnermost_error (congrArg Prod.snd hfirst)
            rwa [hfirst] at hstays
        | ok _ => exact ih h

/-- Entering adds the activated states to the active ones. -/
theorem activateAll_configuration : ∀ (states : List Nat) (s : Step),
    (activateAll cause states s).1.1.machine.configuration =
      s.machine.configuration ++ (activateAll cause states s).2
  | [], s => by simp [activateAll]
  | i :: rest, s => by
      let t : Step := s.update (·.activate i)
      have hquiet := runActions_quiet cause (t.machine.chart.state i).entry t
      simp only [activateAll]
      cases hrun : t.runActions cause (t.machine.chart.state i).entry with
      | mk u result =>
        rw [hrun] at hquiet
        have hconfiguration : u.machine.configuration = s.machine.configuration ++ [i] :=
          hquiet.configuration
        cases result with
        | error _ => exact hconfiguration
        | ok _ =>
            dsimp only
            rw [activateAll_configuration rest u, hconfiguration]
            simp

/-- The first of the states that are entered is activated even when its entry actions fail. -/
theorem enter_configuration_ne_nil {states : List Nat} {s : Step}
    (h : s.machine.configuration ++ states ≠ []) :
    (s.enter cause states).1.machine.configuration ≠ [] := by
  have hentered : (s.enter cause states).1.machine.configuration =
      s.machine.configuration ++ (activateAll cause states s).2 := by
    simp only [enter, update, startInvocations_configuration, activateAll_configuration]
  rw [hentered]
  cases states with
  | nil => exact List.append_ne_nil_of_left_ne_nil (by simpa using h) _
  | cons i rest =>
      have hfirst : (activateAll cause (i :: rest) s).2 ≠ [] := by
        simp only [activateAll]
        split <;> simp
      exact List.append_ne_nil_of_right_ne_nil _ hfirst

section move
variable {m : Machine} {t : Transition} {event : Event} {target : Nat}

/-- The exits of a transition to a target. -/
def exitFor (m : Machine) (event : Event) (t : Transition) (target : Nat) : Attempt :=
  (⟨m, []⟩ : Step).exitMany
    ⟨some event, (m.chart.state t.source).id, (m.chart.state target).id⟩
    (m.configuration.length - kept m.chart t.source target)

/-- The actions of a transition, after its exits. -/
def actFor (m : Machine) (event : Event) (t : Transition) (target : Nat) : Attempt :=
  (exitFor m event t target).1.runActions
    ⟨some event, (m.chart.state t.source).id, (m.chart.state target).id⟩ t.actions

theorem move_eq (m : Machine) (event : Event) (t : Transition) (target : Nat) :
    move t event target ⟨m, []⟩ =
      match exitFor m event t target, actFor m event t target with
      | (s, .error e), _ => (s, .error e)
      | _, (s, .error e) => (s, .error e)
      | _, (s, .ok ()) =>
        s.enter ⟨some event, (m.chart.state t.source).id, (m.chart.state target).id⟩
          ((m.chart.pathTo target).drop (kept m.chart t.source target) ++
            m.chart.initialChain target) := by
  unfold actFor
  have hmove : move t event target ⟨m, []⟩ = ((exitFor m event t target).andThen
      (runActions ⟨some event, (m.chart.state t.source).id, (m.chart.state target).id⟩
        t.actions)).andThen
      (enter ⟨some event, (m.chart.state t.source).id, (m.chart.state target).id⟩
          ((m.chart.pathTo target).drop (kept m.chart t.source target) ++
            m.chart.initialChain target)) := rfl
  rw [hmove]
  obtain ⟨s, e | ⟨⟩⟩ := exitFor m event t target
  · rfl
  · simp only [Attempt.andThen]
    obtain ⟨u, e | ⟨⟩⟩ := runActions _ t.actions s <;> rfl

/-- A transition leaves no state active exactly when it keeps none, exits all and fails before it
enters any. -/
theorem move_configuration_eq_nil_iff (hactive : m.configuration ≠ []) :
    (move t event target ⟨m, []⟩).1.machine.configuration = [] ↔
      kept m.chart t.source target = 0 ∧ (exitFor m event t target).2 = .ok () ∧
        ∃ e, (actFor m event t target).2 = .error e := by
  have hlength := List.length_pos_iff.mpr hactive
  rw [move_eq]
  have hacted := runActions_quiet
    ⟨some event, (m.chart.state t.source).id, (m.chart.state target).id⟩ t.actions
    (exitFor m event t target).1
  have hfails : ∀ e, (exitFor m event t target).2 = .error e →
      (exitFor m event t target).1.machine.configuration ≠ [] := fun _ => exitMany_error _
  have hexits : (exitFor m event t target).2 = .ok () →
      (exitFor m event t target).1.machine.configuration = m.configuration.take
        (m.configuration.length - (m.configuration.length - kept m.chart t.source target)) :=
    exitMany_ok _ _
  change (exitFor m event t target).1.machine.Quiet (actFor m event t target).1.machine at hacted
  generalize exitFor m event t target = exited at hacted hfails hexits ⊢
  obtain ⟨s, e | ⟨⟩⟩ := exited
  · -- the state whose exit actions fail is still active
    exact iff_of_false (hfails e rfl) (by simp)
  · have hkept := hacted.configuration.trans (hexits rfl)
    have hnone : (actFor m event t target).1.machine.configuration = [] ↔
        kept m.chart t.source target = 0 := by
      rw [hkept, List.take_eq_nil_iff]
      simp only [hactive, or_false]
      omega
    generalize actFor m event t target = acted at hnone ⊢
    obtain ⟨u, e | ⟨⟩⟩ := acted
    · simpa using hnone
    · refine iff_of_false (enter_configuration_ne_nil fun hnil => ?_) (by simp)
      -- what is kept and what is entered are not both empty
      obtain ⟨hkeeps, hrest⟩ := List.append_eq_nil_iff.mp hnil
      rw [hnone.mp hkeeps] at hrest
      simp [Chart.pathTo] at hrest

end move

end Step

namespace Machine

variable {m₀ m : Machine} {event : Event}

/-- A transition from or to the root exits every active state, and then one of its own actions
fails. -/
structure Uproots (m : Machine) (event : Event) (t : Transition) (target : Nat) : Prop where
  selected : (m.select event).1 = .ok (some t)
  leads : t.target = some target
  root : t.source = Chart.root ∨ target = Chart.root
  exits : (Step.exitFor m event t target).2 = .ok ()
  fails : ∃ e, (Step.actFor m event t target).2 = .error e

/-- Some transition that is taken for an event exits every state and fails. -/
def Uprooting (p : Machine × Event) : Prop := ∃ t target, Uproots p.1 p.2 t target

/-- A machine runs and has no active state. -/
def Rootless (m : Machine) : Prop := m.status = .running ∧ m.configuration = []

theorem select_of_nil (h : m.configuration = []) (event : Event) :
    m.select event = (.ok none, []) := by
  simp [select, candidates, h, choose]

/-- Without an active state no event is handled. -/
theorem microstep_of_nil (h : m.configuration = []) (event : Event) :
    m.microstep event = ⟨m, [], .ok (false, [])⟩ := by
  simp [microstep, select_of_nil h]

theorem execute_configuration_eq_nil_iff {t : Transition} (hc : m.chart.Sound) (hm : m.Rooted)
    (hactive : m.configuration ≠ []) (hselect : (m.select event).1 = .ok (some t)) :
    ((⟨m, []⟩ : Step).execute t event).1.machine.configuration = [] ↔ Uprooting (m, event) := by
  obtain ⟨hsource, htarget⟩ := mem_candidates hc (choose_some hselect)
  have hlt : t.source < m.chart.size := by
    obtain ⟨leaf, hleaf, hpath⟩ := hm.resolve_left hactive
    exact hc.lt_of_mem_pathTo hleaf (hpath ▸ hsource)
  cases ht : t.target with
  | none =>
      have hstays : ((⟨m, []⟩ : Step).execute t event).1.machine.configuration =
          m.configuration := by
        have hquiet := Step.runActions_quiet
          ⟨some event, (m.chart.state t.source).id, (m.chart.state t.source).id⟩ t.actions ⟨m, []⟩
        simp only [Step.execute, ht]
        generalize Step.runActions _ t.actions ⟨m, []⟩ = acted at hquiet ⊢
        obtain ⟨u, _ | _⟩ := acted <;> exact hquiet.configuration
      refine iff_of_false (hstays ▸ hactive) ?_
      rintro ⟨u, target, huproots⟩
      cases hselect.symm.trans huproots.selected
      cases ht.symm.trans huproots.leads
  | some target =>
      have hdone : ((⟨m, []⟩ : Step).execute t event).1.machine.configuration =
          (Step.move t event target ⟨m, []⟩).1.machine.configuration := by
        rw [Step.execute_of_some ht]
        obtain ⟨u, _ | _⟩ := Step.move t event target ⟨m, []⟩ <;> rfl
      have hkept : Step.kept m.chart t.source target = 0 ↔
          t.source = Chart.root ∨ target = Chart.root := by
        rw [← hc.transitionDomain_eq_none_iff hlt (htarget target ht), Step.kept]
        cases m.chart.transitionDomain t.source target <;> simp
      rw [hdone, Step.move_configuration_eq_nil_iff hactive, hkept]
      constructor
      · rintro ⟨hroot, hexits, hfails⟩
        exact ⟨t, target, hselect, ht, hroot, hexits, hfails⟩
      · rintro ⟨u, target', huproots⟩
        cases hselect.symm.trans huproots.selected
        cases ht.symm.trans huproots.leads
        exact ⟨huproots.root, huproots.exits, huproots.fails⟩

/-- A microstep takes the last active state away exactly when it uproots the machine. -/
theorem microstep_configuration_eq_nil_iff (hc : m.chart.Sound) (hm : m.Rooted) (event : Event) :
    (m.microstep event).machine.configuration = [] ↔
      m.configuration = [] ∨ Uprooting (m, event) := by
  by_cases hactive : m.configuration = []
  · simp [microstep_of_nil hactive, hactive]
  · have hnone (h : ∀ t, (m.select event).1 ≠ .ok (some t)) : ¬ Uprooting (m, event) :=
      fun ⟨t, _, huproots⟩ => h t huproots.selected
    rw [or_iff_right hactive]
    unfold microstep
    cases hselect : m.select event with
    | mk choice diagnostics =>
      rcases choice with e | _ | t
      · exact iff_of_false hactive (hnone (by simp [hselect]))
      · exact iff_of_false hactive (hnone (by simp [hselect]))
      · rw [← execute_configuration_eq_nil_iff hc hm hactive (congrArg Prod.fst hselect)]
        dsimp only
        obtain ⟨u, _ | _⟩ := Step.execute t event ⟨m, []⟩ <;> rfl

theorem drain_configuration_eq_nil_iff (budget : Nat) : ∀ (m : Machine) (queue : List Event),
    m.chart.Sound → m.Rooted → ((m.drain budget queue).machine.configuration = [] ↔
      m.configuration = [] ∨ ∃ p ∈ m.drainSteps budget queue, Uprooting p) := by
  induction budget with
  | zero =>
      intro m queue _ _
      cases queue <;> simp [drain, drainSteps]
  | succ budget ih =>
      intro m queue hc hm
      cases queue with
      | nil => simp [drain, drainSteps]
      | cons event queue =>
          have hstep := microstep_configuration_eq_nil_iff hc hm event
          have hleads := microstep_leads hc hm event
          simp only [drain, drainSteps, List.exists_mem_cons_iff, ← or_assoc, ← hstep]
          cases hrun : m.microstep event with
          | mk m' diagnostics result =>
            rw [hrun] at hleads
            obtain ⟨hc', hm'⟩ := hleads.still hc hm
            rcases result with e | ⟨handled, raised⟩
            · simp
            · exact ih m' (queue ++ raised) hc' hm'

theorem runToCompletion_configuration_eq_nil_iff (hc : m.chart.Sound) (hm : m.Rooted)
    (event : Event) : (m.runToCompletion event).machine.configuration = [] ↔
      m.configuration = [] ∨ ∃ p ∈ m.runSteps [event], Uprooting p := by
  have hdrain := drain_configuration_eq_nil_iff m.settings.maxMicrosteps m [event] hc hm
  rw [runSteps, ← hdrain, runToCompletion, runEvents]
  obtain ⟨m', diagnostics, _ | _⟩ := m.drain m.settings.maxMicrosteps [event] <;> rfl

theorem processAll_configuration_eq_nil_iff (completions : List Completion) : ∀ m : Machine,
    m.chart.Sound → m.Rooted → ((m.processAll completions).1.configuration = [] ↔
      m.configuration = [] ∨ ∃ p ∈ m.completionSteps completions, Uprooting p) := by
  induction completions with
  | nil => simp [processAll, completionSteps]
  | cons c rest ih =>
      intro m hc hm
      obtain ⟨hc', hm'⟩ := (processCompletion_leads hc hm c).still hc hm
      have hrest := ih (m.processCompletion c).machine hc' hm'
      have hfirst : (m.processCompletion c).machine.configuration = [] ↔ m.configuration = [] ∨
          ∃ p ∈ (if Keyed.get? c.token.invokeId m.invocations = some c.token then
            (m.accept c.token).runSteps [c.toEvent] else []), Uprooting p := by
        by_cases hcurrent : Keyed.get? c.token.invokeId m.invocations = some c.token
        · have hrun : (m.processCompletion c).machine =
              ((m.accept c.token).runToCompletion c.toEvent).machine := by
            simp [processCompletion, hcurrent, accept]
          rw [hrun, if_pos hcurrent]
          exact runToCompletion_configuration_eq_nil_iff (m := m.accept c.token) hc hm c.toEvent
        · simp [processCompletion, hcurrent]
      simp only [processAll, completionSteps, List.mem_append, or_and_right, exists_or]
      rw [hrest, hfirst, or_assoc]

/-- However the entry of the initial configuration ends, the root has been activated. -/
theorem boot_configuration_ne_nil (m : Machine) : m.boot.1.machine.configuration ≠ [] :=
  Step.enter_configuration_ne_nil (List.append_ne_nil_of_right_ne_nil _ (by simp))

theorem start_rootless_iff (hc : m.chart.Sound) (hempty : m.configuration = [])
    (hstatus : m.status = .uninitialized) :
    m.start.1.Rootless ↔ ∃ p ∈ m.microsteps .start, Uprooting p := by
  have hleads := boot_leads hc hempty
  have hentered := boot_configuration_ne_nil m
  rw [start_eq, if_pos hstatus, microsteps]
  cases hmissing : m.missingPredicate? with
  | some name => simp [Rootless, hstatus]
  | none =>
    rw [if_pos ⟨hstatus, rfl⟩]
    generalize m.boot = booted at hleads hentered
    obtain ⟨s, e | ⟨⟩⟩ := booted
    · simpa [Rootless] using fun _ => hentered
    · have hrun := hleads.trans (announce_quiet s.machine m.chart.id).leads
      obtain ⟨hc', hrooted⟩ := hrun.still hc (.inl hempty)
      have hdrain := drain_configuration_eq_nil_iff
        (s.machine.announce m.chart.id).settings.maxMicrosteps _ s.raised hc' hrooted
      have hstatus' := (hrun.trans (runEvents_leads hc' hrooted s.raised)).status
      have hannounced : (s.machine.announce m.chart.id).configuration ≠ [] := hentered
      rw [or_iff_right hannounced] at hdrain
      exact (and_iff_right hstatus').trans hdrain

theorem processAll_rootless_iff (h : m.Regular) (hstatus : m.status = .running) :
    (m.takePending.1.processAll m.pending).1.chart.Sound ∧
    (m.takePending.1.processAll m.pending).1.Rooted ∧
    (m.takePending.1.processAll m.pending).1.status = .running ∧
    ((m.takePending.1.processAll m.pending).1.configuration = [] ↔
      m.configuration = [] ∨
        ∃ p ∈ m.takePending.1.completionSteps m.pending, Uprooting p) := by
  have htaken := (takePending_quiet m).leads (a := [])
  obtain ⟨hc, hm⟩ := htaken.still h.sound h.rooted
  have hall := htaken.trans (processAll_leads m.pending _ hc hm)
  obtain ⟨hc', hm'⟩ := hall.still h.sound h.rooted
  exact ⟨hc', hm', hall.status.trans hstatus,
    processAll_configuration_eq_nil_iff m.pending _ hc hm⟩

/-- A snapshot that is taken over has an active state or is not one of a running machine. -/
theorem restore_not_rootless (hstatus : m.status ≠ .running) (s : Snapshot) :
    ¬ (m.restore s).1.Rootless := by
  rcases restore_cases m s with ⟨_, heq⟩ | ⟨configuration, context, _, hconf, _, heq⟩
  · rw [heq]
    exact fun hrootless => hstatus hrootless.1
  · rw [heq]
    rcases snapshotConfiguration_ok hconf with ⟨hrunning, i, _, rfl⟩ | ⟨hnot, _⟩
    · simp only [if_pos hrunning]
      intro hrootless
      have hnil := (Step.startInvocations_configuration _ _).symm.trans hrootless.2
      simp [Chart.pathTo] at hnil
    · simp only [if_neg hnot]
      exact fun hrootless => hnot hrootless.1

/-- A running machine loses its last active state in the microsteps of an operation, or not at
all. -/
theorem feed_rootless_iff (h : m.Regular) {input : Input}
    (hgoes : (m.feed input).status ≠ .stopped) :
    m.status ≠ .stopped ∧
      ((m.feed input).Rootless ↔ m.Rootless ∨ ∃ p ∈ m.microsteps input, Uprooting p) := by
  have hsame {input : Input} (heq : m.feed input = m) (hnone : m.microsteps input = [])
      (hgoes : (m.feed input).status ≠ .stopped) : m.status ≠ .stopped ∧
      ((m.feed input).Rootless ↔ m.Rootless ∨ ∃ p ∈ m.microsteps input, Uprooting p) := by
    rw [heq] at hgoes
    exact ⟨hgoes, by simp [heq, hnone]⟩
  cases input with
  | start =>
      by_cases hstatus : m.status = .uninitialized
      · refine ⟨by simp [hstatus], ?_⟩
        rw [or_iff_right (by simp [Rootless, hstatus])]
        exact start_rootless_iff h.sound (h.configuration (by simp [hstatus])) hstatus
      · exact hsame (start_fst_of_ne hstatus) (by simp [microsteps, hstatus]) hgoes
  | dispatch event =>
      by_cases hstatus : m.status = .running
      · obtain ⟨hc, hm, hrunning, hall⟩ := processAll_rootless_iff h hstatus
        have hlast := runToCompletion_configuration_eq_nil_iff hc hm event
        have hstill : ((m.takePending.1.processAll m.pending).1.runToCompletion
            event).machine.status = .running :=
          (runToCompletion_leads hc hm event).status.trans hrunning
        refine ⟨by simp [hstatus], ?_⟩
        rw [feed, dispatch_fst_of_running hstatus, Rootless, Rootless, hlast, hall, microsteps,
          if_pos hstatus]
        simp only [hstill, hstatus, true_and, List.mem_append, or_and_right, exists_or, or_assoc]
      · exact hsame (by simp [feed, dispatch_of_ne hstatus]) (by simp [microsteps, hstatus]) hgoes
  | processPending =>
      by_cases hstatus : m.status = .running
      · obtain ⟨_, _, hrunning, hall⟩ := processAll_rootless_iff h hstatus
        refine ⟨by simp [hstatus], ?_⟩
        rw [feed, processPending_fst, if_pos hstatus, Rootless, Rootless, hall, microsteps,
          if_pos hstatus]
        simp only [hrunning, hstatus, true_and]
      · have hfst : m.feed .processPending = m.takePending.1 := by
          rw [feed, processPending_of_ne hstatus]
        rw [hfst] at hgoes ⊢
        exact ⟨hgoes, by simp [microsteps, Rootless, takePending, hstatus]⟩
  | stop =>
      rcases stop_cases m with ⟨_, heq⟩ | ⟨_, heq⟩
      · exact hsame heq rfl hgoes
      · exact absurd (by rw [feed, heq]; rfl) hgoes
  | restore s =>
      rcases restore_cases m s with ⟨_, heq⟩ | ⟨_, _, hstatus, _⟩
      · exact hsame (by rw [feed, heq]) rfl hgoes
      · exact ⟨by simp [hstatus], iff_of_false (restore_not_rootless (by simp [hstatus]) s)
          (by simp [Rootless, hstatus, microsteps])⟩
  | report _ | requeue _ | attend _ => exact ⟨hgoes, by simp [feed, report, Rootless, microsteps]⟩

/-- Somewhere in a run a microstep uproots the machine. -/
def UprootedIn (m₀ : Machine) (inputs : List Input) : Prop :=
  ∃ pre input post, inputs = pre ++ input :: post ∧
    ∃ p ∈ (m₀.after pre).microsteps input, Uprooting p

theorem uprootedIn_concat {inputs : List Input} {input : Input} :
    UprootedIn m₀ (inputs ++ [input]) ↔ UprootedIn m₀ inputs ∨
      ∃ p ∈ (m₀.after inputs).microsteps input, Uprooting p := by
  constructor
  · rintro ⟨pre, x, post, heq, hp⟩
    rcases List.eq_nil_or_concat post with rfl | ⟨post, y, rfl⟩
    · obtain ⟨rfl, hx⟩ := List.append_inj' heq rfl
      cases hx
      exact .inr hp
    · rw [List.concat_eq_append, ← List.cons_append, ← List.append_assoc] at heq
      exact .inl ⟨pre, x, post, (List.append_inj' heq rfl).1, hp⟩
  · rintro (⟨pre, x, post, rfl, hp⟩ | hp)
    · exact ⟨pre, x, post ++ [input], by simp, hp⟩
    · exact ⟨inputs, input, [], rfl, hp⟩

theorem after_rootless_iff (hm : m₀.Begins) (inputs : List Input)
    (hgoes : (m₀.after inputs).status ≠ .stopped) :
    (m₀.after inputs).Rootless ↔ UprootedIn m₀ inputs := by
  induction inputs using List.reverseRecOn with
  | nil => simp [Rootless, UprootedIn, hm.status]
  | append_singleton inputs input ih =>
      rw [after_concat] at hgoes ⊢
      obtain ⟨hbefore, hstep⟩ := feed_rootless_iff (after_reaches hm inputs).2 hgoes
      rw [hstep, ih hbefore, uprootedIn_concat]

/-- The snapshot of a running machine is refused for want of an active state exactly when the
machine has none. -/
theorem restore_snapshot_noActiveState_iff {fresh : Machine} (hchart : fresh.chart = m.chart)
    (hfresh : fresh.status = .uninitialized) (hrunning : m.status = .running) :
    (fresh.restore m.snapshot).2 = .error (.invalidDefinition .noActiveState) ↔
      m.configuration = [] := by
  have hactive : m.snapshot.active = none ↔ m.configuration = [] := by
    simp [snapshot, activeLeaf?, leaf?]
  rw [← hactive]
  unfold restore snapshotConfiguration
  simp only [require, hfresh, hchart, snapshot, hrunning, bind, Except.bind, if_true, ne_eq,
    not_true_eq_false, if_false, pure, Except.pure]
  cases m.activeLeaf? with
  | none => simp
  | some id =>
      simp only [reduceCtorEq, iff_false]
      cases m.chart.lookup id with
      | none => simp
      | some i => simp [Context.ofJson, Context.toJson, Except.mapError]

/-- What holds of a running machine, given whether it has been uprooted. -/
structure Anchored (c : Chart) (m : Machine) (uprooted : Prop) : Prop where
  /-- Nothing is active exactly when the machine has been uprooted. -/
  nil : m.configuration = [] ↔ uprooted
  /-- Otherwise the root is the first of the active states. -/
  root : ¬ uprooted → m.configuration.head? = some Chart.root
  leaf : m.activeLeaf?.isSome ↔ ¬ uprooted
  /-- Once uprooted, the machine handles nothing. -/
  deaf : uprooted → ∀ event, m.microstep event = ⟨m, [], .ok (false, [])⟩
  /-- Its snapshot is refused for want of an active state exactly when it has been uprooted. -/
  refused : ∀ fresh : Machine, fresh.chart = c → fresh.status = .uninitialized →
    ((fresh.restore m.snapshot).2 = .error (.invalidDefinition .noActiveState) ↔ uprooted)

/-- Whatever a run consists of and wherever actions fail in it, a running machine has the root as
the first of its active states, unless a transition from or to the root has exited all of them and
failed in its own actions. From then on nothing is active, no event is handled and no snapshot can
be restored. -/
theorem after_anchored {d : Definition} {c : Chart} {initial : Json} {setup : Setup}
    (hbuild : Chart.build d = .ok c) (hcreate : create c initial setup = .ok m₀)
    (inputs : List Input) (hrunning : (m₀.after inputs).status = .running) :
    Anchored c (m₀.after inputs) (UprootedIn m₀ inputs) := by
  have hm := create_begins (Chart.build_sound hbuild) hcreate
  obtain ⟨hreach, hregular⟩ := after_reaches hm inputs
  have hchart : (m₀.after inputs).chart = c := hreach.chart.trans (create_chart hcreate)
  have hnil : (m₀.after inputs).configuration = [] ↔ UprootedIn m₀ inputs := by
    rw [← after_rootless_iff hm inputs (by simp [hrunning]), Rootless, and_iff_right hrunning]
  refine ⟨hnil, fun hnot => ?_, ?_, fun hlost => ?_, fun fresh hsame hfresh => ?_⟩
  · obtain ⟨i, hi, hpath⟩ := hregular.rooted.resolve_left (hnil.not.mpr hnot)
    rw [hpath]
    exact hregular.sound.head?_pathTo hi
  · rw [← hnil]
    simp [activeLeaf?, leaf?]
  · exact microstep_of_nil (hnil.mpr hlost)
  · rw [← hnil]
    exact restore_snapshot_noActiveState_iff (hsame.trans hchart.symm) hfresh hrunning

/-- A chart whose root goes back to its only state and takes over a value that is not there. -/
def lapseDefinition : Definition where
  id := "m"
  root :=
    { initial := some "a"
      on := [("go", [{
        target := some "a"
        actions := [.assign "x" (.context "missing")] }])]
      states := [("a", {})] }

def lapseChart : Chart where
  definition := lapseDefinition
  states := #[
    ⟨"m", none, 0, [1], some 1, [], [],
      [("go", [⟨0, "go", some 1, none, [.assign "x" (.context "missing")]⟩])], none⟩,
    ⟨"a", some 0, 1, [], none, [], [], [], none⟩]
  defaultContext := .obj []
  checksum := lapseDefinition.checksum

def lapseMachine : Machine := { chart := lapseChart, setup := {}, context := .empty }

theorem build_lapse : Chart.build lapseDefinition = .ok lapseChart := rfl

theorem create_lapse : create lapseChart .null {} = .ok lapseMachine := rfl

/-- Started, the machine stands at its root; once the assignment has failed it runs on with
nothing active. -/
theorem after_anchored_lapse :
    ¬ UprootedIn lapseMachine [.start] ∧ UprootedIn lapseMachine [.start, .dispatch ⟨"go", .null⟩] ∧
    Anchored lapseChart (lapseMachine.after [.start]) (UprootedIn lapseMachine [.start]) ∧
    Anchored lapseChart (lapseMachine.after [.start, .dispatch ⟨"go", .null⟩])
      (UprootedIn lapseMachine [.start, .dispatch ⟨"go", .null⟩]) := by
  have hstarted := after_anchored build_lapse create_lapse [.start] rfl
  have hlost := after_anchored build_lapse create_lapse [.start, .dispatch ⟨"go", .null⟩] rfl
  exact ⟨hstarted.leaf.mp rfl, hlost.nil.mp rfl, hstarted, hlost⟩

/-- A machine that runs can come to have no active state, and then its snapshot is refused. -/
theorem running_without_active_state :
    Chart.build lapseDefinition = .ok lapseChart ∧
    create lapseChart .null {} = .ok lapseMachine ∧
    let m := lapseMachine.after [.start, .dispatch ⟨"go", .null⟩]
    m.status = .running ∧ m.configuration = [] ∧ m.activeLeaf? = none ∧
      (lapseMachine.restore m.snapshot).2 = .error (.invalidDefinition .noActiveState) := by
  have hchart : lapseMachine.chart =
      (lapseMachine.after [.start, .dispatch ⟨"go", .null⟩]).chart := rfl
  have hrefused := restore_snapshot_noActiveState_iff hchart rfl rfl
  exact ⟨rfl, rfl, rfl, rfl, rfl, hrefused.mpr rfl⟩

end Machine

end Statechart
