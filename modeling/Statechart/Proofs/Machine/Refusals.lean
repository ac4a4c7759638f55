import Statechart.Proofs.Machine.Mirror
import Statechart.Proofs.Machine.Uprooted

/-!
# Failures of operations

An operation fails in one of two ways. It is refused before it has changed anything, or a part of
what it does fails; such a failure is contained. Which failures a part can have is shown function
by function, from the actions and the guards up to the operations. What the status is afterwards
follows from the parts that observers can follow, since these leave it.
-/
namespace Statechart

namespace MachineError

/-- The failures of an operation that is not carried out. -/
def isRefusal : MachineError → Bool
  | lifecycle .. | invalidDefinition _ | checksumMismatch .. => true
  | _ => false

/-- Whether a failure is that of a guard or of an action. -/
def isOfStep : MachineError → Bool
  | guardEvaluation .. | actionExecution .. => true
  | _ => false

variable {e : MachineError}

theorem isOfStep_of_isAction (h : e.isAction = true) : e.isOfStep = true := by
  cases e <;> simp_all [isAction, isOfStep]

theorem isContained_of_isOfStep (h : e.isOfStep = true) : e.isContained = true := by
  cases e <;> simp_all [isOfStep, isContained]

theorem isContained_of_isRefusal (h : e.isRefusal = true) : e.isContained = false := by
  cases e <;> simp_all [isRefusal, isContained]

end MachineError

/-- A result that is no failure, or a contained one. -/
def Contained {α : Type} (result : Except MachineError α) : Prop :=
  ∀ e, result = .error e → e.isContained = true

section results
variable {α β : Type} {e : MachineError} {result : Except MachineError α}

@[simp] theorem contained_ok (a : α) : Contained (.ok a) := nofun

@[simp] theorem contained_error :
    Contained (.error e : Except MachineError α) ↔ e.isContained = true :=
  ⟨fun h => h e rfl, fun h _ heq => by cases heq; exact h⟩

/-- What is contained stays so in a result of another kind. -/
theorem Contained.error (h : Contained (.error e : Except MachineError α)) :
    Contained (.error e : Except MachineError β) := contained_error.mpr (h e rfl)

theorem Contained.map (h : Contained result) (f : α → β) : Contained (result.map f) := by
  cases result with
  | ok a => exact contained_ok (f a)
  | error e => exact h.error

/-- A result that is no failure, or the failure of a guard or an action. -/
def OfStep {α : Type} (result : Except MachineError α) : Prop :=
  ∀ e, result = .error e → e.isOfStep = true

@[simp] theorem ofStep_ok (a : α) : OfStep (.ok a) := nofun

@[simp] theorem ofStep_error :
    OfStep (.error e : Except MachineError α) ↔ e.isOfStep = true :=
  ⟨fun h => h e rfl, fun h _ heq => by cases heq; exact h⟩

theorem OfStep.error (h : OfStep (.error e : Except MachineError α)) :
    OfStep (.error e : Except MachineError β) := ofStep_error.mpr (h e rfl)

theorem OfStep.contained (h : OfStep result) : Contained result :=
  fun e he => MachineError.isContained_of_isOfStep (h e he)

end results

namespace Step

variable (cause : Cause)

theorem andThen_ofStep {a : Attempt} {next : Step → Attempt} (h : OfStep a.2)
    (hnext : ∀ s, OfStep (next s).2) : OfStep (a.andThen next).2 := by
  obtain ⟨s, e | ⟨⟩⟩ := a
  · exact h
  · exact hnext s

theorem runActions_ofStep (actions : List Action) (s : Step) :
    OfStep (s.runActions cause actions).2 :=
  fun _ h => MachineError.isOfStep_of_isAction (runActions_error cause h)

theorem exitInnermost_ofStep (s : Step) : OfStep (s.exitInnermost cause).2 := by
  unfold exitInnermost
  split
  · exact ofStep_ok ()
  · exact andThen_ofStep (runActions_ofStep cause _ s) fun _ => ofStep_ok ()

theorem exitMany_ofStep (n : Nat) : ∀ s : Step, OfStep (s.exitMany cause n).2 := by
  induction n with
  | zero => exact fun _ => ofStep_ok ()
  | succ n ih => exact fun s => andThen_ofStep (exitInnermost_ofStep cause s) ih

theorem activateAll_ofStep : ∀ (states : List Nat) (s : Step),
    OfStep (activateAll cause states s).1.2
  | [], _ => ofStep_ok ()
  | i :: rest, s => by
      let t : Step := s.update (·.activate i)
      have hrun := runActions_ofStep cause (t.machine.chart.state i).entry t
      simp only [activateAll]
      cases hattempt : t.runActions cause (t.machine.chart.state i).entry with
      | mk u result =>
        rw [hattempt] at hrun
        cases result with
        | error e => exact hrun
        | ok _ => exact activateAll_ofStep rest u

theorem enter_ofStep (states : List Nat) (s : Step) : OfStep (s.enter cause states).2 :=
  activateAll_ofStep cause states s

theorem execute_ofStep (t : Transition) (event : Event) (s : Step) :
    OfStep (s.execute t event).2 := by
  cases ht : t.target with
  | none =>
      simp only [execute, ht]
      exact andThen_ofStep (runActions_ofStep _ _ s) fun _ => ofStep_ok ()
  | some target =>
      rw [execute_of_some ht]
      refine andThen_ofStep ?_ fun _ => ofStep_ok ()
      exact andThen_ofStep
        (andThen_ofStep (exitMany_ofStep _ _ s) (runActions_ofStep _ _))
        (enter_ofStep _ _)

end Step

namespace Machine

/-- A selection fails because of a guard. -/
theorem choose_ofStep (m : Machine) (event : Event) : ∀ list : List Transition,
    OfStep (m.choose event list).1
  | [] => ofStep_ok none
  | t :: rest => by
      have hrest := choose_ofStep m event rest
      simp only [choose]
      split
      · exact ofStep_ok _
      · exact hrest
      · split
        · exact ofStep_error.mpr rfl
        · exact hrest

theorem microstep_ofStep (m : Machine) (event : Event) :
    OfStep (m.microstep event).result := by
  have hselect := choose_ofStep m event (m.candidates event)
  rw [← select] at hselect
  unfold microstep
  split
  · next h =>
      rw [h] at hselect
      exact hselect.error
  · exact ofStep_ok _
  · next t diagnostics h =>
      have hexecute := Step.execute_ofStep t event ⟨m, []⟩
      split
      · exact ofStep_ok _
      · next hfails =>
          rw [hfails] at hexecute
          exact hexecute.error

theorem drain_contained (budget : Nat) : ∀ (m : Machine) (queue : List Event),
    Contained (m.drain budget queue).result := by
  induction budget with
  | zero =>
      intro m queue
      cases queue with
      | nil => exact contained_ok []
      | cons => exact contained_error.mpr rfl
  | succ budget ih =>
      intro m queue
      cases queue with
      | nil => exact contained_ok []
      | cons event queue =>
          have hstep := (microstep_ofStep m event).contained
          simp only [drain]
          split
          · next h =>
              rw [h] at hstep
              exact hstep.error
          · exact (ih _ _).map _

theorem runEvents_contained (m : Machine) (queue : List Event) :
    Contained (m.runEvents queue).result := drain_contained _ m queue

theorem runToCompletion_contained (m : Machine) (event : Event) :
    Contained (m.runToCompletion event).result := by
  have hrun := runEvents_contained m [event]
  unfold runToCompletion
  split
  · next h =>
      rw [h] at hrun
      exact hrun.error
  · exact contained_ok _

theorem processCompletion_contained (m : Machine) (c : Completion) :
    Contained (m.processCompletion c).result := by
  unfold processCompletion
  split
  · exact (runToCompletion_contained _ c.toEvent).map _
  · exact contained_ok 0

theorem processAll_contained (completions : List Completion) : ∀ m : Machine,
    ∀ p ∈ (m.processAll completions).2, Contained p.2.2 := by
  induction completions with
  | nil => simp [processAll]
  | cons c rest ih =>
      intro m p hp
      rcases List.mem_cons.mp hp with rfl | hp
      · exact processCompletion_contained m c
      · exact ih _ p hp

theorem firstError?_contained {results : List (Except MachineError Nat)} {e : MachineError}
    (h : ∀ r ∈ results, Contained r) (he : firstError? results = some e) :
    e.isContained = true := by
  obtain ⟨r, hr, hfound⟩ := List.exists_of_findSome?_eq_some he
  cases r with
  | ok n => cases hfound
  | error e' =>
      cases hfound
      exact h _ hr e rfl

/-- How an operation ends: refused, with the machine as it was, or carried out with a machine in
the given status, and then every failure is contained. -/
inductive Ends {α : Type} (m : Machine) (status : Status) :
    Machine × Except MachineError α → Prop where
  | refused {e} (h : e.isRefusal = true) : Ends m status (m, .error e)
  | carriedOut {m' result} (hstatus : m'.status = status) (h : Contained result) :
    Ends m status (m', result)

theorem Ends.fails {α : Type} {m : Machine} {status : Status} {a : Machine × Except MachineError α}
    {e : MachineError} (h : m.Ends status a) (he : a.2 = .error e) :
    (e.isRefusal = true ∧ a.1 = m) ∨ (e.isContained = true ∧ a.1.status = status) := by
  cases h with
  | refused h =>
      cases he
      exact .inl ⟨h, rfl⟩
  | carriedOut hstatus h => exact .inr ⟨h e he, hstatus⟩

theorem start_ends (m : Machine) : m.Ends .running m.start := by
  have htells : { m with status := .running }.Tells [] m.boot.1.machine :=
    Step.enter_tells _ _ ⟨{ m with status := .running }, []⟩
  have hboot : Contained m.boot.2 := (Step.enter_ofStep _ _ _).contained
  rw [start_eq]
  split
  · split
    · exact .refused rfl
    · split
      · next h =>
          rw [h] at htells hboot
          exact .carriedOut htells.status hboot
      · next s h =>
          rw [h] at htells
          have hevents : s.machine.Tells []
              ((s.machine.announce m.chart.id).runEvents s.raised).machine :=
            (announce_tells s.machine m.chart.id).trans (drain_tells _ _ _)
          exact .carriedOut (hevents.status.trans htells.status)
            ((runEvents_contained _ _).map _)
  · exact .refused rfl

theorem dispatch_ends (m : Machine) (event : Event) : m.Ends .running (m.dispatch event) := by
  by_cases hstatus : m.status = .running
  · have hrunning : (m.dispatch event).1.status = .running :=
      (dispatch_tells hstatus event).status.trans hstatus
    rw [dispatch_of_running hstatus] at hrunning ⊢
    exact .carriedOut hrunning ((runToCompletion_contained _ event).map _)
  · rw [dispatch_of_ne hstatus]
    exact .refused rfl

/-- Reports are never refused: a machine that does not run drops them. -/
theorem processPending_contained (m : Machine) : Contained m.processPending.2 := by
  unfold processPending
  dsimp only
  split
  · split
    · next e he =>
        refine contained_error.mpr (firstError?_contained ?_ he)
        simpa using fun r c d hmem => processAll_contained _ _ (c, d, r) hmem
    · exact contained_ok _
  · exact contained_ok 0

theorem exitAll_contained (n : Nat) : ∀ (s : Step) (e : MachineError),
    (exitAll n s).2 = some e → e.isContained = true := by
  induction n with
  | zero =>
      intro s e h
      simp [exitAll] at h
  | succ n ih =>
      intro s e h
      unfold exitAll at h
      split at h
      · cases h
      · next i _ =>
          have hrun := (Step.runActions_ofStep
            ⟨none, (s.machine.chart.state i).id, "(stopped)"⟩
            (s.machine.chart.state i).exit s).contained
          dsimp only at h
          split at h
          · next hfails =>
              cases h
              exact hrun e hfails
          · exact ih _ e h

theorem stop_ends (m : Machine) : m.Ends .stopped m.stop := by
  have hexits := exitAll_contained m.configuration.length ⟨m, []⟩
  unfold stop
  by_cases hstatus : m.status = .running
  · simp only [require, if_pos hstatus]
    split
    · next e he => exact .carriedOut rfl (contained_error.mpr (hexits e he))
    · exact .carriedOut rfl (contained_ok ())
  · simp only [require, if_neg hstatus]
    exact .refused rfl

theorem snapshotConfiguration_refusal {c : Chart} {s : Snapshot} {e : MachineError}
    (h : snapshotConfiguration c s = .error e) : e.isRefusal = true := by
  unfold snapshotConfiguration at h
  split at h
  · split at h
    · cases h
    · cases h
      rfl
  · cases h
    rfl
  · cases h

/-- A restore that fails does so in one of its checks, before it has changed anything. -/
theorem restore_error {m : Machine} {s : Snapshot} {e : MachineError}
    (h : (m.restore s).2 = .error e) : e.isRefusal = true ∧ m.restore s = (m, .error e) := by
  unfold restore at h ⊢
  dsimp only at h ⊢
  split at h
  · next hchecks =>
      cases h
      refine ⟨?_, rfl⟩
      simp only [require, bind, Except.bind, throw, throwThe, MonadExceptOf.throw, pure,
        Except.pure] at hchecks
      by_cases hstatus : m.status = .uninitialized
      swap
      · simp only [if_neg hstatus] at hchecks
        cases hchecks
        rfl
      by_cases hchart : s.chart ≠ m.chart.id
      · simp only [if_pos hstatus, if_pos hchart] at hchecks
        cases hchecks
        rfl
      by_cases hsum : s.checksum ≠ m.chart.checksum
      · simp only [if_pos hstatus, if_neg hchart, if_pos hsum] at hchecks
        cases hchecks
        rfl
      simp only [if_pos hstatus, if_neg hchart, if_neg hsum] at hchecks
      cases hconfiguration : snapshotConfiguration m.chart s with
      | error e' =>
          simp only [hconfiguration] at hchecks
          cases hchecks
          exact snapshotConfiguration_refusal hconfiguration
      | ok configuration =>
          cases hcontext : Context.ofJson s.context with
          | error found =>
              simp only [hconfiguration, hcontext, Except.mapError] at hchecks
              cases hchecks
              rfl
          | ok context => simp [hconfiguration, hcontext, Except.mapError] at hchecks
  · split at h <;> cases h

/-- The operation of an input returns a failure. -/
def Fails (m : Machine) (input : Input) (e : MachineError) : Prop :=
  match input with
  | .start => m.start.2 = .error e
  | .dispatch event => (m.dispatch event).2 = .error e
  | .processPending => m.processPending.2 = .error e
  | .stop => m.stop.2 = .error e
  | .restore s => (m.restore s).2 = .error e
  | .report _ | .requeue _ | .attend _ => False

variable {m : Machine}

/-- A failure is a refusal, or it is contained and the machine runs unless it was to stop. -/
theorem Fails.cases {input : Input} {e : MachineError} (h : m.Fails input e) :
    (e.isRefusal = true ∧ m.feed input = m) ∨
      (e.isContained = true ∧ (input ≠ .stop → (m.feed input).status = .running)) := by
  cases input with
  | start => exact ((start_ends m).fails h).imp_right fun hend => ⟨hend.1, fun _ => hend.2⟩
  | dispatch event =>
      exact ((dispatch_ends m event).fails h).imp_right fun hend => ⟨hend.1, fun _ => hend.2⟩
  | processPending =>
      by_cases hstatus : m.status = .running
      · exact .inr ⟨processPending_contained m e h,
          fun _ => (processPending_tells m).status.trans hstatus⟩
      · rw [Fails, processPending_of_ne hstatus] at h
        cases h
  | stop => exact ((stop_ends m).fails h).imp_right fun hend => ⟨hend.1, fun hne => absurd rfl hne⟩
  | restore s =>
      obtain ⟨hrefusal, heq⟩ := restore_error h
      exact .inl ⟨hrefusal, congrArg Prod.fst heq⟩
  | report | requeue | attend => exact h.elim

/-- Nothing but a stop takes a machine out of running. -/
theorem feed_running (h : m.status = .running) {input : Input} (hstop : input ≠ .stop) :
    (m.feed input).status = .running := by
  cases input with
  | start => rwa [feed, start_fst_of_ne (by simp [h])]
  | dispatch event => exact (dispatch_tells h event).status.trans h
  | processPending => exact (processPending_tells m).status.trans h
  | stop => exact absurd rfl hstop
  | restore s => rwa [feed, restore_fst_of_ne (by simp [h])]
  | report _ | requeue _ | attend _ => exact h

/-- A machine that has stopped only queues reports and drops them. -/
theorem feed_idles_of_stopped (h : m.status = .stopped) (input : Input) :
    m.Idles (m.feed input) := by
  have hrun : m.status ≠ .running := by simp [h]
  have hnew : m.status ≠ .uninitialized := by simp [h]
  cases input with
  | start =>
      rw [feed, start_fst_of_ne hnew]
      exact .refl m
  | dispatch event =>
      rw [feed, dispatch_of_ne hrun]
      exact .refl m
  | processPending =>
      rw [feed, processPending_of_ne hrun]
      exact ⟨m.setup, [], m.signalled, rfl⟩
  | stop =>
      rw [feed, stop_of_ne hrun]
      exact .refl m
  | restore s =>
      rw [feed, restore_fst_of_ne hnew]
      exact .refl m
  | report c => exact ⟨m.setup, m.pending ++ [c], true, rfl⟩
  | requeue pending => exact ⟨m.setup, pending, m.signalled, rfl⟩
  | attend answer => exact ⟨{ m.setup with answer }, m.pending, m.signalled, rfl⟩

theorem after_idles_of_stopped (h : m.status = .stopped) (inputs : List Input) :
    m.Idles (m.after inputs) := by
  induction inputs using List.reverseRecOn with
  | nil => exact .refl m
  | append_singleton inputs input ih =>
      rw [after_concat]
      have hstopped : (m.after inputs).status = .stopped := by
        obtain ⟨_, _, _, heq⟩ := ih
        rw [heq]
        exact h
      exact ih.trans (feed_idles_of_stopped hstopped input)

/-- Whatever a machine has been through: a failure that is not contained is a refusal, and nothing
of the machine has changed, what it has done to the outside included. After a contained failure of
anything but a stop the machine runs. Nothing but a stop takes it out of running, and once it has
stopped, no run changes more than its queue and its surroundings. -/
theorem failures_classified (m : Machine) (input : Input) :
    (∀ e, m.Fails input e → e.isContained = false → e.isRefusal = true ∧ m.feed input = m) ∧
    (∀ e, m.Fails input e → e.isContained = true → input ≠ .stop →
      (m.feed input).status = .running) ∧
    (m.status = .running → input ≠ .stop → (m.feed input).status = .running) ∧
    (m.status = .stopped → ∀ inputs, (m.after inputs).status = .stopped ∧
      (m.after inputs).configuration = m.configuration ∧
      (m.after inputs).invocations = m.invocations ∧ (m.after inputs).context = m.context ∧
      (m.after inputs).trace = m.trace) := by
  refine ⟨fun e he hnot => ?_, fun e he hcontained hstop => ?_,
    fun h => feed_running h, fun h inputs => ?_⟩
  · rcases he.cases with hrefused | ⟨hcontained, _⟩
    · exact hrefused
    · rw [hcontained] at hnot
      cases hnot
  · rcases he.cases with ⟨hrefusal, _⟩ | ⟨_, hrunning⟩
    · rw [MachineError.isContained_of_isRefusal hrefusal] at hcontained
      cases hcontained
    · exact hrunning hstop
  · obtain ⟨_, _, _, heq⟩ := after_idles_of_stopped h inputs
    rw [heq]
    exact ⟨h, rfl, rfl, rfl, rfl⟩

/-- A second start is refused; a dispatch that loses the active states fails and the machine runs
on; after it has been stopped, reports and calls are of no use. -/
theorem failures_classified_lapse :
    (lapseMachine.after [.start]).Fails .start (.lifecycle .start .running) ∧
    (lapseMachine.after [.start]).feed .start = lapseMachine.after [.start] ∧
    (∃ e, (lapseMachine.after [.start]).Fails (.dispatch ⟨"go", .null⟩) e ∧
      e.isContained = true) ∧
    (lapseMachine.after [.start, .dispatch ⟨"go", .null⟩]).status = .running ∧
    ((lapseMachine.after [.start, .stop]).after
      [.start, .report ⟨⟨"job", 1⟩, .done .null⟩, .dispatch ⟨"go", .null⟩]).status = .stopped := by
  have hstarted := failures_classified (lapseMachine.after [.start])
  have hstopped := failures_classified (lapseMachine.after [.start, .stop]) .start
  have hfails : (lapseMachine.after [.start]).Fails (.dispatch ⟨"go", .null⟩)
      (.actionExecution "assign(x)" "m" "a" (.resolution (.missingPath "missing"))) := rfl
  exact ⟨rfl, ((hstarted .start).1 _ rfl rfl).2, ⟨_, hfails, rfl⟩,
    (hstarted (.dispatch ⟨"go", .null⟩)).2.1 _ hfails rfl nofun, (hstopped.2.2.2 rfl _).1⟩

end Machine

end Statechart
