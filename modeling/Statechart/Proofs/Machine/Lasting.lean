import Statechart.Proofs.Machine.Trail

/-!
# What holds along every operation

Operations are made of few kinds of changes. A relation between machines that holds along each of
them, and along one after another, holds along every part of a step, every microstep and every
input, whether it succeeds or fails. The recursions of the operations are followed once, here.
-/
namespace Statechart

namespace Machine

/-- A reflexive and transitive relation that holds along each kind of change to a machine. -/
structure Lasting (R : Machine → Machine → Prop) : Prop where
  refl (m : Machine) : R m m
  trans {m m' m'' : Machine} : R m m' → R m' m'' → R m m''
  act (m : Machine) (context : Context) (trace : Array Effect) : R m { m with context, trace }
  leave (m : Machine) (i : Nat) : R m (m.leave i)
  activate (m : Machine) (i : Nat) : R m (m.activate i)
  startInvocation (m : Machine) (i : Nat) : R m (m.startInvocation i)
  accept (m : Machine) (t : Token) : R m (m.accept t)
  revokeAll (m : Machine) : R m m.revokeAll
  become (m : Machine) (status : Status) : R m { m with status }
  adopt (m : Machine) (configuration : List Nat) : R m { m with configuration }
  queue (m : Machine) (pending : List Completion) (signalled : Bool) :
    R m { m with pending, signalled }
  attend (m : Machine) (answer : InvokeRequest → Option Outcome) :
    R m { m with setup := { m.setup with answer } }

variable {R : Machine → Machine → Prop}

namespace Lasting

theorem notify (h : Lasting R) (m : Machine) (n : Notification) : R m (m.notify n) :=
  h.act m m.context _

theorem runActions (h : Lasting R) (cause : Step.Cause) (actions : List Action) (s : Step) :
    R s.machine (s.runActions cause actions).1.machine := by
  simp only [Step.runActions]
  split <;> exact h.act s.machine _ _

theorem andThen (h : Lasting R) {m : Machine} {a : Attempt} {next : Step → Attempt}
    (hfirst : R m a.1.machine) (hnext : ∀ s : Step, R s.machine (next s).1.machine) :
    R m (a.andThen next).1.machine := by
  obtain ⟨s, e | ⟨⟩⟩ := a
  · exact hfirst
  · exact h.trans hfirst (hnext s)

theorem exitInnermost (h : Lasting R) (cause : Step.Cause) (s : Step) :
    R s.machine (s.exitInnermost cause).1.machine := by
  unfold Step.exitInnermost
  split
  · exact h.refl _
  · exact h.andThen (h.runActions cause _ s) fun s => h.leave s.machine _

theorem exitMany (h : Lasting R) (cause : Step.Cause) (n : Nat) : ∀ s : Step,
    R s.machine (s.exitMany cause n).1.machine := by
  induction n with
  | zero => exact fun s => h.refl _
  | succ n ih => exact fun s => h.andThen (h.exitInnermost cause s) ih

theorem activateAll (h : Lasting R) (cause : Step.Cause) : ∀ (states : List Nat) (s : Step),
    R s.machine (Step.activateAll cause states s).1.1.machine
  | [], s => h.refl _
  | i :: rest, s => by
      let t : Step := s.update (·.activate i)
      have hrun : R s.machine (t.runActions cause (t.machine.chart.state i).entry).1.machine :=
        h.trans (h.activate s.machine i) (h.runActions cause _ t)
      simp only [Step.activateAll]
      cases hattempt : t.runActions cause (t.machine.chart.state i).entry with
      | mk u result =>
        rw [hattempt] at hrun
        cases result with
        | error e => exact hrun
        | ok _ => exact h.trans hrun (h.activateAll cause rest u)

theorem startInvocations (h : Lasting R) (states : List Nat) : ∀ m : Machine,
    R m (m.startInvocations states) := by
  induction states with
  | nil => exact h.refl
  | cons i rest ih => exact fun m => h.trans (h.startInvocation m i) (ih _)

theorem enter (h : Lasting R) (cause : Step.Cause) (states : List Nat) (s : Step) :
    R s.machine (s.enter cause states).1.machine :=
  h.trans (h.activateAll cause states s) (h.startInvocations _ _)

theorem execute (h : Lasting R) (t : Transition) (event : Event) (s : Step) :
    R s.machine (s.execute t event).1.machine := by
  cases ht : t.target with
  | none =>
      simp only [Step.execute, ht]
      exact h.andThen (h.runActions _ _ s) fun _ => h.notify _ _
  | some target =>
      rw [Step.execute_of_some ht]
      refine h.andThen ?_ fun _ => h.notify _ _
      exact h.andThen (h.andThen (h.exitMany _ _ s) (h.runActions _ _)) (h.enter _ _)

theorem microstep (h : Lasting R) (m : Machine) (event : Event) :
    R m (m.microstep event).machine := by
  cases hrun : m.microstep event with
  | mk m' diagnostics result =>
    have hcases := microstep_cases m event
    rw [hrun] at hcases
    cases hcases with
    | unselected | ignored => exact h.refl m
    | @taken t _ _ _ hexecute | @failed t _ _ _ _ hexecute =>
        have hstep := h.execute t event ⟨m, []⟩
        rwa [hexecute] at hstep

theorem drain (h : Lasting R) (budget : Nat) : ∀ (m : Machine) (queue : List Event),
    R m (m.drain budget queue).machine := by
  induction budget with
  | zero =>
      intro m queue
      cases queue <;> exact h.refl m
  | succ budget ih =>
      intro m queue
      cases queue with
      | nil => exact h.refl m
      | cons event queue =>
          have hstep := h.microstep m event
          simp only [Machine.drain]
          split
          · next hrun => rwa [hrun] at hstep
          · next hrun =>
              rw [hrun] at hstep
              exact h.trans hstep (ih _ _)

theorem runToCompletion (h : Lasting R) (m : Machine) (event : Event) :
    R m (m.runToCompletion event).machine := by
  have hevents := h.drain m.settings.maxMicrosteps m [event]
  rw [← runEvents] at hevents
  unfold Machine.runToCompletion
  split
  · next hrun => rwa [hrun] at hevents
  · next hrun =>
      rw [hrun] at hevents
      exact h.trans hevents (h.notify _ _)

theorem processCompletion (h : Lasting R) (m : Machine) (c : Completion) :
    R m (m.processCompletion c).machine := by
  unfold Machine.processCompletion
  split
  · exact h.trans (h.accept m c.token) (h.runToCompletion _ c.toEvent)
  · exact h.refl m

theorem processAll (h : Lasting R) (completions : List Completion) : ∀ m : Machine,
    R m (m.processAll completions).1 := by
  induction completions with
  | nil => exact h.refl
  | cons c rest ih => exact fun m => h.trans (h.processCompletion m c) (ih _)

theorem takePending (h : Lasting R) (m : Machine) : R m m.takePending.1 :=
  h.queue m [] m.signalled

theorem boot (h : Lasting R) (m : Machine) : R m m.boot.1.machine :=
  h.trans (h.become m .running) (h.enter _ _ ⟨{ m with status := .running }, []⟩)

theorem start (h : Lasting R) (m : Machine) : R m m.start.1 := by
  have hboot := h.boot m
  rw [start_eq]
  split
  · split
    · exact h.refl m
    · split
      · next hrun => rwa [hrun] at hboot
      · next hrun =>
          rw [hrun] at hboot
          exact h.trans (h.trans hboot (h.notify _ _)) (h.drain _ _ _)
  · exact h.refl m

theorem dispatch (h : Lasting R) (m : Machine) (event : Event) : R m (m.dispatch event).1 := by
  by_cases hstatus : m.status = .running
  · rw [dispatch_fst_of_running hstatus]
    exact h.trans (h.trans (h.takePending m) (h.processAll m.pending _)) (h.runToCompletion _ _)
  · have hrefused : (m.dispatch event).1 = m := by
      simp [Machine.dispatch, require, hstatus]
    rw [hrefused]
    exact h.refl m

theorem processPending (h : Lasting R) (m : Machine) : R m m.processPending.1 := by
  rw [processPending_fst]
  split
  · exact h.trans (h.takePending m) (h.processAll m.pending _)
  · exact h.takePending m

theorem exitAll (h : Lasting R) (n : Nat) : ∀ s : Step,
    R s.machine (Machine.exitAll n s).1.machine := by
  induction n with
  | zero => exact fun s => h.refl _
  | succ n ih =>
      intro s
      unfold Machine.exitAll
      split
      · exact h.refl _
      · next i _ =>
          let u := (s.runActions ⟨none, (s.machine.chart.state i).id, "(stopped)"⟩
            (s.machine.chart.state i).exit).1
          have hrest : R s.machine (Machine.exitAll n (u.update (·.leave i))).1.machine :=
            h.trans (h.trans (h.runActions _ _ s) (h.leave u.machine i))
              (ih (u.update (·.leave i)))
          dsimp only
          split <;> exact hrest

theorem stop (h : Lasting R) (m : Machine) : R m m.stop.1 := by
  rcases stop_cases m with ⟨_, heq⟩ | ⟨_, heq⟩
  · rw [heq]
    exact h.refl m
  · rw [heq]
    have hexits := h.exitAll m.configuration.length ⟨m, []⟩
    have hrevoked := h.trans hexits (h.revokeAll _)
    exact h.trans (h.trans (h.trans hrevoked (h.queue _ [] _)) (h.become _ .stopped)) (h.notify _ _)

theorem restore (h : Lasting R) (m : Machine) (s : Snapshot) : R m (m.restore s).1 := by
  rcases restore_cases m s with ⟨e, heq⟩ | ⟨configuration, context, _, _, _, heq⟩
  · rw [heq]
    exact h.refl m
  · have htaken : R m { m with configuration, context, status := s.status } :=
      h.trans (h.trans (h.adopt m configuration) (h.act _ context m.trace)) (h.become _ s.status)
    rw [heq]
    dsimp only
    split
    · exact h.trans (h.trans htaken (h.startInvocations configuration _)) (h.notify _ _)
    · exact htaken

theorem feed (h : Lasting R) (m : Machine) (input : Input) : R m (m.feed input) := by
  cases input with
  | start => exact h.start m
  | dispatch event => exact h.dispatch m event
  | processPending => exact h.processPending m
  | stop => exact h.stop m
  | restore s => exact h.restore m s
  | report c => exact h.queue m _ true
  | requeue pending => exact h.queue m pending m.signalled
  | attend answer => exact h.attend m answer

theorem after (h : Lasting R) (m : Machine) (inputs : List Input) : R m (m.after inputs) := by
  induction inputs using List.reverseRecOn with
  | nil => exact h.refl m
  | append_singleton inputs input ih =>
      rw [after_concat]
      exact h.trans ih (h.feed _ input)

theorem drainSteps (h : Lasting R) (budget : Nat) : ∀ (m : Machine) (queue : List Event),
    ∀ p ∈ m.drainSteps budget queue, R m p.1 := by
  induction budget with
  | zero =>
      intro m queue p hp
      cases queue <;> simp [Machine.drainSteps] at hp
  | succ budget ih =>
      intro m queue p hp
      cases queue with
      | nil => simp [Machine.drainSteps] at hp
      | cons event queue =>
          have hstep := h.microstep m event
          rcases List.mem_cons.mp hp with rfl | hp
          · exact h.refl m
          · split at hp
            · simp at hp
            · next hrun =>
                rw [hrun] at hstep
                exact h.trans hstep (ih _ _ p hp)

theorem completionSteps (h : Lasting R) (completions : List Completion) : ∀ m : Machine,
    ∀ p ∈ m.completionSteps completions, R m p.1 := by
  induction completions with
  | nil => simp [Machine.completionSteps]
  | cons c rest ih =>
      intro m p hp
      rcases List.mem_append.mp hp with hp | hp
      · split at hp
        · exact h.trans (h.accept m c.token) (h.drainSteps _ _ _ p hp)
        · simp at hp
      · exact h.trans (h.processCompletion m c) (ih _ p hp)

/-- The relation holds from the machine that meets an input to each microstep of it. -/
theorem microsteps (h : Lasting R) (m : Machine) (input : Input) :
    ∀ p ∈ m.microsteps input, R m p.1 := by
  intro p hp
  have htaken := h.takePending m
  cases input with
  | start =>
      have hboot := h.boot m
      simp only [Machine.microsteps] at hp
      split at hp
      · split at hp
        · next hrun =>
            rw [hrun] at hboot
            exact h.trans (h.trans hboot (h.notify _ _)) (h.drainSteps _ _ _ p hp)
        · simp at hp
      · simp at hp
  | dispatch event =>
      simp only [Machine.microsteps] at hp
      split at hp
      · rcases List.mem_append.mp hp with hp | hp
        · exact h.trans htaken (h.completionSteps m.pending _ p hp)
        · exact h.trans (h.trans htaken (h.processAll m.pending _)) (h.drainSteps _ _ _ p hp)
      · simp at hp
  | processPending =>
      simp only [Machine.microsteps] at hp
      split at hp
      · exact h.trans htaken (h.completionSteps m.pending _ p hp)
      · simp at hp
  | stop | restore | report | requeue | attend => simp [Machine.microsteps] at hp

end Lasting

end Machine

end Statechart
