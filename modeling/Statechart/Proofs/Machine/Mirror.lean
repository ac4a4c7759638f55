import Statechart.Proofs.Machine.Course

/-!
# What observers see

An observer that keeps a stack of states and changes it only by what it is told always has the
active states of the machine in it, whether operations succeed or fail. A notification that carries
a configuration carries the stack at its place. Observers are told once of every event that has run
to completion without a failure, right at its end.
-/
namespace Statechart

namespace Notification

/-- The stack of an observer after a notification, if no state is exited that is not on top. -/
def replay? (stack : List String) : Notification → Option (List String)
  | started _ configuration => some configuration
  | entered _ state => some (stack ++ [state])
  | exited _ state => if stack.getLast? = some state then some stack.dropLast else none
  | transitioned .. | dispatched .. | stopped _ => some stack

/-- The stack of an observer after notifications in order. -/
def replayAll? (stack : List String) (notes : List Notification) : Option (List String) :=
  notes.foldlM replay? stack

/-- The configuration that a notification carries. -/
def configuration? : Notification → Option (List String)
  | started _ configuration | dispatched _ _ _ configuration _ => some configuration
  | _ => none

def isDispatched : Notification → Bool
  | dispatched .. => true
  | _ => false

variable {stack stack' stack'' : List String} {notes notes' : List Notification}

theorem replayAll?_append (stack : List String) (notes notes' : List Notification) :
    replayAll? stack (notes ++ notes') = (replayAll? stack notes).bind (replayAll? · notes') := by
  simp [replayAll?]

/-- An observer can follow notifications from one stack to another, and each that carries a
configuration carries the stack at its place. -/
structure Faithful (stack : List String) (notes : List Notification) (stack' : List String) :
    Prop where
  replay : replayAll? stack notes = some stack'
  carries : ∀ pre n post configuration, notes = pre ++ n :: post →
    n.configuration? = some configuration → replayAll? stack pre = some configuration

theorem Faithful.nil (stack : List String) : Faithful stack [] stack :=
  ⟨rfl, by simp⟩

theorem Faithful.single {n : Notification} (h : n.replay? stack = some stack')
    (hcarries : ∀ configuration, n.configuration? = some configuration → stack = configuration) :
    Faithful stack [n] stack' := by
  refine ⟨by simpa [replayAll?] using h, fun pre x post configuration heq hx => ?_⟩
  obtain ⟨rfl, rfl, rfl⟩ : pre = [] ∧ x = n ∧ post = [] := by
    cases pre <;> simp_all
  rw [← hcarries configuration hx]
  rfl

/-- A notification among those of two lists is in the first or in the second. -/
theorem split_append {pre post : List Notification} {n : Notification}
    (h : notes ++ notes' = pre ++ n :: post) :
    (∃ more, notes = pre ++ n :: more) ∨
      ∃ more, pre = notes ++ more ∧ notes' = more ++ n :: post := by
  rcases List.append_eq_append_iff.mp h with ⟨more, hpre, hrest⟩ | ⟨more, hfirst, hrest⟩
  · exact .inr ⟨more, hpre, hrest⟩
  · cases more with
    | nil => exact .inr ⟨[], by simpa using hfirst.symm, by simpa using hrest.symm⟩
    | cons x more =>
        simp only [List.cons_append, List.cons.injEq] at hrest
        exact .inl ⟨more, by rw [hfirst, hrest.1]⟩

theorem Faithful.append (h : Faithful stack notes stack') (h' : Faithful stack' notes' stack'') :
    Faithful stack (notes ++ notes') stack'' := by
  refine ⟨by rw [replayAll?_append, h.replay]; exact h'.replay, ?_⟩
  intro pre n post configuration heq hn
  rcases split_append heq with ⟨more, hfirst⟩ | ⟨more, rfl, hsecond⟩
  · exact h.carries pre n more configuration hfirst hn
  · rw [replayAll?_append, h.replay]
    exact h'.carries more n post configuration hsecond hn

end Notification

open Notification

def Effect.notification? : Effect → Option Notification
  | notified n => some n
  | _ => none

namespace Machine

/-- What observers have been told, oldest first. -/
def notifications (m : Machine) : List Notification :=
  m.trace.toList.filterMap Effect.notification?

/-- A machine becomes another, and observers can follow. Those notifications among theirs that tell
of an event run to completion are given. -/
structure Tells (m : Machine) (finished : List Notification) (m' : Machine) : Prop where
  chart : m'.chart = m.chart
  status : m'.status = m.status
  told : ∃ notes, m'.notifications = m.notifications ++ notes ∧
    Faithful m.configurationIds notes m'.configurationIds ∧ notes.filter isDispatched = finished

variable {m m' m'' : Machine} {finished finished' : List Notification}

@[simp] theorem notifications_notify (m : Machine) (n : Notification) :
    (m.notify n).notifications = m.notifications ++ [n] := by
  simp [notifications, notify, record, Effect.notification?]

theorem Tells.trans (h : m.Tells finished m') (h' : m'.Tells finished' m'') :
    m.Tells (finished ++ finished') m'' := by
  obtain ⟨notes, heq, hfaithful, hfinished⟩ := h.told
  obtain ⟨notes', heq', hfaithful', hfinished'⟩ := h'.told
  refine ⟨h'.chart.trans h.chart, h'.status.trans h.status, notes ++ notes', ?_,
    hfaithful.append hfaithful', by simp [hfinished, hfinished']⟩
  rw [heq', heq, List.append_assoc]

theorem Tells.prefix_notifications (h : m.Tells finished m') :
    m.notifications <+: m'.notifications := by
  obtain ⟨notes, heq, _⟩ := h.told
  exact ⟨notes, heq.symm⟩

/-- A change that observers are told nothing of and that leaves the active states. -/
theorem Tells.silent (hchart : m'.chart = m.chart) (hstatus : m'.status = m.status)
    (hconfiguration : m'.configuration = m.configuration)
    (hnotes : m'.notifications = m.notifications) : m.Tells [] m' := by
  refine ⟨hchart, hstatus, [], by simp [hnotes], ?_, rfl⟩
  have hids : m'.configurationIds = m.configurationIds := by
    simp [configurationIds, hchart, hconfiguration]
  rw [hids]
  exact .nil _

theorem Tells.refl (m : Machine) : m.Tells [] m := .silent rfl rfl rfl rfl

/-- A notification that leaves the stack and carries the active states if it carries any. -/
theorem Tells.notify (m : Machine) (n : Notification)
    (h : n.replay? m.configurationIds = some m.configurationIds)
    (hcarries : ∀ configuration, n.configuration? = some configuration →
      m.configurationIds = configuration) :
    m.Tells ([n].filter isDispatched) (m.notify n) :=
  ⟨rfl, rfl, [n], notifications_notify m n, .single h hcarries, rfl⟩

/-! ## Parts of a step -/

theorem activate_tells (m : Machine) (i : Nat) : m.Tells [] (m.activate i) := by
  refine ⟨rfl, rfl, [.entered m.chart.id (m.chart.state i).id], ?_, .single ?_ nofun, rfl⟩
  · exact notifications_notify _ _
  · simp [replay?, configurationIds, activate, Machine.notify, record]

theorem leave_notifications (m : Machine) (i : Nat) : (m.leave i).notifications =
    m.notifications ++ [.exited m.chart.id (m.chart.state i).id] := by
  have hstop : (m.stopInvocation i).notifications = m.notifications ∧
      (m.stopInvocation i).chart = m.chart := by
    unfold stopInvocation
    split
    · exact ⟨rfl, rfl⟩
    · split
      · exact ⟨rfl, rfl⟩
      · exact ⟨by simp [notifications, record, Effect.notification?], rfl⟩
  unfold leave
  dsimp only
  rw [notifications_notify, hstop.2]
  exact congrArg (· ++ _) hstop.1

theorem leave_tells {i : Nat} (h : m.leaf? = some i) : m.Tells [] (m.leave i) := by
  have hleaves := leave_leaves m i
  refine ⟨hleaves.chart, hleaves.status, _, leave_notifications m i, .single ?_ nofun, rfl⟩
  have hlast : m.configuration.getLast? = some i := h
  simp [replay?, configurationIds, hleaves.chart, hleaves.configuration, List.map_dropLast, hlast]

theorem startInvocation_notifications (m : Machine) (i : Nat) :
    (m.startInvocation i).notifications = m.notifications := by
  unfold startInvocation
  split
  · rfl
  · dsimp only
    split
    · split <;> simp [notifications, report, record, Effect.notification?]
    · rfl

theorem startInvocation_tells (m : Machine) (i : Nat) : m.Tells [] (m.startInvocation i) := by
  have hnotes := startInvocation_notifications m i
  cases hv : (m.chart.state i).invoke with
  | none =>
      rw [startInvocation_of_none hv]
      exact .refl m
  | some v =>
      have hstarts := startInvocation_starts hv
      exact .silent hstarts.chart hstarts.status hstarts.configuration hnotes

theorem startInvocations_tells (states : List Nat) : ∀ m : Machine,
    m.Tells [] (m.startInvocations states) := by
  induction states with
  | nil => exact .refl
  | cons i rest ih => exact fun m => (startInvocation_tells m i).trans (ih _)

end Machine

namespace Step
open Machine

variable (cause : Cause)

theorem runActions_tells (actions : List Action) (s : Step) :
    s.machine.Tells [] (s.runActions cause actions).1.machine := by
  have hquiet := runActions_quiet cause actions s
  refine .silent hquiet.chart hquiet.status hquiet.configuration ?_
  simp only [runActions]
  split <;> simp [notifications, List.filterMap_map, Function.comp_def, Effect.notification?]

/-- Observers can follow what comes after an attempt if they can follow both of its parts. -/
theorem andThen_tells {m : Machine} {a : Attempt} {next : Step → Attempt}
    (h : m.Tells [] a.1.machine) (hnext : ∀ s : Step, s.machine.Tells [] (next s).1.machine) :
    m.Tells [] (a.andThen next).1.machine := by
  obtain ⟨s, e | ⟨⟩⟩ := a
  · exact h
  · exact h.trans (hnext s)

theorem exitInnermost_tells (s : Step) : s.machine.Tells [] (s.exitInnermost cause).1.machine := by
  unfold exitInnermost
  split
  · exact .refl _
  · next i hi =>
      have hrun := runActions_tells cause (s.machine.chart.state i).exit s
      have hleaf := leaf?_of_quiet (runActions_quiet cause (s.machine.chart.state i).exit s)
      rw [hi] at hleaf
      cases hattempt : s.runActions cause (s.machine.chart.state i).exit with
      | mk u result =>
        rw [hattempt] at hrun hleaf
        cases result with
        | error e => exact hrun
        | ok _ => exact hrun.trans (leave_tells hleaf)

theorem exitMany_tells (n : Nat) : ∀ s : Step,
    s.machine.Tells [] (s.exitMany cause n).1.machine := by
  induction n with
  | zero => exact fun s => .refl _
  | succ n ih => exact fun s => andThen_tells (exitInnermost_tells cause s) ih

theorem activateAll_tells : ∀ (states : List Nat) (s : Step),
    s.machine.Tells [] (activateAll cause states s).1.1.machine
  | [], s => .refl _
  | i :: rest, s => by
      let t : Step := s.update (·.activate i)
      have hrun : s.machine.Tells []
          (t.runActions cause (t.machine.chart.state i).entry).1.machine :=
        (activate_tells s.machine i).trans (runActions_tells cause _ t)
      simp only [activateAll]
      cases hattempt : t.runActions cause (t.machine.chart.state i).entry with
      | mk u result =>
        rw [hattempt] at hrun
        cases result with
        | error e => exact hrun
        | ok _ => exact hrun.trans (activateAll_tells rest u)

theorem enter_tells (states : List Nat) (s : Step) :
    s.machine.Tells [] (s.enter cause states).1.machine :=
  (activateAll_tells cause states s).trans (startInvocations_tells _ _)

theorem transitioned_tells (s : Step) (chart event source : String) (target : Option String) :
    s.machine.Tells [] (s.notify (.transitioned chart event source target)).machine :=
  Tells.notify s.machine (.transitioned chart event source target) rfl nofun

theorem execute_tells (t : Transition) (event : Event) (s : Step) :
    s.machine.Tells [] (s.execute t event).1.machine := by
  cases ht : t.target with
  | none =>
      simp only [execute, ht]
      exact andThen_tells (runActions_tells _ _ s) fun _ => transitioned_tells _ _ _ _ _
  | some target =>
      rw [execute_of_some ht]
      refine andThen_tells ?_ fun _ => transitioned_tells _ _ _ _ _
      exact andThen_tells (andThen_tells (exitMany_tells _ _ s) (runActions_tells _ _))
        (enter_tells _ _)

end Step

namespace Machine

variable {m₀ m : Machine}

theorem microstep_tells (m : Machine) (event : Event) :
    m.Tells [] (m.microstep event).machine := by
  cases hrun : m.microstep event with
  | mk m' diagnostics result =>
    have hcases := microstep_cases m event
    rw [hrun] at hcases
    cases hcases with
    | unselected | ignored => exact .refl m
    | @taken t _ _ _ h | @failed t _ _ _ _ h =>
        have hexecute := Step.execute_tells t event ⟨m, []⟩
        rwa [h] at hexecute

theorem drain_tells (budget : Nat) : ∀ (m : Machine) (queue : List Event),
    m.Tells [] (m.drain budget queue).machine := by
  induction budget with
  | zero =>
      intro m queue
      cases queue <;> exact .refl m
  | succ budget ih =>
      intro m queue
      cases queue with
      | nil => exact .refl m
      | cons event queue =>
          have hstep := microstep_tells m event
          simp only [drain]
          split
          · next h =>
              rwa [h] at hstep
          · next h =>
              rw [h] at hstep
              exact hstep.trans (ih _ _)

/-- What observers are told at the end of a run to completion, if it does not fail. -/
def finish? (m : Machine) (event : Event) : Option Notification :=
  match m.runToCompletion event with
  | ⟨_, _, .error _⟩ => none
  | ⟨m', _, .ok (handled, _)⟩ =>
    some (.dispatched m'.chart.id event.name handled m'.configurationIds m'.context.toJson)

/-- A run to completion that fails only tells of its steps; otherwise the last notification is that
it has finished. -/
theorem runToCompletion_cases (m : Machine) (event : Event) :
    (m.finish? event = none ∧ m.Tells [] (m.runToCompletion event).machine) ∨
      ∃ n u, m.finish? event = some n ∧ m.Tells [] u ∧ u.Tells [n] (u.notify n) ∧
        (m.runToCompletion event).machine = u.notify n := by
  have hevents := drain_tells m.settings.maxMicrosteps m [event]
  rw [← runEvents] at hevents
  cases hrun : m.runEvents [event] with
  | mk u diagnostics result =>
    rw [hrun] at hevents
    cases result with
    | error e =>
        have heq : m.runToCompletion event = ⟨u, diagnostics, .error e⟩ := by
          simp [runToCompletion, hrun]
        exact .inl ⟨by simp [finish?, heq], by rwa [heq]⟩
    | ok processed =>
        let n : Notification := .dispatched u.chart.id event.name (processed.headD false)
          u.configurationIds u.context.toJson
        have heq : m.runToCompletion event =
            ⟨u.notify n, diagnostics, .ok (processed.headD false, processed.length)⟩ := by
          simp [runToCompletion, hrun, n]
        refine .inr ⟨n, u, ?_, hevents, Tells.notify u n rfl ?_, by rw [heq]⟩
        · rw [finish?, heq]
          rfl
        · rintro configuration ⟨⟩
          rfl

theorem runToCompletion_tells (m : Machine) (event : Event) :
    m.Tells (m.finish? event).toList (m.runToCompletion event).machine := by
  rcases runToCompletion_cases m event with ⟨hnone, htells⟩ | ⟨n, u, hsome, hsteps, hlast, heq⟩
  · rwa [hnone]
  · rw [hsome, heq]
    exact hsteps.trans hlast

/-- The events that are run to completion while completions are processed in order, each with the
machine before it. A completion that is not current leads to none. -/
def completionRounds (m : Machine) : List Completion → List (Machine × Event)
  | [] => []
  | c :: rest =>
    (if Keyed.get? c.token.invokeId m.invocations = some c.token then
      [(m.accept c.token, c.toEvent)] else []) ++
      (m.processCompletion c).machine.completionRounds rest

/-- The events that an operation runs to completion in order: those of the completions that are
accepted, then the event that is dispatched. -/
def rounds (m : Machine) : Input → List (Machine × Event)
  | .dispatch event =>
    if m.status = .running then
      m.takePending.1.completionRounds m.pending ++
        [((m.takePending.1.processAll m.pending).1, event)]
    else []
  | .processPending =>
    if m.status = .running then m.takePending.1.completionRounds m.pending else []
  | _ => []

/-- What observers are told of rounds, nothing of those that fail. -/
def finishes (rounds : List (Machine × Event)) : List Notification :=
  rounds.filterMap fun p => p.1.finish? p.2

/-- Observers can follow from a machine to one of its rounds and from there to another machine. -/
def Passes (m : Machine) (p : Machine × Event) (m' : Machine) : Prop :=
  (∃ finished, m.Tells finished p.1) ∧
    ∃ finished, (p.1.runToCompletion p.2).machine.Tells finished m'

theorem Passes.after {m m' m'' : Machine} {p : Machine × Event} {finished : List Notification}
    (h : m'.Passes p m'') (hbefore : m.Tells finished m') : m.Passes p m'' := by
  obtain ⟨⟨more, hfirst⟩, hlast⟩ := h
  exact ⟨⟨finished ++ more, hbefore.trans hfirst⟩, hlast⟩

theorem Passes.before {m m' m'' : Machine} {p : Machine × Event} {finished : List Notification}
    (h : m.Passes p m') (hafter : m'.Tells finished m'') : m.Passes p m'' := by
  obtain ⟨hfirst, more, hlast⟩ := h
  exact ⟨hfirst, more ++ finished, hlast.trans hafter⟩

theorem accept_tells (m : Machine) (t : Token) : m.Tells [] (m.accept t) :=
  .silent rfl rfl rfl rfl

theorem takePending_tells (m : Machine) : m.Tells [] m.takePending.1 :=
  .silent rfl rfl rfl rfl

theorem processCompletion_of_current {c : Completion}
    (h : Keyed.get? c.token.invokeId m.invocations = some c.token) :
    (m.processCompletion c).machine =
      ((m.accept c.token).runToCompletion c.toEvent).machine := by
  simp [processCompletion, h, accept]

theorem processCompletion_tells (m : Machine) (c : Completion) :
    m.Tells (finishes (m.completionRounds [c])) (m.processCompletion c).machine := by
  by_cases h : Keyed.get? c.token.invokeId m.invocations = some c.token
  · have hrun := (accept_tells m c.token).trans (runToCompletion_tells _ c.toEvent)
    rw [processCompletion_of_current h]
    cases hfinish : (m.accept c.token).finish? c.toEvent <;>
      simpa [finishes, completionRounds, h, hfinish] using hrun
  · have hmachine : (m.processCompletion c).machine = m := by
      simp [processCompletion, h]
    rw [hmachine]
    simpa [finishes, completionRounds, h] using Tells.refl m

theorem processAll_tells (completions : List Completion) : ∀ m : Machine,
    m.Tells (finishes (m.completionRounds completions)) (m.processAll completions).1 := by
  induction completions with
  | nil => exact .refl
  | cons c rest ih =>
      intro m
      have hall := (processCompletion_tells m c).trans (ih _)
      simpa [finishes, completionRounds, processAll] using hall

theorem completionRounds_passes (completions : List Completion) : ∀ m : Machine,
    ∀ p ∈ m.completionRounds completions, m.Passes p (m.processAll completions).1 := by
  induction completions with
  | nil => simp [completionRounds]
  | cons c rest ih =>
      intro m p hp
      have hfirst := processCompletion_tells m c
      have hrest := processAll_tells rest (m.processCompletion c).machine
      rcases List.mem_append.mp hp with hp | hp
      · split at hp
        · next h =>
            obtain rfl := List.mem_singleton.mp hp
            refine ⟨⟨_, accept_tells m c.token⟩, ?_⟩
            rw [← processCompletion_of_current h]
            exact ⟨_, hrest⟩
        · simp at hp
      · exact (ih _ p hp).after hfirst

/-! ## Operations -/

/-- An observer that has followed a machine from its beginning has its active states in the stack.
What carried a configuration carried the stack, unless it was told first, on a restore. -/
structure Mirrored (m : Machine) : Prop where
  replay : replayAll? [] m.notifications = some m.configurationIds
  carries : ∀ pre n post configuration, m.notifications = pre ++ n :: post →
    n.configuration? = some configuration →
    replayAll? [] pre = some configuration ∨ pre = [] ∧ n.isDispatched = false

/-- Before a machine is started, nothing is active and nothing has been told. -/
def Fresh (m : Machine) : Prop :=
  m.status = .uninitialized → m.configuration = [] ∧ m.notifications = []

theorem Mirrored.tells {m m' : Machine} {finished : List Notification} (h : m.Mirrored)
    (htells : m.Tells finished m') : m'.Mirrored := by
  obtain ⟨notes, heq, hfaithful, _⟩ := htells.told
  refine ⟨by rw [heq, replayAll?_append, h.replay]; exact hfaithful.replay, ?_⟩
  intro pre n post configuration hsplit hn
  rw [heq] at hsplit
  rcases split_append hsplit with ⟨more, hfirst⟩ | ⟨more, rfl, hsecond⟩
  · exact h.carries pre n more configuration hfirst hn
  · rw [replayAll?_append, h.replay]
    exact .inl (hfaithful.carries more n post configuration hsecond hn)

theorem Tells.finished_eq {m m' : Machine} {finished : List Notification}
    (h : m.Tells finished m') : m'.notifications.filter isDispatched =
      m.notifications.filter isDispatched ++ finished := by
  obtain ⟨notes, heq, _, hfinished⟩ := h.told
  rw [heq, List.filter_append, hfinished]

theorem dispatch_tells (hstatus : m.status = .running) (event : Event) :
    m.Tells (finishes (m.rounds (.dispatch event))) (m.dispatch event).1 := by
  have hrun := ((takePending_tells m).trans (processAll_tells m.pending _)).trans
    (runToCompletion_tells _ event)
  rw [dispatch_fst_of_running hstatus]
  simp only [rounds, if_pos hstatus]
  cases hfinish : (m.takePending.1.processAll m.pending).1.finish? event <;>
    simpa [finishes, hfinish] using hrun

theorem processPending_tells (m : Machine) :
    m.Tells (finishes (m.rounds .processPending)) m.processPending.1 := by
  rw [processPending_fst]
  by_cases hstatus : m.status = .running
  · simp only [rounds, if_pos hstatus]
    exact (takePending_tells m).trans (processAll_tells m.pending _)
  · simp only [rounds, if_neg hstatus]
    exact takePending_tells m

theorem announce_tells (m : Machine) (chart : String) : m.Tells [] (m.announce chart) := by
  refine Tells.notify m (.started chart m.configurationIds) rfl ?_
  rintro configuration ⟨⟩
  rfl

/-- A start is refused, or observers can follow a machine that runs from then on. -/
theorem start_tells (m : Machine) :
    m.start.1 = m ∨ { m with status := .running }.Tells [] m.start.1 := by
  have hboot : { m with status := .running }.Tells [] m.boot.1.machine :=
    Step.enter_tells _ _ ⟨{ m with status := .running }, []⟩
  rw [start_eq]
  split
  · split
    · exact .inl rfl
    · split
      · next h =>
          rw [h] at hboot
          exact .inr hboot
      · next s h =>
          rw [h] at hboot
          have hannounce : s.machine.Tells [] (s.machine.announce m.chart.id) :=
            announce_tells s.machine m.chart.id
          exact .inr ((hboot.trans hannounce).trans (drain_tells _ _ _))
  · exact .inl rfl

theorem exitAll_tells (n : Nat) : ∀ s : Step, s.machine.Tells [] (exitAll n s).1.machine := by
  induction n with
  | zero => exact fun s => .refl _
  | succ n ih =>
      intro s
      unfold exitAll
      split
      · exact .refl _
      · next i hi =>
          let u := (s.runActions ⟨none, (s.machine.chart.state i).id, "(stopped)"⟩
            (s.machine.chart.state i).exit).1
          have hquiet := Step.runActions_quiet
            ⟨none, (s.machine.chart.state i).id, "(stopped)"⟩ (s.machine.chart.state i).exit s
          have hleave : u.machine.Tells [] (u.machine.leave i) :=
            leave_tells ((Step.leaf?_of_quiet hquiet).trans hi)
          have hrest := ((Step.runActions_tells _ _ s).trans hleave).trans
            (ih (u.update (·.leave i)))
          dsimp only
          split <;> exact hrest

theorem revokeAll_notifications (m : Machine) : m.revokeAll.notifications = m.notifications := by
  simp [revokeAll, notifications, List.filterMap_map, Function.comp_def, Effect.notification?]

/-- A stop is refused, or observers can follow until every state is left and the machine stops. -/
theorem stop_tells (m : Machine) : m.stop.1 = m ∨
    ∃ u, m.Tells [] u ∧ { u with status := .stopped }.Tells [] m.stop.1 := by
  rcases stop_cases m with ⟨_, heq⟩ | ⟨_, heq⟩
  · exact .inl heq
  · let u := (exitAll m.configuration.length ⟨m, []⟩).1.machine
    have hsilent : { u with status := .stopped }.Tells []
        { u.revokeAll with pending := [], status := .stopped } :=
      .silent rfl rfl rfl (revokeAll_notifications u)
    refine .inr ⟨u, exitAll_tells _ ⟨m, []⟩, ?_⟩
    rw [heq]
    exact hsilent.trans (Tells.notify _ (.stopped u.chart.id) rfl nofun)

theorem startInvocations_notifications (states : List Nat) : ∀ m : Machine,
    (m.startInvocations states).notifications = m.notifications := by
  induction states with
  | nil => exact fun _ => rfl
  | cons i rest ih => exact fun m => (ih _).trans (startInvocation_notifications m i)

theorem Mirrored.of_status (h : m.Mirrored) (status : Status) : { m with status }.Mirrored :=
  ⟨h.replay, h.carries⟩

theorem Fresh.of_ne (h : m.status ≠ .uninitialized) : m.Fresh := fun heq => absurd heq h

/-- A restored machine that runs tells of all its states at once. -/
theorem announce_mirrored (hnone : m.notifications = []) (chart : String) :
    (m.announce chart).Mirrored := by
  have hnotes : (m.announce chart).notifications = [.started chart m.configurationIds] := by
    simp [announce, hnone]
  refine ⟨by rw [hnotes]; rfl, fun pre n post configuration hsplit _ => .inr ?_⟩
  rw [hnotes] at hsplit
  cases pre with
  | nil =>
      obtain ⟨rfl, _⟩ := List.cons.inj hsplit
      exact ⟨rfl, rfl⟩
  | cons => simp at hsplit

theorem restore_mirrored (hm : m.Mirrored) (hfresh : m.Fresh) (s : Snapshot) :
    (m.restore s).1.Mirrored ∧ (m.restore s).1.Fresh := by
  rcases restore_cases m s with ⟨e, heq⟩ | ⟨configuration, context, hstatus, hsnapshot, _, heq⟩
  · rw [heq]
    exact ⟨hm, hfresh⟩
  · obtain ⟨hempty, hnone⟩ := hfresh hstatus
    rw [heq]
    rcases snapshotConfiguration_ok hsnapshot with ⟨hrunning, _⟩ | ⟨hnot, rfl⟩
    · let taken := { m with configuration, context, status := s.status }
      have hnotes : (taken.startInvocations configuration).notifications = [] :=
        (startInvocations_notifications configuration taken).trans hnone
      have hstatus' := (startInvocations_tells configuration taken).status
      simp only [if_pos hrunning]
      refine ⟨announce_mirrored hnotes _, .of_ne ?_⟩
      rw [show (Machine.announce _ _).status = taken.status from hstatus',
        show taken.status = .running from hrunning]
      simp
    · simp only [if_neg hnot]
      rw [← hempty]
      exact ⟨⟨hm.replay, hm.carries⟩, fun _ => ⟨hempty, hnone⟩⟩

theorem feed_mirrored (hm : m.Mirrored) (hfresh : m.Fresh) (input : Input) :
    (m.feed input).Mirrored ∧ (m.feed input).Fresh := by
  cases input with
  | start =>
      rcases start_tells m with heq | htells
      · rw [feed, heq]
        exact ⟨hm, hfresh⟩
      · exact ⟨(hm.of_status .running).tells htells, .of_ne (by simp [feed, htells.status])⟩
  | dispatch event =>
      by_cases hstatus : m.status = .running
      · have htells := dispatch_tells hstatus event
        exact ⟨hm.tells htells, .of_ne (by simp [feed, htells.status, hstatus])⟩
      · rw [feed, dispatch_of_ne hstatus]
        exact ⟨hm, hfresh⟩
  | processPending =>
      have htells := processPending_tells m
      refine ⟨hm.tells htells, ?_⟩
      by_cases hstatus : m.status = .running
      · exact .of_ne (by simp [feed, htells.status, hstatus])
      · rw [feed, processPending_of_ne hstatus]
        exact hfresh
  | stop =>
      rcases stop_tells m with heq | ⟨u, hexits, hstops⟩
      · rw [feed, heq]
        exact ⟨hm, hfresh⟩
      · exact ⟨((hm.tells hexits).of_status .stopped).tells hstops,
          .of_ne (by simp [feed, hstops.status])⟩
  | restore s => exact restore_mirrored hm hfresh s
  | report _ | requeue _ | attend _ => exact ⟨⟨hm.replay, hm.carries⟩, hfresh⟩

theorem restore_notifications (m : Machine) (s : Snapshot) :
    (m.restore s).1.notifications.filter isDispatched = m.notifications.filter isDispatched := by
  rcases restore_cases m s with ⟨e, heq⟩ | ⟨configuration, context, _, _, _, heq⟩
  · rw [heq]
  · have hnotes := startInvocations_notifications configuration
      { m with configuration, context, status := s.status }
    rw [heq]
    dsimp only
    split
    · rw [announce, notifications_notify, hnotes, List.filter_append]
      exact List.append_nil _
    · rfl

/-- Observers are told once of each round of an operation that does not fail, and of no other
event. -/
theorem feed_finished (m : Machine) (input : Input) :
    (m.feed input).notifications.filter isDispatched =
      m.notifications.filter isDispatched ++ finishes (m.rounds input) := by
  have hrefl : m.notifications.filter isDispatched =
      m.notifications.filter isDispatched ++ finishes [] := (List.append_nil _).symm
  cases input with
  | start =>
      rcases start_tells m with heq | htells
      · rw [feed, heq]
        exact hrefl
      · exact htells.finished_eq
  | dispatch event =>
      by_cases hstatus : m.status = .running
      · exact (dispatch_tells hstatus event).finished_eq
      · rw [feed, dispatch_of_ne hstatus, rounds, if_neg hstatus]
        exact hrefl
  | processPending => exact (processPending_tells m).finished_eq
  | stop =>
      rcases stop_tells m with heq | ⟨u, hexits, hstops⟩
      · rw [feed, heq]
        exact hrefl
      · have hlast := hstops.finished_eq
        rw [List.append_nil] at hlast
        exact hlast.trans hexits.finished_eq
  | restore s => exact (restore_notifications m s).trans hrefl
  | report _ | requeue _ | attend _ => exact hrefl

theorem feed_passes (m : Machine) (input : Input) : ∀ p ∈ m.rounds input,
    m.Passes p (m.feed input) := by
  intro p hp
  have htaken := takePending_tells m
  have hcompletions := completionRounds_passes m.pending m.takePending.1
  cases input with
  | dispatch event =>
      by_cases hstatus : m.status = .running
      · simp only [rounds, if_pos hstatus] at hp
        rw [feed, dispatch_fst_of_running hstatus]
        rcases List.mem_append.mp hp with hp | hp
        · exact ((hcompletions p hp).after htaken).before (runToCompletion_tells _ event)
        · obtain rfl := List.mem_singleton.mp hp
          exact ⟨⟨_, htaken.trans (processAll_tells m.pending _)⟩, _, .refl _⟩
      · simp [rounds, hstatus] at hp
  | processPending =>
      by_cases hstatus : m.status = .running
      · simp only [rounds, if_pos hstatus] at hp
        rw [feed, processPending_fst, if_pos hstatus]
        exact (hcompletions p hp).after htaken
      · simp [rounds, hstatus] at hp
  | start | stop | restore | report | requeue | attend => simp [rounds] at hp

/-- A dispatch succeeds if and only if its last round, that of the event, has finished. -/
theorem dispatch_ok_iff (m : Machine) (event : Event) :
    (∃ outcome, (m.dispatch event).2 = .ok outcome) ↔
      ∃ u n, (m.rounds (.dispatch event)).getLast? = some (u, event) ∧
        u.finish? event = some n := by
  by_cases hstatus : m.status = .running
  · simp only [rounds, if_pos hstatus, List.getLast?_concat, Option.some.injEq, Prod.mk.injEq]
    unfold dispatch require finish?
    simp only [if_pos hstatus, takePending]
    cases hrun : Machine.runToCompletion
        (processAll { m with pending := [] } m.pending).1 event with
    | mk u diagnostics result => cases result <;> simp [hrun]
  · simp [rounds, hstatus, dispatch_of_ne]

/-! ## Every run -/

theorem after_tracked {c : Chart} {initial : Json} {setup : Setup}
    (hcreate : create c initial setup = .ok m₀) (inputs : List Input) :
    (m₀.after inputs).Mirrored ∧ (m₀.after inputs).Fresh := by
  induction inputs using List.reverseRecOn with
  | nil =>
      unfold create at hcreate
      split at hcreate
      · cases hcreate
        exact ⟨⟨rfl, by simp [notifications]⟩, fun _ => ⟨rfl, rfl⟩⟩
      · cases hcreate
  | append_singleton inputs input ih =>
      rw [after_concat]
      exact feed_mirrored ih.1 ih.2 input

/-- All that a round tells comes after what observers have been told before it; it ends with the
notification that it has finished, and no other is such a notification. -/
theorem runToCompletion_told (m : Machine) (event : Event) : ∃ told,
    (m.runToCompletion event).machine.notifications =
      m.notifications ++ told ++ (m.finish? event).toList ∧ ∀ n ∈ told, n.isDispatched = false := by
  rcases runToCompletion_cases m event with ⟨hnone, htells⟩ | ⟨n, u, hsome, hsteps, _, heq⟩
  · obtain ⟨notes, hnotes, _, hfinished⟩ := htells.told
    exact ⟨notes, by simp [hnotes, hnone], by simpa using hfinished⟩
  · obtain ⟨notes, hnotes, _, hfinished⟩ := hsteps.told
    exact ⟨notes, by simp [heq, hnotes, hsome], by simpa using hfinished⟩

/-- After every run, whatever its operations have returned, an observer can follow all that it has
been told and has the active states in its stack. Every notification that carries a configuration
carries the stack at its place, or is the first of a machine that has been restored. Whatever comes
next, observers are told once of each event that is run to completion without a failure, at its
end, with the configuration and the context there, and of no other event. -/
theorem after_mirrored {c : Chart} {initial : Json} {setup : Setup}
    (hcreate : create c initial setup = .ok m₀) (inputs : List Input) :
    replayAll? [] (m₀.after inputs).notifications = some (m₀.after inputs).configurationIds ∧
    (∀ pre machine configuration post,
      (m₀.after inputs).notifications = pre ++ .started machine configuration :: post →
      replayAll? [] pre = some configuration ∨ pre = []) ∧
    (∀ pre machine event handled configuration context post,
      (m₀.after inputs).notifications =
        pre ++ .dispatched machine event handled configuration context :: post →
      replayAll? [] pre = some configuration) ∧
    (∀ input,
      ((m₀.after inputs).feed input).notifications.filter isDispatched =
        (m₀.after inputs).notifications.filter isDispatched ++
          finishes ((m₀.after inputs).rounds input) ∧
      ∀ p ∈ (m₀.after inputs).rounds input,
        (m₀.after inputs).notifications <+: p.1.notifications ∧
        (∃ told, (p.1.runToCompletion p.2).machine.notifications =
          p.1.notifications ++ told ++ (p.1.finish? p.2).toList ∧
            ∀ n ∈ told, n.isDispatched = false) ∧
        (p.1.runToCompletion p.2).machine.notifications <+:
          ((m₀.after inputs).feed input).notifications) ∧
    ∀ event, (∃ outcome, ((m₀.after inputs).dispatch event).2 = .ok outcome) ↔
      ∃ u n, ((m₀.after inputs).rounds (.dispatch event)).getLast? = some (u, event) ∧
        u.finish? event = some n := by
  obtain ⟨hmirrored, _⟩ := after_tracked hcreate inputs
  refine ⟨hmirrored.replay, ?_, ?_, fun input => ⟨feed_finished _ input, fun p hp => ?_⟩,
    dispatch_ok_iff _⟩
  · intro pre machine configuration post hsplit
    exact (hmirrored.carries pre _ post configuration hsplit rfl).imp_right And.left
  · intro pre machine event handled configuration context post hsplit
    exact (hmirrored.carries pre _ post configuration hsplit rfl).resolve_right (by
      simp [isDispatched])
  · obtain ⟨⟨_, hbefore⟩, _, hafter⟩ := feed_passes _ input p hp
    exact ⟨hbefore.prefix_notifications, runToCompletion_told p.1 p.2, hafter.prefix_notifications⟩

/-- An observer of a machine with a job follows it into the job and out of it when it is done. -/
theorem after_mirrored_job :
    replayAll? [] (jobMachine.after [.start, .dispatch ⟨"go", .null⟩]).notifications =
      some ["m", "work"] ∧
    ∃ outcome, ((jobMachine.after [.start]).dispatch ⟨"go", .null⟩).2 = .ok outcome := by
  obtain ⟨hreplay, _⟩ := after_mirrored create_job [.start, .dispatch ⟨"go", .null⟩]
  obtain ⟨_, _, _, _, hok⟩ := after_mirrored create_job [.start]
  exact ⟨hreplay, (hok ⟨"go", .null⟩).mpr ⟨_, _, rfl, rfl⟩⟩

end Machine

end Statechart
