import Statechart.Proofs.Machine.Trail

/-!
# The parts of a step

A step is made of single parts: actions, and between them what happens to states and to their
invocations. A sequence of parts is followed in order up to the first action that fails; all before
that has been done then, and nothing after it. So the whole effect of a step is known from the
sequence of its parts.
-/
namespace Statechart.Step

/-- What an action is run for. -/
inductive Occasion where
  | exit (state : Nat)
  | transition
  | entry (state : Nat)

/-- One thing that is done in a step. -/
inductive Part where
  | act (occasion : Occasion) (action : Action)
  /-- The invocation of a state is stopped if its token is still held. -/
  | revoke (state : Nat)
  /-- A state is active no more. -/
  | leave (state : Nat)
  | activate (state : Nat)
  /-- The invocation of a state is started if it has one. -/
  | invoke (state : Nat)
  | tell (notification : Notification)

/-- Does one part. Only an action can fail, and then it has had no effect. -/
def perform (cause : Cause) (s : Step) : Part → Except MachineError Step
  | .act _ action =>
    let m := s.machine
    match action.apply m.chart.id m.settings.raisePolicy cause.event ⟨m.context, s.raised, []⟩ with
    | .ok scope =>
      .ok ⟨{ m with context := scope.context, trace := m.trace ++ scope.logs.map Effect.logged },
        scope.raised⟩
    | .error reason => .error (.actionExecution action.describe cause.source cause.target reason)
  | .revoke i => .ok (s.update (·.stopInvocation i))
  | .leave i => .ok (s.update fun m =>
      { m with configuration := m.configuration.erase i }.notify
        (.exited m.chart.id (m.chart.state i).id))
  | .activate i => .ok (s.update (·.activate i))
  | .invoke i => .ok (s.update (·.startInvocation i))
  | .tell n => .ok (s.notify n)

/-- What becomes of a sequence of parts: all of them are done, or those before an action that
fails, which is given by what it is run for. -/
inductive Follows (cause : Cause) (s : Step) (parts : List Part) :
    List Part → Option Occasion → Attempt → Prop where
  | whole {u} (h : parts.foldlM (perform cause) s = .ok u) :
    Follows cause s parts parts none (u, .ok ())
  | upTo {done occasion action rest u e}
      (hsplit : parts = done ++ .act occasion action :: rest)
      (h : done.foldlM (perform cause) s = .ok u)
      (hfails : perform cause u (.act occasion action) = .error e) :
    Follows cause s parts done (some occasion) (u, .error e)

/-- The states that parts activate, in order. -/
def activated (parts : List Part) : List Nat :=
  parts.filterMap fun
    | .activate i => some i
    | _ => none

/-- The names of the events that actions raise, in order. -/
def raises (parts : List Part) : List String :=
  parts.filterMap fun
    | .act _ (.raise event _) => some event
    | _ => none

variable {cause : Cause} {s u : Step} {parts parts' done : List Part} {stop : Option Occasion}
  {a : Attempt} {i : Nat}

@[simp] theorem activated_append (parts parts' : List Part) :
    activated (parts ++ parts') = activated parts ++ activated parts' :=
  List.filterMap_append

@[simp] theorem activated_acts (occasion : Occasion) (actions : List Action) :
    activated (actions.map (.act occasion)) = [] := by
  simp [activated]

@[simp] theorem raises_append (parts parts' : List Part) :
    raises (parts ++ parts') = raises parts ++ raises parts' :=
  List.filterMap_append

theorem Follows.isPrefix (h : Follows cause s parts done stop a) : done <+: parts := by
  cases h with
  | whole h => exact List.prefix_rfl
  | upTo hsplit h hfails => exact ⟨_, hsplit.symm⟩

theorem Follows.foldlM (h : Follows cause s parts done stop a) :
    done.foldlM (perform cause) s = .ok a.1 := by
  cases h with
  | whole h => exact h
  | upTo hsplit h hfails => exact h

/-- What activates no state activates none up to a failure either. -/
theorem Follows.activated_nil (h : Follows cause s parts done stop a)
    (hnone : activated parts = []) : activated done = [] := by
  obtain ⟨rest, hsplit⟩ := h.isPrefix
  rw [← hsplit, activated_append, List.append_eq_nil_iff] at hnone
  exact hnone.1

/-- A sequence has been followed to its end if and only if nothing has failed. -/
theorem Follows.done_eq (h : Follows cause s parts done stop a) (hok : a.2 = .ok ()) :
    done = parts ∧ stop = none := by
  cases h with
  | whole h => exact ⟨rfl, rfl⟩
  | upTo hsplit h hfails => cases hok

/-- What has failed in the beginning of a sequence has failed in the sequence. -/
theorem Follows.extend (h : Follows cause s parts done stop a) {e : MachineError}
    (herror : a.2 = .error e) (parts' : List Part) :
    Follows cause s (parts ++ parts') done stop a := by
  cases h with
  | whole h => cases herror
  | @upTo done occasion action rest _ _ hsplit h hfails =>
      have hlonger : parts ++ parts' = done ++ .act occasion action :: (rest ++ parts') := by
        simp [hsplit]
      exact .upTo hlonger h hfails

/-- A sequence that has been followed to its end can be followed further. -/
theorem Follows.append (h : Follows cause s parts done stop (u, .ok ()))
    {stop' : Option Occasion} {done' : List Part} (h' : Follows cause u parts' done' stop' a) :
    Follows cause s (parts ++ parts') (parts ++ done') stop' a := by
  have hfirst : parts.foldlM (perform cause) s = .ok u := by
    rw [← (h.done_eq rfl).1]
    exact h.foldlM
  have hfold (more : List Part) : (parts ++ more).foldlM (perform cause) s =
      more.foldlM (perform cause) u := by
    rw [List.foldlM_append, hfirst]
    rfl
  cases h' with
  | whole h' => exact .whole ((hfold _).trans h')
  | @upTo _ occasion action rest _ _ hsplit h' hfails =>
      have hlonger : parts ++ parts' = parts ++ done' ++ .act occasion action :: rest := by
        simp [hsplit]
      exact .upTo hlonger ((hfold _).trans h') hfails

theorem apply_logs (action : Action) (machine : String) (policy : RaisePolicy)
    (event : Option Event) (context : Context) (raised : List Event) (logs : List LogRecord) :
    action.apply machine policy event ⟨context, raised, logs⟩ =
      (action.apply machine policy event ⟨context, raised, []⟩).map fun scope =>
        { scope with logs := logs ++ scope.logs } := by
  cases action with
  | log label level message =>
      simp only [Action.apply]
      cases message.resolve context event <;> simp [Except.mapError, Except.map, bind, Except.bind,
        pure, Except.pure]
  | assign key value =>
      simp only [Action.apply]
      cases value.resolve context event with
      | error e => simp [Except.mapError, Except.map, bind, Except.bind]
      | ok value =>
          simp only [Except.mapError, bind, Except.bind]
          cases context.setPath key value <;> simp [Except.map, pure, Except.pure]
  | raise name data =>
      simp only [Action.apply]
      split
      · rfl
      · cases data with
        | none => simp [Except.map, bind, Except.bind, pure, Except.pure]
        | some provider =>
            cases hpayload : provider.resolve context event <;>
              simp [hpayload, Except.mapError, Except.map, bind, Except.bind, pure, Except.pure]

theorem applyAll_logs (machine : String) (policy : RaisePolicy) (event : Option Event) :
    ∀ (actions : List Action) (context : Context) (raised : List Event) (logs : List LogRecord),
    Action.applyAll machine policy event actions ⟨context, raised, logs⟩ =
      let all := Action.applyAll machine policy event actions ⟨context, raised, []⟩
      ({ all.1 with logs := logs ++ all.1.logs }, all.2)
  | [], context, raised, logs => by simp [Action.applyAll]
  | action :: rest, context, raised, logs => by
      simp only [Action.applyAll]
      rw [apply_logs]
      cases action.apply machine policy event ⟨context, raised, []⟩ with
      | error failure => simp [Except.map]
      | ok scope =>
          obtain ⟨context', raised', logs'⟩ := scope
          simp only [Except.map]
          rw [applyAll_logs machine policy event rest context' raised' (logs ++ logs'),
            applyAll_logs machine policy event rest context' raised' logs']
          simp

theorem runActions_nil (cause : Cause) (s : Step) : s.runActions cause [] = (s, .ok ()) := by
  simp [runActions, Action.applyAll]

/-- The first of some actions fails, or the others are run after it. -/
theorem runActions_cons (cause : Cause) (occasion : Occasion) (action : Action)
    (rest : List Action) (s : Step) : s.runActions cause (action :: rest) =
      match perform cause s (.act occasion action) with
      | .ok u => u.runActions cause rest
      | .error e => (s, .error e) := by
  simp only [runActions, Action.applyAll, perform]
  cases action.apply s.machine.chart.id s.machine.settings.raisePolicy cause.event
      ⟨s.machine.context, s.raised, []⟩ with
  | error reason => simp
  | ok scope =>
      obtain ⟨context, raised, logs⟩ := scope
      have hsettings (trace : Array Effect) :
          { s.machine with context, trace }.settings = s.machine.settings := rfl
      dsimp only
      rw [applyAll_logs, hsettings]
      cases Action.applyAll s.machine.chart.id s.machine.settings.raisePolicy cause.event rest
          ⟨context, raised, []⟩ with
      | mk scope failed =>
          have htrace : s.machine.trace ++ (logs ++ scope.logs).map Effect.logged =
              s.machine.trace ++ logs.map Effect.logged ++ scope.logs.map Effect.logged := by
            apply Array.toList_inj.mp
            simp
          cases failed <;> simpa using htrace

/-- Actions are parts of their own. -/
theorem runActions_follows (cause : Cause) (occasion : Occasion) (actions : List Action) :
    ∀ s : Step, ∃ done stop,
      Follows cause s (actions.map (.act occasion)) done stop (s.runActions cause actions) ∧
        ∀ other, stop = some other → other = occasion := by
  induction actions with
  | nil =>
      intro s
      rw [runActions_nil]
      exact ⟨[], none, .whole rfl, nofun⟩
  | cons action rest ih =>
      intro s
      rw [runActions_cons cause occasion]
      cases hfirst : perform cause s (.act occasion action) with
      | error e =>
          exact ⟨[], some occasion, .upTo rfl rfl hfirst, fun _ h => (Option.some.inj h).symm⟩
      | ok u =>
          obtain ⟨done, stop, hrest, hstop⟩ := ih u
          have hone : Follows cause s [.act occasion action] [.act occasion action] none
              (u, .ok ()) := .whole (by simp [hfirst, bind, Except.bind, pure, Except.pure])
          exact ⟨_, stop, hone.append hrest, hstop⟩

/-- A state stays active as long as it does not leave. -/
theorem perform_active {part : Part} (h : perform cause s part = .ok u) (hpart : part ≠ .leave i)
    (hi : i ∈ s.machine.configuration) : i ∈ u.machine.configuration := by
  cases part with
  | act occasion action =>
      simp only [perform] at h
      split at h
      · cases h
        exact hi
      · cases h
  | revoke j =>
      cases h
      simp only [update, Machine.stopInvocation]
      split
      · exact hi
      · split <;> exact hi
  | leave j =>
      cases h
      exact (List.mem_erase_of_ne fun heq => hpart (congrArg Part.leave heq.symm)).mpr hi
  | activate j =>
      cases h
      exact List.mem_append_left _ hi
  | invoke j =>
      cases h
      exact (startInvocation_configuration s.machine j).symm ▸ hi
  | tell n =>
      cases h
      exact hi

theorem foldlM_active : ∀ {parts : List Part} {s : Step},
    parts.foldlM (perform cause) s = .ok u → .leave i ∉ parts → i ∈ s.machine.configuration →
    i ∈ u.machine.configuration
  | [], s, h, _, hi => by
      cases h
      exact hi
  | part :: rest, s, h, hparts, hi => by
      rw [List.foldlM_cons, bind_eq_ok_iff] at h
      obtain ⟨v, hfirst, hrest⟩ := h
      rw [List.mem_cons, not_or] at hparts
      exact foldlM_active hrest hparts.2 (perform_active hfirst (Ne.symm hparts.1) hi)

/-- Only an action that raises an event raises any; it adds the event to those raised so far. -/
theorem perform_raised {part : Part} (h : perform cause s part = .ok u) :
    ∃ new, u.raised = s.raised ++ new ∧ new.map (·.name) = raises [part] := by
  cases part with
  | act occasion action =>
      simp only [perform] at h
      split at h
      · next scope happly =>
          cases h
          cases action with
          | log label level message =>
              simp only [Action.apply, bind_eq_ok_iff, pure_eq_ok_iff] at happly
              obtain ⟨_, _, rfl⟩ := happly
              exact ⟨[], by simp, rfl⟩
          | assign key value =>
              simp only [Action.apply, bind_eq_ok_iff, pure_eq_ok_iff] at happly
              obtain ⟨_, _, _, _, rfl⟩ := happly
              exact ⟨[], by simp, rfl⟩
          | raise event data =>
              simp only [Action.apply] at happly
              split at happly
              · cases happly
              · cases data with
                | none | some =>
                    simp only [bind_eq_ok_iff, pure_eq_ok_iff] at happly
                    obtain ⟨payload, _, rfl⟩ := happly
                    exact ⟨[⟨event, payload⟩], rfl, rfl⟩
      · cases h
  | revoke | leave | activate | invoke | tell =>
      cases h
      exact ⟨[], by simp [update, notify], rfl⟩

/-- Events are raised in the order of the actions that raise them. -/
theorem foldlM_raised : ∀ {parts : List Part} {s : Step},
    parts.foldlM (perform cause) s = .ok u →
    ∃ new, u.raised = s.raised ++ new ∧ new.map (·.name) = raises parts
  | [], s, h => by
      cases h
      exact ⟨[], by simp, rfl⟩
  | part :: rest, s, h => by
      rw [List.foldlM_cons, bind_eq_ok_iff] at h
      obtain ⟨v, hfirst, hrest⟩ := h
      obtain ⟨new, hnew, hname⟩ := perform_raised hfirst
      obtain ⟨more, hmore, hnames⟩ := foldlM_raised hrest
      refine ⟨new ++ more, by rw [hmore, hnew, List.append_assoc], ?_⟩
      rw [List.map_append, hname, hnames, ← raises_append]
      rfl

end Statechart.Step
