import Statechart.Proofs.Context.Update
import Statechart.Proofs.Machine.Sequence

/-!
# Actions are atomic

An action resolves what it needs before it changes anything, and then it makes one change: it logs a
record, updates a path or raises an event. An update in place that fails has left the context as it
was. So an action that fails has changed nothing, even where it is carried out on the scope itself,
and a list of actions has done what those before the first failure do, each to what the ones before
it have left.
-/
namespace Statechart

namespace Action

/-- Resolves a value in a scope. -/
def resolveIn (provider : Provider) (event : Option Event) : EStateM ActionFailure Scope Json :=
  fun scope =>
    match provider.resolve scope.context event with
    | .ok value => .ok value scope
    | .error cause => .error (.resolution cause) scope

/-- Updates a path of the context of a scope where it is. -/
def updateIn (key : String) (value : Json) : EStateM ActionFailure Scope Unit := fun scope =>
  match scope.context.setPathInPlace key value with
  | (context, .ok ()) => .ok () { scope with context }
  | (context, .error cause) => .error (.resolution cause) { scope with context }

/-- Runs an action on a scope itself, which keeps what has been done to it when the action
fails. -/
def carryOut (machine : String) (policy : RaisePolicy) (event : Option Event) :
    Action → EStateM ActionFailure Scope Unit
  | log label level message => do
    let message ← resolveIn message event
    modify fun scope => { scope with logs := scope.logs ++ [⟨machine, level, label, message⟩] }
  | assign key value => do
    let value ← resolveIn value event
    updateIn key value
  | raise name data => do
    if policy = .reject then
      throw (.raiseRejected name)
    let payload ← match data with
      | some provider => resolveIn provider event
      | none => pure .null
    modify fun scope => { scope with raised := scope.raised ++ [⟨name, payload⟩] }

section laws
variable (machine : String) (policy : RaisePolicy) (event : Option Event)

/-- The one change that an action makes to a scope. -/
inductive Does (scope : Scope) : Action → Scope → Prop where
  | log {label level message value} (h : message.resolve scope.context event = .ok value) :
    Does scope (.log label level message)
      { scope with logs := scope.logs ++ [⟨machine, level, label, value⟩] }
  | assign {key provider value context} (h : provider.resolve scope.context event = .ok value)
      (hset : scope.context.setPath key value = .ok context) :
    Does scope (.assign key provider) { scope with context }
  | raise {name} (hpolicy : policy = .queue) :
    Does scope (.raise name none) { scope with raised := scope.raised ++ [⟨name, .null⟩] }
  | raiseWith {name provider value} (hpolicy : policy = .queue)
      (h : provider.resolve scope.context event = .ok value) :
    Does scope (.raise name (some provider))
      { scope with raised := scope.raised ++ [⟨name, value⟩] }

/-- Why an action is refused in a scope. -/
inductive Refuses (scope : Scope) : Action → ActionFailure → Prop where
  | log {label level message cause} (h : message.resolve scope.context event = .error cause) :
    Refuses scope (.log label level message) (.resolution cause)
  | value {key provider cause} (h : provider.resolve scope.context event = .error cause) :
    Refuses scope (.assign key provider) (.resolution cause)
  | path {key provider value cause} (h : provider.resolve scope.context event = .ok value)
      (hset : scope.context.setPath key value = .error cause) :
    Refuses scope (.assign key provider) (.resolution cause)
  | policy {name data} (hpolicy : policy = .reject) :
    Refuses scope (.raise name data) (.raiseRejected name)
  | payload {name provider cause} (hpolicy : policy = .queue)
      (h : provider.resolve scope.context event = .error cause) :
    Refuses scope (.raise name (some provider)) (.resolution cause)

/-- Actions change a scope one after another. -/
inductive DoesAll : Scope → List Action → Scope → Prop where
  | nil {scope} : DoesAll scope [] scope
  | cons {scope action between rest after} (h : Does machine policy event scope action between)
      (hrest : DoesAll between rest after) : DoesAll scope (action :: rest) after

/-- An action has its whole effect on a scope or none. -/
structure Atomic (scope : Scope) (action : Action) : Prop where
  inPlace : action.carryOut machine policy event scope =
    match action.apply machine policy event scope with
    | .ok after => .ok () after
    | .error reason => .error reason scope
  succeeds : ∀ after, action.carryOut machine policy event scope = .ok () after ↔
    Does machine policy event scope action after
  fails : ∀ reason after, action.carryOut machine policy event scope = .error reason after ↔
    after = scope ∧ Refuses policy event scope action reason

end laws

variable {machine : String} {policy : RaisePolicy} {event : Option Event} {scope : Scope}

/-- An action has its effect or is refused. -/
theorem apply_cases (machine : String) (policy : RaisePolicy) (event : Option Event)
    (scope : Scope) (action : Action) :
    (∃ after, action.apply machine policy event scope = .ok after ∧
      Does machine policy event scope action after) ∨
    ∃ reason, action.apply machine policy event scope = .error reason ∧
      Refuses policy event scope action reason := by
  cases action with
  | log label level message =>
      rw [apply]
      cases hvalue : message.resolve scope.context event with
      | ok value => exact .inl ⟨_, rfl, .log hvalue⟩
      | error cause => exact .inr ⟨_, rfl, .log hvalue⟩
  | assign key provider =>
      rw [apply]
      cases hvalue : provider.resolve scope.context event with
      | error cause => exact .inr ⟨_, rfl, .value hvalue⟩
      | ok value =>
          simp only [Except.mapError, bind, Except.bind]
          cases hset : scope.context.setPath key value with
          | ok context => exact .inl ⟨_, rfl, .assign hvalue hset⟩
          | error cause => exact .inr ⟨_, rfl, .path hvalue hset⟩
  | raise name data =>
      rw [apply]
      cases policy with
      | reject => exact .inr ⟨_, rfl, .policy rfl⟩
      | queue =>
          cases data with
          | none => exact .inl ⟨_, rfl, .raise rfl⟩
          | some provider =>
              simp only [reduceCtorEq, if_false]
              cases hvalue : provider.resolve scope.context event with
              | ok value => exact .inl ⟨_, rfl, .raiseWith rfl hvalue⟩
              | error cause => exact .inr ⟨_, rfl, .payload rfl hvalue⟩

theorem Does.apply_eq {action : Action} {after : Scope}
    (h : Does machine policy event scope action after) :
    action.apply machine policy event scope = .ok after := by
  cases h with
  | log h => rw [apply, h]; rfl
  | assign h hset =>
      simp only [apply, h, Except.mapError, bind, Except.bind, hset]
      rfl
  | raise hpolicy => subst hpolicy; rfl
  | raiseWith hpolicy h =>
      subst hpolicy
      simp only [apply, h, reduceCtorEq, if_false]
      rfl

theorem Refuses.apply_eq {action : Action} {reason : ActionFailure}
    (h : Refuses policy event scope action reason) :
    action.apply machine policy event scope = .error reason := by
  cases h with
  | log h => rw [apply, h]; rfl
  | value h => rw [apply, h]; rfl
  | path h hset =>
      simp only [apply, h, Except.mapError, bind, Except.bind, hset]
  | policy hpolicy => subst hpolicy; rfl
  | payload hpolicy h =>
      subst hpolicy
      simp only [apply, h, reduceCtorEq, if_false]
      rfl

theorem apply_eq_ok_iff {action : Action} {after : Scope} :
    action.apply machine policy event scope = .ok after ↔
      Does machine policy event scope action after := by
  refine ⟨fun h => ?_, Does.apply_eq⟩
  rcases apply_cases machine policy event scope action with ⟨done, hdone, hdoes⟩ | ⟨_, herror, -⟩
  · obtain rfl : done = after := Except.ok.inj (hdone.symm.trans h)
    exact hdoes
  · rw [h] at herror
    cases herror

theorem apply_eq_error_iff {action : Action} {reason : ActionFailure} :
    action.apply machine policy event scope = .error reason ↔
      Refuses policy event scope action reason := by
  refine ⟨fun h => ?_, Refuses.apply_eq⟩
  rcases apply_cases machine policy event scope action with ⟨_, hdone, -⟩ | ⟨why, herror, hrefuses⟩
  · rw [h] at hdone
    cases hdone
  · obtain rfl : why = reason := Except.error.inj (herror.symm.trans h)
    exact hrefuses

/-- An action that fails leaves the scope as it was: it has only read from it, or the update of its
path has changed nothing. -/
theorem carryOut_eq (machine : String) (policy : RaisePolicy) (event : Option Event)
    (scope : Scope) (action : Action) : action.carryOut machine policy event scope =
      match action.apply machine policy event scope with
      | .ok after => .ok () after
      | .error reason => .error reason scope := by
  have hresolve (provider : Provider) : resolveIn provider event scope =
      match provider.resolve scope.context event with
      | .ok value => .ok value scope
      | .error cause => .error (.resolution cause) scope := rfl
  cases action with
  | log label level message =>
      simp only [carryOut, apply, bind, EStateM.bind, hresolve]
      cases message.resolve scope.context event <;> rfl
  | assign key provider =>
      simp only [carryOut, apply, bind, EStateM.bind, hresolve]
      cases provider.resolve scope.context event with
      | error cause => rfl
      | ok value =>
          simp only [updateIn, Except.mapError, Except.bind, Context.setPathInPlace_eq]
          cases scope.context.setPath key value <;> rfl
  | raise name data =>
      cases policy with
      | reject => rfl
      | queue =>
          cases data with
          | none => rfl
          | some provider =>
              simp only [carryOut, apply, reduceCtorEq, if_false, bind, EStateM.bind, hresolve]
              cases provider.resolve scope.context event <;> rfl

theorem atomic (machine : String) (policy : RaisePolicy) (event : Option Event) (scope : Scope)
    (action : Action) : Atomic machine policy event scope action where
  inPlace := carryOut_eq machine policy event scope action
  succeeds after := by
    rw [carryOut_eq, ← apply_eq_ok_iff]
    cases action.apply machine policy event scope <;> simp
  fails reason after := by
    have hrefused : action.apply machine policy event scope = .error reason ↔
        Refuses policy event scope action reason := apply_eq_error_iff
    rw [carryOut_eq, ← hrefused]
    cases action.apply machine policy event scope <;> simp [eq_comm, and_comm]

/-- Actions are run to the end, or up to the first that is refused by what the ones before it have
left. -/
theorem applyAll_cases (machine : String) (policy : RaisePolicy) (event : Option Event) :
    ∀ (actions : List Action) (scope : Scope),
    (∃ after, applyAll machine policy event actions scope = (after, none) ∧
      DoesAll machine policy event scope actions after) ∨
    ∃ done action rest reason after, actions = done ++ action :: rest ∧
      applyAll machine policy event actions scope = (after, some (action, reason)) ∧
      DoesAll machine policy event scope done after ∧ Refuses policy event after action reason
  | [], scope => .inl ⟨scope, rfl, .nil⟩
  | first :: more, scope => by
      rcases apply_cases machine policy event scope first with
        ⟨between, hfirst, hdoes⟩ | ⟨reason, hfirst, hrefuses⟩
      · rw [applyAll, hfirst]
        rcases applyAll_cases machine policy event more between with
          ⟨after, hmore, hall⟩ | ⟨done, action, rest, reason, after, rfl, hmore, hall, hrefuses⟩
        · exact .inl ⟨after, hmore, .cons hdoes hall⟩
        · exact .inr ⟨first :: done, action, rest, reason, after, rfl, hmore, .cons hdoes hall,
            hrefuses⟩
      · rw [applyAll, hfirst]
        exact .inr ⟨[], first, more, reason, scope, rfl, rfl, .nil, hrefuses⟩

end Action

namespace Step

/-- What the actions of a step act on. -/
def scope (s : Step) : Scope := ⟨s.machine.context, s.raised, []⟩

/-- A step whose actions have left a scope. -/
def withScope (s : Step) (scope : Scope) : Step :=
  ⟨{ s.machine with
      context := scope.context, trace := s.machine.trace ++ scope.logs.map Effect.logged },
    scope.raised⟩

/-- Runs an action on a step itself. -/
def carryOut (cause : Cause) (action : Action) : EStateM MachineError Step Unit := fun s =>
  match action.carryOut s.machine.chart.id s.machine.settings.raisePolicy cause.event s.scope with
  | .ok () after => .ok () (s.withScope after)
  | .error reason after =>
    .error (.actionExecution action.describe cause.source cause.target reason) (s.withScope after)

section upTo
variable (cause : Cause) (s : Step)

/-- Actions have been run: all of them, or those before the first that is refused, which the error
names. -/
inductive RunsUpTo (actions : List Action) : Attempt → Prop where
  | whole {after}
      (h : Action.DoesAll s.machine.chart.id s.machine.settings.raisePolicy cause.event s.scope
        actions after) :
    RunsUpTo actions (s.withScope after, .ok ())
  | first {done action rest reason after} (hsplit : actions = done ++ action :: rest)
      (h : Action.DoesAll s.machine.chart.id s.machine.settings.raisePolicy cause.event s.scope done
        after)
      (hrefuses : Action.Refuses s.machine.settings.raisePolicy cause.event after action reason) :
    RunsUpTo actions
      (s.withScope after,
        .error (.actionExecution action.describe cause.source cause.target reason))

end upTo

variable {cause : Cause} {s u : Step}

theorem carryOut_eq (cause : Cause) (occasion : Occasion) (action : Action) (s : Step) :
    carryOut cause action s =
      match perform cause s (.act occasion action) with
      | .ok u => .ok () u
      | .error e => .error e s := by
  have hkeep : s.withScope s.scope = s := by
    simp [withScope, scope]
  have hperform : perform cause s (.act occasion action) =
      match action.apply s.machine.chart.id s.machine.settings.raisePolicy cause.event s.scope with
      | .ok after => .ok (s.withScope after)
      | .error reason =>
        .error (.actionExecution action.describe cause.source cause.target reason) := rfl
  rw [hperform, carryOut, Action.carryOut_eq]
  cases action.apply s.machine.chart.id s.machine.settings.raisePolicy cause.event s.scope with
  | ok after => rfl
  | error reason => exact congrArg _ hkeep

/-- Running actions on a step itself comes to the same. -/
theorem forM_carryOut (cause : Cause) : ∀ (actions : List Action) (s : Step),
    actions.forM (carryOut cause) s =
      match s.runActions cause actions with
      | (u, .ok ()) => .ok () u
      | (u, .error e) => .error e u
  | [], s => by
      rw [runActions_nil]
      rfl
  | action :: rest, s => by
      have hforM : (action :: rest).forM (carryOut cause) =
          EStateM.bind (carryOut cause action) fun _ => rest.forM (carryOut cause) := rfl
      rw [runActions_cons cause .transition, hforM, EStateM.bind, carryOut_eq cause .transition]
      cases perform cause s (.act .transition action) with
      | error e => rfl
      | ok u => exact forM_carryOut cause rest u

theorem runActions_upTo (cause : Cause) (actions : List Action) (s : Step) :
    RunsUpTo cause s actions (s.runActions cause actions) := by
  have hrun : s.runActions cause actions =
      match Action.applyAll s.machine.chart.id s.machine.settings.raisePolicy cause.event actions
        s.scope with
      | (after, none) => (s.withScope after, .ok ())
      | (after, some (action, reason)) => (s.withScope after,
          .error (.actionExecution action.describe cause.source cause.target reason)) := by
    rw [runActions, ← scope]
    rcases Action.applyAll s.machine.chart.id s.machine.settings.raisePolicy cause.event actions
      s.scope with ⟨after, _ | ⟨action, reason⟩⟩ <;> rfl
  rw [hrun]
  rcases Action.applyAll_cases s.machine.chart.id s.machine.settings.raisePolicy cause.event actions
    s.scope with ⟨after, hall, hdoes⟩ | ⟨done, action, rest, reason, after, hsplit, hall, hdoes, h⟩
  · rw [hall]
    exact .whole hdoes
  · rw [hall]
    exact .first hsplit hdoes h

/-- An action has its whole effect or none, also when it is run on the scope itself, and a list of
actions has the effects of those before the first that fails. -/
theorem actions_atomic :
    (∀ machine policy event scope action, Action.Atomic machine policy event scope action) ∧
      ∀ cause actions s, RunsUpTo cause s actions (s.runActions cause actions) ∧
        actions.forM (carryOut cause) s =
          match s.runActions cause actions with
          | (u, .ok ()) => .ok () u
          | (u, .error e) => .error e u :=
  ⟨Action.atomic, fun cause actions s =>
    ⟨runActions_upTo cause actions s, forM_carryOut cause actions s⟩⟩

end Step

end Statechart
