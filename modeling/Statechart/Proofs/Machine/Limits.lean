import Statechart.Proofs.Machine.Trail

/-!
# Changing the limit of a run

How many events one run may process is looked at between microsteps only. So every part of a
microstep commutes with a change of the limit, and a run that has not been ended by its limit takes
the same course under a higher one.
-/
namespace Statechart

/-- A machine with another limit. -/
def Machine.limited (limit : Nat) (m : Machine) : Machine :=
  { m with
    setup := { m.setup with settings := { m.setup.settings with maxMicrosteps := limit } } }

def Step.limited (limit : Nat) (s : Step) : Step := s.update (·.limited limit)

def Attempt.limited (limit : Nat) (a : Attempt) : Attempt := (a.1.limited limit, a.2)

def Machine.Run.limited {α : Type} (limit : Nat) (r : Machine.Run α) : Machine.Run α :=
  ⟨r.machine.limited limit, r.diagnostics, r.result⟩

namespace Machine

variable (limit : Nat) (m : Machine)

theorem startInvocation_limited (i : Nat) :
    (m.limited limit).startInvocation i = (m.startInvocation i).limited limit := by
  cases hv : (m.chart.state i).invoke with
  | none =>
      have hv' : ((m.limited limit).chart.state i).invoke = none := hv
      rw [startInvocation_of_none hv, startInvocation_of_none hv']
  | some v =>
      have hv' : ((m.limited limit).chart.state i).invoke = some v := hv
      have hinput : v.inputIn (m.limited limit).context = v.inputIn m.context := rfl
      rw [startInvocation_eq hv, startInvocation_eq hv']
      dsimp only
      rw [hinput]
      cases v.inputIn m.context with
      | error e => rfl
      | ok input =>
          dsimp only [Machine.limited]
          cases m.setup.answer ⟨⟨v.id, m.generation + 1⟩, m.chart.id, v.src, input⟩ <;> rfl

theorem startInvocations_limited (states : List Nat) : ∀ m : Machine,
    (m.limited limit).startInvocations states = (m.startInvocations states).limited limit := by
  induction states with
  | nil => exact fun _ => rfl
  | cons i rest ih =>
      intro m
      rw [startInvocations, List.foldl_cons, startInvocation_limited]
      exact ih _

theorem leave_limited (i : Nat) : (m.limited limit).leave i = (m.leave i).limited limit := by
  have hstop : (m.limited limit).stopInvocation i = (m.stopInvocation i).limited limit := by
    have hinvoke : ((m.limited limit).chart.state i).invoke = (m.chart.state i).invoke := rfl
    have hheld : (m.limited limit).invocations = m.invocations := rfl
    unfold stopInvocation
    rw [hinvoke, hheld]
    split
    · rfl
    · split <;> rfl
  rw [leave, hstop]
  rfl

end Machine

namespace Step
open Machine

variable (limit : Nat) {cause : Cause}

/-- Going on with an attempt commutes with a change of the limit if what comes next does. -/
theorem andThen_limited (a : Attempt) {next : Step → Attempt}
    (hnext : ∀ s : Step, next (s.limited limit) = (next s).limited limit) :
    (a.limited limit).andThen next = (a.andThen next).limited limit := by
  obtain ⟨s, e | ⟨⟩⟩ := a
  · rfl
  · exact hnext s

theorem runActions_limited (actions : List Action) (s : Step) :
    (s.limited limit).runActions cause actions = (s.runActions cause actions).limited limit := by
  unfold runActions
  dsimp only [Step.limited, Step.update, Machine.limited, Machine.settings]
  split <;> rfl

theorem exitInnermost_limited (s : Step) :
    (s.limited limit).exitInnermost cause = (s.exitInnermost cause).limited limit := by
  have hleaf : (s.limited limit).machine.leaf? = s.machine.leaf? := rfl
  unfold exitInnermost
  rw [hleaf]
  cases s.machine.leaf? with
  | none => rfl
  | some i =>
      have hstate : (s.limited limit).machine.chart.state i = s.machine.chart.state i := rfl
      dsimp only
      rw [hstate, runActions_limited]
      refine andThen_limited limit _ fun t => ?_
      exact congrArg (fun m => ((⟨m, t.raised⟩, .ok ()) : Attempt))
        (leave_limited limit t.machine i)

theorem exitMany_limited (n : Nat) : ∀ s : Step,
    (s.limited limit).exitMany cause n = (s.exitMany cause n).limited limit := by
  induction n with
  | zero => exact fun _ => rfl
  | succ n ih =>
      intro s
      rw [exitMany, exitMany, exitInnermost_limited]
      exact andThen_limited limit _ ih

theorem activateAll_limited : ∀ (states : List Nat) (s : Step),
    activateAll cause states (s.limited limit) =
      ((activateAll cause states s).1.limited limit, (activateAll cause states s).2)
  | [], s => rfl
  | i :: rest, s => by
      have hactive : (s.limited limit).update (·.activate i) =
          (s.update (·.activate i)).limited limit := rfl
      have hstate : ((s.update (·.activate i)).limited limit).machine.chart.state i =
          (s.update (·.activate i)).machine.chart.state i := rfl
      rw [activateAll, activateAll]
      dsimp only
      rw [hactive, runActions_limited, hstate]
      cases hrun : (s.update (·.activate i)).runActions cause
          ((s.update (·.activate i)).machine.chart.state i).entry with
      | mk t result =>
        cases result with
        | error e => rfl
        | ok _ =>
            dsimp only [Attempt.limited]
            rw [activateAll_limited rest t]
            rfl

theorem enter_limited (states : List Nat) (s : Step) :
    (s.limited limit).enter cause states = (s.enter cause states).limited limit := by
  unfold enter
  rw [activateAll_limited]
  dsimp only [Attempt.limited, Step.limited, Step.update]
  rw [startInvocations_limited]

theorem execute_limited (t : Transition) (event : Event) (s : Step) :
    (s.limited limit).execute t event = (s.execute t event).limited limit := by
  have hchart : (s.limited limit).machine.chart = s.machine.chart := rfl
  cases htarget : t.target with
  | none =>
      unfold execute
      simp only [htarget, hchart]
      rw [runActions_limited]
      exact andThen_limited limit _ fun _ => rfl
  | some target =>
      have hlength : (s.limited limit).machine.configuration.length =
          s.machine.configuration.length := rfl
      have hmove : move t event target (s.limited limit) =
          (move t event target s).limited limit := by
        unfold move
        dsimp only
        rw [hchart, hlength, exitMany_limited, andThen_limited limit _ fun _ =>
          runActions_limited limit t.actions _]
        exact andThen_limited limit _ (enter_limited limit _)
      rw [execute_of_some htarget, execute_of_some htarget, hmove, hchart]
      exact andThen_limited limit _ fun _ => rfl

end Step

namespace Machine

variable (limit : Nat)

theorem choose_limited (m : Machine) (event : Event) : ∀ list : List Transition,
    (m.limited limit).choose event list = m.choose event list
  | [] => rfl
  | t :: rest => by
      have hpasses : Guard.passes (m.limited limit).setup.predicates (m.limited limit).context
          (some event) t.guard =
            Guard.passes m.setup.predicates m.context (some event) t.guard := rfl
      have hpolicy : (m.limited limit).settings.guardErrors = m.settings.guardErrors := rfl
      rw [choose, choose, choose_limited m event rest, hpasses, hpolicy]
      rfl

theorem microstep_limited (m : Machine) (event : Event) :
    (m.limited limit).microstep event = (m.microstep event).limited limit := by
  have hselect : (m.limited limit).select event = m.select event := choose_limited limit m event _
  have hstep : (⟨m.limited limit, []⟩ : Step) = Step.limited limit ⟨m, []⟩ := rfl
  unfold microstep
  rw [hselect]
  rcases m.select event with ⟨e | ⟨_ | t⟩, diagnostics⟩
  · rfl
  · rfl
  · dsimp only
    rw [hstep, Step.execute_limited]
    rcases Step.execute t event ⟨m, []⟩ with ⟨s, e | ⟨⟩⟩ <;> rfl

/-- A drain that has not been ended by its budget goes the same way with a bigger one. -/
theorem drain_limited {budget budget' : Nat} (hle : budget ≤ budget') :
    ∀ (m : Machine) (queue : List Event),
    (∀ n, (m.drain budget queue).result ≠ .error (.microstepLimit n)) →
    (m.limited limit).drain budget' queue = (m.drain budget queue).limited limit := by
  induction budget generalizing budget' with
  | zero =>
      intro m queue hends
      cases queue with
      | nil => cases budget' <;> rfl
      | cons event queue => exact absurd rfl (hends _)
  | succ budget ih =>
      obtain ⟨budget', rfl⟩ := Nat.exists_eq_add_of_le' (Nat.one_le_of_lt hle)
      intro m queue hends
      cases queue with
      | nil => rfl
      | cons event queue =>
          simp only [drain] at hends ⊢
          rw [microstep_limited]
          rcases hrun : m.microstep event with ⟨m', diagnostics, e | ⟨handled, raised⟩⟩
          · rfl
          · simp only [hrun] at hends
            have hrest : ∀ n, (m'.drain budget (queue ++ raised)).result ≠
                .error (.microstepLimit n) := fun n hlimit => hends n (by rw [hlimit]; rfl)
            simp only [Run.limited]
            rw [ih (Nat.le_of_succ_le_succ hle) m' (queue ++ raised) hrest]
            rfl

/-- A run that has not been ended by its limit is the same under a higher one. -/
theorem runEvents_limited {m : Machine} {queue : List Event}
    (hle : m.settings.maxMicrosteps ≤ limit)
    (hends : ∀ n, (m.runEvents queue).result ≠ .error (.microstepLimit n)) :
    (m.limited limit).runEvents queue = (m.runEvents queue).limited limit :=
  drain_limited limit hle m queue hends

end Machine

end Statechart
