import Mathlib.Data.Seq.Basic
import Statechart.Proofs.Machine.Execution
import Statechart.Proofs.Machine.Lasting
import Statechart.Proofs.Machine.Limits
import Statechart.Proofs.Machine.Refusals

/-!
# Running to completion

The events of a run to completion are those of one sequence, which may be infinite: it begins with
the queue of the run and goes on with what its own events raise, in the order in which they are
raised. A run processes the sequence from its beginning, to its end if it has one, or up to the
first event whose microstep fails, or up to the limit. What it has not processed by then is lost.
-/
namespace Statechart.Machine
open Step

/-- The events that the processing of an event raises, none when it fails. -/
def raisedBy (m : Machine) (event : Event) : List Event :=
  match (m.microstep event).result with
  | .ok (_, raised) => raised
  | .error _ => []

/-- The machine after the processing of events, one after another. -/
def stepped (m : Machine) (events : List Event) : Machine :=
  events.foldl (fun m event => (m.microstep event).machine) m

/-- The events that the processing of events, one after another, raises. -/
def raisedAll (m : Machine) : List Event → List Event
  | [] => []
  | event :: rest => m.raisedBy event ++ (m.microstep event).machine.raisedAll rest

/-- A sequence begins with a queue and goes on with what its own events raise: each event comes
from the queue or is raised by one before it. -/
def Unrolls (m : Machine) (queue : List Event) (events : Stream'.Seq Event) : Prop :=
  ∀ n, events.get? n = (queue ++ m.raisedAll (events.take n))[n]?

/-- The sequence of events that a queue leads to. -/
def unrolled (m : Machine) (queue : List Event) : Stream'.Seq Event :=
  .corec (fun (m, queue) =>
    match queue with
    | [] => none
    | event :: rest => some (event, (m.microstep event).machine, rest ++ m.raisedBy event))
    (m, queue)

/-- The microstep that processes an event fails. -/
def Aborts (p : Machine × Event) : Prop := ∃ e, (p.1.microstep p.2).result = .error e

/-- Whether a transition is selected for an event. -/
def selects (p : Machine × Event) : Bool :=
  match (p.1.select p.2).1 with
  | .ok (some _) => true
  | _ => false

variable {m₀ m : Machine} {event : Event} {queue : List Event}

theorem unrolled_nil (m : Machine) : m.unrolled [] = .nil :=
  Stream'.Seq.corec_nil _ _ rfl

theorem unrolled_cons (m : Machine) (event : Event) (queue : List Event) :
    m.unrolled (event :: queue) =
      .cons event ((m.microstep event).machine.unrolled (queue ++ m.raisedBy event)) :=
  Stream'.Seq.corec_cons rfl

theorem unrolls_nil_iff {events : Stream'.Seq Event} : m.Unrolls [] events ↔ events = .nil := by
  constructor
  · intro h
    have hfirst := h 0
    rw [Stream'.Seq.take_zero] at hfirst
    exact Stream'.Seq.get?_zero_eq_none.mp hfirst
  · rintro rfl n
    simp [raisedAll]

/-- The first event comes from the queue; the others unroll from the rest of the queue with what
the first one raises. -/
theorem unrolls_cons_iff {events : Stream'.Seq Event} : m.Unrolls (event :: queue) events ↔
    ∃ rest, events = .cons event rest ∧
      (m.microstep event).machine.Unrolls (queue ++ m.raisedBy event) rest := by
  have hlater (rest : Stream'.Seq Event) (n : Nat) :
      (event :: queue ++ m.raisedAll ((Stream'.Seq.cons event rest).take (n + 1)))[n + 1]? =
        (queue ++ m.raisedBy event ++
          (m.microstep event).machine.raisedAll (rest.take n))[n]? := by
    rw [Stream'.Seq.take_succ_cons, raisedAll, List.cons_append, List.getElem?_cons_succ,
      List.append_assoc]
  constructor
  · intro h
    have hfirst : events.head = some event := h 0
    have hsplit := Stream'.Seq.head_eq_some hfirst
    refine ⟨events.tail, hsplit, fun n => ?_⟩
    have hnext := h (n + 1)
    rw [hsplit, hlater, Stream'.Seq.get?_cons_succ] at hnext
    exact hnext
  · rintro ⟨rest, rfl, h⟩ n
    cases n with
    | zero => simp
    | succ n => rw [hlater, Stream'.Seq.get?_cons_succ, h n]

theorem unrolls_unrolled (m : Machine) (queue : List Event) :
    m.Unrolls queue (m.unrolled queue) := by
  intro n
  induction n generalizing m queue with
  | zero =>
      cases queue with
      | nil => simp [unrolled_nil, raisedAll]
      | cons event queue => simp [unrolled_cons]
  | succ n ih =>
      cases queue with
      | nil => simp [unrolled_nil, raisedAll]
      | cons event queue =>
          rw [unrolled_cons, Stream'.Seq.get?_cons_succ, ih, Stream'.Seq.take_succ_cons, raisedAll,
            List.cons_append, List.getElem?_cons_succ, List.append_assoc]

/-- A machine and a queue determine the whole sequence. -/
theorem unrolls_iff {events : Stream'.Seq Event} :
    m.Unrolls queue events ↔ events = m.unrolled queue := by
  constructor
  · intro h
    apply Stream'.Seq.ext
    intro n
    induction n generalizing m queue events with
    | zero =>
        rw [h 0, unrolls_unrolled m queue 0]
        simp
    | succ n ih =>
        cases queue with
        | nil => rw [unrolls_nil_iff.mp h, unrolled_nil]
        | cons event queue =>
            obtain ⟨rest, rfl, hrest⟩ := unrolls_cons_iff.mp h
            rw [unrolled_cons, Stream'.Seq.get?_cons_succ, Stream'.Seq.get?_cons_succ, ih hrest]
  · rintro rfl
    exact unrolls_unrolled m queue

/-- A sequence that ends is the queue followed by what its events raise. -/
theorem take_unrolled_of_terminatedAt (n : Nat) : ∀ (m : Machine) (queue : List Event),
    (m.unrolled queue).TerminatedAt n →
    (m.unrolled queue).take n = queue ++ m.raisedAll ((m.unrolled queue).take n) := by
  induction n with
  | zero =>
      intro m queue h
      cases queue with
      | nil => simp [raisedAll]
      | cons event queue => simp [unrolled_cons] at h
  | succ n ih =>
      intro m queue h
      cases queue with
      | nil => simp [unrolled_nil, raisedAll]
      | cons event queue =>
          rw [unrolled_cons, Stream'.Seq.cons_terminatedAt_succ_iff] at h
          rw [unrolled_cons, Stream'.Seq.take_succ_cons, raisedAll, List.cons_append,
            ← List.append_assoc, ← ih _ _ h]

/-- The sequence comes first in every list that is a queue followed by what its events raise. -/
theorem take_unrolled_least (n : Nat) : ∀ (m : Machine) (queue events : List Event),
    events = queue ++ m.raisedAll events → (m.unrolled queue).take n <+: events := by
  induction n with
  | zero => simp
  | succ n ih =>
      intro m queue events h
      cases queue with
      | nil => simp [unrolled_nil]
      | cons event queue =>
          obtain ⟨rest, rfl⟩ : ∃ rest, events = event :: rest := ⟨_, h⟩
          rw [raisedAll, List.cons_append, ← List.append_assoc, List.cons.injEq] at h
          rw [unrolled_cons, Stream'.Seq.take_succ_cons, List.cons_prefix_cons]
          exact ⟨rfl, ih _ _ rest h.2⟩

/-! ## Draining -/

theorem settings_lasting : Lasting fun m m' => m'.settings = m.settings where
  refl _ := rfl
  trans h h' := h'.trans h
  act _ _ _ := rfl
  leave m i := by
    unfold leave stopInvocation
    split
    · rfl
    · split <;> rfl
  activate _ _ := rfl
  startInvocation m i := by
    cases hv : (m.chart.state i).invoke with
    | none => rw [startInvocation_of_none hv]
    | some v =>
        rw [startInvocation_eq hv]
        dsimp only
        split
        · split <;> rfl
        · rfl
  accept _ _ := rfl
  revokeAll _ := rfl
  become _ _ := rfl
  adopt _ _ := rfl
  queue _ _ _ := rfl
  attend _ _ := rfl

/-- A microstep that does not fail tells whether a transition has been selected. -/
theorem microstep_goes (h : ¬ Aborts (m, event)) :
    (m.microstep event).result = .ok (selects (m, event), m.raisedBy event) := by
  have hselects : ∀ handled raised, (m.microstep event).result = .ok (handled, raised) →
      handled = selects (m, event) := by
    unfold microstep selects
    intro handled raised hresult
    rcases hselect : m.select event with ⟨e | ⟨_ | t⟩, diagnostics⟩
    · simp [hselect] at hresult
    · simp [hselect] at hresult
      simp [hresult]
    · simp only [hselect] at hresult
      split at hresult
      · simp at hresult
        simp [hresult]
      · cases hresult
  cases hresult : (m.microstep event).result with
  | error e => exact absurd ⟨e, hresult⟩ h
  | ok r => rw [raisedBy, hresult, ← hselects r.1 r.2 hresult]

/-- A drain has nothing to do, is out of budget, or processes an event, which fails or not. -/
theorem drain_induction {motive : Nat → Machine → List Event → Prop}
    (done : ∀ budget m, motive budget m [])
    (limit : ∀ m event queue, motive 0 m (event :: queue))
    (aborts : ∀ budget m event queue, Aborts (m, event) → motive (budget + 1) m (event :: queue))
    (goes : ∀ budget m event queue, ¬ Aborts (m, event) →
      motive budget (m.microstep event).machine (queue ++ m.raisedBy event) →
      motive (budget + 1) m (event :: queue))
    (budget : Nat) (m : Machine) (queue : List Event) : motive budget m queue := by
  induction budget generalizing m queue with
  | zero =>
      cases queue with
      | nil => exact done 0 m
      | cons event queue => exact limit m event queue
  | succ budget ih =>
      cases queue with
      | nil => exact done (budget + 1) m
      | cons event queue =>
          by_cases h : Aborts (m, event)
          · exact aborts budget m event queue h
          · exact goes budget m event queue h (ih _ _)

section drain
variable (budget : Nat) (queue : List Event)

@[simp] theorem drainSteps_nil (m : Machine) : m.drainSteps budget [] = [] := by
  cases budget <;> rfl

@[simp] theorem drain_nil (m : Machine) : m.drain budget [] = ⟨m, [], .ok []⟩ := by
  cases budget <;> rfl

theorem drainSteps_aborts (h : Aborts (m, event)) :
    m.drainSteps (budget + 1) (event :: queue) = [(m, event)] := by
  obtain ⟨e, he⟩ := h
  rw [drainSteps]
  rcases hrun : m.microstep event with ⟨m', diagnostics, _ | _⟩
  · rfl
  · simp [hrun] at he

theorem drain_aborts {e : MachineError} (h : (m.microstep event).result = .error e) :
    m.drain (budget + 1) (event :: queue) =
      ⟨(m.microstep event).machine, (m.microstep event).diagnostics, .error e⟩ := by
  rw [drain]
  rcases hrun : m.microstep event with ⟨m', diagnostics, _ | _⟩
  · simpa [hrun] using h
  · simp [hrun] at h

theorem drainSteps_goes (h : ¬ Aborts (m, event)) :
    m.drainSteps (budget + 1) (event :: queue) = (m, event) ::
      (m.microstep event).machine.drainSteps budget (queue ++ m.raisedBy event) := by
  have hresult := microstep_goes h
  rw [drainSteps]
  rcases hrun : m.microstep event with ⟨m', diagnostics, _ | ⟨handled, raised⟩⟩
  · simp [hrun] at hresult
  · simp only [hrun, Except.ok.injEq, Prod.mk.injEq] at hresult
    simp [hresult.2]

theorem drain_goes (h : ¬ Aborts (m, event)) : m.drain (budget + 1) (event :: queue) =
    let rest := (m.microstep event).machine.drain budget (queue ++ m.raisedBy event)
    ⟨rest.machine, (m.microstep event).diagnostics ++ rest.diagnostics,
      rest.result.map (selects (m, event) :: ·)⟩ := by
  have hresult := microstep_goes h
  rw [drain]
  rcases hrun : m.microstep event with ⟨m', diagnostics, _ | ⟨handled, raised⟩⟩
  · simp [hrun] at hresult
  · simp only [hrun, Except.ok.injEq, Prod.mk.injEq] at hresult
    simp [hresult.1, hresult.2]

end drain

/-- The events that are processed come first in the sequence. -/
theorem drainSteps_unrolled (budget : Nat) (m : Machine) (queue : List Event) :
    (m.drainSteps budget queue).map (·.2) =
      (m.unrolled queue).take (m.drainSteps budget queue).length := by
  induction budget, m, queue using drain_induction with
  | done => simp
  | limit => simp [drainSteps]
  | aborts budget m event queue h => simp [drainSteps_aborts budget queue h, unrolled_cons]
  | goes budget m event queue h ih => simp [drainSteps_goes budget queue h, unrolled_cons, ih]

theorem length_drainSteps_le (budget : Nat) (m : Machine) (queue : List Event) :
    (m.drainSteps budget queue).length ≤ budget := by
  induction budget, m, queue using drain_induction with
  | done => simp
  | limit => simp [drainSteps]
  | aborts budget m event queue h => simp [drainSteps_aborts budget queue h]
  | goes budget m event queue h ih => simpa [drainSteps_goes budget queue h] using ih

/-- Each event is processed by the machine that the events before it have left. -/
theorem drainSteps_stepped (budget : Nat) (m : Machine) (queue : List Event) :
    ∀ n p, (m.drainSteps budget queue)[n]? = some p →
      p.1 = m.stepped ((m.unrolled queue).take n) := by
  induction budget, m, queue using drain_induction with
  | done => simp
  | limit => simp [drainSteps]
  | aborts budget m event queue h =>
      intro n p hp
      rw [drainSteps_aborts budget queue h, List.getElem?_singleton] at hp
      split at hp
      · next hn =>
          cases hp
          rw [hn]
          rfl
      · cases hp
  | goes budget m event queue h ih =>
      intro n p hp
      rw [drainSteps_goes budget queue h] at hp
      cases n with
      | zero =>
          cases hp
          rfl
      | succ n =>
          rw [unrolled_cons, Stream'.Seq.take_succ_cons]
          exact ih n p hp

/-- Nothing is processed after an event that has failed. -/
theorem drainSteps_last (budget : Nat) (m : Machine) (queue : List Event) :
    ∀ n p, (m.drainSteps budget queue)[n]? = some p → Aborts p →
      n + 1 = (m.drainSteps budget queue).length := by
  induction budget, m, queue using drain_induction with
  | done => simp
  | limit => simp [drainSteps]
  | aborts budget m event queue h =>
      intro n p hp _
      rw [drainSteps_aborts budget queue h, List.getElem?_singleton] at hp
      split at hp
      · next hn => simp [drainSteps_aborts budget queue h, hn]
      · cases hp
  | goes budget m event queue h ih =>
      intro n p hp haborts
      rw [drainSteps_goes budget queue h] at hp ⊢
      cases n with
      | zero =>
          cases hp
          exact absurd haborts h
      | succ n =>
          rw [List.length_cons, ih n p hp haborts]

/-- A drain leaves the machine as the events that it has processed have left it. -/
theorem drain_stepped (budget : Nat) (m : Machine) (queue : List Event) :
    (m.drain budget queue).machine =
      m.stepped ((m.drainSteps budget queue).map (·.2)) := by
  induction budget, m, queue using drain_induction with
  | done => simp [stepped]
  | limit => simp [drain, drainSteps, stepped]
  | aborts budget m event queue h =>
      rw [drainSteps_aborts budget queue h]
      obtain ⟨e, he⟩ := h
      rw [drain_aborts budget queue he]
      rfl
  | goes budget m event queue h ih =>
      rw [drainSteps_goes budget queue h, drain_goes budget queue h]
      exact ih

/-- How a drain ends. -/
inductive Drained (budget : Nat) (m : Machine) (queue : List Event) :
    Except MachineError (List Bool) → Prop where
  | whole (hgoes : ∀ p ∈ m.drainSteps budget queue, ¬ Aborts p)
      (hends : (m.unrolled queue).TerminatedAt (m.drainSteps budget queue).length) :
    Drained budget m queue (.ok ((m.drainSteps budget queue).map selects))
  | aborted {p e} (hlast : (m.drainSteps budget queue).getLast? = some p)
      (hfails : (p.1.microstep p.2).result = .error e) : Drained budget m queue (.error e)
  | limited (hgoes : ∀ p ∈ m.drainSteps budget queue, ¬ Aborts p)
      (hlength : (m.drainSteps budget queue).length = budget)
      (hmore : ¬ (m.unrolled queue).TerminatedAt budget) :
    Drained budget m queue (.error (.microstepLimit m.settings.maxMicrosteps))

theorem drain_drained (budget : Nat) (m : Machine) (queue : List Event) :
    Drained budget m queue (m.drain budget queue).result := by
  induction budget, m, queue using drain_induction with
  | done budget m =>
      have hwhole : Drained budget m [] (.ok ((m.drainSteps budget []).map selects)) :=
        .whole (by simp) (by rw [unrolled_nil]; exact Stream'.Seq.terminatedAt_nil)
      simpa using hwhole
  | limit m event queue =>
      exact .limited (by simp [drainSteps]) rfl (by simp [unrolled_cons])
  | aborts budget m event queue h =>
      obtain ⟨e, he⟩ := h
      rw [drain_aborts budget queue he]
      exact .aborted (p := (m, event)) (by rw [drainSteps_aborts budget queue ⟨e, he⟩]; rfl) he
  | goes budget m event queue h ih =>
      have hsteps := drainSteps_goes budget queue h
      rw [drain_goes budget queue h]
      dsimp only
      generalize ((m.microstep event).machine.drain budget
        (queue ++ m.raisedBy event)).result = result at ih ⊢
      cases ih with
      | whole hgoes hends =>
          have hwhole : Drained (budget + 1) m (event :: queue)
              (.ok ((m.drainSteps (budget + 1) (event :: queue)).map selects)) := by
            refine .whole ?_ ?_
            · rw [hsteps]
              simpa using ⟨h, fun u e => hgoes (u, e)⟩
            · rw [hsteps, unrolled_cons]
              exact hends
          rwa [hsteps] at hwhole
      | aborted hlast hfails =>
          refine .aborted ?_ hfails
          rw [hsteps, List.getLast?_cons, hlast]
          rfl
      | limited hgoes hlength hmore =>
          have hsettings : (m.microstep event).machine.settings = m.settings :=
            settings_lasting.microstep m event
          rw [hsettings]
          refine .limited ?_ ?_ ?_
          · rw [hsteps]
            simpa using ⟨h, fun u e => hgoes (u, e)⟩
          · rw [hsteps, List.length_cons, hlength]
          · rw [unrolled_cons]
            exact hmore

/-- The course of a run to completion and its result. -/
structure Completes (m : Machine) (queue : List Event) : Prop where
  /-- There is one sequence that begins with the queue and goes on with what its events raise. -/
  unique : ∀ events, m.Unrolls queue events ↔ events = m.unrolled queue
  /-- If it ends, it is the queue followed by all that its events raise. -/
  closed : ∀ n, (m.unrolled queue).TerminatedAt n →
    (m.unrolled queue).take n = queue ++ m.raisedAll ((m.unrolled queue).take n)
  /-- It comes first in every list that is the queue followed by all that the list raises. -/
  least : ∀ events, events = queue ++ m.raisedAll events →
    ∀ n, (m.unrolled queue).take n <+: events
  /-- The run processes the sequence from its beginning. -/
  processed : (m.runSteps queue).map (·.2) = (m.unrolled queue).take (m.runSteps queue).length
  /-- Each event is processed by the machine that the events before it have left. -/
  stepped : ∀ n p, (m.runSteps queue)[n]? = some p →
    p.1 = m.stepped ((m.unrolled queue).take n)
  bound : (m.runSteps queue).length ≤ m.settings.maxMicrosteps
  /-- Nothing is processed after an event that has failed. -/
  last : ∀ n p, (m.runSteps queue)[n]? = some p → Aborts p → n + 1 = (m.runSteps queue).length
  /-- The run leaves the machine as the events that it has processed have left it. -/
  machine : (m.runEvents queue).machine = m.stepped ((m.runSteps queue).map (·.2))
  /-- It succeeds exactly when the sequence has been processed to its end and no event has
  failed. -/
  ok : ∀ handled, (m.runEvents queue).result = .ok handled ↔
    (∀ p ∈ m.runSteps queue, ¬ Aborts p) ∧
      (m.unrolled queue).TerminatedAt (m.runSteps queue).length ∧
      handled = (m.runSteps queue).map selects
  /-- It is ended by the limit exactly when so many events have been processed, none has failed and
  there is one more. -/
  limit : ∀ n, (m.runEvents queue).result = .error (.microstepLimit n) ↔
    n = m.settings.maxMicrosteps ∧ (m.runSteps queue).length = m.settings.maxMicrosteps ∧
      (∀ p ∈ m.runSteps queue, ¬ Aborts p) ∧
      ¬ (m.unrolled queue).TerminatedAt m.settings.maxMicrosteps
  /-- Every other failure is that of the last event that has been processed. -/
  error : ∀ e, (∀ n, e ≠ .microstepLimit n) → ((m.runEvents queue).result = .error e ↔
    ∃ p, (m.runSteps queue).getLast? = some p ∧ (p.1.microstep p.2).result = .error e)
  /-- A higher limit makes no difference to a run that has not been ended by its limit. -/
  higher : ∀ limit, m.settings.maxMicrosteps ≤ limit →
    (∀ n, (m.runEvents queue).result ≠ .error (.microstepLimit n)) →
    (m.limited limit).runEvents queue = (m.runEvents queue).limited limit

theorem runEvents_drained (m : Machine) (queue : List Event) :
    Drained m.settings.maxMicrosteps m queue (m.runEvents queue).result :=
  drain_drained m.settings.maxMicrosteps m queue

theorem runEvents_ok_iff {handled : List Bool} : (m.runEvents queue).result = .ok handled ↔
    (∀ p ∈ m.runSteps queue, ¬ Aborts p) ∧
      (m.unrolled queue).TerminatedAt (m.runSteps queue).length ∧
      handled = (m.runSteps queue).map selects := by
  have hdrained := runEvents_drained m queue
  rw [runSteps]
  generalize (m.runEvents queue).result = result at hdrained ⊢
  cases hdrained with
  | whole hgoes hends =>
      simp only [Except.ok.injEq]
      exact ⟨fun h => ⟨hgoes, hends, h.symm⟩, fun h => h.2.2.symm⟩
  | @aborted p e hlast hfails =>
      exact iff_of_false (by simp) fun h => h.1 p (List.mem_of_getLast? hlast) ⟨e, hfails⟩
  | limited hgoes hlength hmore =>
      exact iff_of_false (by simp) fun h => hmore (hlength ▸ h.2.1)

/-- A microstep does not fail for the limit. -/
theorem microstep_error_ne {e : MachineError} (h : (m.microstep event).result = .error e)
    (n : Nat) : e ≠ .microstepLimit n := by
  rintro rfl
  cases microstep_ofStep m event _ h

theorem runEvents_limit_iff {n : Nat} :
    (m.runEvents queue).result = .error (.microstepLimit n) ↔
      n = m.settings.maxMicrosteps ∧ (m.runSteps queue).length = m.settings.maxMicrosteps ∧
        (∀ p ∈ m.runSteps queue, ¬ Aborts p) ∧
        ¬ (m.unrolled queue).TerminatedAt m.settings.maxMicrosteps := by
  have hdrained := runEvents_drained m queue
  rw [runSteps]
  generalize (m.runEvents queue).result = result at hdrained ⊢
  cases hdrained with
  | whole hgoes hends =>
      simp only [reduceCtorEq, false_iff, not_and, not_not]
      intro _ hlength _
      rwa [← hlength]
  | @aborted p e hlast hfails =>
      simp only [Except.error.injEq, microstep_error_ne hfails, false_iff]
      rintro ⟨_, _, hgoes, _⟩
      exact hgoes p (List.mem_of_getLast? hlast) ⟨e, hfails⟩
  | limited hgoes hlength hmore =>
      simpa [hlength, hmore] using ⟨fun h => ⟨h.symm, fun u e => hgoes (u, e)⟩, fun h => h.1.symm⟩

theorem runEvents_error_iff {e : MachineError} (he : ∀ n, e ≠ .microstepLimit n) :
    (m.runEvents queue).result = .error e ↔
      ∃ p, (m.runSteps queue).getLast? = some p ∧ (p.1.microstep p.2).result = .error e := by
  have hdrained := runEvents_drained m queue
  rw [runSteps]
  generalize (m.runEvents queue).result = result at hdrained ⊢
  have hnone (hgoes : ∀ p ∈ m.drainSteps m.settings.maxMicrosteps queue, ¬ Aborts p) :
      ¬ ∃ p, (m.drainSteps m.settings.maxMicrosteps queue).getLast? = some p ∧
        (p.1.microstep p.2).result = .error e := by
    rintro ⟨p, hlast, hfails⟩
    exact hgoes p (List.mem_of_getLast? hlast) ⟨e, hfails⟩
  cases hdrained with
  | whole hgoes hends => exact iff_of_false (by simp) (hnone hgoes)
  | limited hgoes hlength hmore => exact iff_of_false (by simpa using (he _).symm) (hnone hgoes)
  | @aborted p e' hlast hfails =>
      simp only [Except.error.injEq]
      constructor
      · rintro rfl
        exact ⟨p, hlast, hfails⟩
      · rintro ⟨q, hq, hfails'⟩
        cases hlast.symm.trans hq
        exact Except.error.inj (hfails.symm.trans hfails')

theorem completes (m : Machine) (queue : List Event) : Completes m queue where
  unique _ := unrolls_iff
  closed n := take_unrolled_of_terminatedAt n m queue
  least events h n := take_unrolled_least n m queue events h
  processed := drainSteps_unrolled _ m queue
  stepped := drainSteps_stepped _ m queue
  bound := length_drainSteps_le _ m queue
  last := drainSteps_last _ m queue
  machine := drain_stepped _ m queue
  ok _ := runEvents_ok_iff
  limit _ := runEvents_limit_iff
  error _ := runEvents_error_iff
  higher limit := runEvents_limited limit

/-- A run of an event that succeeds has processed the event first. -/
theorem headD_of_runEvents_ok {flags : List Bool} (h : (m.runEvents [event]).result = .ok flags) :
    flags.headD false = selects (m, event) := by
  obtain ⟨_, hends, rfl⟩ := runEvents_ok_iff.mp h
  rw [runSteps] at hends ⊢
  cases hlimit : m.settings.maxMicrosteps with
  | zero => simp [hlimit, drainSteps, unrolled_cons] at hends
  | succ limit =>
      by_cases haborts : Aborts (m, event)
      · simp [drainSteps_aborts limit [] haborts]
      · simp [drainSteps_goes limit [] haborts]

/-- Running an event to completion succeeds exactly when all that it leads to has been processed and
nothing has failed; the result tells whether the event itself was handled, and how many were
processed. -/
theorem runToCompletion_ok_iff {handled : Bool} {processed : Nat} :
    (m.runToCompletion event).result = .ok (handled, processed) ↔
      (∀ p ∈ m.runSteps [event], ¬ Aborts p) ∧
        (m.unrolled [event]).TerminatedAt (m.runSteps [event]).length ∧
        handled = selects (m, event) ∧ processed = (m.runSteps [event]).length := by
  have hresult : (m.runToCompletion event).result =
      (m.runEvents [event]).result.map fun flags => (flags.headD false, flags.length) := by
    unfold runToCompletion
    rcases m.runEvents [event] with ⟨m', diagnostics, e | flags⟩ <;> rfl
  rw [hresult]
  constructor
  · intro h
    cases hflags : (m.runEvents [event]).result with
    | error e => simp [hflags, Except.map] at h
    | ok flags =>
        simp only [hflags, Except.map, Except.ok.injEq, Prod.mk.injEq] at h
        obtain ⟨hgoes, hends, heq⟩ := runEvents_ok_iff.mp hflags
        refine ⟨hgoes, hends, h.1.symm.trans (headD_of_runEvents_ok hflags), ?_⟩
        rw [← h.2, heq, List.length_map]
  · rintro ⟨hgoes, hends, rfl, rfl⟩
    have hok := runEvents_ok_iff.mpr ⟨hgoes, hends, rfl⟩
    rw [hok]
    simp only [Except.map, headD_of_runEvents_ok hok, List.length_map]

/-! ## Operations -/

/-- The queues that an operation runs to completion in order, each with the machine before it: what
the entry of the initial configuration raises, the events of the reports that are accepted, and the
event that is dispatched. -/
def queues (m : Machine) : Input → List (Machine × List Event)
  | .start =>
    if m.status = .uninitialized ∧ m.missingPredicate? = none then
      match m.boot with
      | (s, .ok ()) => [(s.machine.announce m.chart.id, s.raised)]
      | (_, .error _) => []
    else []
  | input => (m.rounds input).map fun p => (p.1, [p.2])

theorem completionSteps_eq (completions : List Completion) : ∀ m : Machine,
    m.completionSteps completions =
      (m.completionRounds completions).flatMap fun p => p.1.runSteps [p.2] := by
  induction completions with
  | nil => exact fun _ => rfl
  | cons c rest ih =>
      intro m
      rw [completionSteps, completionRounds, List.flatMap_append, ih]
      split <;> simp

/-- The microsteps of an operation are those of its queues. -/
theorem microsteps_eq (m : Machine) (input : Input) :
    m.microsteps input = (m.queues input).flatMap fun r => r.1.runSteps r.2 := by
  cases input with
  | start =>
      simp only [microsteps, queues]
      split
      · rcases m.boot with ⟨s, e | ⟨⟩⟩ <;> simp
      · rfl
  | dispatch event =>
      simp only [microsteps, queues, rounds]
      split
      · simp [completionSteps_eq, List.flatMap_map]
      · rfl
  | processPending =>
      simp only [microsteps, queues, rounds]
      split
      · simp [completionSteps_eq, List.flatMap_map]
      · rfl
  | stop | restore | report | requeue | attend => rfl

theorem mem_completionRounds {p : Machine × Event} (completions : List Completion) :
    ∀ m : Machine, p ∈ m.completionRounds completions → ∃ c ∈ completions, p.2 = c.toEvent := by
  induction completions with
  | nil => simp [completionRounds]
  | cons c rest ih =>
      intro m hp
      rw [completionRounds, List.mem_append] at hp
      rcases hp with hp | hp
      · split at hp
        · rw [List.mem_singleton] at hp
          exact ⟨c, by simp, by rw [hp]⟩
        · simp at hp
      · obtain ⟨c', hc', heq⟩ := ih _ hp
        exact ⟨c', List.mem_cons_of_mem _ hc', heq⟩

/-- An operation begins a run with its own event, with that of a waiting report, or with what its
own entry actions raise. -/
theorem queues_origin {m : Machine} {input : Input} {r : Machine × List Event}
    (hr : r ∈ m.queues input) : (∃ event, input = .dispatch event ∧ r.2 = [event]) ∨
      (∃ c ∈ m.pending, r.2 = [c.toEvent]) ∨ input = .start ∧ r.2 = m.boot.1.raised := by
  cases input with
  | start =>
      simp only [queues] at hr
      split at hr
      · rcases hboot : m.boot with ⟨s, e | ⟨⟩⟩
        · simp [hboot] at hr
        · simp only [hboot, List.mem_singleton] at hr
          exact .inr (.inr ⟨rfl, by rw [hr]⟩)
      · simp at hr
  | dispatch event =>
      simp only [queues, rounds] at hr
      split at hr
      · simp only [List.map_append, List.mem_append, List.mem_map, List.map_cons, List.map_nil,
          List.mem_singleton] at hr
        rcases hr with ⟨p, hp, rfl⟩ | rfl
        · obtain ⟨c, hc, heq⟩ := mem_completionRounds m.pending _ hp
          exact .inr (.inl ⟨c, hc, by rw [heq]⟩)
        · exact .inl ⟨event, rfl, rfl⟩
      · simp at hr
  | processPending =>
      simp only [queues, rounds] at hr
      split at hr
      · obtain ⟨p, hp, rfl⟩ := List.mem_map.mp hr
        obtain ⟨c, hc, heq⟩ := mem_completionRounds m.pending _ hp
        exact .inr (.inl ⟨c, hc, by rw [heq]⟩)
      · simp at hr
  | stop | restore | report | requeue | attend => simp [queues, rounds] at hr

theorem start_of_queues {m : Machine} {r : Machine × List Event} (hr : r ∈ m.queues .start) :
    m.start = ((r.1.runEvents r.2).machine, (r.1.runEvents r.2).result.map fun _ => ()) := by
  simp only [queues] at hr
  split at hr
  · next hgoes =>
      rcases hboot : m.boot with ⟨s, e | ⟨⟩⟩
      · simp [hboot] at hr
      · simp only [hboot, List.mem_singleton] at hr
        rw [start_eq, if_pos hgoes.1, hgoes.2, hr]
        simp only [hboot]
  · simp at hr

/-- How operations run events to completion. -/
structure Operates (m : Machine) : Prop where
  /-- Each operation processes the events of its queues. -/
  steps : ∀ input, m.microsteps input = (m.queues input).flatMap fun r => r.1.runSteps r.2
  /-- These are its own, and never what an earlier run has not processed. -/
  origin : ∀ input, ∀ r ∈ m.queues input, (∃ event, input = .dispatch event ∧ r.2 = [event]) ∨
    (∃ c ∈ m.pending, r.2 = [c.toEvent]) ∨ input = .start ∧ r.2 = m.boot.1.raised
  /-- A start that has entered its states ends as the run of what these have raised. -/
  start : ∀ r ∈ m.queues .start,
    m.start = ((r.1.runEvents r.2).machine, (r.1.runEvents r.2).result.map fun _ => ())
  /-- A dispatch ends as the run of its event. -/
  dispatch : m.status = .running → ∀ event, ∃ u,
    (m.queues (.dispatch event)).getLast? = some (u, [event]) ∧
      (m.dispatch event).1 = (u.runToCompletion event).machine ∧
      (m.dispatch event).2.map (·.handled) = (u.runToCompletion event).result.map (·.1)
  /-- Running an event to completion succeeds exactly when all that it leads to has been processed
  and nothing has failed; then it is known whether the event itself has been handled, and how many
  have been processed. -/
  ok : ∀ event handled processed, (m.runToCompletion event).result = .ok (handled, processed) ↔
    (∀ p ∈ m.runSteps [event], ¬ Aborts p) ∧
      (m.unrolled [event]).TerminatedAt (m.runSteps [event]).length ∧
      handled = selects (m, event) ∧ processed = (m.runSteps [event]).length

theorem operates (m : Machine) : Operates m where
  steps := microsteps_eq m
  origin _ _ := queues_origin
  start _ := start_of_queues
  dispatch hstatus event := by
    refine ⟨(m.takePending.1.processAll m.pending).1, ?_, dispatch_fst_of_running hstatus, ?_⟩
    · simp only [queues, rounds, if_pos hstatus, List.map_append, List.map_cons, List.map_nil,
        List.getLast?_concat]
    · rw [dispatch_of_running hstatus]
      dsimp only
      cases ((m.takePending.1.processAll m.pending).1.runToCompletion event).result <;> rfl
  ok _ _ _ := runToCompletion_ok_iff

/-- The events that a microstep raises are those of the actions that it runs, in their order. -/
structure Raises (m : Machine) (event : Event) (raised : List Event) : Prop where
  unselected : (m.select event).1 = .ok none → raised = []
  selected : ∀ t diagnostics, m.select event = (.ok (some t), diagnostics) →
    raised.map (·.name) = raises (partsOf m event t) ∧
      ∀ done u, done <+: partsOf m event t →
        done.foldlM (perform (causeOf m.chart event t)) ⟨m, []⟩ = .ok u →
        u.raised <+: raised ∧ u.raised.map (·.name) = raises done

theorem raises_of_goes (hc : m.chart.Sound) (hm : m.Rooted) (h : ¬ Aborts (m, event)) :
    Raises m event (m.raisedBy event) where
  unselected hnone := by
    rcases hselect : m.select event with ⟨choice, diagnostics⟩
    rw [hselect] at hnone
    cases hnone
    simp [raisedBy, microstep, hselect]
  selected t diagnostics hselect := by
    obtain ⟨done, stop, ⟨v, result⟩, hfollows, hexecute, _⟩ :=
      execute_follows event hc hm (choose_some (congrArg Prod.fst hselect))
    have hrun := microstep_of_select hselect
    rw [hexecute] at hrun
    cases result with
    | error e => exact absurd ⟨e, by rw [hrun]; rfl⟩ h
    | ok _ =>
        have hraised : m.raisedBy event = v.raised := by simp [raisedBy, hrun, settled, Except.map]
        obtain ⟨rfl, _⟩ := hfollows.done_eq rfl
        have hparts := hfollows.foldlM
        obtain ⟨new, hnew, hnames⟩ := foldlM_raised hparts
        rw [List.nil_append] at hnew
        rw [hraised]
        refine ⟨hnew ▸ hnames, fun done u hprefix hdone => ?_⟩
        obtain ⟨rest, hsplit⟩ := hprefix
        rw [← hsplit, List.foldlM_append, hdone] at hparts
        obtain ⟨before, hbefore, hbeforeNames⟩ := foldlM_raised hdone
        obtain ⟨more, hmore, _⟩ := foldlM_raised hparts
        exact ⟨⟨more, hmore.symm⟩, by rw [hbefore]; exact hbeforeNames⟩

/-- Whatever the state of a machine, its queue and its limit, a run to completion processes the
events of its queue and those that they raise one by one in order of arrival, up to a failure or to
the limit, and what is left then is never processed. -/
theorem runs_complete {d : Definition} {c : Chart} {initial : Json} {setup : Setup}
    (hbuild : Chart.build d = .ok c) (hcreate : create c initial setup = .ok m₀) :
    (∀ m queue, Completes m queue) ∧ (∀ m, Operates m) ∧
    ∀ m, m₀.Occurs m → ∀ event, ¬ Aborts (m, event) → Raises m event (m.raisedBy event) := by
  have hm := create_begins (Chart.build_sound hbuild) hcreate
  refine ⟨completes, operates, fun m hoccurs event hgoes => ?_⟩
  obtain ⟨hc, hrooted⟩ := hoccurs.still hm
  exact raises_of_goes hc hrooted hgoes

/-- A chart whose events raise others. -/
def relayDefinition : Definition where
  id := "m"
  root :=
    { initial := some "a"
      states := [("a", { on := [
        ("go", [{ actions := [.raise "x" none, .raise "y" none] }]),
        ("x", [{ actions := [.raise "z" none] }])] })] }

def relayChart : Chart where
  definition := relayDefinition
  states := #[
    ⟨"m", none, 0, [1], some 1, [], [], [], none⟩,
    ⟨"a", some 0, 1, [], none, [], [], [
      ("go", [⟨1, "go", none, none, [.raise "x" none, .raise "y" none]⟩]),
      ("x", [⟨1, "x", none, none, [.raise "z" none]⟩])], none⟩]
  defaultContext := .obj []
  checksum := relayDefinition.checksum

def relayMachine (maxMicrosteps : Nat) : Machine :=
  { chart := relayChart, setup := { settings := { maxMicrosteps } }, context := .empty }

theorem build_relay : Chart.build relayDefinition = .ok relayChart := rfl

theorem create_relay (maxMicrosteps : Nat) :
    create relayChart .null { settings := { maxMicrosteps } } = .ok (relayMachine maxMicrosteps) :=
  rfl

/-- The events come in the order in which they are raised, and the last of them is over the
limit. -/
theorem runs_complete_relay :
    let m := (relayMachine 3).after [.start]
    Completes m [⟨"go", .null⟩] ∧ Raises m ⟨"go", .null⟩ [⟨"x", .null⟩, ⟨"y", .null⟩] ∧
      (m.runSteps [⟨"go", .null⟩]).map (·.2.name) = ["go", "x", "y"] ∧
      (m.runEvents [⟨"go", .null⟩]).result = .error (.microstepLimit 3) := by
  obtain ⟨hcompletes, _, hraises⟩ := runs_complete build_relay (create_relay 3)
  refine ⟨hcompletes _ _, hraises _ ⟨[.start], .inl rfl⟩ ⟨"go", .null⟩ ?_, rfl, rfl⟩
  rintro ⟨e, he⟩
  cases he

end Statechart.Machine
