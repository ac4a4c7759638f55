import Statechart.Proofs.Machine.Execution
import Statechart.Proofs.Machine.Refusals

/-!
# Stopping a machine

A machine that stops leaves all its active states, innermost first, whatever fails on the way: each
of them runs its exit actions up to the first of them that fails, its invocation is stopped if it
is still held, and it is left. After the last of them the machine has stopped for good; what the
exit actions have raised is dropped. The result is the failure of the innermost state that has
failed, if any has.
-/
namespace Statechart

def Effect.isLogged : Effect → Bool
  | logged _ => true
  | _ => false

namespace Machine
open Step

/-- States are left one after another. Each runs its exit actions, as far as these go. The errors
of those that fail are given in order. -/
inductive Departs : List Nat → Step → List MachineError → Step → Prop where
  | none (s) : Departs [] s [] s
  | left {i rest s u errors v done stop}
      (hacts : Follows ⟨none, (s.machine.chart.state i).id, "(stopped)"⟩ s
        ((s.machine.chart.state i).exit.map (.act (.exit i))) done stop (u, .ok ()))
      (hrest : Departs rest (u.update (·.leave i)) errors v) : Departs (i :: rest) s errors v
  | failed {i rest s u e errors v done stop}
      (hacts : Follows ⟨none, (s.machine.chart.state i).id, "(stopped)"⟩ s
        ((s.machine.chart.state i).exit.map (.act (.exit i))) done stop (u, .error e))
      (hrest : Departs rest (u.update (·.leave i)) errors v) : Departs (i :: rest) s (e :: errors) v

variable {m₀ m : Machine} {c : Chart}

/-- Leaving all active states goes on after every failure; the first of them is the result. -/
theorem exitAll_departs : ∀ (gone : List Nat) (s : Step), s.machine.configuration = gone.reverse →
    ∃ errors, Departs gone s errors (exitAll gone.length s).1 ∧
      (exitAll gone.length s).2 = errors.head?
  | [], s, _ => ⟨[], .none s, rfl⟩
  | i :: rest, s, hconfiguration => by
      have hleaf : s.machine.leaf? = some i := by simp [leaf?, hconfiguration]
      let cause : Cause := ⟨none, (s.machine.chart.state i).id, "(stopped)"⟩
      have hquiet := runActions_quiet cause (s.machine.chart.state i).exit s
      obtain ⟨done, stop, hacts, _⟩ :=
        runActions_follows cause (.exit i) (s.machine.chart.state i).exit s
      simp only [List.length_cons, exitAll, hleaf]
      cases hrun : s.runActions cause (s.machine.chart.state i).exit with
      | mk u result =>
        rw [hrun] at hquiet hacts
        have hleft : (u.update (·.leave i)).machine.configuration = rest.reverse := by
          rw [update, (leave_leaves _ _).configuration, hquiet.configuration, hconfiguration,
            List.reverse_cons, List.dropLast_concat]
        obtain ⟨errors, hrest, hfirst⟩ := exitAll_departs rest (u.update (·.leave i)) hleft
        cases result with
        | ok _ => exact ⟨errors, .left hacts hrest, hfirst⟩
        | error e => exact ⟨e :: errors, .failed hacts hrest, rfl⟩

/-- What a machine has done to the outside, its log records left out. -/
def doings (m : Machine) : List Effect := m.trace.toList.filter (!·.isLogged)

theorem runActions_doings (cause : Cause) (actions : List Action) (s : Step) :
    (s.runActions cause actions).1.machine.doings = s.machine.doings := by
  simp only [runActions, doings]
  split <;> simp [Effect.isLogged]

/-- What leaving a state does to the outside: its token is taken away if it holds one, and its exit
is told. -/
def leavings (m : Machine) (i : Nat) : List Effect :=
  (m.held i).toList.map .revoked ++ [.notified (.exited m.chart.id (m.chart.state i).id)]

theorem leave_doings (m : Machine) (i : Nat) : (m.leave i).doings = m.doings ++ m.leavings i := by
  unfold leave stopInvocation leavings
  cases hv : (m.chart.state i).invoke with
  | none => simp [doings, held, hv, notify, record, Effect.isLogged]
  | some v =>
      cases ht : Keyed.get? v.id m.invocations with
      | none => simp [doings, held, hv, ht, notify, record, Effect.isLogged]
      | some t => simp [doings, held, hv, ht, notify, record, Effect.isLogged]

theorem leavings_of_quiet {m' : Machine} (h : m.Quiet m') (i : Nat) :
    m'.leavings i = m.leavings i := by
  rw [leavings, leavings, held_of_quiet h, h.chart]

theorem leave_leavings (hc : m.chart.Sound) {i j : Nat} (hne : j ≠ i) :
    (m.leave i).leavings j = m.leavings j := by
  rw [leavings, leavings, leave_held hc hne, (leave_leaves m i).chart]

/-- The states are exited in order, each with a stop of its invocation before if that is still
held. -/
theorem exitAll_doings : ∀ (gone : List Nat) (s : Step), s.machine.chart.Sound →
    s.machine.configuration = gone.reverse → gone.Nodup →
    (exitAll gone.length s).1.machine.doings =
      s.machine.doings ++ gone.flatMap s.machine.leavings
  | [], s, _, _, _ => by simp [exitAll]
  | i :: rest, s, hc, hconfiguration, hnodup => by
      have hleaf : s.machine.leaf? = some i := by simp [leaf?, hconfiguration]
      let cause : Cause := ⟨none, (s.machine.chart.state i).id, "(stopped)"⟩
      let u := (s.runActions cause (s.machine.chart.state i).exit).1
      have hquiet : s.machine.Quiet u.machine := runActions_quiet cause _ s
      have hacted : u.machine.doings = s.machine.doings := runActions_doings cause _ s
      have hsound : u.machine.chart.Sound := hquiet.chart ▸ hc
      have hleaves := leave_leaves u.machine i
      have hleft : (u.update (·.leave i)).machine.configuration = rest.reverse := by
        rw [update, hleaves.configuration, hquiet.configuration, hconfiguration, List.reverse_cons,
          List.dropLast_concat]
      have hrest := exitAll_doings rest (u.update (·.leave i)) (hleaves.chart ▸ hsound) hleft
        (List.nodup_cons.mp hnodup).2
      have hsame : rest.flatMap (u.update (·.leave i)).machine.leavings =
          rest.flatMap s.machine.leavings := by
        refine List.flatMap_congr fun j hj => ?_
        have hne : j ≠ i := fun heq => (List.nodup_cons.mp hnodup).1 (heq ▸ hj)
        exact (leave_leavings hsound hne).trans (leavings_of_quiet hquiet j)
      have hfirst : (u.update (·.leave i)).machine.doings =
          s.machine.doings ++ s.machine.leavings i := by
        rw [update, leave_doings, hacted, leavings_of_quiet hquiet]
      have hexit : (exitAll (rest.length + 1) s).1 =
          (exitAll rest.length (u.update (·.leave i))).1 := by
        simp only [exitAll, hleaf]
        split <;> rfl
      rw [List.length_cons, hexit, hrest, hfirst, hsame, List.flatMap_cons, List.append_assoc]

/-- The tokens that active states hold are all that are held, and no two states hold one token. -/
theorem Regular.held_tokens (h : m.Regular) :
    (m.configuration.reverse.filterMap m.held).Nodup ∧
      ∀ t, t ∈ m.configuration.reverse.filterMap m.held ↔
        ∃ id, Keyed.get? id m.invocations = some t := by
  obtain ⟨hs, hb⟩ := h.books
  have hcurrent : ∀ i t, m.held i = some t ↔ History.Current hs i t := hb.held_iff h.sound
  refine ⟨List.Nodup.filterMap ?_ (List.nodup_reverse.mpr (hb.nodup h.sound)), fun t => ?_⟩
  · intro i j t hi hj
    exact hb.orderly.current_injective h.sound ((hcurrent i t).mp hi) ((hcurrent j t).mp hj)
  · rw [List.mem_filterMap]
    constructor
    · rintro ⟨i, _, hheld⟩
      obtain ⟨v, _, hv⟩ := Option.bind_eq_some_iff.mp hheld
      exact ⟨v.id, hv⟩
    · rintro ⟨id, hget⟩
      obtain ⟨i, _, _, _, hcur⟩ := (hb.held id t).mp hget
      exact ⟨i, List.mem_reverse.mpr (hb.active_of_current hcur), (hcurrent i t).mpr hcur⟩

/-- The result of a stop in which the given failures have occurred. -/
def resultOf : List MachineError → Except MachineError Unit
  | [] => .ok ()
  | e :: _ => .error e

/-- How a machine stops. -/
structure Retires (m : Machine) : Prop where
  /-- The active states are left, innermost first, whatever fails; nothing else is done. -/
  departs : ∃ errors u, Departs m.configuration.reverse ⟨m, []⟩ errors u ∧
    m.stop = ({ u.machine with pending := [], status := .stopped }.notify (.stopped m.chart.id),
      resultOf errors)
  /-- For each active state the token that it holds is taken away, if it holds one, and its exit is
  told; after that the stop is told. -/
  told : m.stop.1.doings = m.doings ++ m.configuration.reverse.flatMap m.leavings ++
    [.notified (.stopped m.chart.id)]
  /-- No state is left twice. -/
  once : m.configuration.Nodup
  /-- The tokens that are taken away are those of all invocations, and none comes twice. -/
  tokens : (m.configuration.reverse.filterMap m.held).Nodup ∧
    ∀ t, t ∈ m.configuration.reverse.filterMap m.held ↔
      ∃ id, Keyed.get? id m.invocations = some t
  ended : m.stop.1.status = .stopped ∧ m.stop.1.configuration = [] ∧
    m.stop.1.invocations = [] ∧ m.stop.1.pending = []
  /-- No event is processed by the stop or after it. -/
  silent : m.microsteps .stop = [] ∧
    ∀ inputs input, (m.stop.1.after inputs).microsteps input = []

theorem microsteps_of_stopped (h : m.status = .stopped) (input : Input) :
    m.microsteps input = [] := by
  cases input <;> simp [microsteps, h]

/-- When all states of a regular machine have been left, it holds nothing that would remain to be
given up. -/
theorem Regular.stop_of_exits (h : m.Regular) (hrunning : m.status = .running) {u : Step}
    {errors : List MachineError}
    (hexits : exitAll m.configuration.length ⟨m, []⟩ = (u, errors.head?)) :
    m.stop = ({ u.machine with pending := [], status := .stopped }.notify (.stopped m.chart.id),
      resultOf errors) := by
  have hnone : u.machine.invocations = [] := by simpa [hexits] using h.exitAll_invocations
  have hchart : u.machine.chart = m.chart := by
    simpa [hexits] using (exitAll_leads m.configuration.length ⟨m, []⟩).chart
  have hrevoke : u.machine.revokeAll = u.machine := by
    rcases hu : u.machine with ⟨⟩
    simp_all [revokeAll]
  simp only [stop, require, hrunning, if_true, hexits, hrevoke, hchart]
  cases errors <;> rfl

theorem Regular.retires (h : m.Regular) (hrunning : m.status = .running) : Retires m := by
  obtain ⟨_, hb⟩ := h.books
  have hnodup : m.configuration.Nodup := hb.nodup h.sound
  have hsame : (⟨m, []⟩ : Step).machine.configuration = m.configuration.reverse.reverse := by simp
  obtain ⟨errors, hdeparts, hfirst⟩ := exitAll_departs m.configuration.reverse ⟨m, []⟩ hsame
  have hdoings := exitAll_doings m.configuration.reverse ⟨m, []⟩ h.sound hsame
    (List.nodup_reverse.mpr hnodup)
  have hempty : (exitAll m.configuration.length ⟨m, []⟩).1.machine.configuration = [] :=
    exitAll_configuration _ _ le_rfl
  have hnone := h.exitAll_invocations
  rw [List.length_reverse] at hdeparts hfirst hdoings
  obtain ⟨u, hu⟩ : ∃ u, (exitAll m.configuration.length ⟨m, []⟩).1 = u := ⟨_, rfl⟩
  rw [hu] at hdeparts hdoings hempty hnone
  have hstop := h.stop_of_exits hrunning (Prod.ext hu hfirst)
  have hstopped : m.stop.1.status = .stopped := by rw [hstop]; rfl
  constructor
  case departs => exact ⟨errors, u, hdeparts, hstop⟩
  case told =>
    rw [hstop, ← hdoings]
    simp [doings, notify, record, Effect.isLogged]
  case once => exact hnodup
  case tokens => exact h.held_tokens
  case ended =>
    refine ⟨hstopped, ?_⟩
    rw [hstop]
    exact ⟨hempty, hnone, rfl⟩
  case silent =>
    refine ⟨rfl, fun inputs input => microsteps_of_stopped ?_ input⟩
    obtain ⟨_, _, _, hidle⟩ := after_idles_of_stopped hstopped inputs
    rw [hidle]
    exact hstopped

/-- Whatever a machine has been through and whatever fails on the way, a running machine that is
stopped leaves all its active states and gives up all that it holds, in order, and has stopped for
good. -/
theorem stop_retires {d : Definition} {initial : Json} {setup : Setup}
    (hbuild : Chart.build d = .ok c) (hcreate : create c initial setup = .ok m₀)
    (inputs : List Input) (hrunning : (m₀.after inputs).status = .running) :
    Retires (m₀.after inputs) :=
  (after_reaches (create_begins (Chart.build_sound hbuild) hcreate) inputs).2.retires hrunning

/-- A chart in which a state and the job around it fail on the way out. -/
def faultyDefinition : Definition where
  id := "m"
  root :=
    { initial := some "work"
      exit := [.raise "left" none]
      states := [("work",
        { initial := some "part"
          exit := [.assign "y" (.context "lost")]
          invoke := some { id := some "job", src := "delay" }
          states := [("part",
            { exit := [.raise "x" none, .assign "y" (.context "missing"), .raise "y" none] })] })] }

def faultyChart : Chart where
  definition := faultyDefinition
  states := #[
    ⟨"m", none, 0, [1], some 1, [], [.raise "left" none], [], none⟩,
    ⟨"work", some 0, 1, [2], some 2, [], [.assign "y" (.context "lost")], [],
      some ⟨"job", "delay", none⟩⟩,
    ⟨"part", some 1, 2, [], none, [],
      [.raise "x" none, .assign "y" (.context "missing"), .raise "y" none], [], none⟩]
  defaultContext := .obj []
  checksum := faultyDefinition.checksum

def faultyMachine : Machine := { chart := faultyChart, setup := {}, context := .empty }

theorem build_faulty : Chart.build faultyDefinition = .ok faultyChart := rfl

theorem create_faulty : create faultyChart .null {} = .ok faultyMachine := rfl

/-- Two of three states fail; all are left, and the failure of the innermost one is returned. -/
theorem stop_retires_faulty :
    let m := faultyMachine.after [.start]
    Retires m ∧ m.stop.2 = .error (.actionExecution "assign(y)" "part" "(stopped)"
      (.resolution (.missingPath "missing"))) ∧
    m.stop.1.doings.drop m.doings.length =
      [.notified (.exited "m" "part"), .revoked ⟨"job", 1⟩, .notified (.exited "m" "work"),
        .notified (.exited "m" "m"), .notified (.stopped "m")] :=
  ⟨stop_retires build_faulty create_faulty [.start] rfl, rfl, rfl⟩

end Machine

end Statechart
