import Statechart.Proofs.Machine.Books
import Statechart.Proofs.Machine.Trail

/-!
# The course of a run

Moves lead from a machine that has just been made to every machine that comes between two inputs
of a run, and while such a machine does not run, nothing is active and nothing is held.
-/
namespace Statechart.Machine
open History

/-- A machine of a sound chart with nothing behind it. -/
structure Begins (m : Machine) : Prop where
  sound : m.chart.Sound
  status : m.status = .uninitialized
  configuration : m.configuration = []
  invocations : m.invocations = []
  trace : m.trace = #[]

theorem create_eq {c : Chart} {initial : Json} {setup : Setup} {m : Machine}
    (h : create c initial setup = .ok m) : ∃ context, m = { chart := c, setup, context } := by
  unfold create at h
  split at h
  · next context _ =>
      cases h
      exact ⟨context, rfl⟩
  · cases h

theorem create_chart {c : Chart} {initial : Json} {setup : Setup} {m : Machine}
    (h : create c initial setup = .ok m) : m.chart = c := by
  obtain ⟨context, rfl⟩ := create_eq h
  rfl

theorem create_begins {c : Chart} {initial : Json} {setup : Setup} {m : Machine} (hc : c.Sound)
    (h : create c initial setup = .ok m) : m.Begins := by
  unfold create at h
  split at h
  · cases h
    exact ⟨hc, rfl, rfl, rfl, rfl⟩
  · cases h

/-- A machine that does not run has no active state and holds no token. -/
def AtRest (m : Machine) : Prop :=
  m.status ≠ .running → m.configuration = [] ∧ m.invocations = []

/-- A machine as it is between two inputs: some history agrees with it. -/
structure Regular (m : Machine) : Prop where
  sound : m.chart.Sound
  books : ∃ hs, Books m.chart hs ⟨m, []⟩
  atRest : m.AtRest

variable {m₀ m m' : Machine} {hs : History}

theorem AtRest.of_running (h : m.status = .running) : m.AtRest := fun hnot => absurd h hnot

theorem Reaches.chart : m₀.Reaches m → m.chart = m₀.chart
  | ⟨_, h⟩ => h.chart

theorem Begins.books (hm : m₀.Begins) (h : Moves ⟨m₀, []⟩ hs ⟨m, []⟩) :
    Books m₀.chart hs ⟨m, []⟩ := by
  simpa using h.books hm.sound (Books.nil hm.configuration hm.invocations)

theorem Begins.regular (hm : m₀.Begins) : m₀.Regular :=
  ⟨hm.sound, ⟨[], Books.nil hm.configuration hm.invocations⟩,
    fun _ => ⟨hm.configuration, hm.invocations⟩⟩

theorem Regular.rooted (h : m.Regular) : m.Rooted := by
  obtain ⟨_, hb⟩ := h.books
  exact hb.rooted

theorem Regular.configuration (h : m.Regular) (hstatus : m.status ≠ .running) :
    m.configuration = [] := (h.atRest hstatus).1

/-- Moves keep a machine regular as long as it is at rest when it does not run. -/
theorem Regular.reach (h : m.Regular) (hreach : m.Reaches m') (hrest : m'.AtRest) :
    m'.Regular := by
  obtain ⟨hs, hb⟩ := h.books
  have hchart := hreach.chart
  obtain ⟨new, hmoves⟩ := hreach
  exact ⟨hchart ▸ h.sound, ⟨_, hchart ▸ hmoves.books h.sound hb⟩, hrest⟩

/-- When all states of a machine have been left, no invocation remains to be stopped. -/
theorem Regular.exitAll_invocations (h : m.Regular) :
    (exitAll m.configuration.length ⟨m, []⟩).1.machine.invocations = [] := by
  obtain ⟨hs, hb⟩ := h.books
  obtain ⟨new, hmoves, _⟩ := exitAll_leads m.configuration.length ⟨m, []⟩
  exact (hmoves.books h.sound hb).invocations_nil (exitAll_configuration _ _ le_rfl)

theorem start_fst_of_ne (h : m.status ≠ .uninitialized) : m.start.1 = m := by
  rw [start_eq, if_neg h]

theorem restore_fst_of_ne (h : m.status ≠ .uninitialized) (s : Snapshot) :
    (m.restore s).1 = m := by
  rcases restore_cases m s with ⟨e, he⟩ | ⟨_, _, hstatus, _⟩
  · rw [he]
  · exact absurd hstatus h

theorem stop_of_ne (h : m.status ≠ .running) :
    m.stop = (m, .error (.lifecycle .stop m.status)) := by
  simp [stop, require, h]

theorem dispatch_of_ne (h : m.status ≠ .running) (event : Event) :
    m.dispatch event = (m, .error (.lifecycle .dispatch m.status)) := by
  simp [dispatch, require, h]

theorem processPending_of_ne (h : m.status ≠ .running) :
    m.processPending = (m.takePending.1, .ok 0) := by
  have htaken : m.takePending.1.status ≠ .running := h
  unfold processPending
  simp only [if_neg htaken]

theorem start_reaches (h : m.Regular) : m.Reaches m.start.1 ∧ m.start.1.AtRest := by
  by_cases hstatus : m.status = .uninitialized
  · rcases start_leads h.sound (h.configuration (by simp [hstatus])) with heq | hleads
    · rw [heq]
      exact ⟨Reaches.refl m, h.atRest⟩
    · exact ⟨(Reaches.become m .running).trans hleads.reaches, .of_running hleads.status⟩
  · rw [start_fst_of_ne hstatus]
    exact ⟨Reaches.refl m, h.atRest⟩

theorem dispatch_reaches (h : m.Regular) (event : Event) :
    m.Reaches (m.dispatch event).1 ∧ (m.dispatch event).1.AtRest := by
  by_cases hstatus : m.status = .running
  · have hleads := dispatch_leads h.sound h.rooted event
    exact ⟨hleads.reaches, .of_running (hleads.status.trans hstatus)⟩
  · rw [dispatch_of_ne hstatus]
    exact ⟨Reaches.refl m, h.atRest⟩

theorem processPending_reaches (h : m.Regular) :
    m.Reaches m.processPending.1 ∧ m.processPending.1.AtRest := by
  have hleads := processPending_leads h.sound h.rooted
  by_cases hstatus : m.status = .running
  · exact ⟨hleads.reaches, .of_running (hleads.status.trans hstatus)⟩
  · rw [processPending_of_ne hstatus] at hleads ⊢
    exact ⟨hleads.reaches, h.atRest⟩

theorem stop_atRest (hrest : m.AtRest) : m.stop.1.AtRest := by
  rcases stop_cases m with ⟨_, heq⟩ | ⟨_, heq⟩
  · rwa [heq]
  · rw [heq]
    exact fun _ => ⟨exitAll_configuration _ _ le_rfl, rfl⟩

theorem restore_reaches (h : m.Regular) (s : Snapshot) :
    m.Reaches (m.restore s).1 ∧ (m.restore s).1.AtRest := by
  by_cases hstatus : m.status = .uninitialized
  · obtain ⟨hempty, hnone⟩ := h.atRest (by simp [hstatus])
    rcases restore_leads h.sound hempty s with heq | ⟨_, hleads, hnot⟩
    · rw [heq]
      exact ⟨Reaches.refl m, h.atRest⟩
    · refine ⟨(Reaches.become m s.status).trans hleads.reaches, fun hne => ?_⟩
      have hs : s.status ≠ .running := fun heq => hne (hleads.status.trans heq)
      exact ⟨(hnot hs).1, (hnot hs).2.trans hnone⟩
  · rw [restore_fst_of_ne hstatus]
    exact ⟨Reaches.refl m, h.atRest⟩

/-- Moves lead through every input, and a machine that does not run afterwards is at rest. -/
theorem feed_reaches (h : m.Regular) (input : Input) :
    m.Reaches (m.feed input) ∧ (m.feed input).AtRest := by
  have hidle {m' : Machine} (hidles : m.Idles m') : m.Reaches m' := hidles.quiet.leads.reaches
  cases input with
  | start => exact start_reaches h
  | dispatch event => exact dispatch_reaches h event
  | processPending => exact processPending_reaches h
  | stop => exact ⟨stop_reaches h.exitAll_invocations, stop_atRest h.atRest⟩
  | restore s => exact restore_reaches h s
  | report r => exact ⟨hidle ⟨m.setup, m.pending ++ [r], true, rfl⟩, h.atRest⟩
  | requeue pending => exact ⟨hidle ⟨m.setup, pending, m.signalled, rfl⟩, h.atRest⟩
  | attend answer => exact ⟨hidle ⟨_, m.pending, m.signalled, rfl⟩, h.atRest⟩

theorem feed_regular (h : m.Regular) (input : Input) : (m.feed input).Regular :=
  have hfeed := feed_reaches h input
  h.reach hfeed.1 hfeed.2

/-- Moves lead through every run, and the machine stays regular. -/
theorem after_reaches (hm : m₀.Begins) (inputs : List Input) :
    m₀.Reaches (m₀.after inputs) ∧ (m₀.after inputs).Regular := by
  induction inputs using List.reverseRecOn with
  | nil => exact ⟨Reaches.refl m₀, hm.regular⟩
  | append_singleton inputs input ih =>
      rw [after_concat]
      exact ⟨ih.1.trans (feed_reaches ih.2 input).1, feed_regular ih.2 input⟩

/-- A chart that goes from rest into a state with a job, and from there on or back. -/
def jobDefinition : Definition where
  id := "m"
  root :=
    { initial := some "idle"
      states := [
        ("done", {}),
        ("idle", { on := [("go", [{ target := some "work" }])] }),
        ("work",
          { on := [("cancel", [{ target := some "idle" }]),
              ("job.done", [{ target := some "done" }])]
            invoke := some { id := some "job", src := "delay" } })] }

def jobChart : Chart where
  definition := jobDefinition
  states := #[
    ⟨"m", none, 0, [1, 2, 3], some 2, [], [], [], none⟩,
    ⟨"done", some 0, 1, [], none, [], [], [], none⟩,
    ⟨"idle", some 0, 1, [], none, [], [], [("go", [⟨2, "go", some 3, none, []⟩])], none⟩,
    ⟨"work", some 0, 1, [], none, [], [],
      [("cancel", [⟨3, "cancel", some 2, none, []⟩]),
        ("job.done", [⟨3, "job.done", some 1, none, []⟩])],
      some ⟨"job", "delay", none⟩⟩]
  defaultContext := .obj []
  checksum := jobDefinition.checksum

def jobMachine : Machine := { chart := jobChart, setup := {}, context := .empty }

theorem build_job : Chart.build jobDefinition = .ok jobChart := rfl

theorem create_job : create jobChart .null {} = .ok jobMachine := rfl

end Statechart.Machine
