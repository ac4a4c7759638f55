import Statechart.Proofs.Chart.Canonical
import Statechart.Proofs.Machine.Restored
import Statechart.Proofs.Machine.Surroundings
import Statechart.Proofs.Machine.Values

/-!
# Machines that are resumed

The snapshot of a running machine, written and read back, is restored on a fresh machine of the
chart, which then stands where the first one stands. If the chart invokes nothing, the two cannot
be told apart from then on: they differ only in their surroundings.
-/
namespace Statechart.Machine

variable {c : Chart} {m₀ m r : Machine}

/-- What has been written into the trace before does not count for what is seen of calls. -/
theorem observe_takeTrace (m : Machine) (calls : List Call) :
    m.takeTrace.1.observe calls = m.observe calls := by
  cases calls <;> rfl

/-- A fresh machine that has resumed another one of a chart without invocations differs from it
only in its surroundings and in its trace. -/
theorem resume_takeTrace {initial : Json} {setup : Setup} (hm : m.Regular)
    (hc : m.chart.InvokesNothing) (hrunning : m.status = .running)
    (hfresh : create m.chart initial setup = .ok r) (hsettings : r.settings = m.settings)
    (hpredicates : r.setup.predicates = m.setup.predicates) :
    ∃ u, (r.resume m).takeTrace.1 = m.takeTrace.1.amid u := by
  have hnone := hm.invocations_of_invokesNothing hc
  obtain ⟨context, rfl⟩ := create_eq hfresh
  have hstarted := startInvocations_of_invokesNothing
    (m := takeOver { chart := m.chart, setup, context } m) hc m.configuration
  refine ⟨⟨setup.answer, 0, [], false⟩, ?_⟩
  rw [resume, if_pos hrunning, hstarted]
  obtain ⟨chart, ⟨settings, predicates, answer⟩, _⟩ := m
  obtain ⟨settings', predicates', answer'⟩ := setup
  cases hsettings
  cases hpredicates
  cases hnone
  rfl

theorem observe_resume {initial : Json} {setup : Setup} (hm : m.Regular)
    (hc : m.chart.InvokesNothing) (hrunning : m.status = .running)
    (hfresh : create m.chart initial setup = .ok r) (hsettings : r.settings = m.settings)
    (hpredicates : r.setup.predicates = m.setup.predicates) (calls : List Call) :
    (r.resume m).observe calls = m.observe calls := by
  obtain ⟨u, heq⟩ := resume_takeTrace hm hc hrunning hfresh hsettings hpredicates
  calc (r.resume m).observe calls
      = (m.takeTrace.1.amid u).observe calls := by rw [← observe_takeTrace, heq]
    _ = m.takeTrace.1.observe calls := observe_amid calls (takeTrace_regular hm) hc
    _ = m.observe calls := observe_takeTrace m calls

/-- Wherever a run has led, if the machine runs there with something active, its snapshot is read
back from its document and restored on every fresh machine of the chart, which then stands where
the first one stands and has issued one token for each active state with an invocation. If the
chart invokes nothing and both machines have the same settings and predicates, no calls that come
after that can tell them apart. -/
theorem after_resumes {d : Definition} {initial initial' : Json} {setup setup' : Setup}
    (hd : d.Tidy) (hbuild : Chart.build d = .ok c) (hcreate : create c initial setup = .ok m₀)
    (hinitial : initial.IsNormal) (hanswer : AnswersNormal setup.answer) {inputs : List Input}
    (hinputs : ∀ input ∈ inputs, input.IsNormal)
    (hrunning : (m₀.after inputs).status = .running)
    (hactive : (m₀.after inputs).configuration ≠ [])
    (hfresh : create c initial' setup' = .ok r) :
    ∃ s r', Snapshot.decode (m₀.after inputs).snapshot.toJson = .ok s ∧
      r.restore s = (r', .ok ()) ∧
      (m₀.after inputs).Resumes r'
        (c.issues (m₀.after inputs).context 0 (m₀.after inputs).configuration) ∧
      (c.InvokesNothing → r.settings = (m₀.after inputs).settings →
        r.setup.predicates = (m₀.after inputs).setup.predicates →
        ∀ calls, r'.observe calls = (m₀.after inputs).observe calls) := by
  have hm := create_begins (Chart.build_sound hbuild) hcreate
  obtain ⟨hreach, hregular⟩ := after_reaches hm inputs
  have hchart : (m₀.after inputs).chart = c := hreach.chart.trans (create_chart hcreate)
  have htidy := (create_tidy hd hbuild hinitial hanswer hcreate).after hinputs
  generalize m₀.after inputs = m at *
  subst hchart
  obtain ⟨context, heq⟩ := create_eq hfresh
  have hrestore := restore_snapshot (r := r) hregular (fun _ => hactive) (by rw [heq])
    (by rw [heq]) (by rw [heq])
  rw [if_pos (by rw [heq])] at hrestore
  refine ⟨m.snapshot, r.resume m, Snapshot.decode_toJson htidy.context, hrestore,
    resume_resumes hregular hrunning hfresh, ?_⟩
  intro hc hsettings hpredicates
  exact observe_resume hregular hc hrunning hfresh hsettings hpredicates

theorem tidy_job : jobDefinition.Tidy :=
  Definition.tidy_of_decode (v := jobDefinition.toJson) rfl

theorem build_door : Chart.build Chart.doorDefinition = .ok Chart.doorChart := rfl

theorem tidy_door : Chart.doorDefinition.Tidy :=
  Definition.tidy_of_decode (v := Chart.doorDocument) rfl

/-- A door that nothing blocks. -/
def doorMachine : Machine where
  chart := Chart.doorChart
  setup := {}
  context := ⟨[("free", .bool true)]⟩

theorem create_door : create Chart.doorChart (.obj [("free", .bool true)]) {} = .ok doorMachine :=
  rfl

/-- A job that goes on is started again under the first token of the machine that resumes it; a
door that has been pushed open cannot be told from one that is resumed. -/
theorem after_resumes_job :
    (∃ s r, Snapshot.decode (jobMachine.after [.start, .dispatch ⟨"go", .null⟩]).snapshot.toJson =
        .ok s ∧
      jobMachine.restore s = (r, .ok ()) ∧
      r.trace.toList = [.invoked ⟨⟨"job", 1⟩, "m", "delay", .null⟩,
        .notified (.started "m" ["m", "work"])] ∧
      Keyed.get? "job" r.invocations = some ⟨"job", 1⟩) ∧
    ∃ s r, Snapshot.decode (doorMachine.after [.start, .dispatch ⟨"push", .null⟩]).snapshot.toJson =
        .ok s ∧
      doorMachine.restore s = (r, .ok ()) ∧ r.configurationIds = ["door", "open"] ∧
      ∀ calls, r.observe calls =
        (doorMachine.after [.start, .dispatch ⟨"push", .null⟩]).observe calls := by
  have hjob : ∀ input ∈ [Input.start, .dispatch ⟨"go", .null⟩], input.IsNormal :=
    List.forall_mem_cons.mpr ⟨trivial, List.forall_mem_singleton.mpr rfl⟩
  have hdoor : ∀ input ∈ [Input.start, .dispatch ⟨"push", .null⟩], input.IsNormal :=
    List.forall_mem_cons.mpr ⟨trivial, List.forall_mem_singleton.mpr rfl⟩
  constructor
  · obtain ⟨s, r, hdecode, hrestore, hresumes, _⟩ :=
      after_resumes tidy_job build_job create_job rfl nofun hjob rfl nofun create_job
    refine ⟨s, r, hdecode, hrestore, ?_, ?_⟩
    · rw [hresumes.trace]
      rfl
    · exact (hresumes.held "job" ⟨"job", 1⟩).mpr ⟨rfl, by decide⟩
  · obtain ⟨s, r, hdecode, hrestore, hresumes, hsame⟩ :=
      after_resumes tidy_door build_door create_door rfl nofun hdoor rfl nofun create_door
    have hnothing : Chart.doorChart.InvokesNothing := fun i => by
      match i with
      | 0 | 1 | 2 => rfl
      | i + 3 => rfl
    refine ⟨s, r, hdecode, hrestore, ?_, hsame hnothing rfl rfl⟩
    rw [configurationIds, hresumes.chart, hresumes.configuration]
    rfl

end Statechart.Machine
