import Statechart.Proofs.Machine.Mirror

/-!
# Batches of reports

The reports that have arrived are processed as one batch, before a dispatched event or by
themselves. A batch is the list of its reports, each with the machine that it meets: both ways of
processing it walk along that list, to its end, whatever fails on the way. They differ in what they
return of it.
-/
namespace Statechart.Machine

/-- The reports of a batch in order, each with the machine that it meets. -/
def batch (m : Machine) : List Completion → List (Machine × Completion)
  | [] => []
  | c :: rest => (m, c) :: (m.processCompletion c).machine.batch rest

/-- The events that a report has led to, none if it has failed. -/
def eventsRun (m : Machine) (c : Completion) : Nat :=
  match (m.processCompletion c).result with
  | .ok _ => (m.completionSteps [c]).length
  | .error _ => 0

/-- The diagnostics of a report, with its failure if it has failed. -/
def reportNotes (m : Machine) (c : Completion) : List Diagnostic :=
  reportDiagnostics c (m.processCompletion c).diagnostics (m.processCompletion c).result

variable {m : Machine}

@[simp] theorem batch_reports (completions : List Completion) : ∀ m : Machine,
    (m.batch completions).map (·.2) = completions := by
  induction completions with
  | nil => exact fun _ => rfl
  | cons c rest ih => exact fun m => congrArg (c :: ·) (ih _)

theorem processAll_eq_foldl (completions : List Completion) : ∀ m : Machine,
    (m.processAll completions).1 =
      completions.foldl (fun m c => (m.processCompletion c).machine) m := by
  induction completions with
  | nil => exact fun _ => rfl
  | cons c rest ih => exact fun m => ih _

theorem processAll_results (completions : List Completion) : ∀ m : Machine,
    (m.processAll completions).2 = (m.batch completions).map fun p =>
      (p.2, (p.1.processCompletion p.2).diagnostics, (p.1.processCompletion p.2).result) := by
  induction completions with
  | nil => exact fun _ => rfl
  | cons c rest ih => exact fun m => congrArg (_ :: ·) (ih _)

/-- A drain that does not fail tells of each of its microsteps. -/
theorem drain_length (budget : Nat) : ∀ (m : Machine) (queue : List Event) (handled : List Bool),
    (m.drain budget queue).result = .ok handled →
      handled.length = (m.drainSteps budget queue).length := by
  induction budget with
  | zero =>
      intro m queue handled h
      cases queue with
      | nil =>
          cases h
          rfl
      | cons => cases h
  | succ budget ih =>
      intro m queue handled h
      cases queue with
      | nil =>
          cases h
          rfl
      | cons event queue =>
          simp only [drain] at h
          simp only [drainSteps]
          rcases hstep : m.microstep event with ⟨m', diagnostics, e | ⟨first, raised⟩⟩
          · rw [hstep] at h
            cases h
          · rw [hstep] at h
            dsimp only at h ⊢
            cases hrest : (m'.drain budget (queue ++ raised)).result with
            | error e =>
                rw [hrest] at h
                cases h
            | ok later =>
                rw [hrest] at h
                cases h
                simp [ih m' (queue ++ raised) later hrest]

theorem runToCompletion_processed {event : Event} {p : Bool × Nat}
    (h : (m.runToCompletion event).result = .ok p) : p.2 = (m.runSteps [event]).length := by
  unfold runToCompletion at h
  split at h
  · cases h
  · next processed hrun =>
      cases h
      exact drain_length _ m [event] processed (congrArg Run.result hrun)

/-- A report that has not failed counts the events that it has led to. -/
theorem processCompletion_processed {c : Completion} {n : Nat}
    (h : (m.processCompletion c).result = .ok n) : n = (m.completionSteps [c]).length := by
  by_cases hcurrent : Keyed.get? c.token.invokeId m.invocations = some c.token
  · simp only [processCompletion, if_pos hcurrent] at h
    simp only [completionSteps, if_pos hcurrent, List.append_nil]
    cases hrun : ((m.accept c.token).runToCompletion c.toEvent).result with
    | error e =>
        simp only [accept] at hrun
        rw [hrun] at h
        cases h
    | ok p =>
        rw [← runToCompletion_processed hrun]
        simp only [accept] at hrun
        rw [hrun] at h
        cases h
        rfl
  · simp only [processCompletion, if_neg hcurrent] at h
    simp only [completionSteps, if_neg hcurrent, List.append_nil]
    cases h
    rfl

theorem processedCount_batch (completions : List Completion) : ∀ m : Machine,
    processedCount ((m.processAll completions).2.map (·.2.2)) =
      ((m.batch completions).map fun p => p.1.eventsRun p.2).sum := by
  induction completions with
  | nil => exact fun _ => rfl
  | cons c rest ih =>
      intro m
      simp only [processAll, batch, List.map_cons, List.sum_cons, eventsRun]
      cases hresult : (m.processCompletion c).result with
      | error e => simp [processedCount, ih, eventsRun]
      | ok n => simp [processedCount, ih, eventsRun, processCompletion_processed hresult]

theorem notes_batch (completions : List Completion) (m : Machine) :
    ((m.processAll completions).2.flatMap fun (c, diagnostics, result) =>
        reportDiagnostics c diagnostics result) =
      (m.batch completions).flatMap fun p => p.1.reportNotes p.2 := by
  rw [processAll_results, List.flatMap_map]
  rfl

/-- Dispatching to a machine with reports is processing them and dispatching then, if they do not
lead to further reports. -/
theorem dispatch_processPending (hstatus : m.status = .running)
    (hquiet : m.processPending.1.pending = []) (event : Event) :
    ((m.takePending.1.batch m.pending).map (·.2) = m.pending ∧
      m.processPending.1 =
        m.pending.foldl (fun m c => (m.processCompletion c).machine) m.takePending.1) ∧
    (m.dispatch event).1 = (m.processPending.1.dispatch event).1 ∧
    (m.dispatch event).2 = (m.processPending.1.dispatch event).2.map fun o => { o with
      processed :=
        ((m.takePending.1.batch m.pending).map fun p => p.1.eventsRun p.2).sum + o.processed
      diagnostics :=
        (m.takePending.1.batch m.pending).flatMap (fun p => p.1.reportNotes p.2) ++
          o.diagnostics } := by
  have hbatch := processPending_fst m
  rw [if_pos hstatus] at hbatch
  have hrunning : m.processPending.1.status = .running :=
    (processPending_tells m).status.trans hstatus
  have htaken : m.processPending.1.takePending.1 = m.processPending.1 := by
    simp [takePending, ← hquiet]
  refine ⟨⟨batch_reports _ _, ?_⟩, ?_, ?_⟩
  · rw [hbatch, processAll_eq_foldl]
  · rw [dispatch_fst_of_running hstatus, dispatch_fst_of_running hrunning, hquiet, htaken, hbatch]
    rfl
  · rw [dispatch_of_running hstatus, dispatch_of_running hrunning, hquiet, htaken]
    simp only [processAll, List.map_nil, List.flatMap_nil, List.nil_append, processedCount,
      Nat.zero_add, processedCount_batch, notes_batch, ← hbatch]
    cases (m.processPending.1.runToCompletion event).result <;> rfl

/-- A shift with a job that ends it, and in it a part whose failure cannot be noted. -/
def shiftDefinition : Definition where
  id := "m"
  root :=
    { initial := some "work"
      states := [
        ("done", {}),
        ("work",
          { initial := some "part"
            on := [("job.done", [{ target := some "done" }])]
            invoke := some { id := some "job", src := "delay" }
            states := [
              ("part",
                { on := [("part.error", [{ actions := [.assign "x" (.context "missing")] }])]
                  invoke := some { id := some "part", src := "delay" } })] })] }

def shiftChart : Chart where
  definition := shiftDefinition
  states := #[
    ⟨"m", none, 0, [1, 2], some 2, [], [], [], none⟩,
    ⟨"done", some 0, 1, [], none, [], [], [], none⟩,
    ⟨"work", some 0, 1, [3], some 3, [], [],
      [("job.done", [⟨2, "job.done", some 1, none, []⟩])], some ⟨"job", "delay", none⟩⟩,
    ⟨"part", some 2, 2, [], none, [], [],
      [("part.error", [⟨3, "part.error", none, none, [.assign "x" (.context "missing")]⟩])],
      some ⟨"part", "delay", none⟩⟩]
  defaultContext := .obj []
  checksum := shiftDefinition.checksum

def shiftMachine : Machine := { chart := shiftChart, setup := {}, context := .empty }

theorem build_shift : Chart.build shiftDefinition = .ok shiftChart := rfl

/-- The failure of the part is reported first, then a job that nobody has begun, then the end of
the shift, and last the part once more, which is of no use by then. -/
def shiftInputs : List Input :=
  [.start, .report ⟨⟨"part", 2⟩, .error .null⟩, .report ⟨⟨"job", 7⟩, .done .null⟩,
    .report ⟨⟨"job", 1⟩, .done .null⟩, .report ⟨⟨"part", 2⟩, .done .null⟩]

/-- One report of the shift fails, one ends it and two are stale; both ways end alike. -/
theorem dispatch_processPending_shift :
    Chart.build shiftDefinition = .ok shiftChart ∧
    (shiftMachine.after shiftInputs).pending.length = 4 ∧
    (∃ e, (shiftMachine.after shiftInputs).processPending.2 = .error e) ∧
    ((shiftMachine.after shiftInputs).dispatch ⟨"go", .null⟩).1.configuration = [0, 1] ∧
    ((shiftMachine.after shiftInputs).dispatch ⟨"go", .null⟩).1 =
      ((shiftMachine.after shiftInputs).processPending.1.dispatch ⟨"go", .null⟩).1 ∧
    ((shiftMachine.after shiftInputs).dispatch ⟨"go", .null⟩).2.map
      (fun o => (o.processed, o.diagnostics.length)) = .ok (2, 1) := by
  obtain ⟨_, hmachine, hresult⟩ := dispatch_processPending
    (m := shiftMachine.after shiftInputs) rfl rfl ⟨"go", .null⟩
  refine ⟨build_shift, rfl, ⟨_, rfl⟩, rfl, hmachine, ?_⟩
  rw [hresult]
  rfl

end Statechart.Machine
