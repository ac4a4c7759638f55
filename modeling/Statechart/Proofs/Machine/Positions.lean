import Statechart.Proofs.Chart.Arena
import Statechart.Proofs.Machine.Configuration

/-!
# Positions

A machine holds positions of the arena of its chart, and all that it finds there and on its walks
are positions of the arena. So a state is never looked up where there is none.
-/
namespace Statechart.Machine

variable {c : Chart} {d : Definition} {m₀ m : Machine}

/-- The active states of a machine are there at every point of a run. -/
theorem Begins.configuration_lt (hm : m₀.Begins) (h : m₀.Reaches m) {i : Nat}
    (hi : i ∈ m.configuration) : i < m₀.chart.size := by
  rcases Reaches.rooted hm.sound (.inl hm.configuration) h with hnil | ⟨j, hj, hpath⟩
  · simp [hnil] at hi
  · rw [h.chart] at hj hpath
    rw [hpath] at hi
    exact hm.sound.lt_of_mem_pathTo hj hi

/-- A chart built from a definition in order is the depth-first arena of the tree, and the machines
that run it are at positions of the arena, between inputs, before every microstep, and wherever
moves lead. -/
theorem build_arena_configuration (hd : d.root.Ordered) (hbuild : Chart.build d = .ok c) :
    c.Arena d ∧ ∀ initial setup m₀, create c initial setup = .ok m₀ →
      (∀ m, m₀.Reaches m → ∀ i ∈ m.configuration, i < c.size) ∧
      ∀ inputs, m₀.Reaches (m₀.after inputs) ∧
        ∀ input, ∀ p ∈ (m₀.after inputs).microsteps input, m₀.Reaches p.1 := by
  refine ⟨Chart.build_arena hd hbuild, fun initial setup m₀ hcreate => ?_⟩
  have hm := create_begins (Chart.build_sound hbuild) hcreate
  refine ⟨fun m h i hi => ?_, fun inputs => ?_⟩
  · rw [← create_chart hcreate]
    exact hm.configuration_lt h hi
  · obtain ⟨hreach, hregular⟩ := after_reaches hm inputs
    exact ⟨hreach, fun input p hp => hreach.trans (microsteps_reaches hregular input p hp)⟩

/-- The definition with a job is what adding its transitions and children one by one gives. -/
theorem ordered_job : jobDefinition.root.Ordered := by
  have hroot : ({ initial := some "idle" } : StateDef).Ordered := .bare rfl rfl
  have hdone : ({} : StateDef).Ordered := .bare rfl rfl
  have hidle := hdone.withTransition "go" { target := some "work" }
  have hjob : ({ invoke := some { id := some "job", src := "delay" } } : StateDef).Ordered :=
    .bare rfl rfl
  have hwork := (hjob.withTransition "cancel" { target := some "idle" }).withTransition "job.done"
    { target := some "done" }
  exact ((hroot.withChild "done" hdone).withChild "idle" hidle).withChild "work" hwork

/-- The chart with a job is the arena of its definition. -/
theorem build_arena_configuration_job : jobChart.Arena jobDefinition ∧
    ∀ i ∈ (jobMachine.after [.start, .dispatch ⟨"go", .null⟩]).configuration,
      i < jobChart.size := by
  obtain ⟨harena, hruns⟩ := build_arena_configuration ordered_job build_job
  obtain ⟨hinside, hreaches⟩ := hruns .null {} jobMachine create_job
  exact ⟨harena, hinside _ (hreaches _).1⟩

end Statechart.Machine
