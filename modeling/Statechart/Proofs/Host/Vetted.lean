import Statechart.Proofs.Host.Conversation
import Statechart.Proofs.Machine.Vetted

/-!
# Predicates of instances

A host gives an instance the predicates that are registered when it joins. The instance comes to
run because its machine is vetted and started, or because it is brought back from the snapshot of a
running machine, and then nobody asks whether the machine is vetted.
-/
namespace Statechart

namespace Machine

variable {R : Machine → Machine → Prop} {m₀ m : Machine}

/-- What lasts along operations lasts along the prompts that an actor gives its machine. -/
theorem Lasting.heed (h : Lasting R) (m : Machine) (prompt : Prompt) : R m (m.heed prompt) := by
  have hafter (m : Machine) (inputs : List Input) : R m (m.after inputs).takeTrace.1 :=
    h.trans (h.after m inputs) (h.act _ _ _)
  cases prompt with
  | start | restore => exact hafter m _
  | request answer r =>
      simp only [Machine.heed]
      split
      · exact hafter m _
      · exact h.refl m
      · exact hafter m _
  | wake => exact h.trans (h.queue m m.pending false) (hafter _ _)
  | queued pending => exact h.queue m pending true

theorem Lasting.heedAll (h : Lasting R) (m : Machine) (prompts : List Prompt) :
    R m (m.heedAll prompts) := by
  induction prompts using List.reverseRecOn with
  | nil => exact h.refl m
  | append_singleton prompts prompt ih =>
      rw [heedAll_append]
      exact h.trans ih (h.heed _ prompt)

/-- A prompt makes a machine run that is vetted and started, or restored. -/
theorem heed_runs {prompt : Prompt} (hnot : m.status ≠ .running)
    (hrun : (m.heed prompt).status = .running) :
    (m.Vetted ∧ ∃ answer, prompt = .start answer) ∨
      ∃ answer s, prompt = .restore answer s ∧ s.status = .running := by
  cases prompt with
  | start answer =>
      obtain ⟨-, ⟨-, hvetted⟩ | ⟨s, ⟨⟩, -⟩⟩ :=
        feed_runs (m := m.feed (.attend answer)) .start hnot hrun
      exact .inl ⟨hvetted, answer, rfl⟩
  | restore answer s =>
      obtain ⟨-, ⟨⟨⟩, -⟩ | ⟨_, ⟨⟩, hs⟩⟩ :=
        feed_runs (m := m.feed (.attend answer)) (.restore s) hnot hrun
      exact .inr ⟨answer, s, rfl, hs⟩
  | request answer r =>
      simp only [heed] at hrun
      split at hrun
      · next event _ =>
          obtain ⟨-, ⟨⟨⟩, -⟩ | ⟨_, ⟨⟩, -⟩⟩ :=
            feed_runs (m := m.feed (.attend answer)) (.dispatch event) hnot hrun
      · exact absurd hrun hnot
      · obtain ⟨-, ⟨⟨⟩, -⟩ | ⟨_, ⟨⟩, -⟩⟩ :=
          feed_runs (m := m.feed (.attend answer)) .stop hnot hrun
  | wake answer =>
      let woken : Machine := { m with signalled := false }
      obtain ⟨-, ⟨⟨⟩, -⟩ | ⟨_, ⟨⟩, -⟩⟩ :=
        feed_runs (m := woken.feed (.attend answer)) .processPending hnot hrun
  | queued => exact absurd hrun hnot

theorem heedAll_runs (hnew : m₀.status ≠ .running) (prompts : List Prompt)
    (hrun : (m₀.heedAll prompts).status = .running) :
    (m₀.Vetted ∧ ∃ answer, .start answer ∈ prompts) ∨
      ∃ answer s, .restore answer s ∈ prompts ∧ s.status = .running := by
  induction prompts using List.reverseRecOn with
  | nil => exact absurd hrun hnew
  | append_singleton prompts prompt ih =>
      by_cases hbefore : (m₀.heedAll prompts).status = .running
      · rcases ih hbefore with ⟨hvetted, answer, hmem⟩ | ⟨answer, s, hmem, hs⟩
        · exact .inl ⟨hvetted, answer, List.mem_append_left _ hmem⟩
        · exact .inr ⟨answer, s, List.mem_append_left _ hmem, hs⟩
      · rw [heedAll_append] at hrun
        rcases heed_runs hbefore hrun with ⟨hvetted, answer, rfl⟩ | ⟨answer, s, rfl, hs⟩
        · have hsame := alike_lasting.heedAll m₀ prompts
          exact .inl ⟨hsame.vetted_iff.mp hvetted, answer, by simp⟩
        · exact .inr ⟨answer, s, by simp, hs⟩

end Machine

namespace Host
open Machine

variable {h₀ h : Host} {deeds : List Deed} {n : Nat}

/-- Who joins is fresh. -/
theorem Runs.joined_status (hruns : Runs h₀ deeds h) {m : Machine} (hm : .joined n m ∈ deeds) :
    m.status = .uninitialized := by
  induction hruns with
  | refl => cases hm
  | tail _ hmove ih =>
      rcases List.mem_append.mp hm with hm | hm
      · exact ih hm
      · obtain rfl := List.mem_singleton.mp hm
        cases hmove with
        | join id hcreate =>
            obtain ⟨context, rfl⟩ := create_eq hcreate
            rfl

theorem mem_prompts {prompt : Prompt} (hrequest : prompt.request? = none)
    (h : prompt ∈ prompts deeds n) : .prompted n prompt ∈ deeds := by
  obtain ⟨d, hd, hprompt⟩ := List.mem_filterMap.mp h
  cases d with
  | prompted a prompt' =>
      simp only [Deed.prompt?, Option.ite_none_right_eq_some, Option.some.injEq] at hprompt
      obtain ⟨rfl, rfl⟩ := hprompt
      exact hd
  | served a answer r reply =>
      simp only [Deed.prompt?, Option.ite_none_right_eq_some, Option.some.injEq] at hprompt
      obtain ⟨-, rfl⟩ := hprompt
      cases hrequest
  | joined | accepted | collected | ended | other => cases hprompt

/-- What is known of the predicates of an instance whose machine is `m`. -/
structure Vets (deeds : List Deed) (n : Nat) (m : Machine) : Prop where
  /-- Its machine has the chart and the registry with which it has joined. -/
  searches : ∃ m₀, .joined n m₀ ∈ deeds ∧ Searches m₀ m
  /-- If it runs, it is vetted and has been started, or it has been restored. -/
  launched : m.status = .running →
    (m.Vetted ∧ ∃ answer, .prompted n (.start answer) ∈ deeds) ∨
      ∃ answer s, .prompted n (.restore answer s) ∈ deeds ∧ s.status = .running

theorem Runs.vets (hactors : h₀.actors = []) (hreplies : h₀.replies = [])
    (hruns : Runs h₀ deeds h) {a : Actor} (ha : h.actor? n = some a) :
    Vets deeds n a.machine := by
  have hc := hruns.chronicle hactors hreplies
  obtain ⟨m₀, hm⟩ := hc.peopled.origin n _ (scene_posts ha)
  have hmachine : a.machine = m₀.heedAll (prompts deeds n) :=
    hc.driven.machines n m₀ hm _ (scene_posts ha)
  have hsearches : Searches m₀ a.machine := by
    rw [hmachine]
    exact (alike_lasting.heedAll m₀ _).searches
  refine ⟨⟨m₀, hm, hsearches⟩, fun hrun => ?_⟩
  have hnew : m₀.status ≠ .running := by simp [hruns.joined_status hm]
  rw [hmachine] at hrun
  rcases heedAll_runs hnew _ hrun with ⟨hvetted, answer, hmem⟩ | ⟨answer, s, hmem, hs⟩
  · exact .inl ⟨hsearches.vetted.mpr hvetted, answer, mem_prompts rfl hmem⟩
  · exact .inr ⟨answer, s, mem_prompts rfl hmem, hs⟩

/-- However a machine has come to run, in a run of its own or as an instance of a host: unless it
has been restored, it is vetted. A vetted machine stays vetted, and its guards find all their
predicates; other guards fail for want of those that are not registered and of no others. -/
theorem running_vetted (config : Config) (available : Bool) :
    (∀ c context setup m₀, Machine.create c context setup = .ok m₀ → ∀ inputs,
      Searches m₀ (m₀.after inputs) ∧
      ((m₀.after inputs).status = .running →
        ∃ before input later, inputs = before ++ input :: later ∧
          (m₀.after before).status = .uninitialized ∧
          (input = .start ∧ m₀.Vetted ∨ ∃ s, input = .restore s ∧ s.status = .running))) ∧
    (∀ inputs, ∃ deeds, Runs (create config available) deeds
      ((create config available).after inputs)) ∧
    ∀ deeds h, Runs (create config available) deeds h → ∀ n a, h.actor? n = some a →
      Vets deeds n a.machine := by
  refine ⟨fun c context setup m₀ hcreate inputs => ?_, runs_after (kept_create config available),
    fun deeds h hruns n a ha => hruns.vets rfl rfl ha⟩
  obtain ⟨data, rfl⟩ := create_eq hcreate
  exact ⟨(alike_lasting.after _ inputs).searches, after_runs rfl inputs⟩

/-- A gate that knows its predicate is vetted and started, by itself and as an instance of a host
in which the predicate has been registered. -/
theorem running_vetted_gate :
    let predicates : Predicates := [("p", fun _ _ => true)]
    let m := (gateMachine predicates).after [.start]
    (m.status = .running ∧ m.Vetted ∧
      ∀ p ∈ m.microsteps (.dispatch ⟨"go", .null⟩), ∀ t ∈ p.1.candidates p.2,
        FindsPredicates (p.1.guardResult p.2 t)) ∧
    ∃ deeds h a, Runs (create {} true) deeds h ∧ h.actor? 1 = some a ∧
      a.machine.status = .running ∧ Vets deeds 1 a.machine := by
  intro predicates m
  obtain ⟨hmachines, -, hhosts⟩ := running_vetted {} true
  have hvetted : (gateMachine predicates).Vetted := vetted_iff.mpr (by decide +kernel)
  obtain ⟨hsearches, -⟩ := hmachines gateChart .null { predicates } _ (create_gate predicates)
    [.start]
  refine ⟨⟨rfl, hsearches.vetted.mpr hvetted, hsearches.found hvetted _⟩, ?_⟩
  let h₁ := (create {} true).registerPredicate "p" fun _ _ => true
  have hregistered : Runs (create {} true) [.other] h₁ :=
    Runs.refl.tail (.rest ⟨fun _ => rfl, rfl, rfl, le_rfl⟩)
  have hjoined := hregistered.tail (.join "a" (create_gate predicates))
  let a : Actor := { number := 1, instanceId := "a", machine := gateMachine predicates }
  have ha : (h₁.join "a" (gateMachine predicates)).actor? 1 = some a := rfl
  have hstarted := hjoined.tail (.start ha)
  have hb := actor?_operate ha startTolerantly
  exact ⟨_, _, _, hstarted, hb, rfl, hhosts _ _ hstarted _ _ hb⟩

end Host

end Statechart
