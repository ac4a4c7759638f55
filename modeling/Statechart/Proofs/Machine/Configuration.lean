import Statechart.Proofs.Machine.Course

/-!
# Configurations

In every run the active states are none, or the path from the root to the last of them. A failing
action may leave that path short of a leaf, and so may a restore; every transition with a target
that is taken without a failure makes it end in a leaf again.
-/
namespace Statechart.Machine

variable {m₀ m m' : Machine} {event : Event} {p : Machine × Event}

/-- The innermost active state is a leaf. -/
def AtLeaf (m : Machine) : Prop := ∃ i, m.leaf? = some i ∧ (m.chart.state i).isLeaf = true

/-- No action fails in any of some microsteps. -/
def Unfailing (steps : List (Machine × Event)) : Prop :=
  ∀ p ∈ steps, ∀ e, (p.1.microstep p.2).result = .error e → e.isAction = false

theorem Unfailing.left {steps steps' : List (Machine × Event)} (h : Unfailing (steps ++ steps')) :
    Unfailing steps := fun p hp => h p (List.mem_append_left _ hp)

theorem Unfailing.right {steps steps' : List (Machine × Event)} (h : Unfailing (steps ++ steps')) :
    Unfailing steps' := fun p hp => h p (List.mem_append_right _ hp)

theorem AtLeaf.congr (h : m.AtLeaf) (hchart : m'.chart = m.chart)
    (hconfiguration : m'.configuration = m.configuration) : m'.AtLeaf := by
  simpa [AtLeaf, leaf?, hchart, hconfiguration] using h

theorem AtLeaf.quiet (h : m.AtLeaf) (hq : m.Quiet m') : m'.AtLeaf :=
  h.congr hq.chart hq.configuration

/-- A path that goes on along the initial chain of its last state ends in a leaf. -/
theorem atLeaf_of_path {i : Nat} (hc : m.chart.Sound) (hi : i < m.chart.size)
    (h : m.configuration = m.chart.pathTo i ++ m.chart.initialChain i) : m.AtLeaf := by
  obtain ⟨leaf, _, hpath, hleaf⟩ := hc.pathTo_append_initialChain hi
  exact ⟨leaf, by rw [leaf?, h, hpath, Chart.Sound.getLast?_pathTo], hleaf⟩

theorem drainSteps_leads (budget : Nat) : ∀ (m : Machine) (queue : List Event), m.chart.Sound →
    m.Rooted → ∀ p ∈ m.drainSteps budget queue, Leads ⟨m, []⟩ ⟨p.1, []⟩ := by
  induction budget with
  | zero =>
      intro m queue _ _ p hp
      cases queue <;> simp [drainSteps] at hp
  | succ budget ih =>
      intro m queue hc hm p hp
      cases queue with
      | nil => simp [drainSteps] at hp
      | cons event queue =>
          rw [drainSteps, List.mem_cons] at hp
          rcases hp with rfl | hp
          · exact Leads.refl _
          · have hstep := microstep_leads hc hm event
            split at hp
            · simp at hp
            · next m' diagnostics handled raised hrun =>
                rw [hrun] at hstep
                obtain ⟨hc', hm'⟩ := hstep.still hc hm
                exact hstep.trans (ih m' (queue ++ raised) hc' hm' p hp)

theorem completionSteps_leads (completions : List Completion) : ∀ m : Machine, m.chart.Sound →
    m.Rooted → ∀ p ∈ m.completionSteps completions, Leads ⟨m, []⟩ ⟨p.1, []⟩ := by
  induction completions with
  | nil => simp [completionSteps]
  | cons c rest ih =>
      intro m hc hm p hp
      rw [completionSteps, List.mem_append] at hp
      rcases hp with hp | hp
      · split at hp
        · next hcurrent =>
            have haccept := (Move.accept hcurrent).leads (by simp)
            obtain ⟨hc', hm'⟩ := haccept.still hc hm
            exact haccept.trans (drainSteps_leads _ _ _ hc' hm' p hp)
        · simp at hp
      · have hfirst := processCompletion_leads hc hm c
        obtain ⟨hc', hm'⟩ := hfirst.still hc hm
        exact hfirst.trans (ih _ hc' hm' p hp)

/-- Moves lead to the machine before each microstep of an operation. -/
theorem microsteps_reaches (h : m.Regular) (input : Input) :
    ∀ p ∈ m.microsteps input, m.Reaches p.1 := by
  intro p hp
  have hc := h.sound
  have hrooted := h.rooted
  have htaken := (takePending_quiet m).leads (a := [])
  obtain ⟨hc', hrooted'⟩ := htaken.still hc hrooted
  have hcompletions : p ∈ m.takePending.1.completionSteps m.pending → m.Reaches p.1 := fun hp =>
    (htaken.trans (completionSteps_leads _ _ hc' hrooted' p hp)).reaches
  cases input with
  | start =>
      simp only [microsteps] at hp
      split at hp
      · next hstatus =>
          split at hp
          · next s hboot =>
              have hempty := h.configuration (by simp [hstatus.1])
              have hleads := boot_leads hc hempty
              rw [hboot] at hleads
              have hrun := hleads.trans (announce_quiet s.machine m.chart.id).leads
              obtain ⟨hc', hrooted'⟩ := hrun.still hc (.inl hempty)
              have hsteps := hrun.trans (drainSteps_leads _ _ _ hc' hrooted' p hp)
              exact (Reaches.become m .running).trans hsteps.reaches
          · simp at hp
      · simp at hp
  | dispatch event =>
      simp only [microsteps] at hp
      split at hp
      · rcases List.mem_append.mp hp with hp | hp
        · exact hcompletions hp
        · have hall := htaken.trans (processAll_leads m.pending _ hc' hrooted')
          obtain ⟨hc'', hrooted''⟩ := hall.still hc hrooted
          exact (hall.trans (drainSteps_leads _ _ _ hc'' hrooted'' p hp)).reaches
      · simp at hp
  | processPending =>
      simp only [microsteps] at hp
      split at hp
      · exact hcompletions hp
      · simp at hp
  | stop | restore | report | requeue | attend => simp [microsteps] at hp

/-- A microstep that takes a transition with a target and does not fail makes the path to the
target and its initial chain active. -/
theorem microstep_configuration (hc : m.chart.Sound) (hm : m.Rooted) {t : Transition}
    {target : Nat} {diagnostics : List Diagnostic} {result : Bool × List Event}
    (hselect : m.select event = (.ok (some t), diagnostics)) (ht : t.target = some target)
    (hok : (m.microstep event).result = .ok result) :
    target < m.chart.size ∧ (m.microstep event).machine.configuration =
      m.chart.pathTo target ++ m.chart.initialChain target := by
  obtain ⟨hsource, htarget⟩ := mem_candidates hc (choose_some (congrArg Prod.fst hselect))
  unfold microstep at hok ⊢
  rw [hselect] at hok ⊢
  dsimp only at hok ⊢
  cases hrun : Step.execute t event ⟨m, []⟩ with
  | mk s outcome =>
    rw [hrun] at hok
    cases outcome with
    | error e => cases hok
    | ok _ =>
        exact ⟨htarget target ht,
          Step.execute_ok_of_some hc hm hsource (htarget target ht) ht hrun⟩

theorem microstep_atLeaf (hc : m.chart.Sound) (hm : m.Rooted) (h : m.AtLeaf)
    (hok : ∀ e, (m.microstep event).result = .error e → e.isAction = false) :
    (m.microstep event).machine.AtLeaf := by
  have hchart := (microstep_leads hc hm event).chart
  cases hrun : m.microstep event with
  | mk m' diagnostics result =>
    have hcases := microstep_cases m event
    rw [hrun] at hok hchart hcases
    cases hcases with
    | unselected | ignored => exact h
    | @taken t s _ ht hexecute =>
        obtain ⟨hsource, htarget⟩ := mem_candidates hc ht
        cases ht' : t.target with
        | none => exact h.congr hchart (Step.execute_ok_of_none ht' hexecute)
        | some target =>
            have hpath := Step.execute_ok_of_some hc hm hsource (htarget target ht') ht' hexecute
            dsimp only at hchart ⊢
            rw [← hchart] at hc hpath
            exact atLeaf_of_path hc (hchart ▸ htarget target ht') hpath
    | @failed t s e _ ht hexecute =>
        obtain ⟨hsource, htarget⟩ := mem_candidates hc ht
        have herror := (Step.execute_traced event [] hc hm hsource
          htarget).error e (congrArg Prod.snd hexecute)
        exact absurd herror (by simp [hok e rfl])

theorem drain_atLeaf (budget : Nat) : ∀ (m : Machine) (queue : List Event), m.chart.Sound →
    m.Rooted → m.AtLeaf → Unfailing (m.drainSteps budget queue) →
    (m.drain budget queue).machine.AtLeaf := by
  induction budget with
  | zero =>
      intro m queue _ _ h _
      cases queue <;> exact h
  | succ budget ih =>
      intro m queue hc hm h hok
      cases queue with
      | nil => exact h
      | cons event queue =>
          have hleads := microstep_leads hc hm event
          have hstep := microstep_atLeaf hc hm h (hok (m, event) (by simp [drainSteps]))
          rw [drainSteps] at hok
          simp only [drain]
          split
          · next m' diagnostics e hrun =>
              rwa [hrun] at hstep
          · next m' diagnostics handled raised hrun =>
              rw [hrun] at hstep hleads hok
              obtain ⟨hc', hm'⟩ := hleads.still hc hm
              exact ih m' (queue ++ raised) hc' hm' hstep fun p hp => hok p (by simp [hp])

theorem runToCompletion_atLeaf (hc : m.chart.Sound) (hm : m.Rooted) (h : m.AtLeaf)
    (hok : Unfailing (m.runSteps [event])) : (m.runToCompletion event).machine.AtLeaf := by
  have hrun := drain_atLeaf _ m [event] hc hm h hok
  rw [← runEvents] at hrun
  unfold runToCompletion
  split
  · next heq =>
      rwa [heq] at hrun
  · next heq =>
      rw [heq] at hrun
      exact hrun.quiet (Quiet.notify _ _ rfl)

theorem processAll_atLeaf (completions : List Completion) : ∀ m : Machine, m.chart.Sound →
    m.Rooted → m.AtLeaf → Unfailing (m.completionSteps completions) →
    (m.processAll completions).1.AtLeaf := by
  induction completions with
  | nil => exact fun m _ _ h _ => h
  | cons c rest ih =>
      intro m hc hm h hok
      rw [completionSteps] at hok
      have hleads := processCompletion_leads hc hm c
      obtain ⟨hc', hm'⟩ := hleads.still hc hm
      refine ih _ hc' hm' ?_ hok.right
      have hfirst := hok.left
      unfold processCompletion
      split
      · next hcurrent =>
          rw [if_pos hcurrent] at hfirst
          exact runToCompletion_atLeaf (m := m.accept c.token) hc hm h hfirst
      · exact h

/-- A start in which no action fails leaves a running machine at a leaf. -/
theorem start_atLeaf (hc : m.chart.Sound) (hempty : m.configuration = [])
    (hstatus : m.status = .uninitialized) (hok : ¬ m.ActionFails .start)
    (hrunning : m.start.1.status = .running) : m.start.1.AtLeaf := by
  obtain ⟨leaf, hleaf, hpath, hend⟩ := initial_path hc
  have hleads := boot_leads hc hempty
  simp only [ActionFails, microsteps, true_and, reduceCtorEq, false_and, or_false, not_or,
    not_exists, not_and] at hok
  obtain ⟨hsteps, hfails⟩ := hok
  rw [start_eq] at hfails hrunning ⊢
  rw [if_pos hstatus] at hfails hrunning ⊢
  cases hmissing : m.missingPredicate? with
  | some name =>
      rw [hmissing] at hrunning
      exact absurd hrunning (by simp [hstatus])
  | none =>
    rw [if_pos ⟨hstatus, hmissing⟩] at hsteps
    rw [hmissing] at hfails hrunning
    dsimp only at hfails hrunning ⊢
    have htraced := Step.enter_traced (s := ⟨{ m with status := .running }, []⟩)
      ⟨none, m.chart.id, m.chart.id⟩ hc hleaf (by simpa [hempty] using hpath)
    have hentered := Step.enter_ok (s := ⟨{ m with status := .running }, []⟩)
      ⟨none, m.chart.id, m.chart.id⟩ hc hleaf (by simpa [hempty] using hpath)
    cases hboot : m.boot with
    | mk s outcome =>
      rw [hboot] at hleads hfails hsteps
      rw [boot] at hboot
      rw [hboot] at htraced hentered
      cases outcome with
      -- entering fails only in an action
      | error e => exact absurd (htraced.error e rfl) (hfails e rfl)
      | ok _ =>
          have hatLeaf : s.machine.AtLeaf := by
            refine ⟨leaf, ?_, hleads.chart ▸ hend⟩
            rw [leaf?, hentered rfl, Chart.Sound.getLast?_pathTo]
          have hrun := hleads.trans (announce_quiet s.machine m.chart.id).leads
          obtain ⟨hc', hrooted⟩ := hrun.still hc (.inl hempty)
          refine drain_atLeaf _ _ _ hc' hrooted (hatLeaf.quiet (announce_quiet _ _)) ?_
          exact fun p hp e he => by simpa using hsteps p hp e he

theorem processCompletions_atLeaf (hc : m.chart.Sound) (hm : m.Rooted) (h : m.AtLeaf)
    (hok : Unfailing (m.takePending.1.completionSteps m.pending)) :
    (m.takePending.1.processAll m.pending).1.AtLeaf := by
  have htaken := (takePending_quiet m).leads (a := [])
  obtain ⟨hc', hm'⟩ := htaken.still hc hm
  exact processAll_atLeaf m.pending _ hc' hm' (h.quiet (takePending_quiet m)) hok

theorem unfailing_microsteps {input : Input} (h : ¬ m.ActionFails input) :
    Unfailing (m.microsteps input) := fun p hp e he => by
  by_contra hne
  exact h (.inl ⟨p, hp, e, he, by simpa using hne⟩)

/-- As long as no action fails and nothing is restored, a running machine stays at a leaf. -/
theorem feed_atLeaf (h : m.Regular) {input : Input}
    (hrestore : ∀ s, input ≠ .restore s) (hok : ¬ m.ActionFails input)
    (hleaf : m.status = .running → m.AtLeaf) :
    (m.feed input).status = .running → (m.feed input).AtLeaf := by
  have hc := h.sound
  have hrooted := h.rooted
  have hsteps := unfailing_microsteps hok
  intro hrunning
  cases input with
  | start =>
      by_cases hstatus : m.status = .uninitialized
      · exact start_atLeaf hc (h.configuration (by simp [hstatus])) hstatus hok hrunning
      · simp only [feed, start_fst_of_ne hstatus] at hrunning ⊢
        exact hleaf hrunning
  | dispatch event =>
      by_cases hstatus : m.status = .running
      · simp only [microsteps, if_pos hstatus] at hsteps
        have hall := processCompletions_atLeaf hc hrooted (hleaf hstatus) hsteps.left
        have htaken := (takePending_quiet m).leads (a := [])
        obtain ⟨hc', hrooted'⟩ := htaken.still hc hrooted
        obtain ⟨hc'', hrooted''⟩ := (processAll_leads m.pending _ hc' hrooted').still hc' hrooted'
        rw [feed, dispatch_fst_of_running hstatus]
        exact runToCompletion_atLeaf hc'' hrooted'' hall hsteps.right
      · simp only [feed, dispatch_of_ne hstatus] at hrunning
        exact absurd hrunning hstatus
  | processPending =>
      by_cases hstatus : m.status = .running
      · simp only [microsteps, if_pos hstatus] at hsteps
        rw [feed, processPending_fst, if_pos hstatus]
        exact processCompletions_atLeaf hc hrooted (hleaf hstatus) hsteps
      · simp only [feed, processPending_of_ne hstatus] at hrunning
        exact absurd hrunning hstatus
  | stop =>
      simp only [feed] at hrunning ⊢
      rcases stop_cases m with ⟨_, heq⟩ | ⟨_, heq⟩
      · rw [heq] at hrunning ⊢
        exact hleaf hrunning
      · rw [heq] at hrunning
        cases hrunning
  | restore s => exact absurd rfl (hrestore s)
  | report _ | requeue _ | attend _ => exact (hleaf hrunning).congr rfl rfl

theorem after_atLeaf (hm : m₀.Begins) (inputs : List Input)
    (hrestore : ∀ s, .restore s ∉ inputs)
    (hok : ∀ pre input post, inputs = pre ++ input :: post → ¬ (m₀.after pre).ActionFails input) :
    (m₀.after inputs).status = .running → (m₀.after inputs).AtLeaf := by
  induction inputs using List.reverseRecOn with
  | nil =>
      intro hrunning
      rw [after_nil, hm.status] at hrunning
      cases hrunning
  | append_singleton inputs input ih =>
      rw [after_concat]
      have hregular := (after_reaches hm inputs).2
      refine feed_atLeaf hregular (fun s heq => ?_) (hok inputs input [] rfl) (ih ?_ ?_)
      · exact hrestore s (by simp [heq])
      · exact fun s hs => hrestore s (by simp [hs])
      · exact fun pre x post heq => hok pre x (post ++ [input]) (by simp [heq])

/-- The states of a list are those from the root to its last, each a child of the one before. -/
structure IsBranch (c : Chart) (states : List Nat) : Prop where
  path : ∃ i < c.size, states.getLast? = some i ∧ states = c.pathTo i
  head : states.head? = some Chart.root
  child : states.IsChain fun p i => i ∈ (c.state p).children
  nodup : states.Nodup

theorem isBranch_pathTo {c : Chart} (hc : c.Sound) {i : Nat} (hi : i < c.size) :
    IsBranch c (c.pathTo i) :=
  ⟨⟨i, hi, Chart.Sound.getLast?_pathTo c i, rfl⟩, hc.head?_pathTo hi, hc.isChain_pathTo hi,
    hc.nodup_pathTo hi⟩

theorem Rooted.isBranch (hc : m.chart.Sound) (h : m.Rooted) :
    m.configuration = [] ∨ IsBranch m.chart m.configuration := by
  rcases h with hnil | ⟨i, hi, hpath⟩
  · exact .inl hnil
  · rw [hpath]
    exact .inr (isBranch_pathTo hc hi)

/-- After every run the active states are none or the path to the last of them; nothing is active
and nothing held unless the machine runs; it is at a leaf as long as nothing has been restored and
no action has failed; and after every microstep that takes a transition with a target and does not
fail, whatever has failed before, it is at the end of the target's initial chain, which is a
leaf. -/
theorem after_configuration {d : Definition} {c : Chart} {initial : Json} {setup : Setup}
    (hbuild : Chart.build d = .ok c) (hcreate : create c initial setup = .ok m₀)
    (inputs : List Input) :
    ((m₀.after inputs).configuration = [] ∨ IsBranch c (m₀.after inputs).configuration) ∧
    ((m₀.after inputs).status ≠ .running →
      (m₀.after inputs).configuration = [] ∧ (m₀.after inputs).invocations = []) ∧
    ((∀ s, .restore s ∉ inputs) →
      (∀ pre input post, inputs = pre ++ input :: post → ¬ (m₀.after pre).ActionFails input) →
      (m₀.after inputs).status = .running → (m₀.after inputs).AtLeaf) ∧
    ∀ input, ∀ p ∈ (m₀.after inputs).microsteps input, ∀ t target diagnostics result,
      p.1.select p.2 = (.ok (some t), diagnostics) → t.target = some target →
      (p.1.microstep p.2).result = .ok result →
      (p.1.microstep p.2).machine.configuration = c.pathTo target ++ c.initialChain target ∧
        (p.1.microstep p.2).machine.AtLeaf := by
  have hm := create_begins (Chart.build_sound hbuild) hcreate
  obtain ⟨hreach, hregular⟩ := after_reaches hm inputs
  have hchart : (m₀.after inputs).chart = c := hreach.chart.trans (create_chart hcreate)
  refine ⟨?_, hregular.atRest, after_atLeaf hm inputs,
    fun input p hp t target diagnostics result hselect htarget hok => ?_⟩
  · rw [← hchart]
    exact hregular.rooted.isBranch hregular.sound
  · have hstep := microsteps_reaches hregular input p hp
    have hpchart : p.1.chart = c := hstep.chart.trans hchart
    have hc : p.1.chart.Sound := by
      rw [hstep.chart]
      exact hregular.sound
    have hrooted := Reaches.rooted hregular.sound hregular.rooted hstep
    obtain ⟨hlt, hpath⟩ := microstep_configuration hc hrooted hselect htarget hok
    have hafter := (microstep_leads hc hrooted p.2).chart
    refine ⟨hpchart ▸ hpath, ?_⟩
    dsimp only at hafter
    rw [← hafter] at hc hlt hpath
    exact atLeaf_of_path hc hlt hpath

/-- A machine that has been started is at a leaf, and so it is when it has gone to its job. -/
theorem after_configuration_job :
    (jobMachine.after [.start]).AtLeaf ∧
    ((jobMachine.after [.start]).microstep ⟨"go", .null⟩).machine.configuration =
        jobChart.pathTo 3 ++ jobChart.initialChain 3 ∧
      ((jobMachine.after [.start]).microstep ⟨"go", .null⟩).machine.AtLeaf := by
  obtain ⟨_, _, hleaf, hstep⟩ := after_configuration build_job create_job [.start]
  have hok : ¬ jobMachine.ActionFails .start := by
    rintro (⟨p, hp, _⟩ | ⟨_, e, he, _⟩ | ⟨hstop, _⟩)
    · exact absurd (show p ∈ [] from hp) List.not_mem_nil
    · cases he
    · cases hstop
  refine ⟨hleaf (by simp) (fun pre input post heq => ?_) rfl,
    hstep (.dispatch ⟨"go", .null⟩) (_, ⟨"go", .null⟩) (List.mem_singleton_self _)
      ⟨2, "go", some 3, none, []⟩ 3 [] (true, []) rfl rfl rfl⟩
  cases pre with
  | nil =>
      cases heq
      exact hok
  | cons => simp at heq

end Statechart.Machine
