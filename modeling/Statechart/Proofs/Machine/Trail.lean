import Statechart.Proofs.Machine.Move

/-!
# The moves of steps and operations

Every part of a step and every operation is led through by moves. A step fails only because of an
action. A transition with a target that does not fail ends with the path to the target and its
initial chain, whatever was active before.
-/
namespace Statechart
open Machine

namespace Attempt

/-- Moves lead through an attempt, and only an action makes it fail. -/
structure Traced (p : Point) (a : Attempt) : Prop where
  leads : Leads p ⟨a.1.machine, []⟩
  error : ∀ e, a.2 = .error e → e.isAction = true

theorem andThen_ok {a : Attempt} {next : Step → Attempt} (h : (a.andThen next).2 = .ok ()) :
    a.2 = .ok () ∧ (next a.1).2 = .ok () ∧ a.andThen next = next a.1 := by
  obtain ⟨s, _ | ⟨⟩⟩ := a
  · cases h
  · exact ⟨rfl, h, rfl⟩

theorem Traced.andThen {p : Point} {a : Attempt} {next : Step → Attempt} (h : a.Traced p)
    (hnext : a.2 = .ok () → (next a.1).Traced ⟨a.1.machine, []⟩) : (a.andThen next).Traced p := by
  obtain ⟨s, e | ⟨⟩⟩ := a
  · exact h
  · exact ⟨h.leads.trans (hnext rfl).leads, (hnext rfl).error⟩

theorem Traced.ok {p : Point} {s : Step} (h : Leads p ⟨s.machine, []⟩) :
    Attempt.Traced p (s, .ok ()) :=
  ⟨h, fun _ he => nomatch he⟩

end Attempt

namespace Step

variable (cause : Cause)

theorem runActions_quiet (actions : List Action) (s : Step) :
    s.machine.Quiet (s.runActions cause actions).1.machine := by
  simp only [runActions]
  split <;> exact ⟨rfl, rfl, rfl, rfl, rfl, _, by simp; rfl, by simp [Effect.shows]⟩

theorem runActions_error {actions : List Action} {s : Step} {e : MachineError}
    (h : (s.runActions cause actions).2 = .error e) : e.isAction = true := by
  simp only [runActions] at h
  split at h
  · cases h
  · cases h
    rfl

theorem runActions_traced (actions : List Action) (s : Step) :
    (s.runActions cause actions).Traced ⟨s.machine, []⟩ :=
  ⟨(runActions_quiet cause actions s).leads, fun _ => runActions_error cause⟩

theorem leaf?_of_quiet {m m' : Machine} (h : m.Quiet m') : m'.leaf? = m.leaf? := by
  simp [leaf?, h.configuration]

theorem exitInnermost_traced (s : Step) : (s.exitInnermost cause).Traced ⟨s.machine, []⟩ := by
  unfold exitInnermost
  split
  · exact .ok (Leads.refl _)
  · next i hi =>
      refine (runActions_traced cause _ s).andThen fun _ => .ok ((Move.exit ?_).leads (by simp))
      rw [leaf?_of_quiet (runActions_quiet cause _ s), hi]

theorem exitInnermost_ok {s : Step} (h : (s.exitInnermost cause).2 = .ok ()) :
    (s.exitInnermost cause).1.machine.configuration = s.machine.configuration.dropLast := by
  unfold exitInnermost at h ⊢
  split
  · next hnone =>
      have hnil : s.machine.configuration = [] := by simpa [leaf?] using hnone
      simp [hnil]
  · next i hi =>
      simp only [hi] at h
      rw [(Attempt.andThen_ok h).2.2]
      simp [update, (leave_leaves _ _).configuration, (runActions_quiet cause _ s).configuration]

theorem exitMany_traced (n : Nat) : ∀ s : Step, (s.exitMany cause n).Traced ⟨s.machine, []⟩ := by
  induction n with
  | zero => exact fun s => .ok (Leads.refl _)
  | succ n ih => exact fun s => (exitInnermost_traced cause s).andThen fun _ => ih _

theorem exitMany_ok (n : Nat) : ∀ {s : Step}, (s.exitMany cause n).2 = .ok () →
    (s.exitMany cause n).1.machine.configuration =
      s.machine.configuration.take (s.machine.configuration.length - n) := by
  induction n with
  | zero => simp [exitMany]
  | succ n ih =>
      intro s h
      unfold exitMany at h ⊢
      obtain ⟨hfirst, hrest, heq⟩ := Attempt.andThen_ok h
      rw [heq, ih hrest, exitInnermost_ok cause hfirst, List.dropLast_eq_take, List.take_take]
      simp only [List.length_take]
      congr 1
      omega

/-- What a path begins with can be activated state by state. -/
theorem activate_guard {m : Machine} {i j : Nat} {rest : List Nat} (hc : m.chart.Sound)
    (hj : j < m.chart.size) (h : m.configuration ++ i :: rest = m.chart.pathTo j) :
    i < m.chart.size ∧ m.configuration ++ [i] = m.chart.pathTo i := by
  have hprefix : m.configuration ++ [i] <+: m.chart.pathTo j := by
    rw [← h]
    exact ⟨rest, by simp⟩
  rcases hc.prefix_pathTo hj hprefix with hnil | ⟨a, ha, hpath⟩
  · simp at hnil
  · have hlast := congrArg List.getLast? hpath
    simp only [List.getLast?_concat, Chart.Sound.getLast?_pathTo, Option.some.injEq] at hlast
    subst hlast
    exact ⟨ha, hpath⟩

theorem activateAll_spec : ∀ (states : List Nat) (s : Step) (awaiting : List Nat) (j : Nat),
    s.machine.chart.Sound → j < s.machine.chart.size →
    s.machine.configuration ++ states = s.machine.chart.pathTo j →
    Leads ⟨s.machine, awaiting⟩
        ⟨(activateAll cause states s).1.1.machine, awaiting ++ (activateAll cause states s).2⟩ ∧
      (∀ e, (activateAll cause states s).1.2 = .error e → e.isAction = true) ∧
      ((activateAll cause states s).1.2 = .ok () →
        (activateAll cause states s).1.1.machine.configuration =
          s.machine.configuration ++ states)
  | [], s, awaiting, j, _, _, _ => by
      refine ⟨?_, fun e he => by simp [activateAll] at he, fun _ => by simp [activateAll]⟩
      simpa only [activateAll, List.append_nil] using Leads.refl _
  | i :: rest, s, awaiting, j, hc, hj, hpath => by
      obtain ⟨hi, hguard⟩ := activate_guard hc hj hpath
      have hactivated : Leads ⟨s.machine, awaiting⟩ ⟨s.machine.activate i, awaiting ++ [i]⟩ :=
        (Move.activate hi hguard).leads (by simp)
      let t : Step := s.update (·.activate i)
      have hquiet := runActions_quiet cause (t.machine.chart.state i).entry t
      simp only [activateAll]
      cases hrun : t.runActions cause (t.machine.chart.state i).entry with
      | mk u result =>
        rw [hrun] at hquiet
        have hleads : Leads ⟨s.machine, awaiting⟩ ⟨u.machine, awaiting ++ [i]⟩ :=
          hactivated.trans hquiet.leads
        have hconfiguration : u.machine.configuration = s.machine.configuration ++ [i] :=
          hquiet.configuration
        cases result with
        | error e =>
          -- the states activated so far stay active, and their invocations are started
          refine ⟨hleads, fun e' he => ?_, fun he => nomatch he⟩
          cases he
          exact runActions_error cause (congrArg Prod.snd hrun)
        | ok _ =>
          have hchart : u.machine.chart = s.machine.chart := hquiet.chart
          have hrest := activateAll_spec rest u (awaiting ++ [i]) j (by rwa [hchart])
            (by rwa [hchart]) (by rw [hconfiguration, hchart, ← hpath]; simp)
          obtain ⟨hmore, herror, hok⟩ := hrest
          refine ⟨?_, herror, fun he => ?_⟩
          · rw [List.append_assoc] at hmore
            exact hleads.trans hmore
          · rw [hok he, hconfiguration]
            simp

theorem startInvocation_leads (m : Machine) (i : Nat) (rest : List Nat) :
    Leads ⟨m, i :: rest⟩ ⟨m.startInvocation i, rest⟩ := by
  cases hv : (m.chart.state i).invoke with
  | none =>
      rw [startInvocation_of_none hv]
      exact (Move.pass hv).leads (by simp)
  | some v => exact (Move.issue hv).leads (by simp)

theorem startInvocation_configuration (m : Machine) (i : Nat) :
    (m.startInvocation i).configuration = m.configuration := by
  cases hv : (m.chart.state i).invoke with
  | none => rw [startInvocation_of_none hv]
  | some v => exact (startInvocation_starts hv).configuration

theorem startInvocations_leads (states : List Nat) : ∀ m : Machine,
    Leads ⟨m, states⟩ ⟨m.startInvocations states, []⟩ := by
  induction states with
  | nil => exact fun m => Leads.refl _
  | cons i rest ih => exact fun m => (startInvocation_leads m i rest).trans (ih _)

theorem startInvocations_configuration (states : List Nat) : ∀ m : Machine,
    (m.startInvocations states).configuration = m.configuration := by
  induction states with
  | nil => exact fun _ => rfl
  | cons i rest ih => exact fun m => (ih _).trans (startInvocation_configuration m i)

section enter
variable {cause : Cause} {states : List Nat} {s : Step} {j : Nat}

theorem enter_traced (cause : Cause) (hc : s.machine.chart.Sound) (hj : j < s.machine.chart.size)
    (hpath : s.machine.configuration ++ states = s.machine.chart.pathTo j) :
    (s.enter cause states).Traced ⟨s.machine, []⟩ := by
  obtain ⟨hleads, herror, _⟩ := activateAll_spec cause states s [] j hc hj hpath
  exact ⟨hleads.trans (startInvocations_leads _ _), herror⟩

theorem enter_ok (cause : Cause) (hc : s.machine.chart.Sound) (hj : j < s.machine.chart.size)
    (hpath : s.machine.configuration ++ states = s.machine.chart.pathTo j)
    (h : (s.enter cause states).2 = .ok ()) :
    (s.enter cause states).1.machine.configuration = s.machine.chart.pathTo j := by
  obtain ⟨_, _, hok⟩ := activateAll_spec cause states s [] j hc hj hpath
  rw [← hpath, ← hok h]
  exact startInvocations_configuration _ _

end enter

/-- How many of the active states a transition to a target keeps. -/
def kept (c : Chart) (source target : Nat) : Nat :=
  match c.transitionDomain source target with
  | some domain => (c.state domain).depth + 1
  | none => 0

/-- The states that stay active and those that are entered make up the path to the target. -/
theorem kept_append_entered {m : Machine} (hc : m.chart.Sound) (hm : m.Rooted)
    {source target : Nat} (hsource : source ∈ m.configuration) (htarget : target < m.chart.size) :
    m.configuration.take (m.configuration.length -
        (m.configuration.length - kept m.chart source target)) ++
      (m.chart.pathTo target).drop (kept m.chart source target) = m.chart.pathTo target := by
  unfold kept
  cases hdomain : m.chart.transitionDomain source target with
  | none => simp
  | some domain =>
      rcases hm with hnil | ⟨leaf, hleaf, hpath⟩
      · simp [hnil] at hsource
      · obtain ⟨hup, hdown⟩ := Chart.Sound.domain_mem hdomain
        rw [hpath] at hsource
        have hactive : domain ∈ m.chart.pathTo leaf := (hc.pathTo_prefix hleaf hsource).subset hup
        have hlong : (m.chart.state domain).depth + 1 ≤ (m.chart.pathTo leaf).length := by
          rw [← hc.length_pathTo (hc.lt_of_mem_pathTo hleaf hactive)]
          exact (hc.pathTo_prefix hleaf hactive).length_le
        rw [hpath, Nat.sub_sub_self hlong, hc.take_pathTo hleaf hactive,
          ← hc.take_pathTo htarget hdown, List.take_append_drop]

section execute
variable {m : Machine} {t : Transition} {event : Event} {target : Nat} {raised : List Event}

/-- The parts of a transition with a target, from the exits to the entries. -/
def move (t : Transition) (event : Event) (target : Nat) (s : Step) : Attempt :=
  let chart := s.machine.chart
  let cause : Cause := ⟨some event, (chart.state t.source).id, (chart.state target).id⟩
  let keep := kept chart t.source target
  ((s.exitMany cause (s.machine.configuration.length - keep)).andThen
    (runActions cause t.actions)).andThen
      (enter cause ((chart.pathTo target).drop keep ++ chart.initialChain target))

theorem execute_of_some (h : t.target = some target) (s : Step) :
    s.execute t event = (move t event target s).andThen fun u =>
      (u.notify (.transitioned s.machine.chart.id event.name
        (s.machine.chart.state t.source).id (some (s.machine.chart.state target).id)), .ok ()) := by
  unfold execute
  rw [h]
  rfl

/-- Before the entries of a transition that has not failed, the kept states are active. -/
theorem move_entered (hc : m.chart.Sound) (hm : m.Rooted) (hsource : t.source ∈ m.configuration)
    (htarget : target < m.chart.size) {cause : Cause}
    (h : (((⟨m, raised⟩ : Step).exitMany cause
      (m.configuration.length - kept m.chart t.source target)).andThen
        (runActions cause t.actions)).2 = .ok ()) :
    let u := (((⟨m, raised⟩ : Step).exitMany cause
      (m.configuration.length - kept m.chart t.source target)).andThen
        (runActions cause t.actions)).1
    ∃ leaf < u.machine.chart.size, u.machine.chart = m.chart ∧
      u.machine.configuration ++
        ((m.chart.pathTo target).drop (kept m.chart t.source target) ++
          m.chart.initialChain target) = u.machine.chart.pathTo leaf ∧
      m.chart.pathTo target ++ m.chart.initialChain target = m.chart.pathTo leaf ∧
      (m.chart.state leaf).isLeaf = true := by
  intro u
  obtain ⟨hexits, _, heq⟩ := Attempt.andThen_ok h
  have hquiet := runActions_quiet cause t.actions
    ((⟨m, raised⟩ : Step).exitMany cause (m.configuration.length - kept m.chart t.source target)).1
  rw [← heq] at hquiet
  have hchart : u.machine.chart = m.chart :=
    hquiet.chart.trans (exitMany_traced cause _ ⟨m, raised⟩).leads.chart
  have hconfiguration : u.machine.configuration = m.configuration.take (m.configuration.length -
      (m.configuration.length - kept m.chart t.source target)) :=
    hquiet.configuration.trans (exitMany_ok cause _ hexits)
  obtain ⟨leaf, hleaf, hpath, hend⟩ := hc.pathTo_append_initialChain htarget
  refine ⟨leaf, by rwa [hchart], hchart, ?_, hpath, hend⟩
  rw [hconfiguration, ← List.append_assoc, kept_append_entered hc hm hsource htarget, hpath, hchart]

theorem move_traced (hc : m.chart.Sound) (hm : m.Rooted) (hsource : t.source ∈ m.configuration)
    (htarget : target < m.chart.size) : (move t event target ⟨m, raised⟩).Traced ⟨m, []⟩ := by
  refine ((exitMany_traced _ _ ⟨m, raised⟩).andThen fun _ => runActions_traced _ _ _).andThen
    fun hok => ?_
  obtain ⟨leaf, hleaf, hchart, hpath, _⟩ := move_entered hc hm hsource htarget hok
  exact enter_traced _ (by rwa [hchart]) hleaf hpath

theorem move_ok (hc : m.chart.Sound) (hm : m.Rooted) (hsource : t.source ∈ m.configuration)
    (htarget : target < m.chart.size) (h : (move t event target ⟨m, raised⟩).2 = .ok ()) :
    (move t event target ⟨m, raised⟩).1.machine.configuration =
      m.chart.pathTo target ++ m.chart.initialChain target := by
  obtain ⟨hbefore, hentered, heq⟩ := Attempt.andThen_ok h
  obtain ⟨leaf, hleaf, hchart, hpath, hchain, _⟩ := move_entered hc hm hsource htarget hbefore
  have hentry := enter_ok _ (by rwa [hchart]) hleaf hpath hentered
  rw [hchain, ← hchart, ← hentry]
  exact congrArg (fun a : Attempt => a.1.machine.configuration) heq

theorem execute_traced (event : Event) (raised : List Event) (hc : m.chart.Sound) (hm : m.Rooted)
    (hsource : t.source ∈ m.configuration)
    (htarget : ∀ target, t.target = some target → target < m.chart.size) :
    ((⟨m, raised⟩ : Step).execute t event).Traced ⟨m, []⟩ := by
  cases ht : t.target with
  | none =>
      simp only [execute, ht]
      exact (runActions_traced _ _ ⟨m, raised⟩).andThen fun _ => .ok (Quiet.notify _ _ rfl).leads
  | some target =>
      rw [execute_of_some ht]
      exact (move_traced hc hm hsource (htarget target ht)).andThen fun _ =>
        .ok (Quiet.notify _ _ rfl).leads

/-- A transition with a target that has not failed ends at the bottom of the target's initial
chain. -/
theorem execute_ok_of_some (hc : m.chart.Sound) (hm : m.Rooted)
    (hsource : t.source ∈ m.configuration) (htarget : target < m.chart.size)
    (ht : t.target = some target) {s : Step}
    (h : (⟨m, raised⟩ : Step).execute t event = (s, .ok ())) :
    s.machine.configuration = m.chart.pathTo target ++ m.chart.initialChain target := by
  rw [execute_of_some ht] at h
  obtain ⟨hmove, _, heq⟩ := Attempt.andThen_ok (congrArg Prod.snd h)
  rw [← move_ok hc hm hsource htarget hmove]
  rw [h] at heq
  exact congrArg (fun a : Attempt => a.1.machine.configuration) heq

theorem execute_ok_of_none (ht : t.target = none) {s : Step}
    (h : (⟨m, raised⟩ : Step).execute t event = (s, .ok ())) :
    s.machine.configuration = m.configuration := by
  simp only [execute, ht] at h
  obtain ⟨_, _, heq⟩ := Attempt.andThen_ok (congrArg Prod.snd h)
  rw [h] at heq
  have hs := congrArg (fun a : Attempt => a.1.machine.configuration) heq
  exact hs.trans (runActions_quiet _ _ _).configuration

end execute

end Step

namespace Machine

variable {m : Machine} {event : Event}

/-! ## Microsteps -/

theorem mem_candidates {t : Transition} (hc : m.chart.Sound) (h : t ∈ m.candidates event) :
    t.source ∈ m.configuration ∧ ∀ target, t.target = some target → target < m.chart.size := by
  simp only [candidates, List.mem_flatMap, List.mem_reverse] at h
  obtain ⟨i, hi, ht⟩ := h
  simp only [State.transitionsFor] at ht
  cases hlist : Keyed.get? event.name (m.chart.state i).transitions with
  | none => simp [hlist] at ht
  | some list =>
      simp only [hlist, Option.getD_some] at ht
      obtain ⟨hsource, htarget⟩ := hc.transition i _ (Keyed.mem_of_get? hlist) t ht
      exact ⟨by rwa [hsource], htarget⟩

theorem choose_some {t : Transition} : ∀ {list : List Transition},
    (m.choose event list).1 = .ok (some t) → t ∈ list
  | [], h => by simp [choose] at h
  | u :: rest, h => by
      simp only [choose] at h
      split at h
      · cases h
        simp
      · exact List.mem_cons_of_mem _ (choose_some h)
      · split at h
        · cases h
        · exact List.mem_cons_of_mem _ (choose_some h)

theorem choose_error {e : MachineError} : ∀ {list : List Transition},
    (m.choose event list).1 = .error e → e.isAction = false
  | [], h => by simp [choose] at h
  | u :: rest, h => by
      simp only [choose] at h
      split at h
      · cases h
      · exact choose_error h
      · split at h
        · cases h
          rfl
        · exact choose_error h

/-- A microstep fails to select, selects nothing, or takes a transition of an active state, which
succeeds or fails. -/
inductive Microstep (m : Machine) (event : Event) : Run (Bool × List Event) → Prop where
  | unselected {e diagnostics} (h : e.isAction = false) :
    Microstep m event ⟨m, diagnostics, .error e⟩
  | ignored {diagnostics} : Microstep m event ⟨m, diagnostics, .ok (false, [])⟩
  | taken {t s diagnostics} (ht : t ∈ m.candidates event)
      (h : Step.execute t event ⟨m, []⟩ = (s, .ok ())) :
    Microstep m event ⟨s.machine, diagnostics, .ok (true, s.raised)⟩
  | failed {t s e diagnostics} (ht : t ∈ m.candidates event)
      (h : Step.execute t event ⟨m, []⟩ = (s, .error e)) :
    Microstep m event ⟨s.machine, diagnostics, .error e⟩

theorem microstep_cases (m : Machine) (event : Event) : Microstep m event (m.microstep event) := by
  unfold microstep
  split
  · next e diagnostics hselect => exact .unselected (choose_error (congrArg Prod.fst hselect))
  · exact .ignored
  · next t diagnostics hselect =>
      have ht : t ∈ m.candidates event := choose_some (congrArg Prod.fst hselect)
      split
      · next s h => exact .taken ht h
      · next s e h => exact .failed ht h

theorem execute_leads {t : Transition} {s : Step} {result : Except MachineError Unit}
    (hc : m.chart.Sound) (hm : m.Rooted) (ht : t ∈ m.candidates event)
    (h : Step.execute t event ⟨m, []⟩ = (s, result)) : Leads ⟨m, []⟩ ⟨s.machine, []⟩ := by
  obtain ⟨hsource, htarget⟩ := mem_candidates hc ht
  have htraced := Step.execute_traced event [] hc hm hsource htarget
  rw [h] at htraced
  exact htraced.leads

theorem microstep_leads (hc : m.chart.Sound) (hm : m.Rooted) (event : Event) :
    Leads ⟨m, []⟩ ⟨(m.microstep event).machine, []⟩ := by
  cases hrun : m.microstep event with
  | mk m' diagnostics result =>
    have hcases := microstep_cases m event
    rw [hrun] at hcases
    cases hcases with
    | unselected | ignored => exact Leads.refl _
    | taken ht h => exact execute_leads hc hm ht h
    | failed ht h => exact execute_leads hc hm ht h

/-- After some moves the machine still runs a sound chart along a path. -/
theorem Leads.still {m m' : Machine} (h : Leads ⟨m, []⟩ ⟨m', []⟩) (hc : m.chart.Sound)
    (hm : m.Rooted) : m'.chart.Sound ∧ m'.Rooted :=
  ⟨by rw [show m'.chart = m.chart from h.chart]; exact hc, h.rooted hc hm⟩

/-! ## Operations -/

theorem drain_leads (budget : Nat) : ∀ (m : Machine) (queue : List Event), m.chart.Sound →
    m.Rooted → Leads ⟨m, []⟩ ⟨(m.drain budget queue).machine, []⟩ := by
  induction budget with
  | zero =>
      intro m queue _ _
      cases queue <;> exact Leads.refl _
  | succ budget ih =>
      intro m queue hc hm
      cases queue with
      | nil => exact Leads.refl _
      | cons event queue =>
          have hstep := microstep_leads hc hm event
          simp only [drain]
          split
          · next m' diagnostics e hrun =>
              rwa [hrun] at hstep
          · next m' diagnostics handled raised hrun =>
              rw [hrun] at hstep
              obtain ⟨hc', hm'⟩ := hstep.still hc hm
              exact hstep.trans (ih m' (queue ++ raised) hc' hm')

theorem runEvents_leads (hc : m.chart.Sound) (hm : m.Rooted) (queue : List Event) :
    Leads ⟨m, []⟩ ⟨(m.runEvents queue).machine, []⟩ :=
  drain_leads _ m queue hc hm

theorem runToCompletion_leads (hc : m.chart.Sound) (hm : m.Rooted) (event : Event) :
    Leads ⟨m, []⟩ ⟨(m.runToCompletion event).machine, []⟩ := by
  have hrun := runEvents_leads hc hm [event]
  unfold runToCompletion
  split
  · next m' diagnostics e h =>
      rwa [h] at hrun
  · next m' diagnostics processed h =>
      rw [h] at hrun
      exact hrun.trans (Quiet.notify _ _ rfl).leads

theorem processCompletion_leads (hc : m.chart.Sound) (hm : m.Rooted) (c : Completion) :
    Leads ⟨m, []⟩ ⟨(m.processCompletion c).machine, []⟩ := by
  unfold processCompletion
  split
  · next h =>
      have hrun := runToCompletion_leads (m := m.accept c.token) hc hm c.toEvent
      exact ((Move.accept h).leads (by simp)).trans hrun
  · exact Leads.refl _

theorem processAll_leads (completions : List Completion) : ∀ m : Machine, m.chart.Sound →
    m.Rooted → Leads ⟨m, []⟩ ⟨(m.processAll completions).1, []⟩ := by
  induction completions with
  | nil => exact fun m _ _ => Leads.refl _
  | cons c rest ih =>
      intro m hc hm
      have hfirst := processCompletion_leads hc hm c
      obtain ⟨hc', hm'⟩ := hfirst.still hc hm
      exact hfirst.trans (ih _ hc' hm')

theorem takePending_quiet (m : Machine) : m.Quiet m.takePending.1 :=
  Idles.quiet ⟨m.setup, [], m.signalled, rfl⟩

theorem dispatch_leads (hc : m.chart.Sound) (hm : m.Rooted) (event : Event) :
    Leads ⟨m, []⟩ ⟨(m.dispatch event).1, []⟩ := by
  unfold dispatch
  split
  · exact Leads.refl _
  · have htaken := (takePending_quiet m).leads (a := [])
    obtain ⟨hc', hm'⟩ := htaken.still hc hm
    have hall := htaken.trans (processAll_leads m.pending _ hc' hm')
    obtain ⟨hc'', hm''⟩ := hall.still hc hm
    have hrun := hall.trans (runToCompletion_leads hc'' hm'' event)
    simp only [takePending] at hrun ⊢
    split
    · next h =>
        rwa [h] at hrun
    · next h =>
        rwa [h] at hrun

/-- A running machine processes its reports, then the event. -/
theorem dispatch_of_running (h : m.status = .running) (event : Event) : m.dispatch event =
    let batch := m.takePending.1.processAll m.pending
    let run := batch.1.runToCompletion event
    (run.machine, run.result.map fun (handled, processed) => {
      event := event.name
      handled
      configuration := run.machine.configurationIds
      processed := processedCount (batch.2.map (·.2.2)) + processed
      diagnostics := batch.2.flatMap (fun (c, diagnostics, result) =>
        reportDiagnostics c diagnostics result) ++ run.diagnostics }) := by
  unfold dispatch require
  simp only [if_pos h, takePending]
  split
  · next heq => simp [heq, Except.map]
  · next heq => simp [heq, Except.map]

theorem dispatch_fst_of_running (h : m.status = .running) : (m.dispatch event).1 =
    ((m.takePending.1.processAll m.pending).1.runToCompletion event).machine := by
  rw [dispatch_of_running h]

theorem processPending_fst (m : Machine) : m.processPending.1 =
    if m.status = .running then (m.takePending.1.processAll m.pending).1 else m.takePending.1 := by
  by_cases hrunning : m.status = .running
  · have htaken : m.takePending.1.status = .running := hrunning
    unfold processPending
    simp only [if_pos hrunning]
    rw [if_pos htaken]
    split <;> rfl
  · have htaken : m.takePending.1.status ≠ .running := hrunning
    unfold processPending
    simp only [if_neg hrunning]
    rw [if_neg htaken]

theorem processPending_leads (hc : m.chart.Sound) (hm : m.Rooted) :
    Leads ⟨m, []⟩ ⟨m.processPending.1, []⟩ := by
  have htaken := (takePending_quiet m).leads (a := [])
  obtain ⟨hc', hm'⟩ := htaken.still hc hm
  rw [processPending_fst]
  split
  · exact htaken.trans (processAll_leads m.pending _ hc' hm')
  · exact htaken

/-- The initial configuration is the path to a leaf. -/
theorem initial_path {c : Chart} (hc : c.Sound) : ∃ leaf < c.size,
    Chart.root :: c.initialChain Chart.root = c.pathTo leaf ∧ (c.state leaf).isLeaf = true := by
  obtain ⟨leaf, hleaf, hpath, hend⟩ := hc.pathTo_append_initialChain hc.root_lt
  rw [hc.pathTo_root] at hpath
  exact ⟨leaf, hleaf, hpath, hend⟩

theorem boot_leads (hc : m.chart.Sound) (hempty : m.configuration = []) :
    Leads ⟨{ m with status := .running }, []⟩ ⟨m.boot.1.machine, []⟩ := by
  obtain ⟨leaf, hleaf, hpath, _⟩ := initial_path hc
  exact (Step.enter_traced (s := ⟨{ m with status := .running }, []⟩)
    ⟨none, m.chart.id, m.chart.id⟩ hc hleaf (by simpa [hempty] using hpath)).leads

theorem announce_quiet (m : Machine) (chart : String) : m.Quiet (m.announce chart) :=
  Quiet.notify m _ rfl

/-- A start is refused, or it is led through by moves of a running machine. -/
theorem start_leads (hc : m.chart.Sound) (hempty : m.configuration = []) :
    m.start.1 = m ∨ Leads ⟨{ m with status := .running }, []⟩ ⟨m.start.1, []⟩ := by
  have hboot := boot_leads hc hempty
  rw [start_eq]
  split
  · split
    · exact .inl rfl
    · split
      · next h =>
          rw [h] at hboot
          exact .inr hboot
      · next s h =>
          rw [h] at hboot
          have hrun : Leads ⟨{ m with status := .running }, []⟩
              ⟨s.machine.announce m.chart.id, []⟩ :=
            hboot.trans (announce_quiet s.machine _).leads
          obtain ⟨hc', hm'⟩ := hrun.still hc (.inl hempty)
          exact .inr (hrun.trans (runEvents_leads hc' hm' _))
  · exact .inl rfl

/-- A fresh machine takes over a snapshot that is one of its chart. -/
theorem restore_of_valid {m : Machine} {s : Snapshot} {configuration : List Nat}
    {context : Context} (hstatus : m.status = .uninitialized) (hchart : s.chart = m.chart.id)
    (hsum : s.checksum = m.chart.checksum)
    (hconfiguration : snapshotConfiguration m.chart s = .ok configuration)
    (hcontext : Context.ofJson s.context = .ok context) :
    m.restore s =
      (let taken := { m with configuration, context, status := s.status }
        if s.status = .running then
          (taken.startInvocations configuration).announce
            (taken.startInvocations configuration).chart.id
        else taken, .ok ()) := by
  unfold restore require
  simp only [hstatus, hchart, hsum, hconfiguration, hcontext, Except.mapError, bind, Except.bind,
    pure, Except.pure, ne_eq, not_true_eq_false, if_true, if_false]
  split <;> rfl

/-- A restore that is not refused takes over the context, the status and the configuration of a
snapshot; a running machine starts its invocations again. -/
theorem restore_cases (m : Machine) (s : Snapshot) :
    (∃ e, m.restore s = (m, .error e)) ∨
      ∃ configuration context, m.status = .uninitialized ∧
        snapshotConfiguration m.chart s = .ok configuration ∧
        Context.ofJson s.context = .ok context ∧
        (m.restore s).1 =
          let taken := { m with configuration, context, status := s.status }
          if s.status = .running then
            (taken.startInvocations configuration).announce
              (taken.startInvocations configuration).chart.id
          else taken := by
  by_cases hstatus : m.status = .uninitialized
  swap
  · exact .inl ⟨.lifecycle .restore m.status, by
      simp [restore, require, hstatus, bind, Except.bind]⟩
  by_cases hchart : s.chart = m.chart.id
  swap
  · exact .inl ⟨.invalidDefinition (.foreignSnapshot s.chart m.chart.id), by
      simp [restore, require, hstatus, hchart, bind, Except.bind, throw, throwThe,
        MonadExceptOf.throw]⟩
  by_cases hsum : s.checksum = m.chart.checksum
  swap
  · exact .inl ⟨.checksumMismatch m.chart.checksum s.checksum, by
      simp [restore, require, hstatus, hchart, hsum, bind, Except.bind, throw, throwThe,
        MonadExceptOf.throw]⟩
  cases hconfiguration : snapshotConfiguration m.chart s with
  | error e =>
      exact .inl ⟨e, by
        simp [restore, require, hstatus, hchart, hsum, hconfiguration, bind, Except.bind]⟩
  | ok configuration =>
      cases hcontext : Context.ofJson s.context with
      | error e =>
          exact .inl ⟨.ofContext e, by
            simp [restore, require, hstatus, hchart, hsum, hconfiguration, hcontext,
              Except.mapError, bind, Except.bind]⟩
      | ok context =>
          exact .inr ⟨configuration, context, hstatus, rfl, rfl, congrArg Prod.fst
            (restore_of_valid hstatus hchart hsum hconfiguration hcontext)⟩

theorem lookup_lt {c : Chart} {id : String} {i : Nat} (h : c.lookup id = some i) : i < c.size :=
  (Array.findIdx?_eq_some_iff_getElem.mp h).1

/-- The configuration of a snapshot is the path to its active state if it is one of a running
machine, and empty otherwise. -/
theorem snapshotConfiguration_ok {c : Chart} {s : Snapshot} {configuration : List Nat}
    (h : snapshotConfiguration c s = .ok configuration) :
    (s.status = .running ∧ ∃ i < c.size, configuration = c.pathTo i) ∨
      (s.status ≠ .running ∧ configuration = []) := by
  unfold snapshotConfiguration at h
  split at h
  · next hstatus _ =>
      split at h
      · next i hi =>
          cases h
          exact .inl ⟨hstatus, i, lookup_lt hi, rfl⟩
      · cases h
  · cases h
  · next hother hnone =>
      cases h
      refine .inr ⟨fun hstatus => ?_, rfl⟩
      cases hactive : s.active with
      | none => exact hnone hstatus hactive
      | some id => exact hother id hstatus hactive

/-- The states of a path become active again one by one. -/
theorem resume_leads : ∀ (states : List Nat) (m : Machine) (awaiting : List Nat) (j : Nat),
    m.chart.Sound → j < m.chart.size → m.configuration ++ states = m.chart.pathTo j →
    Leads ⟨m, awaiting⟩
      ⟨{ m with configuration := m.configuration ++ states }, awaiting ++ states⟩
  | [], m, awaiting, _, _, _, _ => by
      simpa only [List.append_nil] using Leads.refl _
  | i :: rest, m, awaiting, j, hc, hj, hpath => by
      obtain ⟨hi, hguard⟩ := Step.activate_guard hc hj hpath
      have hfirst : Leads ⟨m, awaiting⟩
          ⟨{ m with configuration := m.configuration ++ [i] }, awaiting ++ [i]⟩ :=
        (Move.resume hi hguard).leads (by simp)
      have hrest := resume_leads rest { m with configuration := m.configuration ++ [i] }
        (awaiting ++ [i]) j hc hj (by simpa using hpath)
      simp only [List.append_assoc, List.singleton_append] at hrest
      exact hfirst.trans hrest

theorem adopt_leads {i : Nat} (hc : m.chart.Sound) (hi : i < m.chart.size)
    (hempty : m.configuration = []) :
    Leads ⟨m, []⟩ ⟨{ m with configuration := m.chart.pathTo i }, m.chart.pathTo i⟩ := by
  have hresume := resume_leads (m.chart.pathTo i) m [] i hc hi (by simp [hempty])
  rwa [hempty, List.nil_append] at hresume

/-- A restore is refused, or it is led through by moves of a machine in the status of the
snapshot, where nothing is active unless that is running. -/
theorem restore_leads (hc : m.chart.Sound) (hempty : m.configuration = []) (s : Snapshot) :
    (m.restore s).1 = m ∨ m.status = .uninitialized ∧
      Leads ⟨{ m with status := s.status }, []⟩ ⟨(m.restore s).1, []⟩ ∧
      (s.status ≠ .running →
        (m.restore s).1.configuration = [] ∧ (m.restore s).1.invocations = m.invocations) := by
  rcases restore_cases m s with ⟨e, h⟩ | ⟨configuration, context, hstatus, hsnapshot, _, h⟩
  · exact .inl (congrArg Prod.fst h)
  · refine .inr ⟨hstatus, ?_⟩
    have hquiet : { m with status := s.status }.Quiet { m with context, status := s.status } :=
      ⟨rfl, rfl, rfl, rfl, rfl, [], by simp, by simp⟩
    rw [h]
    rcases snapshotConfiguration_ok hsnapshot with ⟨hrunning, i, hi, rfl⟩ | ⟨hnot, hnil⟩
    · have hadopt := adopt_leads (m := { m with context, status := s.status }) hc hi hempty
      have hstart := Step.startInvocations_leads (m.chart.pathTo i)
        { m with configuration := m.chart.pathTo i, context, status := s.status }
      simp only [if_pos hrunning]
      exact ⟨((hquiet.leads.trans hadopt).trans hstart).trans (Quiet.notify _ _ rfl).leads,
        fun hnot => absurd hrunning hnot⟩
    · simp only [if_neg hnot]
      refine ⟨?_, fun _ => ⟨hnil, trivial⟩⟩
      rw [hnil, ← hempty]
      exact hquiet.leads

theorem exitAll_leads (n : Nat) : ∀ s : Step,
    Leads ⟨s.machine, []⟩ ⟨(exitAll n s).1.machine, []⟩ := by
  induction n with
  | zero => exact fun s => Leads.refl _
  | succ n ih =>
      intro s
      unfold exitAll
      split
      · exact Leads.refl _
      · next i hi =>
          have hquiet := Step.runActions_quiet
            ⟨none, (s.machine.chart.state i).id, "(stopped)"⟩ (s.machine.chart.state i).exit s
          have hleaf := (Step.leaf?_of_quiet hquiet).trans hi
          have hleave := hquiet.leads.trans ((Move.exit hleaf).leads (by simp))
          have hrest := hleave.trans (ih (((s.runActions
            ⟨none, (s.machine.chart.state i).id, "(stopped)"⟩
            (s.machine.chart.state i).exit).1).update (·.leave i)))
          dsimp only
          split <;> exact hrest

/-- Every active state is left, whatever its exit actions do. -/
theorem exitAll_configuration (n : Nat) : ∀ s : Step, s.machine.configuration.length ≤ n →
    (exitAll n s).1.machine.configuration = [] := by
  induction n with
  | zero => exact fun s h => List.length_eq_zero_iff.mp (Nat.le_zero.mp h)
  | succ n ih =>
      intro s h
      unfold exitAll
      split
      · next hnone => simpa [leaf?] using hnone
      · next i hi =>
          have hquiet := Step.runActions_quiet
            ⟨none, (s.machine.chart.state i).id, "(stopped)"⟩ (s.machine.chart.state i).exit s
          have hrest := ih (((s.runActions
            ⟨none, (s.machine.chart.state i).id, "(stopped)"⟩
            (s.machine.chart.state i).exit).1).update (·.leave i)) (by
              simp only [Step.update, (leave_leaves _ _).configuration, hquiet.configuration,
                List.length_dropLast]
              omega)
          dsimp only
          split <;> exact hrest

/-- A machine that stops is left, gives up what it holds, and tells observers. -/
theorem stop_cases (m : Machine) : (m.status ≠ .running ∧ m.stop.1 = m) ∨
    (m.status = .running ∧ m.stop.1 =
      { (exitAll m.configuration.length ⟨m, []⟩).1.machine.revokeAll with
        pending := [], status := .stopped }.notify
          (.stopped (exitAll m.configuration.length ⟨m, []⟩).1.machine.chart.id)) := by
  unfold stop require
  by_cases hstatus : m.status = .running
  · refine .inr ⟨hstatus, ?_⟩
    simp only [hstatus, if_true]
    split <;> rfl
  · exact .inl ⟨hstatus, by simp [hstatus]⟩

/-- When nothing is held once all states are left, moves lead through a stop. -/
theorem stop_reaches
    (hnone : (exitAll m.configuration.length ⟨m, []⟩).1.machine.invocations = []) :
    m.Reaches m.stop.1 := by
  rcases stop_cases m with ⟨_, h⟩ | ⟨_, h⟩
  · rw [h]
    exact Reaches.refl m
  · have hexits := exitAll_leads m.configuration.length ⟨m, []⟩
    rw [h]
    generalize (exitAll m.configuration.length ⟨m, []⟩).1.machine = u at hnone hexits
    have hquiet : u.Quiet { u.revokeAll with pending := [] } :=
      ⟨rfl, rfl, rfl, hnone.symm, rfl, [], by simp [revokeAll, hnone], by simp⟩
    have hstopped := (hexits.trans hquiet.leads).reaches.trans (Reaches.become _ .stopped)
    exact hstopped.trans (Quiet.notify _ _ rfl).leads.reaches

end Machine

end Statechart
