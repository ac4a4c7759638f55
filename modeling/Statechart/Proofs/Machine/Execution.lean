import Statechart.Proofs.Machine.Sequence
import Statechart.Proofs.Machine.Uprooted

/-!
# Taking a transition

What taking a transition does is known before it is taken: the active states below its domain are
left, innermost first; its actions are run; the states on the path to the target below the domain
and on the initial chain of the target are activated, outermost first, each followed by its entry
actions; their invocations are started. This sequence is followed to its end, or up to the first
action that fails, and then what has been activated so far still gets its invocations. That the
machine finds these states by counting is sound because it always stands on a path from the root.
-/
namespace Statechart

namespace Chart

/-- Whether a state is strictly below a domain. If there is none, every state is. -/
def isBelow (c : Chart) (domain : Option Nat) (i : Nat) : Bool :=
  match domain with
  | some domain => i != domain && c.isWithin i domain
  | none => true

variable {c : Chart}

/-- No state on the path to a domain is below it. -/
theorem Sound.isBelow_of_mem_pathTo (hc : c.Sound) {domain : Nat} (hdomain : domain < c.size)
    {i : Nat} (hi : i ∈ c.pathTo domain) : c.isBelow (some domain) i = false := by
  by_contra hbelow
  simp only [isBelow, Bool.not_eq_false, Bool.and_eq_true, bne_iff_ne, isWithin_iff] at hbelow
  have hle := hc.le_of_mem_pathTo hdomain hi
  have hge := hc.le_of_mem_pathTo (hc.lt_of_mem_pathTo hdomain hi) hbelow.2
  exact hbelow.1 (le_antisymm hle hge)

/-- The states of a path that are below one of them are those that come after it. -/
theorem Sound.filter_isBelow (hc : c.Sound) {leaf domain : Nat} (hleaf : leaf < c.size)
    (hdomain : domain ∈ c.pathTo leaf) : (c.pathTo leaf).filter (c.isBelow (some domain)) =
      (c.pathTo leaf).drop ((c.state domain).depth + 1) := by
  have hsplit : c.pathTo domain ++ (c.pathTo leaf).drop ((c.state domain).depth + 1) =
      c.pathTo leaf := by
    rw [← hc.take_pathTo hleaf hdomain, List.take_append_drop]
  have hincreasing := hc.pathTo_increasing hleaf
  rw [← hsplit] at hincreasing
  have hlater := (List.pairwise_append.mp hincreasing).2.2
  have hlt := hc.lt_of_mem_pathTo hleaf hdomain
  have habove : (c.pathTo domain).filter (c.isBelow (some domain)) = [] := by
    rw [List.filter_eq_nil_iff]
    intro i hi
    simp [hc.isBelow_of_mem_pathTo hlt hi]
  have hbelow : ((c.pathTo leaf).drop ((c.state domain).depth + 1)).filter
      (c.isBelow (some domain)) = (c.pathTo leaf).drop ((c.state domain).depth + 1) := by
    rw [List.filter_eq_self]
    intro i hi
    have hafter : domain < i :=
      hlater domain (List.mem_of_getLast? (Sound.getLast?_pathTo c domain)) i hi
    have hpath : i ∈ c.pathTo leaf := List.mem_of_mem_drop hi
    simp only [isBelow, Bool.and_eq_true, bne_iff_ne, isWithin_iff]
    refine ⟨hafter.ne', ?_⟩
    rcases List.prefix_or_prefix_of_prefix (hc.pathTo_prefix hleaf hdomain)
        (hc.pathTo_prefix hleaf hpath) with hprefix | hprefix
    · exact hprefix.subset (List.mem_of_getLast? (Sound.getLast?_pathTo c domain))
    · have hmem := hprefix.subset (List.mem_of_getLast? (Sound.getLast?_pathTo c i))
      exact absurd (hc.le_of_mem_pathTo hlt hmem) (not_le.mpr hafter)
  conv_lhs => rw [← hsplit, List.filter_append, habove, hbelow, List.nil_append]

/-- The source and the target of a transition are below its domain. -/
theorem Sound.isBelow_transitionDomain (hc : c.Sound) {source : Nat} (hsource : source < c.size)
    (target : Nat) :
    c.isBelow (c.transitionDomain source target) source = true ∧
      c.isBelow (c.transitionDomain source target) target = true := by
  cases hdomain : c.transitionDomain source target with
  | none => exact ⟨rfl, rfl⟩
  | some domain =>
      obtain ⟨hup, hdown⟩ := domain_mem hdomain
      have hne : source ≠ domain := by
        rintro rfl
        have hnodup := hc.nodup_pathTo hsource
        rw [pathTo, List.nodup_reverse, List.nodup_cons] at hnodup
        exact hnodup.1 (List.mem_of_find?_eq_some hdomain)
      have hchosen := List.find?_some hdomain
      simp only [Bool.and_eq_true, bne_iff_ne] at hchosen
      simp [isBelow, isWithin_iff, hup, hdown, hne, hchosen.1]

end Chart

namespace Machine

/-- The states that a transition exits, innermost first: those below its domain. -/
def exited (m : Machine) (t : Transition) : List Nat :=
  match t.target with
  | some target =>
    (m.configuration.filter (m.chart.isBelow (m.chart.transitionDomain t.source target))).reverse
  | none => []

/-- The states that a transition enters, outermost first: those on the path to the target below
the domain, and the initial chain of the target. -/
def entered (m : Machine) (t : Transition) : List Nat :=
  match t.target with
  | some target =>
    (m.chart.pathTo target).filter (m.chart.isBelow (m.chart.transitionDomain t.source target)) ++
      m.chart.initialChain target
  | none => []

end Machine

namespace Step
open Machine

/-- What messages about a transition name: its source, and its target if it has one. -/
def causeOf (c : Chart) (event : Event) (t : Transition) : Cause where
  event := some event
  source := (c.state t.source).id
  target := (c.state (t.target.getD t.source)).id

/-- A state runs its exit actions, its invocation is stopped, and it is left. -/
def leaving (c : Chart) (i : Nat) : List Part :=
  (c.state i).exit.map (.act (.exit i)) ++ [.revoke i, .leave i]

/-- A state is activated and runs its entry actions. -/
def entering (c : Chart) (i : Nat) : List Part :=
  .activate i :: (c.state i).entry.map (.act (.entry i))

/-- All that a machine does to take a transition. -/
def partsOf (m : Machine) (event : Event) (t : Transition) : List Part :=
  (m.exited t).flatMap (leaving m.chart) ++ t.actions.map (.act .transition) ++
    (m.entered t).flatMap (entering m.chart) ++ (m.entered t).map .invoke ++
    [.tell (.transitioned m.chart.id event.name (m.chart.state t.source).id
      (t.target.map fun i => (m.chart.state i).id))]

variable {cause : Cause} {c : Chart} {i : Nat}

theorem activated_leaving (c : Chart) : ∀ states : List Nat,
    activated (states.flatMap (leaving c)) = []
  | [] => rfl
  | i :: rest => by
      rw [List.flatMap_cons, activated_append, activated_leaving c rest, leaving, activated_append,
        activated_acts]
      rfl

/-- What is held for a state stays so when another one is left. -/
theorem leave_held {m : Machine} (hc : m.chart.Sound) {j : Nat} (hne : j ≠ i) :
    (m.leave i).held j = m.held j := by
  have hleaves := leave_leaves m i
  simp only [held, hleaves.chart, hleaves.invocations]
  cases hw : (m.chart.state j).invoke with
  | none => rfl
  | some w =>
      cases hv : (m.chart.state i).invoke with
      | none => rfl
      | some v => exact Keyed.get?_erase_of_ne fun hid => hne (hc.invoke j i w v hw hv hid)

theorem held_of_quiet {m m' : Machine} (h : m.Quiet m') (i : Nat) : m'.held i = m.held i := by
  simp [held, h.chart, h.invocations]

/-- Stopping the invocation of the innermost state and leaving it. -/
theorem leave_follows (cause : Cause) {kept : List Nat} {s : Step}
    (h : s.machine.configuration = kept ++ [i]) (hi : i ∉ kept) :
    Follows cause s [.revoke i, .leave i] [.revoke i, .leave i] none
      (s.update (·.leave i), .ok ()) := by
  have hconfiguration : (s.machine.stopInvocation i).configuration = kept ++ [i] := by
    rw [← h]
    unfold stopInvocation
    split
    · rfl
    · split <;> rfl
  refine .whole ?_
  simp only [List.foldlM_cons, List.foldlM_nil, perform, bind, Except.bind, pure, Except.pure,
    update, leave, hconfiguration, List.erase_append_right [i] hi, List.erase_cons_head,
    List.append_nil, List.dropLast_concat]

/-- The innermost state is left, or it stays active with what it holds when an exit action
fails. -/
theorem exitInnermost_follows (cause : Cause) {kept : List Nat} {s : Step}
    (h : s.machine.configuration = kept ++ [i]) (hi : i ∉ kept) :
    ∃ done stop, Follows cause s (leaving s.machine.chart i) done stop (s.exitInnermost cause) ∧
      ∀ occasion, stop = some occasion → occasion = .exit i ∧
        (s.exitInnermost cause).1.machine.leaf? = some i ∧
        (s.exitInnermost cause).1.machine.held i = s.machine.held i := by
  have hleaf : s.machine.leaf? = some i := by simp [leaf?, h]
  have hquiet := runActions_quiet cause (s.machine.chart.state i).exit s
  obtain ⟨done, stop, hfollows, hstop⟩ :=
    runActions_follows cause (.exit i) (s.machine.chart.state i).exit s
  simp only [exitInnermost, hleaf]
  generalize s.runActions cause (s.machine.chart.state i).exit = acted at hquiet hfollows ⊢
  obtain ⟨u, e | ⟨⟩⟩ := acted
  · refine ⟨done, stop, hfollows.extend rfl _, fun occasion hoccasion => ?_⟩
    exact ⟨hstop occasion hoccasion, (leaf?_of_quiet hquiet).trans hleaf, held_of_quiet hquiet i⟩
  · have hleft := leave_follows cause (hquiet.configuration.trans h) hi
    exact ⟨_, none, hfollows.append hleft, by simp⟩

theorem exitMany_follows (cause : Cause) (hc : c.Sound) {kept : List Nat} :
    ∀ (gone : List Nat) (s : Step), s.machine.chart = c →
    s.machine.configuration = kept ++ gone.reverse → (kept ++ gone.reverse).Nodup →
    ∃ done stop, Follows cause s (gone.flatMap (leaving c)) done stop
        (s.exitMany cause gone.length) ∧
      ∀ occasion, stop = some occasion → ∃ i ∈ gone, occasion = .exit i ∧
        (s.exitMany cause gone.length).1.machine.leaf? = some i ∧
        (s.exitMany cause gone.length).1.machine.held i = s.machine.held i
  | [], s, _, _, _ => ⟨[], none, .whole rfl, nofun⟩
  | i :: rest, s, hchart, hconfiguration, hnodup => by
      rw [List.reverse_cons, ← List.append_assoc] at hconfiguration hnodup
      have hi : i ∉ kept ++ rest.reverse := fun hmem =>
        (List.nodup_append.mp hnodup).2.2 i hmem i (by simp) rfl
      obtain ⟨done, stop, hfirst, hstop⟩ := exitInnermost_follows cause hconfiguration hi
      have hleft : (s.exitInnermost cause).2 = .ok () →
          (s.exitInnermost cause).1.machine.configuration = kept ++ rest.reverse := fun hok => by
        rw [exitInnermost_ok cause hok, hconfiguration, List.dropLast_concat]
      have hsame := (exitInnermost_traced cause s).leads.chart
      have hheld : (s.exitInnermost cause).2 = .ok () → ∀ j ∈ rest,
          (s.exitInnermost cause).1.machine.held j = s.machine.held j := by
        intro hok j hj
        have hne : j ≠ i := fun heq => hi (heq ▸ List.mem_append_right _ (List.mem_reverse.mpr hj))
        have hleaf : s.machine.leaf? = some i := by simp [leaf?, hconfiguration]
        have hquiet := runActions_quiet cause (s.machine.chart.state i).exit s
        simp only [exitInnermost, hleaf] at hok ⊢
        rw [(Attempt.andThen_ok hok).2.2]
        exact (leave_held (by rw [hquiet.chart, hchart]; exact hc) hne).trans
          (held_of_quiet hquiet j)
      rw [hchart] at hfirst
      simp only [List.length_cons, exitMany, List.flatMap_cons]
      generalize s.exitInnermost cause = exit at hfirst hstop hleft hsame hheld ⊢
      obtain ⟨u, e | ⟨⟩⟩ := exit
      · refine ⟨done, stop, hfirst.extend rfl _, fun occasion hoccasion => ?_⟩
        exact ⟨i, by simp, hstop occasion hoccasion⟩
      · obtain ⟨done', stop', hrest, hstop'⟩ := exitMany_follows cause hc rest u
          (hsame.trans hchart) (hleft rfl) (List.Nodup.of_append_left hnodup)
        refine ⟨_, stop', hfirst.append hrest, fun occasion hoccasion => ?_⟩
        obtain ⟨j, hj, heq, hleaf, hsameheld⟩ := hstop' occasion hoccasion
        exact ⟨j, List.mem_cons_of_mem _ hj, heq, hleaf, hsameheld.trans (hheld rfl j hj)⟩

theorem activated_entering (c : Chart) : ∀ states : List Nat,
    activated (states.flatMap (entering c)) = states
  | [] => rfl
  | i :: rest => by
      have hone : activated (entering c i) = [i] := by
        rw [entering, ← List.singleton_append, activated_append, activated_acts]
        rfl
      rw [List.flatMap_cons, activated_append, activated_entering c rest, hone]
      rfl

/-- States are activated one after another; the last one is the innermost, also when its entry
actions fail. -/
theorem activateAll_follows (cause : Cause) : ∀ (states : List Nat) (s : Step),
    s.machine.chart = c →
    ∃ done stop, Follows cause s (states.flatMap (entering c)) done stop
        (activateAll cause states s).1 ∧
      activated done = (activateAll cause states s).2 ∧
      ∀ occasion, stop = some occasion → ∃ i, occasion = .entry i ∧
        (activateAll cause states s).1.1.machine.leaf? = some i ∧
        (activated done).getLast? = some i
  | [], s, _ => ⟨[], none, .whole rfl, rfl, nofun⟩
  | i :: rest, s, hchart => by
      let t : Step := s.update (·.activate i)
      have hsame : t.machine.chart = c := hchart
      have hactivated : Follows cause s [.activate i] [.activate i] none (t, .ok ()) := .whole rfl
      have hquiet := runActions_quiet cause (t.machine.chart.state i).entry t
      obtain ⟨done, stop, hacts, hstop⟩ :=
        runActions_follows cause (.entry i) (t.machine.chart.state i).entry t
      have hnone : activated done = [] :=
        hacts.activated_nil (activated_acts (.entry i) (t.machine.chart.state i).entry)
      have hfirst := hactivated.append hacts
      have hentering : entering c i =
          [.activate i] ++ (t.machine.chart.state i).entry.map (.act (.entry i)) := by
        rw [hsame]
        rfl
      rw [← hentering] at hfirst
      have hone : activated ([.activate i] ++ done) = [i] := by
        rw [activated_append, hnone]
        rfl
      simp only [activateAll, List.flatMap_cons]
      cases hrun : t.runActions cause (t.machine.chart.state i).entry with
      | mk u result =>
        rw [hrun] at hfirst hquiet
        cases result with
        | error e =>
            -- the last of the states activated so far is the one whose entry has failed
            refine ⟨_, stop, hfirst.extend rfl _, hone, fun occasion hoccasion => ?_⟩
            refine ⟨i, hstop occasion hoccasion, ?_, by rw [hone]; rfl⟩
            rw [leaf?_of_quiet hquiet]
            simp [t, update, leaf?, Machine.activate, Machine.notify, record]
        | ok _ =>
            obtain ⟨done', stop', hrest, hstates, hstop'⟩ :=
              activateAll_follows cause rest u (hquiet.chart.trans hsame)
            have hall := hfirst.append hrest
            have hdone : [.activate i] ++ done = entering c i := (hfirst.done_eq rfl).1
            have hlist : activated (entering c i ++ done') = i :: activated done' := by
              rw [activated_append, ← hdone, hone]
              rfl
            refine ⟨_, stop', hall, by rw [hlist, hstates], fun occasion hoccasion => ?_⟩
            obtain ⟨j, hj, hleaf, hlast⟩ := hstop' occasion hoccasion
            exact ⟨j, hj, hleaf, by rw [hlist, List.getLast?_cons, hlast]; rfl⟩

/-- Invocations are parts of their own. -/
theorem foldlM_invoke (cause : Cause) : ∀ (states : List Nat) (s : Step),
    (states.map Part.invoke).foldlM (perform cause) s = .ok (s.update (·.startInvocations states))
  | [], _ => rfl
  | i :: rest, s => by
      rw [List.map_cons, List.foldlM_cons]
      exact foldlM_invoke cause rest (s.update (·.startInvocation i))

/-- What remains to be done when a sequence is not followed to its end: the states that have been
activated get their invocations. -/
def settled (done : List Part) : Attempt → Attempt
  | (u, .ok ()) => (u, .ok ())
  | (u, .error e) => (u.update (·.startInvocations (activated done)), .error e)

theorem settled_of_none {done : List Part} (h : activated done = []) (a : Attempt) :
    settled done a = a := by
  obtain ⟨u, e | ⟨⟩⟩ := a
  · simp [settled, h, update, startInvocations]
  · rfl

theorem settled_append {before : List Part} (h : activated before = []) (done : List Part)
    (a : Attempt) : settled (before ++ done) a = settled done a := by
  obtain ⟨u, e | ⟨⟩⟩ := a <;> simp [settled, h]

/-- States are entered, and then it is told that the transition has been taken. Up to a failure the
states that have been activated get their invocations, the last one being the innermost. -/
theorem enter_follows (cause : Cause) (states : List Nat) (n : Notification) (s : Step)
    (hchart : s.machine.chart = c) :
    ∃ done stop a, Follows cause s
        (states.flatMap (entering c) ++ states.map .invoke ++ [.tell n]) done stop a ∧
      ((s.enter cause states).andThen fun u => (u.notify n, .ok ())) = settled done a ∧
      ∀ occasion, stop = some occasion → ∃ i, occasion = .entry i ∧
        (settled done a).1.machine.leaf? = some i ∧ (activated done).getLast? = some i := by
  obtain ⟨done, stop, hentries, hactivated, hstop⟩ := activateAll_follows cause states s hchart
  unfold enter
  generalize activateAll cause states s = entry at hentries hactivated hstop ⊢
  obtain ⟨⟨u, e | ⟨⟩⟩, entered⟩ := entry
  · refine ⟨done, stop, (u, .error e), (hentries.extend rfl _).extend rfl _, ?_, ?_⟩
    · simp only [settled, hactivated, Attempt.andThen]
    · intro occasion hoccasion
      obtain ⟨i, heq, hleaf, hlast⟩ := hstop occasion hoccasion
      refine ⟨i, heq, ?_, hlast⟩
      rw [← hleaf]
      simp only [settled, update, leaf?, startInvocations_configuration]
  · obtain ⟨rfl, rfl⟩ := hentries.done_eq rfl
    have hstates : entered = states := hactivated.symm.trans (activated_entering _ _)
    have hinvokes : Follows cause u (states.map .invoke) (states.map .invoke) none
        (u.update (·.startInvocations entered), .ok ()) :=
      .whole (by rw [hstates, foldlM_invoke])
    exact ⟨_, none, _, (hentries.append hinvokes).append (.whole rfl), rfl, by simp⟩

/-- Where a machine stands when an action has failed. A state whose exit actions fail is still
active with what it holds; a state whose entry actions fail is active as the innermost one, and as
the last one to get its invocation. -/
structure Stands (m : Machine) (t : Transition) (done : List Part) (stop : Option Occasion)
    (m' : Machine) : Prop where
  exit : ∀ i, stop = some (.exit i) → i ∈ m.exited t ∧ m'.leaf? = some i ∧ m'.held i = m.held i
  entry : ∀ i, stop = some (.entry i) → m'.leaf? = some i ∧ (activated done).getLast? = some i

theorem Stands.of_transition {m m' : Machine} {t : Transition} {done : List Part}
    {stop : Option Occasion} (h : ∀ other, stop = some other → other = .transition) :
    Stands m t done stop m' where
  exit i hi := by cases h _ hi
  entry i hi := by cases h _ hi

section execute
variable {m : Machine} {event : Event} {t : Transition} {target : Nat}

theorem filter_isBelow_transitionDomain (hc : c.Sound) {source leaf : Nat} (hleaf : leaf < c.size)
    (h : ∀ domain, c.transitionDomain source target = some domain → domain ∈ c.pathTo leaf) :
    (c.pathTo leaf).filter (c.isBelow (c.transitionDomain source target)) =
      (c.pathTo leaf).drop (kept c source target) := by
  unfold kept
  cases hdomain : c.transitionDomain source target with
  | none => simp [Chart.isBelow]
  | some domain => exact hc.filter_isBelow hleaf (h domain hdomain)

/-- Counting from the root finds the states that a transition exits. -/
theorem exited_of_some (hc : m.chart.Sound) (hm : m.Rooted) (hsource : t.source ∈ m.configuration)
    (ht : t.target = some target) :
    m.exited t = (m.configuration.drop (kept m.chart t.source target)).reverse := by
  rcases hm with hnil | ⟨leaf, hleaf, hpath⟩
  · simp [hnil] at hsource
  · rw [hpath] at hsource
    simp only [exited, ht, hpath]
    rw [filter_isBelow_transitionDomain hc hleaf fun domain hdomain =>
      (hc.pathTo_prefix hleaf hsource).subset (Chart.Sound.domain_mem hdomain).1]

/-- Counting from the root finds the states that a transition enters. -/
theorem entered_of_some (hc : m.chart.Sound) (htarget : target < m.chart.size)
    (ht : t.target = some target) : m.entered t =
      (m.chart.pathTo target).drop (kept m.chart t.source target) ++
        m.chart.initialChain target := by
  simp only [entered, ht]
  rw [filter_isBelow_transitionDomain hc htarget fun domain hdomain =>
    (Chart.Sound.domain_mem hdomain).2]

/-- The exits of a transition, up to the first that fails. -/
theorem exitFor_follows (event : Event) (hc : m.chart.Sound) (hm : m.Rooted)
    (hsource : t.source ∈ m.configuration) (ht : t.target = some target) :
    ∃ done stop, Follows (causeOf m.chart event t) ⟨m, []⟩ ((m.exited t).flatMap (leaving m.chart))
        done stop (exitFor m event t target) ∧
      Stands m t done stop (exitFor m event t target).1.machine := by
  have hnodup : m.configuration.Nodup := by
    rcases hm with hnil | ⟨leaf, hleaf, hpath⟩
    · simp [hnil]
    · exact hpath ▸ hc.nodup_pathTo hleaf
  have hsplit : m.configuration =
      m.configuration.take (kept m.chart t.source target) ++ (m.exited t).reverse := by
    rw [exited_of_some hc hm hsource ht, List.reverse_reverse, List.take_append_drop]
  have hlength : (m.exited t).length =
      m.configuration.length - kept m.chart t.source target := by
    simp [exited_of_some hc hm hsource ht]
  have hcause : causeOf m.chart event t =
      ⟨some event, (m.chart.state t.source).id, (m.chart.state target).id⟩ := by
    simp [causeOf, ht]
  obtain ⟨done, stop, hfollows, hstop⟩ := exitMany_follows (causeOf m.chart event t) hc
    (m.exited t) ⟨m, []⟩ rfl hsplit (hsplit ▸ hnodup)
  rw [hlength, hcause] at hfollows hstop
  refine ⟨done, stop, hcause ▸ hfollows, fun i hi => ?_, fun i hi => ?_⟩
  · obtain ⟨j, hj, heq, hstands⟩ := hstop _ hi
    cases heq
    exact ⟨hj, hstands⟩
  · obtain ⟨j, _, heq, _⟩ := hstop _ hi
    cases heq

/-- A transition without a target exits and enters nothing. -/
theorem partsOf_of_none (ht : t.target = none) : partsOf m event t =
    t.actions.map (.act .transition) ++ [.tell (.transitioned m.chart.id event.name
      (m.chart.state t.source).id none)] := by
  simp [partsOf, exited, entered, ht]

theorem execute_follows_of_none (event : Event) (ht : t.target = none) :
    ∃ done stop a, Follows (causeOf m.chart event t) ⟨m, []⟩ (partsOf m event t) done stop a ∧
      (⟨m, []⟩ : Step).execute t event = settled done a ∧
      Stands m t done stop (settled done a).1.machine := by
  have hcause : causeOf m.chart event t =
      ⟨some event, (m.chart.state t.source).id, (m.chart.state t.source).id⟩ := by
    simp [causeOf, ht]
  obtain ⟨done, stop, hacts, hstop⟩ :=
    runActions_follows (causeOf m.chart event t) .transition t.actions ⟨m, []⟩
  have hnone := hacts.activated_nil (activated_acts _ _)
  rw [partsOf_of_none ht]
  simp only [execute, ht, ← hcause]
  generalize (⟨m, []⟩ : Step).runActions (causeOf m.chart event t) t.actions = acted at hacts ⊢
  obtain ⟨u, e | ⟨⟩⟩ := acted
  · exact ⟨done, stop, _, hacts.extend rfl _, (settled_of_none hnone _).symm,
      .of_transition hstop⟩
  · obtain ⟨rfl, rfl⟩ := hacts.done_eq rfl
    exact ⟨_, none, _, hacts.append (.whole rfl), rfl, .of_transition hstop⟩

theorem execute_follows_of_some (event : Event) (hc : m.chart.Sound) (hm : m.Rooted)
    (hsource : t.source ∈ m.configuration) (htarget : target < m.chart.size)
    (ht : t.target = some target) :
    ∃ done stop a, Follows (causeOf m.chart event t) ⟨m, []⟩ (partsOf m event t) done stop a ∧
      (⟨m, []⟩ : Step).execute t event = settled done a ∧
      Stands m t done stop (settled done a).1.machine := by
  have hcause : causeOf m.chart event t =
      ⟨some event, (m.chart.state t.source).id, (m.chart.state target).id⟩ := by
    simp [causeOf, ht]
  obtain ⟨done, stop, hexits, hstands⟩ := exitFor_follows event hc hm hsource ht
  have hchart := (exitMany_traced (causeOf m.chart event t)
    (m.configuration.length - kept m.chart t.source target) ⟨m, []⟩).leads.chart
  rw [hcause] at hchart
  change (exitFor m event t target).1.machine.chart = m.chart at hchart
  have hnone := hexits.activated_nil (activated_leaving m.chart (m.exited t))
  have hexecute : (⟨m, []⟩ : Step).execute t event =
      (((exitFor m event t target).andThen
        (runActions (causeOf m.chart event t) t.actions)).andThen
          (enter (causeOf m.chart event t) (m.entered t))).andThen fun u =>
            (u.notify (.transitioned m.chart.id event.name (m.chart.state t.source).id
              (t.target.map fun i => (m.chart.state i).id)), .ok ()) := by
    rw [execute_of_some ht, entered_of_some hc htarget ht, hcause, ht]
    rfl
  have hparts : partsOf m event t = (m.exited t).flatMap (leaving m.chart) ++
      (t.actions.map (.act .transition) ++ ((m.entered t).flatMap (entering m.chart) ++
        (m.entered t).map .invoke ++ [.tell (.transitioned m.chart.id event.name
          (m.chart.state t.source).id (t.target.map fun i => (m.chart.state i).id))])) := by
    simp only [partsOf, List.append_assoc]
  rw [hexecute, hparts]
  generalize exitFor m event t target = exits at hexits hstands hchart ⊢
  obtain ⟨u, e | ⟨⟩⟩ := exits
  · -- an exit action has failed
    refine ⟨done, stop, _, hexits.extend rfl _, (settled_of_none hnone _).symm, ?_⟩
    rwa [settled_of_none hnone]
  · obtain ⟨rfl, rfl⟩ := hexits.done_eq rfl
    obtain ⟨done, stop, hacts, hstop⟩ :=
      runActions_follows (causeOf m.chart event t) .transition t.actions u
    have hquiet := runActions_quiet (causeOf m.chart event t) t.actions u
    have hnone' := hacts.activated_nil (activated_acts _ _)
    simp only [Attempt.andThen]
    generalize u.runActions (causeOf m.chart event t) t.actions = acted at hacts hquiet ⊢
    obtain ⟨v, e | ⟨⟩⟩ := acted
    · -- an action of the transition itself has failed
      have hbefore := settled_append hnone done (v, .error e)
      rw [settled_of_none hnone'] at hbefore
      exact ⟨_, stop, _, hexits.append (hacts.extend rfl _), hbefore.symm, .of_transition hstop⟩
    · obtain ⟨rfl, rfl⟩ := hacts.done_eq rfl
      obtain ⟨done, stop, a, henter, hsettled, hstop⟩ := enter_follows (causeOf m.chart event t)
        (m.entered t) (.transitioned m.chart.id event.name (m.chart.state t.source).id
          (t.target.map fun i => (m.chart.state i).id)) v (hquiet.chart.trans hchart)
      have hbefore : settled ((m.exited t).flatMap (leaving m.chart) ++
          (t.actions.map (.act .transition) ++ done)) a = settled done a := by
        rw [settled_append hnone, settled_append hnone']
      refine ⟨_, stop, a, hexits.append (hacts.append henter), hbefore ▸ hsettled, ?_⟩
      rw [hbefore]
      constructor
      case exit =>
        intro i hi
        obtain ⟨j, heq, _⟩ := hstop _ hi
        cases heq
      case entry =>
        intro i hi
        obtain ⟨j, heq, hleaf, hlast⟩ := hstop _ hi
        cases heq
        exact ⟨hleaf, by simpa [hnone] using hlast⟩

/-- Taking a transition follows its parts. -/
theorem execute_follows (event : Event) (hc : m.chart.Sound) (hm : m.Rooted)
    (ht : t ∈ m.candidates event) :
    ∃ done stop a, Follows (causeOf m.chart event t) ⟨m, []⟩ (partsOf m event t) done stop a ∧
      (⟨m, []⟩ : Step).execute t event = settled done a ∧
      Stands m t done stop (settled done a).1.machine := by
  obtain ⟨hsource, hlt⟩ := mem_candidates hc ht
  cases htarget : t.target with
  | none => exact execute_follows_of_none event htarget
  | some target => exact execute_follows_of_some event hc hm hsource (hlt target htarget) htarget

theorem mem_exited_of_leave {i : Nat} (h : .leave i ∈ partsOf m event t) : i ∈ m.exited t := by
  simpa [partsOf, leaving, entering] using h

end execute

end Step

namespace Machine
open Step

variable {m₀ m : Machine} {event : Event} {t : Transition} {diagnostics : List Diagnostic}

/-- A machine comes up in the runs of another: between two inputs, or before a microstep. -/
def Occurs (m₀ m : Machine) : Prop :=
  ∃ inputs, m = m₀.after inputs ∨ ∃ input event, (m, event) ∈ (m₀.after inputs).microsteps input

theorem Occurs.still (hm : m₀.Begins) (h : m₀.Occurs m) : m.chart.Sound ∧ m.Rooted := by
  obtain ⟨inputs, hcase⟩ := h
  obtain ⟨_, hregular⟩ := after_reaches hm inputs
  rcases hcase with rfl | ⟨input, event, hp⟩
  · exact ⟨hregular.sound, hregular.rooted⟩
  · have hstep := microsteps_reaches hregular input _ hp
    exact ⟨hstep.chart ▸ hregular.sound, hstep.rooted hregular.sound hregular.rooted⟩

/-- A microstep that has selected a transition takes it. -/
theorem microstep_of_select (h : m.select event = (.ok (some t), diagnostics)) :
    m.microstep event =
      let a := (⟨m, []⟩ : Step).execute t event
      ⟨a.1.machine, diagnostics, a.2.map fun _ => (true, a.1.raised)⟩ := by
  unfold microstep
  rw [h]
  dsimp only
  obtain ⟨u, e | ⟨⟩⟩ := (⟨m, []⟩ : Step).execute t event <;> rfl

/-- What taking a transition comes to. -/
structure Executes (m : Machine) (event : Event) (t : Transition) (diagnostics : List Diagnostic) :
    Prop where
  /-- The parts are done in their order, all of them or those before an action that fails; in that
  case the states that have been activated still get their invocations. -/
  follows : ∃ done stop a,
    Follows (causeOf m.chart event t) ⟨m, []⟩ (partsOf m event t) done stop a ∧
    m.microstep event = ⟨(settled done a).1.machine, diagnostics,
      (settled done a).2.map fun _ => (true, (settled done a).1.raised)⟩ ∧
    Stands m t done stop (m.microstep event).machine
  /-- The source is exited and the target entered, one state as well as two. -/
  ends : ∀ target, t.target = some target → t.source ∈ m.exited t ∧ target ∈ m.entered t
  /-- The domain and its ancestors are active; they are neither exited nor entered. -/
  domain : ∀ target domain, t.target = some target →
    m.chart.transitionDomain t.source target = some domain →
    ∀ i ∈ m.chart.pathTo domain, i ∈ m.configuration ∧ i ∉ m.exited t ∧ i ∉ m.entered t
  /-- What is not exited stays active, wherever an action fails. -/
  stays : ∀ i ∈ m.configuration, i ∉ m.exited t → i ∈ (m.microstep event).machine.configuration
  /-- Without a target the same states stay active, with what they hold. -/
  targetless : t.target = none →
    (m.microstep event).machine.configuration = m.configuration ∧
      (m.microstep event).machine.invocations = m.invocations

theorem execute_of_none_keeps (ht : t.target = none) :
    ((⟨m, []⟩ : Step).execute t event).1.machine.configuration = m.configuration ∧
      ((⟨m, []⟩ : Step).execute t event).1.machine.invocations = m.invocations := by
  have hquiet := runActions_quiet
    ⟨some event, (m.chart.state t.source).id, (m.chart.state t.source).id⟩ t.actions ⟨m, []⟩
  simp only [execute, ht]
  generalize runActions _ t.actions ⟨m, []⟩ = acted at hquiet ⊢
  obtain ⟨u, _ | _⟩ := acted <;> exact ⟨hquiet.configuration, hquiet.invocations⟩

/-- The domain of a transition and the ancestors of the domain are active, and stay out of it. -/
theorem untouched_of_domain (hc : m.chart.Sound) (hm : m.Rooted) (ht : t ∈ m.candidates event)
    {target domain i : Nat} (htarget : t.target = some target)
    (hdomain : m.chart.transitionDomain t.source target = some domain)
    (hi : i ∈ m.chart.pathTo domain) :
    i ∈ m.configuration ∧ i ∉ m.exited t ∧ i ∉ m.entered t := by
  obtain ⟨hsource, hlt⟩ := mem_candidates hc ht
  obtain ⟨leaf, hleaf, hpath⟩ := hm.resolve_left (List.ne_nil_of_mem hsource)
  obtain ⟨hup, hdown⟩ := Chart.Sound.domain_mem hdomain
  rw [hpath] at hsource
  have hactive : domain ∈ m.chart.pathTo leaf := (hc.pathTo_prefix hleaf hsource).subset hup
  have habove := hc.isBelow_of_mem_pathTo (hc.lt_of_mem_pathTo hleaf hactive) hi
  refine ⟨?_, by simp [exited, htarget, hdomain, habove], fun hentered => ?_⟩
  · rw [hpath]
    exact (hc.pathTo_prefix hleaf hactive).subset hi
  · -- below the target there is nothing that is above it
    obtain ⟨last, hlast, hchain, _⟩ := hc.pathTo_append_initialChain (hlt target htarget)
    have hnodup := hc.nodup_pathTo hlast
    rw [← hchain, List.nodup_append] at hnodup
    have hin := (hc.pathTo_prefix (hlt target htarget) hdown).subset hi
    simp only [entered, htarget, hdomain, List.mem_append, List.mem_filter, habove] at hentered
    exact hnodup.2.2 i hin i (by simpa using hentered) rfl

theorem executes_of_select (hc : m.chart.Sound) (hm : m.Rooted)
    (h : m.select event = (.ok (some t), diagnostics)) : Executes m event t diagnostics := by
  have ht : t ∈ m.candidates event := choose_some (congrArg Prod.fst h)
  obtain ⟨done, stop, a, hfollows, hexecute, hstands⟩ := execute_follows event hc hm ht
  have hrun := microstep_of_select h
  constructor
  case follows =>
    refine ⟨done, stop, a, hfollows, ?_, ?_⟩
    · rw [hrun, hexecute]
    · rw [hrun, hexecute]
      exact hstands
  case ends =>
    intro target htarget
    have hsource := (mem_candidates hc ht).1
    obtain ⟨leaf, hleaf, hpath⟩ := hm.resolve_left (List.ne_nil_of_mem hsource)
    have hlt : t.source < m.chart.size := hc.lt_of_mem_pathTo hleaf (hpath ▸ hsource)
    obtain ⟨hup, hdown⟩ := hc.isBelow_transitionDomain hlt target
    simp [exited, entered, htarget, hsource, hup, hdown, Chart.pathTo]
  case domain =>
    intro target domain htarget hdomain i hi
    exact untouched_of_domain hc hm ht htarget hdomain hi
  case stays =>
    intro i hi hnot
    have hactive : i ∈ a.1.machine.configuration := foldlM_active hfollows.foldlM
      (fun hmem => hnot (mem_exited_of_leave (hfollows.isPrefix.subset hmem))) hi
    rw [hrun, hexecute]
    obtain ⟨u, e | ⟨⟩⟩ := a
    · simpa only [settled, update, startInvocations_configuration] using hactive
    · exact hactive
  case targetless =>
    intro htarget
    rw [hrun]
    exact execute_of_none_keeps htarget

/-- Whenever a machine has selected a transition, it exits the active states below its domain,
innermost first, runs its actions, and enters the states below the domain on the path to the target
and on its initial chain, outermost first; it gets as far as the first action that fails, and starts
the invocations of what it has entered. -/
theorem selected_executes {d : Definition} {c : Chart} {initial : Json} {setup : Setup}
    (hbuild : Chart.build d = .ok c) (hcreate : create c initial setup = .ok m₀)
    (hm : m₀.Occurs m) (h : m.select event = (.ok (some t), diagnostics)) :
    Executes m event t diagnostics := by
  obtain ⟨hc, hrooted⟩ := hm.still (create_begins (Chart.build_sound hbuild) hcreate)
  exact executes_of_select hc hrooted h

/-- A machine goes to its job, and another one fails in the action of a transition. -/
theorem selected_executes_job_lapse :
    Executes (jobMachine.after [.start]) ⟨"go", .null⟩ ⟨2, "go", some 3, none, []⟩ [] ∧
    Executes (lapseMachine.after [.start]) ⟨"go", .null⟩
      ⟨0, "go", some 1, none, [.assign "x" (.context "missing")]⟩ [] :=
  ⟨selected_executes build_job create_job ⟨[.start], .inl rfl⟩ rfl,
    selected_executes build_lapse create_lapse ⟨[.start], .inl rfl⟩ rfl⟩

end Machine

end Statechart
