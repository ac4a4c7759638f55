import Statechart.Proofs.Chart.Arena
import Statechart.Proofs.Decode.Storage
import Statechart.Proofs.Machine.Course

/-!
# Restored machines

A snapshot is decoded from its own document. The active states of a machine are found again from
the innermost one alone, because they are the path to it after every run; so a fresh machine takes
over the configuration, the context and the status of another one from its snapshot. It runs no
action. For each of the active states with an invocation it issues one token, the outermost state
first.
-/
namespace Statechart

theorem Status.decode_name (status : Status) :
    Decode.oneOf Status.names (.str status.name) = .ok status := by
  cases status <;> rfl

theorem Snapshot.decode_toJson {s : Snapshot} (h : s.context.IsNormal) :
    Snapshot.decode s.toJson = .ok s := by
  have hstrings : Decode.list Decode.string (.arr (s.configuration.map .str)) =
      .ok s.configuration := Decode.list_of_forall fun _ _ => rfl
  have hcontext : s.context.normal = s.context := h
  obtain ⟨chart, checksum, status, active, configuration, context⟩ := s
  have hstatus := Status.decode_name status
  cases active <;>
    simp_all [Snapshot.decode, toJson, Decode.record, Action.optionalMember, Decode.field?,
      Decode.required, Decode.fieldOr, Decode.string, Decode.optional, Json.strings, bind,
      Except.bind, pure, Except.pure, Except.map]

namespace Chart

variable {c c' : Chart} (h : c'.states = c.states)
include h

theorem state_congr : c'.state = c.state := by
  funext i
  rw [state, state, h]

theorem ancestors_congr : c'.ancestors = c.ancestors := by
  funext n
  induction n with
  | zero => rfl
  | succ n ih =>
      funext i
      rw [ancestors, ancestors, state_congr h, ih]

theorem pathTo_congr : c'.pathTo = c.pathTo := by
  funext i
  rw [pathTo, pathTo, ancestors_congr h, size, size, h]

theorem lookup_congr : c'.lookup = c.lookup := by
  funext id
  rw [lookup, lookup, h]

end Chart

namespace Machine

variable {m r : Machine}

/-- The configuration of a machine is found again from its snapshot. -/
theorem snapshotConfiguration_snapshot (hm : m.Regular)
    (hactive : m.status = .running → m.configuration ≠ []) {c : Chart}
    (hstates : c.states = m.chart.states) :
    snapshotConfiguration c m.snapshot = .ok m.configuration := by
  unfold snapshotConfiguration
  by_cases hrunning : m.status = .running
  · obtain ⟨i, hi, hpath⟩ := hm.rooted.resolve_left (hactive hrunning)
    have hleaf : m.snapshot.active = some (m.chart.state i).id := by
      simp [snapshot, activeLeaf?, leaf?, hpath, Chart.Sound.getLast?_pathTo]
    have hlookup : c.lookup (m.chart.state i).id = some i := by
      rw [Chart.lookup_congr hstates]
      exact (Chart.lookup_iff hm.sound).mpr ⟨hi, rfl⟩
    have hstatus : m.snapshot.status = .running := hrunning
    simp only [hstatus, hleaf, hlookup, Chart.pathTo_congr hstates, hpath]
  · have hnil := hm.configuration hrunning
    have hstatus : m.snapshot.status ≠ .running := hrunning
    rw [hnil]
    cases hs : m.snapshot.status <;> simp_all

/-- A machine with the status, the configuration and the context of another one. -/
def takeOver (r m : Machine) : Machine :=
  { r with status := m.status, configuration := m.configuration, context := m.context }

/-- A machine as it is after it has taken over another one: if that one runs, the invocations of
its active states are started again and observers are told. -/
def resume (r m : Machine) : Machine :=
  if m.status = .running then
    ((r.takeOver m).startInvocations m.configuration).announce r.chart.id
  else r.takeOver m

/-- The snapshot of a machine is restored on every fresh machine whose chart has the same id and
the same states, unless the checksums of the charts differ. -/
theorem restore_snapshot (hm : m.Regular) (hactive : m.status = .running → m.configuration ≠ [])
    (hfresh : r.status = .uninitialized) (hid : r.chart.id = m.chart.id)
    (hstates : r.chart.states = m.chart.states) :
    r.restore m.snapshot =
      if r.chart.checksum = m.chart.checksum then (r.resume m, .ok ())
      else (r, .error (.checksumMismatch r.chart.checksum m.chart.checksum)) := by
  have hconfiguration := snapshotConfiguration_snapshot hm hactive hstates
  have hcontext : Context.ofJson m.snapshot.context = .ok m.context := rfl
  have hchart : m.snapshot.chart = r.chart.id := hid.symm
  have hsum : m.snapshot.checksum = m.chart.checksum := rfl
  have hstatus : m.snapshot.status = m.status := rfl
  have hstarted : ((r.takeOver m).startInvocations m.configuration).chart.id = r.chart.id :=
    congrArg Chart.id (Step.startInvocations_leads m.configuration (r.takeOver m)).chart
  unfold restore
  by_cases heq : r.chart.checksum = m.chart.checksum
  · simp only [require, hfresh, hchart, hsum, heq, hconfiguration, hcontext, hstatus,
      Except.mapError, bind, Except.bind, pure, Except.pure, ne_eq, not_true_eq_false, if_true,
      if_false]
    unfold resume announce
    split
    · rw [← hstarted]
      rfl
    · rfl
  · simp only [require, hfresh, hchart, hsum, Ne.symm heq, heq, bind, Except.bind, throw,
      throwThe, MonadExceptOf.throw, ne_eq, not_true_eq_false, not_false_eq_true, if_true,
      if_false, pure, Except.pure]

end Machine

theorem History.mem_issued_cons {i : Nat} {t u : Token} {input : Except ResolutionError Json}
    {hs : History} : t ∈ issued (.issued i u input :: hs) ↔ t = u ∨ t ∈ issued hs := by
  simp [issued, Happening.issued?]

namespace Chart

/-- The states among some that declare an invocation, in order. -/
def invoking (c : Chart) (states : List Nat) : List (Nat × Invocation) :=
  states.filterMap fun i => (c.state i).invoke.map (Prod.mk i)

/-- One token for each of some states that declares an invocation, in order; the generations
follow the one that has been issued last. -/
def issues (c : Chart) (context : Context) (generation : Nat) (states : List Nat) : History :=
  ((c.invoking states).zipIdx (generation + 1)).map fun p =>
    .issued p.1.1 ⟨p.1.2.id, p.2⟩ (p.1.2.inputIn context)

variable {c : Chart} {i : Nat}

theorem issues_nil (c : Chart) (context : Context) (generation : Nat) :
    c.issues context generation [] = [] := rfl

theorem issues_cons_of_none (h : (c.state i).invoke = none) (context : Context) (generation : Nat)
    (rest : List Nat) :
    c.issues context generation (i :: rest) = c.issues context generation rest := by
  simp [issues, invoking, h]

theorem issues_cons_of_some {v : Invocation} (h : (c.state i).invoke = some v) (context : Context)
    (generation : Nat) (rest : List Nat) :
    c.issues context generation (i :: rest) =
      .issued i ⟨v.id, generation + 1⟩ (v.inputIn context) ::
        c.issues context (generation + 1) rest := by
  simp [issues, invoking, h]

/-- The states that are issued a token are those that declare an invocation, each of them once and
in their order. -/
theorem states_issues (c : Chart) (context : Context) (generation : Nat) (states : List Nat) :
    (c.issues context generation states).filterMap Happening.state? =
      states.filter fun i => (c.state i).invoke.isSome := by
  induction states generalizing generation with
  | nil => rfl
  | cons i rest ih =>
      cases hv : (c.state i).invoke with
      | none => simp [issues_cons_of_none hv, hv, ih]
      | some v => simp [issues_cons_of_some hv, hv, ih, Happening.state?]

end Chart

namespace Machine

variable {m : Machine}

/-- A machine has issued tokens one after the other and has called the runner for them. -/
structure Issues (m : Machine) (issues : History) (m' : Machine) : Prop where
  chart : m'.chart = m.chart
  setup : m'.setup = m.setup
  context : m'.context = m.context
  status : m'.status = m.status
  configuration : m'.configuration = m.configuration
  generation : m'.generation = m.generation + issues.length
  trace : m'.trace.toList = m.trace.toList ++ issues.flatMap (Happening.effects m.chart)

theorem startInvocations_cons (m : Machine) (i : Nat) (rest : List Nat) :
    m.startInvocations (i :: rest) = (m.startInvocation i).startInvocations rest := rfl

theorem startInvocation_issues {i : Nat} {v : Invocation} (h : (m.chart.state i).invoke = some v) :
    m.Issues [.issued i ⟨v.id, m.generation + 1⟩ (v.inputIn m.context)] (m.startInvocation i) := by
  rw [startInvocation_eq h]
  cases hinput : v.inputIn m.context with
  | error e => exact ⟨rfl, rfl, rfl, rfl, rfl, rfl, by simp [report, Happening.effects]⟩
  | ok input =>
      dsimp only
      split
      · exact ⟨rfl, rfl, rfl, rfl, rfl, rfl, by simp [report, record, Happening.effects, h]⟩
      · exact ⟨rfl, rfl, rfl, rfl, rfl, rfl, by simp [record, Happening.effects, h]⟩

/-- Starting the invocations of states issues one token for each that declares one. -/
theorem startInvocations_issues (states : List Nat) : ∀ m : Machine,
    m.Issues (m.chart.issues m.context m.generation states) (m.startInvocations states) := by
  induction states with
  | nil =>
      intro m
      exact ⟨rfl, rfl, rfl, rfl, rfl, rfl, by simp [startInvocations, Chart.issues_nil]⟩
  | cons i rest ih =>
      intro m
      have hrest := ih (m.startInvocation i)
      cases hv : (m.chart.state i).invoke with
      | none =>
          rw [startInvocation_of_none hv] at hrest
          rw [Chart.issues_cons_of_none hv, startInvocations_cons, startInvocation_of_none hv]
          exact hrest
      | some v =>
          have hfirst := startInvocation_issues hv
          rw [hfirst.chart, hfirst.context, hfirst.generation, List.length_singleton] at hrest
          rw [Chart.issues_cons_of_some hv, startInvocations_cons]
          refine ⟨hrest.chart.trans hfirst.chart, hrest.setup.trans hfirst.setup,
            hrest.context.trans hfirst.context, hrest.status.trans hfirst.status,
            hrest.configuration.trans hfirst.configuration, ?_, ?_⟩
          · have hgeneration := hrest.generation
            rw [hfirst.generation, List.length_singleton] at hgeneration
            rw [List.length_cons, ← Nat.add_assoc, Nat.add_right_comm]
            exact hgeneration
          · have htrace := hrest.trace
            rw [hfirst.trace, hfirst.chart, List.append_assoc] at htrace
            rw [List.flatMap_cons]
            simpa using htrace

/-- The tokens held afterwards are those that have been issued, and those that were held for
other invocations. -/
theorem get?_startInvocations {k : String} {t : Token} (states : List Nat) : ∀ m : Machine,
    m.chart.Sound → states.Nodup →
    (Keyed.get? k (m.startInvocations states).invocations = some t ↔
      (t.invokeId = k ∧ t ∈ History.issued (m.chart.issues m.context m.generation states)) ∨
      (Keyed.get? k m.invocations = some t ∧
        ∀ i ∈ states, ∀ v, (m.chart.state i).invoke = some v → v.id ≠ k)) := by
  induction states with
  | nil => exact fun m _ _ => by simp [startInvocations, Chart.issues_nil, History.issued]
  | cons i rest ih =>
      intro m hm hnodup
      rw [List.nodup_cons] at hnodup
      cases hv : (m.chart.state i).invoke with
      | none =>
          have hrest := ih m hm hnodup.2
          rw [Chart.issues_cons_of_none hv, startInvocations_cons, startInvocation_of_none hv]
          simpa [hv] using hrest
      | some v =>
          have hstart := startInvocation_starts hv
          have hfirst := startInvocation_issues hv
          have hrest := ih (m.startInvocation i) (hstart.chart ▸ hm) hnodup.2
          rw [hstart.chart, hfirst.context, hstart.generation, hstart.invocations] at hrest
          rw [Chart.issues_cons_of_some hv, startInvocations_cons]
          rw [hrest, History.mem_issued_cons]
          -- no state after this one invokes under the same id
          have hother : ∀ j ∈ rest, ∀ w, (m.chart.state j).invoke = some w → w.id ≠ v.id := by
            intro j hj w hw hid
            exact hnodup.1 (hm.invoke j i w v hw hv hid ▸ hj)
          by_cases hk : v.id = k
          · subst hk
            rw [Keyed.get?_insert_self, Option.some.injEq]
            constructor
            · rintro (⟨hid, hmem⟩ | ⟨rfl, _⟩)
              · exact .inl ⟨hid, .inr hmem⟩
              · exact .inl ⟨rfl, .inl rfl⟩
            · rintro (⟨hid, rfl | hmem⟩ | ⟨_, hnone⟩)
              · exact .inr ⟨rfl, hother⟩
              · exact .inl ⟨hid, hmem⟩
              · exact absurd rfl (hnone i List.mem_cons_self v hv)
          · rw [Keyed.get?_insert_of_ne (Ne.symm hk)]
            refine or_congr (and_congr_right fun hid => ⟨.inr, ?_⟩) (and_congr_right fun _ => ?_)
            · rintro (rfl | hmem)
              · exact absurd hid hk
              · exact hmem
            · rw [List.forall_mem_cons, and_iff_right]
              intro w hw
              cases hv.symm.trans hw
              exact hk

/-- A machine that has just been made has taken over another one. It is where that one is, and has
called the runner for the tokens it has issued and told observers that it runs, and nothing else. -/
structure Resumes (m r : Machine) (issues : History) : Prop where
  chart : r.chart = m.chart
  status : r.status = m.status
  configuration : r.configuration = m.configuration
  context : r.context = m.context
  trace : r.trace.toList = issues.flatMap (Happening.effects m.chart) ++
    [.notified (.started m.chart.id m.configurationIds)]
  /-- No state is entered and nothing is logged. -/
  calls : ∀ e ∈ r.trace.toList, (∃ request, e = .invoked request) ∨
    e = .notified (.started m.chart.id m.configurationIds)
  /-- Each active state with an invocation is issued one token, the outermost state first. -/
  states : issues.filterMap Happening.state? =
    m.configuration.filter fun i => (m.chart.state i).invoke.isSome
  /-- The tokens held are those that have been issued. -/
  held : ∀ k t, Keyed.get? k r.invocations = some t ↔
    t.invokeId = k ∧ t ∈ History.issued issues

theorem effects_issues {c : Chart} {context : Context} {generation : Nat} {states : List Nat}
    {e : Effect} (h : e ∈ (c.issues context generation states).flatMap (Happening.effects c)) :
    ∃ request, e = .invoked request := by
  obtain ⟨x, hx, he⟩ := List.mem_flatMap.mp h
  obtain ⟨⟨⟨i, v⟩, n⟩, _, rfl⟩ := List.mem_map.mp hx
  cases hinput : v.inputIn context with
  | error => simp [Happening.effects, hinput] at he
  | ok input =>
      simp only [Happening.effects, hinput, List.mem_map] at he
      obtain ⟨_, _, rfl⟩ := he
      exact ⟨_, rfl⟩

/-- A fresh machine of the same chart resumes a running one. -/
theorem resume_resumes {initial : Json} {setup : Setup} {r : Machine} (hm : m.Regular)
    (hrunning : m.status = .running) (hfresh : create m.chart initial setup = .ok r) :
    m.Resumes (r.resume m) (m.chart.issues m.context 0 m.configuration) := by
  obtain ⟨context, rfl⟩ := create_eq hfresh
  have hissues := startInvocations_issues m.configuration
    (takeOver { chart := m.chart, setup, context } m)
  have hids : (startInvocations (takeOver { chart := m.chart, setup, context } m)
      m.configuration).configurationIds = m.configurationIds := by
    rw [configurationIds, hissues.chart, hissues.configuration]
    rfl
  have htrace : (resume { chart := m.chart, setup, context } m).trace.toList =
      (m.chart.issues m.context 0 m.configuration).flatMap (Happening.effects m.chart) ++
        [.notified (.started m.chart.id m.configurationIds)] := by
    rw [resume, if_pos hrunning, announce, hids, notify, record, Array.toList_push, hissues.trace]
    rfl
  obtain ⟨_, hbooks⟩ := hm.books
  have hnodup := hbooks.nodup hm.sound
  rw [resume, if_pos hrunning] at htrace ⊢
  refine ⟨hissues.chart, hissues.status, hissues.configuration, hissues.context, htrace,
    fun e he => ?_, Chart.states_issues _ _ _ _, fun k t => ?_⟩
  · rw [htrace] at he
    rcases List.mem_append.mp he with he | he
    · exact .inl (effects_issues he)
    · exact .inr (List.mem_singleton.mp he)
  · have hheld := get?_startInvocations (k := k) (t := t) m.configuration
      (takeOver { chart := m.chart, setup, context } m) hm.sound hnodup
    refine hheld.trans (or_iff_left ?_)
    rintro ⟨hnone, _⟩
    cases hnone

end Machine

end Statechart
