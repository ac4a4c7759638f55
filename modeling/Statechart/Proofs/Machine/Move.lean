import Mathlib.Tactic
import Statechart.Proofs.Keyed
import Statechart.Proofs.Chart.Walk
import Statechart.Proofs.Machine.Run

/-!
# Moves of a machine

Whatever a machine does is made of a few moves: it activates a state, issues a token for the
invocation of an activated state, takes a completion, exits its innermost state, takes over a path
of states, or changes nothing of all that. Between the activation of states and the start of their
invocations, the states wait, outermost first. The history of a run is the list of what its moves
have done; an invariant of machines is shown once for every move.
-/
namespace Statechart

/-- The input of an invocation that starts in a context. -/
def Invocation.inputIn (v : Invocation) (context : Context) : Except ResolutionError Json :=
  match v.input with
  | some provider => provider.resolve context none
  | none => .ok .null

/-- What a move does. -/
inductive Happening where
  | entered (state : Nat)
  /-- A state is active again, without being entered. -/
  | resumed (state : Nat)
  /-- A token is issued for the invocation of a state, which is started with its input if this
  could be resolved. -/
  | issued (state : Nat) (token : Token) (input : Except ResolutionError Json)
  | accepted (token : Token)
  /-- A state is exited; its invocation is stopped if its token is still held. -/
  | exited (state : Nat) (held : Option Token)
  | became (status : Status)

/-- Whether an effect tells of the activity of states or calls the runner. -/
def Effect.shows : Effect → Bool
  | invoked _ | revoked _ | notified (.entered ..) | notified (.exited ..) => true
  | logged _ | notified _ => false

/-- What a happening does to the outside of a machine of a chart. -/
def Happening.effects (c : Chart) : Happening → List Effect
  | entered i => [.notified (.entered c.id (c.state i).id)]
  | issued i token (.ok input) =>
    (c.state i).invoke.toList.map fun v => .invoked ⟨token, c.id, v.src, input⟩
  | exited i held => held.toList.map .revoked ++ [.notified (.exited c.id (c.state i).id)]
  | issued _ _ (.error _) | resumed _ | accepted _ | became _ => []

namespace Machine

/-- A change that touches neither the active states nor the invocations, and shows nothing. -/
structure Quiet (m m' : Machine) : Prop where
  chart : m'.chart = m.chart
  status : m'.status = m.status
  configuration : m'.configuration = m.configuration
  invocations : m'.invocations = m.invocations
  generation : m'.generation = m.generation
  trace : ∃ effects, m'.trace.toList = m.trace.toList ++ effects ∧ ∀ e ∈ effects, e.shows = false

/-- The machine that differs from another at most in what it is given and in its reports. -/
def Idles (m m' : Machine) : Prop :=
  ∃ setup pending signalled, m' = { m with setup, pending, signalled }

theorem Idles.refl (m : Machine) : m.Idles m := ⟨m.setup, m.pending, m.signalled, rfl⟩

theorem Idles.trans {m m' m'' : Machine} : m.Idles m' → m'.Idles m'' → m.Idles m''
  | ⟨_, _, _, h⟩, ⟨setup, pending, signalled, h'⟩ =>
    ⟨setup, pending, signalled, h'.trans (by rw [h])⟩

theorem Idles.quiet {m m' : Machine} (h : m.Idles m') : m.Quiet m' := by
  obtain ⟨setup, pending, signalled, rfl⟩ := h
  exact ⟨rfl, rfl, rfl, rfl, rfl, [], by simp, by simp⟩

theorem Quiet.notify (m : Machine) (n : Notification) (h : (Effect.notified n).shows = false) :
    m.Quiet (m.notify n) :=
  ⟨rfl, rfl, rfl, rfl, rfl, [.notified n], by simp [Machine.notify, record], by simpa using h⟩

/-- The token that is held for the invocation of a state. -/
def held (m : Machine) (i : Nat) : Option Token :=
  (m.chart.state i).invoke.bind fun v => Keyed.get? v.id m.invocations

/-- A machine with the activated states whose invocations have not been started. -/
structure Point where
  machine : Machine
  awaiting : List Nat := []

inductive Move : Point → List Happening → Point → Prop where
  | quiet {m m' a} (h : m.Quiet m') : Move ⟨m, a⟩ [] ⟨m', a⟩
  | activate {m a i} (hi : i < m.chart.size) (h : m.configuration ++ [i] = m.chart.pathTo i) :
    Move ⟨m, a⟩ [.entered i] ⟨m.activate i, a ++ [i]⟩
  | issue {m a i v} (h : (m.chart.state i).invoke = some v) :
    Move ⟨m, i :: a⟩ [.issued i ⟨v.id, m.generation + 1⟩ (v.inputIn m.context)]
      ⟨m.startInvocation i, a⟩
  | pass {m a i} (h : (m.chart.state i).invoke = none) : Move ⟨m, i :: a⟩ [] ⟨m, a⟩
  | accept {m t} (h : Keyed.get? t.invokeId m.invocations = some t) :
    Move ⟨m, []⟩ [.accepted t] ⟨m.accept t, []⟩
  | exit {m i} (h : m.leaf? = some i) : Move ⟨m, []⟩ [.exited i (m.held i)] ⟨m.leave i, []⟩
  | resume {m a i} (hi : i < m.chart.size) (h : m.configuration ++ [i] = m.chart.pathTo i) :
    Move ⟨m, a⟩ [.resumed i] ⟨{ m with configuration := m.configuration ++ [i] }, a ++ [i]⟩
  | become {m} (status : Status) : Move ⟨m, []⟩ [.became status] ⟨{ m with status }, []⟩

/-- A sequence of moves with what they do. -/
inductive Moves : Point → List Happening → Point → Prop where
  | refl (p : Point) : Moves p [] p
  | tail {p q r hs new} (h : Moves p hs q) (last : Move q new r) : Moves p (hs ++ new) r

/-- Some moves that keep the status lead from one point to another. -/
def Leads (p q : Point) : Prop := ∃ hs, Moves p hs q ∧ ∀ status, .became status ∉ hs

/-- Some moves lead from one machine to another. -/
def Reaches (m m' : Machine) : Prop := ∃ hs, Moves ⟨m, []⟩ hs ⟨m', []⟩

variable {p q r : Point} {m m' m'' : Machine} {a : List Nat} {hs hs' : List Happening}

theorem Moves.trans (h : Moves p hs q) (h' : Moves q hs' r) : Moves p (hs ++ hs') r := by
  induction h' with
  | refl => simpa using h
  | tail _ last ih =>
      rw [← List.append_assoc]
      exact ih.tail last

theorem Move.moves (h : Move p hs q) : Moves p hs q := by
  simpa using (Moves.refl p).tail h

theorem Move.leads (h : Move p hs q) (hsteady : ∀ status, .became status ∉ hs) : Leads p q :=
  ⟨hs, h.moves, hsteady⟩

theorem Leads.refl (p : Point) : Leads p p := ⟨[], .refl p, by simp⟩

theorem Leads.trans : Leads p q → Leads q r → Leads p r
  | ⟨_, h, hn⟩, ⟨_, h', hn'⟩ => ⟨_, h.trans h', fun status => by simp [hn status, hn' status]⟩

theorem Quiet.leads (h : m.Quiet m') : Leads ⟨m, a⟩ ⟨m', a⟩ := (Move.quiet h).leads (by simp)

theorem Leads.reaches : Leads ⟨m, []⟩ ⟨m', []⟩ → m.Reaches m'
  | ⟨hs, h, _⟩ => ⟨hs, h⟩

theorem Reaches.refl (m : Machine) : m.Reaches m := ⟨[], .refl _⟩

theorem Reaches.trans : m.Reaches m' → m'.Reaches m'' → m.Reaches m''
  | ⟨_, h⟩, ⟨_, h'⟩ => ⟨_, h.trans h'⟩

theorem Reaches.become (m : Machine) (status : Status) : m.Reaches { m with status } :=
  ⟨_, (Move.become status).moves⟩

/-- The start of an invocation holds a new token for it and has the effects of its happening. -/
structure Starts (m : Machine) (i : Nat) (v : Invocation) (m' : Machine) : Prop where
  chart : m'.chart = m.chart
  status : m'.status = m.status
  configuration : m'.configuration = m.configuration
  invocations : m'.invocations = Keyed.insert v.id ⟨v.id, m.generation + 1⟩ m.invocations
  generation : m'.generation = m.generation + 1
  effects : m'.trace.toList.filter Effect.shows = m.trace.toList.filter Effect.shows ++
    Happening.effects m.chart (.issued i ⟨v.id, m.generation + 1⟩ (v.inputIn m.context))

theorem startInvocation_eq {i : Nat} {v : Invocation} (h : (m.chart.state i).invoke = some v) :
    m.startInvocation i =
      let token : Token := ⟨v.id, m.generation + 1⟩
      let started := { m with
        generation := m.generation + 1
        invocations := Keyed.insert v.id token m.invocations }
      match v.inputIn m.context with
      | .ok input =>
        let request : InvokeRequest := ⟨token, m.chart.id, v.src, input⟩
        match m.setup.answer request with
        | some outcome => (started.record (.invoked request)).report ⟨token, outcome⟩
        | none => started.record (.invoked request)
      | .error e => started.report ⟨token, .failure e.message⟩ := by
  unfold startInvocation Invocation.inputIn
  rw [h]
  rfl

theorem startInvocation_starts {i : Nat} {v : Invocation} (h : (m.chart.state i).invoke = some v) :
    m.Starts i v (m.startInvocation i) := by
  rw [startInvocation_eq h]
  cases hinput : v.inputIn m.context with
  | error e =>
      exact ⟨rfl, rfl, rfl, rfl, rfl, by simp [report, Happening.effects, hinput]⟩
  | ok input =>
      dsimp only
      split
      · exact ⟨rfl, rfl, rfl, rfl, rfl,
          by simp [report, record, Happening.effects, Effect.shows, hinput, h]⟩
      · exact ⟨rfl, rfl, rfl, rfl, rfl,
          by simp [record, Happening.effects, Effect.shows, hinput, h]⟩

theorem startInvocation_of_none {i : Nat} (h : (m.chart.state i).invoke = none) :
    m.startInvocation i = m := by
  simp [startInvocation, h]

/-- Leaving a state takes its token away if it is held, and has the effects of its happening. -/
structure Leaves (m : Machine) (i : Nat) (m' : Machine) : Prop where
  chart : m'.chart = m.chart
  status : m'.status = m.status
  configuration : m'.configuration = m.configuration.dropLast
  invocations : m'.invocations = match (m.chart.state i).invoke with
    | some v => Keyed.erase v.id m.invocations
    | none => m.invocations
  generation : m'.generation = m.generation
  effects : m'.trace.toList.filter Effect.shows = m.trace.toList.filter Effect.shows ++
    Happening.effects m.chart (.exited i (m.held i))

theorem leave_leaves (m : Machine) (i : Nat) : m.Leaves i (m.leave i) := by
  unfold leave
  cases hv : (m.chart.state i).invoke with
  | none =>
      have hstop : m.stopInvocation i = m := by simp [stopInvocation, hv]
      rw [hstop]
      exact ⟨rfl, rfl, rfl, by simp [hv, notify, record], rfl,
        by simp [notify, record, Happening.effects, Effect.shows, held, hv]⟩
  | some v =>
      cases ht : Keyed.get? v.id m.invocations with
      | none =>
          have hstop : m.stopInvocation i = m := by simp [stopInvocation, hv, ht]
          rw [hstop]
          exact ⟨rfl, rfl, rfl, by simp [hv, notify, record, Keyed.erase_of_get?_none ht], rfl,
            by simp [notify, record, Happening.effects, Effect.shows, held, hv, ht]⟩
      | some t =>
          have hstop : m.stopInvocation i =
              { m with invocations := Keyed.erase v.id m.invocations }.record (.revoked t) := by
            simp [stopInvocation, hv, ht]
          rw [hstop]
          exact ⟨rfl, rfl, rfl, by simp [hv, notify, record], rfl,
            by simp [notify, record, Happening.effects, Effect.shows, held, hv, ht, List.filter]⟩

theorem Move.chart (h : Move p hs q) : q.machine.chart = p.machine.chart := by
  cases h with
  | quiet h => exact h.chart
  | issue h => exact (startInvocation_starts h).chart
  | exit h => exact (leave_leaves _ _).chart
  | activate | pass | accept | resume | become => rfl

theorem Moves.chart (h : Moves p hs q) : q.machine.chart = p.machine.chart := by
  induction h with
  | refl => rfl
  | tail _ last ih => exact last.chart.trans ih

theorem Leads.chart : Leads p q → q.machine.chart = p.machine.chart
  | ⟨_, h, _⟩ => h.chart

theorem Move.status (h : Move p hs q) (hsteady : ∀ status, .became status ∉ hs) :
    q.machine.status = p.machine.status := by
  cases h with
  | quiet h => exact h.status
  | issue h => exact (startInvocation_starts h).status
  | exit h => exact (leave_leaves _ _).status
  | activate | pass | accept | resume => rfl
  | become status => exact absurd (by simp) (hsteady status)

theorem Moves.status (h : Moves p hs q) (hsteady : ∀ status, .became status ∉ hs) :
    q.machine.status = p.machine.status := by
  induction h with
  | refl => rfl
  | tail _ last ih =>
      simp only [List.mem_append, not_or, forall_and] at hsteady
      exact (last.status hsteady.2).trans (ih hsteady.1)

theorem Leads.status : Leads p q → q.machine.status = p.machine.status
  | ⟨_, h, hsteady⟩ => h.status hsteady

/-- The active states are none, or the path from the root to one of them. -/
def Rooted (m : Machine) : Prop :=
  m.configuration = [] ∨ ∃ i < m.chart.size, m.configuration = m.chart.pathTo i

theorem Move.rooted (h : Move p hs q) (hc : p.machine.chart.Sound) (hp : p.machine.Rooted) :
    q.machine.Rooted := by
  cases h with
  | quiet h => simpa [Rooted, h.configuration, h.chart] using hp
  | activate hi h | resume hi h => exact .inr ⟨_, hi, h⟩
  | issue h =>
      have hstart := startInvocation_starts h
      simpa [Rooted, hstart.configuration, hstart.chart] using hp
  | pass | accept | become => exact hp
  | @exit m i h =>
      have hleave := leave_leaves m i
      simp only [Rooted, hleave.chart, hleave.configuration]
      rcases (hp : m.Rooted) with hnil | ⟨i, hi, hpath⟩
      · exact .inl (by rw [hnil]; rfl)
      · rw [hpath]
        exact hc.prefix_pathTo hi (List.dropLast_prefix _)

theorem Moves.rooted (h : Moves p hs q) (hc : p.machine.chart.Sound) (hp : p.machine.Rooted) :
    q.machine.Rooted := by
  induction h with
  | refl => exact hp
  | tail h last ih => exact last.rooted (by rwa [h.chart]) ih

theorem Leads.rooted (h : Leads p q) (hc : p.machine.chart.Sound) (hp : p.machine.Rooted) :
    q.machine.Rooted :=
  h.choose_spec.1.rooted hc hp

theorem Reaches.rooted (hc : m.chart.Sound) (hm : m.Rooted) : m.Reaches m' → m'.Rooted
  | ⟨_, h⟩ => h.rooted hc hm

/-- What the trace shows is what the history tells of, in its order. -/
theorem Move.effects (h : Move p hs q) : q.machine.trace.toList.filter Effect.shows =
    p.machine.trace.toList.filter Effect.shows ++
      hs.flatMap (Happening.effects p.machine.chart) := by
  cases h with
  | quiet h =>
      obtain ⟨effects, htrace, hnone⟩ := h.trace
      have hempty : effects.filter Effect.shows = [] := by simpa using hnone
      simp [htrace, hempty]
  | activate => simp [Machine.activate, notify, record, Effect.shows, Happening.effects]
  | issue h => simpa using (startInvocation_starts h).effects
  | pass => simp
  | accept => simp [Machine.accept, Happening.effects]
  | exit h => simpa using (leave_leaves _ _).effects
  | resume | become => simp [Happening.effects]

theorem Moves.effects (h : Moves p hs q) : q.machine.trace.toList.filter Effect.shows =
    p.machine.trace.toList.filter Effect.shows ++
      hs.flatMap (Happening.effects p.machine.chart) := by
  induction h with
  | refl => simp
  | tail h last ih => rw [last.effects, ih, h.chart, List.flatMap_append, List.append_assoc]

end Machine

end Statechart
