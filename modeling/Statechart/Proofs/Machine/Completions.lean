import Statechart.Proofs.Machine.Course

/-!
# Completions

A completion is looked up when it is processed, one after another in order of arrival. Whoever has
reported it, it is ignored unless its token is the one of the latest activation of a state that
has been active since and no completion has been accepted for it. Outside a run every completion is
ignored.
-/
namespace Statechart.Machine
open History

/-- Processing a completion changes nothing, notes nothing and counts nothing. -/
def Ignores (m : Machine) (r : Completion) : Prop := m.processCompletion r = ⟨m, [], .ok 0⟩

variable {c : Chart} {hs : History} {m₀ m : Machine} {r : Completion}

theorem ignores_of_ne (h : Keyed.get? r.token.invokeId m.invocations ≠ some r.token) :
    m.Ignores r := by
  simp [Ignores, processCompletion, h]

/-- What is processed in a batch before a completion and after it. -/
theorem processAll_append (rest : List Completion) : ∀ (first : List Completion) (m : Machine),
    (m.processAll (first ++ rest)).1 = ((m.processAll first).1.processAll rest).1
  | [], _ => rfl
  | r :: first, m => processAll_append rest first (m.processCompletion r).machine

theorem Books.held_iff_current (hb : Books c hs ⟨m, []⟩) (t : Token) :
    Keyed.get? t.invokeId m.invocations = some t ↔ ∃ i, Current hs i t := by
  rw [hb.held]
  constructor
  · rintro ⟨i, _, _, _, hcur⟩
    exact ⟨i, hcur⟩
  · rintro ⟨i, hcur⟩
    obtain ⟨v, hv, hid⟩ := hb.orderly.current_invokeId hcur
    exact ⟨i, v, hv, hid.symm, hcur⟩

/-- A completion whose token is not current is ignored. -/
theorem Books.ignores (hb : Books c hs ⟨m, []⟩)
    (h : ∀ i ∈ m.configuration, ¬ Current hs i r.token) : m.Ignores r := by
  apply ignores_of_ne
  rw [ne_eq, hb.held_iff_current]
  rintro ⟨i, hcur⟩
  exact h i (hb.active_of_current hcur) hcur

/-- A completion that is not ignored is accepted; after that, every other one of its token is
ignored, whatever comes in between. -/
theorem Books.ignores_later {later : Machine} (hb : Books c hs ⟨m, []⟩) (hc : c.Sound)
    (h : ¬ m.Ignores r) (hlater : (m.processCompletion r).machine.Reaches later) {r' : Completion}
    (hr' : r'.token = r.token) : later.Ignores r' := by
  have hheld : Keyed.get? r.token.invokeId m.invocations = some r.token := by
    by_contra hne
    exact h (ignores_of_ne hne)
  have haccept := hb.accept hc hheld
  have hsound : (m.accept r.token).chart.Sound := by
    rw [show (m.accept r.token).chart = c from hb.chart]
    exact hc
  have hrun := runToCompletion_leads hsound haccept.rooted r.toEvent
  simp only [processCompletion, if_pos hheld] at hlater
  obtain ⟨new, hmoves⟩ := hrun.reaches.trans hlater
  have hafter := hmoves.books hc haccept
  refine hafter.ignores fun i _ hcur => hcur.2 ?_
  rw [hr', History.mem_accepted]
  simp

/-- In every run, at the moment at which a completion is processed: it is ignored unless its token
is current, in particular when the state of its invocation has been exited since or its completion
has been accepted; and once it has not been ignored, no other one of its token has an effect. While
a machine does not run, completions are refused or dropped. -/
theorem after_completions {d : Definition} {initial : Json} {setup : Setup}
    (hbuild : Chart.build d = .ok c) (hcreate : create c initial setup = .ok m₀)
    (inputs : List Input) :
    (∀ first r rest here, (m₀.after inputs).status = .running →
      (m₀.after inputs).pending = first ++ r :: rest →
      here = ((m₀.after inputs).takePending.1.processAll first).1 →
      ((m₀.after inputs).takePending.1.processAll (m₀.after inputs).pending).1 =
        ((here.processCompletion r).machine.processAll rest).1 ∧
      (∃ hs, Moves ⟨m₀, []⟩ hs ⟨here, []⟩) ∧
      ∀ hs, Moves ⟨m₀, []⟩ hs ⟨here, []⟩ →
        ((∀ i ∈ here.configuration, ¬ Current hs i r.token) → here.Ignores r) ∧
        (∀ i before input middle held after,
          hs = before ++ .issued i r.token input :: (middle ++ .exited i held :: after) →
          here.Ignores r) ∧
        (r.token ∈ accepted hs → here.Ignores r) ∧
        (accepted hs).Nodup ∧
        (¬ here.Ignores r → ∀ later, (here.processCompletion r).machine.Reaches later →
          ∀ r', r'.token = r.token → later.Ignores r')) ∧
    ((m₀.after inputs).status ≠ .running →
      (∀ event, ((m₀.after inputs).dispatch event).1 = m₀.after inputs) ∧
      (m₀.after inputs).processPending = ((m₀.after inputs).takePending.1, .ok 0)) := by
  have hm := create_begins (Chart.build_sound hbuild) hcreate
  obtain ⟨hreach, hregular⟩ := after_reaches hm inputs
  constructor
  · rintro first r rest here - hpending rfl
    have htaken := (takePending_quiet (m₀.after inputs)).leads (a := [])
    obtain ⟨hc, hrooted⟩ := htaken.still hregular.sound hregular.rooted
    have hhere := hreach.trans (htaken.trans (processAll_leads first _ hc hrooted)).reaches
    refine ⟨by rw [hpending, processAll_append]; rfl, hhere, fun hs hmoves => ?_⟩
    have hb := hm.books hmoves
    refine ⟨hb.ignores, ?_, fun hmem => hb.ignores fun i _ hcur => hcur.2 hmem,
      hb.orderly.accepted_nodup, fun hnot later hlater r' => hb.ignores_later hm.sound hnot hlater⟩
    rintro i before input middle held after rfl
    exact hb.ignores fun j _ => hb.orderly.not_current_of_exited hm.sound j
  · intro hstatus
    exact ⟨fun event => by rw [dispatch_of_ne hstatus], processPending_of_ne hstatus⟩

/-- A job is cancelled and begun again; then the completion of the first start comes late, and
after it that of the second, twice. -/
def lateInputs : List Input :=
  [.start, .dispatch ⟨"go", .null⟩, .dispatch ⟨"cancel", .null⟩, .dispatch ⟨"go", .null⟩,
    .report ⟨⟨"job", 1⟩, .done .null⟩, .report ⟨⟨"job", 2⟩, .done .null⟩,
    .report ⟨⟨"job", 2⟩, .done .null⟩]

theorem after_completions_job :
    (jobMachine.after lateInputs).takePending.1.Ignores ⟨⟨"job", 1⟩, .done .null⟩ ∧
    ¬ (jobMachine.after lateInputs).takePending.1.Ignores ⟨⟨"job", 2⟩, .done .null⟩ ∧
    (∀ later, ((jobMachine.after lateInputs).takePending.1.processCompletion
        ⟨⟨"job", 2⟩, .done .null⟩).machine.Reaches later →
      later.Ignores ⟨⟨"job", 2⟩, .done .null⟩) ∧
    ∀ event, ((jobMachine.after [.start, .stop]).dispatch event).1 =
      jobMachine.after [.start, .stop] := by
  have hm := create_begins (Chart.build_sound build_job) create_job
  have hnot : ¬ (jobMachine.after lateInputs).takePending.1.Ignores
      ⟨⟨"job", 2⟩, .done .null⟩ := by
    intro h
    have hconfiguration := congrArg (fun run : Run Nat => run.machine.configuration) h
    exact absurd (show [0, 1] = [0, 3] from hconfiguration) (by decide)
  obtain ⟨hlate, _⟩ := after_completions build_job create_job lateInputs
  obtain ⟨_, ⟨hs, hmoves⟩, hall⟩ := hlate [] ⟨⟨"job", 1⟩, .done .null⟩ _ _ rfl rfl rfl
  obtain ⟨_, ⟨hs', hmoves'⟩, hall'⟩ := hlate [⟨⟨"job", 1⟩, .done .null⟩]
    ⟨⟨"job", 2⟩, .done .null⟩ _ _ rfl rfl rfl
  refine ⟨(hall hs hmoves).1 fun i _ hcur => ?_, hnot,
    fun later hlater => (hall' hs' hmoves').2.2.2.2 hnot later hlater _ rfl,
    (after_completions build_job create_job [.start, .stop]).2 nofun |>.1⟩
  have hheld := ((hm.books hmoves).held_iff_current ⟨"job", 1⟩).mpr ⟨i, hcur⟩
  exact absurd (show some (⟨"job", 2⟩ : Token) = some ⟨"job", 1⟩ from hheld) (by decide)

end Statechart.Machine
