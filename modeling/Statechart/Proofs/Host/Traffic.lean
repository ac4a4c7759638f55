import Mathlib.Data.List.Nodup
import Mathlib.Logic.Function.Basic
import Statechart.Proofs.Host.Launching
import Statechart.Proofs.Host.Stopping

/-!
# Calls side by side

Any number of launches, stops and shutdowns are in progress at a time, each with its stage, and any
of them may make the next step; what else the host does happens between their steps. Whatever the
order, an id is reserved exactly as long as one launch holds it, nothing is registered under an id
that a launch has found free, and no two registrations are for one actor.
-/
namespace Statechart.Host

/-- A call in progress or returned. -/
inductive Call where
  | launch (order : Order) (stage : LaunchStage)
  | stop (id : String) (stage : StopStage)
  | shutdown (stage : ShutdownStage)

/-- A call that has not made a step. -/
inductive Call.Fresh : Call → Prop where
  | launch (o : Order) : Fresh (.launch o .asked)
  | stop (id : String) : Fresh (.stop id .asked)
  | shutdown : Fresh (.shutdown .asked)

/-- One step of a call. -/
inductive Call.Goes (h : Host) : Call → Sign → Host → Call → Prop where
  | launch {o : Order} {s s' : LaunchStage} {sign : Sign} {h' : Host}
      (hstep : Advances o h s sign h' s') : Goes h (.launch o s) sign h' (.launch o s')
  | stop {id : String} {s s' : StopStage} {sign : Sign} {h' : Host}
      (hstep : Stops id h s sign h' s') : Goes h (.stop id s) sign h' (.stop id s')
  | shutdown {s s' : ShutdownStage} {sign : Sign} {h' : Host}
      (hstep : ShutsDown h s sign h' s') : Goes h (.shutdown s) sign h' (.shutdown s')

def Call.stake : Call → Stake
  | .launch _ s => s.stake
  | .stop .. | .shutdown _ => .nothing

theorem Call.Goes.shifts {h h' : Host} {k k' : Call} {sign : Sign}
    (hgoes : k.Goes h sign h' k') : Shifts h k.stake sign h' k'.stake := by
  cases hgoes with
  | launch hstep => exact hstep.shifts
  | stop hstep => exact hstep.shifts
  | shutdown hstep => exact hstep.shifts

/-- A host and the calls that have been made so far, by number. -/
structure Traffic where
  host : Host
  calls : Nat → Option Call

/-- Who has made a step, if it was a call, and what has come of it. -/
structure Move where
  caller : Option Nat
  sign : Sign
  before : Host
  after : Host

namespace Traffic

/-- Nothing has been called yet. -/
def quiet (h : Host) : Traffic := ⟨h, fun _ => none⟩

/-- A call has come to a stage. -/
def put (c : Nat) (k : Call) (h : Host) (t : Traffic) : Traffic :=
  ⟨h, Function.update t.calls c (some k)⟩

def stake (t : Traffic) (c : Nat) : Stake := ((t.calls c).map Call.stake).getD .nothing

/-- The next step: a new call, one step of a call, or something else that the host does. -/
inductive Step (t : Traffic) : Move → Traffic → Prop where
  | ask {c : Nat} {k : Call} (hnew : t.calls c = none) (hfresh : k.Fresh) :
    Step t ⟨none, .other, t.host, t.host⟩ (t.put c k t.host)
  | go {c : Nat} {k k' : Call} {sign : Sign} {h' : Host} (hcall : t.calls c = some k)
      (hgoes : k.Goes t.host sign h' k') : Step t ⟨some c, sign, t.host, h'⟩ (t.put c k' h')
  | aside {h' : Host} (haside : Aside t.host h') :
    Step t ⟨none, .other, t.host, h'⟩ ⟨h', t.calls⟩

/-- A run of steps in any order, with the moves that it consists of. -/
inductive Runs (t₀ : Traffic) : List Move → Traffic → Prop where
  | refl : Runs t₀ [] t₀
  | tail {moves t move t'} (hruns : Runs t₀ moves t) (hstep : Step t move t') :
    Runs t₀ (moves ++ [move]) t'

variable {t t' t₀ : Traffic} {move : Move} {moves : List Move} {h h' : Host} {sign : Sign}

section steps
variable {k k' : Call} {c : Nat}

theorem calls_put (c : Nat) (k : Call) (h : Host) (t : Traffic) (d : Nat) :
    (t.put c k h).calls d = if d = c then some k else t.calls d :=
  Function.update_apply t.calls c (some k) d

@[simp] theorem put_put (c : Nat) (k k' : Call) (h h' : Host) (t : Traffic) :
    (t.put c k h).put c k' h' = t.put c k' h' := by
  simp [put]

theorem stake_put (c : Nat) (k : Call) (h : Host) (t : Traffic) :
    (t.put c k h).stake = Function.update t.stake c k.stake := by
  funext d
  rw [stake, calls_put, Function.update_apply]
  split <;> rfl

theorem stake_of_call (hcall : t.calls c = some k) : t.stake c = k.stake := by
  rw [stake, hcall]
  rfl

/-- Every step shifts what one call has of the registry. -/
theorem Step.shifts (hstep : Step t move t') : ∃ c stake,
    Shifts t.host (t.stake c) move.sign t'.host stake ∧
      t'.stake = Function.update t.stake c stake := by
  cases hstep with
  | @ask c k hnew hfresh =>
      refine ⟨c, .nothing, ?_, ?_⟩
      · rw [stake, hnew]
        exact .stay rfl (aside_refl _)
      · rw [stake_put]
        cases hfresh <;> rfl
  | @go c k k' sign h' hcall hgoes =>
      exact ⟨c, k'.stake, stake_of_call hcall ▸ hgoes.shifts, stake_put c k' h' t⟩
  | aside haside => exact ⟨0, t.stake 0, .stay rfl haside, (Function.update_eq_self 0 _).symm⟩

/-- A call after a step: it has made the step, or is new, or is as it was. -/
theorem Step.call (hstep : Step t move t') (hcall : t'.calls c = some k') :
    (∃ k, t.calls c = some k ∧ move.caller = some c ∧ k.Goes t.host move.sign t'.host k') ∨
      (t.calls c = none ∧ move.caller = none ∧ k'.Fresh) ∨
      (t.calls c = some k' ∧ move.caller ≠ some c) := by
  cases hstep with
  | aside => exact .inr (.inr ⟨hcall, (Option.some_ne_none c).symm⟩)
  | ask hnew hfresh =>
      rw [calls_put] at hcall
      split at hcall
      · next hc =>
          cases hcall
          exact .inr (.inl ⟨hc ▸ hnew, rfl, hfresh⟩)
      · exact .inr (.inr ⟨hcall, (Option.some_ne_none c).symm⟩)
  | go hold hgoes =>
      rw [calls_put] at hcall
      split at hcall
      · next hc =>
          cases hcall
          exact .inl ⟨_, hc ▸ hold, congrArg some hc.symm, hgoes⟩
      · next hc => exact .inr (.inr ⟨hcall, fun heq => hc (Option.some.inj heq).symm⟩)

/-- What has not been called after a step has not been before, and has not made the step. -/
theorem Step.uncalled (hstep : Step t move t') (hnone : t'.calls c = none) :
    t.calls c = none ∧ move.caller ≠ some c := by
  cases hstep with
  | aside => exact ⟨hnone, (Option.some_ne_none c).symm⟩
  | ask =>
      rw [calls_put] at hnone
      split at hnone
      · cases hnone
      · exact ⟨hnone, (Option.some_ne_none c).symm⟩
  | go =>
      rw [calls_put] at hnone
      split at hnone
      · cases hnone
      · next hc => exact ⟨hnone, fun heq => hc (Option.some.inj heq).symm⟩

end steps

/-- Every id is reserved once, and held by one call. -/
structure Reservations (reserved : List String) (held : Nat → Option String) : Prop where
  nodup : reserved.Nodup
  mem_iff (id : String) : id ∈ reserved ↔ ∃ c, held c = some id
  single (c d : Nat) (id : String) : held c = some id → held d = some id → c = d

section reservations
variable {reserved : List String} {held : Nat → Option String} {c : Nat} {id : String}

theorem Reservations.add (hr : Reservations reserved held) (hnew : id ∉ reserved)
    (hnone : held c = none) :
    Reservations (id :: reserved) (Function.update held c (some id)) := by
  have hother : ∀ d, held d ≠ some id := fun d hd => hnew ((hr.mem_iff id).mpr ⟨d, hd⟩)
  refine ⟨List.nodup_cons.mpr ⟨hnew, hr.nodup⟩, fun i => ?_, fun d e i hd he => ?_⟩
  · rw [List.mem_cons, hr.mem_iff]
    constructor
    · rintro (rfl | ⟨d, hd⟩)
      · exact ⟨c, Function.update_self ..⟩
      · have hne : d ≠ c := by
          rintro rfl
          rw [hnone] at hd
          cases hd
        exact ⟨d, by rwa [Function.update_of_ne hne]⟩
    · rintro ⟨d, hd⟩
      rw [Function.update_apply] at hd
      split at hd
      · exact .inl (Option.some.inj hd).symm
      · exact .inr ⟨d, hd⟩
  · rw [Function.update_apply] at hd he
    split at hd <;> split at he
    · next hdc hec => rw [hdc, hec]
    · cases hd
      exact absurd he (hother e)
    · cases he
      exact absurd hd (hother d)
    · exact hr.single d e i hd he

theorem Reservations.drop (hr : Reservations reserved held) (hheld : held c = some id) :
    Reservations (reserved.erase id) (Function.update held c none) := by
  refine ⟨hr.nodup.erase id, fun i => ?_, fun d e i hd he => ?_⟩
  · rw [hr.nodup.mem_erase_iff, hr.mem_iff]
    constructor
    · rintro ⟨hne, d, hd⟩
      have hdc : d ≠ c := by
        rintro rfl
        rw [hheld] at hd
        exact hne (Option.some.inj hd).symm
      exact ⟨d, by rwa [Function.update_of_ne hdc]⟩
    · rintro ⟨d, hd⟩
      rw [Function.update_apply] at hd
      split at hd
      · cases hd
      · next hdc =>
          refine ⟨?_, d, hd⟩
          rintro rfl
          exact hdc (hr.single d c i hd hheld)
  · rw [Function.update_apply] at hd he
    split at hd
    · cases hd
    · split at he
      · cases he
      · exact hr.single d e i hd he

end reservations

/-- The number is of an actor that is not being brought up, now or later. -/
def Spent (h : Host) (stake : Nat → Stake) (n : Nat) : Prop :=
  n < h.nextActor ∧ ∀ c, (stake c).actor? ≠ some n

/-- What holds at every moment between two steps. -/
structure Orderly (h : Host) (stake : Nat → Stake) : Prop where
  sorted : Keyed.Sorted h.instances
  reservations : Reservations h.reserved fun c => (stake c).held?
  free (c : Nat) (id : String) : (stake c).claimed? = some id → Keyed.get? id h.instances = none
  spent (id : String) (r : Registration) : Keyed.get? id h.instances = some r →
    Spent h stake r.actor
  raised (c n : Nat) : (stake c).actor? = some n → n < h.nextActor
  apart (c d n : Nat) : (stake c).actor? = some n → (stake d).actor? = some n → c = d

section shifts
variable {stake : Nat → Stake} {c : Nat} {s : Stake}

/-- No registration is for an actor that is spent, and a spent actor stays so. -/
theorem Spent.shifts {n : Nat} (hn : Spent h stake n) (hshift : Shifts h (stake c) sign h' s) :
    Spent h' (Function.update stake c s) n := by
  refine ⟨hn.1.trans_le hshift.nextActor, fun d => ?_⟩
  rw [Function.update_apply]
  split
  swap
  · exact hn.2 d
  have hc := hn.2 c
  generalize stake c = old at hshift hc
  cases hshift with
  | stay => exact hc
  | raise => exact fun heq => hn.1.ne (Option.some.inj heq).symm
  | reserve | claim | yield | register | release | unregister | close => nofun

theorem held_update (stake : Nat → Stake) (c : Nat) (s : Stake) :
    (fun d => (Function.update stake c s d).held?) =
      Function.update (fun d => (stake d).held?) c s.held? := by
  funext d
  rw [Function.update_apply, Function.update_apply]
  split <;> rfl

theorem Reservations.shifts (hr : Reservations h.reserved fun d => (stake d).held?)
    (hshift : Shifts h (stake c) sign h' s) :
    Reservations h'.reserved fun d => (Function.update stake c s d).held? := by
  have hkeep : s.held? = (stake c).held? → h'.reserved = h.reserved →
      Reservations h'.reserved fun d => (Function.update stake c s d).held? := by
    intro hheld hreserved
    rw [held_update, hheld, hreserved, Function.update_eq_self c fun d => (stake d).held?]
    exact hr
  generalize hs : stake c = old at hshift hkeep
  cases hshift with
  | stay _ haside => exact hkeep rfl haside.reserved
  | claim | close => exact hkeep rfl rfl
  | raise haside | register _ haside | unregister _ haside => exact hkeep rfl haside.reserved
  | yield hheld haside => exact hkeep hheld.symm haside.reserved
  | reserve hnew =>
      rw [held_update]
      exact hr.add hnew (by rw [hs]; rfl)
  | release =>
      rw [held_update]
      exact hr.drop (by rw [hs]; rfl)

end shifts

section orderly
variable {stake : Nat → Stake} {c : Nat} {s : Stake}

/-- A call that claims an id has reserved it, so no other call registers anything under it. -/
theorem Orderly.free_shifts (ho : Orderly h stake) (hshift : Shifts h (stake c) sign h' s) (d : Nat)
    (id : String) (hclaimed : (Function.update stake c s d).claimed? = some id) :
    Keyed.get? id h'.instances = none := by
  have hentry := hshift.entry ho.sorted id
  suffices hnone : Keyed.get? id h.instances = none ∧ ∀ n, sign ≠ .registered id n by
    rw [hnone.1, Option.map_none] at hentry
    refine Option.map_eq_none_iff.mp (hentry.trans ?_)
    rcases sign.entry_cases id none with hsame | ⟨n, hsign, -⟩ | ⟨n, -, hgone⟩
    · exact hsame
    · exact absurd hsign (hnone.2 n)
    · exact hgone
  rw [Function.update_apply] at hclaimed
  split at hclaimed
  · -- its own claim
    have hfree := ho.free c id
    generalize stake c = old at hshift hfree
    cases hshift with
    | stay hsign => exact ⟨hfree hclaimed, fun n heq => by rw [heq] at hsign; cases hsign⟩
    | claim hnone =>
        cases hclaimed
        exact ⟨hnone, fun n heq => by cases heq⟩
    | raise => exact ⟨hfree hclaimed, fun n heq => by cases heq⟩
    | reserve | yield | register | release | unregister | close => cases hclaimed
  · next hdc =>
      refine ⟨ho.free d id hclaimed, fun n heq => hdc ?_⟩
      have hheld : (stake c).held? = some id := by
        generalize stake c = old at hshift
        subst heq
        cases hshift with
        | stay hsign => cases hsign
        | register => rfl
      refine ho.reservations.single d c id ?_ hheld
      generalize stake d = claim at hclaimed
      cases claim <;> first | exact hclaimed | cases hclaimed

/-- Nothing is registered for an actor that is being brought up, now or later. -/
theorem Orderly.spent_shifts (ho : Orderly h stake) (hshift : Shifts h (stake c) sign h' s)
    (id : String) (r : Registration) (hr : Keyed.get? id h'.instances = some r) :
    Spent h' (Function.update stake c s) r.actor := by
  have hentry := hshift.entry ho.sorted id
  rw [hr, Option.map_some] at hentry
  have hold : (Keyed.get? id h.instances).map Registration.actor = some r.actor →
      Spent h' (Function.update stake c s) r.actor := by
    intro hsome
    obtain ⟨r', hr', hactor⟩ := Option.map_eq_some_iff.mp hsome
    exact hactor ▸ (ho.spent id r' hr').shifts hshift
  rcases sign.entry_cases id _ with hsame | ⟨n, hsign, hnew⟩ | ⟨n, -, hgone⟩
  · exact hold (hentry.trans hsame).symm
  · obtain rfl := Option.some.inj (hentry.trans hnew)
    have hraised : (stake c).actor? = some r.actor ∧ s.actor? = none := by
      generalize stake c = old at hshift
      subst hsign
      cases hshift with
      | stay hsign => cases hsign
      | register => exact ⟨rfl, rfl⟩
    refine ⟨(ho.raised c _ hraised.1).trans_le hshift.nextActor, fun d hd => ?_⟩
    rw [Function.update_apply] at hd
    split at hd
    · rw [hraised.2] at hd
      cases hd
    · next hdc => exact hdc (ho.apart d c _ hd hraised.1)
  · cases hentry.trans hgone

theorem Orderly.shifts (ho : Orderly h stake) (hshift : Shifts h (stake c) sign h' s) :
    Orderly h' (Function.update stake c s) where
  sorted := hshift.sorted ho.sorted
  reservations := ho.reservations.shifts hshift
  free := ho.free_shifts hshift
  spent := ho.spent_shifts hshift
  raised d n hn := by
    rw [Function.update_apply] at hn
    split at hn
    · rcases hshift.actor hn with hold | ⟨_, hlt⟩
      · exact (ho.raised c n hold).trans_le hshift.nextActor
      · exact hlt
    · exact (ho.raised d n hn).trans_le hshift.nextActor
  apart d e n hd he := by
    rw [Function.update_apply] at hd he
    have hother : ∀ b, (stake b).actor? = some n → s.actor? = some n → b = c := fun b hb hs =>
      (hshift.actor hs).elim (ho.apart b c n hb) fun hnew =>
        absurd hnew.1 (ho.raised b n hb).ne
    split at hd <;> split at he
    · next hdc hec => rw [hdc, hec]
    · next hdc _ => exact hdc.trans (hother e he hd).symm
    · next _ hec => exact (hother d hd he).trans hec.symm
    · exact ho.apart d e n hd he

end orderly

theorem Step.orderly (hstep : Step t move t') (ho : Orderly t.host t.stake) :
    Orderly t'.host t'.stake := by
  obtain ⟨c, stake, hshift, hstake⟩ := hstep.shifts
  rw [hstake]
  exact ho.shifts hshift

theorem Runs.orderly (hruns : Runs t₀ moves t) (ho : Orderly t₀.host t₀.stake) :
    Orderly t.host t.stake := by
  induction hruns with
  | refl => exact ho
  | tail _ hstep ih => exact hstep.orderly ih

/-- A host without instances that nobody has called. -/
theorem orderly_quiet (hinstances : h.instances = []) (hreserved : h.reserved = []) :
    Orderly (quiet h).host (quiet h).stake where
  sorted := by rw [quiet, hinstances]; exact .nil
  reservations := ⟨by rw [quiet, hreserved]; exact .nil,
    by simp [quiet, stake, hreserved, Stake.held?], by simp [quiet, stake, Stake.held?]⟩
  free := by simp [quiet, stake, Stake.claimed?]
  spent := by simp [quiet, hinstances, Keyed.get?]
  raised := by simp [quiet, stake, Stake.actor?]
  apart := by simp [quiet, stake, Stake.actor?]

theorem Step.ends (hstep : Step t move t') : move.before = t.host ∧ move.after = t'.host := by
  cases hstep <;> exact ⟨rfl, rfl⟩

theorem Step.config (hstep : Step t move t') : t'.host.config = t.host.config := by
  obtain ⟨c, stake, hshift, _⟩ := hstep.shifts
  exact hshift.config

/-- Every move of a run is a step from a moment of the run to a later one. -/
theorem Runs.split {before after : List Move} (hruns : Runs t₀ (before ++ move :: after) t) :
    ∃ t₁ t₂, Runs t₀ before t₁ ∧ Step t₁ move t₂ ∧ Runs t₂ after t := by
  generalize hmoves : before ++ move :: after = moves at hruns
  induction hruns generalizing after with
  | refl => simp at hmoves
  | @tail moves t last t' hruns hstep ih =>
      rcases List.eq_nil_or_concat after with rfl | ⟨after, last', rfl⟩
      · obtain ⟨rfl, hlast⟩ := List.append_inj' hmoves rfl
        cases hlast
        exact ⟨t, t', hruns, hstep, .refl⟩
      · rw [List.concat_eq_append, ← List.cons_append, ← List.append_assoc] at hmoves
        obtain ⟨hinit, hlast⟩ := List.append_inj' hmoves rfl
        cases hlast
        obtain ⟨t₁, t₂, hbefore, hmove, hafter⟩ := ih hinit
        exact ⟨t₁, t₂, hbefore, hmove, List.concat_eq_append ▸ hafter.tail hstep⟩

theorem Runs.append {moves' : List Move} (hruns : Runs t₀ moves t) (hruns' : Runs t moves' t') :
    Runs t₀ (moves ++ moves') t' := by
  induction hruns' with
  | refl => rwa [List.append_nil]
  | tail _ hstep ih => exact List.append_assoc _ _ _ ▸ ih.tail hstep

/-- Every moment of a run is orderly. -/
theorem Runs.orderly_before (hruns : Runs t₀ moves t) (ho : Orderly t₀.host t₀.stake)
    (hmove : move ∈ moves) : ∃ t₁ t₂, Step t₁ move t₂ ∧ Orderly t₁.host t₁.stake := by
  obtain ⟨before, after, rfl⟩ := List.append_of_mem hmove
  obtain ⟨t₁, t₂, hbefore, hstep, _⟩ := hruns.split
  exact ⟨t₁, t₂, hstep, hbefore.orderly ho⟩

/-- The actor that is registered under an id. -/
def enrolled (t : Traffic) (id : String) : Option Nat :=
  (Keyed.get? id t.host.instances).map Registration.actor

section instances
variable {id : String} {n : Nat}

theorem Step.enrolled (hstep : Step t move t') (ho : Orderly t.host t.stake) (id : String) :
    t'.enrolled id = move.sign.entry id (t.enrolled id) := by
  obtain ⟨c, stake, hshift, _⟩ := hstep.shifts
  exact hshift.entry ho.sorted id

/-- A registration finds its id free. -/
theorem Step.vacant (hstep : Step t move t') (ho : Orderly t.host t.stake)
    (hsign : move.sign = .registered id n) :
    Keyed.get? id t.host.instances = none ∧ t'.enrolled id = some n := by
  have hentry := hstep.enrolled ho id
  obtain ⟨c, stake, hshift, _⟩ := hstep.shifts
  rw [hsign] at hshift hentry
  refine ⟨?_, by rw [hentry, Sign.entry, if_pos rfl]⟩
  have hfree := ho.free c id
  generalize t.stake c = old at hshift hfree
  cases hshift with
  | stay hsign => cases hsign
  | register => exact hfree rfl

/-- What leaves the registry has been in it. -/
theorem Step.enrolled_of_unregistered (hstep : Step t move t')
    (hsign : move.sign = .unregistered id n) : t.enrolled id = some n := by
  obtain ⟨c, stake, hshift, _⟩ := hstep.shifts
  rw [hsign] at hshift
  rw [Traffic.enrolled]
  generalize t.stake c = old at hshift
  cases hshift with
  | stay hsign => cases hsign
  | unregister hfound => rw [hfound, Option.map_some]

/-- An instance stays registered as long as it is not taken out. -/
theorem Runs.enrolled (hruns : Runs t moves t') (ho : Orderly t.host t.stake)
    (hn : t.enrolled id = some n) :
    t'.enrolled id = some n ∨ ∃ m ∈ moves, m.sign = .unregistered id n := by
  induction hruns with
  | refl => exact .inl hn
  | @tail moves t₁ move t₂ hruns hstep ih =>
      rcases ih with hstays | ⟨m, hm, hsign⟩
      swap
      · exact .inr ⟨m, List.mem_append_left _ hm, hsign⟩
      have ho₁ := hruns.orderly ho
      have hentry := hstep.enrolled ho₁ id
      rcases move.sign.entry_cases id (t₁.enrolled id) with hsame | ⟨k, hsign, -⟩ | ⟨k, hsign, -⟩
      · exact .inl (hentry.trans (hsame.trans hstays))
      · have hnone := (hstep.vacant ho₁ hsign).1
        rw [Traffic.enrolled, hnone] at hstays
        cases hstays
      · have hk := hstep.enrolled_of_unregistered hsign
        rw [hstays] at hk
        cases hk
        exact .inr ⟨move, by simp, hsign⟩

/-- What is registered after a step was so before, or has been registered in the step. -/
theorem Step.enrolled_of (hstep : Step t move t') (ho : Orderly t.host t.stake)
    (hn : t'.enrolled id = some n) : t.enrolled id = some n ∨ move.sign = .registered id n := by
  rw [hstep.enrolled ho id] at hn
  rcases move.sign.entry_cases id (t.enrolled id) with hsame | ⟨k, hsign, hnew⟩ | ⟨k, -, hgone⟩
  · exact .inl (hsame.symm.trans hn)
  · obtain rfl := Option.some.inj (hnew.symm.trans hn)
    exact .inr hsign
  · cases hgone.symm.trans hn

/-- While nothing is registered under an id, what is found there can only go. -/
theorem Runs.enrolled_or_none (hruns : Runs t moves t') (ho : Orderly t.host t.stake)
    (hsigns : ∀ m ∈ moves, ∀ k, m.sign ≠ .registered id k) :
    t'.enrolled id = t.enrolled id ∨ t'.enrolled id = none := by
  induction hruns with
  | refl => exact .inl rfl
  | @tail moves t₁ move t₂ hruns hstep ih =>
      have hbefore := ih fun m hm => hsigns m (List.mem_append_left _ hm)
      rw [hstep.enrolled (hruns.orderly ho) id]
      rcases move.sign.entry_cases id (t₁.enrolled id) with hsame | ⟨k, hsign, -⟩ | ⟨k, -, hgone⟩
      · rwa [hsame]
      · exact absurd hsign (hsigns move (by simp) k)
      · exact .inr hgone

theorem Step.raises (hstep : Step t move t') (hsign : move.sign = .registered id n) :
    ∃ c, (t.stake c).actor? = some n := by
  obtain ⟨c, stake, hshift, _⟩ := hstep.shifts
  rw [hsign] at hshift
  refine ⟨c, ?_⟩
  generalize t.stake c = old at hshift
  cases hshift with
  | stay hsign => cases hsign
  | register => rfl

theorem Runs.spent (hruns : Runs t moves t') (hn : Spent t.host t.stake n) :
    Spent t'.host t'.stake n := by
  induction hruns with
  | refl => exact hn
  | tail _ hstep ih =>
      obtain ⟨c, stake, hshift, hstake⟩ := hstep.shifts
      rw [hstake]
      exact ih.shifts hshift

theorem Orderly.spent_of_enrolled (ho : Orderly t.host t.stake) (hn : t.enrolled id = some n) :
    Spent t.host t.stake n := by
  obtain ⟨r, hr, rfl⟩ := Option.map_eq_some_iff.mp hn
  exact ho.spent id r hr

/-- An actor that is not registered, and is not being brought up, will not be registered. -/
theorem Runs.never_again (hruns : Runs t moves t') (ho : Orderly t.host t.stake)
    (hn : Spent t.host t.stake n) (hne : t.enrolled id ≠ some n) : t'.enrolled id ≠ some n := by
  induction hruns with
  | refl => exact hne
  | tail hruns hstep ih =>
      intro hagain
      rcases hstep.enrolled_of (hruns.orderly ho) hagain with hold | hsign
      · exact ih hold
      · obtain ⟨c, hc⟩ := hstep.raises hsign
        exact (hruns.spent hn).2 c hc

/-- Once it has been taken out, an instance is not registered again. -/
theorem Step.gone {t₁ : Traffic} {later : List Move} (hstep : Step t move t₁)
    (ho : Orderly t.host t.stake) (hsign : move.sign = .unregistered id n)
    (hlater : Runs t₁ later t') : t'.enrolled id ≠ some n := by
  have hspent := ho.spent_of_enrolled (hstep.enrolled_of_unregistered hsign)
  have hout : t₁.enrolled id = none := by
    rw [hstep.enrolled ho id, hsign, Sign.entry, if_pos rfl]
  exact hlater.never_again (hstep.orderly ho) ((Runs.refl.tail hstep).spent hspent)
    (hout ▸ (Option.some_ne_none n).symm)

end instances

end Traffic

end Statechart.Host
