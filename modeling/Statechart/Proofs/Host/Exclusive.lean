import Statechart.Proofs.Host.Traffic

/-!
# Launches exclude each other

From the moves of a run one can tell which instance is registered under an id: the signs that
concern the id say so. A launch registers at most once, under its id, and does nothing else that
others can see until its machine has been brought up. Since nothing is registered under an id that a
launch has found free, no registration replaces another, and of two launches of one id that both
succeed, the later one has found that the instance of the earlier one is gone.
-/
namespace Statechart.Host

def Sign.registered? : Sign → Option (String × Nat)
  | registered id n => some (id, n)
  | _ => none

/-- A launch that succeeds has registered once, and until then nothing has been registered. -/
def LaunchStage.Fulfils (registrations : List (String × Nat)) : LaunchStage → Prop
  | .leaving _ (.ok id) | .returned (.ok id) => ∃ n, registrations = [(id, n)]
  | _ => registrations = []

theorem Advances.fulfils {o : Order} {h h' : Host} {s s' : LaunchStage} {sign : Sign}
    {registrations : List (String × Nat)} (hstep : Advances o h s sign h' s')
    (hs : s.Fulfils registrations) :
    s'.Fulfils (registrations ++ sign.registered?.toList) := by
  have hother : registrations ++ Sign.other.registered?.toList = registrations :=
    List.append_nil _
  cases hstep with
  | register l n => exact ⟨n, by rw [show registrations = [] from hs]; rfl⟩
  | unreserve id result =>
      rw [hother]
      cases result <;> exact hs
  | _ =>
      rw [hother]
      exact hs

namespace Traffic

variable {t t' t₀ : Traffic} {move : Move} {moves : List Move} {h : Host}

/-- What the signs of a call's moves say. -/
def gathered {α : Type} (tells : Sign → Option α) (c : Nat) (moves : List Move) : List α :=
  (moves.filter fun m => m.caller = some c).filterMap fun m => tells m.sign

/-- What a call has registered. -/
def registrations (c : Nat) (moves : List Move) : List (String × Nat) :=
  gathered Sign.registered? c moves

section past
variable {c : Nat} {o : Order} {s : LaunchStage} {config : Config}

theorem gathered_own {α : Type} (tells : Sign → Option α) (hown : move.caller = some c) :
    gathered tells c (moves ++ [move]) = gathered tells c moves ++ (tells move.sign).toList := by
  cases hsign : tells move.sign <;> simp [gathered, hown, hsign]

theorem gathered_other {α : Type} (tells : Sign → Option α) (hother : move.caller ≠ some c) :
    gathered tells c (moves ++ [move]) = gathered tells c moves := by
  simp [gathered, hother]

/-- What is known of a launch from the moves that it has made. -/
structure Past (config : Config) (moves : List Move) (c : Nat) (o : Order) (s : LaunchStage) :
    Prop where
  sound : s.Sound config o
  fulfils : s.Fulfils (registrations c moves)
  harmless : s.Mild → ∀ m ∈ moves, m.caller = some c → Harmless m.before m.after

theorem Past.other (hp : Past config moves c o s) (hother : move.caller ≠ some c) :
    Past config (moves ++ [move]) c o s := by
  have hsame : registrations c (moves ++ [move]) = registrations c moves :=
    gathered_other Sign.registered? hother
  refine ⟨hp.sound, hsame.symm ▸ hp.fulfils, fun hmild m hm hc => ?_⟩
  rcases List.mem_append.mp hm with hm | hm
  · exact hp.harmless hmild m hm hc
  · rw [List.mem_singleton.mp hm] at hc
    exact absurd hc hother

theorem Past.own {s' : LaunchStage} (ho : Orderly t.host t.stake)
    (hcall : t.calls c = some (.launch o s)) (hp : Past t.host.config moves c o s)
    (hstep : Step t move t') (hcaller : move.caller = some c)
    (hadvance : Advances o t.host s move.sign t'.host s') :
    Past t.host.config (moves ++ [move]) c o s' := by
  refine ⟨hadvance.sound hp.sound, ?_, fun hmild m hm hc => ?_⟩
  · rw [registrations, gathered_own Sign.registered? hcaller]
    exact hadvance.fulfils hp.fulfils
  · have hfresh : ∀ id r, Keyed.get? id t.host.instances = some r →
        r.actor < t.host.nextActor ∧ s.stake.actor? ≠ some r.actor := by
      intro id r hr
      have hspent := ho.spent id r hr
      have hc := hspent.2 c
      rw [stake_of_call hcall] at hc
      exact ⟨hspent.1, hc⟩
    obtain ⟨hbefore, hharmless⟩ := hadvance.harmless hp.sound hfresh hmild
    rcases List.mem_append.mp hm with hm | hm
    · exact hp.harmless hbefore m hm hc
    · rw [List.mem_singleton.mp hm, hstep.ends.1, hstep.ends.2]
      exact hharmless

theorem Past.asked (hnone : ∀ m ∈ moves, m.caller ≠ some c) : Past config moves c o .asked := by
  refine ⟨trivial, ?_, fun _ m hm hc => absurd hc (hnone m hm)⟩
  have hown : moves.filter (fun m => m.caller = some c) = [] :=
    List.filter_eq_nil_iff.mpr fun m hm => by simpa using hnone m hm
  exact congrArg (List.filterMap _) hown

/-- The moves that calls have made: none before a call has been made, and the past of each
launch. -/
structure Pasts (config : Config) (moves : List Move) (calls : Nat → Option Call) : Prop where
  absent (c : Nat) : calls c = none → ∀ m ∈ moves, m.caller ≠ some c
  launch (c : Nat) (o : Order) (s : LaunchStage) : calls c = some (.launch o s) →
    Past config moves c o s

theorem Step.pasts (hstep : Step t move t') (ho : Orderly t.host t.stake)
    (hp : Pasts t.host.config moves t.calls) :
    Pasts t.host.config (moves ++ [move]) t'.calls := by
  have habsent : ∀ d, t.calls d = none → move.caller ≠ some d → ∀ m ∈ moves ++ [move],
      m.caller ≠ some d := by
    intro d hnone hother m hm
    rcases List.mem_append.mp hm with hm | hm
    · exact hp.absent d hnone m hm
    · exact List.mem_singleton.mp hm ▸ hother
  refine ⟨fun d hd => ?_, fun d o s hd => ?_⟩
  · obtain ⟨hnone, hother⟩ := hstep.uncalled hd
    exact habsent d hnone hother
  · rcases hstep.call hd with ⟨k, hold, hcaller, hgoes⟩ | ⟨hnone, hcaller, hfresh⟩ | ⟨hold, hother⟩
    · cases hgoes with
      | launch hadvance => exact (hp.launch d o _ hold).own ho hold hstep hcaller hadvance
    · cases hfresh
      exact .asked (habsent d hnone fun heq => Option.some_ne_none d (heq.symm.trans hcaller))
    · exact (hp.launch d o s hold).other hother

theorem Runs.pasts (hruns : Runs (quiet h) moves t) (ho : Orderly (quiet h).host (quiet h).stake) :
    Pasts t.host.config moves t.calls := by
  induction hruns with
  | refl => exact ⟨by simp, fun c o s hc => by cases hc⟩
  | tail hruns hstep ih =>
      rw [hstep.config]
      exact hstep.pasts (hruns.orderly ho) ih

theorem mem_of_registrations {id : String} {n : Nat}
    (hmem : (id, n) ∈ registrations c moves) :
    ∃ m ∈ moves, m.caller = some c ∧ m.sign = .registered id n := by
  obtain ⟨m, hm, hsign⟩ := List.mem_filterMap.mp hmem
  obtain ⟨hm, hc⟩ := List.mem_filter.mp hm
  refine ⟨m, hm, by simpa using hc, ?_⟩
  cases heq : m.sign <;> rw [heq] at hsign <;> cases hsign
  rfl

end past

/-- What holds after every run, in whatever order the steps of its calls have been made. -/
structure Exclusive (moves : List Move) (t : Traffic) : Prop where
  /-- Under each id at most one instance is registered. -/
  unique : (Keyed.keys t.host.instances).Nodup
  /-- No registration replaces an instance. -/
  vacant : ∀ m ∈ moves, ∀ id n, m.sign = .registered id n →
    Keyed.get? id m.before.instances = none ∧
      (Keyed.get? id m.after.instances).map Registration.actor = some n
  /-- Between two registrations of an id, the first instance has been taken out. -/
  apart : ∀ before between after m m' id n n', moves = before ++ m :: (between ++ m' :: after) →
    m.sign = .registered id n → m'.sign = .registered id n' →
    ∃ out ∈ between, out.sign = .unregistered id n
  /-- A launch that has succeeded has registered one instance, under the id that it returns. -/
  succeeded : ∀ c o id, t.calls c = some (.launch o (.returned (.ok id))) →
    o.Names id ∧ ∃ n, registrations c moves = [(id, n)]
  /-- If two launches of an id have succeeded, an instance of it has been taken out. -/
  once : ∀ c c' o o' id, c ≠ c' → t.calls c = some (.launch o (.returned (.ok id))) →
    t.calls c' = some (.launch o' (.returned (.ok id))) →
    ∃ out ∈ moves, ∃ n, out.sign = .unregistered id n
  /-- A launch that has failed has done no harm, unless the host is configured with a capacity that
  no channel has. -/
  failed : ∀ c o e, t.calls c = some (.launch o (.returned (.error e))) →
    Refusal t.host.config o e ∧ registrations c moves = [] ∧
      (e ≠ .overflow → ∀ m ∈ moves, m.caller = some c → Harmless m.before m.after)
  /-- An id that no launch in progress holds can be reserved. -/
  released : ∀ id, (∀ c o s, t.calls c = some (.launch o s) → s.stake.held? ≠ some id) →
    ∃ h, t.host.reserve id = .ok h
  /-- A launch that nothing interferes with. -/
  alone : ∀ o, Launches o (t.host, .asked) ((t.host.launch o.id o.chart o.context o.setUp).1,
    .returned (t.host.launch o.id o.chart o.context o.setUp).2)

/-- Two different moves of a run are one before the other. -/
theorem ordered {m m' : Move} (hm : m ∈ moves) (hm' : m' ∈ moves) (hne : m ≠ m') :
    ∃ before between after, moves = before ++ m :: (between ++ m' :: after) ∨
      moves = before ++ m' :: (between ++ m :: after) := by
  obtain ⟨before, after, rfl⟩ := List.append_of_mem hm
  rcases List.mem_append.mp hm' with hm' | hm'
  · obtain ⟨first, between, rfl⟩ := List.append_of_mem hm'
    exact ⟨first, between, after, .inr (by simp)⟩
  · obtain ⟨between, last, rfl⟩ := List.append_of_mem ((List.mem_cons.mp hm').resolve_left hne.symm)
    exact ⟨before, between, last, .inl rfl⟩

section exclusive
variable (hruns : Runs (quiet h) moves t) (ho : Orderly (quiet h).host (quiet h).stake)
include hruns ho

theorem Runs.vacant (hmove : move ∈ moves) {id : String} {n : Nat}
    (hsign : move.sign = .registered id n) : Keyed.get? id move.before.instances = none ∧
      (Keyed.get? id move.after.instances).map Registration.actor = some n := by
  obtain ⟨t₁, t₂, hstep, ho₁⟩ := hruns.orderly_before ho hmove
  rw [hstep.ends.1, hstep.ends.2]
  exact hstep.vacant ho₁ hsign

theorem Runs.apart {before between after : List Move} {m m' : Move} {id : String} {n n' : Nat}
    (hmoves : moves = before ++ m :: (between ++ m' :: after)) (hm : m.sign = .registered id n)
    (hm' : m'.sign = .registered id n') : ∃ out ∈ between, out.sign = .unregistered id n := by
  subst hmoves
  obtain ⟨t₁, t₂, hbefore, hstep, hrest⟩ := hruns.split
  obtain ⟨t₃, t₄, hbetween, hstep', _⟩ := hrest.split
  have ho₁ := hbefore.orderly ho
  have ho₂ := hstep.orderly ho₁
  have hgone : t₃.enrolled id = none := by
    rw [Traffic.enrolled, (hstep'.vacant (hbetween.orderly ho₂) hm').1, Option.map_none]
  rcases hbetween.enrolled ho₂ (hstep.vacant ho₁ hm).2 with hstays | hout
  · rw [hgone] at hstays
    cases hstays
  · exact hout

theorem Runs.succeeded {c : Nat} {o : Order} {id : String}
    (hcall : t.calls c = some (.launch o (.returned (.ok id)))) :
    o.Names id ∧ ∃ n, registrations c moves = [(id, n)] := by
  have hpast := (hruns.pasts ho).launch c o _ hcall
  exact ⟨hpast.sound, hpast.fulfils⟩

theorem Runs.once {c c' : Nat} {o o' : Order} {id : String} (hne : c ≠ c')
    (hcall : t.calls c = some (.launch o (.returned (.ok id))))
    (hcall' : t.calls c' = some (.launch o' (.returned (.ok id)))) :
    ∃ out ∈ moves, ∃ n, out.sign = .unregistered id n := by
  obtain ⟨_, n, hn⟩ := hruns.succeeded ho hcall
  obtain ⟨_, n', hn'⟩ := hruns.succeeded ho hcall'
  obtain ⟨m, hm, hc, hsign⟩ := mem_of_registrations (hn ▸ List.mem_singleton_self _)
  obtain ⟨m', hm', hc', hsign'⟩ := mem_of_registrations (hn' ▸ List.mem_singleton_self _)
  have hdistinct : m ≠ m' := by
    rintro rfl
    exact hne (Option.some.inj (hc.symm.trans hc'))
  obtain ⟨before, between, after, hmoves | hmoves⟩ := ordered hm hm' hdistinct
  · obtain ⟨out, hout, hout'⟩ := hruns.apart ho hmoves hsign hsign'
    exact ⟨out, by rw [hmoves]; simp [hout], n, hout'⟩
  · obtain ⟨out, hout, hout'⟩ := hruns.apart ho hmoves hsign' hsign
    exact ⟨out, by rw [hmoves]; simp [hout], n', hout'⟩

theorem Runs.failed {c : Nat} {o : Order} {e : HostError}
    (hcall : t.calls c = some (.launch o (.returned (.error e)))) :
    Refusal t.host.config o e ∧ registrations c moves = [] ∧
      (e ≠ .overflow → ∀ m ∈ moves, m.caller = some c → Harmless m.before m.after) := by
  have hpast := (hruns.pasts ho).launch c o _ hcall
  exact ⟨hpast.sound, hpast.fulfils, fun hne => hpast.harmless ⟨e, rfl, hne⟩⟩

theorem Runs.released {id : String}
    (hnone : ∀ c o s, t.calls c = some (.launch o s) → s.stake.held? ≠ some id) :
    ∃ h, t.host.reserve id = .ok h := by
  have hfree : id ∉ t.host.reserved := by
    rw [(hruns.orderly ho).reservations.mem_iff id]
    rintro ⟨c, hheld⟩
    cases hcall : t.calls c with
    | none =>
        rw [stake, hcall] at hheld
        cases hheld
    | some k =>
        rw [stake_of_call hcall] at hheld
        cases k with
        | launch o s => exact hnone c o s hcall hheld
        | stop | shutdown => cases hheld
  exact ⟨_, if_neg (by simpa using hfree)⟩

end exclusive

/-- Launches exclude each other, in whatever order any number of launches, stops and shutdowns make
their steps. -/
theorem launches_exclusive (config : Config) (available : Bool) {moves : List Move} {t : Traffic}
    (hruns : Runs (quiet (create config available)) moves t) : Exclusive moves t := by
  have ho : Orderly (quiet (create config available)).host
      (quiet (create config available)).stake := orderly_quiet rfl rfl
  exact {
    unique := (hruns.orderly ho).sorted.keys_nodup
    vacant := fun m hm id n => hruns.vacant ho hm
    apart := fun before between after m m' id n n' => hruns.apart ho
    succeeded := fun c o id => hruns.succeeded ho
    once := fun c c' o o' id => hruns.once ho
    failed := fun c o e => hruns.failed ho
    released := fun id => hruns.released ho
    alone := fun o => launches_launch o t.host }

/-- A launch goes on while nothing else happens. -/
theorem runs_launches {c : Nat} {o : Order} {s : LaunchStage} {p : Host × LaunchStage}
    (hcall : t.calls c = some (.launch o s)) (hlaunches : Launches o (t.host, s) p) :
    ∃ moves, Runs t moves (t.put c (.launch o p.2) p.1) := by
  induction hlaunches with
  | refl =>
      have hsame : t.put c (.launch o s) t.host = t := by
        rw [put, ← hcall, Function.update_eq_self]
      exact ⟨[], hsame.symm ▸ .refl⟩
  | @tail q p _ hstep ih =>
      obtain ⟨sign, hstep⟩ := hstep
      obtain ⟨moves, hruns⟩ := ih
      have hgo := Step.go (t := t.put c (.launch o q.2) q.1) (c := c)
        (by rw [calls_put, if_pos rfl]) (.launch hstep)
      exact ⟨_, hruns.tail (put_put c _ _ _ _ t ▸ hgo)⟩

theorem Runs.launches {c : Nat} {o : Order} {s s' : LaunchStage} {h' : Host}
    (hruns : Runs t₀ moves t) (hcall : t.calls c = some (.launch o s))
    (hlaunches : Launches o (t.host, s) (h', s')) :
    ∃ moves', Runs t₀ (moves ++ moves') (t.put c (.launch o s') h') := by
  obtain ⟨moves', hruns'⟩ := runs_launches hcall hlaunches
  exact ⟨moves', hruns.append hruns'⟩

/-- The calls of a list, numbered in order. -/
def ofList (h : Host) (calls : List Call) : Traffic := ⟨h, fun c => calls[c]?⟩

section ofList
variable {h' : Host} {calls : List Call} {c : Nat} {k k' : Call} {sign : Sign}

theorem put_ofList (hcall : calls[c]? = some k) (k' : Call) (h' : Host) :
    (ofList h calls).put c k' h' = ofList h' (calls.set c k') := by
  rw [put, ofList, ofList, Traffic.mk.injEq]
  refine ⟨rfl, funext fun d => ?_⟩
  obtain ⟨hc, _⟩ := List.getElem?_eq_some_iff.mp hcall
  simp only [Function.update_apply, List.getElem?_set, if_pos hc, eq_comm]

/-- A call of a list makes a step. -/
theorem ofList_go (c : Nat) (hcall : calls[c]? = some k) (hgoes : k.Goes h sign h' k') :
    Step (ofList h calls) ⟨some c, sign, h, h'⟩ (ofList h' (calls.set c k')) :=
  put_ofList hcall k' h' ▸ .go hcall hgoes

/-- A call is made after those of a list. -/
theorem ofList_ask (calls : List Call) (hfresh : k.Fresh) :
    Step (ofList h calls) ⟨none, .other, h, h⟩ (ofList h (calls ++ [k])) := by
  have hput : (ofList h calls).put calls.length k h = ofList h (calls ++ [k]) := by
    rw [put, ofList, ofList, Traffic.mk.injEq]
    refine ⟨rfl, funext fun d => ?_⟩
    rcases lt_trichotomy d calls.length with hlt | rfl | hgt
    · rw [Function.update_of_ne hlt.ne, List.getElem?_append_left hlt]
    · rw [Function.update_self, List.getElem?_concat_length]
    · have hlen : (calls ++ [k]).length ≤ d := by simpa using hgt
      rw [Function.update_of_ne hgt.ne', List.getElem?_eq_none hlen]
      exact List.getElem?_eq_none hgt.le
  exact hput ▸ .ask (List.getElem?_eq_none le_rfl) hfresh

theorem Runs.go {c : Nat} (hruns : Runs t₀ moves (ofList h calls)) (hcall : calls[c]? = some k)
    (hgoes : k.Goes h sign h' k') :
    Runs t₀ (moves ++ [⟨some c, sign, h, h'⟩]) (ofList h' (calls.set c k')) :=
  hruns.tail (ofList_go c hcall hgoes)

theorem Runs.goes {o : Order} {s s' : LaunchStage} {c : Nat}
    (hruns : Runs t₀ moves (ofList h calls)) (hcall : calls[c]? = some (.launch o s))
    (hlaunches : Launches o (h, s) (h', s')) :
    ∃ moves', Runs t₀ (moves ++ moves') (ofList h' (calls.set c (.launch o s'))) :=
  put_ofList hcall (.launch o s') h' ▸ hruns.launches hcall hlaunches

end ofList

/-- A launch of an instance with a given id. -/
def jobOrder : Order := ⟨some "a", "m", .null, startTolerantly, .start⟩

/-- A chart has been registered, and nothing has been called yet. -/
theorem runs_chart (config : Config) : Runs (quiet (create config true))
    [⟨none, .other, create config true, (create config true).registerChart Machine.jobChart⟩]
    (ofList ((create config true).registerChart Machine.jobChart) []) :=
  Runs.refl.tail (.aside (aside_feed (.registerChart _ _ Machine.build_job) rfl _))

/-- A launch that has reserved its id, on a host with its chart. -/
def reservedHost : Host :=
  { (create {} true).registerChart Machine.jobChart with nextActor := 2, reserved := ["a"] }

theorem launches_reserved : Launches jobOrder
    ((create {} true).registerChart Machine.jobChart, .asked)
    (reservedHost, .reserved ⟨"a", Machine.jobChart⟩) := by
  have hallowed : Launches jobOrder ((create {} true).registerChart Machine.jobChart, .asked) _ :=
    (Advances.allow rfl).launches
  have happrove := hallowed.trans (Advances.approve (c := Machine.jobChart) rfl rfl).launches
  exact happrove.trans (Advances.reserve rfl).launches

theorem bringUp_reserved : ({ reservedHost with nextActor := 3 }.bringUp
    ⟨"a", Machine.jobChart⟩ jobOrder.context jobOrder.setUp).2 = .ok 3 := by
  decide +kernel

/-- Two launches of one id overlap: the one that comes second is refused and does no harm, and the
first one succeeds. -/
theorem launches_exclusive_overlap : ∃ moves t, Runs (quiet (create {} true)) moves t ∧
    t.calls 0 = some (.launch jobOrder (.returned (.ok "a"))) ∧
    t.calls 1 = some (.launch jobOrder (.returned (.error (.instanceExists "a")))) ∧
    Exclusive moves t := by
  have hchart : Runs (quiet (create {} true)) _ _ :=
    Runs.refl.tail (.aside (aside_feed (.registerChart _ _ Machine.build_job) rfl _))
  have hasked := (hchart.tail (.ask (c := 0) rfl (.launch jobOrder))).tail
    (.ask (c := 1) rfl (.launch jobOrder))
  obtain ⟨_, hreserved⟩ := hasked.launches (c := 0) rfl launches_reserved
  have hsecond : Launches jobOrder (reservedHost, .asked)
      ({ reservedHost with nextActor := 3 }, .returned (.error (.instanceExists "a"))) :=
    launches_launch jobOrder reservedHost
  obtain ⟨_, hrefused⟩ := hreserved.launches (c := 1) rfl hsecond
  have hfirst := launches_bringUp jobOrder ⟨"a", Machine.jobChart⟩
    { reservedHost with nextActor := 3 }
  rw [bringUp_reserved] at hfirst
  have hregistered := hfirst.trans ((Advances.register ⟨"a", Machine.jobChart⟩ 3).launches.trans
    (Advances.unreserve "a" (.ok "a")).launches)
  obtain ⟨_, hreturned⟩ := hrefused.launches (c := 0) rfl hregistered
  exact ⟨_, _, hreturned, rfl, rfl, launches_exclusive {} true hreturned⟩

end Traffic

end Statechart.Host
