import Statechart.Proofs.Host.Exclusive

/-!
# Shutting down amid launches

After a shutdown has begun, a launch that is asked for is refused. One that has been admitted before
is not, and nobody waits for it: it can register its instance when the shutdown has already read
which instances there are, or has returned. What is registered before the ids are read is stopped:
at every moment from then on, the ids that the shutdown has still to stop cover all instances that
have not been registered since.
-/
namespace Statechart.Host

/-- A launch that has not been admitted yet, or has returned. -/
def LaunchStage.Idle : LaunchStage → Prop
  | .asked | .returned _ => True
  | _ => False

/-- A stop that may still take out an instance. -/
def StopStage.Pending : StopStage → Prop
  | .asked | .sending _ | .waiting .. | .answered _ => True
  | .ending .. | .closing _ | .returned _ => False

/-- A shutdown has read an id and has still to stop the instance that is registered under it. -/
def ShutdownStage.Owes (i : String) : ShutdownStage → Prop
  | .between ids => i ∈ ids
  | .stopping id s ids => i ∈ ids ∨ i = id ∧ s.Pending
  | .asked | .closed | .returned _ => False

/-- A shutdown that has read which instances there are. -/
def ShutdownStage.Read : ShutdownStage → Prop
  | .between _ | .stopping .. | .returned true => True
  | .asked | .closed | .returned false => False

variable {h h' : Host} {sign : Sign} {i : String} {r : Registration}

/-- A stop is still to take out what it has not taken out yet. -/
theorem Stops.spares {id : String} {s s' : StopStage} (hstep : Stops id h s sign h' s')
    (hsorted : Keyed.Sorted h.instances) (hleft : Keyed.get? i h'.instances = some r)
    (hpending : i = id ∧ s.Pending) : i = id ∧ s'.Pending := by
  obtain ⟨rfl, hpending⟩ := hpending
  cases hstep with
  | missing | find | refused | crowded | lost | late | send | receive => exact ⟨rfl, trivial⟩
  | ended | close => exact hpending.elim
  | absent hnone =>
      rw [hnone] at hleft
      cases hleft
  | remove =>
      rw [(aside_unregister i h).instances, Keyed.get?_erase_self hsorted] at hleft
      cases hleft

theorem ShutsDown.read {s s' : ShutdownStage} (hstep : ShutsDown h s sign h' s') (hread : s.Read) :
    s'.Read := by
  cases hstep with
  | repeated | close => exact hread.elim
  | list | next | stopped | finish | stop => trivial

/-- What is still registered after a step is still to be stopped if it was before. -/
theorem ShutsDown.owes {s s' : ShutdownStage} (hstep : ShutsDown h s sign h' s')
    (hsorted : Keyed.Sorted h.instances) (hread : s.Read)
    (hleft : Keyed.get? i h'.instances = some r) (howes : s.Owes i) : s'.Owes i := by
  cases hstep with
  | repeated | close | list => exact hread.elim
  | next id ids => exact (List.mem_cons.mp howes).elim (fun heq => .inr ⟨heq, trivial⟩) .inl
  | stopped id ids result => exact howes.resolve_right fun hpending => hpending.2
  | finish => exact absurd howes List.not_mem_nil
  | stop hstep => exact howes.imp_right (hstep.spares hsorted hleft)

/-- A launch that is idle when launches are refused is idle from then on. -/
theorem Advances.idle {o : Order} {s s' : LaunchStage} (hstep : Advances o h s sign h' s')
    (hdown : h.shuttingDown = true) (hidle : s.Idle) :
    s' = .returned (.error .shuttingDown) ∧ sign = .other := by
  cases hstep with
  | shut => exact ⟨rfl, rfl⟩
  | allow hopen =>
      rw [hdown] at hopen
      cases hopen
  | _ => exact hidle.elim

namespace Traffic

variable {t t' t₀ : Traffic} {move : Move} {moves : List Move} {c : Nat}

theorem Step.down (hstep : Step t move t') (hdown : t.host.shuttingDown = true) :
    t'.host.shuttingDown = true := by
  obtain ⟨_, _, hshift, _⟩ := hstep.shifts
  exact hshift.shuttingDown hdown

theorem Runs.down (hruns : Runs t₀ moves t) (hdown : t₀.host.shuttingDown = true) :
    t.host.shuttingDown = true := by
  induction hruns with
  | refl => exact hdown
  | tail _ hstep ih => exact hstep.down ih

/-- The step with which a shutdown begins. -/
theorem Step.closes {h h' : Host} (hstep : Step t ⟨some c, .closed, h, h'⟩ t') :
    t'.host.shuttingDown = true ∧ t' = t.put c (.shutdown .closed) t'.host := by
  cases hstep with
  | go hcall hgoes =>
      cases hgoes with
      | launch hstep => cases hstep
      | stop hstep => cases hstep
      | shutdown hstep =>
          cases hstep with
          | stop hstep => cases hstep
          | close hopen =>
              refine ⟨?_, rfl⟩
              rw [put, Host.close, hopen]
              rfl

/-- A launch that is in progress: it has been admitted and has not returned. -/
def InProgress (t : Traffic) (d : Nat) : Prop :=
  ∃ o s, t.calls d = some (.launch o s) ∧ ¬ s.Idle

/-- When launches are refused, only a launch in progress goes on, and only it registers anything. -/
theorem Step.inProgress (hstep : Step t move t') (hdown : t.host.shuttingDown = true) :
    (∀ d, t'.InProgress d → t.InProgress d) ∧
      ∀ id n, move.sign = .registered id n → ∃ d, move.caller = some d ∧ t.InProgress d := by
  constructor
  · rintro d ⟨o, s, hcall, hbusy⟩
    rcases hstep.call hcall with ⟨k, hold, _, hgoes⟩ | ⟨_, _, hfresh⟩ | ⟨hold, _⟩
    · cases hgoes with
      | @launch _ s₀ _ _ _ hadvance =>
          refine ⟨o, s₀, hold, fun hidle => hbusy ?_⟩
          rw [(hadvance.idle hdown hidle).1]
          trivial
    · cases hfresh
      exact absurd trivial hbusy
    · exact ⟨o, s, hold, hbusy⟩
  · intro id n hsign
    have hnothing : ∀ {h' : Host} {sign : Sign}, Shifts t.host .nothing sign h' .nothing →
        sign ≠ .registered id n := by
      rintro h' sign hshift rfl
      cases hshift with
      | stay hsign => cases hsign
    cases hstep with
    | ask | aside => cases hsign
    | @go d k k' sign h' hcall hgoes =>
        refine ⟨d, rfl, ?_⟩
        cases hgoes with
        | @launch o s _ _ _ hstep =>
            refine ⟨o, s, hcall, fun hidle => ?_⟩
            rw [show sign = .other from (hstep.idle hdown hidle).2] at hsign
            cases hsign
        | stop hstep => exact absurd hsign (hnothing hstep.shifts)
        | shutdown hstep => exact absurd hsign (hnothing hstep.shifts)

/-- From when launches are refused, only those that are in progress then register anything. -/
theorem Runs.inProgress (hruns : Runs t₀ moves t) (hdown : t₀.host.shuttingDown = true) :
    (∀ d, t.InProgress d → t₀.InProgress d) ∧
      ∀ x ∈ moves, ∀ id n, x.sign = .registered id n →
        ∃ d, x.caller = some d ∧ t₀.InProgress d := by
  induction hruns with
  | refl => exact ⟨fun _ => id, by simp⟩
  | tail hruns hstep ih =>
      obtain ⟨hgoes, hregisters⟩ := hstep.inProgress (hruns.down hdown)
      refine ⟨fun d hd => ih.1 d (hgoes d hd), fun x hx id n hsign => ?_⟩
      rcases List.mem_append.mp hx with hx | hx
      · exact ih.2 x hx id n hsign
      · rw [List.mem_singleton.mp hx] at hsign ⊢
        obtain ⟨d, hcaller, hd⟩ := hregisters id n hsign
        exact ⟨d, hcaller, ih.1 d hd⟩

/-- A launch that is asked for when launches are refused can do nothing but fail. -/
theorem Runs.late (hruns : Runs t₀ moves t) (hdown : t₀.host.shuttingDown = true) :
    ∀ d o s, t₀.calls d = none → t.calls d = some (.launch o s) →
      s = .asked ∨ s = .returned (.error .shuttingDown) := by
  induction hruns with
  | refl =>
      intro d o s hnone hcall
      rw [hnone] at hcall
      cases hcall
  | tail hruns hstep ih =>
      intro d o s hnone hcall
      rcases hstep.call hcall with ⟨k, hold, _, hgoes⟩ | ⟨_, _, hfresh⟩ | ⟨hold, _⟩
      · cases hgoes with
        | @launch _ s₀ _ _ _ hadvance =>
            have hidle : s₀.Idle := by
              rcases ih d o s₀ hnone hold with rfl | rfl <;> trivial
            exact .inr (hadvance.idle (hruns.down hdown) hidle).1
      · cases hfresh
        exact .inl rfl
      · exact ih d o s hnone hold

/-- A shutdown has read the ids of the instances. It has still to stop those that have not been
registered since. -/
def Sweeps (c : Nat) (since : List Move) (t : Traffic) : Prop :=
  ∃ stage, t.calls c = some (.shutdown stage) ∧ stage.Read ∧
    ∀ id n, t.enrolled id = some n → stage.Owes id ∨ ∃ x ∈ since, x.sign = .registered id n

/-- A shutdown that has begun has yet to read the ids of the instances, or it sweeps. -/
def Shuts (c : Nat) (moves : List Move) (t : Traffic) : Prop :=
  t.calls c = some (.shutdown .closed) ∨ ∃ first m second, moves = first ++ m :: second ∧
    m.caller = some c ∧ m.sign = .listed ∧ Sweeps c second t

section shuts
variable {since : List Move}

/-- A step of a shutdown or of another call, which leaves the shutdown as it is. -/
theorem Step.shutdown_call {stage : ShutdownStage} (hstep : Step t move t')
    (hcall : t.calls c = some (.shutdown stage)) :
    (∃ stage', t'.calls c = some (.shutdown stage') ∧ move.caller = some c ∧
      ShutsDown t.host stage move.sign t'.host stage') ∨ t'.calls c = some (.shutdown stage) := by
  cases hnext : t'.calls c with
  | none =>
      rw [(hstep.uncalled hnext).1] at hcall
      cases hcall
  | some k =>
      rcases hstep.call hnext with ⟨k₀, hold, hown, hgoes⟩ | ⟨hnone, _⟩ | ⟨hold, _⟩
      · rw [hcall] at hold
        cases hold
        cases hgoes with
        | shutdown hstep => exact .inl ⟨_, rfl, hown, hstep⟩
      · rw [hnone] at hcall
        cases hcall
      · exact .inr (hold.symm.trans hcall)

theorem Step.sweeps (hstep : Step t move t') (ho : Orderly t.host t.stake)
    (hs : Sweeps c since t) : Sweeps c (since ++ [move]) t' := by
  obtain ⟨stage, hcall, hread, howes⟩ := hs
  have hcarry : ∀ stage' : ShutdownStage,
      (∀ id n, t'.enrolled id = some n → stage.Owes id → stage'.Owes id) →
      ∀ id n, t'.enrolled id = some n →
        stage'.Owes id ∨ ∃ x ∈ since ++ [move], x.sign = .registered id n := by
    intro stage' hkeep id n hn
    rcases hstep.enrolled_of ho hn with hold | hsign
    · rcases howes id n hold with howed | ⟨x, hx, hsign⟩
      · exact .inl (hkeep id n hn howed)
      · exact .inr ⟨x, List.mem_append_left _ hx, hsign⟩
    · exact .inr ⟨move, by simp, hsign⟩
  rcases hstep.shutdown_call hcall with ⟨stage', hnext, _, hshut⟩ | hsame
  · refine ⟨stage', hnext, (hshut.read hread), hcarry stage' fun id n hn => ?_⟩
    obtain ⟨r, hr, _⟩ := Option.map_eq_some_iff.mp hn
    exact hshut.owes ho.sorted hread hr
  · exact ⟨stage, hsame, hread, hcarry stage fun _ _ _ => id⟩

theorem Step.shuts (hstep : Step t move t') (ho : Orderly t.host t.stake) (hs : Shuts c moves t) :
    Shuts c (moves ++ [move]) t' := by
  rcases hs with hclosed | ⟨first, m, second, rfl, hcaller, hlisted, hsweeps⟩
  · rcases hstep.shutdown_call hclosed with ⟨stage', hnext, hown, hshut⟩ | hsame
    · generalize hsign : move.sign = sign at hshut
      generalize hhost : t'.host = h' at hshut
      cases hshut with
      | list =>
          refine .inr ⟨moves, move, [], rfl, hown, hsign, _, hnext, trivial, fun id n hn => .inl ?_⟩
          rw [Traffic.enrolled, hhost] at hn
          obtain ⟨r, hr, _⟩ := Option.map_eq_some_iff.mp hn
          exact List.mem_map_of_mem (Keyed.mem_of_get? hr)
    · exact .inl hsame
  · exact .inr ⟨first, m, second ++ [move], by simp, hcaller, hlisted, hstep.sweeps ho hsweeps⟩

theorem Runs.shuts (hruns : Runs t₀ moves t) (ho : Orderly t₀.host t₀.stake)
    (hclosed : t₀.calls c = some (.shutdown .closed)) : Shuts c moves t := by
  induction hruns with
  | refl => exact .inl hclosed
  | tail hruns hstep ih => exact hstep.shuts (hruns.orderly ho) ih

end shuts

/-- No instance is registered exactly if all those are gone that could be. -/
theorem Runs.instances_eq_nil_iff (hruns : Runs t₀ moves t) (ho : Orderly t₀.host t₀.stake)
    (hnew : ∀ id n, t.enrolled id = some n → ∃ x ∈ moves, x.sign = .registered id n) :
    t.host.instances = [] ↔ ∀ x ∈ moves, ∀ id n, x.sign = .registered id n →
      ∃ y ∈ moves, y.sign = .unregistered id n := by
  constructor
  · intro hnil x hx id n hsign
    obtain ⟨before, after, rfl⟩ := List.append_of_mem hx
    obtain ⟨t₁, t₂, hbefore, hstep, hafter⟩ := hruns.split
    have ho₁ := hbefore.orderly ho
    rcases hafter.enrolled (hstep.orderly ho₁) (hstep.vacant ho₁ hsign).2 with hn | ⟨y, hy, hout⟩
    · rw [Traffic.enrolled, hnil] at hn
      cases hn
    · exact ⟨y, by simp [hy], hout⟩
  · intro hgone
    refine List.eq_nil_iff_forall_not_mem.mpr fun entry hentry => ?_
    have hn : t.enrolled entry.1 = some entry.2.actor := by
      rw [Traffic.enrolled, (hruns.orderly ho).sorted.get?_of_mem hentry, Option.map_some]
    obtain ⟨x, hx, hregistered⟩ := hnew _ _ hn
    obtain ⟨y, hy, hout⟩ := hgone x hx _ _ hregistered
    obtain ⟨before, after, rfl⟩ := List.append_of_mem hy
    obtain ⟨t₁, t₂, hbefore, hstep, hafter⟩ := hruns.split
    exact hstep.gone (hbefore.orderly ho) hout hafter hn

/-- What holds from when a shutdown, made by the call of a number, has begun. -/
structure Completes (c : Nat) (t₁ : Traffic) (later : List Move) (t₂ : Traffic) : Prop where
  /-- Launches that are asked for later are refused. -/
  refused : ∀ d o s, t₁.calls d = none → t₂.calls d = some (.launch o s) →
    s = .asked ∨ s = .returned (.error .shuttingDown)
  /-- Only launches that were in progress when the shutdown began register anything. -/
  inProgress : ∀ x ∈ later, ∀ id n, x.sign = .registered id n →
    ∃ d, x.caller = some d ∧ t₁.InProgress d
  /-- When there is no launch in progress any more, nothing is ever registered again. -/
  never_again : (∀ d, ¬ t₂.InProgress d) → ∀ more t₃, Runs t₂ more t₃ →
    ∀ x ∈ more, ∀ id n, x.sign ≠ .registered id n
  /-- A shutdown that has returned has read the ids of the instances. All instances that there are
  then have been registered since, and there are none exactly if all that have been registered since
  have been taken out. -/
  swept : t₂.calls c = some (.shutdown (.returned true)) →
    ∃ first m second, later = first ++ m :: second ∧ m.caller = some c ∧ m.sign = .listed ∧
      (∀ id n, t₂.enrolled id = some n → ∃ x ∈ second, x.sign = .registered id n) ∧
      (t₂.host.instances = [] ↔ ∀ x ∈ second, ∀ id n, x.sign = .registered id n →
        ∃ y ∈ second, y.sign = .unregistered id n)

theorem Runs.swept (hruns : Runs t₀ moves t) (ho : Orderly t₀.host t₀.stake)
    (hclosed : t₀.calls c = some (.shutdown .closed))
    (hcall : t.calls c = some (.shutdown (.returned true))) :
    ∃ first m second, moves = first ++ m :: second ∧ m.caller = some c ∧ m.sign = .listed ∧
      (∀ id n, t.enrolled id = some n → ∃ x ∈ second, x.sign = .registered id n) ∧
      (t.host.instances = [] ↔ ∀ x ∈ second, ∀ id n, x.sign = .registered id n →
        ∃ y ∈ second, y.sign = .unregistered id n) := by
  rcases hruns.shuts ho hclosed with hnot | ⟨first, m, second, rfl, hcaller, hlisted, hsweeps⟩
  · cases hcall.symm.trans hnot
  · obtain ⟨t₁, t₂, hfirst, hstep, hsecond⟩ := hruns.split
    have hnew : ∀ id n, t.enrolled id = some n → ∃ x ∈ second, x.sign = .registered id n := by
      obtain ⟨stage, hstage, _, howes⟩ := hsweeps
      cases hcall.symm.trans hstage
      exact fun id n hn => (howes id n hn).resolve_left fun howed => howed
    exact ⟨first, m, second, rfl, hcaller, hlisted, hnew,
      hsecond.instances_eq_nil_iff (hstep.orderly (hfirst.orderly ho)) hnew⟩

/-- A shutdown stops all instances that are registered before it reads the ids of the instances. It
is complete exactly if every instance that is registered after that has been taken out, which only
launches that were in progress when it began can register. -/
theorem shutdown_complete (config : Config) (available : Bool) {moves : List Move} {t t₁ : Traffic}
    {h h' : Host} (hruns : Runs (quiet (create config available)) moves t)
    (hcloses : Step t ⟨some c, .closed, h, h'⟩ t₁) {later : List Move} {t₂ : Traffic}
    (hlater : Runs t₁ later t₂) : Completes c t₁ later t₂ := by
  have ho : Orderly t₁.host t₁.stake := hcloses.orderly (hruns.orderly (orderly_quiet rfl rfl))
  obtain ⟨hdown, hput⟩ := hcloses.closes
  have hclosed : t₁.calls c = some (.shutdown .closed) := by rw [hput, calls_put, if_pos rfl]
  exact {
    refused := hlater.late hdown
    inProgress := (hlater.inProgress hdown).2
    never_again := fun hidle more t₃ hmore x hx id n hsign =>
      have ⟨d, _, hd⟩ := (hmore.inProgress (hlater.down hdown)).2 x hx id n hsign
      hidle d hd
    swept := hlater.swept ho hclosed }

/-- A launch has reserved its id before launches are refused. -/
def refusingHost : Host := { reservedHost with shuttingDown := true }

theorem launches_refusing : Launches jobOrder (refusingHost, .reserved ⟨"a", Machine.jobChart⟩)
    ((refusingHost.bringUp ⟨"a", Machine.jobChart⟩ jobOrder.context jobOrder.setUp).1,
      .up ⟨"a", Machine.jobChart⟩ 2) := by
  have hbrought := launches_bringUp jobOrder ⟨"a", Machine.jobChart⟩ refusingHost
  have hup : (refusingHost.bringUp ⟨"a", Machine.jobChart⟩ jobOrder.context jobOrder.setUp).2 =
      .ok 2 := by decide +kernel
  rwa [hup] at hbrought

/-- The launch has come through. -/
def admittedHost : Host :=
  ((refusingHost.bringUp ⟨"a", Machine.jobChart⟩ jobOrder.context jobOrder.setUp).1.register
    ⟨"a", Machine.jobChart⟩ 2).unreserve "a"

/-- The instance has been sent the command to stop and has answered. -/
def answeredHost : Host := admittedHost.after [.send "a" .stop, .turn, .turn]

/-- The reply has been received, and the instance has been taken out. -/
def sweptHost : Host := ((answeredHost.takeReply 1).1.unregister "a").closeWatchers "a"

/-- A shutdown and a stop are in progress while a launch holds the reservation of its id. -/
def begun (h : Host) (shutdown : ShutdownStage) : Traffic :=
  ofList h [.launch jobOrder (.reserved ⟨"a", Machine.jobChart⟩), .shutdown shutdown,
    .stop "a" .asked]

/-- A launch has come through and another one has been refused, while a shutdown and a stop are in
progress. -/
def amid (h : Host) (shutdown : ShutdownStage) (stop : StopStage) : Traffic :=
  ofList h [.launch jobOrder (.returned (.ok "a")), .shutdown shutdown, .stop "a" stop,
    .launch jobOrder (.returned (.error .shuttingDown))]

section amid
variable {h h' : Host} {s s' : ShutdownStage} {stop stop' : StopStage} {sign : Sign}

theorem amid_shutdown (hstep : ShutsDown h s sign h' s') :
    Step (amid h s stop) ⟨some 1, sign, h, h'⟩ (amid h' s' stop) :=
  ofList_go 1 rfl (.shutdown hstep)

theorem amid_stop (hstep : Stops "a" h stop sign h' stop') :
    Step (amid h s stop) ⟨some 2, sign, h, h'⟩ (amid h' s stop') :=
  ofList_go 2 rfl (.stop hstep)

/-- The shutdown stops the one instance that there is. The stop, which has found it too, comes too
late. -/
theorem amid_swept : ∃ moves, Runs (amid admittedHost .closed .asked) moves
    (amid (sweptHost.closeWatchers "a") (.returned true)
      (.returned (.error (.instanceNotFound "a")))) := by
  have hread : ShutsDown admittedHost .closed .listed admittedHost (.between ["a"]) := by
    have hkeys : Keyed.keys admittedHost.instances = ["a"] := by decide +kernel
    exact hkeys ▸ .list
  have hfound := (((Runs.refl.tail (amid_shutdown hread)).tail (amid_shutdown (.next "a" []))).tail
    (amid_stop (stops_find (n := 2) (by decide +kernel)))).tail
    (amid_shutdown (.stop (stops_find (n := 2) (by decide +kernel))))
  have hsent := hfound.tail (amid_shutdown (.stop (stops_send (h := admittedHost) (n := 2)
    (by decide +kernel) (by decide +kernel))))
  have hanswered : Runs _ _ (amid answeredHost (.stopping "a" (.waiting 2 1) []) (.sending 2)) :=
    (hsent.tail (.aside (aside_feed .turn rfl _))).tail (.aside (aside_feed .turn rfl _))
  have hreplied : (answeredHost.replies.lookup 1).isSome := by decide +kernel
  obtain ⟨reply, hreceive⟩ := stops_receive "a" 2 hreplied
  have hremoved := ((hanswered.tail (amid_shutdown (.stop hreceive))).tail
    (amid_stop (.refused rfl))).tail
    (amid_shutdown (.stop (stops_remove (n := 2) (.ok reply) (by decide +kernel))))
  have hswept := (((hremoved.tail (amid_shutdown (.stop (.ended (by decide +kernel))))).tail
    (amid_shutdown (.stop (.close _)))).tail (amid_shutdown (.stopped "a" [] _))).tail
    (amid_shutdown .finish)
  exact ⟨_, (hswept.tail (amid_stop (.absent (by decide +kernel)))).tail (amid_stop (.close _))⟩

end amid

/-- A shutdown begins while a launch is in progress and a stop has been asked for. The launch
registers its instance before the ids are read, another launch is refused, and in the end all calls
have returned and there are no instances. -/
theorem shutdown_complete_amid : ∃ moves t t₁ later h h' h₂ reply,
    Runs (quiet (create {} true)) moves t ∧ Step t ⟨some 1, .closed, h, h'⟩ t₁ ∧
    Runs t₁ later (amid h₂ (.returned true) (.returned reply)) ∧
    (∃ x ∈ later, x.sign = .registered "a" 2) ∧
    Completes 1 t₁ later (amid h₂ (.returned true) (.returned reply)) ∧ h₂.instances = [] := by
  have hasked := (((runs_chart {}).tail (ofList_ask [] (.launch jobOrder))).tail
    (ofList_ask _ .shutdown)).tail (ofList_ask _ (.stop "a"))
  obtain ⟨_, hreserved⟩ := hasked.goes (c := 0) rfl launches_reserved
  have hcloses : Step (begun reservedHost .asked) ⟨some 1, .closed, reservedHost, refusingHost⟩
      (begun refusingHost .closed) := ofList_go 1 rfl (.shutdown (.close rfl))
  have hrefused : Runs (begun refusingHost .closed) _ (ofList refusingHost _) :=
    (Runs.refl.tail (ofList_ask _ (.launch jobOrder))).go (c := 3) rfl (.launch (.shut rfl))
  obtain ⟨_, hup⟩ := hrefused.goes (c := 0) rfl launches_refusing
  have hregistered := hup.go (c := 0) rfl (.launch (.register ⟨"a", Machine.jobChart⟩ 2))
  obtain ⟨_, hswept⟩ := amid_swept
  have hlater := (hregistered.go (c := 0) rfl (.launch (.unreserve "a" (.ok "a")))).append hswept
  refine ⟨_, _, _, _, _, _, _, _, hreserved, hcloses, hlater, ?_,
    shutdown_complete {} true hreserved hcloses hlater, by decide +kernel⟩
  exact ⟨_, List.mem_append_left _ (List.mem_append_left _ (List.mem_append_right _
    (List.mem_singleton_self _))), rfl⟩

/-- A launch is admitted and reserves its id; a shutdown begins, finds no instances and returns; the
launch goes on and registers its instance, which nobody stops. -/
theorem launch_overtakes_shutdown : ∃ moves t, Runs (quiet (create {} true)) moves t ∧
    t.calls 0 = some (.launch jobOrder (.returned (.ok "a"))) ∧
    t.calls 1 = some (.shutdown (.returned true)) ∧ (∀ c, c ≠ 0 → c ≠ 1 → t.calls c = none) ∧
    t.host.list = [("a", "m")] := by
  have hasked := ((runs_chart {}).tail (ofList_ask [] (.launch jobOrder))).tail
    (ofList_ask _ .shutdown)
  obtain ⟨_, hreserved⟩ := hasked.goes (c := 0) rfl launches_reserved
  have hclosed : Runs _ _ (ofList refusingHost _) :=
    hreserved.go (c := 1) rfl (.shutdown (.close (h := reservedHost) rfl))
  have hread := hclosed.go (c := 1) rfl (.shutdown .list)
  have hfinished := hread.go (c := 1) rfl (.shutdown .finish)
  obtain ⟨_, hup⟩ := hfinished.goes (c := 0) rfl launches_refusing
  have hregistered := hup.go (c := 0) rfl (.launch (.register ⟨"a", Machine.jobChart⟩ 2))
  have hreturned := hregistered.go (c := 0) rfl (.launch (.unreserve "a" (.ok "a")))
  refine ⟨_, _, hreturned, rfl, rfl, fun c h0 h1 => List.getElem?_eq_none ?_, by decide +kernel⟩
  have hlen : 2 ≤ c := by omega
  simpa using hlen

end Traffic

end Statechart.Host
