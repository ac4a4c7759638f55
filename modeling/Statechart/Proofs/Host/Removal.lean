import Statechart.Proofs.Host.Addressing

/-!
# What a stop takes out

A stop takes out whatever is registered under its id when its request is over. Actors are not
registered a second time, so this is the instance that the stop has found exactly if nothing has
been registered under the id since. The instance has been sent the command exactly if, besides,
there was room for it in time: a stop that has found nothing, has found an earlier instance or was
crowded out takes out an instance that knows nothing of it, and awaits an end that does not come.
The watchers that a stop closes in the end are those of its id, whatever is registered by then.
-/
namespace Statechart.Host.Traffic

variable {t t' t₀ : Traffic} {move : Move} {moves : List Move} {id : String} {n n' : Nat}

theorem Step.found {found : Option Nat} (hstep : Step t move t')
    (hsign : move.sign = .found id found) : t.enrolled id = found ∧ t'.enrolled id = found := by
  have hstop : ∀ {i : String} {s s' : StopStage} {sign : Sign} {h' : Host},
      Stops i t.host s sign h' s' → sign = .found id found →
      t.enrolled id = found ∧ h' = t.host := by
    rintro i s s' sign h' hstop rfl
    cases hstop with
    | missing hnone => exact ⟨by rw [Traffic.enrolled, hnone]; rfl, rfl⟩
    | find hfound => exact ⟨by rw [Traffic.enrolled, hfound]; rfl, rfl⟩
  cases hstep with
  | ask | aside => cases hsign
  | @go c k k' sign h' hcall hgoes =>
      obtain ⟨hfound, rfl⟩ : t.enrolled id = found ∧ h' = t.host := by
        cases hgoes with
        | launch hstep => cases hstep <;> cases hsign
        | stop hstep => exact hstop hstep hsign
        | shutdown hstep =>
            cases hstep with
            | stop hstep => exact hstop hstep hsign
            | _ => cases hsign
      exact ⟨hfound, hfound⟩

/-- What has been found is what is taken out later, exactly if nothing is registered in between. -/
theorem Step.removed_iff {t₁ t₂ t₃ : Traffic} {m m' : Move} {between : List Move}
    {found : Option Nat} (hfind : Step t₁ m t₂) (hfound : m.sign = .found id found)
    (ho : Orderly t₂.host t₂.stake) (hbetween : Runs t₂ between t₃) (hremove : Step t₃ m' t')
    (hremoved : m'.sign = .unregistered id n) :
    found = some n ↔ ∀ x ∈ between, ∀ k, x.sign ≠ .registered id k := by
  have hbefore := (hfind.found hfound).2
  have hn := hremove.enrolled_of_unregistered hremoved
  constructor
  · rintro rfl x hx k hx'
    obtain ⟨first, last, rfl⟩ := List.append_of_mem hx
    obtain ⟨t₄, t₅, hfirst, hregister, hlast⟩ := hbetween.split
    have hvacant := (hregister.vacant (hfirst.orderly ho) hx').1
    -- what was found has been taken out by then, and its actor does not come back
    have hgone : t₄.enrolled id ≠ some n := by
      rw [Traffic.enrolled, hvacant]
      exact (Option.some_ne_none n).symm
    have hrest := (Runs.refl.tail hregister).append hlast
    exact hrest.never_again (hfirst.orderly ho) (hfirst.spent (ho.spent_of_enrolled hbefore)) hgone
      hn
  · intro hnone
    rcases hbetween.enrolled_or_none ho hnone with hsame | hgone
    · rw [← hbefore, ← hsame, hn]
    · rw [hn] at hgone
      cases hgone

/-- What holds of lookups and of instances that leave, in whatever order calls make their steps. -/
structure Departures (moves : List Move) (t : Traffic) : Prop where
  /-- What a call has found under an id, if anything, is what is taken out there later, exactly if
  nothing is registered under the id in between. -/
  found_iff : ∀ before m between m' after id found n,
    moves = before ++ m :: (between ++ m' :: after) →
    m.sign = .found id found → m'.sign = .unregistered id n →
    (found = some n ↔ ∀ x ∈ between, ∀ k, x.sign ≠ .registered id k)
  /-- An instance leaves only through a call that has looked its id up, and was to send a command to
  what it has found and to nothing else since. The command was sent to the instance that leaves,
  which has accepted it or had ended, exactly if nothing has been registered since the lookup and
  the command was not crowded out. -/
  sent_iff : ∀ before m after id n, moves = before ++ m :: after → m.sign = .unregistered id n →
    ∃ c first look between found, m.caller = some c ∧ before = first ++ look :: between ∧
      look.caller = some c ∧ look.sign = .found id found ∧
      Addressed found (sendings c between) ∧
      ((∃ outcome, outcome ≠ .crowded ∧ (n, outcome) ∈ sendings c between) ↔
        (∀ x ∈ between, ∀ k, x.sign ≠ .registered id k) ∧ ∀ k, (k, .crowded) ∉ sendings c between)
  /-- A stop awaits the end of what it has taken out itself. -/
  awaited : ∀ c id n reply, (t.calls c = some (.stop id (.ending n reply)) ∨
      ∃ ids, t.calls c = some (.shutdown (.stopping id (.ending n reply) ids))) →
    ∃ m ∈ moves, m.caller = some c ∧ m.sign = .unregistered id n
  /-- As long as nothing is registered after a lookup, there is no other instance under the id whose
  end could be awaited or whose watchers could be closed. -/
  alone : ∀ before m later id found, moves = before ++ m :: later → m.sign = .found id found →
    (∀ x ∈ later, ∀ k, x.sign ≠ .registered id k) → t.enrolled id = found ∨ t.enrolled id = none

section departures
variable {h : Host} (hruns : Runs (quiet h) moves t) (ho : Orderly (quiet h).host (quiet h).stake)
include hruns ho

theorem Runs.found_iff {before between after : List Move} {m m' : Move} {found : Option Nat}
    (hmoves : moves = before ++ m :: (between ++ m' :: after)) (hfound : m.sign = .found id found)
    (hremoved : m'.sign = .unregistered id n) :
    found = some n ↔ ∀ x ∈ between, ∀ k, x.sign ≠ .registered id k := by
  subst hmoves
  obtain ⟨t₁, t₂, hbefore, hfind, hlater⟩ := hruns.split
  obtain ⟨t₃, t₄, hbetween, hremove, _⟩ := hlater.split
  exact hfind.removed_iff hfound (hfind.orderly (hbefore.orderly ho)) hbetween hremove hremoved

theorem Runs.sent_iff {before after : List Move} {m : Move} (hmoves : moves = before ++ m :: after)
    (hremoved : m.sign = .unregistered id n) :
    ∃ c first look between found, m.caller = some c ∧ before = first ++ look :: between ∧
      look.caller = some c ∧ look.sign = .found id found ∧
      Addressed found (sendings c between) ∧
      ((∃ outcome, outcome ≠ .crowded ∧ (n, outcome) ∈ sendings c between) ↔
        (∀ x ∈ between, ∀ k, x.sign ≠ .registered id k) ∧
          ∀ k, (k, .crowded) ∉ sendings c between) := by
  subst hmoves
  obtain ⟨t₁, t₂, hbefore, hremove, _⟩ := hruns.split
  obtain ⟨c, found, _, hcaller, ⟨first, look, between, rfl, hown, hlook, rfl⟩, haddressed⟩ :=
    hremove.addressed hremoved hbefore.told
  refine ⟨c, first, look, between, found, hcaller, rfl, hown, hlook, haddressed, ?_⟩
  rw [← hruns.found_iff ho (List.append_assoc ..) hlook hremoved]
  cases found with
  | none =>
      have hnothing : sendings c between = [] := haddressed
      simp [hnothing]
  | some k =>
      obtain ⟨outcome, hsent⟩ := haddressed
      rw [hsent]
      constructor
      · rintro ⟨outcome', hne, hmem⟩
        cases List.mem_singleton.mp hmem
        exact ⟨rfl, fun k hk => hne (congrArg Prod.snd (List.mem_singleton.mp hk)).symm⟩
      · rintro ⟨heq, hnot⟩
        cases heq
        exact ⟨outcome, fun heq => hnot n (heq ▸ List.mem_singleton_self _),
          List.mem_singleton_self _⟩

theorem Runs.alone {before later : List Move} {m : Move} {found : Option Nat}
    (hmoves : moves = before ++ m :: later) (hfound : m.sign = .found id found)
    (hnone : ∀ x ∈ later, ∀ k, x.sign ≠ .registered id k) :
    t.enrolled id = found ∨ t.enrolled id = none := by
  subst hmoves
  obtain ⟨t₁, t₂, hbefore, hfind, hlater⟩ := hruns.split
  rw [← (hfind.found hfound).2]
  exact hlater.enrolled_or_none (hfind.orderly (hbefore.orderly ho)) hnone

end departures

/-- What a stop takes out: the instance that it has found exactly if nothing has been registered
under the id since, and one that has been sent its command exactly if, besides, there was room for
the command in time. -/
theorem stop_removes_found_iff (config : Config) (available : Bool) {moves : List Move}
    {t : Traffic} (hruns : Runs (quiet (create config available)) moves t) :
    Departures moves t := by
  have ho : Orderly (quiet (create config available)).host
      (quiet (create config available)).stake := orderly_quiet rfl rfl
  exact {
    found_iff := fun before m between m' after id found n => hruns.found_iff ho
    sent_iff := fun before m after id n => hruns.sent_iff ho
    awaited := fun c id n reply hcall => hcall.elim (hruns.told c _)
      fun ⟨ids, hcall⟩ => hruns.told c _ hcall
    alone := fun before m later id found => hruns.alone ho }

/-- A host with one instance, which has been launched with a given id. -/
def launchedHost : Host :=
  (((create {} true).registerChart Machine.jobChart).launch jobOrder.id jobOrder.chart
    jobOrder.context jobOrder.setUp).1

theorem launched_ok : (((create {} true).registerChart Machine.jobChart).launch jobOrder.id
    jobOrder.chart jobOrder.context jobOrder.setUp).2 = .ok "a" := by
  decide +kernel

/-- The instance has been sent the command to stop and has answered. -/
def stoppedHost : Host := launchedHost.after [.send "a" .stop, .turn, .turn]

/-- The instance has been taken out. -/
def removedHost : Host := (stoppedHost.takeReply 1).1.unregister "a"

/-- Another instance has been launched under the id. -/
def relaunchedHost : Host :=
  (removedHost.launch jobOrder.id jobOrder.chart jobOrder.context jobOrder.setUp).1

theorem relaunched_ok : (removedHost.launch jobOrder.id jobOrder.chart jobOrder.context
    jobOrder.setUp).2 = .ok "a" := by
  decide +kernel

theorem relaunched_running : ((relaunchedHost.unregister "a").actor? 4).map
    (fun a => (a.inbox.length, a.machine.status)) = some (0, .running) := by
  decide +kernel

/-- An instance has been launched, and two stops of it and another launch under its id are in
progress. -/
def rivals (h : Host) (first second : StopStage) (launch : LaunchStage) : Traffic :=
  ofList h [.launch jobOrder (.returned (.ok "a")), .stop "a" first, .stop "a" second,
    .launch jobOrder launch]

section rivals
variable {h h' : Host} {first second s' : StopStage} {sign : Sign}

theorem rivals_first (second : StopStage) (launch : LaunchStage)
    (hstep : Stops "a" h first sign h' s') :
    Step (rivals h first second launch) ⟨some 1, sign, h, h'⟩ (rivals h' s' second launch) :=
  ofList_go 1 rfl (.stop hstep)

theorem rivals_second (first : StopStage) (launch : LaunchStage)
    (hstep : Stops "a" h second sign h' s') :
    Step (rivals h first second launch) ⟨some 2, sign, h, h'⟩ (rivals h' first s' launch) :=
  ofList_go 2 rfl (.stop hstep)

theorem rivals_asked : ∃ moves, Runs (quiet (create {} true)) moves
    (rivals launchedHost .asked .asked .asked) := by
  have hasked := ((((runs_chart {}).tail (ofList_ask [] (.launch jobOrder))).tail
    (ofList_ask _ (.stop "a"))).tail (ofList_ask _ (.stop "a"))).tail
    (ofList_ask _ (.launch jobOrder))
  have hlaunch := launches_launch jobOrder ((create {} true).registerChart Machine.jobChart)
  rw [launched_ok] at hlaunch
  obtain ⟨_, hlaunched⟩ := hasked.goes (c := 0) rfl hlaunch
  exact ⟨_, hlaunched⟩

/-- The first stop has the instance stopped and takes it out. -/
theorem rivals_removed (second : StopStage) : ∃ reply moves,
    Runs (rivals launchedHost (.sending 2) second .asked) moves
      (rivals removedHost (.ending 2 (.ok reply)) second .asked) := by
  have hsent := Runs.refl.tail (rivals_first second .asked
    (stops_send (h := launchedHost) (n := 2) (by decide +kernel) (by decide +kernel)))
  have hstopped : Runs _ _ (rivals stoppedHost (.waiting 2 1) second .asked) :=
    (hsent.tail (.aside (aside_feed .turn rfl _))).tail (.aside (aside_feed .turn rfl _))
  have hreplied : (stoppedHost.replies.lookup 1).isSome := by decide +kernel
  obtain ⟨reply, hreceive⟩ := stops_receive "a" 2 hreplied
  exact ⟨reply, _, (hstopped.tail (rivals_first _ _ hreceive)).tail
    (rivals_first _ _ (stops_remove (n := 2) (.ok reply) (by decide +kernel)))⟩

theorem rivals_relaunched (first second : StopStage) : ∃ moves,
    Runs (rivals removedHost first second .asked) moves
      (rivals relaunchedHost first second (.returned (.ok "a"))) := by
  have hlaunch := launches_launch jobOrder removedHost
  rw [relaunched_ok] at hlaunch
  exact Runs.refl.goes (c := 3) rfl hlaunch

end rivals

/-- A move between two runs, and another one at the end. -/
theorem Runs.join {t₁ t₂ t₃ : Traffic} {m m' : Move} {between : List Move}
    (hruns : Runs t₀ moves t₁) (hstep : Step t₁ m t₂) (hbetween : Runs t₂ between t₃)
    (hstep' : Step t₃ m' t) : Runs t₀ (moves ++ m :: (between ++ [m'])) t := by
  simpa using (hruns.tail hstep).append (hbetween.tail hstep')

/-- Both stops find the instance. The first one has it stopped and takes it out; another instance is
launched under the id; the second stop, whose command is refused, takes out this one. -/
theorem rivals_overtaken : ∃ before between h₁ h₂ h₃ h₄ t, Runs (quiet (create {} true))
    (before ++ ⟨some 2, .found "a" (some 2), h₁, h₂⟩ ::
      (between ++ [⟨some 2, .unregistered "a" 4, h₃, h₄⟩])) t ∧
    t.calls 2 = some (.stop "a" (.ending 4 (.error (.instanceNotFound "a")))) ∧
    (t.host.actor? 4).map (fun a => (a.inbox.length, a.machine.status)) = some (0, .running) := by
  obtain ⟨before, hasked⟩ := rivals_asked
  have hfirst := hasked.tail (rivals_first .asked .asked
    (stops_find (h := launchedHost) (n := 2) (by decide +kernel)))
  have hfind := rivals_second (.sending 2) .asked
    (stops_find (h := launchedHost) (n := 2) (by decide +kernel))
  obtain ⟨reply, _, hremoved⟩ := rivals_removed (.sending 2)
  obtain ⟨_, hrelaunched⟩ := rivals_relaunched (.ending 2 (.ok reply)) (.sending 2)
  have hrefused := (hremoved.append hrelaunched).tail
    (rivals_second _ _ (.refused (h := relaunchedHost) (n := 2) rfl))
  exact ⟨_, _, _, _, _, _, _, hfirst.join hfind hrefused (rivals_second _ _ (stops_remove
    (h := relaunchedHost) (n := 4) (.error (.instanceNotFound "a")) (by decide +kernel))), rfl,
    relaunched_running⟩

/-- The second stop takes out another instance than it has found, since there was a launch in
between. -/
theorem stop_removes_found_iff_rivals : ∃ before between h₁ h₂ h₃ h₄ t,
    Runs (quiet (create {} true)) (before ++ ⟨some 2, .found "a" (some 2), h₁, h₂⟩ ::
      (between ++ [⟨some 2, .unregistered "a" 4, h₃, h₄⟩])) t ∧
    Departures (before ++ ⟨some 2, .found "a" (some 2), h₁, h₂⟩ ::
      (between ++ [⟨some 2, .unregistered "a" 4, h₃, h₄⟩])) t ∧
    ¬∀ x ∈ between, ∀ k, x.sign ≠ .registered "a" k := by
  obtain ⟨before, between, h₁, h₂, h₃, h₄, t, hruns, -⟩ := rivals_overtaken
  have hdepartures := stop_removes_found_iff {} true hruns
  have hiff := hdepartures.found_iff before _ between _ [] "a" (some 2) 4 rfl rfl rfl
  exact ⟨before, between, h₁, h₂, h₃, h₄, t, hruns, hdepartures,
    fun hnone => absurd (hiff.mpr hnone) (by decide)⟩

/-- Not every stop takes out the instance that it has found: it can take out one that has been
launched since, which runs and has been sent no command. -/
theorem stop_removes_other : ¬∀ (before between : List Move) (m m' : Move) (t : Traffic)
    (c n n' : Nat) (reply : Except HostError Reply),
    Runs (quiet (create {} true)) (before ++ m :: (between ++ [m'])) t →
    m.caller = some c → m'.caller = some c →
    m.sign = .found "a" (some n) → m'.sign = .unregistered "a" n' →
    t.calls c = some (.stop "a" (.ending n' reply)) →
    n' = n ∨ (t.host.actor? n').map (fun a => (a.inbox.length, a.machine.status)) ≠
      some (0, .running) := by
  intro hall
  obtain ⟨before, between, h₁, h₂, h₃, h₄, t, hruns, hcall, hactor⟩ := rivals_overtaken
  rcases hall before between _ _ t 2 2 4 _ hruns rfl rfl rfl rfl hcall with heq | hne
  · cases heq
  · exact hne hactor

/-- Someone watches the instance that has been launched under the id. -/
def watchedHost : Host :=
  { relaunchedHost with
    broadcaster := (relaunchedHost.broadcaster.subscribe (.one "a")).1 }

/-- A stop that takes out the instance it has found can close the watchers of another one, which is
launched before the stop returns. -/
theorem watchers_closed : ∃ moves h result, Runs (quiet (create {} true)) moves
      (rivals h (.returned result) .asked (.returned (.ok "a"))) ∧
    h.list = [("a", "m")] ∧
    h.broadcaster.watchers.map (fun w =>
      (w.2.subject.concerns "a", h.broadcaster.isOpen w.2.channel)) = [(true, false)] := by
  obtain ⟨_, hasked⟩ := rivals_asked
  obtain ⟨reply, _, hremoved⟩ := rivals_removed .asked
  obtain ⟨_, hrelaunched⟩ := rivals_relaunched (.closing (.ok reply)) .asked
  have hfound := hasked.tail (rivals_first .asked .asked
    (stops_find (h := launchedHost) (n := 2) (by decide +kernel)))
  have hended := (hfound.append hremoved).tail
    (rivals_first (h := removedHost) _ _ (.ended (by decide +kernel)))
  have hwatched : Runs _ _ (rivals watchedHost _ _ _) :=
    (hended.append hrelaunched).tail (.aside ⟨rfl, rfl, rfl, rfl, le_rfl⟩)
  exact ⟨_, _, _, hwatched.tail (rivals_first _ _ (.close (.ok reply))), by decide +kernel,
    by decide +kernel⟩

/-- A stop finds nothing, an instance is launched, and the stop takes it out, which runs and has
been sent no command. -/
theorem latecomer_taken_out : ∃ moves, Runs (quiet (create {} true)) moves
      (ofList (launchedHost.unregister "a") [.launch jobOrder (.returned (.ok "a")),
        .stop "a" (.ending 2 (.error (.instanceNotFound "a")))]) ∧
    (launchedHost.unregister "a").instances = [] ∧
    ((launchedHost.unregister "a").actor? 2).map (fun a => (a.inbox.length, a.machine.status)) =
      some (0, .running) := by
  have hasked := ((runs_chart {}).tail (ofList_ask [] (.launch jobOrder))).tail
    (ofList_ask _ (.stop "a"))
  have hmissed := hasked.go (c := 1) rfl (.stop (.missing rfl))
  have hlaunch := launches_launch jobOrder ((create {} true).registerChart Machine.jobChart)
  rw [launched_ok] at hlaunch
  obtain ⟨_, hlaunched⟩ := hmissed.goes (c := 0) rfl hlaunch
  have hremoved := hlaunched.go (c := 1) rfl (.stop (stops_remove (h := launchedHost) (n := 2)
    (.error (.instanceNotFound "a")) (by decide +kernel)))
  exact ⟨_, hremoved, by decide +kernel, by decide +kernel⟩

/-- Instances accept one command at a time, and callers do not wait. -/
def hasty : Config := { host := { commandCapacity := 1, replyTimeout := 0 } }

/-- A host with one instance, which has one command before it. -/
def crowdedHost : Host :=
  (((create hasty true).registerChart Machine.jobChart).launch jobOrder.id jobOrder.chart
    jobOrder.context jobOrder.setUp).1.feed (.send "a" .snapshot)

theorem crowded_launched : (((create hasty true).registerChart Machine.jobChart).launch jobOrder.id
    jobOrder.chart jobOrder.context jobOrder.setUp).2 = .ok "a" := by
  decide +kernel

/-- A stop finds no room for its command and takes the instance out. This carries out what it has
before it and goes on, though nobody is there any more who could tell it to stop. -/
theorem crowded_out : ∃ moves h, Runs (quiet (create hasty true)) moves
      (ofList h [.launch jobOrder (.returned (.ok "a")),
        .stop "a" (.ending 2 (.error (.timeout "a")))]) ∧
    h.instances = [] ∧
    (h.actor? 2).map (fun a => (a.inbox.length, a.machine.status)) = some (0, .running) := by
  have hasked := ((runs_chart hasty).tail (ofList_ask [] (.launch jobOrder))).tail
    (ofList_ask _ (.stop "a"))
  have hlaunch := launches_launch jobOrder ((create hasty true).registerChart Machine.jobChart)
  rw [crowded_launched] at hlaunch
  obtain ⟨_, hlaunched⟩ := hasked.goes (c := 0) rfl hlaunch
  have hfilled : Runs _ _ (ofList crowdedHost _) :=
    hlaunched.tail (.aside (aside_feed (.send "a" .snapshot) rfl _))
  have hfound := hfilled.go (c := 1) rfl
    (.stop (stops_find (h := crowdedHost) (n := 2) (by decide +kernel)))
  have hcrowded := hfound.go (c := 1) rfl (.stop (.crowded 2))
  have hremoved := hcrowded.go (c := 1) rfl (.stop (stops_remove (h := crowdedHost) (n := 2)
    (.error (.timeout "a")) (by decide +kernel)))
  have hserved := (hremoved.tail (.aside (aside_feed .turn rfl _))).tail
    (.aside (aside_feed .turn rfl _))
  exact ⟨_, _, hserved, by decide +kernel, by decide +kernel⟩

/-- This stop never returns. -/
example : (crowdedHost.stop? "a").2.isNone = true := by decide +kernel

end Statechart.Host.Traffic
