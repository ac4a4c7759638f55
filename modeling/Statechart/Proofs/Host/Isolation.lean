import Statechart.Proofs.Host.Run

/-!
# Isolation of instances

The instances of a host share one runner, whose table is keyed by tokens alone, and every instance
counts the generations of its tokens by itself. A task of one instance keeps its entry until the
instance gives up the token or the task ends, as long as no other instance issues an equal token;
with an equal token, the calls and the tasks of the other instance take the entry out.
-/
namespace Statechart.Host
open Machine History

/-- The instance of a task exits a state while it holds the token, as it does also when it is
stopped, or the task ends by itself. -/
def Concludes (k : Task.Identity) : Act → Prop
  | .operated a hs _ => a = k.owner ∧ ∃ i, .exited i (some k.token) ∈ hs
  | .ended n => n = k.number
  | .removed _ | .other => False

/-- Another instance than that of a task stops or starts a service under an equal token, or a task
of another instance and an equal token ends. -/
def Interferes (h : Host) (k : Task.Identity) : Act → Prop
  | .operated a _ effects => a ≠ k.owner ∧ ∃ e ∈ effects, h.runner.Hits k.token e
  | .ended n => ∃ l ∈ h.runner.roster, l.number = n ∧ l.owner ≠ k.owner ∧ l.token = k.token
  | .removed _ | .other => False

/-- A step is one of an instance, in which its machine operates or it ends. -/
def Act.Concerns (n : Nat) : Act → Prop
  | .operated a _ _ | .removed a => a = n
  | .ended _ | .other => False

/-- What a step, after some others, does to the instances and the tasks of a host. -/
structure Isolates (acts : List Act) (h : Host) (act : Act) (h' : Host) : Prop where
  /-- An instance stays what it was in the steps of others. -/
  instances : ∀ a ∈ h.actors, ¬ act.Concerns a.number → ∃ a' ∈ h'.actors, a.Stays a'
  /-- A task that is gone has ended by itself, or its entry is lost in the same step. -/
  gone : ∀ k ∈ h.runner.roster, k ∉ h'.runner.roster → act = .ended k.number ∨
    (k.token, k.number) ∈ h.runner.table ∧ (k.token, k.number) ∉ h'.runner.table
  /-- A task that ends by itself reports to its own instance. -/
  reported : ∀ k ∈ h.runner.roster, act = .ended k.number → ∀ a ∈ h.actors, a.number = k.owner →
    ∃ outcome, { a with machine := a.machine.report ⟨k.token, outcome⟩ } ∈ h'.actors
  /-- An entry is lost exactly when its task is concluded or interfered with. -/
  lost : ∀ k ∈ h.runner.roster, (k.token, k.number) ∈ h.runner.table →
    ((k.token, k.number) ∉ h'.runner.table ↔ Concludes k act ∨ Interferes h k act)
  /-- An instance that interferes with a task has issued an equal token. -/
  shared : ∀ k ∈ h.runner.roster, Interferes h k act →
    ∃ a, a ≠ k.owner ∧ k.token ∈ issued (ledger (acts ++ [act]) a)
  /-- As long as no other instance has, the entry of a task is lost only when it is concluded. -/
  unshared : ∀ k ∈ h.runner.roster, (k.token, k.number) ∈ h.runner.table →
    (∀ a, a ≠ k.owner → k.token ∉ issued (ledger (acts ++ [act]) a)) →
    ((k.token, k.number) ∉ h'.runner.table ↔ Concludes k act)

variable {h h' : Host} {acts : List Act} {act : Act} {k : Task.Identity}

theorem hits_cases {r : Runner} {t : Token} {effects : List Effect} {e : Effect} (he : e ∈ effects)
    (hit : r.Hits t e) :
    t ∈ effects.filterMap Effect.stopped? ∨ t ∈ effects.filterMap Effect.started? := by
  cases e with
  | logged | notified => exact hit.elim
  | revoked u =>
      obtain rfl : u = t := hit
      exact .inl (List.mem_filterMap.mpr ⟨_, he, rfl⟩)
  | invoked request =>
      obtain ⟨rfl, _⟩ : request.token = t ∧ _ := hit
      exact .inr (List.mem_filterMap.mpr ⟨_, he, rfl⟩)

theorem hit_of_stopped {r : Runner} {t : Token} {effects : List Effect}
    (ht : t ∈ effects.filterMap Effect.stopped?) : ∃ e ∈ effects, r.Hits t e := by
  obtain ⟨e, he, heq⟩ := List.mem_filterMap.mp ht
  refine ⟨e, he, ?_⟩
  cases e with
  | revoked u =>
      cases heq
      rfl
  | logged | notified | invoked => cases heq

/-- An operation of the instance of a task hits its token only by giving it up. -/
theorem Tracked.hits_iff {hs new : History} {m m' : Machine} {t : Token} {r : Runner}
    (hm : Tracked hs m) (hmoves : Moves ⟨m, []⟩ new ⟨m', []⟩) (ht : t ∈ issued hs) :
    (∃ e ∈ m'.trace.toList, r.Hits t e) ↔ ∃ i, .exited i (some t) ∈ new := by
  rw [← mem_revoked, ← hm.stopped hmoves]
  constructor
  · rintro ⟨e, he, hit⟩
    rcases hits_cases he hit with hstopped | hstarted
    · exact hstopped
    · rw [hm.started hmoves] at hstarted
      exact absurd hstarted ((hm.started_new hmoves).2 t ht)
  · exact hit_of_stopped

/-- A token that an operation hits has been issued by the instance. -/
theorem Tracked.issued_of_hits {hs new : History} {m m' : Machine} {t : Token} {r : Runner}
    (hm : Tracked hs m) (hmoves : Moves ⟨m, []⟩ new ⟨m', []⟩)
    (hit : ∃ e ∈ m'.trace.toList, r.Hits t e) : t ∈ issued (hs ++ new) := by
  obtain ⟨e, he, hit⟩ := hit
  rcases hits_cases he hit with hstopped | hstarted
  · rw [hm.stopped hmoves] at hstopped
    apply (hm.orderly hmoves).revoked_subset
    rw [revoked, List.filterMap_append]
    exact List.mem_append_right _ hstopped
  · rw [hm.started hmoves] at hstarted
    rw [issued_append]
    exact List.mem_append_right _ ((started_sublist new).subset hstarted)

/-- The entry of a task is lost exactly when the task is concluded or interfered with. -/
theorem Step.entry_lost_iff (hstep : Step h act h') (hk : Kept acts h) (hmem : k ∈ h.runner.roster)
    (hentry : (k.token, k.number) ∈ h.runner.table) :
    (k.token, k.number) ∉ h'.runner.table ↔ Concludes k act ∨ Interferes h k act := by
  have hnumber := hk.tidy.below k hmem
  cases hstep with
  | other hsame => simp [hsame.table, hentry, Concludes, Interferes]
  | launch | remove => simp [Host.remove, hentry, Concludes, Interferes]
  | @operate α operation a hs ha hmoves hrest =>
      have hm := (hk.machines a ha).idles (equip_idles a.machine h.runner)
      rw [(operate_serves operation a h).1, Runner.mem_table_serve _ hk.tidy hnumber]
      simp only [hentry, true_and, not_forall, not_not, exists_prop, Concludes, Interferes]
      by_cases howner : a.number = k.owner
      · rw [hm.hits_iff hmoves (howner ▸ hk.issued k hmem)]
        simp [howner]
      · simp [howner]
  | @finish n task htask hready =>
      have hremoved := Runner.finish_removed hk.tidy htask hready
      have htaskMem : task.identity ∈ h.runner.roster :=
        List.mem_map_of_mem (List.mem_of_find?_eq_some htask)
      have htaskNumber : task.number = n := by simpa using List.find?_some htask
      -- a task that ends takes the entry of its token out, whichever task that names
      have hlost : (k.token, k.number) ∉ (h.runner.turn n).1.table ↔ k.token = task.token := by
        rw [hremoved.table, List.mem_filter]
        simp [hentry]
      rw [(unaffected_deliver _ _).table, hlost]
      constructor
      · intro htoken
        by_cases howner : task.owner = k.owner
        · have heq := hk.single _ htaskMem k hmem howner htoken.symm
          exact .inl (htaskNumber.symm.trans (congrArg Task.Identity.number heq))
        · exact .inr ⟨_, htaskMem, htaskNumber, howner, htoken.symm⟩
      · rintro (hnumber | ⟨l, hl, hlNumber, _, hlToken⟩)
        · have heq := hk.tidy.eq_of_number htaskMem hmem (htaskNumber.trans hnumber)
          exact (congrArg Task.Identity.token heq).symm
        · have heq := hk.tidy.eq_of_number htaskMem hl (htaskNumber.trans hlNumber.symm)
          exact hlToken.symm.trans (congrArg Task.Identity.token heq).symm

/-- An instance that interferes with a task has issued an equal token. -/
theorem Step.issued_of_interferes (hstep : Step h act h') (hk : Kept acts h)
    (hinterferes : Interferes h k act) :
    ∃ a, a ≠ k.owner ∧ k.token ∈ issued (ledger (acts ++ [act]) a) := by
  cases hstep with
  | other | launch | remove => exact hinterferes.elim
  | @operate α operation a hs ha hmoves hrest =>
      obtain ⟨howner, hit⟩ := hinterferes
      have hm := (hk.machines a ha).idles (equip_idles a.machine h.runner)
      refine ⟨a.number, howner, ?_⟩
      rw [ledger_concat, Act.history, if_pos rfl]
      exact hm.issued_of_hits hmoves hit
  | finish =>
      obtain ⟨l, hl, _, howner, htoken⟩ := hinterferes
      refine ⟨l.owner, howner, ?_⟩
      rw [ledger_concat, issued_append, ← htoken]
      exact List.mem_append_left _ (hk.issued l hl)

/-- A task that is gone has ended by itself, or it has lost its entry at the same time. -/
theorem Step.entry_of_gone (hstep : Step h act h') (hk : Kept acts h) (hmem : k ∈ h.runner.roster)
    (hgone : k ∉ h'.runner.roster) : act = .ended k.number ∨
      (k.token, k.number) ∈ h.runner.table ∧ (k.token, k.number) ∉ h'.runner.table := by
  cases hstep with
  | other hsame =>
      rw [hsame.roster] at hgone
      exact absurd hmem hgone
  | launch | remove => exact absurd hmem hgone
  | @operate α operation a hs ha hmoves hrest =>
      rw [(operate_serves operation a h).1] at hgone ⊢
      obtain ⟨hentry, hrevoked⟩ := Runner.ended_serve _ hk.tidy hmem hgone
      refine .inr ⟨hentry, ?_⟩
      rw [Runner.mem_table_serve _ hk.tidy (hk.tidy.below k hmem)]
      exact fun hkept => hkept.2 _ hrevoked rfl
  | @finish n task htask hready =>
      have hremoved := Runner.finish_removed hk.tidy htask hready
      rw [(unaffected_deliver _ _).roster, hremoved.roster] at hgone
      left
      by_contra hne
      exact hgone ⟨hmem, fun heq => hne (by rw [heq])⟩

/-- A delivered completion arrives at the machine that waits for it. -/
theorem mem_deliver {r : Report} (hnodup : (h.actors.map Actor.number).Nodup) {a : Actor}
    (ha : a ∈ h.actors) (howner : a.number = r.owner) :
    { a with machine := a.machine.report r.completion } ∈ (h.deliver r).actors := by
  have hsome : (h.actor? r.owner).isSome :=
    List.find?_isSome.mpr ⟨a, ha, by simpa using howner⟩
  obtain ⟨b, hb⟩ := Option.isSome_iff_exists.mp hsome
  obtain ⟨hbmem, hbowner⟩ := actor?_some hb
  obtain rfl := List.inj_on_of_nodup_map hnodup ha hbmem (howner.trans hbowner.symm)
  unfold deliver
  rw [hb]
  exact mem_update_self ⟨a, ha, rfl⟩

theorem Step.stays (hstep : Step h act h') (hk : Kept acts h) {a : Actor} (ha : a ∈ h.actors)
    (hact : ¬ act.Concerns a.number) : ∃ a' ∈ h'.actors, a.Stays a' := by
  cases hstep with
  | other hsame => exact hsame.stays hk.numbers ha
  | launch => exact ⟨a, List.mem_append_left _ ha, .refl a⟩
  | remove n => exact ⟨a, List.mem_filter.mpr ⟨ha, decide_eq_true (Ne.symm hact)⟩, .refl a⟩
  | @finish n =>
      exact (unaffected_deliver _ { h with runner := (h.runner.turn n).1 }).stays hk.numbers ha
  | @operate α operation b hs hb hmoves hrest =>
      rw [(operate_serves operation b h).2.1]
      exact ⟨a, mem_update_of_ne ha fun heq => hact heq.symm, .refl a⟩

theorem Step.reported (hstep : Step h act h') (hk : Kept acts h) (hmem : k ∈ h.runner.roster)
    (hact : act = .ended k.number) {a : Actor} (ha : a ∈ h.actors) (howner : a.number = k.owner) :
    ∃ outcome, { a with machine := a.machine.report ⟨k.token, outcome⟩ } ∈ h'.actors := by
  cases hstep with
  | other | launch | remove | operate => cases hact
  | @finish n task htask hready =>
      cases hact
      have htaskMem : task.identity ∈ h.runner.roster :=
        List.mem_map_of_mem (List.mem_of_find?_eq_some htask)
      have htaskNumber : task.number = k.number := by simpa using List.find?_some htask
      obtain rfl := hk.tidy.eq_of_number htaskMem hmem htaskNumber
      exact ⟨task.job.outcome, mem_deliver
        (h := { h with runner := (h.runner.turn task.number).1 }) hk.numbers ha howner⟩

theorem Step.isolates (hstep : Step h act h') (hk : Kept acts h) : Isolates acts h act h' where
  instances _ ha hact := hstep.stays hk ha hact
  gone _ hmem hgone := hstep.entry_of_gone hk hmem hgone
  reported _ hmem hact _ ha howner := hstep.reported hk hmem hact ha howner
  lost _ hmem hentry := hstep.entry_lost_iff hk hmem hentry
  shared _ _ hinterferes := hstep.issued_of_interferes hk hinterferes
  unshared k hmem hentry hunshared := by
    rw [hstep.entry_lost_iff hk hmem hentry]
    refine or_iff_left fun hinterferes => ?_
    obtain ⟨a, hne, hissued⟩ := hstep.issued_of_interferes hk hinterferes
    exact hunshared a hne hissued

/-- Steps lead through every run of a host, and each of them isolates its instances up to equal
tokens: the entry of a task is lost exactly when its own instance gives up the token, when the task
ends, and when another instance, which has issued an equal token then, starts or stops a service
under it or has a task under it that ends. -/
theorem tasks_isolated_iff (config : Config) (available : Bool) :
    (∀ inputs, ∃ acts, Steps (create config available) acts
      ((create config available).after inputs)) ∧
    ∀ acts h act h', Steps (create config available) acts h → Step h act h' →
      Isolates acts h act h' :=
  ⟨reaches_after (kept_create config available), fun _ _ _ _ hsteps hstep =>
    hstep.isolates (hsteps.kept (kept_create config available))⟩

/-- Two instances of a chart have both gone to their job. -/
def twoJobs : Host :=
  (create {} true).after [.registerChart jobDefinition jobChart build_job,
    .spawn (some "a") "m" .null, .spawn (some "b") "m" .null,
    .dispatch "a" ⟨"go", .null⟩, .dispatch "b" ⟨"go", .null⟩]

/-- Both jobs run under one token, of which the table has one entry. When the first instance
cancels its job, the task of the second is gone; a second later no task is left, and the second
instance still waits in its state. -/
theorem cancel_ends_job_of_other :
    twoJobs.runner.roster = [⟨0, 2, ⟨"job", 1⟩⟩, ⟨1, 4, ⟨"job", 1⟩⟩] ∧
    twoJobs.runner.table = [(⟨"job", 1⟩, 1)] ∧
    (twoJobs.dispatch "a" ⟨"cancel", .null⟩).1.runner.roster = [⟨0, 2, ⟨"job", 1⟩⟩] ∧
    (twoJobs.dispatch "a" ⟨"cancel", .null⟩).1.runner.table = [] ∧
    ((twoJobs.dispatch "a" ⟨"cancel", .null⟩).1.sleep 1000).runner.roster = [] ∧
    ((twoJobs.dispatch "a" ⟨"cancel", .null⟩).1.sleep 1000).actors.map
        (fun a => (a.instanceId, a.machine.configuration, a.machine.invocations)) =
      [("a", [0, 2], []), ("b", [0, 3], [("job", ⟨"job", 1⟩)])] := by
  decide +kernel

/-- Cancelling the job of the first instance is a step of the run, in which the job of the second
is interfered with. -/
theorem cancel_interferes : ∃ a ∈ twoJobs.actors, a.number = 2 ∧ ∃ acts act,
    Steps (create {} true) acts twoJobs ∧
    Step twoJobs act (twoJobs.operate (·.dispatch ⟨"cancel", .null⟩) a).1 ∧
    Interferes twoJobs ⟨1, 4, ⟨"job", 1⟩⟩ act ∧ ¬Concludes ⟨1, 4, ⟨"job", 1⟩⟩ act := by
  obtain ⟨a, ha, hnumber, hlost⟩ : ∃ a ∈ twoJobs.actors, a.number = 2 ∧
      (⟨"job", 1⟩, 1) ∉ (twoJobs.operate (·.dispatch ⟨"cancel", .null⟩) a).1.runner.table := by
    decide +kernel
  obtain ⟨hruns, hsteps⟩ := tasks_isolated_iff {} true
  obtain ⟨acts, hacts⟩ := hruns [.registerChart jobDefinition jobChart build_job,
    .spawn (some "a") "m" .null, .spawn (some "b") "m" .null,
    .dispatch "a" ⟨"go", .null⟩, .dispatch "b" ⟨"go", .null⟩]
  have hm := ((hacts.kept (kept_create {} true)).machines a ha).idles
    (equip_idles a.machine twoJobs.runner)
  obtain ⟨⟨hs, hmoves⟩, hrest⟩ := regulated_dispatch ⟨"cancel", .null⟩ _ hm.regular
  have hstep := Step.operate (h := twoJobs) (·.dispatch ⟨"cancel", .null⟩) ha hmoves hrest
  have hnot : ¬Concludes ⟨1, 4, ⟨"job", 1⟩⟩ (.operated a.number hs
      (a.machine.equip twoJobs.runner |>.dispatch ⟨"cancel", .null⟩).1.trace.toList) :=
    fun hconcludes => by simp [Concludes, hnumber] at hconcludes
  refine ⟨a, ha, hnumber, acts, _, hacts, hstep, ?_, hnot⟩
  have hiff := (hsteps _ _ _ _ hacts hstep).lost ⟨1, 4, ⟨"job", 1⟩⟩ (by decide +kernel)
    (by decide +kernel)
  exact (hiff.mp hlost).resolve_left hnot

end Statechart.Host
