import Statechart.Proofs.Service.Threads

/-!
# Accounts of tasks

The account of a task and the runner agree: which stage the task is at, whether it is there at all
and whether its handle is in the table can be read off from what has been done about it. Every step
keeps that, whoever makes it. A task goes past its gate only once its handle is in the table, so
when it takes out its own entry it never comes too early, and no entry outlives its task.
-/
namespace Statechart.Runner

namespace Account

/-- The task has not been ended, by an abort or by itself. -/
def Live (a : Account) : Prop := a.dropped = false ∧ a.reports = []

/-- The stage of a live task. -/
def Stands (a : Account) : Stage → Prop
  | .created => ¬ a.released
  | .ready _ | .sleeping _ => a.released ∧ ¬ a.returned
  | .returned => a.returned ∧ ¬ a.forgotten
  | .forgotten => a.forgotten

/-- The account is that of a task. -/
structure Owns (a : Account) (k : Task) : Prop where
  errand : a.toErrand = ⟨k.owner, k.token, k.job⟩
  live : a.Live
  stands : a.Stands k.stage

/-- What is done about a task is done in order. -/
structure Sound (a : Account) : Prop where
  released : a.released → a.entered
  taken : a.taken → a.entered
  aborted : a.aborted → a.taken
  returned : a.returned → a.released
  forgotten : a.forgotten → a.returned
  polled : a.polled → a.Live
  dropped : a.dropped → a.aborted ∧ ¬ a.returned
  reports : a.reports = [] ∨ a.reports = [a.report] ∧ a.forgotten
  unpolled : a.returned → ¬ a.polled → a.reports ≠ []
  effect : a.aborted → ¬ a.polled → ¬ a.returned → a.dropped

/-- The account is that of every task of a number, and as long as it is live there is one. -/
structure Covers (a : Account) (n : Nat) (tasks : List Task) : Prop where
  own : ∀ k ∈ tasks, k.number = n → a.Owns k
  live : a.Live → ∃ k ∈ tasks, k.number = n

/-- An entry of the table for a task says what its account says. -/
structure Lists (a : Account) (n : Nat) (table : List (Token × Nat)) : Prop where
  token : ∀ t, (t, n) ∈ table → t = a.token
  entered : ∀ t, (t, n) ∈ table → a.entered
  kept : ∀ t, (t, n) ∈ table → ¬ a.taken ∧ ¬ a.forgotten

/-- An account agrees with a runner. -/
structure Fits (a : Account) (n : Nat) (r : Runner) : Prop where
  sound : a.Sound
  covers : a.Covers n r.tasks
  lists : a.Lists n r.table

variable {a a' : Account} {n m : Nat} {r r' : Runner} {k : Task} {stage : Stage}

theorem Sound.taken_of_dropped (h : a.Sound) (hdropped : a.dropped) : a.taken :=
  h.aborted (h.dropped hdropped).1

theorem Stands.open_iff (h : a.Stands stage) (hsound : a.Sound) :
    stage.Open ↔ ¬ a.returned := by
  have hreturned := hsound.returned
  have hforgotten := hsound.forgotten
  cases stage <;> simp_all [Stands, Stage.Open]

theorem Fits.owns (h : a.Fits n r) (hk : r.task? n = some k) : a.Owns k :=
  h.covers.own k (task?_some hk).1 (task?_some hk).2

theorem Covers.same {tasks : List Task} (h : a.Covers n tasks) (herrand : a'.toErrand = a.toErrand)
    (hlive : a'.Live ↔ a.Live) (hstands : ∀ stage, a.Stands stage → a'.Stands stage) :
    a'.Covers n tasks where
  own k hk hn :=
    have hown := h.own k hk hn
    ⟨herrand.trans hown.errand, hlive.mpr hown.live, hstands _ hown.stands⟩
  live ha' := h.live (hlive.mp ha')

theorem Covers.move (h : a.Covers n r.tasks) (herrand : a'.toErrand = a.toErrand)
    (hlive : a'.Live ↔ a.Live) (hstands : a'.Stands stage) :
    a'.Covers n (r.move n stage).tasks where
  own k hk hn := by
    obtain ⟨l, hl, rfl⟩ := List.mem_map.mp hk
    by_cases hln : l.number = n
    · have hown := h.own l hl hln
      rw [if_pos hln]
      exact ⟨herrand.trans hown.errand, hlive.mpr hown.live, hstands⟩
    · rw [if_neg hln] at hn
      exact absurd hn hln
  live ha' := by
    obtain ⟨k, hk, hn⟩ := h.live (hlive.mp ha')
    exact ⟨_, List.mem_map_of_mem hk, by rw [if_pos hn]; exact hn⟩

theorem Covers.gone {tasks : List Task} (hlive : ¬ a.Live) :
    a.Covers n (tasks.filter fun k => k.number ≠ n) where
  own k hk hn := by simp [hn] at hk
  live ha := absurd ha hlive

/-- An abort ends the task of a number if there is one whose service has not returned. -/
theorem Fits.ends_iff (h : a.Fits n r) (hopen : a.Live → ¬ a.returned) :
    (r.interrupt n).tasks = r.tasks.filter (fun k => k.number ≠ n) ∧ (r.ends n ↔ a.Live) := by
  have htasks : (r.interrupt n).tasks = r.tasks.filter fun k => k.number ≠ n :=
    interrupt_tasks fun k hk hn =>
      have hown := h.covers.own k hk hn
      (hown.stands.open_iff h.sound).mpr (hopen hown.live)
  refine ⟨htasks, ?_⟩
  have hgone : (r.interrupt n).task? n = none := by
    rw [task?, htasks, List.find?_eq_none]
    intro k hk
    simpa using (List.mem_filter.mp hk).2
  rw [ends, hgone, Option.isNone_none, Bool.and_true, task?, List.find?_isSome]
  constructor
  · rintro ⟨k, hk, hn⟩
    exact (h.covers.own k hk (by simpa using hn)).live
  · intro hlive
    obtain ⟨k, hk, hn⟩ := h.covers.live hlive
    exact ⟨k, hk, by simpa using hn⟩

section lists
variable {table : List (Token × Nat)}

theorem Lists.same (h : a.Lists n table) (hentered : a.entered → a'.entered)
    (htoken : a'.token = a.token) (htaken : a'.taken = a.taken)
    (hforgotten : a'.forgotten = a.forgotten) : a'.Lists n table where
  token t ht := (h.token t ht).trans htoken.symm
  entered t ht := hentered (h.entered t ht)
  kept t ht := by
    rw [htaken, hforgotten]
    exact h.kept t ht

theorem Lists.none (h : ∀ t, (t, n) ∉ table) : a.Lists n table where
  token t ht := absurd ht (h t)
  entered t ht := absurd ht (h t)
  kept t ht := absurd ht (h t)

theorem Lists.not_mem_erase (h : a.Lists n r.table) (t : Token) :
    (t, n) ∉ (r.erase a.token).table := by
  intro ht
  obtain ⟨hmem, hne⟩ := List.mem_filter.mp ht
  simp [h.token t hmem] at hne

end lists

theorem Fits.enroll (h : a.Fits n r) (hentered : ¬ a.entered) :
    ({ a with entered := true } : Account).Fits n (r.enroll a.token n) := by
  have htaken : ¬ a.taken := fun h' => hentered (h.sound.taken h')
  have hreleased : ¬ a.released := fun h' => hentered (h.sound.released h')
  have hforgotten : ¬ a.forgotten := fun h' => hreleased (h.sound.returned (h.sound.forgotten h'))
  refine ⟨{ h.sound with released := fun _ => rfl, taken := fun _ => rfl },
    h.covers.same rfl Iff.rfl fun _ h => h, fun t ht => ?_, fun _ _ => rfl,
    fun _ _ => ⟨htaken, hforgotten⟩⟩
  rcases List.mem_append.mp ht with hold | hnew
  · exact absurd (h.lists.entered t (List.mem_filter.mp hold).1) hentered
  · simpa using hnew

theorem Fits.release (h : a.Fits n r) (hentered : a.entered) (hreleased : ¬ a.released)
    (wait : Nat) : ({ a with released := true } : Account).Fits n (r.release n wait) := by
  have hreturned : ¬ a.returned := fun h' => hreleased (h.sound.returned h')
  refine ⟨{ h.sound with released := fun _ => hentered, returned := fun _ => rfl }, ?_, ?_⟩
  · rw [Runner.release, queue_tasks]
    exact h.covers.move rfl Iff.rfl ⟨rfl, hreturned⟩
  · rw [Runner.release, queue_table]
    exact h.lists.same id rfl rfl rfl

/-- The abort takes effect. -/
theorem Fits.interrupt (h : a.Fits n r) (htaken : a.taken) (hopen : a.Live → ¬ a.returned) :
    ({ a with aborted := true, polled := false, dropped := a.dropped || r.ends n } : Account).Fits n
      (r.interrupt n) := by
  obtain ⟨htasks, hends⟩ := h.ends_iff hopen
  have hended (hdropped : ¬ a.dropped) : a.Live ↔ a.reports = [] := by simp [Live, hdropped]
  refine ⟨{ h.sound with
    aborted := fun _ => htaken, polled := fun h' => absurd h' Bool.false_ne_true, dropped := ?_,
    unpolled := ?_, effect := ?_ }, ?_, ?_⟩
  · intro hdropped
    refine ⟨rfl, ?_⟩
    rcases Bool.or_eq_true_iff.mp hdropped with hdropped | hdropped
    · exact (h.sound.dropped hdropped).2
    · exact hopen (hends.mp hdropped)
  · intro hreturned _ hreports
    have hdropped : ¬ a.dropped := fun h' => (h.sound.dropped h').2 hreturned
    exact hopen ((hended hdropped).mpr hreports) hreturned
  · intro _ _ hreturned
    refine Bool.or_eq_true_iff.mpr (or_iff_not_imp_left.mpr fun hdropped => ?_)
    rw [hends, hended hdropped]
    exact h.sound.reports.resolve_right fun h' => hreturned (h.sound.forgotten h'.2)
  · rw [htasks]
    refine Covers.gone fun hlive => ?_
    obtain ⟨hdropped, hnone⟩ := Bool.or_eq_false_iff.mp hlive.1
    exact absurd (hends.mpr ⟨hdropped, hlive.2⟩) (by simp [hnone])
  · exact h.lists.same id rfl rfl rfl

/-- A task that is being polled calls its service. -/
theorem Fits.call (h : a.Fits n r) (hk : r.task? n = some k) (hpolled : a.polled) :
    ({ a with returned := a.returned || k.stage = .ready 0 } : Account).Fits n (r.call k) := by
  obtain ⟨-, rfl⟩ := task?_some hk
  have hown := h.owns hk
  have hstands := hown.stands
  by_cases hready : k.stage = .ready 0
  · rw [hready] at hstands
    have hforgotten : ¬ a.forgotten := fun h' => hstands.2 (h.sound.forgotten h')
    simp only [Runner.call, hready, decide_true, Bool.or_true]
    refine ⟨{ h.sound with
      returned := fun _ => hstands.1, forgotten := fun _ => rfl, dropped := ?_, unpolled := ?_,
      effect := ?_ }, h.covers.move rfl Iff.rfl ⟨rfl, hforgotten⟩, h.lists.same id rfl rfl rfl⟩
    · intro hdropped
      exact absurd hdropped (by simp [hown.live.1])
    · exact fun _ h' => absurd hpolled h'
    · exact fun _ h' => absurd hpolled h'
  · rw [decide_eq_false hready, Bool.or_false]
    unfold Runner.call
    split
    · next hzero => exact absurd hzero hready
    · next wait _ hwait =>
        rw [hwait] at hstands
        exact ⟨h.sound, h.covers.move rfl Iff.rfl hstands, h.lists⟩
    · exact h

theorem Fits.forget (h : a.Fits n r) (hk : r.task? n = some k) (hstage : k.stage = .returned) :
    ({ a with forgotten := true } : Account).Fits n (r.forget k) := by
  obtain ⟨-, rfl⟩ := task?_some hk
  have hown := h.owns hk
  have hreturned : a.returned := by
    have hstands := hown.stands
    rw [hstage] at hstands
    exact hstands.1
  have htoken : k.token = a.token := congrArg Errand.token hown.errand.symm
  refine ⟨{ h.sound with forgotten := fun _ => hreturned, reports := .inl hown.live.2 },
    h.covers.move (r := r.erase k.token) rfl Iff.rfl rfl, Lists.none ?_⟩
  rw [Runner.forget, htoken]
  exact h.lists.not_mem_erase

theorem Fits.finish (h : a.Fits n r) (hk : r.task? n = some k) (hstage : k.stage = .forgotten) :
    ({ a with polled := false, reports := a.reports ++ [(r.finish k).2] } : Account).Fits n
      (r.finish k).1 := by
  obtain ⟨-, rfl⟩ := task?_some hk
  have hown := h.owns hk
  have hforgotten : a.forgotten := by
    have hstands := hown.stands
    rwa [hstage] at hstands
  have hreports : a.reports ++ [(r.finish k).2] = [a.report] := by
    rw [hown.live.2, Errand.report, hown.errand]
    rfl
  rw [hreports]
  refine ⟨{ h.sound with
      polled := fun h' => absurd h' Bool.false_ne_true, reports := .inr ⟨rfl, hforgotten⟩,
      unpolled := ?_, effect := ?_ },
    Covers.gone ?_, h.lists.same id rfl rfl rfl⟩
  · exact fun _ _ => List.cons_ne_nil _ _
  · exact fun _ _ hreturned => absurd (h.sound.forgotten hforgotten) hreturned
  · exact fun hlive => List.cons_ne_nil _ _ hlive.2

end Account

open Account in
/-- A step about a task keeps its account in agreement with the runner. -/
theorem Moves.fits {n : Nat} {a a' : Account} {r r' : Runner} (hmove : Moves n a r a' r')
    (h : a.Fits n r) : a'.Fits n r' := by
  cases hmove with
  | enroll hentered => exact h.enroll hentered
  | release hentered hreleased => exact h.release hentered hreleased _
  | abort htaken haborted hpolled =>
      have hfits := h.interrupt htaken fun hlive hreturned =>
        h.sound.unpolled hreturned hpolled hlive.2
      rwa [← eq_false_of_ne_true hpolled] at hfits
  | mark htaken haborted hpolled =>
      refine ⟨{ h.sound with aborted := fun _ => htaken, dropped := ?_, effect := ?_ },
        h.covers.same rfl Iff.rfl fun _ h => h, h.lists.same id rfl rfl rfl⟩
      · exact fun hdropped => ⟨rfl, (h.sound.dropped hdropped).2⟩
      · exact fun _ h' => absurd hpolled h'
  | poll hk hpolled =>
      refine ⟨{ h.sound with polled := fun _ => (h.owns hk).live, unpolled := ?_, effect := ?_ },
        h.covers.same rfl Iff.rfl fun _ h => h, h.lists.same id rfl rfl rfl⟩
      · exact fun _ h' => absurd rfl h'
      · exact fun _ h' => absurd rfl h'
  | call hk hpolled => exact h.call hk hpolled
  | pend hk hpolled hopen haborted =>
      have hreturned := ((h.owns hk).stands.open_iff h.sound).mp hopen
      refine ⟨{ h.sound with
          polled := fun h' => absurd h' Bool.false_ne_true, unpolled := ?_, effect := ?_ },
        h.covers.same rfl Iff.rfl fun _ h => h, h.lists.same id rfl rfl rfl⟩
      · exact fun h' => absurd h' hreturned
      · exact fun h' => absurd h' haborted
  | drop hk hpolled hopen haborted =>
      have hreturned := ((h.owns hk).stands.open_iff h.sound).mp hopen
      have hfits := h.interrupt (h.sound.aborted haborted) fun _ => hreturned
      rwa [← haborted] at hfits
  | forget hk hpolled hstage => exact h.forget hk hstage
  | finish hk hpolled hstage => exact h.finish hk hstage
  | wake hk hstage wait =>
      have hstands := (h.owns hk).stands
      rw [hstage] at hstands
      refine ⟨h.sound, ?_, ?_⟩
      · rw [Runner.release, queue_tasks]
        exact h.covers.move rfl Iff.rfl hstands
      · rw [Runner.release, queue_table]
        exact h.lists

/-- An account at an earlier and at a later time. -/
structure Account.Before (a a' : Account) : Prop where
  errand : a'.toErrand = a.toErrand
  returned : a.returned → a'.returned
  dropped : a.dropped → a'.dropped
  reports : a.reports <+: a'.reports

theorem Account.Before.refl (a : Account) : a.Before a := ⟨rfl, id, id, List.prefix_rfl⟩

theorem Account.Before.trans {a a' a'' : Account} (h : a.Before a') (h' : a'.Before a'') :
    a.Before a'' :=
  ⟨h'.errand.trans h.errand, h'.returned ∘ h.returned, h'.dropped ∘ h.dropped,
    h.reports.trans h'.reports⟩

theorem Moves.before {n : Nat} {a a' : Account} {r r' : Runner} (hmove : Moves n a r a' r') :
    a.Before a' := by
  cases hmove with
  | abort | drop => exact { Account.Before.refl a with dropped := fun h => by simp [h] }
  | call => exact { Account.Before.refl a with returned := fun h => by simp [h] }
  | finish => exact { Account.Before.refl a with reports := List.prefix_append _ _ }
  | _ => exact { Account.Before.refl a with }

/-- A task that sends its completion has taken out its entry. -/
theorem Moves.reports {n : Nat} {a a' : Account} {r r' : Runner} (hmove : Moves n a r a' r')
    (h : a.Fits n r) (hne : a'.reports ≠ a.reports) : a.forgotten ∧ r'.table = r.table := by
  cases hmove with
  | finish hk hpolled hstage =>
      have hstands := (h.owns hk).stands
      rw [hstage] at hstands
      exact ⟨hstands, rfl⟩
  | _ => exact absurd rfl hne

/-- The entry that the handle of a task has in the table unless it has been taken out. -/
def Account.Listed (a : Account) (n : Nat) (table : List (Token × Nat)) : Prop :=
  a.entered → ¬ a.taken → ¬ a.forgotten → (a.token, n) ∈ table

theorem Moves.listed {n : Nat} {a a' : Account} {r r' : Runner} (hmove : Moves n a r a' r')
    (h : a.Listed n r.table) : a'.Listed n r'.table := by
  cases hmove with
  | enroll => exact fun _ _ _ => List.mem_append_right _ (List.mem_singleton_self _)
  | release hentered =>
      rw [Runner.release, queue_table]
      exact fun _ => h hentered
  | wake =>
      rw [Runner.release, queue_table]
      exact h
  | forget => exact fun _ _ hforgotten => absurd rfl hforgotten
  | call =>
      unfold Runner.call
      split <;> exact h
  | _ => exact h

/-- What a step about a task of a token leaves alone. -/
structure Confined (n : Nat) (token : Token) (r r' : Runner) : Prop where
  tasks : ∀ k : Task, k.number ≠ n → (k ∈ r'.tasks ↔ k ∈ r.tasks)
  old : ∀ t m, m ≠ n → (t, m) ∈ r'.table → (t, m) ∈ r.table
  kept : ∀ t m, t ≠ token → (t, m) ∈ r.table → (t, m) ∈ r'.table
  keys : (r.table.map (·.1)).Nodup → (r'.table.map (·.1)).Nodup
  nextNumber : r.nextNumber ≤ r'.nextNumber

section confined
variable {n m : Nat} {a a' : Account} {r r' r'' : Runner} {k : Task} {token : Token}

theorem Confined.refl (n : Nat) (token : Token) (r : Runner) : Confined n token r r :=
  ⟨fun _ _ => Iff.rfl, fun _ _ _ => id, fun _ _ _ => id, id, le_rfl⟩

theorem Confined.trans (h : Confined n token r r') (h' : Confined n token r' r'') :
    Confined n token r r'' where
  tasks k hk := (h'.tasks k hk).trans (h.tasks k hk)
  old t m hm ht := h.old t m hm (h'.old t m hm ht)
  kept t m hne ht := h'.kept t m hne (h.kept t m hne ht)
  keys hkeys := h'.keys (h.keys hkeys)
  nextNumber := h.nextNumber.trans h'.nextNumber

theorem confined_move (n : Nat) (token : Token) (stage : Stage) (r : Runner) :
    Confined n token r (r.move n stage) := by
  refine { Confined.refl n token r with tasks := fun k hk => ?_ }
  constructor
  · intro hmem
    obtain ⟨l, hl, rfl⟩ := List.mem_map.mp hmem
    by_cases hln : l.number = n
    · rw [if_pos hln] at hk
      exact absurd hln hk
    · rwa [if_neg hln]
  · exact fun hmem => List.mem_map.mpr ⟨k, hmem, if_neg hk⟩

theorem confined_erase (n : Nat) (token : Token) (r : Runner) :
    Confined n token r (r.erase token) where
  tasks _ _ := Iff.rfl
  old _ _ _ ht := (List.mem_filter.mp ht).1
  kept t m hne ht := List.mem_filter.mpr ⟨ht, by simpa using hne⟩
  keys hkeys := hkeys.sublist (List.filter_sublist.map _)
  nextNumber := le_rfl

theorem confined_enroll (n : Nat) (token : Token) (r : Runner) :
    Confined n token r (r.enroll token n) where
  tasks _ _ := Iff.rfl
  old t m hm ht := by
    rcases List.mem_append.mp ht with hold | hnew
    · exact (List.mem_filter.mp hold).1
    · simp [hm] at hnew
  kept t m hne ht := List.mem_append_left _ (List.mem_filter.mpr ⟨ht, by simpa using hne⟩)
  keys := keys_enroll
  nextNumber := le_rfl

theorem confined_release (n : Nat) (token : Token) (wait : Nat) (r : Runner) :
    Confined n token r (r.release n wait) := by
  refine (confined_move n token (.ready wait) r).trans ?_
  unfold release queue
  split
  · exact .refl ..
  · exact { Confined.refl n token (r.move n (.ready wait)) with }

theorem confined_interrupt (n : Nat) (token : Token) (r : Runner) :
    Confined n token r (r.interrupt n) :=
  { Confined.refl n token r with tasks := fun k hk => by simp [interrupt, hk] }

theorem Moves.confined (hmove : Moves n a r a' r') (h : a.Fits n r) :
    Confined n a.token r r' := by
  cases hmove with
  | mark | poll | pend => exact .refl n a.token r
  | enroll => exact confined_enroll n a.token r
  | release => exact confined_release n a.token a.job.wait r
  | wake hk hstage wait => exact confined_release n a.token wait r
  | abort | drop => exact confined_interrupt n a.token r
  | call hk =>
      obtain ⟨-, rfl⟩ := task?_some hk
      unfold Runner.call
      split
      · exact confined_move ..
      · exact confined_move ..
      · exact .refl ..
  | @forget k hk =>
      obtain ⟨-, rfl⟩ := task?_some hk
      have htoken : k.token = a.token := congrArg Errand.token (h.owns hk).errand.symm
      rw [Runner.forget, htoken]
      exact (confined_erase _ _ r).trans (confined_move ..)
  | finish hk =>
      obtain ⟨-, rfl⟩ := task?_some hk
      exact { Confined.refl _ a.token r with tasks := fun l hl => by simp [Runner.finish, hl] }

/-- An account that is not touched. -/
theorem Account.Fits.confined {b : Account} {token : Token} (h : b.Fits m r)
    (hconfined : Confined n token r r') (hm : m ≠ n) : b.Fits m r' where
  sound := h.sound
  covers :=
    { own := fun k hk hkm => h.covers.own k ((hconfined.tasks k (hkm ▸ hm)).mp hk) hkm
      live := fun hlive => by
        obtain ⟨k, hk, hkm⟩ := h.covers.live hlive
        exact ⟨k, (hconfined.tasks k (hkm ▸ hm)).mpr hk, hkm⟩ }
  lists :=
    { token := fun t ht => h.lists.token t (hconfined.old t m hm ht)
      entered := fun t ht => h.lists.entered t (hconfined.old t m hm ht)
      kept := fun t ht => h.lists.kept t (hconfined.old t m hm ht) }

end confined

end Statechart.Runner
