import Statechart.Proofs.Service.Settling

/-!
# Exact books

Whatever the order in which starts, stops and tasks go on, the table of a runner holds exactly the
handles that have been put in and not been taken out, by a stop or by their own tasks, as long as no
two starts are under one token. Every task sends its completion once, unless a stop has ended it
before its service returned.
-/
namespace Statechart.Runner

namespace Shared

variable {s s' : Shared} {n m : Nat} {a a' b : Account} {r' : Runner} {token : Token}

/-- The accounts agree with the runner, and there are no tasks and no entries without one. -/
structure Agrees (s : Shared) : Prop where
  fits : ∀ n a, s.accounts n = some a → a.Fits n s.runner
  tasks : ∀ k ∈ s.runner.tasks, s.accounts k.number ≠ none
  entries : ∀ t n, (t, n) ∈ s.runner.table → s.accounts n ≠ none
  fresh : ∀ n, s.runner.nextNumber ≤ n → s.accounts n = none
  keys : (s.runner.table.map (·.1)).Nodup

theorem Agrees.lt (h : s.Agrees) (ha : s.accounts n = some a) : n < s.runner.nextNumber := by
  by_contra hn
  rw [h.fresh n (Nat.le_of_not_lt hn)] at ha
  cases ha

/-- One account changes, and the runner with it. -/
theorem Agrees.put (h : s.Agrees) (hconfined : Confined n token s.runner r')
    (hn : n < r'.nextNumber) (hfits : a'.Fits n r') : (s.put n a' r').Agrees where
  fits m b hb := by
    rw [accounts_put] at hb
    split at hb
    · next hm =>
        cases hb
        exact hm ▸ hfits
    · next hm => exact (h.fits m b hb).confined hconfined hm
  tasks k hk := by
    rw [accounts_put]
    split
    · exact Option.some_ne_none a'
    · next hm => exact h.tasks k ((hconfined.tasks k hm).mp hk)
  entries t m ht := by
    rw [accounts_put]
    split
    · exact Option.some_ne_none a'
    · next hm => exact h.entries t m (hconfined.old t m hm ht)
  fresh m hm := by
    rw [accounts_put, if_neg (hn.trans_le hm).ne']
    exact h.fresh m (hconfined.nextNumber.trans hm)
  keys := hconfined.keys h.keys

theorem confined_create {owner : Nat} {job : Job} {r : Runner} :
    Confined r.nextNumber token r (r.create owner token job) where
  tasks k hk := by
    simp only [create, List.mem_append, List.mem_singleton, or_iff_left_iff_imp]
    rintro rfl
    exact absurd rfl hk
  old _ _ _ := id
  kept _ _ _ := id
  keys := id
  nextNumber := Nat.le_succ _

/-- A task that has just been created. -/
theorem Agrees.fits_create (h : s.Agrees) {owner : Nat} {job : Job} :
    ({ owner, token, job } : Account).Fits s.runner.nextNumber
      (s.runner.create owner token job) := by
  have hnone := h.fresh _ le_rfl
  refine ⟨by constructor <;> simp, ⟨fun k hk hn => ?_, fun _ => ⟨_, List.mem_append_right _
    (List.mem_singleton_self _), rfl⟩⟩, .none fun t ht => h.entries t _ ht hnone⟩
  rcases List.mem_append.mp hk with hold | hnew
  · exact absurd (hn ▸ hnone) (h.tasks k hold)
  · obtain rfl := List.mem_singleton.mp hnew
    exact ⟨rfl, ⟨rfl, rfl⟩, Bool.false_ne_true⟩

theorem mem_of_lookup {table : List (Token × Nat)} (h : table.lookup token = some n) :
    (token, n) ∈ table := by
  obtain ⟨before, after, rfl, _⟩ := List.lookup_eq_some_iff.mp h
  exact List.mem_append_right _ List.mem_cons_self

theorem Agrees.token_of_lookup (h : s.Agrees) (hlookup : s.runner.table.lookup token = some n)
    (ha : s.accounts n = some a) : token = a.token :=
  (h.fits n a ha).lists.token token (mem_of_lookup hlookup)

/-- A handle that a stop takes out. -/
theorem Agrees.fits_take (h : s.Agrees) (hlookup : s.runner.table.lookup token = some n)
    (ha : s.accounts n = some a) :
    ({ a with taken := true } : Account).Fits n (s.runner.erase token) := by
  have hfits := h.fits n a ha
  have hmem := mem_of_lookup hlookup
  rw [h.token_of_lookup hlookup ha]
  exact ⟨{ hfits.sound with
      taken := fun _ => hfits.lists.entered token hmem, aborted := fun _ => rfl },
    hfits.covers.same rfl Iff.rfl fun _ h => h, .none hfits.lists.not_mem_erase⟩

theorem Step.agrees (hstep : Step s s') (h : s.Agrees) : s'.Agrees := by
  cases hstep with
  | create => exact h.put confined_create (Nat.lt_succ_self _) h.fits_create
  | @take token n a hlookup ha =>
      exact h.put (confined_erase n token s.runner) (h.lt ha) (h.fits_take hlookup ha)
  | go hgoes =>
      obtain ⟨ha, hmove⟩ := hgoes
      have hfits := h.fits _ _ ha
      have hconfined := hmove.confined hfits
      exact h.put hconfined ((h.lt ha).trans_le hconfined.nextNumber) (hmove.fits hfits)
  | aside =>
      exact ⟨fun n a ha => ⟨(h.fits n a ha).sound, (h.fits n a ha).covers, (h.fits n a ha).lists⟩,
        h.tasks, h.entries, h.fresh, h.keys⟩

theorem agrees_new (services : Services) : (new services).Agrees where
  fits n a ha := by cases ha
  tasks k hk := by cases hk
  entries t n ht := by cases ht
  fresh _ _ := rfl
  keys := List.nodup_nil

theorem Runs.agrees (hruns : Runs s s') (h : s.Agrees) : s'.Agrees := by
  induction hruns with
  | refl => exact h
  | tail _ hstep ih => exact hstep.agrees ih

/-- What a step does to an account: nothing, or it is a step about that task. -/
theorem Step.account (hstep : Step s s') (h : s.Agrees) (ha : s.accounts n = some a) :
    s'.accounts n = some a ∨ s'.accounts n = some { a with taken := true } ∨
      ∃ a', s'.accounts n = some a' ∧ Moves n a s.runner a' s'.runner := by
  cases hstep with
  | create => exact .inl (by rw [accounts_put, if_neg (h.lt ha).ne, ha])
  | aside => exact .inl ha
  | @take _ m c _ hc =>
      by_cases hn : n = m
      · subst hn
        obtain rfl := Option.some.inj (ha.symm.trans hc)
        exact .inr (.inl accounts_put_self)
      · exact .inl (by rw [accounts_put, if_neg hn, ha])
  | go hgoes =>
      obtain @⟨m, c, c', r', hc, hmove⟩ := hgoes
      by_cases hn : n = m
      · subst hn
        obtain rfl := Option.some.inj (ha.symm.trans hc)
        exact .inr (.inr ⟨c', accounts_put_self, hmove⟩)
      · exact .inl (by rw [accounts_put, if_neg hn, ha])

theorem Step.before (hstep : Step s s') (h : s.Agrees) (ha : s.accounts n = some a) :
    ∃ a', s'.accounts n = some a' ∧ a.Before a' := by
  obtain hsame | htaken | ⟨a', ha', hmove⟩ := hstep.account h ha
  · exact ⟨a, hsame, .refl a⟩
  · exact ⟨_, htaken, { Account.Before.refl a with }⟩
  · exact ⟨a', ha', hmove.before⟩

theorem Runs.before (hruns : Runs s s') (h : s.Agrees) (ha : s.accounts n = some a) :
    ∃ a', s'.accounts n = some a' ∧ a.Before a' := by
  induction hruns with
  | refl => exact ⟨a, ha, .refl a⟩
  | tail hruns hstep ih =>
      obtain ⟨b, hb, hbefore⟩ := ih
      obtain ⟨a', ha', hstep⟩ := hstep.before (Runs.agrees hruns h) hb
      exact ⟨a', ha', hbefore.trans hstep⟩

/-- No two starts are under one token. -/
def Distinct (s : Shared) : Prop :=
  ∀ m n a b, s.accounts m = some a → s.accounts n = some b → a.token = b.token → m = n

/-- Every handle that has been put into the table and not been taken out is there. -/
def Complete (s : Shared) : Prop := ∀ n a, s.accounts n = some a → a.Listed n s.runner.table

theorem Step.distinct (hstep : Step s s') (h : s.Agrees) (hdistinct : s'.Distinct) :
    s.Distinct := by
  intro m n a b ha hb htoken
  obtain ⟨a', ha', hbefore⟩ := hstep.before h ha
  obtain ⟨b', hb', hbefore'⟩ := hstep.before h hb
  refine hdistinct m n a' b' ha' hb' ?_
  rw [hbefore.errand, hbefore'.errand, htoken]

theorem Complete.put (h : s.Complete) (hconfined : Confined n a'.token s.runner r')
    (hdistinct : (s.put n a' r').Distinct) (hlisted : a'.Listed n r'.table) :
    (s.put n a' r').Complete := by
  intro m b hb
  by_cases hm : m = n
  · subst hm
    obtain rfl := Option.some.inj (accounts_put_self.symm.trans hb)
    exact hlisted
  · intro hentered htaken hforgotten
    have hne : b.token ≠ a'.token := fun htoken =>
      hm (hdistinct m n b a' hb accounts_put_self htoken)
    rw [accounts_put, if_neg hm] at hb
    exact hconfined.kept _ m hne (h m b hb hentered htaken hforgotten)

theorem Step.complete (hstep : Step s s') (h : s.Agrees) (hdistinct : s'.Distinct)
    (hcomplete : s.Complete) : s'.Complete := by
  cases hstep with
  | create => exact hcomplete.put confined_create hdistinct fun h => by cases h
  | take hlookup ha =>
      rw [h.token_of_lookup hlookup ha] at hdistinct ⊢
      exact hcomplete.put (confined_erase ..) hdistinct fun _ htaken => absurd rfl htaken
  | go hgoes =>
      obtain ⟨ha, hmove⟩ := hgoes
      have hconfined := hmove.confined (h.fits _ _ ha)
      rw [← congrArg Errand.token hmove.before.errand] at hconfined
      exact hcomplete.put hconfined hdistinct (hmove.listed (hcomplete _ _ ha))
  | aside => exact hcomplete

theorem Runs.complete (hruns : Runs s s') (h : s.Agrees) (hcomplete : s.Complete)
    (hdistinct : s'.Distinct) : s'.Complete := by
  induction hruns with
  | refl => exact hcomplete
  | tail hruns hstep ih =>
      have hagrees := Runs.agrees hruns h
      exact hstep.complete hagrees hdistinct (ih (hstep.distinct hagrees hdistinct))

/-- All calls have come to their ends, and all tasks have. -/
structure AtRest (s : Shared) : Prop where
  tasks : s.runner.tasks = []
  calls : ∀ n a, s.accounts n = some a → a.released ∧ (a.taken → a.aborted)

/-- A run of what is in progress. -/
abbrev GoesOn : Shared → Shared → Prop := Relation.ReflTransGen Goes

theorem GoesOn.runs (hgoes : GoesOn s s') : Runs s s' := hgoes.lift id fun _ _ => Step.go

theorem goesOn_put (ha : s.accounts n = some a) (hcourse : Course n a s.runner a' r') :
    GoesOn s (s.put n a' r') := by
  induction hcourse with
  | refl =>
      have hself : s.put n a s.runner = s := by
        rw [put, ← ha, Function.update_eq_self]
      rw [hself]
  | tail _ hmove ih =>
      have hgoes := Goes.move (s := s.put n _ _) accounts_put_self hmove
      rw [put_put] at hgoes
      exact ih.tail hgoes

/-- The first tasks come to their ends one by one, and the others stay as they are. -/
theorem Agrees.exists_goesOn (h : s.Agrees) (count : Nat) : ∃ s', GoesOn s s' ∧
    (∀ n a, n < count → s'.accounts n = some a → a.left = 0) ∧
      ∀ n, count ≤ n → s'.accounts n = s.accounts n := by
  induction count with
  | zero => exact ⟨s, .refl, fun _ _ hn => absurd hn (Nat.not_lt_zero _), fun _ _ => rfl⟩
  | succ count ih =>
      obtain ⟨s₁, hgoes, hended, hsame⟩ := ih
      cases ha : s₁.accounts count with
      | none =>
          refine ⟨s₁, hgoes, fun n a hn hna => ?_, fun n hn => hsame n (Nat.le_of_succ_le hn)⟩
          rcases Nat.lt_succ_iff_lt_or_eq.mp hn with hlt | rfl
          · exact hended n a hlt hna
          · rw [ha] at hna
            cases hna
      | some a =>
          obtain ⟨a', r', hcourse, hleft⟩ := ((hgoes.runs.agrees h).fits count a ha).settles
          refine ⟨s₁.put count a' r', hgoes.trans (goesOn_put ha hcourse), fun n b hn hb => ?_,
            fun n hn => ?_⟩
          · rw [accounts_put] at hb
            split at hb
            · cases hb
              exact hleft
            · next hne => exact hended n b (Nat.lt_of_le_of_ne (Nat.le_of_lt_succ hn) hne) hb
          · rw [accounts_put, if_neg (Nat.lt_of_succ_le hn).ne']
            exact hsame n (Nat.le_of_succ_le hn)

theorem Agrees.exists_atRest (h : s.Agrees) : ∃ s', GoesOn s s' ∧ s'.AtRest := by
  obtain ⟨s', hgoes, hended, hsame⟩ := h.exists_goesOn s.runner.nextNumber
  have hagrees := hgoes.runs.agrees h
  have hleft (n : Nat) (a : Account) (ha : s'.accounts n = some a) : a.left = 0 := by
    by_cases hn : n < s.runner.nextNumber
    · exact hended n a hn ha
    · rw [hsame n (Nat.le_of_not_lt hn), h.fresh n (Nat.le_of_not_lt hn)] at ha
      cases ha
  refine ⟨s', hgoes, List.eq_nil_iff_forall_not_mem.mpr fun k hk => ?_, fun n a ha => ?_⟩
  · obtain ⟨a, ha⟩ := Option.ne_none_iff_exists'.mp (hagrees.tasks k hk)
    have hlive := ((hagrees.fits _ a ha).covers.own k hk rfl).live
    obtain ⟨-, -, -, hdropped | ⟨-, -, hreports⟩⟩ := Account.left_eq_zero.mp (hleft _ a ha)
    · simp [hlive.1] at hdropped
    · exact hreports hlive.2
  · obtain ⟨-, hreleased, hstop, -⟩ := Account.left_eq_zero.mp (hleft n a ha)
    exact ⟨hreleased, hstop⟩

/-- In an endless run the start of a task comes to its end, the service of a task that has been let
go returns unless the task is dropped, and every poll of the task is over some time. -/
structure Fair (n : Nat) (run : Nat → Shared) : Prop where
  started : ∀ i a, (run i).accounts n = some a →
    ∃ j b, i ≤ j ∧ (run j).accounts n = some b ∧ b.released
  returns : ∀ i a, (run i).accounts n = some a → a.released →
    ∃ j b, i ≤ j ∧ (run j).accounts n = some b ∧ (b.returned ∨ b.dropped)
  polls : ∀ i a, (run i).accounts n = some a → a.polled →
    ∃ j b, i ≤ j ∧ (run j).accounts n = some b ∧ ¬ b.polled

/-- What the table and the completions of a runner are, and what comes of its tasks. -/
structure Books (s : Shared) : Prop where
  /-- The table holds the handles that starts have put in and that neither stops nor the tasks
  themselves have taken out. -/
  table (t : Token) (n : Nat) : (t, n) ∈ s.runner.table ↔
    ∃ a, s.accounts n = some a ∧ a.token = t ∧ a.entered ∧ ¬ a.taken ∧ ¬ a.forgotten
  /-- It has one entry for each token. -/
  keys : (s.runner.table.map (·.1)).Nodup
  /-- No task sends more than one completion, which is its own. -/
  once (n : Nat) (a : Account) : s.accounts n = some a →
    a.reports = [] ∨ a.reports = [a.report]
  /-- A task that is over and has not been stopped has sent its completion. -/
  answered (n : Nat) (a : Account) : s.accounts n = some a → ¬ a.taken →
    s.runner.task? n = none → a.reports = [a.report]
  /-- When a completion is sent, there is no entry of its token. -/
  gone (n : Nat) (a a' : Account) (s' : Shared) : s.accounts n = some a → Step s s' →
    s'.accounts n = some a' → a'.reports ≠ a.reports →
      ∀ m, (a.token, m) ∉ s.runner.table ∧ (a.token, m) ∉ s'.runner.table
  /-- A stop has taken effect when it has aborted the task and no poll is in progress. If the
  service has not returned then, no completion is ever sent. -/
  stopped (n : Nat) (a : Account) : s.accounts n = some a → a.aborted → ¬ a.polled →
    ¬ a.returned → ∀ s', Runs s s' → ∃ a', s'.accounts n = some a' ∧ a'.reports = []
  /-- When all tasks are over or have been stopped, the table is empty. -/
  empty : (∀ n a, s.accounts n = some a → a.taken ∨ s.runner.task? n = none) →
    s.runner.table = []
  /-- All that is in progress can come to its end. -/
  settles : ∃ s', GoesOn s s' ∧ s'.AtRest
  /-- There is an endless run from here that is fair to all tasks. -/
  fair : ∃ run : Nat → Shared, run 0 = s ∧ (∀ i, Step (run i) (run (i + 1))) ∧ ∀ n, Fair n run
  /-- In a run that is fair to it, a task that is never stopped does send its completion. -/
  answers (n : Nat) (a : Account) (run : Nat → Shared) : s.accounts n = some a → run 0 = s →
    (∀ i, Step (run i) (run (i + 1))) → Fair n run →
    (∀ i b, (run i).accounts n = some b → ¬ b.taken) →
      ∃ i, ∀ j, i ≤ j → ∃ b, (run j).accounts n = some b ∧ b.reports = [a.report]

theorem Agrees.once (h : s.Agrees) (ha : s.accounts n = some a) :
    a.reports = [] ∨ a.reports = [a.report] :=
  (h.fits n a ha).sound.reports.imp_right And.left

theorem Agrees.table_iff (h : s.Agrees) (hcomplete : s.Complete) :
    (token, n) ∈ s.runner.table ↔
      ∃ a, s.accounts n = some a ∧ a.token = token ∧ a.entered ∧ ¬ a.taken ∧ ¬ a.forgotten := by
  constructor
  · intro ht
    obtain ⟨a, ha⟩ := Option.ne_none_iff_exists'.mp (h.entries token n ht)
    have hlists := (h.fits n a ha).lists
    exact ⟨a, ha, (hlists.token token ht).symm, hlists.entered token ht, hlists.kept token ht⟩
  · rintro ⟨a, ha, rfl, hentered, htaken, hforgotten⟩
    exact hcomplete n a ha hentered htaken hforgotten

/-- A step that sends a completion of a task comes after its entry has been taken out. -/
theorem Step.reports (hstep : Step s s') (h : s.Agrees) (ha : s.accounts n = some a)
    (ha' : s'.accounts n = some a') (hne : a'.reports ≠ a.reports) :
    a.forgotten ∧ s'.runner.table = s.runner.table := by
  obtain hsame | htaken | ⟨b, hb, hmove⟩ := hstep.account h ha
  · cases hsame.symm.trans ha'
    exact absurd rfl hne
  · cases htaken.symm.trans ha'
    exact absurd rfl hne
  · cases hb.symm.trans ha'
    exact hmove.reports (h.fits n a ha) hne

theorem runs_of_steps {run : Nat → Shared} (hrun : ∀ i, Step (run i) (run (i + 1))) {i j : Nat}
    (hij : i ≤ j) : Runs (run i) (run j) := by
  induction j, hij using Nat.le_induction with
  | base => exact .refl
  | succ j _ ih => exact ih.tail (hrun j)

/-- Every run goes on without end. -/
theorem Runs.exists_endless (hruns : Runs s s') : ∃ run : Nat → Shared, run 0 = s ∧
    (∀ i, Step (run i) (run (i + 1))) ∧ ∃ count, ∀ i, count ≤ i → run i = s' := by
  induction hruns using Relation.ReflTransGen.head_induction_on with
  | refl =>
      refine ⟨fun _ => s', rfl, fun _ => ?_, 0, fun _ _ => rfl⟩
      exact .aside s'.runner.services s'.runner.available s'.runner.now s'.runner.turns
  | @head s t hstep _ ih =>
      obtain ⟨run, hfirst, hrun, count, hlast⟩ := ih
      refine ⟨fun i => i.casesOn s run, rfl, fun i => ?_, count + 1, fun i hi => ?_⟩
      · cases i with
        | zero =>
            rw [← hfirst] at hstep
            exact hstep
        | succ i => exact hrun i
      · cases i with
        | zero => cases hi
        | succ i => exact hlast i (Nat.le_of_succ_le_succ hi)

/-- From every state there is a run that is fair to all tasks. -/
theorem Agrees.exists_fair (h : s.Agrees) : ∃ run : Nat → Shared, run 0 = s ∧
    (∀ i, Step (run i) (run (i + 1))) ∧ ∀ n, Fair n run := by
  obtain ⟨s', hgoes, hrest⟩ := h.exists_atRest
  obtain ⟨run, rfl, hrun, count, hlast⟩ := hgoes.runs.exists_endless
  have hagrees := hgoes.runs.agrees h
  have hover (n : Nat) : s'.runner.task? n = none := by simp [task?, hrest.tasks]
  -- What holds of an account at rest holds of it some time from any moment on.
  have hends {n : Nat} {p : Account → Prop} (hp : ∀ b, s'.accounts n = some b → p b) (i : Nat)
      (a : Account) (ha : (run i).accounts n = some a) :
      ∃ j b, i ≤ j ∧ (run j).accounts n = some b ∧ p b := by
    have hi := (runs_of_steps hrun (Nat.zero_le i)).agrees h
    have hle := Nat.le_max_left i count
    obtain ⟨b, hb, -⟩ := (runs_of_steps hrun hle).before hi ha
    refine ⟨_, b, hle, hb, hp b ?_⟩
    rwa [hlast _ (Nat.le_max_right i count)] at hb
  refine ⟨run, rfl, hrun, fun n => ⟨hends fun b hb => ?_,
    fun i a ha _ => hends (fun b hb => ?_) i a ha, fun i a ha _ => hends (fun b hb => ?_) i a ha⟩⟩
  · exact (hrest.calls n b hb).1
  · have hfits := hagrees.fits n b hb
    exact (hfits.over (hover n)).symm.imp_left fun hsent => hfits.sound.forgotten hsent.1
  · intro hpolled
    have hfits := hagrees.fits n b hb
    obtain ⟨k, hk⟩ := hfits.exists_task (hfits.sound.polled hpolled)
    rw [hover n] at hk
    cases hk

/-- What is in progress about a task that is never stopped leads to its completion: its start lets
it go, its service returns, and when the poll in which it returns is over the completion is sent. -/
theorem Fair.answers {run : Nat → Shared} (hfair : Fair n run)
    (hrun : ∀ i, Step (run i) (run (i + 1))) (h : (run 0).Agrees)
    (ha : (run 0).accounts n = some a)
    (hnever : ∀ i b, (run i).accounts n = some b → ¬ b.taken) :
    ∃ i, ∀ j, i ≤ j → ∃ b, (run j).accounts n = some b ∧ b.reports = [a.report] := by
  have hagrees (i : Nat) : (run i).Agrees := (runs_of_steps hrun (Nat.zero_le i)).agrees h
  have hlater {i j : Nat} (hij : i ≤ j) {b : Account} (hb : (run i).accounts n = some b) :
      ∃ c, (run j).accounts n = some c ∧ b.Before c :=
    (runs_of_steps hrun hij).before (hagrees i) hb
  obtain ⟨i₁, a₁, -, ha₁, hreleased⟩ := hfair.started 0 a ha
  obtain ⟨i₂, a₂, -, ha₂, hreturned⟩ := hfair.returns i₁ a₁ ha₁ hreleased
  have hsound := ((hagrees i₂).fits n a₂ ha₂).sound
  have hreturned : a₂.returned := hreturned.resolve_right fun hdropped =>
    hnever i₂ a₂ ha₂ (hsound.taken_of_dropped hdropped)
  obtain ⟨i₃, a₃, ha₃, hreturned₃, hpolled₃⟩ :
      ∃ i b, (run i).accounts n = some b ∧ b.returned ∧ ¬ b.polled := by
    by_cases hpolled : a₂.polled
    · obtain ⟨i₃, a₃, hle, ha₃, hpolled₃⟩ := hfair.polls i₂ a₂ ha₂ hpolled
      obtain ⟨b, hb, hbefore⟩ := hlater hle ha₂
      obtain rfl := Option.some.inj (hb.symm.trans ha₃)
      exact ⟨i₃, b, hb, hbefore.returned hreturned, hpolled₃⟩
    · exact ⟨i₂, a₂, ha₂, hreturned, hpolled⟩
  have hsent := ((hagrees i₃).fits n a₃ ha₃).sound.unpolled hreturned₃ hpolled₃
  refine ⟨i₃, fun j hj => ?_⟩
  obtain ⟨b, hb, hbefore⟩ := hlater hj ha₃
  obtain ⟨c, hc, hsame⟩ := hlater (Nat.zero_le j) ha
  obtain rfl := Option.some.inj (hb.symm.trans hc)
  refine ⟨b, hb, ?_⟩
  rw [← hsame.errand]
  refine ((hagrees j).once hb).resolve_left fun hnone => hsent ?_
  exact List.prefix_nil.mp (hnone ▸ hbefore.reports)

/-- A runner keeps exact books, in whatever order starts, stops and tasks go on, if no two starts
are under one token. -/
theorem runs_books {services : Services} (hruns : Runs (new services) s) (hdistinct : s.Distinct) :
    Books s := by
  have h : s.Agrees := hruns.agrees (agrees_new services)
  have hcomplete : s.Complete :=
    hruns.complete (agrees_new services) (fun _ _ ha => by cases ha) hdistinct
  refine
    { table := fun t n => h.table_iff hcomplete
      keys := h.keys
      once := fun n a ha => h.once ha
      answered := fun n a ha htaken hover => ?_
      gone := fun n a a' s' ha hstep ha' hne => ?_
      stopped := fun n a ha haborted hpolled hreturned s' hruns' => ?_
      empty := fun hover => ?_
      settles := h.exists_atRest
      fair := h.exists_fair
      answers := fun n a run ha hfirst hrun hfair hnever => ?_ }
  · have hfits := h.fits n a ha
    exact ((hfits.over hover).resolve_left fun hdropped =>
      htaken (hfits.sound.taken_of_dropped hdropped)).2
  · obtain ⟨hforgotten, hsame⟩ := hstep.reports h ha ha' hne
    have hnone (m : Nat) : (a.token, m) ∉ s.runner.table := fun hmem => by
      obtain ⟨b, hb, htoken, -, -, hkept⟩ := (h.table_iff hcomplete).mp hmem
      obtain rfl := hdistinct m n b a hb ha htoken
      obtain rfl := Option.some.inj (hb.symm.trans ha)
      exact hkept hforgotten
    exact fun m => ⟨hnone m, hsame ▸ hnone m⟩
  · have hdropped := (h.fits n a ha).sound.effect haborted hpolled hreturned
    obtain ⟨a', ha', hbefore⟩ := hruns'.before h ha
    have hsound := ((hruns'.agrees h).fits n a' ha').sound
    refine ⟨a', ha', hsound.reports.resolve_right fun hsent => ?_⟩
    exact (hsound.dropped (hbefore.dropped hdropped)).2 (hsound.forgotten hsent.2)
  · refine List.eq_nil_iff_forall_not_mem.mpr fun ⟨t, n⟩ hmem => ?_
    obtain ⟨a, ha, -, -, htaken, hforgotten⟩ := (h.table_iff hcomplete).mp hmem
    have hfits := h.fits n a ha
    obtain hdropped | hsent := hfits.over ((hover n a ha).resolve_left htaken)
    · exact htaken (hfits.sound.taken_of_dropped hdropped)
    · exact hforgotten hsent.1
  · subst hfirst
    exact hfair.answers hrun h ha hnever

/-- A request without input, under the first token of a service. -/
def plainRequest (src : String) : InvokeRequest := ⟨⟨src, 0⟩, "m", src, .null⟩

theorem runs_books_builtin :
    ∃ s, Runs (new (.builtin 5)) s ∧ s.Distinct ∧ Books s := by
  have hecho := runs_start (s := new (.builtin 5)) 0 (plainRequest "echo") .echo rfl rfl
  have hturn := hecho.trans (runs_turn accounts_put_self Bool.false_ne_true rfl rfl)
  have hdelay := hturn.trans (runs_start 0 (plainRequest "delay") (.delay 5) rfl rfl)
  have hsleeps := hdelay.trans (runs_turn_of_not_ready accounts_put_self Bool.false_ne_true
    Bool.false_ne_true rfl ⟨nofun, nofun⟩ nofun)
  have hstop := hsleeps.trans (runs_stop ⟨"delay", 0⟩ rfl accounts_put_self Bool.false_ne_true
    Bool.false_ne_true)
  generalize hs : put _ _ _ _ = s at hstop
  have haccounts (m : Nat) (a : Account) (ha : s.accounts m = some a) :
      m = 1 ∧ a.token = ⟨"delay", 0⟩ ∨ m = 0 ∧ a.token = ⟨"echo", 0⟩ := by
    subst hs
    rw [put_put, put_put, put_put, accounts_put, accounts_put] at ha
    split_ifs at ha with hlast hfirst
    · cases ha
      exact .inl ⟨hlast, rfl⟩
    · cases ha
      exact .inr ⟨hfirst, rfl⟩
    · cases ha
  have hdistinct : s.Distinct := by
    intro m n a b ha hb heq
    rcases haccounts m a ha with ⟨rfl, hm⟩ | ⟨rfl, hm⟩ <;>
      rcases haccounts n b hb with ⟨rfl, hn⟩ | ⟨rfl, hn⟩ <;> simp_all
  exact ⟨s, hstop, hdistinct, runs_books hstop hdistinct⟩

end Shared

end Statechart.Runner
