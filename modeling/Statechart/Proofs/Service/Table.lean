import Mathlib.Tactic
import Statechart.Service.Runner

/-!
# The table of a runner

The table of a runner names, for a token, the task that is to be stopped under it. A start, a stop
and the end of a task each take out the entry of their token, whichever task it names and whoever
waits for it; nothing else changes the table. A task is ended early only through its entry.
-/
namespace Statechart

/-- A task that takes its next turn or sleeps. -/
def Stage.Waits : Stage → Prop
  | ready _ | sleeping _ => True
  | created | returned | forgotten => False

/-- The service of the task has not returned. -/
def Stage.Open (stage : Stage) : Prop := stage ≠ .returned ∧ stage ≠ .forgotten

theorem Stage.Waits.open {stage : Stage} (h : stage.Waits) : stage.Open := by
  cases stage <;> simp_all [Stage.Waits, Stage.Open]

/-- What stays the same of a task. -/
structure Task.Identity where
  number : Nat
  owner : Nat
  token : Token
  deriving DecidableEq

def Task.identity (k : Task) : Task.Identity := ⟨k.number, k.owner, k.token⟩

namespace Runner

/-- The unfinished tasks in the order of their creation, without their stages. -/
def roster (r : Runner) : List Task.Identity := r.tasks.map Task.identity

/-- A runner between two calls: tasks have numbers of their own and wait, and every entry of the
table names a task of its token. -/
structure Tidy (r : Runner) : Prop where
  numbers : (r.roster.map (·.number)).Nodup
  below : ∀ k ∈ r.roster, k.number < r.nextNumber
  waiting : ∀ k ∈ r.tasks, k.stage.Waits
  keys : (r.table.map (·.1)).Nodup
  entries : ∀ t n, (t, n) ∈ r.table → ∃ k ∈ r.roster, k.number = n ∧ k.token = t

/-- An effect takes the entry of a token out of the table: a stop under the token, or a start
under it that is not refused. -/
def Hits (r : Runner) (t : Token) : Effect → Prop
  | .revoked u => u = t
  | .invoked request => request.token = t ∧ r.refusal request = none
  | .logged _ | .notified _ => False

/-- Carries out one call of an owner. -/
def serveOne (owner : Nat) (r : Runner) : Effect → Runner
  | .invoked request => r.start owner request
  | .revoked t => r.stop t
  | .logged _ | .notified _ => r

/-- Carries out the calls of an owner in order. -/
def serve (owner : Nat) (effects : List Effect) (r : Runner) : Runner :=
  effects.foldl (serveOne owner) r

variable {r r' : Runner} {t u : Token} {n owner : Nat} {request : InvokeRequest}
  {k l : Task.Identity}

theorem Tidy.eq_of_number (hr : r.Tidy) (hk : k ∈ r.roster) (hl : l ∈ r.roster)
    (h : k.number = l.number) : k = l :=
  List.inj_on_of_nodup_map hr.numbers hk hl h

/-- The tokens of two entries for one task are the same. -/
theorem Tidy.token_eq (hr : r.Tidy) (h : (t, n) ∈ r.table) (hk : k ∈ r.roster)
    (hn : k.number = n) : k.token = t := by
  obtain ⟨l, hl, hln, hlt⟩ := hr.entries t n h
  rw [hr.eq_of_number hk hl (hn.trans hln.symm), hlt]

theorem Tidy.lookup_iff (hr : r.Tidy) : r.table.lookup t = some n ↔ (t, n) ∈ r.table := by
  have hkeys := hr.keys
  generalize r.table = table at hkeys
  induction table with
  | nil => simp
  | cons entry rest ih =>
      obtain ⟨u, m⟩ := entry
      rw [List.map_cons, List.nodup_cons] at hkeys
      rw [List.lookup_cons, List.mem_cons]
      by_cases htu : t = u
      · subst htu
        have hnot : (t, n) ∉ rest := fun hmem => hkeys.1 (List.mem_map.mpr ⟨_, hmem, rfl⟩)
        simp [hnot, eq_comm]
      · have hbeq : (t == u) = false := by simpa using htu
        rw [hbeq]
        simp [htu, ih hkeys.2]

theorem lookup_eq_none : ∀ {table : List (Token × Nat)}, table.lookup t = none →
    ∀ n, (t, n) ∉ table
  | [], _, _ => by simp
  | (u, m) :: rest, h, n => by
      rw [List.lookup_cons] at h
      by_cases htu : t = u
      · simp [htu] at h
      · have hbeq : (t == u) = false := by simpa using htu
        rw [hbeq] at h
        simpa [htu] using lookup_eq_none h n

@[simp] theorem roster_move (stage : Stage) : (r.move n stage).roster = r.roster := by
  simp only [roster, move, List.map_map]
  refine List.map_congr_left fun k _ => ?_
  simp only [Function.comp_apply]
  split <;> rfl

theorem waiting_move {stage : Stage} (hstage : stage.Waits) (h : ∀ k ∈ r.tasks, k.stage.Waits) :
    ∀ k ∈ (r.move n stage).tasks, k.stage.Waits := by
  intro k hk
  obtain ⟨l, hl, rfl⟩ := List.mem_map.mp hk
  split
  · exact hstage
  · exact h l hl

/-- A task that is moved is left out by its number as before. -/
theorem filter_move (stage : Stage) :
    (r.move n stage).tasks.filter (fun k => k.number ≠ n) =
      r.tasks.filter fun k => k.number ≠ n := by
  simp only [move]
  induction r.tasks with
  | nil => rfl
  | cons k rest ih =>
      rw [List.map_cons, List.filter_cons, List.filter_cons, ih]
      by_cases hk : k.number = n <;> simp [hk]

@[simp] theorem erase_tasks : (r.erase u).tasks = r.tasks := rfl

/-- A handle that is put into the table is the only one of its token. -/
theorem keys_enroll (hkeys : (r.table.map (·.1)).Nodup) :
    ((r.enroll t n).table.map (·.1)).Nodup := by
  rw [enroll, List.map_append, List.nodup_append]
  refine ⟨hkeys.sublist (List.filter_sublist.map _), by simp, fun a ha b hb => ?_⟩
  obtain ⟨e, he, rfl⟩ := List.mem_map.mp ha
  simp only [List.map_cons, List.map_nil, List.mem_singleton] at hb
  have hne := (List.mem_filter.mp he).2
  simpa [hb] using hne

@[simp] theorem queue_tasks (turn : Turn) : (r.queue turn).tasks = r.tasks := by
  unfold queue
  split <;> rfl

@[simp] theorem queue_table (turn : Turn) : (r.queue turn).table = r.table := by
  unfold queue
  split <;> rfl

@[simp] theorem queue_nextNumber (turn : Turn) : (r.queue turn).nextNumber = r.nextNumber := by
  unfold queue
  split <;> rfl

@[simp] theorem queue_refusal (turn : Turn) : (r.queue turn).refusal = r.refusal := by
  unfold queue
  split <;> rfl

/-- The task that a start would create. -/
def next (r : Runner) (owner : Nat) (t : Token) : Task.Identity := ⟨r.nextNumber, owner, t⟩

/-- A start is refused, or it adds a task and enters it under its token. -/
structure Started (owner : Nat) (t : Token) (r r' : Runner) : Prop where
  roster : r'.roster = r.roster ++ [r.next owner t]
  table : r'.table = r.table.filter (fun e => e.1 ≠ t) ++ [(t, r.nextNumber)]
  nextNumber : r'.nextNumber = r.nextNumber + 1
  refusal : r'.refusal = r.refusal
  waiting : (∀ k ∈ r.tasks, k.stage.Waits) → ∀ k ∈ r'.tasks, k.stage.Waits

theorem start_of_refused (h : r.refusal request ≠ none) : r.start owner request = r := by
  unfold start
  unfold refusal Keyed.contains at h
  cases hs : Keyed.get? request.src r.services with
  | none => rfl
  | some service =>
      cases ha : r.available with
      | true => simp [hs, ha] at h
      | false => rfl

theorem start_started (hbelow : ∀ k ∈ r.roster, k.number < r.nextNumber)
    (h : r.refusal request = none) : Started owner request.token r (r.start owner request) := by
  unfold refusal Keyed.contains at h
  cases hs : Keyed.get? request.src r.services with
  | none => simp [hs] at h
  | some service =>
    cases ha : r.available with
    | false => simp [hs, ha] at h
    | true =>
      have hstart : r.start owner request =
          ((r.create owner request.token (service request.input)).enroll request.token
            r.nextNumber).release r.nextNumber (service request.input).wait := by
        simp [start, hs, ha]
      rw [hstart]
      refine ⟨?_, ?_, ?_, ?_, fun hwaiting k hk => ?_⟩
      · have hqueue (q : Runner) (turn : Turn) : (q.queue turn).roster = q.roster := by
          simp [roster]
        rw [release, hqueue, roster_move]
        simp [roster, enroll, create, next, Task.identity]
      · simp [release, enroll, create, move, erase]
      · simp [release, enroll, create, move]
      · simp only [release, queue_refusal]
        rfl
      · simp only [release, queue_tasks, move, enroll, create, List.map_append, List.mem_append,
          List.map_cons, List.map_nil, List.mem_singleton, if_true] at hk
        rcases hk with hk | rfl
        · obtain ⟨l, hl, rfl⟩ := List.mem_map.mp hk
          have hne : l.number ≠ r.nextNumber := (hbelow l.identity (List.mem_map_of_mem hl)).ne
          rw [if_neg hne]
          exact hwaiting l hl
        · trivial

theorem Started.tidy (hr : r.Tidy) (h : Started owner t r r') : r'.Tidy := by
  refine ⟨?_, fun k hk => ?_, h.waiting hr.waiting, ?_, fun u n hmem => ?_⟩
  · rw [h.roster, List.map_append, List.nodup_append]
    refine ⟨hr.numbers, by simp, fun a ha b hb => ?_⟩
    obtain ⟨k, hk, rfl⟩ := List.mem_map.mp ha
    simp only [List.map_cons, List.map_nil, List.mem_singleton, next] at hb
    exact hb ▸ (hr.below k hk).ne
  · rw [h.roster, List.mem_append, List.mem_singleton] at hk
    rw [h.nextNumber]
    rcases hk with hk | rfl
    · exact (hr.below k hk).trans (Nat.lt_succ_self _)
    · exact Nat.lt_succ_self _
  · rw [h.table]
    exact keys_enroll hr.keys
  · rw [h.roster]
    rw [h.table, List.mem_append, List.mem_singleton] at hmem
    rcases hmem with hmem | heq
    · obtain ⟨k, hk, hkn⟩ := hr.entries u n (List.mem_filter.mp hmem).1
      exact ⟨k, List.mem_append_left _ hk, hkn⟩
    · cases heq
      exact ⟨_, List.mem_append_right _ (List.mem_singleton_self _), rfl, rfl⟩

/-- The entry of a token is taken out, and tasks of that token are gone. -/
structure Removed (t : Token) (gone : Nat → Prop) (r r' : Runner) : Prop where
  roster : ∀ k, k ∈ r'.roster ↔ k ∈ r.roster ∧ ¬ gone k.number
  token : ∀ k ∈ r.roster, gone k.number → k.token = t
  sublist : r'.roster.Sublist r.roster
  table : r'.table = r.table.filter fun e => e.1 ≠ t
  nextNumber : r'.nextNumber = r.nextNumber
  refusal : r'.refusal = r.refusal
  waiting : (∀ k ∈ r.tasks, k.stage.Waits) → ∀ k ∈ r'.tasks, k.stage.Waits

theorem Removed.tidy {gone : Nat → Prop} (hr : r.Tidy) (h : Removed t gone r r') : r'.Tidy := by
  refine ⟨hr.numbers.sublist (h.sublist.map _), fun k hk => ?_, h.waiting hr.waiting, ?_,
    fun u n hmem => ?_⟩
  · rw [h.nextNumber]
    exact hr.below k (h.sublist.subset hk)
  · rw [h.table]
    exact hr.keys.sublist (List.filter_sublist.map _)
  · rw [h.table, List.mem_filter] at hmem
    obtain ⟨k, hk, hkn, hkt⟩ := hr.entries u n hmem.1
    refine ⟨k, (h.roster k).mpr ⟨hk, fun hgone => ?_⟩, hkn, hkt⟩
    have hne : u ≠ t := by simpa using hmem.2
    exact hne (hkt.symm.trans (h.token k hk hgone))

theorem interrupt_tasks (h : ∀ k ∈ r.tasks, k.number = n → k.stage.Open) :
    (r.interrupt n).tasks = r.tasks.filter fun k => k.number ≠ n := by
  refine List.filter_congr fun k hk => ?_
  by_cases hn : k.number = n
  · obtain ⟨hreturned, hforgotten⟩ := h k hk hn
    simp [hreturned, hforgotten]
  · simp [hn]

theorem mem_roster_filter {p : Nat → Bool} :
    k ∈ (r.tasks.filter fun l => p l.number).map Task.identity ↔
      k ∈ r.roster ∧ p k.number = true := by
  simp only [roster, List.mem_map, List.mem_filter]
  constructor
  · rintro ⟨l, ⟨hl, hp⟩, rfl⟩
    exact ⟨⟨l, hl, rfl⟩, hp⟩
  · rintro ⟨⟨l, hl, rfl⟩, hp⟩
    exact ⟨l, ⟨hl, hp⟩, rfl⟩

/-- A stop ends the task that the entry of the token names. -/
theorem stop_removed (hr : r.Tidy) : Removed t (fun n => (t, n) ∈ r.table) r (r.stop t) := by
  unfold stop
  cases hlookup : r.table.lookup t with
  | none =>
      have hnone := lookup_eq_none hlookup
      refine ⟨by simp [hnone], by simp [hnone], List.Sublist.refl _, ?_, rfl, rfl, id⟩
      refine (List.filter_eq_self.mpr fun e he => ?_).symm
      simp only [ne_eq, decide_not, Bool.not_eq_true', decide_eq_false_iff_not]
      rintro rfl
      exact hnone e.2 he
  | some n =>
      have hmem := hr.lookup_iff.mp hlookup
      have hopen : ∀ k ∈ (r.erase t).tasks, k.number = n → k.stage.Open :=
        fun k hk _ => (hr.waiting k hk).open
      have hsame : ∀ m, (t, m) ∈ r.table ↔ m = n := fun m => by
        rw [← hr.lookup_iff, hlookup, Option.some.injEq, eq_comm]
      refine ⟨fun k => ?_, fun k hk hgone => hr.token_eq hgone hk rfl, ?_, rfl, rfl, rfl,
        fun h k hk => ?_⟩
      · rw [roster, interrupt_tasks hopen, hsame]
        simpa [roster] using mem_roster_filter (r := r.erase t) (p := fun m => m ≠ n)
      · rw [roster, interrupt_tasks hopen]
        exact List.filter_sublist.map _
      · rw [interrupt_tasks hopen] at hk
        exact h k (List.mem_filter.mp hk).1

theorem task?_some {k : Task} (hk : r.task? n = some k) : k ∈ r.tasks ∧ k.number = n :=
  ⟨List.mem_of_find?_eq_some hk, by simpa using List.find?_some hk⟩

/-- The turn in which a task ends. -/
theorem turn_of_ready {k : Task} (hk : r.task? n = some k) (hready : k.stage = .ready 0) :
    r.turn n = ((((r.call k).forget k).finish k).1, some ⟨k.owner, k.token, k.job.outcome⟩) := by
  simp only [turn, hk, hready, if_true]
  rfl

/-- In any other turn, a task goes on waiting at most. -/
theorem turn_of_not_ready (h : ∀ k, r.task? n = some k → k.stage ≠ .ready 0) :
    (r.turn n).2 = none ∧
      ((r.turn n).1 = r ∨ ∃ m due, (r.turn n).1 = r.move m (.sleeping due)) := by
  cases hk : r.task? n with
  | none => simp [turn, hk]
  | some k =>
      simp only [turn, hk, if_neg (h k hk), true_and]
      unfold call
      split
      · next hready => exact absurd hready (h k hk)
      · exact .inr ⟨_, _, rfl⟩
      · exact .inl rfl

/-- A task that ends takes the entry of its token with it. -/
theorem finish_removed (hr : r.Tidy) {k : Task} (hk : r.task? n = some k)
    (hready : k.stage = .ready 0) : Removed k.token (fun m => m = n) r (r.turn n).1 := by
  obtain ⟨hmem, hnumber⟩ := task?_some hk
  have htasks : (r.turn n).1.tasks = r.tasks.filter fun l => l.number ≠ n := by
    have hended : (r.turn n).1.tasks =
        (((r.move n .returned).erase k.token).move n .forgotten).tasks.filter
          fun l => l.number ≠ n := by
      rw [turn_of_ready hk hready]
      simp only [call, hready, forget, finish, hnumber]
    rw [hended, filter_move, erase_tasks, filter_move]
  refine ⟨fun l => ?_, fun l hl hgone => ?_, ?_, ?_, ?_, ?_, ?_⟩
  · rw [roster, htasks]
    simpa using mem_roster_filter (r := r) (p := fun m => m ≠ n)
  · subst hgone
    rw [hr.eq_of_number hl (List.mem_map_of_mem hmem) hnumber.symm]
    rfl
  · rw [roster, htasks]
    exact List.filter_sublist.map _
  · rw [turn_of_ready hk hready]
    simp [call, hready, forget, finish, move, erase]
  · rw [turn_of_ready hk hready]
    simp [call, hready, forget, finish, move, erase]
  · rw [turn_of_ready hk hready]
    simp only [call, hready, forget, finish, move, erase]
    rfl
  · rw [htasks]
    exact fun h l hl => h l (List.mem_filter.mp hl).1

end Runner

end Statechart
