import Statechart.Proofs.Machine.Calls
import Statechart.Proofs.Service.Table

/-!
# Serving calls

A runner serves the calls of an owner one after another. An entry of its table survives exactly if
none of them hits its token; a task that is ended early had its entry in the table, and the call
that ended it was a stop under its token.
-/
namespace Statechart.Runner

variable {r : Runner} {t : Token} {n owner : Nat} {e : Effect} {k : Task.Identity}

/-- No two tasks of one owner have the same token. -/
def Single (r : Runner) : Prop :=
  ∀ k ∈ r.roster, ∀ l ∈ r.roster, k.owner = l.owner → k.token = l.token → k = l

theorem serveOne_tidy (hr : r.Tidy) (owner : Nat) (e : Effect) : (serveOne owner r e).Tidy := by
  cases e with
  | logged | notified => exact hr
  | revoked u => exact (stop_removed hr).tidy hr
  | invoked request =>
      by_cases h : r.refusal request = none
      · exact (start_started hr.below h).tidy hr
      · rwa [serveOne, start_of_refused h]

theorem serveOne_refusal (hr : r.Tidy) (owner : Nat) (e : Effect) :
    (serveOne owner r e).refusal = r.refusal := by
  cases e with
  | logged | notified => rfl
  | revoked u => exact (stop_removed hr).refusal
  | invoked request =>
      by_cases h : r.refusal request = none
      · exact (start_started hr.below h).refusal
      · rw [serveOne, start_of_refused h]

theorem serveOne_nextNumber (hr : r.Tidy) (owner : Nat) (e : Effect) :
    r.nextNumber ≤ (serveOne owner r e).nextNumber := by
  cases e with
  | logged | notified => exact le_rfl
  | revoked u => exact (stop_removed hr).nextNumber.ge
  | invoked request =>
      by_cases h : r.refusal request = none
      · exact (Nat.le_succ _).trans (start_started hr.below h).nextNumber.ge
      · rw [serveOne, start_of_refused h]

theorem mem_table_serveOne (hr : r.Tidy) (hn : n < r.nextNumber) (owner : Nat) (e : Effect) :
    (t, n) ∈ (serveOne owner r e).table ↔ (t, n) ∈ r.table ∧ ¬ r.Hits t e := by
  cases e with
  | logged | notified => simp [serveOne, Hits]
  | revoked u =>
      rw [serveOne, (stop_removed hr).table, List.mem_filter]
      simp only [Hits, decide_eq_true_eq]
      exact and_congr_right fun _ => not_congr eq_comm
  | invoked request =>
      by_cases h : r.refusal request = none
      · rw [serveOne, (start_started hr.below h).table, List.mem_append, List.mem_filter,
          List.mem_singleton]
        simp only [Hits, h, Prod.mk.injEq, hn.ne, and_false, or_false, and_true,
          decide_eq_true_eq]
        exact and_congr_right fun _ => not_congr eq_comm
      · rw [serveOne, start_of_refused h]
        simp [Hits, h]

theorem mem_roster_serveOne (hr : r.Tidy) (hk : k ∈ (serveOne owner r e).roster) :
    k ∈ r.roster ∨ k = r.next owner k.token ∧ e.started? = some k.token := by
  cases e with
  | logged | notified => exact .inl hk
  | revoked u => exact .inl (((stop_removed hr).roster k).mp hk).1
  | invoked request =>
      by_cases h : r.refusal request = none
      · rw [serveOne, (start_started hr.below h).roster, List.mem_append,
          List.mem_singleton] at hk
        rcases hk with hk | rfl
        · exact .inl hk
        · exact .inr ⟨rfl, rfl⟩
      · rw [serveOne, start_of_refused h] at hk
        exact .inl hk

/-- A call that ends a task early is a stop, under the token of an entry that names it. -/
theorem ended_serveOne (hr : r.Tidy) (hk : k ∈ r.roster)
    (hgone : k ∉ (serveOne owner r e).roster) :
    (k.token, k.number) ∈ r.table ∧ e = .revoked k.token := by
  cases e with
  | logged | notified => exact absurd hk hgone
  | revoked u =>
      rw [serveOne, (stop_removed hr).roster] at hgone
      have hentry : (u, k.number) ∈ r.table := by
        by_contra hnot
        exact hgone ⟨hk, hnot⟩
      rw [hr.token_eq hentry hk rfl]
      exact ⟨hentry, rfl⟩
  | invoked request =>
      by_cases h : r.refusal request = none
      · rw [serveOne, (start_started hr.below h).roster] at hgone
        exact absurd (List.mem_append_left _ hk) hgone
      · rw [serveOne, start_of_refused h] at hgone
        exact absurd hk hgone

theorem hits_congr {r' : Runner} (h : r'.refusal = r.refusal) : r'.Hits t e ↔ r.Hits t e := by
  cases e <;> simp [Hits, h]

theorem serve_cons (owner : Nat) (e : Effect) (effects : List Effect) (r : Runner) :
    r.serve owner (e :: effects) = (serveOne owner r e).serve owner effects := rfl

theorem serve_tidy (effects : List Effect) : ∀ {r : Runner}, r.Tidy →
    (r.serve owner effects).Tidy := by
  induction effects with
  | nil => exact id
  | cons e effects ih => exact fun hr => ih (serveOne_tidy hr owner e)

/-- An entry survives exactly if no call hits its token. -/
theorem mem_table_serve (effects : List Effect) : ∀ {r : Runner}, r.Tidy → n < r.nextNumber →
    ((t, n) ∈ (r.serve owner effects).table ↔
      (t, n) ∈ r.table ∧ ∀ e ∈ effects, ¬ r.Hits t e) := by
  induction effects with
  | nil => simp [serve]
  | cons e effects ih =>
      intro r hr hn
      have hrest := ih (serveOne_tidy hr owner e) (hn.trans_le (serveOne_nextNumber hr owner e))
      rw [serve_cons, hrest, mem_table_serveOne hr hn]
      simp only [hits_congr (serveOne_refusal hr owner e), List.forall_mem_cons, and_assoc]

theorem mem_roster_serve (effects : List Effect) : ∀ {r : Runner}, r.Tidy →
    k ∈ (r.serve owner effects).roster →
    k ∈ r.roster ∨ k.owner = owner ∧ k.token ∈ effects.filterMap Effect.started? := by
  induction effects with
  | nil => exact fun _ hk => .inl hk
  | cons e effects ih =>
      intro r hr hk
      rw [List.filterMap_cons]
      rcases ih (serveOne_tidy hr owner e) hk with hk | ⟨howner, htoken⟩
      · rcases mem_roster_serveOne hr hk with hk | ⟨heq, he⟩
        · exact .inl hk
        · exact .inr ⟨congrArg Task.Identity.owner heq, by simp [he]⟩
      · refine .inr ⟨howner, ?_⟩
        split
        · exact htoken
        · exact List.mem_cons_of_mem _ htoken

/-- A task that is ended early had its entry in the table, and was stopped under its token. -/
theorem ended_serve (effects : List Effect) : ∀ {r : Runner}, r.Tidy → k ∈ r.roster →
    k ∉ (r.serve owner effects).roster →
    (k.token, k.number) ∈ r.table ∧ .revoked k.token ∈ effects := by
  induction effects with
  | nil => exact fun _ hk hgone => absurd hk hgone
  | cons e effects ih =>
      intro r hr hk hgone
      by_cases hfirst : k ∈ (serveOne owner r e).roster
      · obtain ⟨hentry, hmem⟩ := ih (serveOne_tidy hr owner e) hfirst hgone
        rw [mem_table_serveOne hr (hr.below k hk)] at hentry
        exact ⟨hentry.1, List.mem_cons_of_mem _ hmem⟩
      · obtain ⟨hentry, rfl⟩ := ended_serveOne hr hk hfirst
        exact ⟨hentry, List.mem_cons_self⟩

/-- Tasks stay single when the calls start new tokens only, each once. -/
theorem serve_single (effects : List Effect) : ∀ {r : Runner}, r.Tidy → r.Single →
    (effects.filterMap Effect.started?).Nodup →
    (∀ k ∈ r.roster, k.owner = owner → k.token ∉ effects.filterMap Effect.started?) →
    (r.serve owner effects).Single := by
  induction effects with
  | nil => exact fun _ h _ _ => h
  | cons e effects ih =>
      intro r hr hsingle hnodup hnew
      have hrest : (effects.filterMap Effect.started?).Nodup := by
        rw [List.filterMap_cons] at hnodup
        split at hnodup
        · exact hnodup
        · exact (List.nodup_cons.mp hnodup).2
      have hfirst : ∀ k ∈ r.roster, k.owner = owner → e.started? ≠ some k.token :=
        fun k hk howner he => hnew k hk howner (by simp [he])
      have hlater : ∀ u, e.started? = some u → u ∉ effects.filterMap Effect.started? := by
        intro u hu
        rw [List.filterMap_cons, hu] at hnodup
        exact (List.nodup_cons.mp hnodup).1
      refine ih (serveOne_tidy hr owner e) ?_ hrest ?_
      · intro k hk l hl howner htoken
        rcases mem_roster_serveOne hr hk with hk | ⟨hk, hek⟩ <;>
          rcases mem_roster_serveOne hr hl with hl | ⟨hl, hel⟩
        · exact hsingle k hk l hl howner htoken
        · refine absurd hel (htoken ▸ hfirst k hk ?_)
          rw [howner, hl]
          rfl
        · refine absurd hek (htoken ▸ hfirst l hl ?_)
          rw [← howner, hk]
          rfl
        · rw [hk, hl, htoken]
      · intro k hk howner
        rcases mem_roster_serveOne hr hk with hk | ⟨_, he⟩
        · exact fun hmem => hnew k hk howner (List.mem_filterMap.mpr (by
            obtain ⟨a, ha, heq⟩ := List.mem_filterMap.mp hmem
            exact ⟨a, List.mem_cons_of_mem _ ha, heq⟩))
        · exact hlater _ he

end Statechart.Runner
