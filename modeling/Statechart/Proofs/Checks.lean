import Mathlib.Data.List.Forall2
import Mathlib.Data.List.Induction

/-!
# Sequences of checks

A sequence of checks succeeds exactly when each of them does on what the ones before it gave.
-/
namespace Statechart

variable {ε α β : Type}

theorem bind_eq_ok_iff {x : Except ε α} {f : α → Except ε β} {b : β} :
    (x >>= f) = .ok b ↔ ∃ a, x = .ok a ∧ f a = .ok b := by
  cases x <;> simp [bind, Except.bind]

theorem pure_eq_ok_iff {a b : α} : (pure a : Except ε α) = .ok b ↔ a = b := by
  simp [pure, Except.pure]

theorem map_eq_ok_iff {x : Except ε α} {f : α → β} {b : β} :
    f <$> x = .ok b ↔ ∃ a, x = .ok a ∧ f a = b := by
  cases x <;> simp [Functor.map, Except.map]

theorem mapError_eq_ok_iff {ε' : Type} {x : Except ε α} {f : ε → ε'} {a : α} :
    x.mapError f = .ok a ↔ x = .ok a := by
  cases x <;> simp [Except.mapError]

/-- Two checks in sequence pass when the first does and then the second. -/
theorem exists_bind_eq_ok_iff {x : Except ε α} {f : α → Except ε β} :
    (∃ b, (x >>= f) = .ok b) ↔ ∃ a, x = .ok a ∧ ∃ b, f a = .ok b := by
  cases x <;> simp [bind, Except.bind]

/-- A list of checks passes when each of them does. -/
theorem exists_mapM_eq_ok_iff {f : α → Except ε β} : ∀ {list : List α},
    (∃ results, list.mapM f = .ok results) ↔ ∀ a ∈ list, ∃ b, f a = .ok b
  | [] => by simp [pure, Except.pure]
  | a :: list => by
      simp only [List.mapM_cons, exists_bind_eq_ok_iff, List.forall_mem_cons]
      constructor
      · rintro ⟨b, hb, results, hresults, _⟩
        exact ⟨⟨b, hb⟩, exists_mapM_eq_ok_iff.mp ⟨results, hresults⟩⟩
      · rintro ⟨⟨b, hb⟩, hall⟩
        obtain ⟨results, hresults⟩ := exists_mapM_eq_ok_iff.mpr hall
        exact ⟨b, hb, results, hresults, _, rfl⟩

/-- The results of a list of checks, one by one. -/
theorem mapM_eq_ok_iff {f : α → Except ε β} : ∀ {list : List α} {results : List β},
    list.mapM f = .ok results ↔ List.Forall₂ (fun a b => f a = .ok b) list results
  | [], results => by cases results <;> simp [pure_eq_ok_iff]
  | a :: list, results => by
      simp only [List.mapM_cons, bind_eq_ok_iff, pure_eq_ok_iff, mapM_eq_ok_iff]
      constructor
      · rintro ⟨b, hb, rest, hrest, rfl⟩
        exact .cons hb hrest
      · intro h
        cases h with
        | cons hb hrest => exact ⟨_, hb, _, hrest, rfl⟩

/-- What stands on the right has something on the left that it goes with. -/
theorem exists_of_mem_forall₂ {R : α → β → Prop} {list : List α} {results : List β}
    (h : List.Forall₂ R list results) : ∀ b ∈ results, ∃ a ∈ list, R a b := by
  induction h with
  | nil => simp
  | cons hhead _ ih =>
      refine List.forall_mem_cons.mpr ⟨⟨_, List.mem_cons_self, hhead⟩, fun b hb => ?_⟩
      obtain ⟨a, ha, hab⟩ := ih b hb
      exact ⟨a, List.mem_cons_of_mem _ ha, hab⟩

/-- A fold of checks is known by what each of them adds to what the ones before it gave. -/
theorem foldlM_eq_ok_iff {f : β → α → Except ε β} {start : β} {Gives : List α → β → Prop}
    (hnil : ∀ b, Gives [] b ↔ start = b)
    (hconcat : ∀ list a b, Gives (list ++ [a]) b ↔ ∃ b', Gives list b' ∧ f b' a = .ok b)
    (list : List α) (b : β) : list.foldlM f start = .ok b ↔ Gives list b := by
  induction list using List.reverseRecOn generalizing b with
  | nil => rw [hnil, List.foldlM_nil, pure_eq_ok_iff]
  | append_singleton list a ih =>
      rw [hconcat, List.foldlM_append, bind_eq_ok_iff]
      exact exists_congr fun b' => by simp [ih]

end Statechart
