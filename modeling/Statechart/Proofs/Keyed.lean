import Mathlib.Data.List.Induction
import Mathlib.Data.String.Basic
import Statechart.Keyed

/-!
# Laws of sorted tables

Reading after adding and after taking away, and the order of the keys, which both keep. A table in
which nothing can be found is empty, and a table is known by what is found in it. Entries in any
order are told apart only by the values that they have for each key.
-/
namespace Statechart.Keyed

variable {α : Type} {key other : String} {value : α} {table : Keyed α}

theorem get?_erase_of_ne (h : other ≠ key) : get? other (erase key table) = get? other table := by
  induction table with
  | nil => rfl
  | cons entry rest ih =>
      obtain ⟨k, v⟩ := entry
      by_cases hk : k = key
      · subst k
        simp [erase, get?, Ne.symm h]
      · simp [erase, get?, hk, ih]

/-- Taking away what is not there changes nothing. -/
theorem erase_of_get?_none (h : get? key table = none) : erase key table = table := by
  induction table with
  | nil => rfl
  | cons entry rest ih =>
      obtain ⟨k, v⟩ := entry
      by_cases hk : k = key
      · simp [get?, hk] at h
      · simp only [get?, if_neg hk] at h
        simp [erase, hk, ih h]

/-- A key below all others is not found. -/
theorem get?_eq_none_of_lt (h : ∀ entry ∈ table, key < entry.1) : get? key table = none := by
  induction table with
  | nil => rfl
  | cons entry rest ih =>
      have hne : entry.1 ≠ key := (h entry (by simp)).ne'
      simp only [get?, if_neg hne]
      exact ih fun e he => h e (by simp [he])

@[simp] theorem get?_erase_self (h : Sorted table) : get? key (erase key table) = none := by
  induction table with
  | nil => rfl
  | cons entry rest ih =>
      obtain ⟨k, v⟩ := entry
      obtain ⟨hhead, hrest⟩ := List.pairwise_cons.mp h
      by_cases hk : k = key
      · subst k
        simpa [erase] using get?_eq_none_of_lt hhead
      · simpa [erase, get?, hk] using ih hrest

theorem mem_of_get? (h : get? key table = some value) : (key, value) ∈ table := by
  induction table with
  | nil => simp [get?] at h
  | cons entry rest ih =>
      obtain ⟨k, v⟩ := entry
      by_cases hk : k = key
      · subst k
        simp only [get?, if_true, Option.some.injEq] at h
        simp [h]
      · simp only [get?, if_neg hk] at h
        exact List.mem_cons_of_mem _ (ih h)

theorem eq_nil_of_get? (h : ∀ key, get? key table = none) : table = [] := by
  cases table with
  | nil => rfl
  | cons entry rest =>
      have := h entry.1
      simp [get?] at this

/-- Of two values for one key the later one counts. -/
theorem insert_insert_self (key : String) (value value' : α) (table : Keyed α) :
    insert key value' (insert key value table) = insert key value' table := by
  induction table with
  | nil => simp [insert]
  | cons entry rest ih =>
      obtain ⟨k, v⟩ := entry
      simp only [insert]
      split_ifs with hlt heq
      · simp [insert]
      · simp [insert]
      · simp [insert, hlt, heq, ih]

/-- Entries with different keys may be added in either order. -/
theorem insert_comm {a b : String} (h : a ≠ b) (x y : α) (table : Keyed α) :
    insert a x (insert b y table) = insert b y (insert a x table) := by
  -- the order of the two keys and of the first one in the table decides each step
  induction table with
  | nil => grind [insert]
  | cons entry rest ih => grind [insert]

instance (table : Keyed α) : Decidable (Sorted table) :=
  inferInstanceAs (Decidable (List.Pairwise _ _))

theorem erase_subset : ∀ {table : Keyed α}, erase key table ⊆ table
  | [] => by simp [erase]
  | (k, v) :: rest => by
      unfold erase
      split
      · exact List.subset_cons_self _ _
      · exact List.cons_subset_cons _ erase_subset

theorem mem_insert {entry : String × α} (h : entry ∈ insert key value table) :
    entry = (key, value) ∨ entry ∈ table := by
  induction table with
  | nil => simpa [insert] using h
  | cons first rest ih =>
      unfold insert at h
      split at h
      · simpa using h
      · split at h
        · rcases List.mem_cons.mp h with rfl | h
          · exact .inl rfl
          · exact .inr (List.mem_cons_of_mem _ h)
        · rcases List.mem_cons.mp h with rfl | h
          · exact .inr (by simp)
          · exact (ih h).imp_right (List.mem_cons_of_mem _)

theorem Sorted.keys_nodup (h : Sorted table) : (keys table).Nodup :=
  List.pairwise_map.mpr (h.imp fun hlt => hlt.ne)

theorem Sorted.erase (h : Sorted table) : Sorted (erase key table) := by
  induction table with
  | nil => exact h
  | cons entry rest ih =>
      obtain ⟨hhead, hrest⟩ := List.pairwise_cons.mp h
      unfold Keyed.erase
      split
      · exact hrest
      · exact List.pairwise_cons.mpr ⟨fun e he => hhead e (erase_subset he), ih hrest⟩

theorem Sorted.ne_of_mem_erase (h : Sorted table) {entry : String × α}
    (hentry : entry ∈ Keyed.erase key table) : entry.1 ≠ key := by
  induction table with
  | nil => simp [Keyed.erase] at hentry
  | cons first rest ih =>
      obtain ⟨hhead, hrest⟩ := List.pairwise_cons.mp h
      unfold Keyed.erase at hentry
      split at hentry
      · next hk => exact fun heq => (hhead entry hentry).ne (hk.trans heq.symm)
      · next hk =>
          rcases List.mem_cons.mp hentry with rfl | hentry
          · exact hk
          · exact ih hrest hentry

theorem Sorted.insert (h : Sorted table) : Sorted (insert key value table) := by
  induction table with
  | nil => simp [Keyed.insert, Sorted]
  | cons entry rest ih =>
      obtain ⟨k, v⟩ := entry
      obtain ⟨hhead, hrest⟩ := List.pairwise_cons.mp h
      unfold Keyed.insert
      split
      · next hlt =>
          refine List.pairwise_cons.mpr ⟨fun e he => ?_, h⟩
          rcases List.mem_cons.mp he with rfl | he
          · exact hlt
          · exact hlt.trans (hhead e he)
      · next hnot =>
          split
          · next hk =>
              subst hk
              exact List.pairwise_cons.mpr ⟨hhead, hrest⟩
          · next hne =>
              have hlt : k < key := lt_of_le_of_ne (not_lt.mp hnot) hne
              refine List.pairwise_cons.mpr ⟨fun e he => ?_, ih hrest⟩
              rcases mem_insert he with rfl | he
              · exact hlt
              · exact hhead e he

/-- Two sorted tables in which the same is found are the same. -/
theorem Sorted.ext : ∀ {s t : Keyed α}, Sorted s → Sorted t → (∀ key, get? key s = get? key t) →
    s = t
  | [], t, _, _, h => (eq_nil_of_get? fun key => (h key).symm).symm
  | s, [], _, _, h => eq_nil_of_get? h
  | (k, v) :: s, (l, w) :: t, hs, ht, h => by
      obtain ⟨hhead, hrest⟩ := List.pairwise_cons.mp hs
      obtain ⟨hhead', hrest'⟩ := List.pairwise_cons.mp ht
      have hk := h k
      have hl := h l
      obtain rfl : k = l := by
        rcases lt_trichotomy k l with hlt | heq | hgt
        · have hnone : get? k t = none :=
            get?_eq_none_of_lt fun e he => hlt.trans (hhead' e he)
          simp [get?, hlt.ne', hnone] at hk
        · exact heq
        · have hnone : get? l s = none :=
            get?_eq_none_of_lt fun e he => hgt.trans (hhead e he)
          simp [get?, hgt.ne', hnone] at hl
      obtain rfl : v = w := by simpa [get?] using hk
      refine congrArg _ (Sorted.ext hrest hrest' fun key => ?_)
      by_cases hkey : k = key
      · subst hkey
        rw [get?_eq_none_of_lt hhead, get?_eq_none_of_lt hhead']
      · simpa [get?, hkey] using h key

/-- The values that entries have for a key, in order. -/
def values (key : String) (entries : List (String × α)) : List α :=
  entries.filterMap fun entry => if entry.1 = key then some entry.2 else none

section values
variable {entries entries' : List (String × α)}

@[simp] theorem values_nil (key : String) : values key ([] : List (String × α)) = [] := rfl

@[simp] theorem values_append (key : String) (entries entries' : List (String × α)) :
    values key (entries ++ entries') = values key entries ++ values key entries' :=
  List.filterMap_append

theorem values_cons (key : String) (entry : String × α) (entries : List (String × α)) :
    values key (entry :: entries) =
      (if entry.1 = key then [entry.2] else []) ++ values key entries := by
  by_cases h : entry.1 = key <;> simp [values, h]

@[simp] theorem values_cons_self (key : String) (value : α) (entries : List (String × α)) :
    values key ((key, value) :: entries) = value :: values key entries := by
  simp [values]

theorem values_cons_of_ne (h : other ≠ key) (value : α) (entries : List (String × α)) :
    values key ((other, value) :: entries) = values key entries := by
  simp [values, h]

/-- Entries with different keys may change places. -/
theorem values_swap {a b : String × α} (h : a.1 ≠ b.1) (entries : List (String × α)) :
    values key (a :: b :: entries) = values key (b :: a :: entries) := by
  by_cases ha : a.1 = key
  · have hb : b.1 ≠ key := fun hb => h (ha.trans hb.symm)
    simp [values_cons, hb]
  · simp [values_cons, ha]

theorem values_map {β : Type} (f : α → β) (key : String) (entries : List (String × α)) :
    values key (entries.map fun entry => (entry.1, f entry.2)) = (values key entries).map f := by
  induction entries with
  | nil => rfl
  | cons entry rest ih =>
      obtain ⟨k, v⟩ := entry
      by_cases h : k = key
      · subst h
        simpa using ih
      · simpa [values_cons_of_ne h] using ih

theorem values_filter {p : String → Bool} (h : p key = true) (entries : List (String × α)) :
    values key (entries.filter fun entry => p entry.1) = values key entries := by
  simp only [values, List.filterMap_filter]
  refine List.filterMap_congr fun entry _ => ?_
  by_cases hk : entry.1 = key
  · simp [hk, h]
  · simp [hk]

theorem values_filter_of_not {p : String → Bool} (h : p key = false)
    (entries : List (String × α)) : values key (entries.filter fun entry => p entry.1) = [] := by
  simp only [values, List.filterMap_eq_nil_iff, List.mem_filter]
  rintro entry ⟨_, hp⟩
  have hne : entry.1 ≠ key := by
    rintro rfl
    simp [h] at hp
  simp [hne]

theorem values_eq_nil_iff : values key entries = [] ↔ key ∉ keys entries := by
  simp only [values, List.filterMap_eq_nil_iff, keys, List.mem_map, not_exists, not_and]
  exact forall₂_congr fun entry _ => by simp

theorem mem_of_mem_values (h : value ∈ values key entries) : (key, value) ∈ entries := by
  obtain ⟨entry, hentry, h⟩ := List.mem_filterMap.mp h
  split_ifs at h with hkey
  obtain rfl : entry.2 = value := by simpa using h
  subst hkey
  exact hentry

theorem ofList_concat (entries : List (String × α)) (key : String) (value : α) :
    ofList (entries ++ [(key, value)]) = insert key value (ofList entries) := by
  simp [ofList]

theorem sorted_ofList (entries : List (String × α)) : Sorted (ofList entries) := by
  induction entries using List.reverseRecOn with
  | nil => exact .nil
  | append_singleton entries entry ih =>
      rw [ofList_concat]
      exact ih.insert

/-- Of equal keys the last one counts. -/
theorem get?_ofList (key : String) (entries : List (String × α)) :
    get? key (ofList entries) = (values key entries).getLast? := by
  induction entries using List.reverseRecOn with
  | nil => rfl
  | append_singleton entries entry ih =>
      obtain ⟨k, v⟩ := entry
      rw [ofList_concat]
      by_cases h : k = key
      · subst h
        simp
      · rw [get?_insert_of_ne (Ne.symm h), ih]
        simp [values_cons_of_ne h]

/-- A table has at most one value for a key. -/
theorem Sorted.values_eq (h : Sorted table) (key : String) :
    values key table = (get? key table).toList := by
  induction table with
  | nil => rfl
  | cons entry rest ih =>
      obtain ⟨k, v⟩ := entry
      obtain ⟨hhead, hrest⟩ := List.pairwise_cons.mp h
      by_cases hk : k = key
      · subst hk
        have hnone := get?_eq_none_of_lt hhead
        simp [get?, ih hrest, hnone]
      · simp [get?, hk, values_cons_of_ne hk, ih hrest]

theorem Sorted.get?_of_mem (h : Sorted table) (hentry : (key, value) ∈ table) :
    get? key table = some value := by
  have hvalue : value ∈ values key table := List.mem_filterMap.mpr ⟨_, hentry, if_pos rfl⟩
  rwa [h.values_eq, Option.mem_toList] at hvalue

theorem values_ofList (key : String) (entries : List (String × α)) :
    values key (ofList entries) = (values key entries).getLast?.toList := by
  rw [(sorted_ofList entries).values_eq, get?_ofList]

theorem mem_keys_ofList : key ∈ keys (ofList entries) ↔ key ∈ keys entries := by
  have hnil : values key (ofList entries) = [] ↔ values key entries = [] := by
    rw [values_ofList, Option.toList_eq_nil_iff, List.getLast?_eq_none_iff]
  rw [values_eq_nil_iff, values_eq_nil_iff] at hnil
  exact not_iff_not.mp hnil

@[simp] theorem mem_sortedKeys {name : String} {names : List String} :
    name ∈ sortedKeys names ↔ name ∈ names := by
  rw [sortedKeys, mem_keys_ofList]
  simp [keys]

/-- The order of entries does not count as long as that of each key stays. -/
theorem ofList_congr (h : ∀ key, values key entries = values key entries') :
    ofList entries = ofList entries' :=
  (sorted_ofList _).ext (sorted_ofList _) fun key => by rw [get?_ofList, get?_ofList, h]

theorem ofList_of_sorted (h : Sorted table) : ofList table = table :=
  (sorted_ofList table).ext h fun key => by
    rw [get?_ofList, h.values_eq]
    cases get? key table <;> rfl

/-- A table is known by the values that it has for each key. -/
theorem Sorted.ext_values {s t : Keyed α} (hs : Sorted s) (ht : Sorted t)
    (h : ∀ key, values key s = values key t) : s = t := by
  rw [← ofList_of_sorted hs, ← ofList_of_sorted ht, ofList_congr h]

theorem mem_ofList {entry : String × α} (h : entry ∈ ofList entries) : entry ∈ entries := by
  induction entries using List.reverseRecOn with
  | nil => exact h
  | append_singleton entries last ih =>
      rw [ofList_concat] at h
      rcases mem_insert h with rfl | h
      · simp
      · exact List.mem_append_left _ (ih h)

theorem Sorted.map {β : Type} (h : Sorted table) (f : α → β) :
    Sorted (table.map fun entry => (entry.1, f entry.2)) :=
  List.pairwise_map.mpr h

end values

end Statechart.Keyed
