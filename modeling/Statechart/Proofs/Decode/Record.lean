import Statechart.Decode
import Statechart.Proofs.Checks
import Statechart.Proofs.Json.Normal

/-!
# The fields of records

What a record decodes to depends on the values that its members have for each field, and not on the
order of the members. A field is given the value of its one member, or its default if there is
none.
-/
namespace Statechart.Decode

variable {α : Type} {name : String} {default : Option α} {decode : Json → Decoded α}
  {members : List (String × Json)}

/-- The slot of a field after some members: the value of its one member, or nothing. -/
def Fills (name : String) (decode : Json → Decoded α) (members : List (String × Json))
    (slot : Option α) : Prop :=
  (Keyed.values name members = [] ∧ slot = none) ∨
    ∃ v a, Keyed.values name members = [v] ∧ decode v = .ok a ∧ slot = some a

/-- The value of a field of a record with some members. -/
def Gives (name : String) (default : Option α) (decode : Json → Decoded α)
    (members : List (String × Json)) (a : α) : Prop :=
  (Keyed.values name members = [] ∧ default = some a) ∨
    ∃ v, Keyed.values name members = [v] ∧ decode v = .ok a

@[simp] theorem optional_null (decode : Json → Decoded α) : optional decode .null = .ok none := rfl

@[simp] theorem list_nil (decode : Json → Decoded α) : list decode (.arr []) = .ok [] := rfl

@[simp] theorem table_nil (decode : Json → Decoded α) : table decode (.obj []) = .ok [] := rfl

theorem once_eq_ok_iff {slot slot' : Option α} {value : Decoded α} :
    once slot value = .ok slot' ↔ slot = none ∧ ∃ a, value = .ok a ∧ slot' = some a := by
  cases slot <;> cases value <;> simp [once, Except.map, eq_comm]

theorem required_eq_ok_iff {slot : Option α} {a : α} : required slot = .ok a ↔ slot = some a := by
  cases slot <;> simp [required]

/-- What a member does to the slot of a field. -/
def Adds (name : String) (decode : Json → Decoded α) (m : String × Json)
    (slot slot' : Option α) : Prop :=
  if m.1 = name then once slot (decode m.2) = .ok slot' else slot = slot'

@[simp] theorem fills_nil {slot : Option α} : Fills name decode [] slot ↔ slot = none := by
  simp [Fills]

theorem fills_concat {m : String × Json} {slot : Option α} :
    Fills name decode (members ++ [m]) slot ↔
      ∃ slot', Fills name decode members slot' ∧ Adds name decode m slot' slot := by
  obtain ⟨k, v⟩ := m
  by_cases h : k = name
  · subst h
    have hsingle {w : Json} : Keyed.values k members ++ [v] = [w] ↔
        Keyed.values k members = [] ∧ v = w := by
      cases Keyed.values k members <;> simp
    simp only [Fills, Adds, Keyed.values_append, Keyed.values_cons_self, Keyed.values_nil, hsingle,
      if_true, once_eq_ok_iff]
    constructor
    · rintro (⟨hnil, _⟩ | ⟨w, a, ⟨hnone, rfl⟩, ha, rfl⟩)
      · simp at hnil
      · exact ⟨none, .inl ⟨hnone, rfl⟩, rfl, a, ha, rfl⟩
    · rintro ⟨slot', ⟨hnone, _⟩ | ⟨_, _, _, _, rfl⟩, hslot, a, ha, rfl⟩
      · exact .inr ⟨v, a, ⟨hnone, rfl⟩, ha, rfl⟩
      · cases hslot
  · simp [Fills, Adds, h, Keyed.values_cons_of_ne h]

theorem gives_iff_fills {a : α} : Gives name default decode members a ↔
    ∃ slot, Fills name decode members slot ∧ slot.or default = some a := by
  constructor
  · rintro (⟨hnone, hdefault⟩ | ⟨v, hv, ha⟩)
    · exact ⟨none, .inl ⟨hnone, rfl⟩, hdefault⟩
    · exact ⟨some a, .inr ⟨v, a, hv, ha, rfl⟩, rfl⟩
  · rintro ⟨slot, ⟨hnone, rfl⟩ | ⟨v, b, hv, hb, rfl⟩, ha⟩
    · exact .inl ⟨hnone, ha⟩
    · cases ha
      exact .inr ⟨v, hv, hb⟩

/-- A field with a default. -/
theorem fills_getD_iff {d a : α} : (∃ slot, Fills name decode members slot ∧ slot.getD d = a) ↔
    Gives name (some d) decode members a := by
  rw [gives_iff_fills]
  exact exists_congr fun slot => and_congr_right fun _ => by cases slot <;> simp

/-- A field that must be given. -/
theorem fills_required_iff {a : α} :
    (∃ slot, Fills name decode members slot ∧ required slot = .ok a) ↔
      Gives name none decode members a := by
  rw [gives_iff_fills]
  exact exists_congr fun slot => and_congr_right fun _ => by
    rw [required_eq_ok_iff, Option.or_none]

theorem field?_eq_ok_iff {found : Option Json} :
    field? [name] members = .ok found ↔ Keyed.values name members = found.toList := by
  have hvalues : Keyed.values name members =
      (members.filter fun m => [name].contains m.1).map (·.2) := by
    rw [Keyed.values, ← List.filterMap_eq_map, List.filterMap_filter]
    exact List.filterMap_congr fun m _ => by simp
  unfold field?
  rw [hvalues]
  generalize members.filter (fun m => [name].contains m.1) = found
  rcases found with _ | ⟨m, _ | ⟨m', rest⟩⟩ <;> cases ‹Option Json› <;> simp

/-- A member that must be given, taken before the fields are. -/
theorem gives_required_iff {a : α} : Gives name none decode members a ↔
    ∃ found, field? [name] members = .ok found ∧
      ∃ v, required found = .ok v ∧ decode v = .ok a := by
  simp only [field?_eq_ok_iff, required_eq_ok_iff, Gives]
  constructor
  · rintro (⟨_, hnone⟩ | ⟨v, hv, ha⟩)
    · cases hnone
    · exact ⟨some v, hv, v, rfl, ha⟩
  · rintro ⟨_, hv, v, rfl, ha⟩
    exact .inr ⟨v, hv, ha⟩

theorem record_arr_iff {names : List String} {read : List (String × Json) → Decoded α}
    {items : List Json} {a : α} : record names read (.arr items) = .ok a ↔
      items.length ≤ names.length ∧ read (names.zip items) = .ok a := by
  simp only [record, bind_eq_ok_iff]
  by_cases h : items.length ≤ names.length
  · simp [h, pure_eq_ok_iff]
  · simp [h, throw, throwThe, MonadExceptOf.throw]

/-- A table holds the entries of an object, each with its value decoded. -/
theorem table_obj_iff {t : Keyed α} : table decode (.obj members) = .ok t ↔
    ∃ entries, List.Forall₂ (fun m e => m.1 = e.1 ∧ decode m.2 = .ok e.2) members entries ∧
      Keyed.ofList entries = t := by
  have hentry (m : String × Json) (e : String × α) :
      (do return (m.1, ← decode m.2) : Decoded (String × α)) = .ok e ↔
        m.1 = e.1 ∧ decode m.2 = .ok e.2 := by
    simp only [bind_eq_ok_iff, pure_eq_ok_iff, Prod.ext_iff]
    grind
  simp only [table, bind_eq_ok_iff, mapM_eq_ok_iff, pure_eq_ok_iff, hentry]

end Statechart.Decode
