import Statechart.Definition.Basic
import Statechart.Proofs.Decode.Record

/-!
# Fields that are written and read again

A document leaves out a field that is absent or empty, and is then put in normal form. Each kind of
field is decoded from the normal form to what has been written, provided that the values in it
are.
-/
namespace Statechart.Decode

variable {α : Type} {name : String} {default : Option α} {decode : Json → Decoded α}
  {write : α → Json} {members members' : List (String × Json)}

theorem values_optionalMember (key name : String) (value : Option Json) :
    Keyed.values key (Action.optionalMember name value) =
      if key = name then value.toList else [] := by
  cases value <;> simp [Action.optionalMember, Keyed.values_cons, eq_comm]

theorem values_listMember (key name : String) (items : List Json) :
    Keyed.values key (listMember name items) =
      if key = name then (if items = [] then [] else [.arr items]) else [] := by
  cases items <;> simp [listMember, Keyed.values_cons, eq_comm]

theorem values_objectMember (key name : String) (entries : List (String × Json)) :
    Keyed.values key (objectMember name entries) =
      if key = name then (if entries = [] then [] else [.obj entries]) else [] := by
  cases entries <;> simp [objectMember, Keyed.values_cons, eq_comm]

theorem forall_mem_optionalMember {p : String → Prop} (h : p name) (value : Option Json) :
    ∀ m ∈ Action.optionalMember name value, p m.1 := by
  cases value <;> simp [Action.optionalMember, h]

theorem forall_mem_listMember {p : String → Prop} (h : p name) (items : List Json) :
    ∀ m ∈ listMember name items, p m.1 := by
  cases items <;> simp [listMember, h]

/-- Fields do not depend on anything but the values of their names. -/
theorem Gives.congr {a : α} (h : Gives name default decode members a)
    (hvalues : Keyed.values name members = Keyed.values name members') :
    Gives name default decode members' a := by
  rwa [Gives, ← hvalues]

theorem gives_default {a : α} (hvalues : Keyed.values name members = [])
    (hdefault : default = some a) : Gives name default decode (Json.normalTable members) a := by
  have hnone : Keyed.values name (Json.normalTable members) = [] := by
    simp [Json.values_normalTable, hvalues]
  exact .inl ⟨hnone, hdefault⟩

theorem gives_value {a : α} {v : Json} (hvalues : Keyed.values name members = [v])
    (hv : decode v.normal = .ok a) : Gives name default decode (Json.normalTable members) a := by
  have hone : Keyed.values name (Json.normalTable members) = [v.normal] := by
    simp [Json.values_normalTable, hvalues]
  exact .inr ⟨v.normal, hone, hv⟩

theorem Gives.of_required {a : α} (h : Gives name none decode members a) :
    ∃ v, decode v = .ok a := by
  rcases h with ⟨_, hnone⟩ | ⟨v, _, hv⟩
  · cases hnone
  · exact ⟨v, hv⟩

theorem string_written (v : Json) (s : String) (_ : v ≠ .null) (_ : Decode.string v = .ok s) :
    (Json.str s).normal ≠ .null ∧ Decode.string (Json.str s).normal = .ok s :=
  ⟨by simp [Json.normal], rfl⟩

/-- The document of an optional value is `null` or that of a value. -/
theorem exists_of_optional {v : Json} {x : Option α} (h : optional decode v = .ok x) :
    ∀ a ∈ x, v ≠ .null ∧ decode v = .ok a := by
  rintro a rfl
  cases v with
  | null => cases h
  | _ =>
      obtain ⟨b, hb, heq⟩ := map_eq_ok_iff.mp h
      cases heq
      exact ⟨by simp, hb⟩

theorem optional_of_ne_null {v : Json} (h : v ≠ .null) :
    optional decode v = (decode v).map some := by
  cases v <;> first | rfl | exact absurd rfl h

/-- An optional field is decoded from what its value is written as. -/
theorem gives_optional {x : Option α}
    (hread : ∀ a ∈ x, write a ≠ .null ∧ decode (write a) = .ok a)
    (hvalues : Keyed.values name members = (x.map write).toList) :
    Gives name (some none) (optional decode) members x := by
  cases x with
  | none => exact .inl ⟨hvalues, rfl⟩
  | some a =>
      obtain ⟨hnull, ha⟩ := hread a rfl
      have hsome : optional decode (write a) = .ok (some a) := by
        rw [optional_of_ne_null hnull, ha]
        rfl
      exact .inr ⟨write a, hvalues, hsome⟩

theorem Gives.optional {x : Option α} (h : Gives name (some none) (optional decode) members x)
    (write : α → Json) (hwrite : ∀ v a, v ≠ .null → decode v = .ok a →
      (write a).normal ≠ .null ∧ decode (write a).normal = .ok a)
    (hvalues : Keyed.values name members' = (x.map write).toList) :
    Gives name (some none) (Decode.optional decode) (Json.normalTable members') x := by
  have hread : ∀ a ∈ x, (write a).normal ≠ .null ∧ decode (write a).normal = .ok a := by
    intro a ha
    obtain ⟨v, hv, hdecode⟩ : ∃ v, v ≠ .null ∧ decode v = .ok a := by
      rcases h with ⟨_, hnone⟩ | ⟨v, _, hv⟩
      · cases hnone
        cases ha
      · exact ⟨v, exists_of_optional hv a ha⟩
    exact hwrite v a hv hdecode
  refine gives_optional hread ?_
  rw [Json.values_normalTable, hvalues]
  cases x <;> rfl

theorem list_of_forall {xs : List α} (hread : ∀ a ∈ xs, decode (write a) = .ok a) :
    list decode (.arr (xs.map write)) = .ok xs := by
  rw [list, mapM_eq_ok_iff, List.forall₂_map_left_iff]
  exact List.forall₂_same.mpr hread

theorem list_written {xs : List α} (hwrite : ∀ a ∈ xs, decode (write a).normal = .ok a) :
    list decode (Json.arr (xs.map write)).normal = .ok xs := by
  rw [Json.normal_arr, List.map_map]
  exact list_of_forall hwrite

/-- A list is decoded from what its items are written as, or from nothing if it is empty. -/
theorem gives_list {xs : List α} (hread : ∀ a ∈ xs, decode (write a) = .ok a)
    (hvalues : Keyed.values name members = if xs = [] then [] else [.arr (xs.map write)]) :
    Gives name (some []) (list decode) members xs := by
  split_ifs at hvalues with hxs
  · exact .inl ⟨hvalues, by rw [hxs]⟩
  · exact .inr ⟨_, hvalues, list_of_forall hread⟩

theorem exists_of_list {v : Json} {xs : List α} (h : list decode v = .ok xs) :
    ∀ a ∈ xs, ∃ w, decode w = .ok a := by
  cases v with
  | arr items =>
      intro a ha
      obtain ⟨w, _, hw⟩ := exists_of_mem_forall₂ (mapM_eq_ok_iff.mp h) a ha
      exact ⟨w, hw⟩
  | _ => cases h

theorem Gives.list {xs : List α} (h : Gives name (some []) (list decode) members xs)
    (write : α → Json) (hwrite : ∀ v a, decode v = .ok a → decode (write a).normal = .ok a)
    (hvalues : Keyed.values name members' = if xs = [] then [] else [.arr (xs.map write)]) :
    Gives name (some []) (Decode.list decode) (Json.normalTable members') xs := by
  split_ifs at hvalues with hxs
  · exact gives_default hvalues (by rw [hxs])
  · refine gives_value hvalues (list_written fun a ha => ?_)
    rcases h with ⟨_, hnone⟩ | ⟨v, _, hv⟩
    · cases hnone
      cases ha
    · obtain ⟨w, hw⟩ := exists_of_list hv a ha
      exact hwrite w a hw

theorem table_of_forall {t : Keyed α} (hsorted : Keyed.Sorted t) (write : α → Json)
    (hread : ∀ e ∈ t, decode (write e.2) = .ok e.2) :
    table decode (.obj (t.map fun e => (e.1, write e.2))) = .ok t := by
  rw [table_obj_iff]
  refine ⟨t, ?_, Keyed.ofList_of_sorted hsorted⟩
  rw [List.forall₂_map_left_iff]
  exact List.forall₂_same.mpr fun e he => ⟨rfl, hread e he⟩

theorem table_written {t : Keyed α} (hsorted : Keyed.Sorted t)
    (hwrite : ∀ e ∈ t, decode (write e.2).normal = .ok e.2) :
    table decode (Json.obj (t.map fun e => (e.1, write e.2))).normal = .ok t := by
  have hmap : Keyed.Sorted (t.map fun e => (e.1, write e.2)) := hsorted.map write
  rw [Json.normal_obj_of_sorted hmap, List.map_map]
  exact table_of_forall hsorted (fun a => (write a).normal) hwrite

/-- A table in order is decoded from what its values are written as. -/
theorem gives_table {t : Keyed α} (hsorted : Keyed.Sorted t) (write : α → Json)
    (hread : ∀ e ∈ t, decode (write e.2) = .ok e.2)
    (hvalues : Keyed.values name members =
      if t = [] then [] else [.obj (t.map fun e => (e.1, write e.2))]) :
    Gives name (some []) (table decode) members t := by
  split_ifs at hvalues with ht
  · exact .inl ⟨hvalues, by rw [ht]⟩
  · exact .inr ⟨_, hvalues, table_of_forall hsorted write hread⟩

/-- The table that a field is given, and where its values come from. -/
theorem Gives.of_table {t : Keyed α} (h : Gives name (some []) (table decode) members t) :
    Keyed.Sorted t ∧ ∀ e ∈ t, ∃ entries k v, (name, .obj entries) ∈ members ∧ (k, v) ∈ entries ∧
      decode v = .ok e.2 := by
  rcases h with ⟨_, hnone⟩ | ⟨v, hvalues, hv⟩
  · cases hnone
    exact ⟨.nil, by simp⟩
  · cases v with
    | obj entries =>
        obtain ⟨results, hresults, rfl⟩ := table_obj_iff.mp hv
        refine ⟨Keyed.sorted_ofList _, fun e he => ?_⟩
        obtain ⟨⟨k, v⟩, hm, _, hdecode⟩ :=
          exists_of_mem_forall₂ hresults e (Keyed.mem_ofList he)
        have hmem : (name, Json.obj entries) ∈ members :=
          Keyed.mem_of_mem_values (by simp [hvalues])
        exact ⟨entries, k, v, hmem, hm, hdecode⟩
    | _ => cases hv

theorem Gives.table {t : Keyed α} (h : Gives name (some []) (table decode) members t)
    (write : α → Json) (hwrite : ∀ e ∈ t, decode (write e.2).normal = .ok e.2)
    (hvalues : Keyed.values name members' =
      if t = [] then [] else [.obj (t.map fun e => (e.1, write e.2))]) :
    Gives name (some []) (Decode.table decode) (Json.normalTable members') t := by
  split_ifs at hvalues with ht
  · exact gives_default hvalues (by rw [ht])
  · exact gives_value hvalues (table_written h.of_table.1 hwrite)

end Statechart.Decode
