import Statechart.Json.Basic
import Statechart.Proofs.Keyed

/-!
# Normal forms of JSON values

The normal form of an object is the table of the normal forms of its members. A value in normal
form stays as it is.
-/
namespace Statechart.Json

/-- A member with its value in normal form. -/
def normalMember (member : String × Json) : String × Json := (member.1, member.2.normal)

theorem normal_arr : ∀ items : List Json, (arr items).normal = arr (items.map normal)
  | [] => rfl
  | item :: items => by
      have hrest := normal_arr items
      simp only [normal, arr.injEq] at hrest
      simp [normal, normalItems, hrest]

/-- The table that an object with some members is in normal form. -/
def normalTable (members : List (String × Json)) : Keyed Json :=
  Keyed.ofList (members.map normalMember)

theorem normalMembers_eq : ∀ (members : List (String × Json)) (sorted : Keyed Json),
    normalMembers members sorted =
      (members.map normalMember).foldl (fun table m => Keyed.insert m.1 m.2 table) sorted
  | [], _ => rfl
  | (k, v) :: rest, sorted => by
      simp [normalMembers, normalMember, normalMembers_eq rest]

theorem normal_obj (members : List (String × Json)) :
    (obj members).normal = obj (normalTable members) := by
  rw [normal, normalMembers_eq]
  rfl

@[simp] theorem normalTable_nil : normalTable [] = [] := rfl

theorem normalTable_concat (members : List (String × Json)) (m : String × Json) :
    normalTable (members ++ [m]) = Keyed.insert m.1 m.2.normal (normalTable members) := by
  simp [normalTable, normalMember, Keyed.ofList_concat]

theorem sorted_normalTable (members : List (String × Json)) : Keyed.Sorted (normalTable members) :=
  Keyed.sorted_ofList _

theorem values_map_normalMember (key : String) (members : List (String × Json)) :
    Keyed.values key (members.map normalMember) = (Keyed.values key members).map normal :=
  Keyed.values_map normal key members

/-- Each name is left with the last of its values. -/
theorem values_normalTable (key : String) (members : List (String × Json)) :
    Keyed.values key (normalTable members) =
      (Keyed.values key members).getLast?.toList.map normal := by
  rw [normalTable, Keyed.values_ofList, values_map_normalMember, List.getLast?_map]
  cases (Keyed.values key members).getLast? <;> rfl

/-- A name in the normal form is one of those of the members. -/
theorem forall_mem_normalTable {p : String → Prop} {members : List (String × Json)}
    (h : ∀ m ∈ members, p m.1) : ∀ m ∈ normalTable members, p m.1 := by
  intro m hm
  obtain ⟨m, hmem, rfl⟩ := List.mem_map.mp (Keyed.mem_ofList hm)
  exact h m hmem

/-- The normal form of an object with sorted members has them in the same places. -/
theorem normal_obj_of_sorted {members : Keyed Json} (h : Keyed.Sorted members) :
    (obj members).normal = obj (members.map normalMember) := by
  have hsorted : Keyed.Sorted (members.map normalMember) := h.map normal
  rw [normal_obj, normalTable, Keyed.ofList_of_sorted hsorted]

mutual

@[simp] theorem normal_normal : ∀ v : Json, v.normal.normal = v.normal
  | null | bool _ | num _ | str _ => rfl
  | arr items => by
      rw [normal_arr, normal_arr, List.map_map]
      exact congrArg arr (List.map_congr_left (normalItems_normal items))
  | obj members => by
      rw [normal_obj, normal_obj_of_sorted (sorted_normalTable _)]
      refine congrArg obj ((List.map_congr_left fun m hm => ?_).trans (List.map_id _))
      obtain ⟨m, hmem, rfl⟩ := List.mem_map.mp (Keyed.mem_ofList hm)
      exact congrArg (Prod.mk m.1) (normalMembers_normal members m hmem)

theorem normalItems_normal : ∀ items : List Json, ∀ v ∈ items, v.normal.normal = v.normal
  | [] => by simp
  | item :: items => List.forall_mem_cons.mpr ⟨normal_normal item, normalItems_normal items⟩

theorem normalMembers_normal : ∀ members : List (String × Json), ∀ m ∈ members,
    m.2.normal.normal = m.2.normal
  | [] => by simp
  | (_, v) :: members =>
    List.forall_mem_cons.mpr ⟨normal_normal v, normalMembers_normal members⟩

end

/-- A value stays as it is when it is put in normal form. -/
def IsNormal (v : Json) : Prop := v.normal = v

theorem isNormal_normal (v : Json) : v.normal.IsNormal := normal_normal v

theorem isNormal_arr {items : List Json} : (arr items).IsNormal ↔ ∀ v ∈ items, v.IsNormal := by
  rw [IsNormal, normal_arr, arr.injEq]
  constructor
  · intro h v hv
    exact List.map_inj_left.mp (h.trans (List.map_id items).symm) v hv
  · intro h
    exact (List.map_congr_left h).trans (List.map_id items)

/-- An object is in normal form when its members are in order and their values in normal form. -/
theorem isNormal_obj {members : List (String × Json)} :
    (obj members).IsNormal ↔ Keyed.Sorted members ∧ ∀ m ∈ members, m.2.IsNormal := by
  have hmembers : members.map normalMember = members ↔ ∀ m ∈ members, m.2.IsNormal := by
    constructor
    · intro h m hm
      have hsame := List.map_inj_left.mp (h.trans (List.map_id members).symm) m hm
      exact congrArg Prod.snd hsame
    · intro h
      refine (List.map_congr_left fun m hm => ?_).trans (List.map_id members)
      exact congrArg (Prod.mk m.1) (h m hm)
  rw [← hmembers]
  constructor
  · intro h
    have htable : normalTable members = members := by simpa [IsNormal, normal_obj] using h
    have hsorted : Keyed.Sorted members := htable ▸ sorted_normalTable members
    exact ⟨hsorted, by simpa [IsNormal, normal_obj_of_sorted hsorted] using h⟩
  · rintro ⟨hsorted, hmap⟩
    rw [IsNormal, normal_obj_of_sorted hsorted, hmap]

end Statechart.Json
