import Statechart.Proofs.Chart.Nodes
import Statechart.Proofs.Decode.Storage
import Statechart.Proofs.Definition.Tree

/-!
# Definitions that are written and read again

Whatever a part of a definition has been decoded from, it is decoded to the same from its own
document in normal form. A part that is decoded has expressions without blanks around them, literals
in normal form and tables in order, which is what the canonical form keeps.
-/
namespace Statechart
open Decode

variable {v : Json}

/-- The text of an expression has no blanks around it. -/
def Expression.Tidy (e : Expression) : Prop := Text.trim e.source = e.source

theorem Expression.tidy_of_read {s : String} {e : Expression} (h : Expression.read s = .ok e) :
    e.Tidy := by
  unfold Expression.read at h
  split at h
  · cases h
    simp [Expression.Tidy, Text.trim, Text.trimChars_trimChars]
  · cases h

/-- The text of a tidy expression is read to the expression. -/
theorem Expression.Tidy.read {e : Expression} (h : e.Tidy) : Expression.read e.source = .ok e := by
  unfold Expression.read
  split
  · next tree htree =>
      obtain rfl : e.tree = tree := Except.ok.inj (e.reads.symm.trans htree)
      cases e
      simp_all [Expression.Tidy]
  · next cause hcause =>
      have hread : Expr.read e.source = .ok e.tree := e.reads
      simp [hread] at hcause

theorem Expression.read_source {s : String} {e : Expression} (h : Expression.read s = .ok e) :
    Expression.read e.source = .ok e :=
  (Expression.tidy_of_read h).read

theorem Provider.decode_toJson {p : Provider} (h : Provider.decode v = .ok p) :
    Provider.decode p.toJson.normal = .ok p := by
  rw [Provider.decode_ok_iff] at h ⊢
  cases h with
  | literal v =>
      have hliteral := Provider.Reads.literal v.normal
      rw [Json.normal_normal] at hliteral
      change Provider.Reads (.obj [("literal", v.normal.normal)]) _
      rwa [Json.normal_normal]
  | context path => exact .context path
  | event path => exact .event path
  | expression h => exact .expression (Expression.read_source h)

theorem Provider.written (v : Json) (p : Provider) (_ : v ≠ .null) (h : Provider.decode v = .ok p) :
    p.toJson.normal ≠ .null ∧ Provider.decode p.toJson.normal = .ok p := by
  refine ⟨?_, Provider.decode_toJson h⟩
  cases p <;> simp [Provider.toJson, Json.normal_obj]

theorem Guard.decode_toJson {g : Guard} (h : Guard.decode v = .ok g) :
    Guard.decode g.toJson.normal = .ok g := by
  cases v with
  | str s =>
      obtain ⟨e, he, rfl⟩ := Guard.decode_str_iff.mp h
      exact Guard.decode_str_iff.mpr ⟨e, Expression.read_source he, rfl⟩
  | obj members =>
      obtain ⟨name, _, rfl⟩ := Guard.decode_obj_iff.mp h
      rfl
  | _ => cases h

theorem Guard.written (v : Json) (g : Guard) (_ : v ≠ .null) (h : Guard.decode v = .ok g) :
    g.toJson.normal ≠ .null ∧ Guard.decode g.toJson.normal = .ok g := by
  refine ⟨?_, Guard.decode_toJson h⟩
  cases g <;> simp [Guard.toJson, Json.normal_obj, Json.normal]

theorem LogLevel.decode_name (level : LogLevel) :
    LogLevel.decode (Json.str level.name).normal = .ok level := by
  cases level <;> rfl

namespace Action

/-- An action is given by some members, in whichever way it has been written. -/
theorem exists_given {numbered : Bool} {a : Action} (h : decode numbered v = .ok a) :
    ∃ members type, Given members type a := by
  cases v with
  | obj members =>
      obtain ⟨type, _, hgiven⟩ := decode_obj_iff.mp h
      exact ⟨members, type, hgiven⟩
  | arr items =>
      cases items with
      | nil => cases h
      | cons type items =>
          obtain ⟨name, names, _, _, hgiven⟩ := decode_arr_iff.mp h
          exact ⟨_, name, hgiven⟩
  | _ => cases h

theorem Given.decode_toJson {members : List (String × Json)} {type : String} {a : Action}
    (h : Given members type a) : decode true a.toJson.normal = .ok a := by
  cases h with
  | @log label level message hlabel _ hmessage =>
      obtain ⟨v, hv⟩ := hmessage.of_required
      rw [toJson, Json.normal_obj, decode_obj_iff]
      refine ⟨"log", gives_value (v := .str "log") ?_ rfl,
        .log (hlabel.optional .str string_written ?_) (gives_value ?_ level.decode_name)
          (gives_value ?_ (Provider.decode_toJson hv))⟩ <;>
        simp [values_optionalMember, Keyed.values_cons]
  | @assign key value hkey hvalue =>
      obtain ⟨v, hv⟩ := hvalue.of_required
      rw [toJson, Json.normal_obj, decode_obj_iff]
      refine ⟨"assign", gives_value (v := .str "assign") ?_ rfl,
        .assign (gives_value (v := .str key) ?_ rfl)
          (gives_value ?_ (Provider.decode_toJson hv))⟩ <;>
        simp [Keyed.values_cons]
  | @raise event data hevent hdata =>
      rw [toJson, Json.normal_obj, decode_obj_iff]
      refine ⟨"raise", gives_value (v := .str "raise") ?_ rfl,
        .raise (gives_value (v := .str event) ?_ rfl)
          (hdata.optional Provider.toJson Provider.written ?_)⟩ <;>
        simp [values_optionalMember, Keyed.values_cons]

theorem decode_toJson {numbered : Bool} {a : Action} (h : decode numbered v = .ok a) :
    decode true a.toJson.normal = .ok a := by
  obtain ⟨_, _, hgiven⟩ := exists_given h
  exact hgiven.decode_toJson

end Action

namespace TransitionDef

theorem exists_given {t : TransitionDef} (h : decode v = .ok t) : ∃ members, Given members t := by
  cases v with
  | str s =>
      have hrecord : decode (.obj [("target", .str s)]) = .ok t := h
      exact ⟨_, decode_obj_iff.mp hrecord⟩
  | obj members => exact ⟨members, decode_obj_iff.mp h⟩
  | _ => cases h

theorem decode_toJson {t : TransitionDef} (h : decode v = .ok t) :
    decode t.toJson.normal = .ok t := by
  obtain ⟨members, hgiven⟩ := exists_given h
  rw [toJson, Json.normal_obj, decode_obj_iff]
  refine ⟨Json.forall_mem_normalTable ?_, hgiven.target.optional .str string_written ?_,
    hgiven.guard.optional Guard.toJson Guard.written ?_,
    hgiven.actions.list Action.toJson (fun _ _ => Action.decode_toJson) ?_⟩
  · simp only [List.forall_mem_append]
    exact ⟨⟨forall_mem_optionalMember (by simp [fieldNames]) _,
      forall_mem_optionalMember (by simp [fieldNames]) _⟩,
      forall_mem_listMember (by simp [fieldNames]) _⟩
  all_goals simp [values_optionalMember, values_listMember]

theorem decodeList_arr {items : List Json} : decodeList (.arr items) = list decode (.arr items) :=
  rfl

theorem exists_of_decodeList {l : List TransitionDef} (h : decodeList v = .ok l) :
    ∀ t ∈ l, ∃ w, decode w = .ok t := by
  cases v with
  | arr items =>
      rw [decodeList_arr] at h
      exact exists_of_list h
  | _ =>
      obtain ⟨t, ht, rfl⟩ := map_eq_ok_iff.mp h
      exact List.forall_mem_singleton.mpr ⟨_, ht⟩

theorem decodeList_written {l : List TransitionDef} (h : decodeList v = .ok l) :
    decodeList (Json.arr (l.map toJson)).normal = .ok l := by
  rw [Json.normal_arr, decodeList_arr, ← Json.normal_arr]
  exact list_written fun t ht => (exists_of_decodeList h t ht).elim fun _ => decode_toJson

end TransitionDef

namespace InvokeDef

theorem exists_given {i : InvokeDef} (h : decode v = .ok i) : ∃ members, Given members i := by
  cases v with
  | obj members => exact ⟨members, decode_obj_iff.mp h⟩
  | arr items => exact ⟨_, (decode_arr_iff.mp h).2⟩
  | _ => cases h

theorem decode_toJson {i : InvokeDef} (h : decode v = .ok i) : decode i.toJson.normal = .ok i := by
  obtain ⟨members, hgiven⟩ := exists_given h
  rw [toJson, Json.normal_obj, decode_obj_iff]
  refine ⟨Json.forall_mem_normalTable ?_, hgiven.id.optional .str string_written ?_,
    gives_value (v := .str i.src) ?_ rfl,
    hgiven.input.optional Provider.toJson Provider.written ?_⟩
  · simp only [List.forall_mem_append, List.forall_mem_cons]
    exact ⟨forall_mem_optionalMember (by simp [fieldNames]) _, by simp [fieldNames],
      forall_mem_optionalMember (by simp [fieldNames]) _⟩
  all_goals simp [values_optionalMember, Keyed.values_cons]

theorem written (v : Json) (i : InvokeDef) (_ : v ≠ .null) (h : decode v = .ok i) :
    i.toJson.normal ≠ .null ∧ decode i.toJson.normal = .ok i := by
  refine ⟨?_, decode_toJson h⟩
  simp [toJson, Json.normal_obj]

end InvokeDef

namespace StateDef

variable {members members' : List (String × Json)}

theorem tableMembers_eq (t : List (String × StateDef)) :
    tableMembers t = t.map fun e => (e.1, .obj e.2.members) := by
  induction t with
  | nil => rfl
  | cons e rest ih => rw [tableMembers, ih, List.map_cons]

/-- What holds of a state when it holds of the states in its table holds of every state that is
decoded. -/
theorem decode_induction {P : StateDef → Prop}
    (step : ∀ members s, Given members s → (∀ e ∈ s.states, P e.2) → P s) :
    ∀ {v : Json} {s : StateDef}, decode v = .ok s → P s
  | .obj members, s, h => by
      have hgiven := decode_obj_iff.mp h
      refine step members s hgiven fun e he => ?_
      obtain ⟨entries, k, w, hentries, hw, hdecode⟩ := hgiven.states.of_table.2 e he
      have hbelow : sizeOf w < 1 + sizeOf members := by
        have hentry := List.sizeOf_lt_of_mem hw
        have htable := List.sizeOf_lt_of_mem hentries
        simp only [Prod.mk.sizeOf_spec, Json.obj.sizeOf_spec] at hentry htable
        omega
      exact decode_induction step hdecode
  | .null, _, h | .bool _, _, h | .num _, _, h | .str _, _, h | .arr _, _, h => by
      simp [decode] at h
termination_by v => sizeOf v

/-- A state that is decoded has its tables in order. -/
theorem decode_ordered {s : StateDef} (h : decode v = .ok s) : s.Ordered := by
  refine decode_induction (P := Ordered) (fun members s hgiven hbelow => ?_) h
  exact ordered_iff.mpr ⟨hgiven.on.of_table.1, hgiven.states.of_table.1, hbelow⟩

/-- The members of a state, the unknown ones last. -/
theorem members_eq (s : StateDef) : s.members =
    Action.optionalMember "initial" (s.initial.map .str) ++
      listMember "entry" (s.entry.map Action.toJson) ++
      listMember "exit" (s.exit.map Action.toJson) ++
      objectMember "on" (s.on.map fun e => (e.1, .arr (e.2.map TransitionDef.toJson))) ++
      Action.optionalMember "invoke" (s.invoke.map InvokeDef.toJson) ++
      objectMember "states" (s.states.map fun e => (e.1, .obj e.2.members)) ++ s.unknown := by
  cases s
  rw [StateDef.members, tableMembers_eq]

theorem values_members_of_unknown {key : String} (hkey : key ∉ fieldNames) (s : StateDef) :
    Keyed.values key s.members = Keyed.values key s.unknown := by
  simp only [fieldNames, List.mem_cons, List.not_mem_nil, or_false, not_or] at hkey
  rw [members_eq]
  simp [values_optionalMember, values_listMember, values_objectMember, hkey]

/-- Only the values of the members count. -/
theorem Given.congr {s : StateDef} (h : Given members s)
    (hvalues : ∀ key, Keyed.values key members = Keyed.values key members') : Given members' s where
  initial := h.initial.congr (hvalues _)
  entry := h.entry.congr (hvalues _)
  exit := h.exit.congr (hvalues _)
  on := h.on.congr (hvalues _)
  invoke := h.invoke.congr (hvalues _)
  states := h.states.congr (hvalues _)
  unknown := h.unknown.trans (unknownMembers_congr fun key _ => hvalues key)

theorem Given.values_unknown {s : StateDef} (h : Given members s) (key : String) :
    Keyed.values key s.unknown = if key ∈ fieldNames then []
      else (Keyed.values key members).getLast?.toList.map Json.normal := by
  rw [h.unknown, values_unknownMembers]

/-- Unknown members are written as they are kept. -/
theorem Given.unknown_written {s : StateDef} (h : Given members s) :
    s.unknown = unknownMembers fieldNames (Json.normalTable s.members) := by
  have hsorted : Keyed.Sorted s.unknown := by
    rw [h.unknown]
    exact sorted_unknownMembers _ _
  refine hsorted.ext_values (sorted_unknownMembers _ _) fun key => ?_
  rw [values_unknownMembers]
  split_ifs with hkey
  · rw [h.values_unknown, if_pos hkey]
  · rw [Json.values_normalTable, values_members_of_unknown hkey, h.values_unknown, if_neg hkey]
    cases (Keyed.values key members).getLast? <;> simp

theorem Given.written {s : StateDef} (h : Given members s)
    (hbelow : ∀ e ∈ s.states, decode (Json.obj e.2.members).normal = .ok e.2) :
    Given (Json.normalTable s.members) s := by
  have hunknown : ∀ key ∈ fieldNames, Keyed.values key s.unknown = [] := fun key hkey => by
    rw [h.values_unknown, if_pos hkey]
  simp only [fieldNames, List.forall_mem_cons] at hunknown
  have hon (e : String × List TransitionDef) (he : e ∈ s.on) :
      TransitionDef.decodeList (Json.arr (e.2.map TransitionDef.toJson)).normal = .ok e.2 := by
    obtain ⟨_, _, v, _, _, hv⟩ := h.on.of_table.2 e he
    exact TransitionDef.decodeList_written hv
  refine ⟨h.initial.optional .str string_written ?_,
    h.entry.list Action.toJson (fun _ _ => Action.decode_toJson) ?_,
    h.exit.list Action.toJson (fun _ _ => Action.decode_toJson) ?_,
    h.on.table (fun l => .arr (l.map TransitionDef.toJson)) hon ?_,
    h.invoke.optional InvokeDef.toJson InvokeDef.written ?_,
    h.states.table (fun s => .obj s.members) hbelow ?_, h.unknown_written⟩
  all_goals
    rw [members_eq]
    simp [values_optionalMember, values_listMember, values_objectMember, hunknown]

theorem decode_members {s : StateDef} (h : decode v = .ok s) :
    decode (Json.obj s.members).normal = .ok s := by
  refine decode_induction (P := fun s => decode (Json.obj s.members).normal = .ok s)
    (fun members s hgiven hbelow => ?_) h
  rw [Json.normal_obj, decode_obj_iff]
  exact hgiven.written hbelow

end StateDef

namespace Definition

variable {members : List (String × Json)}

theorem decodeValue_written (v w : Json) (hv : v ≠ .null) (h : decodeValue v = .ok w) :
    w.normal ≠ .null ∧ decodeValue w.normal = .ok w := by
  obtain rfl : v.normal = w := Except.ok.inj h
  refine ⟨?_, by rw [decodeValue, Json.normal_normal, Json.normal_normal]⟩
  rw [Json.normal_normal]
  cases v <;> simp_all [Json.normal]

theorem not_mem_stateNames {key : String} (hkey : key ∈ fieldNames) :
    key ∉ StateDef.fieldNames := by
  simp only [fieldNames, List.mem_cons, List.not_mem_nil, or_false] at hkey
  rcases hkey with rfl | rfl | rfl <;> simp [StateDef.fieldNames]

/-- The root has no members of the names that are the definition's own. -/
theorem Given.values_root {d : Definition} (h : Given members d) {key : String}
    (hkey : key ∈ fieldNames) : Keyed.values key d.root.members = [] := by
  have hstate := not_mem_stateNames hkey
  rw [StateDef.values_members_of_unknown hstate, h.root.values_unknown, if_neg hstate,
    values_rootMembers, if_pos hkey]
  rfl

theorem Given.root_written {d : Definition} (h : Given members d) :
    StateDef.Given (Json.normalTable d.root.members) d.root := by
  refine h.root.written fun e he => ?_
  obtain ⟨_, _, v, _, _, hv⟩ := h.root.states.of_table.2 e he
  exact StateDef.decode_members hv

/-- Every definition that is decoded from some document is decoded from its own one. -/
theorem decode_toJson {d : Definition} (h : decode v = .ok d) : decode d.toJson = .ok d := by
  cases v with
  | obj members =>
      have hgiven := decode_obj_iff.mp h
      rw [toJson, toDocument, Json.normal_obj, decode_obj_iff]
      have hown : ∀ key ∈ fieldNames, Keyed.values key d.root.members = [] :=
        fun _ => hgiven.values_root
      simp only [fieldNames, List.forall_mem_cons] at hown
      refine ⟨gives_value (v := .str d.id) ?_ rfl,
        hgiven.context.optional (fun v => v) decodeValue_written ?_,
        hgiven.metadata.optional (fun v => v) decodeValue_written ?_,
        hgiven.root_written.congr fun key => ?_⟩
      · simp [values_optionalMember, hown]
      · simp [values_optionalMember, Keyed.values_cons, hown]
      · simp [values_optionalMember, Keyed.values_cons, hown]
      · rw [values_rootMembers]
        split_ifs with hkey
        · simp [Json.values_normalTable, hgiven.values_root hkey]
        · simp only [fieldNames, List.mem_cons, List.not_mem_nil, or_false, not_or] at hkey
          simp [Json.values_normalTable, values_optionalMember, Keyed.values_cons, hkey, eq_comm]
  | _ => cases h

/-- The tables of a definition that is decoded are in order. -/
theorem decode_ordered {d : Definition} (h : decode v = .ok d) : d.root.Ordered := by
  cases v with
  | obj members =>
      have hroot := StateDef.decode_obj_iff.mpr (decode_obj_iff.mp h).root
      exact StateDef.decode_ordered hroot
  | _ => cases h

end Definition

end Statechart
