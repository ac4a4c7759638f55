import Statechart.Proofs.Definition.Storage

/-!
# Tidy definitions

The values of a definition are in normal form, its tables in order, and its expressions have no
blanks around them. Every definition that is decoded is tidy, and so is one that is built step by
step from tidy parts. A tidy definition without unknown members is decoded from its own document,
but for a context or metadata that is `null`: the document shows it, and it is read as absent.
-/
namespace Statechart
open Decode

def Provider.Tidy : Provider → Prop
  | literal value => value.IsNormal
  | expression e => e.Tidy
  | context _ | event _ => True

def Guard.Tidy : Guard → Prop
  | expression e => e.Tidy
  | predicate _ => True

def Action.Tidy : Action → Prop
  | log _ _ message => message.Tidy
  | assign _ value => value.Tidy
  | raise _ data => ∀ p ∈ data, p.Tidy

structure TransitionDef.Tidy (t : TransitionDef) : Prop where
  guard : ∀ g ∈ t.guard, g.Tidy
  actions : ∀ a ∈ t.actions, a.Tidy

def InvokeDef.Tidy (i : InvokeDef) : Prop := ∀ p ∈ i.input, p.Tidy

inductive StateDef.Tidy : StateDef → Prop where
  | intro {s : StateDef} (onSorted : Keyed.Sorted s.on) (statesSorted : Keyed.Sorted s.states)
    (entry : ∀ a ∈ s.entry, a.Tidy) (exit : ∀ a ∈ s.exit, a.Tidy)
    (on : ∀ e ∈ s.on, ∀ t ∈ e.2, t.Tidy) (invoke : ∀ i ∈ s.invoke, i.Tidy)
    (states : ∀ e ∈ s.states, Tidy e.2) : Tidy s

structure Definition.Tidy (d : Definition) : Prop where
  root : d.root.Tidy
  context : ∀ v ∈ d.context, v.IsNormal
  metadata : ∀ v ∈ d.metadata, v.IsNormal

section decoded
variable {v : Json}

theorem Provider.tidy_of_decode {p : Provider} (h : Provider.decode v = .ok p) : p.Tidy := by
  cases Provider.decode_ok_iff.mp h with
  | literal v => exact Json.isNormal_normal v
  | context | event => trivial
  | expression hread => exact Expression.tidy_of_read hread

theorem Guard.tidy_of_decode {g : Guard} (h : Guard.decode v = .ok g) : g.Tidy := by
  cases v with
  | str s =>
      obtain ⟨e, he, rfl⟩ := Guard.decode_str_iff.mp h
      exact Expression.tidy_of_read he
  | obj members =>
      obtain ⟨name, _, rfl⟩ := Guard.decode_obj_iff.mp h
      trivial
  | _ => cases h

/-- What holds of everything that a decoder gives holds of an optional field. -/
theorem forall_of_gives_optional {α : Type} {p : α → Prop} {decode : Json → Decoded α}
    {name : String} {members : List (String × Json)} {x : Option α}
    (h : Gives name (some none) (optional decode) members x)
    (hp : ∀ v a, decode v = .ok a → p a) : ∀ a ∈ x, p a := by
  intro a ha
  rcases h with ⟨_, hnone⟩ | ⟨v, _, hv⟩
  · cases hnone
    cases ha
  · exact hp v a (exists_of_optional hv a ha).2

theorem forall_of_gives_list {α : Type} {p : α → Prop} {decode : Json → Decoded α}
    {name : String} {members : List (String × Json)} {xs : List α}
    (h : Gives name (some []) (list decode) members xs)
    (hp : ∀ v a, decode v = .ok a → p a) : ∀ a ∈ xs, p a := by
  intro a ha
  rcases h with ⟨_, hnone⟩ | ⟨v, _, hv⟩
  · cases hnone
    cases ha
  · obtain ⟨w, hw⟩ := exists_of_list hv a ha
    exact hp w a hw

theorem Action.tidy_of_decode {numbered : Bool} {a : Action}
    (h : Action.decode numbered v = .ok a) : a.Tidy := by
  obtain ⟨members, type, hgiven⟩ := Action.exists_given h
  cases hgiven with
  | log _ _ hmessage => exact Provider.tidy_of_decode hmessage.of_required.choose_spec
  | assign _ hvalue => exact Provider.tidy_of_decode hvalue.of_required.choose_spec
  | raise _ hdata => exact forall_of_gives_optional hdata fun _ _ => Provider.tidy_of_decode

theorem TransitionDef.tidy_of_decode {t : TransitionDef} (h : TransitionDef.decode v = .ok t) :
    t.Tidy := by
  obtain ⟨members, hgiven⟩ := TransitionDef.exists_given h
  exact ⟨forall_of_gives_optional hgiven.guard fun _ _ => Guard.tidy_of_decode,
    forall_of_gives_list hgiven.actions fun _ _ => Action.tidy_of_decode⟩

theorem TransitionDef.tidy_of_decodeList {list : List TransitionDef}
    (h : TransitionDef.decodeList v = .ok list) : ∀ t ∈ list, t.Tidy := by
  intro t ht
  obtain ⟨w, hw⟩ := TransitionDef.exists_of_decodeList h t ht
  exact TransitionDef.tidy_of_decode hw

theorem InvokeDef.tidy_of_decode {i : InvokeDef} (h : InvokeDef.decode v = .ok i) : i.Tidy := by
  obtain ⟨members, hgiven⟩ := InvokeDef.exists_given h
  exact forall_of_gives_optional hgiven.input fun _ _ => Provider.tidy_of_decode

theorem StateDef.tidy_of_decode {s : StateDef} (h : StateDef.decode v = .ok s) : s.Tidy := by
  refine StateDef.decode_induction (P := StateDef.Tidy) (fun members s hgiven hbelow => ?_) h
  obtain ⟨honSorted, hon⟩ := hgiven.on.of_table
  obtain ⟨hstatesSorted, _⟩ := hgiven.states.of_table
  refine .intro honSorted hstatesSorted
    (forall_of_gives_list hgiven.entry fun _ _ => Action.tidy_of_decode)
    (forall_of_gives_list hgiven.exit fun _ _ => Action.tidy_of_decode) (fun e he => ?_)
    (forall_of_gives_optional hgiven.invoke fun _ _ => InvokeDef.tidy_of_decode) hbelow
  obtain ⟨_, _, w, _, _, hw⟩ := hon e he
  exact TransitionDef.tidy_of_decodeList hw

/-- Every definition that is decoded is tidy. -/
theorem Definition.tidy_of_decode {d : Definition} (h : Definition.decode v = .ok d) : d.Tidy := by
  have hvalue (w u : Json) (hw : Definition.decodeValue w = .ok u) : u.IsNormal := by
    obtain rfl : w.normal = u := Except.ok.inj hw
    exact Json.isNormal_normal w
  cases v with
  | obj members =>
      have hgiven := Definition.decode_obj_iff.mp h
      exact ⟨StateDef.tidy_of_decode (StateDef.decode_obj_iff.mpr hgiven.root),
        forall_of_gives_optional hgiven.context hvalue,
        forall_of_gives_optional hgiven.metadata hvalue⟩
  | _ => cases h

end decoded

namespace StateDef.Tidy

variable {s child : StateDef}

/-- A state to which no transition and no child has been added. -/
theorem bare (hon : s.on = []) (hstates : s.states = []) (hentry : ∀ a ∈ s.entry, a.Tidy)
    (hexit : ∀ a ∈ s.exit, a.Tidy) (hinvoke : ∀ i ∈ s.invoke, i.Tidy) : s.Tidy :=
  .intro (hon ▸ .nil) (hstates ▸ .nil) hentry hexit (by simp [hon]) hinvoke (by simp [hstates])

theorem withTransition (h : s.Tidy) (event : String) {t : TransitionDef} (ht : t.Tidy) :
    (s.withTransition event t).Tidy := by
  obtain ⟨honSorted, hstatesSorted, hentry, hexit, hon, hinvoke, hstates⟩ := h
  refine .intro honSorted.insert hstatesSorted hentry hexit (fun e he => ?_) hinvoke hstates
  rcases Keyed.mem_insert he with rfl | he
  · -- the transitions that the event has had so far are followed by the new one
    intro u hu
    rcases List.mem_append.mp hu with hu | hu
    · cases hlist : Keyed.get? event s.on with
      | none => simp [hlist] at hu
      | some list =>
          rw [hlist] at hu
          exact hon _ (Keyed.mem_of_get? hlist) u hu
    · obtain rfl := List.mem_singleton.mp hu
      exact ht
  · exact hon e he

theorem withChild (h : s.Tidy) (id : String) (hchild : child.Tidy) :
    (s.withChild id child).Tidy := by
  obtain ⟨honSorted, hstatesSorted, hentry, hexit, hon, hinvoke, hstates⟩ := h
  refine .intro honSorted hstatesSorted.insert hentry hexit hon hinvoke fun e he => ?_
  rcases Keyed.mem_insert he with rfl | he
  · exact hchild
  · exact hstates e he

end StateDef.Tidy

theorem Provider.Tidy.decode {p : Provider} (h : p.Tidy) : Provider.decode p.toJson = .ok p := by
  rw [Provider.decode_ok_iff]
  cases p with
  | literal v =>
      have hreads := Provider.Reads.literal v
      rwa [show v.normal = v from h] at hreads
  | context path => exact .context path
  | event path => exact .event path
  | expression e => exact .expression (Expression.Tidy.read h)

theorem Provider.Tidy.written {p : Provider} (h : p.Tidy) :
    p.toJson ≠ .null ∧ Provider.decode p.toJson = .ok p :=
  ⟨by cases p <;> simp [Provider.toJson], h.decode⟩

theorem Guard.Tidy.written {g : Guard} (h : g.Tidy) :
    g.toJson ≠ .null ∧ Guard.decode g.toJson = .ok g := by
  refine ⟨by cases g <;> simp [Guard.toJson], ?_⟩
  cases g with
  | expression e => exact Guard.decode_str_iff.mpr ⟨e, Expression.Tidy.read h, rfl⟩
  | predicate name => rfl

theorem string_written_ne_null (s : String) :
    Json.str s ≠ .null ∧ Decode.string (.str s) = .ok s :=
  ⟨by simp, rfl⟩

theorem Action.Tidy.decode {a : Action} (h : a.Tidy) : Action.decode true a.toJson = .ok a := by
  cases a with
  | log label level message =>
      rw [Action.toJson, Action.decode_obj_iff]
      refine ⟨"log", .inr ⟨.str "log", ?_, rfl⟩,
        .log (gives_optional (fun s _ => string_written_ne_null s) ?_)
          (.inr ⟨.str level.name, ?_, level.decode_name⟩)
          (.inr ⟨message.toJson, ?_, Provider.Tidy.decode h⟩)⟩ <;>
        simp [values_optionalMember, Keyed.values_cons]
  | assign key value =>
      rw [Action.toJson, Action.decode_obj_iff]
      refine ⟨"assign", .inr ⟨.str "assign", ?_, rfl⟩,
        .assign (.inr ⟨.str key, ?_, rfl⟩) (.inr ⟨value.toJson, ?_, Provider.Tidy.decode h⟩)⟩ <;>
        simp [Keyed.values_cons]
  | raise event data =>
      rw [Action.toJson, Action.decode_obj_iff]
      refine ⟨"raise", .inr ⟨.str "raise", ?_, rfl⟩, .raise (.inr ⟨.str event, ?_, rfl⟩)
        (gives_optional (fun p hp => (h p hp).written) ?_)⟩ <;>
        simp [values_optionalMember, Keyed.values_cons]

theorem TransitionDef.Tidy.decode {t : TransitionDef} (h : t.Tidy) :
    TransitionDef.decode t.toJson = .ok t := by
  rw [TransitionDef.toJson, TransitionDef.decode_obj_iff]
  refine ⟨?_, gives_optional (fun s _ => string_written_ne_null s) ?_,
    gives_optional (fun g hg => (h.guard g hg).written) ?_,
    gives_list (fun a ha => (h.actions a ha).decode) ?_⟩
  · simp only [List.forall_mem_append]
    exact ⟨⟨forall_mem_optionalMember (by simp [fieldNames]) _,
      forall_mem_optionalMember (by simp [fieldNames]) _⟩,
      forall_mem_listMember (by simp [fieldNames]) _⟩
  all_goals simp [values_optionalMember, values_listMember]

theorem InvokeDef.Tidy.written {i : InvokeDef} (h : i.Tidy) :
    i.toJson ≠ .null ∧ InvokeDef.decode i.toJson = .ok i := by
  refine ⟨by simp [InvokeDef.toJson], ?_⟩
  rw [InvokeDef.toJson, InvokeDef.decode_obj_iff]
  refine ⟨?_, gives_optional (fun s _ => string_written_ne_null s) ?_,
    .inr ⟨.str i.src, ?_, rfl⟩, gives_optional (fun p hp => (h p hp).written) ?_⟩
  · simp only [List.forall_mem_append, List.forall_mem_cons]
    exact ⟨forall_mem_optionalMember (by simp [fieldNames]) _, by simp [fieldNames],
      forall_mem_optionalMember (by simp [fieldNames]) _⟩
  all_goals simp [values_optionalMember, Keyed.values_cons]

/-- A tidy state is decoded from its members when nowhere in it a member is unknown. -/
theorem StateDef.Tidy.decode {s : StateDef} (h : s.Tidy) :
    ∀ id, (∀ n ∈ s.nodes id, n.2.unknown = []) → StateDef.decode (.obj s.members) = .ok s := by
  induction h with
  | @intro s honSorted hstatesSorted hentry hexit hon hinvoke _ ih =>
      intro id hknown
      rw [nodes_eq, List.forall_mem_cons] at hknown
      obtain ⟨hunknown, hbelow⟩ := hknown
      have hlist (e : String × List TransitionDef) (he : e ∈ s.on) :
          TransitionDef.decodeList (.arr (e.2.map TransitionDef.toJson)) = .ok e.2 :=
        list_of_forall fun t ht => (hon e he t ht).decode
      have hchild (e : String × StateDef) (he : e ∈ s.states) :
          StateDef.decode (.obj e.2.members) = .ok e.2 :=
        ih e he e.1 fun n hn => hbelow n (mem_tableNodes.mpr ⟨e, he, hn⟩)
      rw [decode_obj_iff]
      refine ⟨gives_optional (fun i _ => string_written_ne_null i) ?_,
        gives_list (fun a ha => (hentry a ha).decode) ?_,
        gives_list (fun a ha => (hexit a ha).decode) ?_,
        gives_table honSorted (fun l => .arr (l.map TransitionDef.toJson)) hlist ?_,
        gives_optional (fun i hi => (hinvoke i hi).written) ?_,
        gives_table hstatesSorted (fun s => .obj s.members) hchild ?_, ?_⟩
      case refine_7 =>
        rw [hunknown]
        refine Keyed.Sorted.ext_values .nil (sorted_unknownMembers _ _) fun key => ?_
        rw [values_unknownMembers]
        split_ifs with hkey
        · rfl
        · rw [values_members_of_unknown hkey, hunknown]
          rfl
      all_goals
        rw [members_eq, hunknown]
        simp [values_optionalMember, values_listMember, values_objectMember]

namespace Definition

variable {d : Definition} {members : List (String × Json)}

/-- The definition with a context or metadata that is `null` left out. -/
def withoutNulls (d : Definition) : Definition :=
  { d with
    context := d.context.filter fun v => !v.isNull
    metadata := d.metadata.filter fun v => !v.isNull }

/-- Neither the context nor the metadata is `null`. -/
def NullFree (d : Definition) : Prop := d.context ≠ some .null ∧ d.metadata ≠ some .null

theorem filter_not_isNull_eq_iff {x : Option Json} :
    x.filter (fun v => !v.isNull) = x ↔ x ≠ some .null := by
  cases x with
  | none => simp
  | some v => cases v <;> simp [Json.isNull]

theorem withoutNulls_eq_iff : d.withoutNulls = d ↔ d.NullFree := by
  rw [NullFree, ← filter_not_isNull_eq_iff, ← filter_not_isNull_eq_iff, withoutNulls]
  cases d
  simp

/-- An optional value in normal form is given to a field as it is, but for `null`. -/
theorem gives_normal {name : String} {x : Option Json} (hx : ∀ v ∈ x, v.IsNormal)
    (hvalues : Keyed.values name members = x.toList) :
    Gives name (some none) (optional decodeValue) members (x.filter fun v => !v.isNull) := by
  cases x with
  | none => exact .inl ⟨hvalues, rfl⟩
  | some v =>
      have hv : v.normal = v := hx v rfl
      refine .inr ⟨v, hvalues, ?_⟩
      by_cases hnull : v = .null
      · subst hnull
        rfl
      · have hkept : (some v).filter (fun v => !v.isNull) = some v :=
          filter_not_isNull_eq_iff.mpr (by simpa using hnull)
        rw [hkept, optional_of_ne_null hnull, decodeValue, hv]
        rfl

/-- The members of the document of a definition. -/
def documentMembers (d : Definition) : List (String × Json) :=
  ("id", .str d.id) :: (d.root.members ++ Action.optionalMember "context" d.context ++
    Action.optionalMember "meta" d.metadata)

theorem toJson_eq (d : Definition) : d.toJson = .obj (Json.normalTable d.documentMembers) :=
  Json.normal_obj d.documentMembers

/-- The members of the root have none of the names that are the definition's own. -/
theorem values_root_of_known (hknown : d.root.unknown = []) :
    ∀ key ∈ fieldNames, Keyed.values key d.root.members = [] := by
  intro key hkey
  rw [StateDef.values_members_of_unknown (not_mem_stateNames hkey), hknown]
  rfl

theorem values_documentMembers (hknown : d.root.unknown = []) :
    Keyed.values "id" d.documentMembers = [.str d.id] ∧
      Keyed.values "context" d.documentMembers = d.context.toList ∧
      Keyed.values "meta" d.documentMembers = d.metadata.toList ∧
      ∀ key ∉ fieldNames, Keyed.values key d.documentMembers = Keyed.values key d.root.members := by
  have hroot := values_root_of_known hknown
  simp only [fieldNames, List.forall_mem_cons] at hroot
  simp only [documentMembers, fieldNames, List.mem_cons, List.not_mem_nil, or_false, not_or,
    Keyed.values_cons, Keyed.values_append, values_optionalMember, hroot]
  refine ⟨rfl, by simp, by simp, ?_⟩
  rintro key ⟨hid, hcontext, hmeta⟩
  simp [Ne.symm hid, hcontext, hmeta]

/-- What a tidy definition has to give to be decoded, its root apart, in whatever order. -/
theorem Tidy.decode_of_values (h : d.Tidy) (hid : Keyed.values "id" members = [.str d.id])
    (hcontext : Keyed.values "context" members = d.context.toList)
    (hmetadata : Keyed.values "meta" members = d.metadata.toList)
    (hroot : StateDef.Given (rootMembers members) d.root) :
    decode (.obj members) = .ok d.withoutNulls :=
  decode_obj_iff.mpr ⟨.inr ⟨.str d.id, hid, rfl⟩, gives_normal h.context hcontext,
    gives_normal h.metadata hmetadata, hroot⟩

theorem toList_normal {x : Option Json} (hx : ∀ v ∈ x, v.IsNormal) :
    x.toList.getLast?.toList.map Json.normal = x.toList := by
  cases x with
  | none => rfl
  | some v =>
      have hv : v.normal = v := hx v rfl
      simp [hv]

/-- The members of the root are found among those of the document. -/
theorem given_rootMembers {members members' : List (String × Json)}
    (hroot : StateDef.decode (.obj members) = .ok d.root)
    (hown : ∀ key ∈ fieldNames, Keyed.values key members = [])
    (hvalues : ∀ key ∉ fieldNames, Keyed.values key members' = Keyed.values key members) :
    StateDef.Given (rootMembers members') d.root := by
  refine (StateDef.decode_obj_iff.mp hroot).congr fun key => ?_
  rw [values_rootMembers]
  split_ifs with hkey
  · exact hown key hkey
  · exact (hvalues key hkey).symm

/-- A tidy definition is decoded from its document, and from the normal form of this. -/
theorem Tidy.decode (h : d.Tidy) (hknown : ∀ n ∈ d.nodes, n.2.unknown = []) :
    Definition.decode d.toDocument = .ok d.withoutNulls ∧
      Definition.decode d.toJson = .ok d.withoutNulls := by
  have hunknown : d.root.unknown = [] := by
    rw [nodes, StateDef.nodes_eq] at hknown
    exact hknown _ List.mem_cons_self
  have hroot : StateDef.decode (.obj d.root.members) = .ok d.root := h.root.decode d.id hknown
  have hnormal : StateDef.decode (.obj (Json.normalTable d.root.members)) = .ok d.root := by
    rw [← Json.normal_obj]
    exact StateDef.decode_members hroot
  have hown := values_root_of_known hunknown
  obtain ⟨hid, hcontext, hmetadata, hvalues⟩ := values_documentMembers hunknown
  constructor
  · exact h.decode_of_values hid hcontext hmetadata (given_rootMembers hroot hown hvalues)
  · rw [toJson_eq]
    refine h.decode_of_values ?_ ?_ ?_ (given_rootMembers hnormal ?_ ?_)
    · rw [Json.values_normalTable, hid]
      rfl
    · rw [Json.values_normalTable, hcontext, toList_normal h.context]
    · rw [Json.values_normalTable, hmetadata, toList_normal h.metadata]
    · intro key hkey
      rw [Json.values_normalTable, hown key hkey]
      rfl
    · intro key hkey
      rw [Json.values_normalTable, Json.values_normalTable, hvalues key hkey]

end Definition

end Statechart
