import Statechart.Proofs.Definition.Fields

/-!
# What trees of states are decoded to

The fields of a state and of a definition. A member of a state with a name that no field has is kept
in a table. A definition has the members of its root beside its own.
-/
namespace Statechart
open Decode

/-- The members of the names that are not among those of fields, in normal form. -/
def unknownMembers (names : List String) (members : List (String × Json)) : Keyed Json :=
  Json.normalTable (members.filter fun m => !names.contains m.1)

theorem sorted_unknownMembers (names : List String) (members : List (String × Json)) :
    Keyed.Sorted (unknownMembers names members) :=
  Json.sorted_normalTable _

theorem values_unknownMembers (names : List String) (key : String)
    (members : List (String × Json)) : Keyed.values key (unknownMembers names members) =
      if key ∈ names then [] else (Keyed.values key members).getLast?.toList.map Json.normal := by
  let p (name : String) : Bool := !names.contains name
  rw [unknownMembers, Json.values_normalTable]
  split_ifs with hkey
  · have hp : p key = false := by simpa [p] using hkey
    rw [Keyed.values_filter_of_not hp]
    rfl
  · have hp : p key = true := by simpa [p] using hkey
    rw [Keyed.values_filter hp]

/-- Only the values of other names count. -/
theorem unknownMembers_congr {names : List String} {members members' : List (String × Json)}
    (h : ∀ key ∉ names, Keyed.values key members = Keyed.values key members') :
    unknownMembers names members = unknownMembers names members' := by
  refine (sorted_unknownMembers _ _).ext_values (sorted_unknownMembers _ _) fun key => ?_
  rw [values_unknownMembers, values_unknownMembers]
  split_ifs with hkey
  · rfl
  · rw [h key hkey]

namespace StateDef

variable {members : List (String × Json)}

def fieldNames : List String := ["initial", "entry", "exit", "on", "invoke", "states"]

/-- Decodes the value of an entry. -/
def decodeEntry (entry : String × Json) : Decoded (String × StateDef) := do
  return (entry.1, ← decode entry.2)

theorem decodeEntries_eq (entries : List (String × Json)) :
    decodeEntries entries = entries.mapM decodeEntry := by
  induction entries with
  | nil => rfl
  | cons entry rest ih =>
      rw [decodeEntries, ih, List.mapM_cons, decodeEntry]
      cases decode entry.2 with
      | error e => rfl
      | ok state => cases rest.mapM decodeEntry <;> rfl

theorem decodeTable_eq (v : Json) : decodeTable v = table decode v := by
  cases v with
  | obj entries =>
      rw [decodeTable, decodeEntries_eq]
      show _ = entries.mapM decodeEntry >>= fun entries => pure (Keyed.ofList entries)
      cases entries.mapM decodeEntry <;> rfl
  | _ => rfl

/-- Adds a member, the children included. -/
def Fields.addMember (f : Fields) (m : String × Json) : Decoded Fields :=
  if m.1 = "states" then do return { f with states := ← once f.states (table decode m.2) }
  else f.add m.1 m.2

theorem decodeFields_eq : ∀ (members : List (String × Json)) (f : Fields),
    decodeFields members f = members.foldlM Fields.addMember f
  | [], _ => rfl
  | (k, v) :: rest, f => by
      rw [decodeFields, List.foldlM_cons, Fields.addMember]
      split_ifs with hk hsome
      · simp [once, hsome, bind, Except.bind]
      · simp only [once, hsome, decodeTable_eq]
        cases table decode v with
        | error e => rfl
        | ok states => exact decodeFields_eq rest _
      · cases f.add k v with
        | error e => rfl
        | ok f => exact decodeFields_eq rest f

/-- The slots of the fields of a state. -/
@[mk_iff]
structure Fields.From (members : List (String × Json)) (f : Fields) : Prop where
  initial : Fills "initial" (optional Decode.string) members f.initial
  entry : Fills "entry" (list (Action.decode true)) members f.entry
  exit : Fills "exit" (list (Action.decode true)) members f.exit
  on : Fills "on" (table TransitionDef.decodeList) members f.on
  invoke : Fills "invoke" (optional InvokeDef.decode) members f.invoke
  states : Fills "states" (table decode) members f.states
  unknown : f.unknown = unknownMembers fieldNames members

theorem addMember_iff {f g : Fields} {m : String × Json} : f.addMember m = .ok g ↔
    Adds "initial" (optional Decode.string) m f.initial g.initial ∧
      Adds "entry" (list (Action.decode true)) m f.entry g.entry ∧
      Adds "exit" (list (Action.decode true)) m f.exit g.exit ∧
      Adds "on" (table TransitionDef.decodeList) m f.on g.on ∧
      Adds "invoke" (optional InvokeDef.decode) m f.invoke g.invoke ∧
      Adds "states" (table decode) m f.states g.states ∧
      (if m.1 ∈ fieldNames then f.unknown else Keyed.insert m.1 m.2.normal f.unknown) =
        g.unknown := by
  obtain ⟨k, v⟩ := m
  cases f
  cases g
  simp only [Fields.addMember, Fields.add, Adds, fieldNames]
  split_ifs <;> simp_all [map_eq_ok_iff] <;> tauto

theorem unknownMembers_concat (names : List String) (members : List (String × Json))
    (m : String × Json) : unknownMembers names (members ++ [m]) =
      if m.1 ∈ names then unknownMembers names members
      else Keyed.insert m.1 m.2.normal (unknownMembers names members) := by
  unfold unknownMembers
  rw [List.filter_append]
  split_ifs with h
  · simp [h]
  · simp [h, Json.normalTable_concat]

theorem fields_iff (members : List (String × Json)) (f : Fields) :
    members.foldlM Fields.addMember {} = .ok f ↔ f.From members := by
  refine foldlM_eq_ok_iff (fun f => ?_) (fun members m f => ?_) members f
  · cases f
    simp [Fields.from_iff, unknownMembers, eq_comm]
  · simp only [Fields.from_iff, fills_concat, addMember_iff, unknownMembers_concat]
    constructor
    · rintro ⟨⟨a, ha, ha'⟩, ⟨b, hb, hb'⟩, ⟨c, hc, hc'⟩, ⟨d, hd, hd'⟩, ⟨e, he, he'⟩,
        ⟨s, hs, hs'⟩, hu⟩
      exact ⟨⟨a, b, c, d, e, s, _⟩, ⟨ha, hb, hc, hd, he, hs, rfl⟩, ha', hb', hc', hd', he', hs',
        hu.symm⟩
    · rintro ⟨f', ⟨ha, hb, hc, hd, he, hs, hu⟩, ha', hb', hc', hd', he', hs', hu'⟩
      exact ⟨⟨_, ha, ha'⟩, ⟨_, hb, hb'⟩, ⟨_, hc, hc'⟩, ⟨_, hd, hd'⟩, ⟨_, he, he'⟩, ⟨_, hs, hs'⟩,
        by rw [← hu', hu]⟩

/-- What members give to a state. -/
structure Given (members : List (String × Json)) (s : StateDef) : Prop where
  initial : Gives "initial" (some none) (optional Decode.string) members s.initial
  entry : Gives "entry" (some []) (list (Action.decode true)) members s.entry
  exit : Gives "exit" (some []) (list (Action.decode true)) members s.exit
  on : Gives "on" (some []) (table TransitionDef.decodeList) members s.on
  invoke : Gives "invoke" (some none) (optional InvokeDef.decode) members s.invoke
  states : Gives "states" (some []) (table decode) members s.states
  unknown : s.unknown = unknownMembers fieldNames members

theorem decode_obj_iff {s : StateDef} : decode (.obj members) = .ok s ↔ Given members s := by
  rw [decode, decodeFields_eq]
  refine map_eq_ok_iff.trans ?_
  simp only [fields_iff]
  constructor
  · rintro ⟨f, hf, rfl⟩
    exact ⟨fills_getD_iff.mp ⟨_, hf.initial, rfl⟩, fills_getD_iff.mp ⟨_, hf.entry, rfl⟩,
      fills_getD_iff.mp ⟨_, hf.exit, rfl⟩, fills_getD_iff.mp ⟨_, hf.on, rfl⟩,
      fills_getD_iff.mp ⟨_, hf.invoke, rfl⟩, fills_getD_iff.mp ⟨_, hf.states, rfl⟩, hf.unknown⟩
  · rintro ⟨hinitial, hentry, hexit, hon, hinvoke, hstates, hunknown⟩
    obtain ⟨initial, hinitial, hi⟩ := fills_getD_iff.mpr hinitial
    obtain ⟨entry, hentry, he⟩ := fills_getD_iff.mpr hentry
    obtain ⟨exit, hexit, hx⟩ := fills_getD_iff.mpr hexit
    obtain ⟨on, hon, ho⟩ := fills_getD_iff.mpr hon
    obtain ⟨invoke, hinvoke, hv⟩ := fills_getD_iff.mpr hinvoke
    obtain ⟨states, hstates, hs⟩ := fills_getD_iff.mpr hstates
    refine ⟨⟨initial, entry, exit, on, invoke, states, s.unknown⟩,
      ⟨hinitial, hentry, hexit, hon, hinvoke, hstates, hunknown⟩, ?_⟩
    cases s
    simp only [Fields.toDef, hi, he, hx, ho, hv, hs]

end StateDef

namespace Definition

variable {members : List (String × Json)}

/-- The names of the members that a definition has beside those of its root. -/
def fieldNames : List String := ["id", "context", "meta"]

/-- The members of the root state. -/
def rootMembers (members : List (String × Json)) : List (String × Json) :=
  members.filter fun m => !fieldNames.contains m.1

theorem values_rootMembers (key : String) (members : List (String × Json)) :
    Keyed.values key (rootMembers members) =
      if key ∈ fieldNames then [] else Keyed.values key members := by
  let p (name : String) : Bool := !fieldNames.contains name
  split_ifs with hkey
  · have hp : p key = false := by simpa [p] using hkey
    exact Keyed.values_filter_of_not hp members
  · have hp : p key = true := by simpa [p] using hkey
    exact Keyed.values_filter hp members

/-- The decoder of a value that is kept as it is, in normal form. -/
def decodeValue : Json → Decoded Json := fun v => .ok v.normal

/-- The slots of the fields of a definition. -/
@[mk_iff]
structure Fields.From (members : List (String × Json)) (f : Fields) : Prop where
  id : Fills "id" Decode.string members f.id
  context : Fills "context" (optional decodeValue) members f.context
  metadata : Fills "meta" (optional decodeValue) members f.metadata
  root : f.root = (rootMembers members).reverse

theorem add_iff {f g : Fields} {m : String × Json} : f.add m = .ok g ↔
    Adds "id" Decode.string m f.id g.id ∧
      Adds "context" (optional decodeValue) m f.context g.context ∧
      Adds "meta" (optional decodeValue) m f.metadata g.metadata ∧
      (if m.1 ∈ fieldNames then f.root else m :: f.root) = g.root := by
  obtain ⟨k, v⟩ := m
  cases f
  cases g
  simp only [Fields.add, Adds, fieldNames, ← show decodeValue = fun v => .ok v.normal from rfl]
  split_ifs <;> simp_all [map_eq_ok_iff] <;> tauto

theorem rootMembers_concat (members : List (String × Json)) (m : String × Json) :
    (rootMembers (members ++ [m])).reverse =
      if m.1 ∈ fieldNames then (rootMembers members).reverse
      else m :: (rootMembers members).reverse := by
  unfold rootMembers
  rw [List.filter_append]
  split_ifs with h <;> simp [h]

theorem fields_iff (members : List (String × Json)) (f : Fields) :
    members.foldlM Fields.add {} = .ok f ↔ f.From members := by
  refine foldlM_eq_ok_iff (fun f => ?_) (fun members m f => ?_) members f
  · cases f
    simp [Fields.from_iff, rootMembers, eq_comm]
  · simp only [Fields.from_iff, fills_concat, add_iff, rootMembers_concat]
    constructor
    · rintro ⟨⟨a, ha, ha'⟩, ⟨b, hb, hb'⟩, ⟨c, hc, hc'⟩, hr⟩
      exact ⟨⟨a, b, c, _⟩, ⟨ha, hb, hc, rfl⟩, ha', hb', hc', hr.symm⟩
    · rintro ⟨f', ⟨ha, hb, hc, hr⟩, ha', hb', hc', hr'⟩
      exact ⟨⟨_, ha, ha'⟩, ⟨_, hb, hb'⟩, ⟨_, hc, hc'⟩, by rw [← hr', hr]⟩

/-- What members give to a definition. -/
structure Given (members : List (String × Json)) (d : Definition) : Prop where
  id : Gives "id" none Decode.string members d.id
  context : Gives "context" (some none) (optional decodeValue) members d.context
  metadata : Gives "meta" (some none) (optional decodeValue) members d.metadata
  root : StateDef.Given (rootMembers members) d.root

theorem decode_obj_iff {d : Definition} : decode (.obj members) = .ok d ↔ Given members d := by
  simp only [decode, bind_eq_ok_iff, fields_iff, StateDef.decode_obj_iff, pure_eq_ok_iff]
  constructor
  · rintro ⟨f, hf, id, hid, root, hroot, rfl⟩
    rw [hf.root, List.reverse_reverse] at hroot
    exact ⟨fills_required_iff.mp ⟨_, hf.id, hid⟩, fills_getD_iff.mp ⟨_, hf.context, rfl⟩,
      fills_getD_iff.mp ⟨_, hf.metadata, rfl⟩, hroot⟩
  · rintro ⟨hid, hcontext, hmetadata, hroot⟩
    obtain ⟨id, hid, hi⟩ := fills_required_iff.mpr hid
    obtain ⟨context, hcontext, hc⟩ := fills_getD_iff.mpr hcontext
    obtain ⟨metadata, hmetadata, hm⟩ := fills_getD_iff.mpr hmetadata
    refine ⟨⟨id, context, metadata, (rootMembers members).reverse⟩,
      ⟨hid, hcontext, hmetadata, rfl⟩, d.id, hi, d.root, ?_, ?_⟩
    · rwa [List.reverse_reverse]
    · simp only [hc, hm]

end Definition

end Statechart
