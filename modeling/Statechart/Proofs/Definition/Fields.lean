import Statechart.Definition.Decode
import Statechart.Proofs.Decode.Record

/-!
# What definitions are decoded to

For each record of a definition, the values that its members have to give to its fields for the
record to be decoded to them. The order of the members does not come into it.
-/
namespace Statechart
open Decode

/-- The documents of a provider. -/
inductive Provider.Reads : Json → Provider → Prop where
  | literal (v : Json) : Reads (.obj [("literal", v)]) (.literal v.normal)
  | context (path : String) : Reads (.obj [("context", .str path)]) (.context path)
  | event (path : String) : Reads (.obj [("event", .str path)]) (.event path)
  | expression {source : String} {e : Expression} (h : Expression.read source = .ok e) :
    Reads (.obj [("expr", .str source)]) (.expression e)

theorem string_eq_ok_iff {v : Json} {s : String} : Decode.string v = .ok s ↔ v = .str s := by
  cases v <;> simp [Decode.string]

theorem Provider.decode_expr_iff {s : String} {p : Provider} :
    Provider.decode (.obj [("expr", .str s)]) = .ok p ↔
      ∃ e, Expression.read s = .ok e ∧ p = .expression e := by
  have hstring : Decode.string (.str s) = .ok s := rfl
  cases h : Expression.read s <;>
    simp [Provider.decode, hstring, h, bind, Except.bind, pure, Except.pure, eq_comm]

theorem Provider.decode_ok_iff {v : Json} {p : Provider} :
    Provider.decode v = .ok p ↔ Provider.Reads v p := by
  constructor
  · intro h
    unfold Provider.decode at h
    split at h
    · split_ifs at h with hliteral hcontext hevent hexpr
      · cases h
        rw [hliteral]
        exact .literal _
      · obtain ⟨path, hpath, rfl⟩ := map_eq_ok_iff.mp h
        rw [hcontext, string_eq_ok_iff.mp hpath]
        exact .context path
      · obtain ⟨path, hpath, rfl⟩ := map_eq_ok_iff.mp h
        rw [hevent, string_eq_ok_iff.mp hpath]
        exact .event path
      · obtain ⟨source, hsource, h⟩ := bind_eq_ok_iff.mp h
        split at h
        · next e he =>
            cases h
            rw [hexpr, string_eq_ok_iff.mp hsource]
            exact .expression he
        · cases h
    · cases h
  · rintro (_ | _ | _ | h)
    · rfl
    · rfl
    · rfl
    · exact Provider.decode_expr_iff.mpr ⟨_, h, rfl⟩

theorem Guard.decode_str_iff {s : String} {g : Guard} :
    Guard.decode (.str s) = .ok g ↔ ∃ e, Expression.read s = .ok e ∧ g = .expression e := by
  cases h : Expression.read s <;> simp [Guard.decode, h, eq_comm]

theorem Guard.decode_obj_iff {members : List (String × Json)} {g : Guard} :
    Guard.decode (.obj members) = .ok g ↔
      ∃ name, Gives "predicate" none Decode.string members name ∧ g = .predicate name := by
  simp only [Guard.decode, bind_eq_ok_iff, gives_required_iff, pure_eq_ok_iff]
  grind

namespace Action

variable {members : List (String × Json)}

/-- The slots of the fields of a log action. -/
@[mk_iff]
structure Fields.FromLog (members : List (String × Json)) (f : Fields) : Prop where
  label : Fills "label" (optional Decode.string) members f.label
  level : Fills "level" LogLevel.decode members f.level
  message : Fills "message" Provider.decode members f.message
  others : f.key = none ∧ f.value = none ∧ f.event = none ∧ f.data = none

theorem addLog_iff {f g : Fields} {m : String × Json} : f.addLog m = .ok g ↔
    Adds "label" (optional Decode.string) m f.label g.label ∧
      Adds "level" LogLevel.decode m f.level g.level ∧
      Adds "message" Provider.decode m f.message g.message ∧
      f.key = g.key ∧ f.value = g.value ∧ f.event = g.event ∧ f.data = g.data := by
  obtain ⟨k, v⟩ := m
  cases f
  cases g
  simp only [Fields.addLog, Adds]
  split_ifs <;> simp_all [map_eq_ok_iff] <;> tauto

theorem logFields_iff (members : List (String × Json)) (f : Fields) :
    members.foldlM Fields.addLog {} = .ok f ↔ f.FromLog members := by
  refine foldlM_eq_ok_iff (fun f => ?_) (fun members m f => ?_) members f
  · cases f
    simp only [Fields.fromLog_iff, fills_nil, Fields.mk.injEq, eq_comm]
  · simp only [Fields.fromLog_iff, fills_concat, addLog_iff]
    constructor
    · rintro ⟨⟨a, ha, ha'⟩, ⟨b, hb, hb'⟩, ⟨c, hc, hc'⟩, hkey, hvalue, hevent, hdata⟩
      exact ⟨{ label := a, level := b, message := c }, ⟨ha, hb, hc, rfl, rfl, rfl, rfl⟩,
        ha', hb', hc', hkey.symm, hvalue.symm, hevent.symm, hdata.symm⟩
    · rintro ⟨f', ⟨ha, hb, hc, hnone⟩, ha', hb', hc', hkey, hvalue, hevent, hdata⟩
      exact ⟨⟨_, ha, ha'⟩, ⟨_, hb, hb'⟩, ⟨_, hc, hc'⟩, by rwa [← hkey, ← hvalue, ← hevent, ← hdata]⟩

/-- The slots of the fields of an assignment. -/
@[mk_iff]
structure Fields.FromAssign (members : List (String × Json)) (f : Fields) : Prop where
  key : Fills "key" Decode.string members f.key
  value : Fills "value" Provider.decode members f.value
  others : f.label = none ∧ f.level = none ∧ f.message = none ∧ f.event = none ∧ f.data = none

theorem addAssign_iff {f g : Fields} {m : String × Json} : f.addAssign m = .ok g ↔
    Adds "key" Decode.string m f.key g.key ∧ Adds "value" Provider.decode m f.value g.value ∧
      f.label = g.label ∧ f.level = g.level ∧ f.message = g.message ∧ f.event = g.event ∧
      f.data = g.data := by
  obtain ⟨k, v⟩ := m
  cases f
  cases g
  simp only [Fields.addAssign, Adds]
  split_ifs <;> simp_all [map_eq_ok_iff] <;> tauto

theorem assignFields_iff (members : List (String × Json)) (f : Fields) :
    members.foldlM Fields.addAssign {} = .ok f ↔ f.FromAssign members := by
  refine foldlM_eq_ok_iff (fun f => ?_) (fun members m f => ?_) members f
  · cases f
    simp only [Fields.fromAssign_iff, fills_nil, Fields.mk.injEq, eq_comm]
    tauto
  · simp only [Fields.fromAssign_iff, fills_concat, addAssign_iff]
    constructor
    · rintro ⟨⟨a, ha, ha'⟩, ⟨b, hb, hb'⟩, hlabel, hlevel, hmessage, hevent, hdata⟩
      exact ⟨{ key := a, value := b }, ⟨ha, hb, rfl, rfl, rfl, rfl, rfl⟩,
        ha', hb', hlabel.symm, hlevel.symm, hmessage.symm, hevent.symm, hdata.symm⟩
    · rintro ⟨f', ⟨ha, hb, hnone⟩, ha', hb', hlabel, hlevel, hmessage, hevent, hdata⟩
      exact ⟨⟨_, ha, ha'⟩, ⟨_, hb, hb'⟩,
        by rwa [← hlabel, ← hlevel, ← hmessage, ← hevent, ← hdata]⟩

/-- The slots of the fields of a raise action. -/
@[mk_iff]
structure Fields.FromRaise (members : List (String × Json)) (f : Fields) : Prop where
  event : Fills "event" Decode.string members f.event
  data : Fills "data" (optional Provider.decode) members f.data
  others : f.label = none ∧ f.level = none ∧ f.message = none ∧ f.key = none ∧ f.value = none

theorem addRaise_iff {f g : Fields} {m : String × Json} : f.addRaise m = .ok g ↔
    Adds "event" Decode.string m f.event g.event ∧
      Adds "data" (optional Provider.decode) m f.data g.data ∧
      f.label = g.label ∧ f.level = g.level ∧ f.message = g.message ∧ f.key = g.key ∧
      f.value = g.value := by
  obtain ⟨k, v⟩ := m
  cases f
  cases g
  simp only [Fields.addRaise, Adds]
  split_ifs <;> simp_all [map_eq_ok_iff] <;> tauto

theorem raiseFields_iff (members : List (String × Json)) (f : Fields) :
    members.foldlM Fields.addRaise {} = .ok f ↔ f.FromRaise members := by
  refine foldlM_eq_ok_iff (fun f => ?_) (fun members m f => ?_) members f
  · cases f
    simp only [Fields.fromRaise_iff, fills_nil, Fields.mk.injEq, eq_comm]
    tauto
  · simp only [Fields.fromRaise_iff, fills_concat, addRaise_iff]
    constructor
    · rintro ⟨⟨a, ha, ha'⟩, ⟨b, hb, hb'⟩, hlabel, hlevel, hmessage, hkey, hvalue⟩
      exact ⟨{ event := a, data := b }, ⟨ha, hb, rfl, rfl, rfl, rfl, rfl⟩,
        ha', hb', hlabel.symm, hlevel.symm, hmessage.symm, hkey.symm, hvalue.symm⟩
    · rintro ⟨f', ⟨ha, hb, hnone⟩, ha', hb', hlabel, hlevel, hmessage, hkey, hvalue⟩
      exact ⟨⟨_, ha, ha'⟩, ⟨_, hb, hb'⟩,
        by rwa [← hlabel, ← hlevel, ← hmessage, ← hkey, ← hvalue]⟩

/-- What members give to an action of a type. -/
inductive Given (members : List (String × Json)) : String → Action → Prop where
  | log {label level message}
      (hlabel : Gives "label" (some none) (optional Decode.string) members label)
      (hlevel : Gives "level" (some .info) LogLevel.decode members level)
      (hmessage : Gives "message" none Provider.decode members message) :
    Given members "log" (log label level message)
  | assign {key value} (hkey : Gives "key" none Decode.string members key)
      (hvalue : Gives "value" none Provider.decode members value) :
    Given members "assign" (assign key value)
  | raise {event data} (hevent : Gives "event" none Decode.string members event)
      (hdata : Gives "data" (some none) (optional Provider.decode) members data) :
    Given members "raise" (raise event data)

theorem ofMembers_iff {type : String} {a : Action} :
    ofMembers type members = .ok a ↔ Given members type a := by
  constructor
  · intro h
    unfold ofMembers at h
    split_ifs at h with hlog hassign hraise
    · simp only [bind_eq_ok_iff, logFields_iff, pure_eq_ok_iff] at h
      obtain ⟨f, hf, message, hmessage, rfl⟩ := h
      rw [hlog]
      exact .log (fills_getD_iff.mp ⟨_, hf.label, rfl⟩) (fills_getD_iff.mp ⟨_, hf.level, rfl⟩)
        (fills_required_iff.mp ⟨_, hf.message, hmessage⟩)
    · simp only [bind_eq_ok_iff, assignFields_iff, pure_eq_ok_iff] at h
      obtain ⟨f, hf, key, hkey, value, hvalue, rfl⟩ := h
      rw [hassign]
      exact .assign (fills_required_iff.mp ⟨_, hf.key, hkey⟩)
        (fills_required_iff.mp ⟨_, hf.value, hvalue⟩)
    · simp only [bind_eq_ok_iff, raiseFields_iff, pure_eq_ok_iff] at h
      obtain ⟨f, hf, event, hevent, rfl⟩ := h
      rw [hraise]
      exact .raise (fills_required_iff.mp ⟨_, hf.event, hevent⟩)
        (fills_getD_iff.mp ⟨_, hf.data, rfl⟩)
  · rintro (⟨hlabel, hlevel, hmessage⟩ | ⟨hkey, hvalue⟩ | ⟨hevent, hdata⟩)
    · obtain ⟨label, hlabel', rfl⟩ := fills_getD_iff.mpr hlabel
      obtain ⟨level, hlevel', rfl⟩ := fills_getD_iff.mpr hlevel
      obtain ⟨message, hmessage', hm⟩ := fills_required_iff.mpr hmessage
      have hf := (logFields_iff members { label, level, message }).mpr
        ⟨hlabel', hlevel', hmessage', rfl, rfl, rfl, rfl⟩
      simp [ofMembers, bind_eq_ok_iff, hf, hm]
    · obtain ⟨key, hkey', hk⟩ := fills_required_iff.mpr hkey
      obtain ⟨value, hvalue', hv⟩ := fills_required_iff.mpr hvalue
      have hf := (assignFields_iff members { key, value }).mpr
        ⟨hkey', hvalue', rfl, rfl, rfl, rfl, rfl⟩
      simp [ofMembers, bind_eq_ok_iff, hf, hk, hv]
    · obtain ⟨event, hevent', he⟩ := fills_required_iff.mpr hevent
      obtain ⟨data, hdata', rfl⟩ := fills_getD_iff.mpr hdata
      have hf := (raiseFields_iff members { event, data }).mpr
        ⟨hevent', hdata', rfl, rfl, rfl, rfl, rfl⟩
      simp [ofMembers, bind_eq_ok_iff, hf, he]

theorem decode_obj_iff {numbered : Bool} {a : Action} :
    decode numbered (.obj members) = .ok a ↔
      ∃ type, Gives "type" none (typeName numbered) members type ∧ Given members type a := by
  simp only [decode, bind_eq_ok_iff, gives_required_iff, ofMembers_iff]
  grind

/-- The names of the fields of the type that an array begins with. -/
def namesOf? (numbered : Bool) (type : Json) : Option (String × List String) :=
  match typeName numbered type with
  | .ok type => (fieldNames.lookup type).map (Prod.mk type)
  | .error _ => none

theorem decode_arr_iff {numbered : Bool} {type : Json} {items : List Json} {a : Action} :
    decode numbered (.arr (type :: items)) = .ok a ↔
      ∃ name names, namesOf? numbered type = some (name, names) ∧ items.length ≤ names.length ∧
        Given (names.zip items) name a := by
  simp only [decode, bind_eq_ok_iff, required_eq_ok_iff, record_arr_iff, ofMembers_iff, namesOf?]
  cases typeName numbered type with
  | error e => simp
  | ok name => cases fieldNames.lookup name <;> simp

end Action

namespace TransitionDef

variable {members : List (String × Json)}

def fieldNames : List String := ["target", "guard", "actions"]

/-- The slots of the fields of a transition. -/
@[mk_iff]
structure Fields.From (members : List (String × Json)) (f : Fields) : Prop where
  known : ∀ m ∈ members, m.1 ∈ fieldNames
  target : Fills "target" (optional Decode.string) members f.target
  guard : Fills "guard" (optional Guard.decode) members f.guard
  actions : Fills "actions" (list (Action.decode true)) members f.actions

theorem add_iff {f g : Fields} {m : String × Json} : f.add m = .ok g ↔
    m.1 ∈ fieldNames ∧ Adds "target" (optional Decode.string) m f.target g.target ∧
      Adds "guard" (optional Guard.decode) m f.guard g.guard ∧
      Adds "actions" (list (Action.decode true)) m f.actions g.actions := by
  obtain ⟨k, v⟩ := m
  cases f
  cases g
  simp only [Fields.add, Adds, fieldNames]
  split_ifs <;> simp_all [map_eq_ok_iff] <;> tauto

theorem fields_iff (members : List (String × Json)) (f : Fields) :
    members.foldlM Fields.add {} = .ok f ↔ f.From members := by
  refine foldlM_eq_ok_iff (fun f => ?_) (fun members m f => ?_) members f
  · cases f
    simp [Fields.from_iff, eq_comm]
  · simp only [Fields.from_iff, List.forall_mem_append, List.forall_mem_singleton, fills_concat,
      add_iff]
    constructor
    · rintro ⟨⟨hms, hm⟩, ⟨a, ha, ha'⟩, ⟨b, hb, hb'⟩, c, hc, hc'⟩
      exact ⟨⟨a, b, c⟩, ⟨hms, ha, hb, hc⟩, hm, ha', hb', hc'⟩
    · rintro ⟨f', ⟨hms, ha, hb, hc⟩, hm, ha', hb', hc'⟩
      exact ⟨⟨hms, hm⟩, ⟨_, ha, ha'⟩, ⟨_, hb, hb'⟩, _, hc, hc'⟩

/-- What members give to a transition. -/
structure Given (members : List (String × Json)) (t : TransitionDef) : Prop where
  known : ∀ m ∈ members, m.1 ∈ fieldNames
  target : Gives "target" (some none) (optional Decode.string) members t.target
  guard : Gives "guard" (some none) (optional Guard.decode) members t.guard
  actions : Gives "actions" (some []) (list (Action.decode true)) members t.actions

theorem decode_obj_iff {t : TransitionDef} : decode (.obj members) = .ok t ↔ Given members t := by
  simp only [decode, bind_eq_ok_iff, fields_iff, pure_eq_ok_iff]
  constructor
  · rintro ⟨f, hf, rfl⟩
    exact ⟨hf.known, fills_getD_iff.mp ⟨_, hf.target, rfl⟩, fills_getD_iff.mp ⟨_, hf.guard, rfl⟩,
      fills_getD_iff.mp ⟨_, hf.actions, rfl⟩⟩
  · rintro ⟨hknown, htarget, hguard, hactions⟩
    obtain ⟨target, htarget, ht⟩ := fills_getD_iff.mpr htarget
    obtain ⟨guard, hguard, hg⟩ := fills_getD_iff.mpr hguard
    obtain ⟨actions, hactions, ha⟩ := fills_getD_iff.mpr hactions
    refine ⟨⟨target, guard, actions⟩, ⟨hknown, htarget, hguard, hactions⟩, ?_⟩
    simp only [ht, hg, ha]

end TransitionDef

namespace InvokeDef

variable {members : List (String × Json)}

def fieldNames : List String := ["id", "src", "input"]

/-- The slots of the fields of an invocation. -/
@[mk_iff]
structure Fields.From (members : List (String × Json)) (f : Fields) : Prop where
  known : ∀ m ∈ members, m.1 ∈ fieldNames
  id : Fills "id" (optional Decode.string) members f.id
  src : Fills "src" Decode.string members f.src
  input : Fills "input" (optional Provider.decode) members f.input

theorem add_iff {f g : Fields} {m : String × Json} : f.add m = .ok g ↔
    m.1 ∈ fieldNames ∧ Adds "id" (optional Decode.string) m f.id g.id ∧
      Adds "src" Decode.string m f.src g.src ∧
      Adds "input" (optional Provider.decode) m f.input g.input := by
  obtain ⟨k, v⟩ := m
  cases f
  cases g
  simp only [Fields.add, Adds, fieldNames]
  split_ifs <;> simp_all [map_eq_ok_iff] <;> tauto

theorem fields_iff (members : List (String × Json)) (f : Fields) :
    members.foldlM Fields.add {} = .ok f ↔ f.From members := by
  refine foldlM_eq_ok_iff (fun f => ?_) (fun members m f => ?_) members f
  · cases f
    simp [Fields.from_iff, eq_comm]
  · simp only [Fields.from_iff, List.forall_mem_append, List.forall_mem_singleton, fills_concat,
      add_iff]
    constructor
    · rintro ⟨⟨hms, hm⟩, ⟨a, ha, ha'⟩, ⟨b, hb, hb'⟩, c, hc, hc'⟩
      exact ⟨⟨a, b, c⟩, ⟨hms, ha, hb, hc⟩, hm, ha', hb', hc'⟩
    · rintro ⟨f', ⟨hms, ha, hb, hc⟩, hm, ha', hb', hc'⟩
      exact ⟨⟨hms, hm⟩, ⟨_, ha, ha'⟩, ⟨_, hb, hb'⟩, _, hc, hc'⟩

/-- What members give to an invocation. -/
structure Given (members : List (String × Json)) (i : InvokeDef) : Prop where
  known : ∀ m ∈ members, m.1 ∈ fieldNames
  id : Gives "id" (some none) (optional Decode.string) members i.id
  src : Gives "src" none Decode.string members i.src
  input : Gives "input" (some none) (optional Provider.decode) members i.input

theorem decodeMembers_iff {i : InvokeDef} :
    (do
      let f ← members.foldlM Fields.add {}
      return ⟨f.id.getD none, ← Decode.required f.src, f.input.getD none⟩ : Decoded InvokeDef) =
      .ok i ↔ Given members i := by
  simp only [bind_eq_ok_iff, fields_iff, pure_eq_ok_iff]
  constructor
  · rintro ⟨f, hf, src, hsrc, rfl⟩
    exact ⟨hf.known, fills_getD_iff.mp ⟨_, hf.id, rfl⟩, fills_required_iff.mp ⟨_, hf.src, hsrc⟩,
      fills_getD_iff.mp ⟨_, hf.input, rfl⟩⟩
  · rintro ⟨hknown, hid, hsrc, hinput⟩
    obtain ⟨id, hid, hi⟩ := fills_getD_iff.mpr hid
    obtain ⟨src, hsrc, hs⟩ := fills_required_iff.mpr hsrc
    obtain ⟨input, hinput, hn⟩ := fills_getD_iff.mpr hinput
    refine ⟨⟨id, src, input⟩, ⟨hknown, hid, hsrc, hinput⟩, i.src, hs, ?_⟩
    simp only [hi, hn]

theorem decode_obj_iff {i : InvokeDef} : decode (.obj members) = .ok i ↔ Given members i :=
  decodeMembers_iff

theorem decode_arr_iff {items : List Json} {i : InvokeDef} :
    decode (.arr items) = .ok i ↔ items.length ≤ 3 ∧ Given (fieldNames.zip items) i := by
  rw [← decodeMembers_iff]
  exact record_arr_iff

end InvokeDef

end Statechart
