import Statechart.Proofs.Definition.Rewording
import Statechart.Proofs.Definition.Tree

/-!
# Ways to write a tree of states

A state and a definition may be written in several ways, and so may every state below them. Two
documents that differ in any number of such changes are decoded to the same definition.
-/
namespace Statechart
open Decode

namespace StateDef

/-- A member that says that there is nothing of a kind. -/
def Blank (k : String) (v : Json) : Prop :=
  ((k = "initial" ∨ k = "invoke") ∧ v = .null) ∨ ((k = "entry" ∨ k = "exit") ∧ v = .arr []) ∨
    ((k = "on" ∨ k = "states") ∧ v = .obj [])

/-- A change of a member that leaves the states below as they are written. -/
inductive Change : String → Json → Json → Prop where
  | entry {v w} (h : ItemRewording Action.Rewording v w) : Change "entry" v w
  | exit {v w} (h : ItemRewording Action.Rewording v w) : Change "exit" v w
  | on {v w} (h : TableRewording TransitionDef.ListRewording v w) : Change "on" v w
  | invoke {v w} (h : InvokeDef.Rewording v w) : Change "invoke" v w
  | states {v w} (h : TableRewording (fun _ _ => False) v w) : Change "states" v w

inductive Rewording : Json → Json → Prop where
  | members {members members'} (h : MemberRewording Blank Change members members') :
    Rewording (.obj members) (.obj members')
  /-- A state below is written in another way. -/
  | child {before after first last id v w} (h : Rewording v w) :
    Rewording (.obj (before ++ ("states", .obj (first ++ (id, v) :: last)) :: after))
      (.obj (before ++ ("states", .obj (first ++ (id, w) :: last)) :: after))

/-- A change of a member after which its field is decoded to the same. -/
structure Harmless (k : String) (v w : Json) : Prop where
  known : k ∈ ["entry", "exit", "on", "invoke", "states"]
  actions : k = "entry" ∨ k = "exit" →
    Agree (list (Action.decode true) v) (list (Action.decode true) w)
  on : k = "on" → Agree (table TransitionDef.decodeList v) (table TransitionDef.decodeList w)
  invoke : k = "invoke" → Agree (optional InvokeDef.decode v) (optional InvokeDef.decode w)
  states : k = "states" → Agree (table decode v) (table decode w)

theorem Harmless.of_states {v w : Json} (h : Agree (table decode v) (table decode w)) :
    Harmless "states" v w :=
  ⟨by simp, by simp, by simp, by simp, fun _ => h⟩

theorem Change.harmless {k : String} {v w : Json} (h : Change k v w) : Harmless k v w := by
  cases h with
  | entry h =>
      have hagree := h.agree fun _ _ => Action.Rewording.agree
      exact ⟨by simp, fun _ => hagree, by simp, by simp, by simp⟩
  | exit h =>
      have hagree := h.agree fun _ _ => Action.Rewording.agree
      exact ⟨by simp, fun _ => hagree, by simp, by simp, by simp⟩
  | on h =>
      have hagree := h.agree fun _ _ => TransitionDef.ListRewording.agree
      exact ⟨by simp, by simp, fun _ => hagree, by simp, by simp⟩
  | invoke h => exact ⟨by simp, by simp, by simp, fun _ => h.agree_optional, by simp⟩
  | states h => exact .of_states (h.agree fun _ _ hfalse => hfalse.elim)

theorem Blank.known {k : String} {v : Json} (h : Blank k v) : k ∈ fieldNames := by
  rcases h with ⟨rfl | rfl, _⟩ | ⟨rfl | rfl, _⟩ | ⟨rfl | rfl, _⟩ <;> simp [fieldNames]

theorem Harmless.mem_fieldNames {k : String} {v w : Json} (h : Harmless k v w) : k ∈ fieldNames :=
  List.mem_cons_of_mem _ h.known

variable {members members' : List (String × Json)}

/-- What has an unknown name is left as it is. -/
theorem unknownMembers_rewording (h : MemberRewording Blank Harmless members members') :
    unknownMembers fieldNames members = unknownMembers fieldNames members' := by
  refine unknownMembers_congr fun key hkey => ?_
  have hvalues := h.values key
  generalize Keyed.values key members = values at hvalues ⊢
  generalize Keyed.values key members' = values' at hvalues ⊢
  cases hvalues with
  | same => rfl
  | blank h => exact absurd h.known hkey
  | change h => exact absurd h.mem_fieldNames hkey

theorem given_iff {s : StateDef} (h : MemberRewording Blank Harmless members members') :
    Given members s ↔ Given members' s := by
  have hinitial : SameField "initial" (some none) (optional Decode.string) members members' :=
    h.sameField (by simp [Blank]) fun _ _ h => absurd h.known (by simp)
  have hentry : SameField "entry" (some []) (list (Action.decode true)) members members' :=
    h.sameField (by simp [Blank]) fun _ _ h => h.actions (.inl rfl)
  have hexit : SameField "exit" (some []) (list (Action.decode true)) members members' :=
    h.sameField (by simp [Blank]) fun _ _ h => h.actions (.inr rfl)
  have hon : SameField "on" (some []) (table TransitionDef.decodeList) members members' :=
    h.sameField (by simp [Blank]) fun _ _ h => h.on rfl
  have hinvoke : SameField "invoke" (some none) (optional InvokeDef.decode) members members' :=
    h.sameField (by simp [Blank]) fun _ _ h => h.invoke rfl
  have hstates : SameField "states" (some []) (table decode) members members' :=
    h.sameField (by simp [Blank]) fun _ _ h => h.states rfl
  have hunknown := unknownMembers_rewording h
  constructor
  · rintro ⟨ha, hb, hc, hd, he, hf, hu⟩
    exact ⟨(hinitial _).mp ha, (hentry _).mp hb, (hexit _).mp hc, (hon _).mp hd,
      (hinvoke _).mp he, (hstates _).mp hf, hu.trans hunknown⟩
  · rintro ⟨ha, hb, hc, hd, he, hf, hu⟩
    exact ⟨(hinitial _).mpr ha, (hentry _).mpr hb, (hexit _).mpr hc, (hon _).mpr hd,
      (hinvoke _).mpr he, (hstates _).mpr hf, hu.trans hunknown.symm⟩

/-- A state in a table is written in another way. -/
theorem agree_child {first last : List (String × Json)} {id : String} {v w : Json}
    (h : Agree (decode v) (decode w)) :
    Agree (table decode (.obj (first ++ (id, v) :: last)))
      (table decode (.obj (first ++ (id, w) :: last))) := by
  have hrewording : TableRewording (fun v w => Agree (decode v) (decode w))
      (.obj (first ++ (id, v) :: last)) (.obj (first ++ (id, w) :: last)) := .entries (.change h)
  exact hrewording.agree fun _ _ h => h

theorem Rewording.agree {v w : Json} (h : Rewording v w) : Agree (decode v) (decode w) := by
  induction h with
  | members h =>
      intro s
      rw [decode_obj_iff, decode_obj_iff,
        given_iff (h.mono (fun _ _ h => h) fun _ _ _ h => h.harmless)]
  | child _ ih =>
      intro s
      rw [decode_obj_iff, decode_obj_iff, given_iff (.change (.of_states (agree_child ih)))]

end StateDef

namespace Definition

/-- A member that says that there is nothing of a kind, for the root or the chart. -/
def Blank (k : String) (v : Json) : Prop :=
  StateDef.Blank k v ∨ ((k = "context" ∨ k = "meta") ∧ v = .null)

/-- The default context and the metadata may be written in another order. -/
inductive Change : String → Json → Json → Prop where
  | root {k v w} (h : StateDef.Change k v w) : Change k v w
  | context {v w : Json} (h : v.normal = w.normal) : Change "context" v w
  | metadata {v w : Json} (h : v.normal = w.normal) : Change "meta" v w

inductive Rewording : Json → Json → Prop where
  | members {members members'} (h : MemberRewording Blank Change members members') :
    Rewording (.obj members) (.obj members')
  /-- A state of the chart is written in another way. -/
  | child {before after first last id v w} (h : StateDef.Rewording v w) :
    Rewording (.obj (before ++ ("states", .obj (first ++ (id, v) :: last)) :: after))
      (.obj (before ++ ("states", .obj (first ++ (id, w) :: last)) :: after))

/-- Two documents differ only in the way in which they are written. -/
def SameForm : Json → Json → Prop := Relation.EqvGen Rewording

/-- A change of a member after which its field is decoded to the same. -/
structure Harmless (k : String) (v w : Json) : Prop where
  root : k ∉ fieldNames → StateDef.Harmless k v w
  value : k ∈ fieldNames → k ≠ "id" ∧ v.normal = w.normal

theorem Harmless.of_root {k : String} {v w : Json} (h : StateDef.Harmless k v w) :
    Harmless k v w := by
  refine ⟨fun _ => h, fun hk => absurd h.known ?_⟩
  simp only [fieldNames, List.mem_cons, List.not_mem_nil, or_false] at hk
  rcases hk with rfl | rfl | rfl <;> simp

theorem Change.harmless {k : String} {v w : Json} (h : Change k v w) : Harmless k v w := by
  cases h with
  | root h => exact .of_root h.harmless
  | context h => exact ⟨by simp [fieldNames], fun _ => ⟨by simp, h⟩⟩
  | metadata h => exact ⟨by simp [fieldNames], fun _ => ⟨by simp, h⟩⟩

theorem decodeValue_congr {v w : Json} (h : v.normal = w.normal) :
    Agree (optional decodeValue v) (optional decodeValue w) := by
  have hnormal (u : Json) : optional decodeValue u =
      if u.normal.isNull then .ok none else .ok (some u.normal) := by
    cases u <;> rfl
  intro a
  rw [hnormal, hnormal, h]

variable {members members' : List (String × Json)}

theorem rootGiven_iff {s : StateDef} (h : MemberRewording Blank Harmless members members') :
    StateDef.Given (rootMembers members) s ↔ StateDef.Given (rootMembers members') s := by
  rcases h.filter fun name => !fieldNames.contains name with heq | hroot
  · rw [rootMembers, heq, ← rootMembers]
  · refine StateDef.given_iff (hroot.mono ?_ ?_)
    · rintro k v ⟨hk, h | ⟨rfl | rfl, _⟩⟩
      · exact h
      · simp [fieldNames] at hk
      · simp [fieldNames] at hk
    · rintro k v w ⟨hk, h⟩
      exact h.root (by simpa using hk)

theorem given_iff {d : Definition} (h : MemberRewording Blank Harmless members members') :
    Given members d ↔ Given members' d := by
  have hid : SameField "id" none Decode.string members members' :=
    h.sameField (by simp [Blank, StateDef.Blank]) fun _ _ h =>
      absurd rfl (h.value (by simp [fieldNames])).1
  have hcontext : SameField "context" (some none) (optional decodeValue) members members' :=
    h.sameField (by simp [Blank, StateDef.Blank]) fun _ _ h =>
      decodeValue_congr (h.value (by simp [fieldNames])).2
  have hmetadata : SameField "meta" (some none) (optional decodeValue) members members' :=
    h.sameField (by simp [Blank, StateDef.Blank]) fun _ _ h =>
      decodeValue_congr (h.value (by simp [fieldNames])).2
  have hroot := rootGiven_iff h (s := d.root)
  constructor
  · rintro ⟨ha, hb, hc, hd⟩
    exact ⟨(hid _).mp ha, (hcontext _).mp hb, (hmetadata _).mp hc, hroot.mp hd⟩
  · rintro ⟨ha, hb, hc, hd⟩
    exact ⟨(hid _).mpr ha, (hcontext _).mpr hb, (hmetadata _).mpr hc, hroot.mpr hd⟩

theorem Rewording.agree {v w : Json} (h : Rewording v w) : Agree (decode v) (decode w) := by
  intro d
  cases h with
  | members h =>
      rw [decode_obj_iff, decode_obj_iff,
        given_iff (h.mono (fun _ _ h => h) fun _ _ _ h => h.harmless)]
  | child h =>
      rw [decode_obj_iff, decode_obj_iff,
        given_iff (.change (.of_root (.of_states (StateDef.agree_child h.agree))))]

/-- The members of a definition may change again and again. -/
theorem SameForm.of_members (h : Relation.EqvGen (MemberRewording Blank Change) members members') :
    SameForm (.obj members) (.obj members') := by
  induction h with
  | rel _ _ h => exact .rel _ _ (.members h)
  | refl _ => exact .refl _
  | symm _ _ _ ih => exact .symm _ _ ih
  | trans _ _ _ _ _ ih ih' => exact .trans _ _ _ ih ih'

/-- The members of a definition may stand in any order. -/
theorem SameForm.of_perm (h : members.Perm members') (hnames : (Keyed.keys members).Nodup) :
    SameForm (.obj members) (.obj members') := by
  refine .of_members ?_
  simpa only [List.nil_append, List.append_nil] using eqvGen_of_perm h hnames [] []

/-- Documents of the same form are decoded to the same definition, if to any. -/
theorem SameForm.agree {v w : Json} (h : SameForm v w) : Agree (decode v) (decode w) := by
  induction h with
  | rel _ _ h => exact h.agree
  | refl _ => exact .refl _
  | symm _ _ _ ih => exact fun d => (ih d).symm
  | trans _ _ _ _ _ ih ih' => exact fun d => (ih d).trans (ih' d)

end Definition

end Statechart
