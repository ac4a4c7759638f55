import Statechart.Proofs.Decode.Rewording
import Statechart.Proofs.Definition.Fields

/-!
# Ways to write a transition, an action or an invocation

The records of a definition may be written in several ways: a transition by its target or as a
record, what is empty or absent written out or left out, an expression with blanks around it,
members in any order. A single change of that kind anywhere in a document leaves what it is decoded
to.
-/
namespace Statechart
open Decode

variable {v w : Json}

theorem Expression.read_congr {s t : String} (h : Text.trim s = Text.trim t) :
    Expression.read s = Expression.read t := by
  have hread : Expr.read s = Expr.read t := by rw [← read_trim, h, read_trim]
  unfold Expression.read
  split <;> split <;> simp_all

/-- A literal is written in another order, or an expression with other blanks around it. -/
inductive Provider.Rewording : Json → Json → Prop where
  | literal {v w : Json} (h : v.normal = w.normal) :
    Rewording (.obj [("literal", v)]) (.obj [("literal", w)])
  | expression {s t : String} (h : Text.trim s = Text.trim t) :
    Rewording (.obj [("expr", .str s)]) (.obj [("expr", .str t)])

theorem Provider.Rewording.agree (h : Provider.Rewording v w) :
    Agree (Provider.decode v) (Provider.decode w) := by
  cases h with
  | literal h => simp [Agree, Provider.decode, h]
  | expression h =>
      intro p
      rw [Provider.decode_expr_iff, Provider.decode_expr_iff, Expression.read_congr h]

theorem Provider.Rewording.agree_optional (h : Provider.Rewording v w) :
    Agree (optional Provider.decode v) (optional Provider.decode w) :=
  Decode.agree_optional h.agree (by rintro rfl; cases h) (by rintro rfl; cases h)

/-- An expression is written with other blanks around it, or members in another order. -/
inductive Guard.Rewording : Json → Json → Prop where
  | expression {s t : String} (h : Text.trim s = Text.trim t) : Rewording (.str s) (.str t)
  | members {members members'}
      (h : MemberRewording (fun _ _ => False) (fun _ _ _ => False) members members') :
    Rewording (.obj members) (.obj members')

theorem Guard.Rewording.agree (h : Guard.Rewording v w) :
    Agree (Guard.decode v) (Guard.decode w) := by
  intro g
  cases h with
  | expression h => rw [Guard.decode_str_iff, Guard.decode_str_iff, Expression.read_congr h]
  | members h =>
      rw [Guard.decode_obj_iff, Guard.decode_obj_iff]
      exact exists_congr fun name => and_congr_left fun _ => h.sameField (by simp) (by simp) name

theorem Guard.Rewording.agree_optional (h : Guard.Rewording v w) :
    Agree (optional Guard.decode v) (optional Guard.decode w) :=
  Decode.agree_optional h.agree (by rintro rfl; cases h) (by rintro rfl; cases h)

/-- The field at a place of an array of fields. -/
theorem zip_item {k : String} {v : Json} {after : List Json} :
    ∀ {names : List String} {before : List Json}, names[before.length]? = some k →
      names.zip (before ++ v :: after) =
        names.zip before ++ (k, v) :: (names.drop (before.length + 1)).zip after
  | [], _, hk => by simp at hk
  | n :: names, [], hk => by
      obtain rfl : n = k := by simpa using hk
      simp
  | n :: names, _ :: before, hk => by
      have hrest : names[before.length]? = some k := by simpa using hk
      simp [zip_item hrest]

/-- A value that changes in an array of fields changes as a member. -/
theorem zip_rewording {blank : String → Json → Prop} {change : String → Json → Json → Prop}
    {names : List String} {before after : List Json} {k : String}
    (hk : names[before.length]? = some k) (h : change k v w) :
    MemberRewording blank change (names.zip (before ++ v :: after))
      (names.zip (before ++ w :: after)) := by
  rw [zip_item hk, zip_item hk]
  exact .change h

namespace Action

/-- A member that says that there is no label or no payload. -/
def Blank (k : String) (v : Json) : Prop := (k = "label" ∨ k = "data") ∧ v = .null

def Change (k : String) (v w : Json) : Prop :=
  (k = "message" ∨ k = "value" ∨ k = "data") ∧ Provider.Rewording v w

inductive Rewording : Json → Json → Prop where
  | members {members members'} (h : MemberRewording Blank Change members members') :
    Rewording (.obj members) (.obj members')
  | item {type name names before after k v w} (hnames : namesOf? true type = some (name, names))
      (hk : names[before.length]? = some k) (h : Change k v w) :
    Rewording (.arr (type :: (before ++ v :: after))) (.arr (type :: (before ++ w :: after)))

variable {members members' : List (String × Json)}

theorem given_iff (h : MemberRewording Blank Change members members') {type : String}
    {a : Action} : Given members type a ↔ Given members' type a := by
  have hlabel : SameField "label" (some none) (optional Decode.string) members members' :=
    h.sameField (by simp [Blank]) (by simp [Change])
  have hlevel : SameField "level" (some .info) LogLevel.decode members members' :=
    h.sameField (by simp [Blank]) (by simp [Change])
  have hprovider (name : String) (hname : name = "message" ∨ name = "value") :
      SameField name none Provider.decode members members' :=
    h.sameField (by rcases hname with rfl | rfl <;> simp [Blank]) fun _ _ hvw => hvw.2.agree
  have hstring (name : String) (hname : name = "key" ∨ name = "event") :
      SameField name none Decode.string members members' :=
    h.sameField (by rcases hname with rfl | rfl <;> simp [Blank])
      (by rcases hname with rfl | rfl <;> simp [Change])
  have hdata : SameField "data" (some none) (optional Provider.decode) members members' :=
    h.sameField (by simp [Blank]) fun _ _ hvw => hvw.2.agree_optional
  constructor
  · rintro (⟨ha, hb, hc⟩ | ⟨ha, hb⟩ | ⟨ha, hb⟩)
    · exact .log ((hlabel _).mp ha) ((hlevel _).mp hb) ((hprovider _ (by simp) _).mp hc)
    · exact .assign ((hstring _ (by simp) _).mp ha) ((hprovider _ (by simp) _).mp hb)
    · exact .raise ((hstring _ (by simp) _).mp ha) ((hdata _).mp hb)
  · rintro (⟨ha, hb, hc⟩ | ⟨ha, hb⟩ | ⟨ha, hb⟩)
    · exact .log ((hlabel _).mpr ha) ((hlevel _).mpr hb) ((hprovider _ (by simp) _).mpr hc)
    · exact .assign ((hstring _ (by simp) _).mpr ha) ((hprovider _ (by simp) _).mpr hb)
    · exact .raise ((hstring _ (by simp) _).mpr ha) ((hdata _).mpr hb)

theorem Rewording.agree (h : Rewording v w) : Agree (decode true v) (decode true w) := by
  intro a
  cases h with
  | members h =>
      have htype : SameField "type" none (typeName true) _ _ :=
        h.sameField (by simp [Blank]) (by simp [Change])
      rw [decode_obj_iff, decode_obj_iff]
      exact exists_congr fun type => and_congr (htype type) (given_iff h)
  | @item type name names before after k v w hnames hk h =>
      rw [decode_arr_iff, decode_arr_iff]
      refine exists_congr fun name' => exists_congr fun names' => and_congr_right fun heq => ?_
      obtain ⟨rfl, rfl⟩ := Prod.ext_iff.mp (Option.some.inj (hnames.symm.trans heq))
      exact and_congr (by simp) (given_iff (zip_rewording hk h))

end Action

namespace TransitionDef

/-- A member that says that there is no target, no guard or no action. -/
def Blank (k : String) (v : Json) : Prop :=
  ((k = "target" ∨ k = "guard") ∧ v = .null) ∨ (k = "actions" ∧ v = .arr [])

def Change (k : String) (v w : Json) : Prop :=
  (k = "guard" ∧ Guard.Rewording v w) ∨ (k = "actions" ∧ ItemRewording Action.Rewording v w)

/-- A transition that has only a target is written as the target or as a record. -/
inductive Rewording : Json → Json → Prop where
  | target (s : String) : Rewording (.str s) (.obj [("target", .str s)])
  | members {members members'} (h : MemberRewording Blank Change members members') :
    Rewording (.obj members) (.obj members')

/-- One transition is written alone or as an array. -/
inductive ListRewording : Json → Json → Prop where
  | single {v : Json} (h : ∀ items, v ≠ .arr items) : ListRewording v (.arr [v])
  | alone {v w : Json} (h : Rewording v w) : ListRewording v w
  | item {v w : Json} (h : ItemRewording Rewording v w) : ListRewording v w

theorem given_iff {members members' : List (String × Json)} {t : TransitionDef}
    (h : MemberRewording Blank Change members members') : Given members t ↔ Given members' t := by
  have hknown : (∀ m ∈ members, m.1 ∈ fieldNames) ↔ ∀ m ∈ members', m.1 ∈ fieldNames :=
    h.known_iff fun k v hk => by
      rcases hk with ⟨rfl | rfl, _⟩ | ⟨rfl, _⟩ <;> simp [fieldNames]
  have htarget : SameField "target" (some none) (optional Decode.string) members members' :=
    h.sameField (by simp [Blank]) (by simp [Change])
  have hguard : SameField "guard" (some none) (optional Guard.decode) members members' :=
    h.sameField (by simp [Blank]) fun v w hvw => by
      simp only [Change, true_and, String.reduceEq, false_and, or_false] at hvw
      exact hvw.agree_optional
  have hactions : SameField "actions" (some []) (list (Action.decode true)) members members' :=
    h.sameField (by simp [Blank]) fun v w hvw => by
      simp only [Change, true_and, String.reduceEq, false_and, false_or] at hvw
      exact hvw.agree fun _ _ => Action.Rewording.agree
  constructor
  · rintro ⟨ha, hb, hc, hd⟩
    exact ⟨hknown.mp ha, (htarget _).mp hb, (hguard _).mp hc, (hactions _).mp hd⟩
  · rintro ⟨ha, hb, hc, hd⟩
    exact ⟨hknown.mpr ha, (htarget _).mpr hb, (hguard _).mpr hc, (hactions _).mpr hd⟩

theorem Rewording.agree (h : Rewording v w) : Agree (decode v) (decode w) := by
  intro t
  cases h with
  | target s =>
      rw [show decode (.obj [("target", .str s)]) = decode (.str s) from rfl]
  | members h => rw [decode_obj_iff, decode_obj_iff, given_iff h]

theorem decodeList_of_ne (h : ∀ items, v ≠ .arr items) :
    decodeList v = (fun t => [t]) <$> decode v := by
  cases v <;> first | rfl | exact absurd rfl (h _)

theorem ListRewording.agree (h : ListRewording v w) : Agree (decodeList v) (decodeList w) := by
  cases h with
  | single h =>
      intro l
      rw [decodeList_of_ne h, decodeList, List.mapM_cons]
      cases decode v <;> simp
  | alone h =>
      rw [decodeList_of_ne (by cases h <;> simp), decodeList_of_ne (by cases h <;> simp)]
      exact h.agree.map _
  | item h =>
      have hitems := h.agree fun _ _ => Rewording.agree
      cases h
      exact hitems

end TransitionDef

namespace InvokeDef

/-- A member that says that there is no id or no input. -/
def Blank (k : String) (v : Json) : Prop := (k = "id" ∨ k = "input") ∧ v = .null

def Change (k : String) (v w : Json) : Prop := k = "input" ∧ Provider.Rewording v w

inductive Rewording : Json → Json → Prop where
  | members {members members'} (h : MemberRewording Blank Change members members') :
    Rewording (.obj members) (.obj members')
  | item {before after k v w} (hk : fieldNames[before.length]? = some k) (h : Change k v w) :
    Rewording (.arr (before ++ v :: after)) (.arr (before ++ w :: after))

theorem given_iff {members members' : List (String × Json)} {i : InvokeDef}
    (h : MemberRewording Blank Change members members') : Given members i ↔ Given members' i := by
  have hknown : (∀ m ∈ members, m.1 ∈ fieldNames) ↔ ∀ m ∈ members', m.1 ∈ fieldNames :=
    h.known_iff fun k v hk => by
      rcases hk with ⟨rfl | rfl, _⟩ <;> simp [fieldNames]
  have hid : SameField "id" (some none) (optional Decode.string) members members' :=
    h.sameField (by simp [Blank]) (by simp [Change])
  have hsrc : SameField "src" none Decode.string members members' :=
    h.sameField (by simp [Blank]) (by simp [Change])
  have hinput : SameField "input" (some none) (optional Provider.decode) members members' :=
    h.sameField (by simp [Blank]) fun _ _ hvw => hvw.2.agree_optional
  constructor
  · rintro ⟨ha, hb, hc, hd⟩
    exact ⟨hknown.mp ha, (hid _).mp hb, (hsrc _).mp hc, (hinput _).mp hd⟩
  · rintro ⟨ha, hb, hc, hd⟩
    exact ⟨hknown.mpr ha, (hid _).mpr hb, (hsrc _).mpr hc, (hinput _).mpr hd⟩

theorem Rewording.agree (h : Rewording v w) : Agree (decode v) (decode w) := by
  intro i
  cases h with
  | members h => rw [decode_obj_iff, decode_obj_iff, given_iff h]
  | item hk h =>
      rw [decode_arr_iff, decode_arr_iff]
      exact and_congr (by simp) (given_iff (zip_rewording hk h))

theorem Rewording.agree_optional (h : Rewording v w) :
    Agree (optional decode v) (optional decode w) :=
  Decode.agree_optional h.agree (by rintro rfl; cases h) (by rintro rfl; cases h)

end InvokeDef

end Statechart
