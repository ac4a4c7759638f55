import Mathlib.Logic.Relation
import Statechart.Proofs.Decode.Record

/-!
# Documents that say the same

Single changes to the members of an object and to the items of an array that do not count. A record
and a table are decoded to the same after them.
-/
namespace Statechart.Decode

variable {α : Type} {x y z : Decoded α} {decode : Json → Decoded α} {v w : Json}

/-- Two attempts give the same value, if any. -/
def Agree (x y : Decoded α) : Prop := ∀ a, x = .ok a ↔ y = .ok a

theorem Agree.refl (x : Decoded α) : Agree x x := fun _ => Iff.rfl

theorem Agree.map {β : Type} (h : Agree x y) (f : α → β) : Agree (f <$> x) (f <$> y) := fun b => by
  simp only [map_eq_ok_iff, h _]

theorem agree_optional (h : Agree (decode v) (decode w)) (hv : v ≠ .null) (hw : w ≠ .null) :
    Agree (optional decode v) (optional decode w) := by
  have hsome (u : Json) (hu : u ≠ .null) : optional decode u = some <$> decode u := by
    cases u <;> first | rfl | exact absurd rfl hu
  rw [hsome v hv, hsome w hw]
  exact h.map some

/-- An item of an array changes. -/
inductive ItemRewording (change : Json → Json → Prop) : Json → Json → Prop where
  | item {before after v w} (h : change v w) :
    ItemRewording change (.arr (before ++ v :: after)) (.arr (before ++ w :: after))

theorem forall₂_item_iff {β γ : Type} {R : β → γ → Prop} {v w : β} (h : ∀ a, R v a ↔ R w a)
    {after : List β} : ∀ {before : List β} {results : List γ},
      List.Forall₂ R (before ++ v :: after) results ↔ List.Forall₂ R (before ++ w :: after) results
  | [], results => by cases results <;> simp [h]
  | _ :: before, results => by
      cases results with
      | nil => simp
      | cons a results =>
          rw [List.cons_append, List.cons_append, List.forall₂_cons, List.forall₂_cons,
            forall₂_item_iff h]

theorem ItemRewording.agree {change : Json → Json → Prop} (h : ItemRewording change v w)
    (hchange : ∀ v w, change v w → Agree (decode v) (decode w)) :
    Agree (list decode v) (list decode w) := by
  cases h with
  | item h =>
      intro results
      simp only [list, mapM_eq_ok_iff]
      exact forall₂_item_iff (R := fun v a => decode v = .ok a) (hchange _ _ h)

/-- The members of an object change: two neighbours with different names change places, a member
that says no more than its absence is added, or a value changes. -/
inductive MemberRewording (blank : String → Json → Prop) (change : String → Json → Json → Prop) :
    List (String × Json) → List (String × Json) → Prop where
  | swap {before after k l v w} (h : k ≠ l) :
    MemberRewording blank change (before ++ (k, v) :: (l, w) :: after)
      (before ++ (l, w) :: (k, v) :: after)
  | blank {before after k v} (h : blank k v) (habsent : k ∉ Keyed.keys (before ++ after)) :
    MemberRewording blank change (before ++ after) (before ++ (k, v) :: after)
  | change {before after k v w} (h : change k v w) :
    MemberRewording blank change (before ++ (k, v) :: after) (before ++ (k, w) :: after)

/-- Two lists of members give the same to a field. -/
def SameField (name : String) (default : Option α) (decode : Json → Decoded α)
    (members members' : List (String × Json)) : Prop :=
  ∀ a, Gives name default decode members a ↔ Gives name default decode members' a

/-- What becomes of the values of a name. -/
inductive ValueRewording (blank : Json → Prop) (change : Json → Json → Prop) :
    List Json → List Json → Prop where
  | same {values} : ValueRewording blank change values values
  | blank {v : Json} (h : blank v) : ValueRewording blank change [] [v]
  | change {before after v w} (h : change v w) :
    ValueRewording blank change (before ++ v :: after) (before ++ w :: after)

section MemberRewording
variable {blank : String → Json → Prop} {change : String → Json → Json → Prop}
  {members members' : List (String × Json)} {name : String} {default : Option α}

theorem MemberRewording.values (h : MemberRewording blank change members members') (name : String) :
    ValueRewording (blank name) (change name) (Keyed.values name members)
      (Keyed.values name members') := by
  cases h with
  | @swap before after k l v w h =>
      rw [Keyed.values_append, Keyed.values_swap h after, ← Keyed.values_append]
      exact .same
  | @blank before after k v h habsent =>
      by_cases hk : k = name
      · subst hk
        have hnone := Keyed.values_eq_nil_iff.mpr habsent
        rw [Keyed.values_append, List.append_eq_nil_iff] at hnone
        simp only [Keyed.values_append, Keyed.values_cons_self, hnone.1, hnone.2]
        exact .blank h
      · simp only [Keyed.values_append, Keyed.values_cons_of_ne hk]
        exact .same
  | @change before after k v w h =>
      by_cases hk : k = name
      · subst hk
        simp only [Keyed.values_append, Keyed.values_cons_self]
        exact .change h
      · simp only [Keyed.values_append, Keyed.values_cons_of_ne hk]
        exact .same

/-- A field is given the same if a member that may be left out gives its default and values that
change are decoded to the same. -/
theorem MemberRewording.sameField (h : MemberRewording blank change members members')
    (hblank : ∀ v, blank name v → ∃ d, default = some d ∧ decode v = .ok d)
    (hchange : ∀ v w, change name v w → Agree (decode v) (decode w)) :
    SameField name default decode members members' := by
  intro a
  have hvalues := h.values name
  unfold Gives
  generalize Keyed.values name members = values at hvalues
  generalize Keyed.values name members' = values' at hvalues
  cases hvalues with
  | same => exact Iff.rfl
  | blank h =>
      obtain ⟨d, hd, hv⟩ := hblank _ h
      simp [hd, hv]
  | @change before after v w h =>
      have hagree := hchange v w h a
      cases before <;> cases after <;> simp [hagree]

theorem MemberRewording.known_iff {names : List String}
    (h : MemberRewording blank change members members')
    (hblank : ∀ k v, blank k v → k ∈ names) :
    (∀ m ∈ members, m.1 ∈ names) ↔ ∀ m ∈ members', m.1 ∈ names := by
  cases h with
  | swap =>
      simp only [List.forall_mem_append, List.forall_mem_cons]
      tauto
  | blank h => simp [or_imp, forall_and, hblank _ _ h]
  | change => simp [or_imp, forall_and]

theorem MemberRewording.mono {blank' : String → Json → Prop} {change' : String → Json → Json → Prop}
    (h : MemberRewording blank change members members') (hblank : ∀ k v, blank k v → blank' k v)
    (hchange : ∀ k v w, change k v w → change' k v w) :
    MemberRewording blank' change' members members' := by
  cases h with
  | swap h => exact .swap h
  | blank h habsent => exact .blank (hblank _ _ h) habsent
  | change h => exact .change (hchange _ _ _ h)

/-- Among the members of some names, the same has changed, or nothing. -/
theorem MemberRewording.filter (h : MemberRewording blank change members members')
    (p : String → Bool) :
    members.filter (fun m => p m.1) = members'.filter (fun m => p m.1) ∨
      MemberRewording (fun k v => p k = true ∧ blank k v) (fun k v w => p k = true ∧ change k v w)
        (members.filter fun m => p m.1) (members'.filter fun m => p m.1) := by
  cases h with
  | @swap before after k l v w h =>
      by_cases hk : p k
      · by_cases hl : p l
        · simp only [List.filter_append, List.filter_cons, hk, hl, if_true]
          exact .inr (.swap h)
        · simp [List.filter_append, List.filter_cons, hl]
      · simp [List.filter_append, List.filter_cons, hk]
  | @blank before after k v h habsent =>
      by_cases hk : p k
      · simp only [List.filter_append, List.filter_cons, hk, if_true]
        refine .inr (.blank ⟨hk, h⟩ fun hmem => habsent ?_)
        rw [← List.filter_append] at hmem
        exact (List.filter_sublist.map Prod.fst).subset hmem
      · simp [List.filter_append, hk]
  | @change before after k v w h =>
      by_cases hk : p k
      · simp only [List.filter_append, List.filter_cons, hk, if_true]
        exact .inr (.change ⟨hk, h⟩)
      · simp [List.filter_append, hk]

/-- Members with different names may stand in any order, those around them staying in place. -/
theorem eqvGen_of_perm {middle middle' : List (String × Json)} (h : middle.Perm middle')
    (hnames : (Keyed.keys middle).Nodup) : ∀ before after : List (String × Json),
      Relation.EqvGen (MemberRewording blank change) (before ++ middle ++ after)
        (before ++ middle' ++ after) := by
  induction h with
  | nil => exact fun before after => .refl _
  | cons m _ ih =>
      intro before after
      have hrest := ih (List.nodup_cons.mp hnames).2 (before ++ [m]) after
      simpa using hrest
  | @swap m n rest =>
      intro before after
      have hne : n.1 ≠ m.1 := fun heq => by simp [Keyed.keys, heq] at hnames
      have hswap : MemberRewording blank change (before ++ n :: m :: (rest ++ after))
          (before ++ m :: n :: (rest ++ after)) := .swap hne
      simpa using Relation.EqvGen.rel _ _ hswap
  | trans h _ ih ih' =>
      intro before after
      have hnames' := (h.map Prod.fst).nodup_iff.mp hnames
      exact .trans _ _ _ (ih hnames before after) (ih' hnames' before after)

end MemberRewording

/-- The entries of an object change places or values. -/
inductive TableRewording (change : Json → Json → Prop) : Json → Json → Prop where
  | entries {members members'}
      (h : MemberRewording (fun _ _ => False) (fun _ => change) members members') :
    TableRewording change (.obj members) (.obj members')

/-- Neighbours that change places are decoded to neighbours that have changed places. -/
theorem exists_forall₂_swap {β : Type} {R : String × Json → String × β → Prop}
    (hR : ∀ m e, R m e → m.1 = e.1) {m n : String × Json} (hne : m.1 ≠ n.1)
    {after : List (String × Json)} :
    ∀ {before : List (String × Json)} {entries : List (String × β)},
      List.Forall₂ R (before ++ m :: n :: after) entries →
      ∃ entries', List.Forall₂ R (before ++ n :: m :: after) entries' ∧
        ∀ key, Keyed.values key entries' = Keyed.values key entries
  | [], _, .cons (b := d) hm (.cons (b := e) hn hafter) => by
      have hde : d.1 ≠ e.1 := by rwa [← hR _ _ hm, ← hR _ _ hn]
      exact ⟨_, .cons hn (.cons hm hafter), fun key => (Keyed.values_swap hde _).symm⟩
  | _ :: before, _, .cons hfirst hrest => by
      obtain ⟨entries', hentries, hvalues⟩ := exists_forall₂_swap hR hne hrest
      refine ⟨_, .cons hfirst hentries, fun key => ?_⟩
      rw [Keyed.values_cons, Keyed.values_cons, hvalues]

theorem TableRewording.agree {change : Json → Json → Prop} (h : TableRewording change v w)
    (hchange : ∀ v w, change v w → Agree (decode v) (decode w)) :
    Agree (table decode v) (table decode w) := by
  intro t
  obtain ⟨h⟩ := h
  rw [table_obj_iff, table_obj_iff]
  cases h with
  | swap hne =>
      constructor
      · rintro ⟨entries, hentries, rfl⟩
        obtain ⟨entries', hentries', hvalues⟩ := exists_forall₂_swap (fun _ _ h => h.1) hne hentries
        exact ⟨entries', hentries', Keyed.ofList_congr hvalues⟩
      · rintro ⟨entries, hentries, rfl⟩
        obtain ⟨entries', hentries', hvalues⟩ :=
          exists_forall₂_swap (fun _ _ h => h.1) hne.symm hentries
        exact ⟨entries', hentries', Keyed.ofList_congr hvalues⟩
  | blank h => exact h.elim
  | @change _ _ k v w h =>
      let R (m : String × Json) (e : String × α) : Prop := m.1 = e.1 ∧ decode m.2 = .ok e.2
      have hentry (e : String × α) : R (k, v) e ↔ R (k, w) e :=
        and_congr_right fun _ => hchange v w h e.2
      exact exists_congr fun entries => and_congr_left fun _ => forall₂_item_iff hentry

end Statechart.Decode
