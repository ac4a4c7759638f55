import Statechart.Context
import Statechart.Proofs.Checks
import Statechart.Proofs.Keyed

/-!
# Updates at a path

A write goes into the object in a slot, into a new one when the slot is free, and what it does
there depends on what the next slot holds alone. Each law of an update is shown for a slot, by
induction on the segments, and holds of contexts since a context is a slot with an object in it.
Where objects are created on the way, nothing stands below them, so that an update in place that
fails has created none.
-/
namespace Statechart

namespace Path

variable {v w x y found : Json} {slot : Option Json} {members : Keyed Json} {segment : String}
  {ps qs : List String}

/-- The members of the object in a slot, none when the slot is free. -/
def membersOf : Option Json → Except Json (Keyed Json)
  | none => .ok []
  | some (.obj members) => .ok members
  | some other => .error other

/-- Fills a slot with a value at the end of a path. -/
def fill (v : Json) : List String → Option Json → Except Json Json
  | [], _ => .ok v
  | segment :: rest, slot => do
    let members ← membersOf slot
    let inner ← fill v rest (Keyed.get? segment members)
    return .obj (Keyed.insert segment inner members)

theorem fill_none : fill v (segment :: ps) none = fill v (segment :: ps) (some (.obj [])) := rfl

theorem fill_eq_write (v : Json) (segment : String) (rest : List String) (members : Keyed Json) :
    fill v (segment :: rest) (some (.obj members)) =
      (write v (segment :: rest) members).map .obj := by
  induction rest generalizing segment members with
  | nil => rfl
  | cons next rest ih =>
      have hstep : fill v (segment :: next :: rest) (some (.obj members)) =
          (fill v (next :: rest) (Keyed.get? segment members)).map fun inner =>
            .obj (Keyed.insert segment inner members) := by
        rw [fill]
        rfl
      have hmap (inner : Keyed Json) :
          ((fill v (next :: rest) (some (.obj inner))).map fun inner =>
            Json.obj (Keyed.insert segment inner members)) =
          ((write v (next :: rest) inner).map fun inner =>
            Keyed.insert segment (.obj inner) members).map .obj := by
        rw [ih]
        cases write v (next :: rest) inner <;> rfl
      rw [hstep, write]
      cases hslot : Keyed.get? segment members with
      | none => rw [fill_none, hmap]
      | some value =>
          cases value with
          | obj inner => exact hmap inner
          | _ => rfl

theorem membersOf_eq_ok_iff : membersOf slot = .ok members ↔
    slot = none ∧ members = [] ∨ slot = some (.obj members) := by
  cases slot with
  | none => simp [membersOf, eq_comm]
  | some value => cases value <;> simp [membersOf]

theorem membersOf_eq_error_iff : membersOf slot = .error found ↔
    slot = some found ∧ found.members? = none := by
  cases slot with
  | none => simp [membersOf]
  | some value => cases value <;> simp [membersOf, Json.members?] <;> grind

theorem fill_cons_eq_ok_iff : fill v (segment :: ps) slot = .ok x ↔ ∃ members inner,
    membersOf slot = .ok members ∧ fill v ps (Keyed.get? segment members) = .ok inner ∧
      x = .obj (Keyed.insert segment inner members) := by
  simp only [fill, bind_eq_ok_iff, pure_eq_ok_iff]
  grind

theorem fill_cons_eq_error_iff (hmembers : membersOf slot = .ok members) :
    fill v (segment :: ps) slot = .error found ↔
      fill v ps (Keyed.get? segment members) = .error found := by
  rw [fill, hmembers]
  cases h : fill v ps (Keyed.get? segment members) <;>
    simp [h, bind, Except.bind, pure, Except.pure]

/-- What stands at the end of a path that leads through objects alone. -/
def followObjects? : List String → Json → Option Json
  | [], value => some value
  | segment :: rest, .obj members => (Keyed.get? segment members).bind (followObjects? rest)
  | _ :: _, _ => none

theorem bind_follow?_cons (h : membersOf slot = .ok members) :
    slot.bind (follow? (segment :: ps)) = (Keyed.get? segment members).bind (follow? ps) := by
  rcases membersOf_eq_ok_iff.mp h with ⟨rfl, rfl⟩ | rfl <;> rfl

theorem bind_followObjects?_cons (h : membersOf slot = .ok members) :
    slot.bind (followObjects? (segment :: ps)) =
      (Keyed.get? segment members).bind (followObjects? ps) := by
  rcases membersOf_eq_ok_iff.mp h with ⟨rfl, rfl⟩ | rfl <;> rfl

/-- A value that is no object stands in the way before the end of a path. -/
def Blocks (found : Json) (ps : List String) (slot : Option Json) : Prop :=
  ∃ taken rest, ps = taken ++ rest ∧ rest ≠ [] ∧ slot.bind (followObjects? taken) = some found ∧
    found.members? = none

theorem not_blocks_nil : ¬Blocks found [] slot := by
  rintro ⟨taken, rest, hsplit, hrest, -⟩
  exact hrest (List.append_eq_nil_iff.mp hsplit.symm).2

/-- Behind an object what stands in the way is found below it. -/
theorem blocks_cons_iff (h : membersOf slot = .ok members) :
    Blocks found (segment :: ps) slot ↔ Blocks found ps (Keyed.get? segment members) := by
  constructor
  · rintro ⟨taken, rest, hsplit, hrest, hfound, hno⟩
    cases taken with
    | nil =>
        rcases membersOf_eq_ok_iff.mp h with ⟨rfl, rfl⟩ | rfl
        · cases hfound
        · cases hfound
          cases hno
    | cons first taken =>
        obtain ⟨rfl, rfl⟩ := List.cons.inj hsplit
        exact ⟨taken, rest, rfl, hrest, bind_followObjects?_cons h ▸ hfound, hno⟩
  · rintro ⟨taken, rest, rfl, hrest, hfound, hno⟩
    exact ⟨segment :: taken, rest, rfl, hrest, (bind_followObjects?_cons h).trans hfound, hno⟩

/-- A value that is no object leads nowhere, so that nothing else stands in the way. -/
theorem blocks_cons_iff_of_error {other : Json} (h : membersOf slot = .error other) :
    Blocks found (segment :: ps) slot ↔ other = found := by
  obtain ⟨rfl, hother⟩ := membersOf_eq_error_iff.mp h
  have hnone (first : String) (taken : List String) :
      followObjects? (first :: taken) other = none := by
    cases other with
    | obj members => cases hother
    | _ => rfl
  constructor
  · rintro ⟨taken, rest, -, -, hfound, -⟩
    cases taken with
    | nil => exact Option.some.inj hfound
    | cons first taken =>
        rw [Option.bind_some, hnone] at hfound
        cases hfound
  · rintro rfl
    exact ⟨[], segment :: ps, rfl, by simp, rfl, hother⟩

/-- A write fails exactly with what stands in the way. -/
theorem fill_eq_error_iff : fill v ps slot = .error found ↔ Blocks found ps slot := by
  induction ps generalizing slot with
  | nil => exact iff_of_false (by simp [fill]) not_blocks_nil
  | cons segment ps ih =>
      cases hslot : membersOf slot with
      | ok members => rw [fill_cons_eq_error_iff hslot, blocks_cons_iff hslot, ih]
      | error other =>
          rw [fill, hslot, blocks_cons_iff_of_error hslot]
          simp [bind, Except.bind]

/-- What has been written is read. -/
theorem follow?_of_fill (h : fill v ps slot = .ok x) : follow? ps x = some v := by
  induction ps generalizing slot x with
  | nil =>
      cases h
      rfl
  | cons segment ps ih =>
      obtain ⟨members, inner, -, hinner, rfl⟩ := fill_cons_eq_ok_iff.mp h
      rw [follow?, step?, Keyed.get?_insert_self, Option.bind_some]
      exact ih hinner

/-- Neither of two paths leads to what the other one leads through. -/
def Unrelated (ps qs : List String) : Prop := ¬ps <+: qs ∧ ¬qs <+: ps

/-- Two paths share some segments and then go different ways. -/
inductive Part : List String → List String → Prop where
  | here {a b ps qs} (hne : b ≠ a) : Part (a :: ps) (b :: qs)
  | later {a ps qs} (h : Part ps qs) : Part (a :: ps) (a :: qs)

theorem Unrelated.part (h : Unrelated ps qs) : Part ps qs := by
  induction ps generalizing qs with
  | nil => exact absurd List.nil_prefix h.1
  | cons a ps ih =>
      cases qs with
      | nil => exact absurd List.nil_prefix h.2
      | cons b qs =>
          by_cases hne : b = a
          · subst hne
            exact .later (ih (by simpa [Unrelated] using h))
          · exact .here hne

/-- What is read at another path stays. -/
theorem follow?_of_fill_of_part (h : fill v ps slot = .ok x) (hpq : Part ps qs) :
    follow? qs x = slot.bind (follow? qs) := by
  induction hpq generalizing slot x with
  | here hne =>
      obtain ⟨members, inner, hmembers, -, rfl⟩ := fill_cons_eq_ok_iff.mp h
      rw [bind_follow?_cons hmembers, follow?, step?, Keyed.get?_insert_of_ne hne]
  | later _ ih =>
      obtain ⟨members, inner, hmembers, hinner, rfl⟩ := fill_cons_eq_ok_iff.mp h
      rw [bind_follow?_cons hmembers, follow?, step?, Keyed.get?_insert_self, Option.bind_some]
      exact ih hinner

/-- The members of the object to which segments lead, none when there is none. -/
def objectAt (taken : List String) (slot : Option Json) : Keyed Json :=
  ((slot.bind (followObjects? taken)).bind Json.members?).getD []

/-- An object on the way changes at one key. -/
theorem followObjects?_of_fill {taken rest : List String} {key : String}
    (h : fill v (taken ++ key :: rest) slot = .ok x) :
    ∃ inner, followObjects? taken x =
      some (.obj (Keyed.insert key inner (objectAt taken slot))) := by
  induction taken generalizing slot x with
  | nil =>
      obtain ⟨members, inner, hmembers, -, rfl⟩ := fill_cons_eq_ok_iff.mp h
      refine ⟨inner, ?_⟩
      rcases membersOf_eq_ok_iff.mp hmembers with ⟨rfl, rfl⟩ | rfl <;> rfl
  | cons segment taken ih =>
      obtain ⟨members, inner, hmembers, hinner, rfl⟩ := fill_cons_eq_ok_iff.mp h
      obtain ⟨last, hlast⟩ := ih hinner
      refine ⟨last, ?_⟩
      rw [objectAt, bind_followObjects?_cons hmembers, followObjects?, Keyed.get?_insert_self]
      exact hlast

/-- A second write counts alone. -/
theorem fill_fill_self (h : fill v ps slot = .ok x) : fill w ps (some x) = fill w ps slot := by
  induction ps generalizing slot x with
  | nil => rfl
  | cons segment ps ih =>
      obtain ⟨members, inner, hmembers, hinner, rfl⟩ := fill_cons_eq_ok_iff.mp h
      rw [fill, fill, hmembers]
      simp only [membersOf, bind, Except.bind, Keyed.get?_insert_self, ih hinner]
      cases fill w ps (Keyed.get? segment members) with
      | error other => rfl
      | ok last => exact congrArg _ (congrArg _ (Keyed.insert_insert_self _ _ _ _))

/-- A write fails behind one at another path as it does without it. -/
theorem fill_eq_error_of_fill (h : fill v ps slot = .ok x) (hpq : Part ps qs) :
    fill w qs (some x) = .error found ↔ fill w qs slot = .error found := by
  induction hpq generalizing slot x with
  | here hne =>
      obtain ⟨members, inner, hmembers, -, rfl⟩ := fill_cons_eq_ok_iff.mp h
      rw [fill_cons_eq_error_iff rfl, fill_cons_eq_error_iff hmembers,
        Keyed.get?_insert_of_ne hne]
  | later _ ih =>
      obtain ⟨members, inner, hmembers, hinner, rfl⟩ := fill_cons_eq_ok_iff.mp h
      rw [fill_cons_eq_error_iff rfl, fill_cons_eq_error_iff hmembers, Keyed.get?_insert_self]
      exact ih hinner

/-- Writes at paths that part may be made in either order. -/
theorem fill_comm (hx : fill v ps slot = .ok x) (hy : fill w qs slot = .ok y)
    (hpq : Part ps qs) : ∃ z, fill w qs (some x) = .ok z ∧ fill v ps (some y) = .ok z := by
  induction hpq generalizing slot x y with
  | @here a b ps qs hne =>
      obtain ⟨members, inner, hmembers, hinner, rfl⟩ := fill_cons_eq_ok_iff.mp hx
      obtain ⟨members', inner', hmembers', hinner', rfl⟩ := fill_cons_eq_ok_iff.mp hy
      obtain rfl : members = members' := Except.ok.inj (hmembers.symm.trans hmembers')
      refine ⟨.obj (Keyed.insert b inner' (Keyed.insert a inner members)), ?_, ?_⟩
      · exact fill_cons_eq_ok_iff.mpr ⟨_, inner', rfl, by rwa [Keyed.get?_insert_of_ne hne], rfl⟩
      · exact fill_cons_eq_ok_iff.mpr ⟨_, inner, rfl, by rwa [Keyed.get?_insert_of_ne hne.symm],
          by rw [Keyed.insert_comm hne]⟩
  | @later a ps qs _ ih =>
      obtain ⟨members, inner, hmembers, hinner, rfl⟩ := fill_cons_eq_ok_iff.mp hx
      obtain ⟨members', inner', hmembers', hinner', rfl⟩ := fill_cons_eq_ok_iff.mp hy
      obtain rfl : members = members' := Except.ok.inj (hmembers.symm.trans hmembers')
      obtain ⟨z, hz, hz'⟩ := ih hinner hinner'
      -- what one of them puts at the shared segment is replaced by the other
      have hstep {u r : Json} {rest : List String} (hr : fill u rest (some r) = .ok z) :
          fill u (a :: rest) (some (.obj (Keyed.insert a r members))) =
            .ok (.obj (Keyed.insert a z members)) :=
        fill_cons_eq_ok_iff.mpr ⟨_, z, rfl, by rwa [Keyed.get?_insert_self],
          by rw [Keyed.insert_insert_self]⟩
      exact ⟨_, hstep hz, hstep hz'⟩

/-- Changes the object to which segments lead, where it is. -/
def alter (f : Keyed Json → Keyed Json) : List String → Keyed Json → Keyed Json
  | [], members => f members
  | segment :: rest, members =>
    match Keyed.get? segment members with
    | some (.obj inner) => Keyed.insert segment (.obj (alter f rest inner)) members
    | _ => members

/-- An update in place that has come to the object at the end of the segments `entered`. An object
that is missing is created before the update goes on. Gives the data as they are left, and what has
stood in the way. -/
def writeInPlace (v : Json) : List String → List String → Keyed Json → Keyed Json × Option Json
  | _, [], data => (data, none)
  | entered, [last], data => (alter (Keyed.insert last v) entered data, none)
  | entered, segment :: next :: rest, data =>
    match followObjects? (entered ++ [segment]) (.obj data) with
    | none => writeInPlace v (entered ++ [segment]) (next :: rest)
        (alter (Keyed.insert segment (.obj [])) entered data)
    | some (.obj _) => writeInPlace v (entered ++ [segment]) (next :: rest) data
    | some other => (data, some other)

section inPlace
variable {entered : List String} {data here inner : Keyed Json} {f g : Keyed Json → Keyed Json}

theorem followObjects?_append (taken rest : List String) (x : Json) :
    followObjects? (taken ++ rest) x = (followObjects? taken x).bind (followObjects? rest) := by
  induction taken generalizing x with
  | nil => rfl
  | cons segment taken ih =>
      cases x with
      | obj members =>
          rw [List.cons_append, followObjects?, followObjects?, Option.bind_assoc]
          exact congrArg _ (funext fun inner => ih inner)
      | _ => rfl

theorem followObjects?_concat (h : followObjects? entered (.obj data) = some (.obj here))
    (segment : String) :
    followObjects? (entered ++ [segment]) (.obj data) = Keyed.get? segment here := by
  rw [followObjects?_append, h]
  exact Option.bind_fun_some _

/-- Where segments lead to an object, the first of them leads to one. -/
theorem exists_of_followObjects?_cons
    (h : followObjects? (segment :: entered) (.obj data) = some (.obj here)) :
    ∃ outer, Keyed.get? segment data = some (.obj outer) ∧
      followObjects? entered (.obj outer) = some (.obj here) := by
  obtain ⟨value, hvalue, hhere⟩ := Option.bind_eq_some_iff.mp h
  cases value with
  | obj outer => exact ⟨outer, hvalue, hhere⟩
  | _ => cases entered <;> cases hhere

theorem alter_cons (hslot : Keyed.get? segment data = some (.obj inner)) (rest : List String) :
    alter f (segment :: rest) data =
      Keyed.insert segment (.obj (alter f rest inner)) data := by
  rw [alter, hslot]

theorem followObjects?_alter (h : followObjects? entered (.obj data) = some (.obj here)) :
    followObjects? entered (.obj (alter f entered data)) = some (.obj (f here)) := by
  induction entered generalizing data with
  | nil =>
      cases h
      rfl
  | cons segment entered ih =>
      obtain ⟨outer, hslot, hhere⟩ := exists_of_followObjects?_cons h
      rw [alter_cons hslot, followObjects?, Keyed.get?_insert_self]
      exact ih hhere

/-- Only what is done to the object itself counts. -/
theorem alter_congr (h : followObjects? entered (.obj data) = some (.obj here))
    (hfg : f here = g here) : alter f entered data = alter g entered data := by
  induction entered generalizing data with
  | nil =>
      cases h
      exact hfg
  | cons segment entered ih =>
      obtain ⟨outer, hslot, hhere⟩ := exists_of_followObjects?_cons h
      rw [alter_cons hslot, alter_cons hslot, ih hhere]

theorem alter_alter (h : followObjects? entered (.obj data) = some (.obj here)) :
    alter g entered (alter f entered data) = alter (g ∘ f) entered data := by
  induction entered generalizing data with
  | nil => rfl
  | cons segment entered ih =>
      obtain ⟨outer, hslot, hhere⟩ := exists_of_followObjects?_cons h
      rw [alter_cons hslot, alter_cons (Keyed.get?_insert_self _ _ _), alter_cons hslot,
        Keyed.insert_insert_self, ih hhere]

/-- A change one object further on is a change at one key. -/
theorem alter_concat (h : followObjects? entered (.obj data) = some (.obj here))
    (hinner : Keyed.get? segment here = some (.obj inner)) :
    alter f (entered ++ [segment]) data =
      alter (Keyed.insert segment (.obj (f inner))) entered data := by
  induction entered generalizing data with
  | nil =>
      cases h
      exact alter_cons hinner []
  | cons first entered ih =>
      obtain ⟨outer, hslot, hhere⟩ := exists_of_followObjects?_cons h
      rw [List.cons_append, alter_cons hslot, alter_cons hslot, ih hhere]

/-- To fill the object at the next segment is to put a full one there. -/
theorem alter_const_concat (h : followObjects? entered (.obj data) = some (.obj here))
    (hinner : Keyed.get? segment here = some (.obj inner)) (after : Keyed Json) :
    alter (fun _ => after) (entered ++ [segment]) data =
      alter (fun _ => Keyed.insert segment (.obj after) here) entered data :=
  (alter_concat h hinner).trans (alter_congr h rfl)

/-- To create an object and fill it is to put a full one there. -/
theorem alter_const_created (h : followObjects? entered (.obj data) = some (.obj here))
    (segment : String) (after : Keyed Json) :
    alter (fun _ => after) (entered ++ [segment])
        (alter (Keyed.insert segment (.obj [])) entered data) =
      alter (fun _ => Keyed.insert segment (.obj after) here) entered data :=
  calc alter (fun _ => after) (entered ++ [segment])
        (alter (Keyed.insert segment (.obj [])) entered data)
      = alter (Keyed.insert segment (.obj after)) entered
          (alter (Keyed.insert segment (.obj [])) entered data) :=
        alter_concat (followObjects?_alter h) (Keyed.get?_insert_self _ _ _)
    _ = alter (Keyed.insert segment (.obj after) ∘ Keyed.insert segment (.obj []))
          entered data := alter_alter h
    _ = alter (fun _ => Keyed.insert segment (.obj after) here) entered data :=
        alter_congr h (Keyed.insert_insert_self _ _ _ _)

/-- Nothing stands in the way below a new object. -/
theorem exists_write_nil (v : Json) (ps : List String) : ∃ after, write v ps [] = .ok after := by
  cases ps with
  | nil => exact ⟨[], rfl⟩
  | cons segment rest =>
      cases hwrite : write v (segment :: rest) [] with
      | ok after => exact ⟨after, rfl⟩
      | error found =>
          have hfill : fill v (segment :: rest) none = .error found := by
            rw [fill_none, fill_eq_write, hwrite]
            rfl
          obtain ⟨taken, _, _, _, hfound, _⟩ := fill_eq_error_iff.mp hfill
          cases hfound

/-- An update in place writes into the object that it has come to. When something stands in the way
it leaves the data as they were: it has created no object, or it would have met nothing. -/
theorem writeInPlace_eq : ∀ {ps entered : List String} {data here : Keyed Json}, ps ≠ [] →
    followObjects? entered (.obj data) = some (.obj here) →
    writeInPlace v entered ps data =
      match write v ps here with
      | .ok after => (alter (fun _ => after) entered data, none)
      | .error found => (data, some found)
  | [], _, _, _, hsome, _ => absurd rfl hsome
  | [last], entered, data, here, _, h => by
      rw [writeInPlace, write, alter_congr h]
      rfl
  | segment :: next :: rest, entered, data, here, _, h => by
      have hsome : next :: rest ≠ [] := by simp
      rw [writeInPlace, followObjects?_concat h, write]
      cases hslot : Keyed.get? segment here with
      | none =>
          have hcreated := followObjects?_alter (f := Keyed.insert segment (.obj [])) h
          have hempty := Keyed.get?_insert_self segment (.obj []) here
          obtain ⟨after, hafter⟩ := exists_write_nil v (next :: rest)
          have hwritten := writeInPlace_eq hsome ((followObjects?_concat hcreated _).trans hempty)
          rw [hafter] at hwritten ⊢
          exact hwritten.trans (congrArg (·, none) (alter_const_created h segment after))
      | some value =>
          cases value with
          | obj inner =>
              have hwritten := writeInPlace_eq hsome
                ((followObjects?_concat h segment).trans hslot)
              dsimp only
              rw [hwritten]
              cases write v (next :: rest) inner with
              | error found => rfl
              | ok after => exact congrArg (·, none) (alter_const_concat h hslot after)
          | _ => rfl

end inPlace

end Path

namespace Context
open Statechart.Path

variable {ctx updated : Context} {p : String} {v : Json} {e : ResolutionError}

/-- The update of a path as it is carried out on the context itself. -/
def setPathInPlace (path : String) (value : Json) (ctx : Context) :
    Context × Except ResolutionError Unit :=
  match writeInPlace value [] (segments path) ctx.data with
  | (data, none) => (⟨data⟩, .ok ())
  | (data, some found) => (⟨data⟩, .error (.typeMismatch path "object" found.kind))

theorem segments_ne_nil (path : String) : segments path ≠ [] := by
  simp [segments, Text.splitOn_ne_nil]

/-- An update of a path writes into the slot that holds the context. -/
theorem fill_segments (p : String) (v : Json) (ctx : Context) :
    fill v (segments p) (some ctx.toJson) = (write v (segments p) ctx.data).map .obj := by
  obtain ⟨segment, rest, hsegments⟩ := List.exists_cons_of_ne_nil (segments_ne_nil p)
  rw [hsegments]
  exact fill_eq_write v segment rest ctx.data

theorem setPath_eq_ok_iff :
    ctx.setPath p v = .ok updated ↔ fill v (segments p) (some ctx.toJson) = .ok updated.toJson := by
  rw [fill_segments, setPath]
  cases write v (segments p) ctx.data with
  | error found => simp [Except.map]
  | ok data =>
      obtain ⟨after⟩ := updated
      simp [Except.map, toJson]

theorem setPath_eq_error_iff : ctx.setPath p v = .error e ↔
    ∃ found, fill v (segments p) (some ctx.toJson) = .error found ∧
      e = .typeMismatch p "object" found.kind := by
  rw [fill_segments, setPath]
  cases write v (segments p) ctx.data with
  | error found => simp [Except.map, eq_comm]
  | ok data => simp [Except.map]

theorem setPathInPlace_eq (p : String) (v : Json) (ctx : Context) :
    ctx.setPathInPlace p v =
      match ctx.setPath p v with
      | .ok updated => (updated, .ok ())
      | .error e => (ctx, .error e) := by
  rw [setPathInPlace, writeInPlace_eq (segments_ne_nil p) rfl, setPath]
  cases write v (segments p) ctx.data <;> rfl

/-- What an update of a path has done to a context. -/
structure Updated (p : String) (v : Json) (ctx updated : Context) : Prop where
  lookup_self : updated.lookup p = .ok v
  lookup_unrelated : ∀ q, Unrelated (segments p) (segments q) → updated.lookup q = ctx.lookup q
  keeps : ∀ taken key rest, segments p = taken ++ key :: rest →
    ∃ after, followObjects? taken updated.toJson = some (.obj after) ∧
      ∀ other, other ≠ key →
        Keyed.get? other after = Keyed.get? other (objectAt taken (some ctx.toJson))
  again : ∀ w, ∃ once, updated.setPath p w = .ok once ∧ ctx.setPath p w = .ok once
  commutes : ∀ q w, Unrelated (segments p) (segments q) → ∀ other, ctx.setPath q w = .ok other →
    ∃ both, updated.setPath q w = .ok both ∧ other.setPath p v = .ok both
  independent : ∀ q w, Unrelated (segments p) (segments q) → ∀ e,
    updated.setPath q w = .error e ↔ ctx.setPath q w = .error e

/-- The laws of an update of a path. It fails exactly when a value that is no object stands in the
way, and then it leaves the context as it was, also when it is carried out in place. -/
structure UpdateLaws (p : String) (v : Json) (ctx : Context) : Prop where
  fails : ∀ e, ctx.setPath p v = .error e ↔
    ∃ found, Blocks found (segments p) (some ctx.toJson) ∧ e = .typeMismatch p "object" found.kind
  inPlace : ctx.setPathInPlace p v =
    match ctx.setPath p v with
    | .ok updated => (updated, .ok ())
    | .error e => (ctx, .error e)
  updates : ∀ updated, ctx.setPath p v = .ok updated → Updated p v ctx updated

theorem updated_of_setPath (h : ctx.setPath p v = .ok updated) : Updated p v ctx updated := by
  have hfill := setPath_eq_ok_iff.mp h
  exact {
    lookup_self := by rw [lookup, follow?_of_fill hfill]
    lookup_unrelated := fun q hq => by
      rw [lookup, lookup, follow?_of_fill_of_part hfill hq.part]
      rfl
    keeps := fun taken key rest hsegments => by
      obtain ⟨inner, hinner⟩ := followObjects?_of_fill (hsegments ▸ hfill)
      exact ⟨_, hinner, fun other hne => Keyed.get?_insert_of_ne hne _ _⟩
    again := fun w => by
      cases hctx : ctx.setPath p w with
      | ok once =>
          have honce := (fill_fill_self hfill).trans (setPath_eq_ok_iff.mp hctx)
          exact ⟨once, setPath_eq_ok_iff.mpr honce, rfl⟩
      | error e =>
          -- what stands in the way does not depend on the value
          obtain ⟨found, hfound, -⟩ := setPath_eq_error_iff.mp hctx
          have hblocked : fill v (segments p) (some ctx.toJson) = .error found :=
            fill_eq_error_iff.mpr (fill_eq_error_iff.mp hfound)
          rw [hfill] at hblocked
          cases hblocked
    commutes := fun q w hq other hother => by
      obtain ⟨z, hz, hz'⟩ := fill_comm hfill (setPath_eq_ok_iff.mp hother) hq.part
      cases hboth : updated.setPath q w with
      | ok both =>
          have hsame := (setPath_eq_ok_iff.mp hboth).symm.trans hz
          exact ⟨both, rfl, setPath_eq_ok_iff.mpr (hz'.trans hsame.symm)⟩
      | error e =>
          obtain ⟨found, hfound, -⟩ := setPath_eq_error_iff.mp hboth
          rw [hz] at hfound
          cases hfound
    independent := fun q w hq e => by
      rw [setPath_eq_error_iff, setPath_eq_error_iff]
      exact exists_congr fun found => and_congr_left' (fill_eq_error_of_fill hfill hq.part) }

/-- A path is updated by its laws, in every context. -/
theorem setPath_laws (p : String) (v : Json) (ctx : Context) : UpdateLaws p v ctx where
  fails e := by simp only [setPath_eq_error_iff, fill_eq_error_iff]
  inPlace := setPathInPlace_eq p v ctx
  updates _ := updated_of_setPath

end Context

end Statechart
