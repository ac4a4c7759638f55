import Statechart.Proofs.Definition.Tidy
import Statechart.Proofs.Expr.Reading

/-!
# Values stay in normal form

What is found in a value in normal form is in normal form, and what is written into an object in
normal form leaves it so. The literals of an expression that has been read are no arrays and no
objects, and operators give none. So expressions, providers and actions of tidy definitions lead
from contexts and events in normal form to contexts and events in normal form.
-/
namespace Statechart

/-- The payload of an event is in normal form. -/
def Event.IsNormal (e : Event) : Prop := e.data.IsNormal

/-- The data of a context are in normal form. -/
def Context.IsNormal (ctx : Context) : Prop := ctx.toJson.IsNormal

namespace Path

theorem step?_isNormal {segment : String} {v w : Json} (hv : v.IsNormal)
    (h : step? segment v = some w) : w.IsNormal := by
  cases v with
  | obj members =>
      have hmem : (segment, w) ∈ members := Keyed.mem_of_get? h
      exact (Json.isNormal_obj.mp hv).2 _ hmem
  | arr items =>
      obtain ⟨i, _, hi⟩ := Option.bind_eq_some_iff.mp h
      exact Json.isNormal_arr.mp hv w (List.mem_of_getElem? hi)
  | _ => cases h

theorem follow?_isNormal {w : Json} : ∀ {path : List String} {v : Json}, v.IsNormal →
    follow? path v = some w → w.IsNormal
  | [], v, hv, h => by
      cases h
      exact hv
  | segment :: rest, v, hv, h => by
      obtain ⟨u, hu, h⟩ := Option.bind_eq_some_iff.mp h
      exact follow?_isNormal (step?_isNormal hv hu) h

theorem lookupIn?_isNormal {path : String} {v w : Json} (hv : v.IsNormal)
    (h : lookupIn? path v = some w) : w.IsNormal := by
  unfold lookupIn? at h
  split at h
  · cases h
    exact hv
  · exact follow?_isNormal hv h

theorem insert_isNormal {key : String} {v : Json} {members : Keyed Json} (hv : v.IsNormal)
    (h : (Json.obj members).IsNormal) : (Json.obj (Keyed.insert key v members)).IsNormal := by
  obtain ⟨hsorted, hall⟩ := Json.isNormal_obj.mp h
  refine Json.isNormal_obj.mpr ⟨hsorted.insert, fun m hm => ?_⟩
  rcases Keyed.mem_insert hm with rfl | hm
  · exact hv
  · exact hall m hm

theorem write_isNormal {v : Json} (hv : v.IsNormal) : ∀ {path : List String}
    {members result : Keyed Json}, (Json.obj members).IsNormal →
    write v path members = .ok result → (Json.obj result).IsNormal
  | [], members, result, h, hwrite => by
      cases hwrite
      exact h
  | [last], members, result, h, hwrite => by
      cases hwrite
      exact insert_isNormal hv h
  | segment :: next :: rest, members, result, h, hwrite => by
      -- below the segment stands what has been there before, or an empty object
      have hbelow {before : Keyed Json} (hbefore : (Json.obj before).IsNormal)
          (heq : ((write v (next :: rest) before).map fun inner =>
            Keyed.insert segment (.obj inner) members) = .ok result) :
          (Json.obj result).IsNormal := by
        obtain ⟨inner, hinner, rfl⟩ := map_eq_ok_iff.mp heq
        exact insert_isNormal (write_isNormal hv hbefore hinner) h
      rw [write] at hwrite
      split at hwrite
      · exact hbelow (show (Json.obj []).IsNormal from rfl) hwrite
      · next inner hinner =>
          exact hbelow ((Json.isNormal_obj.mp h).2 _ (Keyed.mem_of_get? hinner)) hwrite
      · cases hwrite

end Path

namespace Context

variable {ctx : Context}

theorem lookup_isNormal {path : String} {v : Json} (hctx : ctx.IsNormal)
    (h : ctx.lookup path = .ok v) : v.IsNormal := by
  unfold lookup at h
  split at h
  · next value hvalue =>
      cases h
      exact Path.follow?_isNormal hctx hvalue
  · cases h

theorem setPath_isNormal {path : String} {v : Json} {ctx' : Context} (hctx : ctx.IsNormal)
    (hv : v.IsNormal) (h : ctx.setPath path v = .ok ctx') : ctx'.IsNormal := by
  unfold setPath at h
  split at h
  · next data hdata =>
      cases h
      exact Path.write_isNormal hv hctx hdata
  · cases h

theorem foldl_insert_isNormal : ∀ {entries : List (String × Json)} {data : Keyed Json},
    (∀ e ∈ entries, e.2.IsNormal) → (Json.obj data).IsNormal →
    (Json.obj (entries.foldl (fun data e => Keyed.insert e.1 e.2 data) data)).IsNormal
  | [], _, _, hdata => hdata
  | e :: entries, _, hentries, hdata => by
      obtain ⟨hfirst, hrest⟩ := List.forall_mem_cons.mp hentries
      rw [List.foldl_cons]
      exact foldl_insert_isNormal hrest (Path.insert_isNormal hfirst hdata)

theorem override_isNormal {top : Context} (hctx : ctx.IsNormal) (htop : top.IsNormal) :
    (ctx.override top).IsNormal :=
  foldl_insert_isNormal (Json.isNormal_obj.mp htop).2 hctx

theorem ofJson_isNormal {v : Json} (hv : v.IsNormal) (h : ofJson v = .ok ctx) : ctx.IsNormal := by
  cases v with
  | obj members =>
      cases h
      exact hv
  | null =>
      cases h
      rfl
  | _ => cases h

theorem merged_isNormal {defaults overrides : Json} (hdefaults : defaults.IsNormal)
    (hoverrides : overrides.IsNormal) (h : merged defaults overrides = .ok ctx) :
    ctx.IsNormal := by
  obtain ⟨base, hbase, h⟩ := bind_eq_ok_iff.mp h
  obtain ⟨top, htop, h⟩ := bind_eq_ok_iff.mp h
  cases h
  exact override_isNormal (ofJson_isNormal hdefaults hbase) (ofJson_isNormal hoverrides htop)

end Context

/-- A value that is no array and no object. -/
def Json.IsScalar : Json → Prop
  | arr _ | obj _ => False
  | _ => True

theorem Json.IsScalar.isNormal {v : Json} (h : v.IsScalar) : v.IsNormal := by
  cases v <;> first | rfl | exact h.elim

theorem Number.negate_isScalar (n : Number) : n.negate.IsScalar := by
  unfold negate Json.ofSigned?
  cases n.signed? with
  | none => trivial
  | some i =>
      simp only [Option.bind_some]
      split
      · next heq =>
          split_ifs at heq
          cases heq
          trivial
      · trivial

theorem Json.negated_isScalar {v w : Json} (h : v.negated = .ok w) : w.IsScalar := by
  obtain ⟨n, _, h⟩ := bind_eq_ok_iff.mp h
  cases h
  exact n.negate_isScalar

namespace BinaryOp

theorem ofDouble?_isScalar {d : Option Double} {v : Json} (h : Json.ofDouble? d = .ok v) :
    v.IsScalar := by
  cases d with
  | none => cases h
  | some d =>
      cases h
      trivial

theorem onDoubles_isScalar {op : BinaryOp} {x y : Double} {v : Json}
    (h : op.onDoubles x y = .ok v) : v.IsScalar := by
  unfold onDoubles at h
  split at h <;> try split_ifs at h
  all_goals exact ofDouble?_isScalar h

theorem ofSigned?_isScalar {i : Int} {v : Json} (h : Json.ofSigned? i = some v) : v.IsScalar := by
  unfold Json.ofSigned? at h
  split_ifs at h
  cases h
  trivial

theorem wholeResult?_isScalar {op : BinaryOp} {i j : Int} {v : Json}
    (h : op.wholeResult? i j = some v) : v.IsScalar := by
  unfold wholeResult? at h
  split at h <;> try split_ifs at h
  all_goals first | exact ofSigned?_isScalar h | cases h

theorem arithmetic_isScalar {op : BinaryOp} {a b v : Json} (h : op.arithmetic a b = .ok v) :
    v.IsScalar := by
  obtain ⟨x, _, h⟩ := bind_eq_ok_iff.mp h
  obtain ⟨y, _, h⟩ := bind_eq_ok_iff.mp h
  split at h
  · dsimp only at h
    split_ifs at h
    · cases h
    · split at h
      · next result hresult =>
          cases h
          exact wholeResult?_isScalar hresult
      · exact onDoubles_isScalar h
  · exact onDoubles_isScalar h

theorem ordered_isScalar {holds : Double → Double → Bool} {a b v : Json}
    (h : ordered holds a b = .ok v) : v.IsScalar := by
  obtain ⟨x, _, h⟩ := bind_eq_ok_iff.mp h
  obtain ⟨y, _, h⟩ := bind_eq_ok_iff.mp h
  cases h
  trivial

/-- No operator gives an array or an object. -/
theorem apply_isScalar {op : BinaryOp} {a b v : Json} (h : op.apply a b = .ok v) : v.IsScalar := by
  unfold apply at h
  split at h
  · cases h
    trivial
  · cases h
    trivial
  iterate 4 exact ordered_isScalar h
  · split at h
    · cases h
      trivial
    · exact arithmetic_isScalar h
  · exact arithmetic_isScalar h

end BinaryOp

namespace Expr

/-- The literals of a tree are scalars. -/
def IsPlain : Expr → Prop
  | literal v => v.IsScalar
  | context _ | eventName | eventData _ => True
  | not e | neg e => e.IsPlain
  | and a b | or a b | binary _ a b => a.IsPlain ∧ b.IsPlain

theorem Joins.isPlain {l : Level} {t : Token} {build : Expr → Expr → Expr} (h : Joins l t build)
    {a b : Expr} (ha : a.IsPlain) (hb : b.IsPlain) : (build a b).IsPlain := by
  cases h <;> exact ⟨ha, hb⟩

theorem negated_isPlain {e : Expr} (h : e.IsPlain) : (negated e).IsPlain := by
  unfold negated
  split
  · exact Number.negate_isScalar _
  · exact h

theorem Lexeme.isPlain {e : Expr} {text after : List Char} (h : Lexeme (.atom e) text after) :
    e.IsPlain := by
  cases h with
  | string | number => trivial
  | word hword _ => cases hword <;> trivial

theorem Scans.isPlain {cs ts after : List _} (h : Scans cs ts after) :
    ∀ e, .atom e ∈ ts → e.IsPlain := by
  induction h with
  | nil => simp
  | cons _ ht _ ih =>
      intro e he
      rcases List.mem_cons.mp he with rfl | he
      · exact ht.isPlain
      · exact ih e he

/-- A derivation of tokens whose literals are scalars has a tree with such literals. -/
theorem Derives.isPlain {l : Level} {ts : List Token} {e : Expr} (h : Derives l ts e)
    (hts : ∀ e, .atom e ∈ ts → e.IsPlain) : e.IsPlain := by
  induction h with
  | tighter _ _ ih => exact ih hts
  | join ht _ _ iha ihb =>
      exact ht.isPlain (iha fun e he => hts e (by simp [he])) (ihb fun e he => hts e (by simp [he]))
  | not _ ih => exact ih fun e he => hts e (by simp [he])
  | neg _ ih => exact negated_isPlain (ih fun e he => hts e (by simp [he]))
  | atom => exact hts _ (by simp)
  | group _ ih => exact ih fun e he => hts e (by simp [he])

theorem read_isPlain {source : String} {e : Expr} (h : read source = .ok e) : e.IsPlain := by
  obtain ⟨ts, after, hts, _, he⟩ := readTrimmed_ok_iff.mp h
  exact he.isPlain hts.isPlain

theorem evaluate_isNormal {ctx : Context} {event : Option Event} (hctx : ctx.IsNormal)
    (hevent : ∀ e ∈ event, e.IsNormal) : ∀ {e : Expr} {v : Json}, e.IsPlain →
    e.evaluate ctx event = .ok v → v.IsNormal
  | literal value, v, he, h => by
      cases h
      exact Json.IsScalar.isNormal he
  | context path, v, _, h => Context.lookup_isNormal hctx h
  | eventName, v, _, h => by
      cases event <;> cases h
      rfl
  | eventData path, v, _, h => by
      cases event with
      | none => cases h
      | some e =>
          rw [evaluate] at h
          split at h
          · next value hvalue =>
              cases h
              exact Path.lookupIn?_isNormal (hevent e rfl) hvalue
          · cases h
  | not e, v, _, h => by
      obtain ⟨value, _, h⟩ := bind_eq_ok_iff.mp h
      cases h
      rfl
  | neg e, v, _, h => by
      obtain ⟨value, _, h⟩ := bind_eq_ok_iff.mp h
      exact (Json.negated_isScalar (mapError_eq_ok_iff.mp h)).isNormal
  | and a b, v, _, h => by
      obtain ⟨x, _, h⟩ := bind_eq_ok_iff.mp h
      split_ifs at h
      · obtain ⟨y, _, h⟩ := bind_eq_ok_iff.mp h
        cases h
        rfl
      · cases h
        rfl
  | or a b, v, _, h => by
      obtain ⟨x, _, h⟩ := bind_eq_ok_iff.mp h
      split_ifs at h
      · cases h
        rfl
      · obtain ⟨y, _, h⟩ := bind_eq_ok_iff.mp h
        cases h
        rfl
  | binary op a b, v, _, h => by
      obtain ⟨x, _, h⟩ := bind_eq_ok_iff.mp h
      obtain ⟨y, _, h⟩ := bind_eq_ok_iff.mp h
      exact (BinaryOp.apply_isScalar (mapError_eq_ok_iff.mp h)).isNormal

end Expr

theorem Provider.resolve_isNormal {p : Provider} (hp : p.Tidy) {ctx : Context}
    {event : Option Event} (hctx : ctx.IsNormal) (hevent : ∀ e ∈ event, e.IsNormal) {v : Json}
    (h : p.resolve ctx event = .ok v) : v.IsNormal := by
  cases p with
  | literal value =>
      cases h
      exact hp
  | context path => exact Context.lookup_isNormal hctx h
  | event path =>
      cases event with
      | none => cases h
      | some e =>
          rw [resolve] at h
          split at h
          · next value hvalue =>
              cases h
              exact Path.lookupIn?_isNormal (hevent e rfl) hvalue
          · cases h
  | expression e => exact Expr.evaluate_isNormal hctx hevent (Expr.read_isPlain e.reads) h

/-- The context and the raised events are in normal form. -/
structure Scope.IsNormal (scope : Scope) : Prop where
  context : scope.context.IsNormal
  raised : ∀ e ∈ scope.raised, e.IsNormal

namespace Action

variable {machine : String} {policy : RaisePolicy} {event : Option Event} {scope : Scope}

theorem apply_isNormal {a : Action} (ha : a.Tidy) (hevent : ∀ e ∈ event, e.IsNormal)
    (hscope : scope.IsNormal) {scope' : Scope}
    (h : a.apply machine policy event scope = .ok scope') : scope'.IsNormal := by
  cases a with
  | log label level message =>
      obtain ⟨v, _, h⟩ := bind_eq_ok_iff.mp h
      cases h
      exact ⟨hscope.context, hscope.raised⟩
  | assign key value =>
      obtain ⟨v, hv, h⟩ := bind_eq_ok_iff.mp h
      obtain ⟨context, hcontext, h⟩ := bind_eq_ok_iff.mp h
      cases h
      have hnormal : v.IsNormal :=
        Provider.resolve_isNormal ha hscope.context hevent (mapError_eq_ok_iff.mp hv)
      exact ⟨Context.setPath_isNormal hscope.context hnormal (mapError_eq_ok_iff.mp hcontext),
        hscope.raised⟩
  | raise name data =>
      have hraised {payload : Json} (hpayload : payload.IsNormal) :
          ∀ e ∈ scope.raised ++ [⟨name, payload⟩], e.IsNormal :=
        List.forall_mem_append.mpr ⟨hscope.raised, List.forall_mem_singleton.mpr hpayload⟩
      simp only [apply] at h
      split_ifs at h
      · cases h
      · cases data with
        | none =>
            cases h
            exact ⟨hscope.context, hraised rfl⟩
        | some p =>
            obtain ⟨payload, hpayload, h⟩ := bind_eq_ok_iff.mp h
            cases h
            exact ⟨hscope.context, hraised (Provider.resolve_isNormal (ha p rfl) hscope.context
              hevent (mapError_eq_ok_iff.mp hpayload))⟩

/-- What actions have done up to the first that fails is in normal form. -/
theorem applyAll_isNormal (hevent : ∀ e ∈ event, e.IsNormal) : ∀ {actions : List Action}
    {scope : Scope}, (∀ a ∈ actions, a.Tidy) → scope.IsNormal →
    (applyAll machine policy event actions scope).1.IsNormal
  | [], scope, _, hscope => hscope
  | a :: rest, scope, hactions, hscope => by
      rw [List.forall_mem_cons] at hactions
      rw [applyAll]
      split
      · next scope' hscope' =>
          exact applyAll_isNormal hevent hactions.2
            (apply_isNormal hactions.1 hevent hscope hscope')
      · exact hscope

end Action

end Statechart
