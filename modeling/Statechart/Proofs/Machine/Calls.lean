import Statechart.Proofs.Machine.History

/-!
# Calls of the runner

What a trace shows are the entries, exits and calls of a history; so the tokens of its calls are
those that the history has started with an input and those that it has taken away.
-/
namespace Statechart

/-- The token of a call that starts a service. -/
def Effect.started? : Effect → Option Token
  | invoked request => some request.token
  | _ => none

/-- The token of a call that stops a service. -/
def Effect.stopped? : Effect → Option Token
  | revoked t => some t
  | _ => none

/-- The token issued with an input that could be resolved. -/
def Happening.started? : Happening → Option Token
  | issued _ t (.ok _) => some t
  | _ => none

/-- The tokens issued with an input, in order. -/
def History.started (hs : History) : List Token := hs.filterMap Happening.started?

namespace History

variable {c : Chart} {hs : History} {effects : List Effect} {t : Token}

theorem filterMap_shows {α : Type} {f : Effect → Option α}
    (hf : ∀ e, e.shows = false → f e = none) (effects : List Effect) :
    (effects.filter Effect.shows).filterMap f = effects.filterMap f := by
  induction effects with
  | nil => rfl
  | cons e rest ih =>
      cases he : e.shows with
      | true => simp [he, List.filterMap_cons, ih]
      | false => simp [he, hf e he, ih]

/-- The calls of one kind are those that the history tells of. -/
theorem calls_eq {f : Effect → Option Token} {g : Happening → Option Token}
    (hf : ∀ e, e.shows = false → f e = none)
    (hg : ∀ h ∈ hs, (h.effects c).filterMap f = (g h).toList)
    (hshown : effects.filter Effect.shows = hs.flatMap (Happening.effects c)) :
    effects.filterMap f = hs.filterMap g := by
  rw [← filterMap_shows hf, hshown, List.filterMap_flatMap, List.filterMap_eq_flatMap_toList]
  exact List.flatMap_congr hg

theorem stopped_eq (hshown : effects.filter Effect.shows = hs.flatMap (Happening.effects c)) :
    effects.filterMap Effect.stopped? = revoked hs := by
  refine calls_eq (fun e he => ?_) (fun h _ => ?_) hshown
  · cases e with
    | revoked => cases he
    | logged | notified | invoked => rfl
  · cases h with
    | issued i t input =>
        cases input with
        | error => rfl
        | ok input => cases hv : (c.state i).invoke <;> simp [Happening.effects, hv] <;> rfl
    | exited i held => cases held <;> rfl
    | entered | resumed | accepted | became => rfl

theorem started_eq (ho : ∀ i t input, .issued i t input ∈ hs → ∃ v, (c.state i).invoke = some v)
    (hshown : effects.filter Effect.shows = hs.flatMap (Happening.effects c)) :
    effects.filterMap Effect.started? = started hs := by
  refine calls_eq (fun e he => ?_) (fun h hmem => ?_) hshown
  · cases e with
    | invoked => cases he
    | logged | notified | revoked => rfl
  · cases h with
    | issued i t input =>
        obtain ⟨v, hv⟩ := ho i t input hmem
        cases input with
        | error => rfl
        | ok input => simp [Happening.effects, Happening.started?, Effect.started?, hv]
    | exited i held => cases held <;> rfl
    | entered | resumed | accepted | became => rfl

theorem Orderly.invokes (ho : Orderly c hs) (i : Nat) (t : Token)
    (input : Except ResolutionError Json) (hmem : .issued i t input ∈ hs) :
    ∃ v, (c.state i).invoke = some v := by
  obtain ⟨v, hv, _⟩ := ho.invokeId hmem
  exact ⟨v, hv⟩

/-- The tokens of started services are among those issued. -/
theorem started_sublist (hs : History) : (started hs).Sublist (issued hs) := by
  induction hs with
  | nil => simp [started, issued]
  | cons h rest ih =>
      cases h with
      | issued i t input =>
          cases input with
          | error => exact ih.cons t
          | ok input => exact ih.cons_cons t
      | entered | resumed | accepted | exited | became => exact ih

theorem mem_revoked : t ∈ revoked hs ↔ ∃ i, .exited i (some t) ∈ hs := by
  simp only [revoked, List.mem_filterMap]
  constructor
  · rintro ⟨h, hmem, heq⟩
    cases h with
    | exited i held =>
        cases heq
        exact ⟨i, hmem⟩
    | _ => cases heq
  · rintro ⟨i, hmem⟩
    exact ⟨_, hmem, rfl⟩

end History

end Statechart
