import Statechart.Proofs.Host.Exclusive

/-!
# Whom a stop addresses

The moves of a stop tell what it has found under its id, to which actor it was to send its command,
and what has become of the command. The stage of a stop goes with what its moves tell: this is kept
by every step, of the stop itself and of others, so that it can be read off a run from which actor
an instance has been taken out, and by whom.
-/
namespace Statechart.Host
open Traffic (gathered gathered_own gathered_other)

/-- The actor that a command was to be sent to, and what has become of the command. -/
def Sign.sent? : Sign → Option (Nat × Sending)
  | sent n outcome => some (n, outcome)
  | _ => none

/-- The commands that a call was to send, and what has become of them. -/
def sendings (c : Nat) (moves : List Move) : List (Nat × Sending) := gathered Sign.sent? c moves

/-- The command of a stop goes to what the stop has found, once. -/
def Addressed : Option Nat → List (Nat × Sending) → Prop
  | none, sent => sent = []
  | some n, sent => ∃ outcome, sent = [(n, outcome)]

/-- A call has looked an id up, and these are the commands that it was to send since. -/
def Looked (c : Nat) (id : String) (found : Option Nat) (sent : List (Nat × Sending))
    (moves : List Move) : Prop :=
  ∃ before m between, moves = before ++ m :: between ∧ m.caller = some c ∧
    m.sign = .found id found ∧ sendings c between = sent

/-- What the moves of a call tell of a stop that it makes. -/
def StopStage.Told (c : Nat) (id : String) (moves : List Move) : StopStage → Prop
  | .asked | .closing _ | .returned _ => True
  | .sending n => Looked c id (some n) [] moves
  | .waiting n _ => Looked c id (some n) [(n, .accepted)] moves
  | .answered _ => ∃ found sent, Looked c id found sent moves ∧ Addressed found sent
  | .ending n _ => ∃ m ∈ moves, m.caller = some c ∧ m.sign = .unregistered id n

/-- What the moves of a call tell of it. -/
def Call.Told (c : Nat) (moves : List Move) : Call → Prop
  | .stop id s | .shutdown (.stopping id s _) => s.Told c id moves
  | .launch .. | .shutdown _ => True

variable {c n : Nat} {id : String} {found : Option Nat} {sent : List (Nat × Sending)}
  {moves : List Move} {move : Move}

theorem looked_now (hown : move.caller = some c) (hsign : move.sign = .found id found) :
    Looked c id found [] (moves ++ [move]) :=
  ⟨moves, move, [], rfl, hown, hsign, rfl⟩

theorem Looked.own {sign : Sign} (hlooked : Looked c id found sent moves)
    (hown : move.caller = some c) (hsign : move.sign = sign) :
    Looked c id found (sent ++ sign.sent?.toList) (moves ++ [move]) := by
  obtain ⟨before, m, between, rfl, hcaller, hfound, rfl⟩ := hlooked
  exact ⟨before, m, between ++ [move], by simp, hcaller, hfound,
    hsign ▸ gathered_own Sign.sent? hown⟩

theorem Looked.other (hlooked : Looked c id found sent moves) (hother : move.caller ≠ some c) :
    Looked c id found sent (moves ++ [move]) := by
  obtain ⟨before, m, between, rfl, hcaller, hfound, rfl⟩ := hlooked
  exact ⟨before, m, between ++ [move], by simp, hcaller, hfound, gathered_other Sign.sent? hother⟩

/-- A stop whose command has been dealt with has addressed what it has found. -/
theorem Looked.answered {outcome : Sending} {reply : Except HostError Reply}
    (hlooked : Looked c id (some n) [(n, outcome)] moves) :
    (StopStage.answered reply).Told c id moves :=
  ⟨some n, [(n, outcome)], hlooked, outcome, rfl⟩

theorem Stops.told {h h' : Host} {s s' : StopStage} (hstep : Stops id h s move.sign h' s')
    (hown : move.caller = some c) (htold : s.Told c id moves) :
    s'.Told c id (moves ++ [move]) := by
  generalize hsign : move.sign = sign at hstep
  cases hstep with
  | missing => exact ⟨none, [], looked_now hown hsign, rfl⟩
  | find => exact looked_now hown hsign
  | refused | crowded => exact (htold.own hown hsign).answered
  | send => exact htold.own hown hsign
  | receive | lost | late => exact (htold.own hown hsign).answered
  | remove => exact ⟨move, by simp, hown, hsign⟩
  | absent | ended | close => trivial

theorem StopStage.Told.other {s : StopStage} (htold : s.Told c id moves)
    (hother : move.caller ≠ some c) : s.Told c id (moves ++ [move]) := by
  cases s with
  | asked | closing | returned => trivial
  | sending | waiting => exact Looked.other htold hother
  | answered =>
      obtain ⟨found, sent, hlooked, haddressed⟩ := htold
      exact ⟨found, sent, hlooked.other hother, haddressed⟩
  | ending n =>
      obtain ⟨m, hm, hremoved⟩ := htold
      exact ⟨m, List.mem_append_left _ hm, hremoved⟩

theorem Call.Goes.told {h h' : Host} {k k' : Call} (hgoes : k.Goes h move.sign h' k')
    (hown : move.caller = some c) (htold : k.Told c moves) : k'.Told c (moves ++ [move]) := by
  cases hgoes with
  | launch => trivial
  | stop hstep => exact hstep.told hown htold
  | shutdown hstep =>
      generalize hsign : move.sign = sign at hstep
      cases hstep with
      | stop hstep =>
          subst hsign
          exact hstep.told hown htold
      | repeated | close | list | next | stopped | finish => trivial

theorem Call.Told.other {k : Call} (htold : k.Told c moves) (hother : move.caller ≠ some c) :
    k.Told c (moves ++ [move]) := by
  cases k with
  | launch => trivial
  | stop => exact StopStage.Told.other htold hother
  | shutdown stage =>
      cases stage with
      | stopping => exact StopStage.Told.other htold hother
      | asked | closed | between | returned => trivial

namespace Traffic

variable {t t' : Traffic}

theorem Step.told (hstep : Step t move t') (htold : ∀ c k, t.calls c = some k → k.Told c moves)
    (c : Nat) (k : Call) (hcall : t'.calls c = some k) : k.Told c (moves ++ [move]) := by
  rcases hstep.call hcall with ⟨k₀, hold, hown, hgoes⟩ | ⟨_, _, hfresh⟩ | ⟨hold, hother⟩
  · exact hgoes.told hown (htold c k₀ hold)
  · cases hfresh <;> trivial
  · exact (htold c k hold).other hother

/-- In every run, the stages of stops go with what their moves tell. -/
theorem Runs.told {h : Host} (hruns : Runs (quiet h) moves t) :
    ∀ c k, t.calls c = some k → k.Told c moves := by
  induction hruns with
  | refl =>
      intro c k hcall
      cases hcall
  | tail _ hstep ih => exact hstep.told ih

/-- Only a call that makes a stop takes an instance out, when it has addressed what it has found. -/
theorem Step.addressed (hstep : Step t move t') (hsign : move.sign = .unregistered id n)
    (htold : ∀ c k, t.calls c = some k → k.Told c moves) :
    ∃ c found sent, move.caller = some c ∧ Looked c id found sent moves ∧ Addressed found sent := by
  have hanswered : ∀ {c : Nat} {i : String} {s s' : StopStage} {sign : Sign} {h' : Host},
      Stops i t.host s sign h' s' → sign = .unregistered id n → s.Told c i moves →
      ∃ found sent, Looked c id found sent moves ∧ Addressed found sent := by
    rintro c i s s' sign h' hstop rfl htold
    cases hstop with
    | remove => exact htold
  cases hstep with
  | ask | aside => cases hsign
  | @go c k k' sign h' hcall hgoes =>
      suffices hlooked : ∃ found sent, Looked c id found sent moves ∧ Addressed found sent by
        obtain ⟨found, sent, hlooked⟩ := hlooked
        exact ⟨c, found, sent, rfl, hlooked⟩
      have hold := htold c k hcall
      cases hgoes with
      | launch hstep => cases hstep <;> cases hsign
      | stop hstep => exact hanswered hstep hsign hold
      | shutdown hstep =>
          cases hstep with
          | stop hstep => exact hanswered hstep hsign hold
          | _ => cases hsign

end Traffic

end Statechart.Host
