import Statechart.Proofs.Machine.Calls
import Statechart.Proofs.Machine.Course

/-!
# The tokens of invocations

Every activation of a state that invokes issues one token, later ones with larger generations. The
table of a machine holds the tokens of the latest activations whose completions are awaited. A
token is given to the runner at most once to start and at most once to stop, and not to stop when
its completion has been accepted; so nothing is left to stop once all states have been exited.
-/
namespace Statechart.Machine
open History

variable {c : Chart} {hs : History} {m : Machine}

theorem Books.active (hb : Books c hs ⟨m, []⟩) (i : Nat) :
    i ∈ m.configuration ↔ ¬ Inactive hs i := by
  constructor
  · exact fun hi => (hb.settled i hi (by simp)).not_inactive
  · intro hnot
    by_contra hi
    exact hnot (hb.inactive i hi)

end Statechart.Machine
