import Statechart.Proofs.Service.Accounts

/-!
# Nothing waits for good

What is in progress about a task never waits for anything but the services: its start goes on, a
stop that has its handle goes on, and the task goes on once it has been let go. How much of that is
left is a number that some steps about the task alone bring down to nothing.
-/
namespace Statechart.Runner

variable {n : Nat} {a a' a'' : Account} {r r' r'' : Runner} {k : Task}

/-- What is still to be done about a task: by its start, by the stop that has its handle, and by
the task itself unless it has been ended. -/
def Account.left (a : Account) : Nat :=
  (!a.entered).toNat + (!a.released).toNat + (a.taken && !a.aborted).toNat +
    if a.dropped then 0 else (!a.returned).toNat + (!a.forgotten).toNat + a.reports.isEmpty.toNat

theorem Account.left_eq_zero : a.left = 0 ↔
    a.entered ∧ a.released ∧ (a.taken → a.aborted) ∧
      (a.dropped ∨ a.returned ∧ a.forgotten ∧ a.reports ≠ []) := by
  obtain ⟨-, entered, released, taken, aborted, -, returned, forgotten, dropped, reports⟩ := a
  cases dropped <;> simp [left] <;> grind

/-- Some steps about one task. -/
inductive Course (n : Nat) (a : Account) (r : Runner) : Account → Runner → Prop where
  | refl : Course n a r a r
  | tail {a' a'' : Account} {r' r'' : Runner} (hcourse : Course n a r a' r')
      (hmove : Moves n a' r' a'' r'') : Course n a r a'' r''

namespace Course

theorem single (hmove : Moves n a r a' r') : Course n a r a' r' := refl.tail hmove

theorem trans (h : Course n a r a' r') (h' : Course n a' r' a'' r'') : Course n a r a'' r'' := by
  induction h' with
  | refl => exact h
  | tail _ hmove ih => exact ih.tail hmove

theorem fits (hcourse : Course n a r a' r') (h : a.Fits n r) : a'.Fits n r' := by
  induction hcourse with
  | refl => exact h
  | tail _ hmove ih => exact hmove.fits ih

end Course

section returns
variable (hk : r.task? n = some k) (hpolled : a.polled)
include hk hpolled

theorem course_of_ready (hready : k.stage = .ready 0) :
    Course n a r { a with returned := true } (r.call k) := by
  have hcall := Course.single (Moves.call hk hpolled)
  simpa only [hready, decide_true, Bool.or_true] using hcall

theorem course_of_sleeping {due : Nat} (hsleeping : k.stage = .sleeping due) :
    ∃ r', Course n a r { a with returned := true } r' :=
  ⟨_, (Course.single (.wake hk hsleeping 0)).trans
    (course_of_ready (task?_release hk 0) hpolled rfl)⟩

/-- A task that has been let go is polled until its service returns. -/
theorem exists_course_returned (hstands : a.Stands k.stage) (hopen : k.stage.Open)
    (hreleased : a.released) : ∃ r', Course n a r { a with returned := true } r' := by
  cases hstage : k.stage with
  | created =>
      rw [hstage] at hstands
      exact absurd hreleased hstands
  | ready wait =>
      cases wait with
      | zero => exact ⟨_, course_of_ready hk hpolled hstage⟩
      | succ wait =>
          obtain ⟨-, hnumber⟩ := task?_some hk
          have hcall := Course.single (Moves.call hk hpolled)
          simp only [hstage, Stage.ready.injEq, Nat.succ_ne_zero, decide_false, Bool.or_false,
            call, hnumber] at hcall
          obtain ⟨r', hcourse⟩ := course_of_sleeping (task?_move hk _) hpolled rfl
          exact ⟨r', hcall.trans hcourse⟩
  | sleeping due => exact course_of_sleeping hk hpolled hstage
  | returned => exact absurd hstage hopen.1
  | forgotten => exact absurd hstage hopen.2

end returns

theorem Account.Fits.exists_task (h : a.Fits n r) (hlive : a.Live) : ∃ k, r.task? n = some k := by
  obtain ⟨k, hk, hn⟩ := h.covers.live hlive
  exact Option.isSome_iff_exists.mp (List.find?_isSome.mpr ⟨k, hk, by simpa using hn⟩)

/-- A task that is over has been ended by an abort, or has sent its completion. -/
theorem Account.Fits.over (h : a.Fits n r) (hover : r.task? n = none) :
    a.dropped ∨ a.forgotten ∧ a.reports = [a.report] := by
  have hnot : ¬ a.Live := fun hlive => by
    obtain ⟨k, hk⟩ := h.exists_task hlive
    rw [hover] at hk
    cases hk
  refine or_iff_not_imp_left.mpr fun hdropped =>
    (h.sound.reports.resolve_left fun hreports => ?_).symm
  exact hnot ⟨eq_false_of_ne_true hdropped, hreports⟩

/-- An account with something left, whose calls are over, is that of a task. -/
theorem Account.Sound.live (h : a.Sound) (hleft : a.left ≠ 0) (hreleased : a.released)
    (hstop : a.taken → a.aborted) : a.Live := by
  have hunfinished : ¬ (a.dropped ∨ a.returned ∧ a.forgotten ∧ a.reports ≠ []) := fun hended =>
    hleft (Account.left_eq_zero.mpr ⟨h.released hreleased, hreleased, hstop, hended⟩)
  rw [not_or] at hunfinished
  refine ⟨eq_false_of_ne_true hunfinished.1, h.reports.resolve_right fun hsent => ?_⟩
  exact hunfinished.2 ⟨h.forgotten hsent.2, hsent.2, by simp [hsent.1]⟩

theorem Account.Stands.of_returned {stage : Stage} (h : a.Stands stage) (hsound : a.Sound)
    (hreturned : a.returned) : stage = if a.forgotten then .forgotten else .returned := by
  have hreleased := hsound.returned hreturned
  cases stage <;> simp_all [Account.Stands]

/-- As long as something is left about a task, it can be made less without anything else. -/
theorem Account.Fits.goes_on (h : a.Fits n r) (hleft : a.left ≠ 0) :
    ∃ a' r', Course n a r a' r' ∧ a'.left < a.left := by
  by_cases hentered : a.entered; swap
  · exact ⟨_, _, .single (.enroll hentered), by simp [left, hentered]⟩
  by_cases hreleased : a.released; swap
  · exact ⟨_, _, .single (.release hentered hreleased), by simp [left, hreleased]⟩
  by_cases hstop : a.taken → a.aborted; swap
  · obtain ⟨htaken, haborted⟩ := Classical.not_imp.mp hstop
    by_cases hpolled : a.polled
    · exact ⟨_, _, .single (.mark htaken haborted hpolled), by simp [left, htaken, haborted]⟩
    · refine ⟨_, _, .single (.abort htaken haborted hpolled), ?_⟩
      simp only [left, htaken, eq_false_of_ne_true haborted, Bool.or_eq_true]
      split_ifs <;> grind
  have hlive := h.sound.live hleft hreleased hstop
  obtain ⟨k, hk⟩ := h.exists_task hlive
  have hstands := (h.owns hk).stands
  by_cases hreturned : a.returned
  · have hpolled : a.polled := by
      by_contra hpolled
      exact h.sound.unpolled hreturned hpolled hlive.2
    have hstage := hstands.of_returned h.sound hreturned
    by_cases hforgotten : a.forgotten
    · rw [if_pos hforgotten] at hstage
      exact ⟨_, _, .single (.finish hk hpolled hstage), by simp [left, hlive.1, hlive.2]⟩
    · rw [if_neg hforgotten] at hstage
      exact ⟨_, _, .single (.forget hk hpolled hstage), by simp [left, hlive.1, hforgotten]⟩
  · have hopen := (hstands.open_iff h.sound).mpr hreturned
    by_cases haborted : a.aborted
    · have hpolled : a.polled := by
        by_contra hpolled
        simpa [hlive.1] using h.sound.effect haborted hpolled hreturned
      have hends : r.ends n := (h.ends_iff fun _ => hreturned).2.mpr hlive
      exact ⟨_, _, .single (.drop hk hpolled hopen haborted), by
        simp [left, hlive.1, hlive.2, hends, hreturned]⟩
    · by_cases hpolled : a.polled
      · obtain ⟨r', hcourse⟩ := exists_course_returned hk hpolled hstands hopen hreleased
        exact ⟨_, r', hcourse, by simp [left, hlive.1, hreturned]⟩
      · obtain ⟨r', hcourse⟩ :=
          exists_course_returned (a := { a with polled := true }) hk rfl hstands hopen hreleased
        exact ⟨_, r', (Course.single (.poll hk hpolled)).trans hcourse, by
          simp [left, hlive.1, hreturned]⟩

/-- Everything about a task can come to its end. -/
theorem Account.Fits.settles (h : a.Fits n r) :
    ∃ a' r', Course n a r a' r' ∧ a'.left = 0 := by
  induction hleft : a.left using Nat.strong_induction_on generalizing a r with
  | h left ih =>
    by_cases hzero : a.left = 0
    · exact ⟨a, r, .refl, hzero⟩
    · obtain ⟨a₁, r₁, hfirst, hless⟩ := h.goes_on hzero
      obtain ⟨a₂, r₂, hrest, hended⟩ := ih a₁.left (hleft ▸ hless) (hfirst.fits h) rfl
      exact ⟨a₂, r₂, hfirst.trans hrest, hended⟩

end Statechart.Runner
