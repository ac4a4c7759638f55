import Mathlib.Logic.Function.Basic
import Mathlib.Logic.Relation
import Statechart.Proofs.Service.Table

/-!
# A runner that threads share

Starts, stops and tasks go on side by side on any number of threads. What they do is made of steps
that nothing interrupts. A start creates its task, puts the handle into the table and lets the task
go, which has waited for that. A stop takes a handle out of the table and aborts the task with it.
A thread polls a task until it waits; a task whose service returns goes on in the same poll to take
out its entry and to send its completion.

An abort ends a task that nobody polls at once. It ends a task that is being polled when the poll
is over, unless the service has returned by then.
-/
namespace Statechart.Runner

/-- What a task is created for. -/
structure Errand where
  owner : Nat
  token : Token
  job : Job

/-- The completion that is due: the own token with the outcome of the service. -/
def Errand.report (e : Errand) : Report := ⟨e.owner, ⟨e.token, e.job.outcome⟩⟩

/-- A task, and what has been done about it since it was created. -/
structure Account extends Errand where
  /-- Its start has put its handle into the table. -/
  entered : Bool := false
  /-- Its start has let it go. -/
  released : Bool := false
  /-- A stop has taken its handle out of the table. -/
  taken : Bool := false
  /-- That stop has aborted it. -/
  aborted : Bool := false
  /-- A thread is polling it. -/
  polled : Bool := false
  /-- Its service has returned. -/
  returned : Bool := false
  /-- It has taken out its own entry. -/
  forgotten : Bool := false
  /-- The abort has ended it. -/
  dropped : Bool := false
  /-- The completions that it has sent. -/
  reports : List Report := []

/-- A runner with the accounts of its tasks by their numbers. -/
structure Shared where
  runner : Runner
  accounts : Nat → Option Account

/-- Whether an abort ends the task of a number. -/
def ends (n : Nat) (r : Runner) : Bool :=
  (r.task? n).isSome && ((r.interrupt n).task? n).isNone

/-- One step about the task of a number: of its start, of the stop that has its handle, of the
task itself, or of the time for which its service waits. -/
inductive Moves (n : Nat) (a : Account) (r : Runner) : Account → Runner → Prop where
  | enroll (hentered : ¬ a.entered) :
    Moves n a r { a with entered := true } (r.enroll a.token n)
  | release (hentered : a.entered) (hreleased : ¬ a.released) :
    Moves n a r { a with released := true } (r.release n a.job.wait)
  /-- Nobody polls the task: the abort takes effect at once. -/
  | abort (htaken : a.taken) (haborted : ¬ a.aborted) (hpolled : ¬ a.polled) :
    Moves n a r { a with aborted := true, dropped := a.dropped || r.ends n } (r.interrupt n)
  /-- The abort waits for the poll to end. -/
  | mark (htaken : a.taken) (haborted : ¬ a.aborted) (hpolled : a.polled) :
    Moves n a r { a with aborted := true } r
  | poll {k : Task} (hk : r.task? n = some k) (hpolled : ¬ a.polled) :
    Moves n a r { a with polled := true } r
  | call {k : Task} (hk : r.task? n = some k) (hpolled : a.polled) :
    Moves n a r { a with returned := a.returned || k.stage = .ready 0 } (r.call k)
  /-- The poll ends without the service having returned. -/
  | pend {k : Task} (hk : r.task? n = some k) (hpolled : a.polled) (hopen : k.stage.Open)
      (haborted : ¬ a.aborted) :
    Moves n a r { a with polled := false } r
  /-- The poll ends so, and an abort has waited for that. -/
  | drop {k : Task} (hk : r.task? n = some k) (hpolled : a.polled) (hopen : k.stage.Open)
      (haborted : a.aborted) :
    Moves n a r { a with polled := false, dropped := a.dropped || r.ends n } (r.interrupt n)
  | forget {k : Task} (hk : r.task? n = some k) (hpolled : a.polled)
      (hstage : k.stage = .returned) :
    Moves n a r { a with forgotten := true } (r.forget k)
  | finish {k : Task} (hk : r.task? n = some k) (hpolled : a.polled)
      (hstage : k.stage = .forgotten) :
    Moves n a r { a with polled := false, reports := a.reports ++ [(r.finish k).2] }
      (r.finish k).1
  /-- A wait is over; the service may have to wait again. -/
  | wake {k : Task} {due : Nat} (hk : r.task? n = some k) (hstage : k.stage = .sleeping due)
      (wait : Nat) :
    Moves n a r a (r.release n wait)

section move
variable {n : Nat} {r : Runner} {k : Task}

theorem task?_move (hk : r.task? n = some k) (stage : Stage) :
    (r.move n stage).task? n = some { k with stage } := by
  obtain ⟨-, hnumber⟩ := task?_some hk
  have hsame : (fun t : Task => t.number == n) ∘
      (fun t : Task => if t.number = n then { t with stage } else t) = fun t => t.number == n := by
    funext t
    simp only [Function.comp_apply]
    split <;> rfl
  unfold task? at hk
  rw [task?, move, List.find?_map, hsame, hk, Option.map_some, if_pos hnumber]

theorem task?_release (hk : r.task? n = some k) (wait : Nat) :
    (r.release n wait).task? n = some { k with stage := .ready wait } := by
  rw [← task?_move hk (.ready wait), release, task?, queue_tasks, task?]

end move

namespace Shared

/-- A new runner, which has no tasks. -/
def new (services : Services) : Shared := ⟨{ services }, fun _ => none⟩

/-- A task has come to an account. -/
def put (n : Nat) (a : Account) (r : Runner) (s : Shared) : Shared :=
  ⟨r, Function.update s.accounts n (some a)⟩

/-- A call in progress or a task goes on. -/
inductive Goes (s : Shared) : Shared → Prop where
  | move {n : Nat} {a a' : Account} {r' : Runner} (ha : s.accounts n = some a)
      (hmove : Moves n a s.runner a' r') : Goes s (s.put n a' r')

/-- The next step: a start of a known service creates its task, a stop takes out the handle that it
finds, what is in progress goes on, or something else changes than tasks and table. A stop that
finds no handle does nothing. -/
inductive Step (s : Shared) : Shared → Prop where
  | create (owner : Nat) {request : InvokeRequest} {service : Service}
      (hservice : Keyed.get? request.src s.runner.services = some service)
      (havailable : s.runner.available) :
    Step s (s.put s.runner.nextNumber
      { owner, token := request.token, job := service request.input }
      (s.runner.create owner request.token (service request.input)))
  | take {token : Token} {n : Nat} {a : Account}
      (hlookup : s.runner.table.lookup token = some n) (ha : s.accounts n = some a) :
    Step s (s.put n { a with taken := true } (s.runner.erase token))
  | go {s' : Shared} (hgoes : s.Goes s') : Step s s'
  | aside (services : Services) (available : Bool) (now : Nat) (turns : List Turn) :
    Step s { s with runner := { s.runner with services, available, now, turns } }

/-- A run of steps in any order. -/
abbrev Runs : Shared → Shared → Prop := Relation.ReflTransGen Step

variable {s s' : Shared} {n : Nat} {a a' : Account} {r r' : Runner} {k : Task}

theorem accounts_put (n : Nat) (a : Account) (r : Runner) (s : Shared) (m : Nat) :
    (s.put n a r).accounts m = if m = n then some a else s.accounts m :=
  Function.update_apply s.accounts n (some a) m

@[simp] theorem accounts_put_self : (s.put n a r).accounts n = some a := Function.update_self ..

@[simp] theorem put_put : (s.put n a r).put n a' r' = s.put n a' r' := by
  simp [put]

/-! The calls and the turns of a task are runs of these steps which nothing comes between. -/

theorem Runs.move (hruns : Runs s (s'.put n a r)) (hmove : Moves n a r a' r') :
    Runs s (s'.put n a' r') := by
  have hgoes : (s'.put n a r).Goes ((s'.put n a r).put n a' r') := .move accounts_put_self hmove
  rw [put_put] at hgoes
  exact hruns.tail (.go hgoes)

/-- A start that no other thread gets into. -/
theorem runs_start (owner : Nat) (request : InvokeRequest) (service : Service)
    (hservice : Keyed.get? request.src s.runner.services = some service)
    (havailable : s.runner.available) :
    Runs s (s.put s.runner.nextNumber
      { owner, token := request.token, job := service request.input, entered := true,
        released := true } (s.runner.start owner request)) := by
  have hstart : s.runner.start owner request =
      ((s.runner.create owner request.token (service request.input)).enroll request.token
        s.runner.nextNumber).release s.runner.nextNumber (service request.input).wait := by
    simp [start, hservice, havailable]
  have hcreate := Runs.move (.single (.create owner hservice havailable))
    (.enroll Bool.false_ne_true)
  exact hstart ▸ hcreate.move (.release rfl Bool.false_ne_true)

/-- A stop that finds the handle of a task which nobody polls. -/
theorem runs_stop (token : Token) (hlookup : s.runner.table.lookup token = some n)
    (ha : s.accounts n = some a) (haborted : ¬ a.aborted) (hpolled : ¬ a.polled) :
    Runs s (s.put n
      { a with taken := true, aborted := true, dropped := a.dropped || s.runner.ends n }
      (s.runner.stop token)) := by
  have hstop : s.runner.stop token = (s.runner.erase token).interrupt n := by
    simp only [stop, hlookup]
  exact hstop ▸ Runs.move (.single (.take hlookup ha)) (.abort rfl haborted hpolled)

/-- The turn of a task whose service returns, in one poll. -/
theorem runs_turn (ha : s.accounts n = some a) (hpolled : ¬ a.polled)
    (hk : s.runner.task? n = some k) (hready : k.stage = .ready 0) :
    Runs s (s.put n
      { a with
        polled := false, returned := true, forgotten := true,
        reports := a.reports ++ (s.runner.turn n).2.toList }
      (s.runner.turn n).1) := by
  obtain ⟨-, rfl⟩ := task?_some hk
  have hcall : s.runner.call k = s.runner.move k.number .returned := by simp [call, hready]
  have hreturned := hcall ▸ task?_move hk .returned
  have hforgotten : ((s.runner.call k).forget k).task? k.number =
      some { k with stage := .forgotten } :=
    task?_move (r := (s.runner.call k).erase k.token) hreturned .forgotten
  have hpoll : Runs s (s.put k.number { a with polled := true } s.runner) :=
    .single (.go (.move ha (.poll hk hpolled)))
  have hruns := ((hpoll.move (.call hk rfl)).move (.forget hreturned rfl rfl)).move
    (.finish hforgotten rfl rfl)
  rw [turn_of_ready hk hready]
  simp only [hready, decide_true, Bool.or_true] at hruns
  exact hruns

/-- The turn of a task whose service does not return, in one poll. -/
theorem runs_turn_of_not_ready (ha : s.accounts n = some a) (hpolled : ¬ a.polled)
    (haborted : ¬ a.aborted) (hk : s.runner.task? n = some k) (hopen : k.stage.Open)
    (hready : k.stage ≠ .ready 0) : Runs s (s.put n a (s.runner.turn n).1) := by
  obtain ⟨l, hl, hlopen⟩ : ∃ l, (s.runner.call k).task? n = some l ∧ l.stage.Open := by
    obtain ⟨-, rfl⟩ := task?_some hk
    unfold call
    split
    · next hzero => exact absurd hzero hready
    · exact ⟨_, task?_move hk _, nofun, nofun⟩
    · exact ⟨k, hk, hopen⟩
  have hturn : (s.runner.turn n).1 = s.runner.call k := by
    simp only [turn, hk, if_neg hready]
  have hpoll : Runs s (s.put n { a with polled := true } s.runner) :=
    .single (.go (.move ha (.poll hk hpolled)))
  have hruns := (hpoll.move (.call hk rfl)).move (.pend hl rfl hlopen haborted)
  simp only [decide_eq_false hready, Bool.or_false] at hruns
  rw [← eq_false_of_ne_true hpolled] at hruns
  exact hturn ▸ hruns

end Shared

end Statechart.Runner
