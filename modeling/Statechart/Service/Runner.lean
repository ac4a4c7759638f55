import Statechart.Service.Basic

/-!
# Running services

A runner carries out invocations as tasks, in a time of its own that moves only when it is told
to. Its table holds, for each token, the task that stopping the token ends; a start under a token
that is in use replaces the entry and leaves the earlier task to itself. Tasks take turns in the
order in which they became ready.

Starting a task and ending it are made of smaller steps, which concurrent callers may interleave;
`start`, `stop` and `turn` put them together.
-/
namespace Statechart

/-- How far a task has come. -/
inductive Stage where
  /-- Waits until its entry is in the table. -/
  | created
  /-- Takes its next turn, then still waits for some milliseconds. -/
  | ready (wait : Nat)
  | sleeping (due : Nat)
  /-- The service has returned. -/
  | returned
  /-- Its entry is no longer in the table. -/
  | forgotten
  deriving DecidableEq

structure Task where
  number : Nat
  /-- The machine that waits for the outcome. -/
  owner : Nat
  token : Token
  job : Job
  stage : Stage

/-- A completion for the machine that waits for it. -/
structure Report where
  owner : Nat
  completion : Completion

/-- Whose turn it is: a task's, or that of a machine. -/
inductive Turn where
  | task (number : Nat)
  | owner (number : Nat)
  deriving DecidableEq

structure Runner where
  services : Services
  /-- Whether tasks can be run at all. -/
  available : Bool := true
  /-- The time in milliseconds. -/
  now : Nat := 0
  /-- The unfinished tasks in the order of their creation. -/
  tasks : List Task := []
  table : List (Token × Nat) := []
  /-- The turns to come, first one first. -/
  turns : List Turn := []
  nextNumber : Nat := 0

namespace Runner

/-- The outcome of a request that fails without a task. -/
def refusal (r : Runner) (request : InvokeRequest) : Option Outcome :=
  if !Keyed.contains request.src r.services then
    some (.failure ("unknown service '" ++ request.src ++ "'"))
  else if !r.available then some (.failure "no async runtime available")
  else none

/-- The number of entries in the table. -/
def running (r : Runner) : Nat := r.table.length

def task? (r : Runner) (number : Nat) : Option Task := r.tasks.find? fun t => t.number == number

/-- Adds a turn at the end unless it is waiting already. -/
def queue (turn : Turn) (r : Runner) : Runner :=
  if r.turns.contains turn then r else { r with turns := r.turns ++ [turn] }

/-- Moves a task to a stage. -/
def move (number : Nat) (stage : Stage) (r : Runner) : Runner :=
  { r with tasks := r.tasks.map fun t => if t.number = number then { t with stage } else t }

/-- Takes an entry out of the table, whichever task it names. -/
def erase (token : Token) (r : Runner) : Runner :=
  { r with table := r.table.filter fun (t, _) => t ≠ token }

/-- Creates a task, which waits for its entry. -/
def create (owner : Nat) (token : Token) (job : Job) (r : Runner) : Runner :=
  { r with
    tasks := r.tasks ++ [⟨r.nextNumber, owner, token, job, .created⟩]
    nextNumber := r.nextNumber + 1 }

/-- Enters a task into the table, replacing an entry of the same token. -/
def enroll (token : Token) (number : Nat) (r : Runner) : Runner :=
  { r with table := (r.erase token).table ++ [(token, number)] }

/-- Lets a task go that has been entered. -/
def release (number : Nat) (delay : Nat) (r : Runner) : Runner :=
  (r.move number (.ready delay)).queue (.task number)

/-- Starts a task for a request of a machine. A request that is refused has none. -/
def start (owner : Nat) (request : InvokeRequest) (r : Runner) : Runner :=
  match Keyed.get? request.src r.services with
  | none => r
  | some service =>
    if r.available then
      let job := service request.input
      let number := r.nextNumber
      ((r.create owner request.token job).enroll request.token number).release number job.wait
    else r

/-- Ends a task whose service has not returned. -/
def interrupt (number : Nat) (r : Runner) : Runner :=
  { r with tasks := r.tasks.filter fun t =>
      t.number ≠ number || t.stage = .returned || t.stage = .forgotten }

/-- Takes a token out of the table and ends the task that its entry names. -/
def stop (token : Token) (r : Runner) : Runner :=
  match r.table.lookup token with
  | none => r
  | some number => (r.erase token).interrupt number

/-- Calls the service: the task sleeps while the job takes time, and has returned otherwise. -/
def call (t : Task) (r : Runner) : Runner :=
  match t.stage with
  | .ready 0 => r.move t.number .returned
  | .ready wait => r.move t.number (.sleeping (r.now + wait))
  | _ => r

/-- Takes the entry of a returned task out of the table. -/
def forget (t : Task) (r : Runner) : Runner := (r.erase t.token).move t.number .forgotten

/-- Ends a task with its report. -/
def finish (t : Task) (r : Runner) : Runner × Report :=
  ({ r with tasks := r.tasks.filter fun u => u.number ≠ t.number },
    ⟨t.owner, t.token, t.job.outcome⟩)

/-- Runs a task until it waits or ends. -/
def turn (number : Nat) (r : Runner) : Runner × Option Report :=
  match r.task? number with
  | none => (r, none)
  | some t =>
    let r := r.call t
    if t.stage = .ready 0 then
      let (r, report) := (r.forget t).finish t
      (r, some report)
    else (r, none)

/-- Runs the tasks whose turn it is, passing over the turns of machines. Returns their reports in
order. -/
def runTurns (r : Runner) : Runner × List Report :=
  r.turns.foldl
    (fun (r, reports) turn =>
      match turn with
      | .owner _ => (r, reports)
      | .task number =>
        let (r, report) := r.turn number
        (r, reports ++ report.toList))
    ({ r with turns := [] }, [])

def due? (t : Task) : Option Nat :=
  match t.stage with
  | .sleeping due => some due
  | _ => none

/-- When the next sleeping task wakes. -/
def nextDue? (r : Runner) : Option Nat := (r.tasks.filterMap due?).min?

/-- The numbers of the tasks due by a time, the earliest first. -/
def dueBy (r : Runner) (time : Nat) : List Nat :=
  let due := r.tasks.filterMap fun t => (due? t).map fun d => (d, t.number)
  ((due.filter fun (d, _) => d ≤ time).mergeSort fun a b => a.1 ≤ b.1).map (·.2)

/-- When a wait ends that begins now. -/
def after (ms : Nat) (r : Runner) : Nat := r.now + min ms longestWait

/-- Lets time pass in one go; tasks that are due become ready in the order of their times. -/
def advance (ms : Nat) (r : Runner) : Runner :=
  let now := r.after ms
  (r.dueBy now).foldl (fun r number => r.release number 0) { r with now }

end Runner

end Statechart
