import Statechart.Host.Basic

/-!
# Turns

Tasks and actors take turns in the order in which they became ready. An actor carries out one
command, or processes the completions that have arrived, and goes on while it has work.
-/
namespace Statechart

/-- Stops a machine that is running. -/
def Machine.halt (m : Machine) : Machine × Except MachineError Unit :=
  if m.status = .running then m.stop else (m, .ok ())

namespace Host

/-- Keeps a reply for the call that waits for it. -/
def answer (call : Nat) (reply : Reply) (h : Host) : Host :=
  { h with replies := h.replies ++ [(call, reply)] }

/-- Carries out a command and answers it. Stopping ends the actor. -/
def carryOut (r : Request) (a : Actor) (h : Host) : Host :=
  match r.command with
  | .dispatch event =>
    let (h, _, result) := h.operate (·.dispatch event) a
    h.answer r.call (.dispatched result)
  | .snapshot => h.answer r.call (.snapshot a.machine.snapshot)
  | .stop =>
    let (h, a, result) := h.operate Machine.halt a
    (h.answer r.call (.stopped (result.map fun () => a.machine.snapshot))).remove a.number

/-- Lets an actor do one piece of work; a command comes before completions. -/
def act (a : Actor) (h : Host) : Host :=
  match a.inbox with
  | r :: rest =>
    let a := { a with inbox := rest }
    (h.update a).carryOut r a
  | [] =>
    if a.orphaned then
      ((h.operate Machine.halt a).1).remove a.number
    else if a.machine.signalled then
      (h.operate (fun m => { m with signalled := false }.processPending) a).1
    else h

/-- Whether an actor would not wait if it had a turn. -/
def hasWork (a : Actor) : Bool :=
  a.live && (!a.inbox.isEmpty || a.orphaned || a.machine.signalled)

/-- The turn of an actor. One that still has work goes on before anyone else. -/
def actorTurn (number : Nat) (h : Host) : Host :=
  match h.actor? number with
  | none => h
  | some a =>
    if hasWork a then
      let h := h.act a
      match h.actor? number with
      | none => h
      | some a =>
        if hasWork a then
          { h with runner := { h.runner with turns := .owner number :: h.runner.turns } }
        else h
    else h

/-- Takes the first turn. -/
def turn? (h : Host) : Option Host :=
  match h.runner.turns with
  | [] => none
  | turn :: rest =>
    let h := { h with runner := { h.runner with turns := rest } }
    match turn with
    | .owner number => some (h.actorTurn number)
    | .task number =>
      let (runner, report) := h.runner.turn number
      let h := { h with runner }
      match report with
      | some r => some (h.deliver r)
      | none => some h

/-- Takes turns until everyone waits, at most so many. -/
def takeTurns : Nat → Host → Host
  | 0, h => h
  | fuel + 1, h =>
    match h.turn? with
    | none => h
    | some h => takeTurns fuel h

/-- How many turns may follow one another before a host gives up waiting for quiet. -/
def turnLimit : Nat := 10000000

/-- Takes turns until everyone waits. -/
def settle (h : Host) : Host := h.takeTurns turnLimit

/-- Lets time pass in one go, then takes turns. -/
def advance (ms : Nat) (h : Host) : Host := { h with runner := h.runner.advance ms }.settle

/-- Lets time pass from one waking task to the next, at most so many, taking turns at each. -/
def sleepUntil : Nat → Nat → Host → Host
  | 0, _, h => h
  | fuel + 1, time, h =>
    match h.runner.nextDue? with
    | some due =>
      if due ≤ time then sleepUntil fuel time (h.advance (due - h.runner.now))
      else h.advance (time - h.runner.now)
    | none => h.advance (time - h.runner.now)

/-- Lets time pass, every task waking at its own time. -/
def sleep (ms : Nat) (h : Host) : Host := sleepUntil turnLimit (h.runner.after ms) h.settle

end Host

end Statechart
