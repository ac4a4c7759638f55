import Statechart.Proofs.Host.Run

/-!
# Interleavings of a host

Callers and actors go on side by side. What they do is made of moves that nothing interrupts: an
actor joins and its machine is brought up, a command is accepted, an actor carries out a request or
is woken, reports arrive, a caller takes its reply. An interleaving is any sequence of such moves,
whoever makes them and whenever; its deeds say which instance each of them is about. Every run of a
host is an interleaving.
-/
namespace Statechart

/-- What makes the machine of an instance go on. Each operation has the answers of the runner at
its time. -/
inductive Prompt where
  | start (answer : InvokeRequest → Option Outcome)
  | restore (answer : InvokeRequest → Option Outcome) (snapshot : Snapshot)
  | request (answer : InvokeRequest → Option Outcome) (request : Request)
  /-- The machine is woken to process the reports that have arrived. -/
  | wake (answer : InvokeRequest → Option Outcome)
  /-- Reports have arrived, during an operation or between two, and the queue holds these now. -/
  | queued (pending : List Completion)

/-- The request that makes a machine go on, if it is one. -/
def Prompt.request? : Prompt → Option Request
  | .request _ r => some r
  | _ => none

namespace Machine

/-- A machine that is driven by a prompt. What it has done to the outside is taken from it. -/
def heed (m : Machine) : Prompt → Machine
  | .start answer => (m.after [.attend answer, .start]).takeTrace.1
  | .restore answer s => (m.after [.attend answer, .restore s]).takeTrace.1
  | .request answer r =>
    match r.command with
    | .dispatch event => (m.after [.attend answer, .dispatch event]).takeTrace.1
    | .snapshot => m
    | .stop => (m.after [.attend answer, .stop]).takeTrace.1
  | .wake answer =>
    ({ m with signalled := false }.after [.attend answer, .processPending]).takeTrace.1
  | .queued pending => { m with pending, signalled := true }

/-- A machine that is driven by prompts in order. -/
def heedAll (m : Machine) (prompts : List Prompt) : Machine := prompts.foldl heed m

@[simp] theorem heedAll_nil (m : Machine) : m.heedAll [] = m := rfl

@[simp] theorem heedAll_append (m : Machine) (prompts prompts' : List Prompt) :
    m.heedAll (prompts ++ prompts') = (m.heedAll prompts).heedAll prompts' :=
  List.foldl_append

/-- What a machine returns for a request. A stop returns the last snapshot unless it fails; when
there is nothing to stop, it does not fail. -/
def reply (m : Machine) (answer : InvokeRequest → Option Outcome) (r : Request) :
    Statechart.Reply :=
  let m := m.feed (.attend answer)
  match r.command with
  | .dispatch event => .dispatched (m.dispatch event).2
  | .snapshot => .snapshot m.snapshot
  | .stop =>
    .stopped (if m.status = .running then m.stop.2.map fun () => m.stop.1.snapshot
      else .ok m.snapshot)

end Machine

namespace Host

/-- A request that has been accepted by an actor, and who has sent it. -/
structure Arrival where
  actor : Nat
  caller : Nat
  request : Request

/-- What happens to instances and requests in a move. -/
inductive Deed where
  | joined (actor : Nat) (machine : Machine)
  | prompted (actor : Nat) (prompt : Prompt)
  | accepted (arrival : Arrival)
  /-- A request has been carried out and answered. -/
  | served (actor : Nat) (answer : InvokeRequest → Option Outcome) (request : Request)
    (reply : Reply)
  /-- A caller has taken its reply. -/
  | collected (call : Nat) (reply : Reply)
  | ended (actor : Nat)
  | other

/-- One move. -/
inductive Proceeds (h : Host) : Deed → Host → Prop where
  | rest {h' : Host} (hrest : Rests h h') : Proceeds h .other h'
  | join {c : Chart} {context : Json} {machine : Machine} (id : String)
      (hcreate : Machine.create c context
        { settings := h.config.settings, predicates := h.predicates } = .ok machine) :
    Proceeds h (.joined h.nextActor machine) (h.join id machine)
  | start {n : Nat} {a : Actor} (ha : h.actor? n = some a) :
    Proceeds h (.prompted n (.start h.runner.refusal)) (h.operate startTolerantly a).1
  | restore {n : Nat} {a : Actor} (ha : h.actor? n = some a) (s : Snapshot) :
    Proceeds h (.prompted n (.restore h.runner.refusal s)) (h.operate (·.restore s) a).1
  | discard {n : Nat} {a : Actor} (ha : h.actor? n = some a) (hempty : a.inbox = []) :
    Proceeds h (.ended n) (h.remove n)
  | accept {n : Nat} {a : Actor} (ha : h.actor? n = some a) (caller : Nat) (command : Command)
      (hroom : a.inbox.length < h.config.host.commandCapacity) :
    Proceeds h (.accepted ⟨n, caller, ⟨h.nextCall, command⟩⟩) (h.accept a command)
  | serve {n : Nat} {a : Actor} {r : Request} {rest : List Request} {reply : Reply}
      (ha : h.actor? n = some a) (hinbox : a.inbox = r :: rest)
      (hreply : ((h.update { a with inbox := rest }).carryOut r { a with inbox := rest }).replies =
        h.replies ++ [(r.call, reply)]) :
    Proceeds h (.served n h.runner.refusal r reply)
      ((h.update { a with inbox := rest }).carryOut r { a with inbox := rest })
  | wake {n : Nat} {a : Actor} (ha : h.actor? n = some a) :
    Proceeds h (.prompted n (.wake h.runner.refusal))
      (h.operate (fun m => { m with signalled := false }.processPending) a).1
  | queue {n : Nat} {a : Actor} (ha : h.actor? n = some a) (pending : List Completion) :
    Proceeds h (.prompted n (.queued pending))
      (h.update { a with machine := { a.machine with pending, signalled := true } })
  | lapse {n : Nat} {a : Actor} (ha : h.actor? n = some a) (hempty : a.inbox = []) :
    Proceeds h (.ended n) ((h.operate Machine.halt a).1.remove n)
  | collect {call : Nat} {reply : Reply} (hreply : h.replies.lookup call = some reply) :
    Proceeds h (.collected call reply) (h.takeReply call).1

/-- An interleaving of moves, with their deeds. -/
inductive Runs (h₀ : Host) : List Deed → Host → Prop where
  | refl : Runs h₀ [] h₀
  | tail {deeds h deed h'} (hruns : Runs h₀ deeds h) (hmove : Proceeds h deed h') :
    Runs h₀ (deeds ++ [deed]) h'

variable {h₀ h h' : Host}

theorem perform_talk (number : Nat) (id : String) (effects : List Effect) : ∀ h : Host,
    (effects.foldl (perform number id) h).replies = h.replies ∧
    (effects.foldl (perform number id) h).nextCall = h.nextCall ∧
    (effects.foldl (perform number id) h).config = h.config := by
  induction effects with
  | nil => exact fun h => ⟨rfl, rfl, rfl⟩
  | cons e effects ih =>
      intro h
      obtain ⟨hreplies, hcall, hconfig⟩ := ih (h.perform number id e)
      rw [List.foldl_cons, hreplies, hcall, hconfig]
      cases e <;> exact ⟨rfl, rfl, rfl⟩

/-- An operation of a machine neither takes nor gives replies. -/
theorem operate_talk {α : Type} (operation : Machine → Machine × α) (a : Actor) (h : Host) :
    (h.operate operation a).1.replies = h.replies ∧
    (h.operate operation a).1.nextCall = h.nextCall ∧
    (h.operate operation a).1.config = h.config :=
  perform_talk a.number a.instanceId _ (h.update (carried operation a h))

theorem halt_reply (m : Machine) :
    m.halt.2.map (fun () => m.halt.1.takeTrace.1.snapshot) =
      if m.status = .running then m.stop.2.map fun () => m.stop.1.snapshot
      else .ok m.snapshot := by
  unfold Machine.halt
  split <;> rfl

/-- A request is answered with what the machine returns for it. -/
theorem carryOut_replies (a : Actor) (r : Request) (h : Host) :
    (h.carryOut r a).replies =
      h.replies ++ [(r.call, a.machine.reply h.runner.refusal r)] := by
  unfold Host.carryOut Machine.reply
  cases r.command with
  | dispatch event => exact congrArg (· ++ _) (operate_talk (·.dispatch event) a h).1
  | snapshot => rfl
  | stop =>
      have hreply := halt_reply (a.machine.equip h.runner)
      have htalk := (operate_talk Machine.halt a h).1
      dsimp only
      rw [← show a.machine.equip h.runner = a.machine.feed (.attend h.runner.refusal) from rfl,
        ← hreply]
      exact congrArg (· ++ _) htalk

theorem Runs.deliver {deeds : List Deed} (hruns : Runs h₀ deeds h) (r : Report) :
    ∃ deeds, Runs h₀ deeds (h.deliver r) := by
  unfold Host.deliver
  split
  · exact ⟨_, hruns⟩
  · next a ha =>
      have hqueued := hruns.tail (.queue ha (a.machine.pending ++ [r.completion]))
      exact ⟨_, hqueued.tail (.rest ⟨fun _ => rfl, rfl, rfl, le_rfl⟩)⟩

theorem takeReply_of_none {call : Nat} (hnone : h.replies.lookup call = none) :
    Rests h (h.takeReply call).1 := by
  refine ⟨fun _ => rfl, ?_, rfl, le_rfl⟩
  refine List.filter_eq_self.mpr fun entry hentry => ?_
  have hne : (call == entry.1) = false := by
    simpa using List.lookup_eq_none_iff.mp hnone entry hentry
  exact decide_eq_true (Ne.symm (ne_of_beq_false hne))

/-- What interleavings lead to is closed under moves. -/
theorem closed_interleaved (hk : Kept [] h₀) :
    Closed fun h => Reaches h₀ h ∧ ∃ deeds, Runs h₀ deeds h where
  numbers hr := (closed_reaches hk).numbers hr.1
  charts hr := (closed_reaches hk).charts hr.1
  rest := fun ⟨hr, _, hruns⟩ hsame hrest =>
    ⟨(closed_reaches hk).rest hr hsame hrest, _, hruns.tail (.rest hrest)⟩
  join := fun id ⟨hr, _, hruns⟩ hsound hcreate =>
    ⟨(closed_reaches hk).join id hr hsound hcreate, _, hruns.tail (.join id hcreate)⟩
  setUp := fun ⟨hr, _, hruns⟩ ha hop => by
    refine ⟨(closed_reaches hk).setUp hr ha hop, ?_⟩
    have hfound := actor?_of_mem ((closed_reaches hk).numbers hr) ha
    cases hop with
    | start => exact ⟨_, hruns.tail (.start hfound)⟩
    | restore s => exact ⟨_, hruns.tail (.restore hfound s)⟩
  discard := fun ⟨hr, _, hruns⟩ ha hempty =>
    ⟨(closed_reaches hk).discard hr ha hempty, _,
      hruns.tail (.discard (actor?_of_mem ((closed_reaches hk).numbers hr) ha) hempty)⟩
  accept := fun command ⟨hr, _, hruns⟩ ha hroom =>
    ⟨(closed_reaches hk).accept command hr ha hroom, _,
      hruns.tail (.accept (actor?_of_mem ((closed_reaches hk).numbers hr) ha) 0 command hroom)⟩
  serve := fun ⟨hr, _, hruns⟩ ha hinbox =>
    ⟨(closed_reaches hk).serve hr ha hinbox, _,
      hruns.tail (.serve (actor?_of_mem ((closed_reaches hk).numbers hr) ha) hinbox
        (carryOut_replies _ _ _))⟩
  wake := fun ⟨hr, _, hruns⟩ ha =>
    ⟨(closed_reaches hk).wake hr ha, _,
      hruns.tail (.wake (actor?_of_mem ((closed_reaches hk).numbers hr) ha))⟩
  lapse := fun ⟨hr, _, hruns⟩ ha hempty =>
    ⟨(closed_reaches hk).lapse hr ha hempty, _,
      hruns.tail (.lapse (actor?_of_mem ((closed_reaches hk).numbers hr) ha) hempty)⟩
  collect := fun {h} call ⟨hr, _, hruns⟩ => by
    refine ⟨(closed_reaches hk).collect call hr, ?_⟩
    cases hreply : h.replies.lookup call with
    | none => exact ⟨_, hruns.tail (.rest (takeReply_of_none hreply))⟩
    | some reply => exact ⟨_, hruns.tail (.collect hreply)⟩
  finish := fun {h n _} ⟨hr, _, hruns⟩ htask hready => by
    refine ⟨(closed_reaches hk).finish hr htask hready, ?_⟩
    have hended : Rests h { h with runner := (h.runner.turn n).1 } :=
      ⟨fun _ => rfl, rfl, rfl, le_rfl⟩
    exact (hruns.tail (.rest hended)).deliver _

/-- Every run of a host is an interleaving. -/
theorem runs_after (hk : Kept [] h₀) (inputs : List Input) :
    ∃ deeds, Runs h₀ deeds (h₀.after inputs) :=
  ((closed_interleaved hk).after ⟨⟨[], .refl⟩, [], .refl⟩ inputs).2

end Host

end Statechart
