import Statechart.Proofs.Host.Conversation

/-!
# Instances refine machines

An instance of a host refines its machine: however callers and wake-ups are interleaved, the replies
to its requests are those of the bare machine, driven by the same requests in one order. What a
caller has is decided by the replies and by the inbox of its actor: once the actor is gone without a
reply, so is the instance.
-/
namespace Statechart.Host
open Machine (jobChart jobMachine create_job snapshotConfiguration restore_of_valid)

/-- What a caller has that has sent a command to the actor of a number, registered under an id:
nothing while the actor has its command before it, then the reply, or the answer that there is no
instance any more. -/
def await (id : String) (n call : Nat) (h : Host) : Option (Except HostError Reply) :=
  match h.replies.lookup call with
  | some reply => some (.ok reply)
  | none =>
    if (h.actor? n).any fun a => a.inbox.any fun r => r.call = call then none
    else some (.error (.instanceNotFound id))

/-- A request gives its caller what the caller has once everyone has had their turns. -/
theorem request_of_await {h h' : Host} {id : String} {command : Command} {call : Nat}
    (n : Nat) {answer : Except HostError Reply} (hsend : h.send id command = .ok (h', call))
    (htime : h'.settle.config.host.replyTimeout ≠ 0)
    (hanswer : h'.settle.await id n call = some answer) :
    (h.request id command).2 = answer := by
  have hsubmit : h.submit id command = (h', .ok call) := by rw [submit, hsend]
  unfold Host.request
  rw [hsubmit]
  dsimp only [takeReply]
  rw [if_neg htime]
  unfold await at hanswer
  cases hreply : h'.settle.replies.lookup call with
  | some reply =>
      rw [hreply] at hanswer
      exact Option.some.inj hanswer
  | none =>
      rw [hreply] at hanswer
      dsimp only at hanswer
      split at hanswer
      · cases hanswer
      · exact Option.some.inj hanswer

/-- An instance whose machine was `m₀` when it joined, in an interleaving, and what has become of
its requests. -/
structure Refines (n : Nat) (m₀ : Machine) (deeds : List Deed) (h : Host) : Prop where
  /-- Requests are accepted in one order, that of their calls. -/
  ordered : (accepted deeds n).Pairwise fun r r' => r.call < r'.call
  /-- In this order, those of each caller are in its own order. -/
  callers (caller : Nat) : (acceptedFrom deeds n caller).Sublist (accepted deeds n)
  /-- They are carried out in this order. -/
  inOrder : carriedOut deeds n <+: accepted deeds n
  /-- The machine is driven by what is carried out and by nothing else that is a request. -/
  applied : (prompts deeds n).filterMap Prompt.request? = carriedOut deeds n
  /-- Each of them is given one reply, which is what `m₀` returns for it, driven by all that has
  come before. -/
  replies (before after : List Deed) (answer : InvokeRequest → Option Outcome) (r : Request)
    (reply : Reply) : deeds = before ++ .served n answer r reply :: after →
      reply = (m₀.heedAll (prompts before n)).reply answer r ∧
      ∀ reply', ((r.call, reply') ∈ h.replies ∨ .collected r.call reply' ∈ deeds) ↔
        reply' = reply
  /-- As long as there is an actor, its machine is `m₀`, driven by all prompts. No stop has been
  carried out, and what has not been carried out is before it. It can go on with the next. -/
  present (a : Actor) : h.actor? n = some a → a.machine = m₀.heedAll (prompts deeds n) ∧
    accepted deeds n = carriedOut deeds n ++ a.inbox ∧
    (∀ r ∈ carriedOut deeds n, r.command ≠ .stop) ∧
    ∀ r rest, a.inbox = r :: rest →
      ∃ reply h', Proceeds h (.served n h.runner.refusal r reply) h'
  /-- An actor that is gone has carried out all requests up to the first stop, and it is given no
  more. -/
  gone : h.actor? n = none →
    (∀ before r after, accepted deeds n = before ++ r :: after →
      (∀ r' ∈ before, r'.command ≠ .stop) → r ∈ carriedOut deeds n) ∧
    ∀ id registration, Keyed.get? id h.instances = some registration → registration.actor = n →
      ∀ command, h.send id command = .error (.instanceNotFound id)
  /-- Requests behind a stop are not carried out, and no caller is given a reply to them. Once the
  actor is gone, their callers find no instance. -/
  behind (before between after : List Request) (stop r : Request) :
    accepted deeds n = before ++ stop :: between ++ r :: after → stop.command = .stop →
      r ∉ carriedOut deeds n ∧ (∀ reply, .collected r.call reply ∉ deeds) ∧
      (h.actor? n = none → ∀ id, h.await id n r.call = some (.error (.instanceNotFound id)))

section refines
variable {deeds : List Deed} {h : Host} {n : Nat}

/-- A request that has not been carried out has not been answered. -/
theorem Chronicle.not_answered (hc : Chronicle deeds h.scene) {r : Request}
    (hr : r ∈ accepted deeds n) (hnot : r ∉ carriedOut deeds n) (reply : Reply) :
    (r.call, reply) ∉ h.replies ∧ .collected r.call reply ∉ deeds := by
  have htold : (r.call, reply) ∉ told deeds := by
    intro htold
    obtain ⟨n', answer, r', hserved, hcall⟩ := mem_told.mp htold
    have hcarried := mem_carriedOut hserved
    obtain ⟨rfl, rfl⟩ :=
      hc.queued.eq_of_call ((hc.queued.carriedOut_prefix n').subset hcarried) hr hcall
    exact hnot hcarried
  exact not_or.mp fun hanswered => htold ((hc.booked.books r.call reply).mp hanswered)

theorem Chronicle.replied (hc : Chronicle deeds h.scene) {answer : InvokeRequest → Option Outcome}
    {r : Request} {reply : Reply} (hserved : .served n answer r reply ∈ deeds) (reply' : Reply) :
    ((r.call, reply') ∈ h.replies ∨ .collected r.call reply' ∈ deeds) ↔ reply' = reply := by
  have htold : (r.call, reply) ∈ told deeds := mem_told.mpr ⟨n, answer, r, hserved, rfl⟩
  refine (hc.booked.books r.call reply').trans ⟨fun htold' => ?_, fun heq => heq ▸ htold⟩
  exact congrArg Prod.snd (List.inj_on_of_nodup_map hc.booked.once htold' htold rfl)

theorem Chronicle.behind (hc : Chronicle deeds h.scene) {before between after : List Request}
    {stop r : Request} (heq : accepted deeds n = before ++ stop :: between ++ r :: after)
    (hstop : stop.command = .stop) : r ∉ carriedOut deeds n := by
  intro hr
  have hordered := hc.queued.accepted_pairwise n
  rw [heq, List.pairwise_append] at hordered
  have hlt : stop.call < r.call := hordered.2.2 stop (by simp) r (by simp)
  have hcarried := hc.queued.mem_carriedOut_of_lt (r := stop) (by simp [heq]) hr hlt
  exact absurd (hc.queued.call_le_stop hcarried hstop hr) hlt.not_ge

theorem await_of_none (hgone : h.actor? n = none) {call : Nat}
    (hnone : ∀ reply, (call, reply) ∉ h.replies) (id : String) :
    h.await id n call = some (.error (.instanceNotFound id)) := by
  have hlookup : h.replies.lookup call = none := by
    refine List.lookup_eq_none_iff.mpr fun ⟨call', reply⟩ hmem => ?_
    rw [bne_iff_ne]
    rintro rfl
    exact hnone reply hmem
  simp [await, hlookup, hgone]

theorem Chronicle.refines (hc : Chronicle deeds h.scene) {m₀ : Machine}
    (hm : .joined n m₀ ∈ deeds) : Refines n m₀ deeds h where
  ordered := hc.queued.accepted_pairwise n
  callers := acceptedFrom_sublist
  inOrder := hc.queued.carriedOut_prefix n
  applied := hc.driven.requests n
  replies before after answer r reply heq := by
    have hserved : .served n answer r reply ∈ deeds := by simp [heq]
    exact ⟨hc.driven.replies n m₀ hm before answer r reply after heq, hc.replied hserved⟩
  present a ha := by
    have hp := scene_posts ha
    obtain ⟨haccepted, hgoing⟩ := hc.queued.tally_some hp
    exact ⟨hc.driven.machines n m₀ hm _ hp, haccepted, hgoing,
      fun r rest hinbox => ⟨_, _, .serve ha hinbox (carryOut_replies _ _ _)⟩⟩
  gone hgone := by
    have hp : h.scene.posts n = none := by simp [scene, post?, hgone]
    refine ⟨fun before r after => hc.queued.mem_carriedOut_of_none hp, ?_⟩
    rintro id registration hregistered rfl command
    simp [send, hregistered, hgone]
  behind before between after stop r heq hstop := by
    have hnot := hc.behind heq hstop
    have hanswered := hc.not_answered (r := r) (by simp [heq]) hnot
    exact ⟨hnot, fun reply => (hanswered reply).2,
      fun hgone => await_of_none hgone fun reply => (hanswered reply).1⟩

end refines

/-- Every run of a host is an interleaving, and in every interleaving each instance refines its
machine. A request by itself gives what its caller has when all turns have been taken. -/
theorem instances_refine (config : Config) (available : Bool) :
    (∀ inputs, ∃ deeds, Runs (create config available) deeds
      ((create config available).after inputs)) ∧
    (∀ deeds h, Runs (create config available) deeds h → ∀ n m₀, .joined n m₀ ∈ deeds →
      Refines n m₀ deeds h) ∧
    ∀ (h h' : Host) id command call n answer, h.send id command = .ok (h', call) →
      h'.settle.config.host.replyTimeout ≠ 0 → h'.settle.await id n call = some answer →
      (h.request id command).2 = answer :=
  ⟨runs_after (kept_create config available),
    fun _ _ hruns _ _ hm => (hruns.chronicle rfl rfl).refines hm,
    fun _ _ _ _ _ n _ hsend htime hanswer => request_of_await n hsend htime hanswer⟩

theorem Runs.accept {h₀ h : Host} {deeds : List Deed} {n call : Nat} {a : Actor}
    (hruns : Runs h₀ deeds h) (ha : h.actor? n = some a) (hcall : h.nextCall = call)
    (caller : Nat) (command : Command)
    (hroom : a.inbox.length < h.config.host.commandCapacity) :
    Runs h₀ (deeds ++ [.accepted ⟨n, caller, ⟨call, command⟩⟩]) (h.accept a command) := by
  rw [← hcall]
  exact hruns.tail (.accept ha caller command hroom)

/-- Two callers send to one instance: the first asks for its state and sends an event, the second
stops it in between. The event is not carried out, and the first caller finds no instance. -/
theorem instances_refine_race :
    let go : Command := .dispatch ⟨"go", .null⟩
    ∃ deeds h, Runs (create {} true) deeds h ∧ .joined 1 jobMachine ∈ deeds ∧
      accepted deeds 1 = [⟨1, .snapshot⟩, ⟨2, .stop⟩, ⟨3, go⟩] ∧
      acceptedFrom deeds 1 7 = [⟨1, .snapshot⟩, ⟨3, go⟩] ∧
      carriedOut deeds 1 = [⟨1, .snapshot⟩, ⟨2, .stop⟩] ∧
      h.await "a" 1 3 = some (.error (.instanceNotFound "a")) := by
  intro go
  obtain ⟨answer, h, b, hstarted, hb, hempty, hcall, hroom⟩ : ∃ answer h b,
      Runs (create {} true) [.joined 1 jobMachine, .prompted 1 (.start answer)] h ∧
      h.actor? 1 = some b ∧ b.inbox = [] ∧ h.nextCall = 1 ∧
      2 < h.config.host.commandCapacity := by
    let a : Actor := { number := 1, instanceId := "a", machine := jobMachine }
    let h₁ := (create {} true).join "a" jobMachine
    have ha : h₁.actor? 1 = some a := rfl
    have hjoined : Runs (create {} true) [.joined 1 jobMachine] h₁ :=
      Runs.refl.tail (.join "a" create_job)
    obtain ⟨-, hcall, hconfig⟩ := operate_talk startTolerantly a h₁
    exact ⟨_, _, _, hjoined.tail (.start ha), actor?_operate ha _, rfl, hcall,
      hconfig ▸ by decide⟩
  have hasked := hstarted.accept hb hcall 7 .snapshot (by simp [hempty]; omega)
  have hended := hasked.accept (actor?_accept hb .snapshot) (congrArg (· + 1) hcall) 8 .stop
    (show _ < h.config.host.commandCapacity by simp [hempty]; omega)
  have hsent := hended.accept (actor?_accept (actor?_accept hb .snapshot) .stop)
    (congrArg (· + 2) hcall) 7 go (show _ < h.config.host.commandCapacity by simpa [hempty])
  have hd := actor?_accept (actor?_accept (actor?_accept hb .snapshot) .stop) go
  have hinbox : b.inbox ++ [⟨h.nextCall, .snapshot⟩] ++ [⟨h.nextCall + 1, .stop⟩] ++
      [⟨h.nextCall + 2, go⟩] = [⟨1, .snapshot⟩, ⟨2, .stop⟩, ⟨3, go⟩] := by simp [hempty, hcall]
  have hanswered := hsent.tail (.serve hd hinbox (carryOut_replies _ _ _))
  have hruns := hanswered.tail
    (.serve (actor?_update_self hd (actor?_some hb).2) rfl (carryOut_replies _ _ _))
  obtain ⟨-, hrefines, -⟩ := instances_refine {} true
  have hr := hrefines _ _ hruns 1 jobMachine (.head _)
  have hgone := Option.eq_none_iff_forall_ne_some.mpr fun d hd =>
    (hr.present d hd).2.2.1 ⟨2, .stop⟩ (.tail _ (.head _)) rfl
  have hbehind := hr.behind [⟨1, .snapshot⟩] [] [] ⟨2, .stop⟩ ⟨3, go⟩ rfl rfl
  exact ⟨_, _, hruns, .head _, rfl, rfl, rfl, hbehind.2.2 hgone "a"⟩

theorem reply_stop_of_ne {m : Machine} {r : Request} (hr : r.command = .stop)
    (hstatus : m.status ≠ .running) (answer : InvokeRequest → Option Outcome) :
    m.reply answer r = .stopped (.ok (m.feed (.attend answer)).snapshot) := by
  unfold Machine.reply
  rw [hr]
  exact congrArg _ (if_neg hstatus)

/-- An actor whose machine does not run can get a request to stop, and it answers it with the
snapshot, while its machine refuses to be stopped. -/
theorem Runs.stop_of_ne {h₀ h : Host} {deeds : List Deed} {n : Nat} {m₀ : Machine} {a : Actor}
    (hruns : Runs h₀ deeds h) (hactors : h₀.actors = []) (hreplies : h₀.replies = [])
    (hm : .joined n m₀ ∈ deeds) (ha : h.actor? n = some a) (hempty : a.inbox = [])
    (hroom : 0 < h.config.host.commandCapacity) (hstatus : a.machine.status ≠ .running) :
    let m := (m₀.heedAll (prompts deeds n)).feed (.attend h.runner.refusal)
    ∃ h', Runs h₀ (deeds ++ [.accepted ⟨n, 0, ⟨h.nextCall, .stop⟩⟩] ++
        [.served n h.runner.refusal ⟨h.nextCall, .stop⟩ (.stopped (.ok m.snapshot))]) h' ∧
      m.stop.2 = .error (.lifecycle .stop a.machine.status) := by
  have haccepted := hruns.tail (.accept ha 0 .stop (by rwa [hempty]))
  have hinbox : a.inbox ++ [⟨h.nextCall, .stop⟩] = [⟨h.nextCall, .stop⟩] := by rw [hempty]; rfl
  have hserved := haccepted.tail (.serve (actor?_accept ha .stop) hinbox
    ((carryOut_replies _ _ _).trans
      (congrArg (fun reply => _ ++ [(_, reply)]) (reply_stop_of_ne rfl hstatus _))))
  have hmachine := (((hruns.chronicle hactors hreplies).refines hm).present a ha).1
  rw [← hmachine]
  exact ⟨_, hserved, congrArg Prod.snd
    (Machine.stop_of_ne (m := a.machine.feed (.attend h.runner.refusal)) hstatus)⟩

theorem carried_restore_status (s : Snapshot) (a : Actor) (h : Host) :
    (carried (·.restore s) a h).machine.status =
      ((a.machine.equip h.runner).restore s).1.status := rfl

/-- An instance is brought back from the snapshot of a stopped machine and gets a request to stop.
The request succeeds, while the machine by itself fails to stop. -/
theorem stop_of_stopped_succeeds :
    let s : Snapshot := ⟨"m", jobChart.checksum, .stopped, none, [], .obj []⟩
    ∃ answer answer' h,
      let m := (jobMachine.heedAll [.restore answer s]).feed (.attend answer')
      Runs (create {} true) [.joined 1 jobMachine, .prompted 1 (.restore answer s),
        .accepted ⟨1, 0, ⟨1, .stop⟩⟩,
        .served 1 answer' ⟨1, .stop⟩ (.stopped (.ok m.snapshot))] h ∧
      m.stop.2 = .error (.lifecycle .stop .stopped) := by
  intro s
  let a : Actor := { number := 1, instanceId := "a", machine := jobMachine }
  let h₁ := (create {} true).join "a" jobMachine
  have ha : h₁.actor? 1 = some a := rfl
  have hjoined : Runs (create {} true) [.joined 1 jobMachine] h₁ :=
    Runs.refl.tail (.join "a" create_job)
  have hrestored := hjoined.tail (.restore ha s)
  have hstatus : (carried (·.restore s) a h₁).machine.status = .stopped := by
    have hconfiguration : snapshotConfiguration jobChart s = .ok [] := rfl
    have hcontext : Context.ofJson s.context = .ok .empty := rfl
    rw [carried_restore_status, restore_of_valid rfl (show s.chart = jobChart.id from rfl)
      (show s.checksum = jobChart.checksum from rfl) hconfiguration hcontext]
    rfl
  obtain ⟨h, hruns, hrefused⟩ := hrestored.stop_of_ne rfl rfl (.head _) (actor?_operate ha _) rfl
    (by rw [(operate_talk _ _ _).2.2]; decide) (by rw [hstatus]; decide)
  rw [(operate_talk _ _ _).2.1] at hruns
  rw [hstatus] at hrefused
  exact ⟨_, _, h, hruns, hrefused⟩

end Statechart.Host
