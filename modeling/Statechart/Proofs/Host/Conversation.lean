import Statechart.Proofs.Host.Scene

/-!
# Conversations with an instance

However callers and actors are interleaved, an instance answers as its machine alone would. The
requests that its actor accepts are in one order, that of their calls; the actor carries them out in
this order, each once, up to the first stop, and gives each the reply of a machine that is driven by
what has come before. Requests behind a stop are never carried out and never answered. All this is
kept by every move of a scene; four invariants share the work: who there is, what has been accepted
and carried out, what machines have become, and who has been told what.
-/
namespace Statechart.Host

section deeds

def Deed.arrival? : Deed → Option Arrival
  | .accepted x => some x
  | _ => none

/-- A prompt for the machine of an actor. -/
def Deed.prompt? (n : Nat) : Deed → Option Prompt
  | .prompted a prompt => if a = n then some prompt else none
  | .served a answer r _ => if a = n then some (.request answer r) else none
  | _ => none

/-- A request that an actor has carried out. -/
def Deed.served? (n : Nat) : Deed → Option Request
  | .served a _ r _ => if a = n then some r else none
  | _ => none

/-- A call and its reply. -/
def Deed.told? : Deed → Option (Nat × Reply)
  | .served _ _ r reply => some (r.call, reply)
  | _ => none

/-- A deed of an actor. -/
def Deed.IsOf (n : Nat) : Deed → Prop
  | .joined a _ | .prompted a _ | .served a _ _ _ | .ended a => a = n
  | .accepted x => x.actor = n
  | .collected .. | .other => False

variable (deeds : List Deed) (deed : Deed) (n : Nat)

/-- The requests that have been accepted, oldest first. -/
def arrivals : List Arrival := deeds.filterMap Deed.arrival?

/-- The requests that an actor has accepted, oldest first. -/
def accepted : List Request :=
  (arrivals deeds).filterMap fun x => if x.actor = n then some x.request else none

/-- Those of them that a caller has sent. -/
def acceptedFrom (caller : Nat) : List Request :=
  ((arrivals deeds).filter fun x => x.caller = caller).filterMap fun x =>
    if x.actor = n then some x.request else none

/-- The prompts for the machine of an actor in order. -/
def prompts : List Prompt := deeds.filterMap (Deed.prompt? n)

/-- The requests that an actor has carried out, oldest first. -/
def carriedOut : List Request := deeds.filterMap (Deed.served? n)

/-- The replies that have been given, with their calls. -/
def told : List (Nat × Reply) := deeds.filterMap Deed.told?

@[simp] theorem arrivals_concat :
    arrivals (deeds ++ [deed]) = arrivals deeds ++ deed.arrival?.toList := by
  cases h : deed.arrival? <;> simp [arrivals, h]

@[simp] theorem accepted_concat : accepted (deeds ++ [deed]) n = accepted deeds n ++
    deed.arrival?.toList.filterMap fun x => if x.actor = n then some x.request else none := by
  simp [accepted]

@[simp] theorem prompts_concat :
    prompts (deeds ++ [deed]) n = prompts deeds n ++ (deed.prompt? n).toList := by
  cases h : deed.prompt? n <;> simp [prompts, h]

@[simp] theorem carriedOut_concat :
    carriedOut (deeds ++ [deed]) n = carriedOut deeds n ++ (deed.served? n).toList := by
  cases h : deed.served? n <;> simp [carriedOut, h]

@[simp] theorem told_concat : told (deeds ++ [deed]) = told deeds ++ deed.told?.toList := by
  cases h : deed.told? <;> simp [told, h]

variable {deeds deed n}

theorem mem_accepted {r : Request} :
    r ∈ accepted deeds n ↔ ∃ x ∈ arrivals deeds, x.actor = n ∧ x.request = r := by
  simp only [accepted, List.mem_filterMap, Option.ite_none_right_eq_some, Option.some.injEq]

theorem acceptedFrom_sublist (caller : Nat) :
    (acceptedFrom deeds n caller).Sublist (accepted deeds n) :=
  List.filter_sublist.filterMap _

/-- A deed of another actor tells nothing of this one. -/
theorem concat_of_not_isOf (deeds : List Deed) (h : ¬ deed.IsOf n) :
    prompts (deeds ++ [deed]) n = prompts deeds n ∧
    accepted (deeds ++ [deed]) n = accepted deeds n ∧
    carriedOut (deeds ++ [deed]) n = carriedOut deeds n := by
  cases deed <;> simp_all [Deed.IsOf, Deed.prompt?, Deed.arrival?, Deed.served?]

/-- Who has no deeds has done nothing. -/
theorem idle_of_not_isOf (h : ∀ d ∈ deeds, ¬ d.IsOf n) :
    prompts deeds n = [] ∧ accepted deeds n = [] ∧ carriedOut deeds n = [] := by
  induction deeds using List.reverseRecOn with
  | nil => exact ⟨rfl, rfl, rfl⟩
  | append_singleton deeds deed ih =>
      obtain ⟨hprompts, haccepted, hcarried⟩ :=
        concat_of_not_isOf deeds (h deed (by simp))
      rw [hprompts, haccepted, hcarried]
      exact ih fun d hd => h d (List.mem_append_left _ hd)

end deeds

variable {deeds : List Deed} {deed : Deed} {s s' : Scene} {n : Nat}

/-- A move changes the post of one actor at most. -/
theorem Scene.Move.posts_of_not_isOf (hmove : s.Move deed s') (h : ¬ deed.IsOf n) :
    s'.posts n = s.posts n := by
  cases hmove with
  | rest | collect => rfl
  | join | prompt | accept | serve | stop | leave => exact Function.update_of_ne (Ne.symm h) _ _

/-- Nothing has been done by an actor that has not joined yet, and all others have joined. -/
structure Peopled (deeds : List Deed) (s : Scene) : Prop where
  unborn (n : Nat) : s.nextActor ≤ n → s.posts n = none ∧ ∀ d ∈ deeds, ¬ d.IsOf n
  origin (n : Nat) (p : Post) : s.posts n = some p → ∃ m, .joined n m ∈ deeds

theorem Peopled.lt (h : Peopled deeds s) {p : Post} (hp : s.posts n = some p) :
    n < s.nextActor := by
  by_contra hnot
  rw [(h.unborn n (Nat.le_of_not_lt hnot)).1] at hp
  cases hp

theorem Peopled.joined_lt (h : Peopled deeds s) {m : Machine} (hm : .joined n m ∈ deeds) :
    n < s.nextActor := by
  by_contra hnot
  exact (h.unborn n (Nat.le_of_not_lt hnot)).2 _ hm rfl

theorem Peopled.isOf_lt (h : Peopled deeds s) (hmove : s.Move deed s') (hof : deed.IsOf n) :
    n < s'.nextActor := by
  cases hmove with
  | rest | collect => exact hof.elim
  | join =>
      obtain rfl : s.nextActor = n := hof
      exact Nat.lt_succ_self _
  | prompt hp | accept hp | serve hp | stop hp | leave hp =>
      obtain rfl := hof
      exact h.lt hp

theorem Peopled.step (h : Peopled deeds s) (hmove : s.Move deed s') :
    Peopled (deeds ++ [deed]) s' := by
  have hnext : s.nextActor ≤ s'.nextActor := by
    cases hmove with
    | rest hnext => exact hnext
    | join => exact Nat.le_succ _
    | prompt | accept | serve | stop | leave | collect => exact le_rfl
  constructor
  · intro n hn
    have hnot : ¬ deed.IsOf n := fun hof => absurd (h.isOf_lt hmove hof) hn.not_gt
    obtain ⟨hnone, hdeeds⟩ := h.unborn n (hnext.trans hn)
    refine ⟨(hmove.posts_of_not_isOf hnot).trans hnone, fun d hd => ?_⟩
    rcases List.mem_append.mp hd with hd | hd
    · exact hdeeds d hd
    · rwa [List.mem_singleton.mp hd]
  · intro n p hp
    have hold (q : Post) (hq : s.posts n = some q) : ∃ m, .joined n m ∈ deeds ++ [deed] := by
      obtain ⟨m, hm⟩ := h.origin n q hq
      exact ⟨m, List.mem_append_left _ hm⟩
    by_cases hof : deed.IsOf n
    · cases hmove with
      | rest | collect => exact hof.elim
      | join m =>
          obtain rfl : s.nextActor = n := hof
          exact ⟨m, by simp⟩
      | prompt hq | accept hq | serve hq | stop hq | leave hq =>
          obtain rfl := hof
          exact hold _ hq
    · exact hold p ((hmove.posts_of_not_isOf hof).symm.trans hp)

/-- What an actor has accepted and carried out, by what it works with. It has carried out all but
what is still before it. Once it is gone, it has carried out everything, or everything up to a
stop. -/
def Tally (accepted carriedOut : List Request) : Option Post → Prop
  | some p => accepted = carriedOut ++ p.inbox ∧ ∀ r ∈ carriedOut, r.command ≠ .stop
  | none => ∃ behind, accepted = carriedOut ++ behind ∧
      ((behind = [] ∧ ∀ r ∈ carriedOut, r.command ≠ .stop) ∨
        ∃ before r, carriedOut = before ++ [r] ∧ r.command = .stop ∧
          ∀ r' ∈ before, r'.command ≠ .stop)

structure Queued (deeds : List Deed) (s : Scene) : Prop where
  calls : (arrivals deeds).Pairwise fun x y => x.request.call < y.request.call
  recent : ∀ x ∈ arrivals deeds, x.request.call < s.nextCall
  tally (n : Nat) : Tally (accepted deeds n) (carriedOut deeds n) (s.posts n)

section queued
variable (h : Queued deeds s)
include h

theorem Queued.tally_some {p : Post} (hp : s.posts n = some p) :
    accepted deeds n = carriedOut deeds n ++ p.inbox ∧
      ∀ r ∈ carriedOut deeds n, r.command ≠ .stop := by
  have htally := h.tally n
  rwa [hp] at htally

theorem Queued.carriedOut_prefix (n : Nat) : carriedOut deeds n <+: accepted deeds n := by
  have htally := h.tally n
  cases hp : s.posts n with
  | some p => exact ⟨p.inbox, (h.tally_some hp).1.symm⟩
  | none =>
      rw [hp] at htally
      obtain ⟨behind, heq, _⟩ := htally
      exact ⟨behind, heq.symm⟩

theorem Queued.accepted_pairwise (n : Nat) :
    (accepted deeds n).Pairwise fun r r' => r.call < r'.call := by
  rw [accepted, List.pairwise_filterMap]
  refine h.calls.imp fun {x y} hlt r hr r' hr' => ?_
  simp only [Option.ite_none_right_eq_some, Option.some.injEq] at hr hr'
  rwa [← hr.2, ← hr'.2]

/-- A call is one request of one actor. -/
theorem Queued.eq_of_call {n n' : Nat} {r r' : Request} (hr : r ∈ accepted deeds n)
    (hr' : r' ∈ accepted deeds n') (hcall : r.call = r'.call) : n = n' ∧ r = r' := by
  obtain ⟨x, hx, rfl, rfl⟩ := mem_accepted.mp hr
  obtain ⟨y, hy, rfl, rfl⟩ := mem_accepted.mp hr'
  have hnodup : ((arrivals deeds).map (·.request.call)).Nodup :=
    List.pairwise_map.mpr (h.calls.imp fun hlt => hlt.ne)
  obtain rfl := List.inj_on_of_nodup_map hnodup hx hy hcall
  exact ⟨rfl, rfl⟩

/-- What is accepted before a request that has been carried out has been carried out too. -/
theorem Queued.mem_carriedOut_of_lt {r r' : Request} (hr : r ∈ accepted deeds n)
    (hr' : r' ∈ carriedOut deeds n) (hlt : r.call < r'.call) : r ∈ carriedOut deeds n := by
  obtain ⟨behind, heq⟩ := h.carriedOut_prefix n
  have hordered := h.accepted_pairwise n
  rw [← heq, List.pairwise_append] at hordered
  rcases List.mem_append.mp (heq ▸ hr) with hr | hr
  · exact hr
  · exact absurd (hordered.2.2 r' hr' r hr) hlt.not_gt

/-- Nothing is carried out behind a stop. -/
theorem Queued.call_le_stop {r r' : Request} (hr : r ∈ carriedOut deeds n)
    (hstop : r.command = .stop) (hr' : r' ∈ carriedOut deeds n) : r'.call ≤ r.call := by
  have htally := h.tally n
  cases hp : s.posts n with
  | some p => exact absurd hstop ((h.tally_some hp).2 r hr)
  | none =>
      rw [hp] at htally
      obtain ⟨behind, heq, ⟨-, hgoing⟩ | ⟨before, last, hlast, -, hgoing⟩⟩ := htally
      · exact absurd hstop (hgoing r hr)
      · have hordered := h.accepted_pairwise n
        rw [heq, hlast, List.append_assoc, List.pairwise_append] at hordered
        rw [hlast, List.mem_append, List.mem_singleton] at hr hr'
        obtain rfl := hr.resolve_left fun hr => hgoing r hr hstop
        rcases hr' with hr' | rfl
        · exact (hordered.2.2 r' hr' r (by simp)).le
        · exact le_rfl

/-- An actor that is gone has carried out all that it has accepted up to the first stop. -/
theorem Queued.mem_carriedOut_of_none (hp : s.posts n = none) {before after : List Request}
    {r : Request} (heq : accepted deeds n = before ++ r :: after)
    (hgoing : ∀ r' ∈ before, r'.command ≠ .stop) : r ∈ carriedOut deeds n := by
  have htally := h.tally n
  rw [hp] at htally
  obtain ⟨behind, hbehind, ⟨rfl, -⟩ | ⟨earlier, last, hlast, hstop, -⟩⟩ := htally
  · rw [List.append_nil] at hbehind
    simp [← hbehind, heq]
  · have hcarried : last ∈ carriedOut deeds n := by simp [hlast]
    have hordered := h.accepted_pairwise n
    rcases List.mem_append.mp (heq ▸ (h.carriedOut_prefix n).subset hcarried) with hmem | hmem
    · exact absurd hstop (hgoing last hmem)
    · rcases List.mem_cons.mp hmem with rfl | hmem
      · exact hcarried
      · rw [heq, List.pairwise_append, List.pairwise_cons] at hordered
        exact h.mem_carriedOut_of_lt (by simp [heq]) hcarried (hordered.2.1.1 last hmem)

theorem Queued.step_tally (hpeople : Peopled deeds s) (hmove : s.Move deed s') (n : Nat) :
    Tally (accepted (deeds ++ [deed]) n) (carriedOut (deeds ++ [deed]) n) (s'.posts n) := by
  by_cases hof : deed.IsOf n
  swap
  · obtain ⟨-, haccepted, hcarried⟩ := concat_of_not_isOf deeds hof
    rw [haccepted, hcarried, hmove.posts_of_not_isOf hof]
    exact h.tally n
  cases hmove with
  | rest | collect => exact hof.elim
  | join m =>
      obtain rfl : s.nextActor = n := hof
      obtain ⟨-, haccepted, hcarried⟩ := idle_of_not_isOf (hpeople.unborn _ le_rfl).2
      simp [Scene.put, Deed.arrival?, Deed.served?, haccepted, hcarried, Tally]
  | prompt hp =>
      obtain rfl := hof
      simpa [Scene.put, Deed.arrival?, Deed.served?, Tally] using h.tally_some hp
  | accept hp =>
      obtain rfl := hof
      obtain ⟨haccepted, hgoing⟩ := h.tally_some hp
      simpa [Scene.put, Deed.arrival?, Deed.served?, Tally, haccepted] using hgoing
  | @serve _ p r rest hp hinbox hr =>
      obtain rfl := hof
      obtain ⟨haccepted, hgoing⟩ := h.tally_some hp
      simp only [accepted_concat, carriedOut_concat, Deed.arrival?, Deed.served?, if_true,
        Scene.put, Function.update_self, Tally, haccepted, hinbox]
      refine ⟨by simp, fun r' hr' => ?_⟩
      rcases List.mem_append.mp hr' with hr' | hr'
      · exact hgoing r' hr'
      · obtain rfl : r' = r := by simpa using hr'
        exact hr
  | @stop _ p r rest hp hinbox hr =>
      obtain rfl := hof
      obtain ⟨haccepted, hgoing⟩ := h.tally_some hp
      simp only [accepted_concat, carriedOut_concat, Deed.arrival?, Deed.served?, if_true,
        Scene.put, Function.update_self, Tally, haccepted, hinbox]
      exact ⟨rest, by simp, .inr ⟨carriedOut deeds _, r, rfl, hr, hgoing⟩⟩
  | leave hp hempty =>
      obtain rfl := hof
      obtain ⟨haccepted, hgoing⟩ := h.tally_some hp
      simp only [accepted_concat, carriedOut_concat, Deed.arrival?, Deed.served?,
        Scene.put, Function.update_self, Tally, haccepted, hempty]
      exact ⟨[], by simp, .inl ⟨rfl, by simpa using hgoing⟩⟩

theorem Queued.step (hpeople : Peopled deeds s) (hmove : s.Move deed s') :
    Queued (deeds ++ [deed]) s' := by
  refine ⟨?_, ?_, h.step_tally hpeople hmove⟩
  · cases hmove with
    | accept hp caller command =>
        simpa [Deed.arrival?, List.pairwise_append] using ⟨h.calls, h.recent⟩
    | rest | join | prompt | serve | stop | leave | collect =>
        simpa [Deed.arrival?] using h.calls
  · cases hmove with
    | accept hp caller command =>
        intro x hx
        simp only [arrivals_concat, Deed.arrival?, Option.toList_some, List.mem_append,
          List.mem_singleton] at hx
        rcases hx with hx | rfl
        · exact (h.recent x hx).trans (Nat.lt_succ_self _)
        · exact Nat.lt_succ_self _
    | rest | join | prompt | serve | stop | leave | collect =>
        simpa [Deed.arrival?, Scene.put] using h.recent

end queued

/-- Every machine is what its prompts have made of it, and so is what it has returned. The requests
among its prompts are those that its actor has carried out. -/
structure Driven (deeds : List Deed) (s : Scene) : Prop where
  requests (n : Nat) : (prompts deeds n).filterMap Prompt.request? = carriedOut deeds n
  machines (n : Nat) (m : Machine) : .joined n m ∈ deeds → ∀ p, s.posts n = some p →
    p.machine = m.heedAll (prompts deeds n)
  replies (n : Nat) (m : Machine) : .joined n m ∈ deeds → ∀ before answer r reply after,
    deeds = before ++ .served n answer r reply :: after →
    reply = (m.heedAll (prompts before n)).reply answer r

theorem Scene.Move.requests (hmove : s.Move deed s') (n : Nat) :
    (deed.prompt? n).bind Prompt.request? = deed.served? n := by
  cases hmove with
  | rest | join | accept | leave | collect => rfl
  | prompt hp hprompt =>
      simp only [Deed.prompt?, Deed.served?]
      split
      · exact hprompt
      · rfl
  | serve | stop =>
      simp only [Deed.prompt?, Deed.served?]
      split <;> rfl

section driven
variable (h : Driven deeds s)
include h

theorem Driven.step_requests (hmove : s.Move deed s') (n : Nat) :
    (prompts (deeds ++ [deed]) n).filterMap Prompt.request? = carriedOut (deeds ++ [deed]) n := by
  rw [prompts_concat, carriedOut_concat, List.filterMap_append, h.requests, ← hmove.requests]
  cases deed.prompt? n with
  | none => rfl
  | some prompt => cases hrequest : prompt.request? <;> simp [hrequest]

theorem Driven.step_machines (hpeople : Peopled deeds s) (hmove : s.Move deed s') (n : Nat)
    (m : Machine) (hm : .joined n m ∈ deeds ++ [deed]) (p : Post) (hp : s'.posts n = some p) :
    p.machine = m.heedAll (prompts (deeds ++ [deed]) n) := by
  rcases List.mem_append.mp hm with hold | hnew
  · have hdriven := h.machines n m hold
    by_cases hof : deed.IsOf n
    swap
    · rw [(concat_of_not_isOf deeds hof).1]
      exact hdriven p ((hmove.posts_of_not_isOf hof).symm.trans hp)
    cases hmove with
    | rest | collect => exact hof.elim
    | join =>
        obtain rfl : s.nextActor = n := hof
        exact absurd (hpeople.joined_lt hold) (lt_irrefl _)
    | prompt hq | accept hq | serve hq =>
        obtain rfl := hof
        obtain rfl : _ = p := by simpa [Scene.put] using hp
        simp [Deed.prompt?, hdriven _ hq, Machine.heedAll]
    | stop | leave =>
        obtain rfl := hof
        simp [Scene.put] at hp
  · obtain rfl := List.mem_singleton.mp hnew
    cases hmove with
    | join =>
        obtain ⟨hprompts, -, -⟩ := idle_of_not_isOf (hpeople.unborn _ le_rfl).2
        obtain rfl : _ = p := by simpa [Scene.put] using hp
        simp [Deed.prompt?, hprompts]

theorem Driven.step (hpeople : Peopled deeds s) (hmove : s.Move deed s') :
    Driven (deeds ++ [deed]) s' := by
  refine ⟨h.step_requests hmove, h.step_machines hpeople hmove,
    fun n m hm before answer r reply after heq => ?_⟩
  -- The request has been served just now, or before.
  rcases List.eq_nil_or_concat after with rfl | ⟨after, last, rfl⟩
  · obtain ⟨rfl, hdeed⟩ := List.append_inj' heq rfl
    obtain rfl := List.singleton_inj.mp hdeed
    have hold : .joined n m ∈ deeds := by simpa using hm
    cases hmove with
    | serve hp | stop hp => rw [h.machines n m hold _ hp]
  · rw [List.concat_eq_append, ← List.cons_append, ← List.append_assoc] at heq
    obtain ⟨hdeeds, -⟩ := List.append_inj' heq rfl
    have hserved : .served n answer r reply ∈ deeds := by simp [hdeeds]
    refine h.replies n m ?_ before answer r reply after hdeeds
    rcases List.mem_append.mp hm with hold | hnew
    · exact hold
    · obtain rfl := List.mem_singleton.mp hnew
      cases hmove with
      | join => exact absurd rfl ((hpeople.unborn _ le_rfl).2 _ hserved)

end driven

structure Booked (deeds : List Deed) (s : Scene) : Prop where
  books (call : Nat) (reply : Reply) :
    ((call, reply) ∈ s.replies ∨ .collected call reply ∈ deeds) ↔ (call, reply) ∈ told deeds
  once : ((told deeds).map (·.1)).Nodup

theorem mem_told {call : Nat} {reply : Reply} :
    (call, reply) ∈ told deeds ↔
      ∃ n answer r, .served n answer r reply ∈ deeds ∧ r.call = call := by
  constructor
  · intro h
    obtain ⟨d, hd, htold⟩ := List.mem_filterMap.mp h
    cases d with
    | served n answer r reply' =>
        obtain ⟨rfl, rfl⟩ := Prod.mk.inj (Option.some.inj htold)
        exact ⟨n, answer, r, hd, rfl⟩
    | joined | prompted | accepted | collected | ended | other => cases htold
  · rintro ⟨n, answer, r, hd, rfl⟩
    exact List.mem_filterMap.mpr ⟨_, hd, rfl⟩

theorem mem_carriedOut {answer : InvokeRequest → Option Outcome} {r : Request} {reply : Reply}
    (h : .served n answer r reply ∈ deeds) : r ∈ carriedOut deeds n :=
  List.mem_filterMap.mpr ⟨_, h, if_pos rfl⟩

/-- What is before an actor has not been answered. -/
theorem Queued.not_told (h : Queued deeds s) {p : Post} {r : Request} (hp : s.posts n = some p)
    (hr : r ∈ p.inbox) : r.call ∉ (told deeds).map (·.1) := by
  intro hcall
  obtain ⟨⟨_, reply⟩, htold, rfl⟩ := List.mem_map.mp hcall
  obtain ⟨n', answer, r', hserved, hsame⟩ := mem_told.mp htold
  have hcarried := mem_carriedOut hserved
  obtain ⟨haccepted, -⟩ := h.tally_some hp
  have hbefore : r ∈ accepted deeds n := haccepted ▸ List.mem_append_right _ hr
  obtain ⟨rfl, rfl⟩ :=
    h.eq_of_call ((h.carriedOut_prefix n').subset hcarried) hbefore hsame
  have hordered := h.accepted_pairwise n'
  rw [haccepted, List.pairwise_append] at hordered
  exact lt_irrefl _ (hordered.2.2 r' hcarried r' hr)

theorem Booked.step (h : Booked deeds s) (hqueued : Queued deeds s) (hmove : s.Move deed s') :
    Booked (deeds ++ [deed]) s' := by
  cases hmove with
  | rest | join | prompt | accept | leave =>
      exact ⟨by simpa [Deed.told?, Scene.put] using h.books, by simpa [Deed.told?] using h.once⟩
  | serve hp hinbox | stop hp hinbox =>
      have hfresh := hqueued.not_told hp (hinbox ▸ List.mem_cons_self)
      constructor
      · intro call reply
        simp only [Scene.put, told_concat, Deed.told?, Option.toList_some, List.mem_append,
          List.mem_singleton, ← h.books]
        tauto
      · have honce := h.once.concat hfresh
        simpa [Deed.told?] using honce
  | @collect call reply hreply =>
      obtain ⟨before, after, hreplies, -⟩ := List.lookup_eq_some_iff.mp hreply
      have hkept : (call, reply) ∈ s.replies := by simp [hreplies]
      have htold : (call, reply) ∈ told deeds := (h.books call reply).mp (.inl hkept)
      refine ⟨fun call' reply' => ?_, by simpa [Deed.told?] using h.once⟩
      rw [told_concat, show Deed.told? (.collected call reply) = none from rfl,
        Option.toList_none, List.append_nil]
      constructor
      · rintro (hin | hin)
        · exact (h.books call' reply').mp (.inl (List.mem_of_mem_filter hin))
        · rcases List.mem_append.mp hin with hin | hin
          · exact (h.books call' reply').mp (.inr hin)
          · obtain ⟨rfl, rfl⟩ : call' = call ∧ reply' = reply := by simpa using hin
            exact htold
      · intro hin
        by_cases hcall : call' = call
        · -- A call has one reply only.
          obtain ⟨rfl, rfl⟩ := Prod.mk.inj (List.inj_on_of_nodup_map h.once hin htold hcall)
          exact .inr (by simp)
        · rcases (h.books call' reply').mpr hin with hin | hin
          · exact .inl (List.mem_filter.mpr ⟨hin, by simpa using hcall⟩)
          · exact .inr (List.mem_append_left _ hin)

/-- What deeds tell of a scene. -/
structure Chronicle (deeds : List Deed) (s : Scene) : Prop where
  peopled : Peopled deeds s
  queued : Queued deeds s
  driven : Driven deeds s
  booked : Booked deeds s

theorem chronicle_nil (hposts : ∀ n, s.posts n = none) (hreplies : s.replies = []) :
    Chronicle [] s where
  peopled := ⟨fun n _ => ⟨hposts n, by simp⟩, by simp [hposts]⟩
  queued := ⟨.nil, by simp [arrivals],
    fun n => by simp [hposts, Tally, accepted, arrivals, carriedOut]⟩
  driven := ⟨by simp [prompts, carriedOut], by simp, by simp⟩
  booked := ⟨by simp [hreplies, told], by simp [told]⟩

theorem Chronicle.step (h : Chronicle deeds s) (hmove : s.Move deed s') :
    Chronicle (deeds ++ [deed]) s' where
  peopled := h.peopled.step hmove
  queued := h.queued.step h.peopled hmove
  driven := h.driven.step h.peopled hmove
  booked := h.booked.step h.queued hmove

theorem Runs.chronicle {h₀ h : Host} (hactors : h₀.actors = []) (hreplies : h₀.replies = [])
    (hruns : Runs h₀ deeds h) : Chronicle deeds h.scene := by
  induction hruns with
  | refl => exact chronicle_nil (fun n => by simp [scene, post?, actor?, hactors]) hreplies
  | tail _ hmove ih =>
      exact ih.step (hmove.move (Option.map_eq_none_iff.mp (ih.peopled.unborn _ le_rfl).1))

end Statechart.Host
