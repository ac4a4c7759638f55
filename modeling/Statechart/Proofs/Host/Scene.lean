import Statechart.Proofs.Host.Interleaving

/-!
# Scenes

The scene of a host is what of it callers and actors have to do with: what each actor works with,
and the replies that are kept. A move of a host is a move of its scene, in which only one post
changes, and this says all that a move does.
-/
namespace Statechart.Host

/-- What of a host callers and actors have to do with. -/
structure Scene where
  posts : Nat → Option Post
  replies : List (Nat × Reply)
  nextActor : Nat
  nextCall : Nat

def scene (h : Host) : Scene := ⟨fun n => h.post? n, h.replies, h.nextActor, h.nextCall⟩

namespace Scene

/-- Changes what the actor of a number works with; without a post it is gone. -/
def put (n : Nat) (p : Option Post) (s : Scene) : Scene :=
  { s with posts := Function.update s.posts n p }

/-- One move, with all that it does. -/
inductive Move (s : Scene) : Deed → Scene → Prop where
  | rest {next : Nat} (hnext : s.nextActor ≤ next) : Move s .other { s with nextActor := next }
  | join (m : Machine) :
    Move s (.joined s.nextActor m)
      ({ s with nextActor := s.nextActor + 1 }.put s.nextActor (some ⟨m, []⟩))
  | prompt {n : Nat} {p : Post} {prompt : Prompt} (hp : s.posts n = some p)
      (hprompt : prompt.request? = none) :
    Move s (.prompted n prompt) (s.put n (some ⟨p.machine.heed prompt, p.inbox⟩))
  | accept {n : Nat} {p : Post} (hp : s.posts n = some p) (caller : Nat) (command : Command) :
    Move s (.accepted ⟨n, caller, ⟨s.nextCall, command⟩⟩)
      ({ s with nextCall := s.nextCall + 1 }.put n
        (some ⟨p.machine, p.inbox ++ [Request.mk s.nextCall command]⟩))
  | serve {n : Nat} {p : Post} {r : Request} {rest : List Request} (hp : s.posts n = some p)
      (hinbox : p.inbox = r :: rest) (hr : r.command ≠ .stop)
      (answer : InvokeRequest → Option Outcome) :
    Move s (.served n answer r (p.machine.reply answer r))
      ({ s with replies := s.replies ++ [(r.call, p.machine.reply answer r)] }.put n
        (some ⟨p.machine.heed (.request answer r), rest⟩))
  | stop {n : Nat} {p : Post} {r : Request} {rest : List Request} (hp : s.posts n = some p)
      (hinbox : p.inbox = r :: rest) (hr : r.command = .stop)
      (answer : InvokeRequest → Option Outcome) :
    Move s (.served n answer r (p.machine.reply answer r))
      ({ s with replies := s.replies ++ [(r.call, p.machine.reply answer r)] }.put n none)
  | leave {n : Nat} {p : Post} (hp : s.posts n = some p) (hempty : p.inbox = []) :
    Move s (.ended n) (s.put n none)
  | collect {call : Nat} {reply : Reply} (hreply : s.replies.lookup call = some reply) :
    Move s (.collected call reply) { s with replies := s.replies.filter fun (c, _) => c ≠ call }

/-- Of two changes to one post the later one counts. -/
theorem put_put (n : Nat) (p q : Option Post) (replies : List (Nat × Reply)) (s : Scene) :
    { s.put n p with replies }.put n q = { s with replies }.put n q := by
  simp [put]

end Scene

variable {h h' : Host} {n : Nat} {a : Actor}

theorem posts_congr (hactors : h'.actors = h.actors) :
    (fun k => h'.post? k) = fun k => h.post? k := by
  funext k
  rw [post?, post?, actor?, actor?, hactors]

theorem post?_some (ha : h.actor? n = some a) : h.post? n = some a.post := by
  rw [post?, ha, Option.map_some]

theorem scene_posts (ha : h.actor? n = some a) : h.scene.posts n = some a.post := post?_some ha

theorem posts_update {b : Actor} (ha : h.actor? n = some a) (hnumber : b.number = n) :
    (fun k => (h.update b).post? k) = Function.update (fun k => h.post? k) n (some b.post) := by
  funext k
  rw [post?, actor?_update, Option.map_map]
  by_cases hk : k = n
  · rw [hk, Function.update_self, ha]
    simp [(actor?_some ha).2, hnumber]
  · rw [Function.update_of_ne hk, post?]
    cases hfound : h.actor? k with
    | none => rfl
    | some c =>
        have hne : c.number ≠ b.number := by
          rw [(actor?_some hfound).2, hnumber]
          exact hk
        simp [hne]

theorem posts_remove (n : Nat) (h : Host) :
    (fun k => (h.remove n).post? k) = Function.update (fun k => h.post? k) n none := by
  funext k
  rw [post?, actor?, Host.remove, List.find?_filter]
  by_cases hk : k = n
  · rw [hk, Function.update_self, Option.map_eq_none_iff, List.find?_eq_none]
    simp
  · rw [Function.update_of_ne hk, post?, actor?]
    congr 2
    funext a
    by_cases ha : a.number = k
    · simp [ha, hk]
    · simp [ha]

theorem posts_join (hfresh : h.actor? h.nextActor = none) (id : String) (m : Machine) :
    (fun k => (h.join id m).post? k) =
      Function.update (fun k => h.post? k) h.nextActor (some ⟨m, []⟩) := by
  funext k
  rw [post?, actor?, Host.join, List.find?_append, ← actor?]
  by_cases hk : k = h.nextActor
  · rw [hk, Function.update_self, hfresh]
    simp [Actor.post]
  · rw [Function.update_of_ne hk, post?]
    simp [Ne.symm hk]

/-- An operation changes the machine of its actor. -/
theorem operate_scene {α : Type} (ha : h.actor? n = some a) (operation : Machine → Machine × α) :
    (h.operate operation a).1.scene = h.scene.put n
      (some ⟨(operation (a.machine.equip h.runner)).1.takeTrace.1, a.inbox⟩) := by
  obtain ⟨-, hactors, hnext, -⟩ := operate_serves operation a h
  obtain ⟨hreplies, hcall, -⟩ := operate_talk operation a h
  have hnumber : (carried operation a h).number = n := (actor?_some ha).2
  rw [scene, posts_congr hactors, posts_update ha hnumber, hreplies, hnext, hcall]
  rfl

theorem update_scene {b : Actor} (ha : h.actor? n = some a) (hnumber : b.number = n) :
    (h.update b).scene = h.scene.put n (some b.post) := by
  rw [scene, posts_update ha hnumber]
  rfl

theorem remove_scene (n : Nat) (h : Host) : (h.remove n).scene = h.scene.put n none := by
  rw [scene, posts_remove]
  rfl

section carryOut
variable {r : Request}

/-- A request that is no stop drives the machine of its actor. -/
theorem carryOut_scene (ha : h.actor? n = some a) (hr : r.command ≠ .stop) :
    (h.carryOut r a).scene =
      { h.scene with
        replies := h.replies ++ [(r.call, a.machine.reply h.runner.refusal r)] }.put n
        (some ⟨a.machine.heed (.request h.runner.refusal r), a.inbox⟩) := by
  cases hcommand : r.command with
  | dispatch event =>
      have hcarried : (h.carryOut r a).scene =
          { (h.operate (·.dispatch event) a).1.scene with
            replies := (h.carryOut r a).replies } := by
        rw [Host.carryOut, hcommand]
        rfl
      rw [hcarried, operate_scene ha, carryOut_replies, Machine.heed]
      simp only [hcommand]
      rfl
  | snapshot =>
      have hcarried : (h.carryOut r a).scene =
          { h.scene with replies := (h.carryOut r a).replies } := by
        rw [Host.carryOut, hcommand]
        rfl
      have hself : Function.update (fun k => h.post? k) n (some ⟨a.machine, a.inbox⟩) =
          fun k => h.post? k :=
        Function.update_eq_self_iff.mpr (post?_some ha).symm
      rw [hcarried, carryOut_replies, Machine.heed]
      simp only [hcommand, Scene.put, scene, hself]
  | stop => exact absurd hcommand hr

/-- A stop ends its actor. -/
theorem carryOut_stop_scene (ha : h.actor? n = some a) (hr : r.command = .stop) :
    (h.carryOut r a).scene =
      { h.scene with
        replies := h.replies ++ [(r.call, a.machine.reply h.runner.refusal r)] }.put n none := by
  have hcarried : (h.carryOut r a).scene =
      { ((h.operate Machine.halt a).1.remove n).scene with
        replies := (h.carryOut r a).replies } := by
    rw [← (actor?_some ha).2, Host.carryOut, hr]
    rfl
  rw [hcarried, remove_scene, operate_scene ha, carryOut_replies]
  simp [Scene.put, scene]

/-- An actor carries out the first request before it. -/
theorem serve_move {rest : List Request} (ha : h.actor? n = some a) (hinbox : a.inbox = r :: rest) :
    h.scene.Move (.served n h.runner.refusal r (a.machine.reply h.runner.refusal r))
      ((h.update { a with inbox := rest }).carryOut r { a with inbox := rest }).scene := by
  let b : Actor := { a with inbox := rest }
  have hnumber : b.number = n := (actor?_some ha).2
  have hb : (h.update b).actor? n = some b := actor?_update_self ha hnumber
  by_cases hr : r.command = .stop
  · rw [carryOut_stop_scene hb hr, update_scene ha hnumber, Scene.put_put]
    exact .stop (scene_posts ha) hinbox hr h.runner.refusal
  · rw [carryOut_scene hb hr, update_scene ha hnumber, Scene.put_put]
    exact .serve (scene_posts ha) hinbox hr h.runner.refusal

end carryOut

/-- A move of a host is a move of its scene. -/
theorem Proceeds.move {deed : Deed} (hfresh : h.actor? h.nextActor = none)
    (hmove : Proceeds h deed h') : h.scene.Move deed h'.scene := by
  cases hmove with
  | rest hrest =>
      have hscene : h'.scene = { h.scene with nextActor := h'.nextActor } := by
        rw [scene, hrest.replies, hrest.nextCall, funext hrest.posts]
        rfl
      rw [hscene]
      exact .rest hrest.nextActor
  | @join c context m id hcreate =>
      have hscene : (h.join id m).scene =
          { h.scene with nextActor := h.nextActor + 1 }.put h.nextActor (some ⟨m, []⟩) := by
        rw [scene, posts_join hfresh]
        rfl
      rw [hscene]
      exact .join m
  | start ha =>
      rw [operate_scene ha, startTolerantly_fst]
      exact .prompt (scene_posts ha) rfl
  | restore ha s =>
      rw [operate_scene ha]
      exact .prompt (scene_posts ha) rfl
  | discard ha hempty =>
      rw [remove_scene]
      exact .leave (scene_posts ha) hempty
  | @accept n a ha caller command hroom =>
      have hscene := update_scene (h := { h with nextCall := h.nextCall + 1 })
        (b := { a with inbox := a.inbox ++ [⟨h.nextCall, command⟩] }) ha (actor?_some ha).2
      rw [Host.accept, hscene]
      exact .accept (scene_posts ha) caller command
  | @serve n a r rest reply ha hinbox hreply =>
      -- The reply that has been added is the one that the request is answered with.
      have hanswer : a.machine.reply h.runner.refusal r = reply := by
        have hcarried := List.append_cancel_left ((carryOut_replies { a with inbox := rest } r
          (h.update { a with inbox := rest })).symm.trans hreply)
        exact congrArg Prod.snd (List.singleton_inj.mp hcarried)
      rw [← hanswer]
      exact serve_move ha hinbox
  | wake ha =>
      rw [operate_scene ha]
      exact .prompt (scene_posts ha) rfl
  | @queue n a ha pending =>
      have hscene := update_scene (b := { a with
        machine := { a.machine with pending, signalled := true } }) ha (actor?_some ha).2
      rw [hscene]
      exact .prompt (scene_posts ha) rfl
  | @lapse n a ha hempty =>
      have hscene : ((h.operate Machine.halt a).1.remove n).scene = h.scene.put n none := by
        rw [remove_scene, operate_scene ha]
        exact h.scene.put_put n _ none h.replies
      rw [hscene]
      exact .leave (scene_posts ha) hempty
  | collect hreply => exact .collect hreply

end Statechart.Host
