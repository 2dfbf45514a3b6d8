import ResendRouter.Service.Loops
import ResendRouter.Delivery.Lease

/-! # Processes with their workers

The loops of the workers and the end of `main` together. A loop that has not
returned has never been told of a change, a loop that has returned has no
running task, and `main` has joined only workers that have returned.
-/

namespace ResendRouter.Service
open Foundation Program Database Delivery

/-- What one event can do to the processes. -/
inductive Cluster.Moves (env : Env) (layout : Layout) (w : Cluster) :
    ClusterEvent → Cluster → Prop where
  | enqueued {time q v} (hv : w.world.step env ⟨time, .enqueue q⟩ = some v) :
      Moves env layout w ⟨time, .enqueue q⟩ { w with world := v }
  | tasked {time i event v} (hv : w.world.step env ⟨time, .task i event⟩ = some v) :
      Moves env layout w ⟨time, .task i event⟩ { w with world := v }
  | looped {time action workerId v l}
      (hm : LoopMove env (w.processes (layout.process workerId)) time w.world workerId
        (w.loops workerId) v l) :
      Moves env layout w ⟨time, action⟩ (w.update workerId (v, l))
  | mained {time p event q}
      (hq : (w.processes p).step (layout.workers p) w.loops event = some q) :
      Moves env layout w ⟨time, .main p event⟩
        { w with processes := Function.update w.processes p q }

inductive Process.Moves (workers : List String) (loops : String → Loop) (p : Process) :
    Process → Prop where
  | sent {main} (hs : p.main = .serving)
      (hm : main = .serving ∨ main = .draining 0 true) :
      Moves workers loops p ⟨p.channel.send true, main⟩
  | joined {k inTime x} (hs : p.main = .draining k inTime) (hx : workers[k]? = some x)
      (hr : (loops x).stage.hasReturned = true) :
      Moves workers loops p { p with main := .draining (k + 1) inTime }
  | timedOut {k inTime} (hs : p.main = .draining k inTime) :
      Moves workers loops p { p with main := .draining (k + 1) false }
  | returned {inTime} (hs : p.main.isReturned = false)
      (h : inTime = true → ∃ k, p.main = .draining k true ∧ workers.length ≤ k) :
      Moves workers loops p ⟨p.channel.close, .returned inTime⟩

variable {env : Env} {layout : Layout} {w w' v : Cluster} {x : String} {e : ClusterEvent}
  {p q : Process} {l l' : Loop} {workers : List String} {loops loops' : String → Loop}
  {phase : Phase} {event : MainEvent} {G : System.Guard Cluster ClusterEvent}

theorem Cluster.step_moves (h : w.step env layout e = some w') : w.Moves env layout e w' := by
  rcases e with ⟨time, action⟩
  cases action with
  | enqueue q =>
    simp only [Cluster.step, Option.map_eq_some_iff] at h
    obtain ⟨v, hv, rfl⟩ := h
    exact .enqueued hv
  | task i event =>
    simp only [Cluster.step, Option.map_eq_some_iff] at h
    obtain ⟨v, hv, rfl⟩ := h
    exact .tasked hv
  | loop x event =>
    simp only [Cluster.step, Option.map_eq_some_iff] at h
    obtain ⟨⟨v, l⟩, hv, rfl⟩ := h
    exact .looped (Loop.step_moves hv)
  | main p event =>
    simp only [Cluster.step, Option.map_eq_some_iff] at h
    obtain ⟨q, hq, rfl⟩ := h
    exact .mained hq
  | abort x =>
    simp only [Cluster.step] at h
    split at h
    case h_2 => cases h
    case h_1 inTime hr =>
      obtain ⟨⟨v, l⟩, hv, rfl⟩ := Option.map_eq_some_iff.mp h
      exact .looped (Loop.abort_moves (by rw [hr]; rfl) hv)

theorem fleet_single {u v : World} {e : Event} (h : u.step env e = some v) :
    (fleet env).Reaches System.free u v :=
  .single ⟨e, h, trivial⟩

theorem LoopMove.reaches {time : Time} {u v : World} (h : LoopMove env p time u x l v l') :
    (fleet env).Reaches System.free u v := by
  cases h with
  | ended _ _ hv => exact fleet_single hv
  | went _ _ hv => exact fleet_single hv
  | claimed _ hv => exact fleet_single hv
  | joined _ hv => exact fleet_single hv
  | late _ hu hv => exact (fleet_single hu).trans (fleet_single hv)
  | aborted _ _ hv => exact fleet_single hv

/-- For the database and the tasks, a run of the processes is a run of the fleet. -/
theorem cluster_refines_fleet (h : (cluster env layout).Reachable G w) :
    (fleet env).Reachable System.free w.world := by
  apply h.simulate Cluster.world rfl
  intro w e w' _ hstep _
  cases Cluster.step_moves hstep with
  | enqueued hv => exact fleet_single hv
  | tasked hv => exact fleet_single hv
  | looped hm => exact hm.reaches
  | mained hq => exact .refl

/-- What holds of the loop of a worker of the process. -/
structure Loop.Sound (p : Process) (phase : Phase) (l : Loop) : Prop where
  phase : phase = l.stage.phase
  /-- Whoever is told of a change returns. -/
  unseen : l.stage.hasReturned = false → l.seen = 0
  reason : l.stage.hasReturned = true → p.Ending
  aborted : l.stage = .aborted → p.main.isReturned = true

/-- The workers that `main` has joined in time. -/
def MainStage.joined (workers : List String) : MainStage → List String
  | .draining k true => workers.take k
  | .returned true => workers
  | _ => []

structure Process.Sound (workers : List String) (loops : String → Loop) (p : Process) : Prop where
  sent : p.channel.Sent (· = true)
  signalled : p.channel.value = true → p.channel.version ≠ 0
  closed : p.channel.closed = true → p.main.isReturned = true
  draining : ∀ k inTime, p.main = .draining k inTime → p.channel.value = true
  joined : ∀ x ∈ p.main.joined workers, (loops x).stage.hasReturned = true

theorem Loop.Sound.step {time : Time} {w v : World} (h : l.Sound p (w.phase x))
    (hp : p.Sound workers loops) (hm : LoopMove env p time w x l v l') :
    l'.Sound p (v.phase x) := by
  have hphase : v.phase x = l'.stage.phase := by rw [hm.phase h.phase, Function.update_self]
  cases hm with
  | ended hs hend hv =>
    refine ⟨hphase, nofun, fun _ => ?_, nofun⟩
    rcases hend with hl | hend
    · exact h.reason (by rw [hl]; rfl)
    · exact hend
  | went hs hseen hv =>
    have hzero := h.unseen hs.hasReturned
    refine ⟨hphase, fun hret => ?_, fun hret => ?_, fun hab => ?_⟩
    · rcases hseen with hseen | rfl | ⟨hch, hvalue⟩
      · rw [hseen, hzero]
      · cases hret
      · -- a value that was sent is `true`
        have hv := hp.sent.of_changed (by rw [hzero]; exact Nat.zero_le _) hch
        rw [hvalue] at hv
        cases hv
    · exact hs.reason hret
    · exact nomatch (congrArg LoopStage.phase hab).symm.trans hs.phase.2
  | claimed hs hv hstage =>
    refine ⟨hphase, fun _ => h.unseen (by rw [hs]; rfl), ?_, ?_⟩ <;>
      rcases hstage with rfl | ⟨-, rfl⟩
    · rcases afterClaim_cases x v with h | ⟨batch, h⟩ <;> rw [h] <;> nofun
    · nofun
    · rcases afterClaim_cases x v with h | ⟨batch, h⟩ <;> rw [h] <;> nofun
    · nofun
  | joined hs hv => exact ⟨hphase, fun _ => h.unseen (by rw [hs]; rfl), nofun, nofun⟩
  | late hs hu hv => exact ⟨hphase, nofun, fun _ => h.reason (by rw [hs]; rfl), nofun⟩
  | aborted hs hr hv => exact ⟨hphase, fun _ => h.unseen (by rw [hs]; rfl), nofun, fun _ => hr⟩

theorem Process.step_moves (h : p.step workers loops event = some q) :
    p.Moves workers loops q := by
  cases event with
  | signal =>
    simp only [Process.step] at h
    split at h
    case h_2 => cases h
    case h_1 hs =>
      split_ifs at h
      cases h
      exact hs ▸ .sent hs (.inl rfl)
  | served =>
    simp only [Process.step] at h
    split at h
    case h_2 => cases h
    case h_1 hs =>
      split_ifs at h
      cases h
      exact .sent hs (.inr rfl)
  | serveFails =>
    simp only [Process.step] at h
    split at h
    case h_2 => cases h
    case h_1 hs =>
      cases h
      exact .returned (by rw [hs]; rfl) nofun
  | joined =>
    simp only [Process.step] at h
    split at h
    case h_2 => cases h
    case h_1 k inTime hs =>
      split at h
      case h_2 => cases h
      case h_1 x hx =>
        split_ifs at h with hr
        cases h
        exact .joined hs hx hr
  | timedOut =>
    simp only [Process.step] at h
    split at h
    case h_2 => cases h
    case h_1 k inTime hs =>
      split_ifs at h
      cases h
      exact .timedOut hs
  | returns =>
    simp only [Process.step] at h
    split at h
    case h_2 => cases h
    case h_1 k inTime hs =>
      split_ifs at h with hk
      cases h
      refine .returned (by rw [hs]; rfl) ?_
      rintro rfl
      exact ⟨k, hs, hk⟩
  | killed =>
    simp only [Process.step] at h
    split at h
    case h_1 => cases h
    case h_2 hno =>
      cases h
      refine .returned ?_ nofun
      cases hs : p.main with
      | returned inTime => exact absurd hs (hno inTime)
      | _ => rfl

theorem Process.Moves.not_returned (h : p.Moves workers loops q) : p.main.isReturned = false := by
  cases h with
  | sent hs => rw [hs]; rfl
  | joined hs => rw [hs]; rfl
  | timedOut hs => rw [hs]; rfl
  | returned hs => exact hs

theorem Process.Sound.step (h : p.Sound workers loops) (hq : p.Moves workers loops q) :
    q.Sound workers loops := by
  have hopen : p.channel.closed ≠ true := by
    intro hc
    have hr := h.closed hc
    rw [hq.not_returned] at hr
    cases hr
  cases hq with
  | sent hs hm =>
    refine ⟨Watch.Sent.send rfl, fun _ => Nat.succ_ne_zero _, fun hc => absurd hc hopen,
      fun _ _ _ => rfl, ?_⟩
    rcases hm with rfl | rfl <;> simp [MainStage.joined]
  | @joined k inTime x hs hx hr =>
    refine ⟨h.sent, h.signalled, fun hc => absurd hc hopen, fun _ _ _ => h.draining k inTime hs, ?_⟩
    cases inTime with
    | false => simp [MainStage.joined]
    | true =>
      have hold := h.joined
      rw [hs] at hold
      intro y hy
      simp only [MainStage.joined, List.take_add_one, hx, Option.toList_some, List.mem_append,
        List.mem_singleton] at hy
      rcases hy with hy | rfl
      · exact hold y hy
      · exact hr
  | timedOut hs =>
    refine ⟨h.sent, h.signalled, fun hc => absurd hc hopen, fun _ _ _ => h.draining _ _ hs, ?_⟩
    simp [MainStage.joined]
  | @returned inTime hs hk =>
    refine ⟨h.sent.close, h.signalled, fun _ => rfl, nofun, ?_⟩
    cases inTime with
    | false => simp [MainStage.joined]
    | true =>
      obtain ⟨k, hmain, hle⟩ := hk rfl
      have hold := h.joined
      rwa [hmain, MainStage.joined, List.take_of_length_le hle] at hold

theorem Process.Moves.value (h : p.Moves workers loops q) (hv : p.channel.value = true) :
    q.channel.value = true := by
  cases h with
  | sent => rfl
  | _ => exact hv

theorem Process.Moves.ending (h : p.Moves workers loops q) (hp : p.Ending) : q.Ending := by
  rcases hp with hv | hc | hr
  · exact .inl (h.value hv)
  · cases h with
    | sent => exact .inl rfl
    | returned => exact .inr (.inl rfl)
    | _ => exact .inr (.inl hc)
  · rw [h.not_returned] at hr
    cases hr

theorem Loop.Sound.process (h : l.Sound p phase) (hq : p.Moves workers loops q) :
    l.Sound q phase := by
  refine ⟨h.phase, h.unseen, fun hr => hq.ending (h.reason hr), fun hab => ?_⟩
  have hr := h.aborted hab
  rw [hq.not_returned] at hr
  cases hr

theorem Process.Sound.of_loops (h : p.Sound workers loops)
    (hl : ∀ x, (loops x).stage.hasReturned = true → (loops' x).stage.hasReturned = true) :
    p.Sound workers loops' :=
  ⟨h.sent, h.signalled, h.closed, h.draining, fun x hx => hl x (h.joined x hx)⟩

def Quiescent (w : World) (x : String) : Prop :=
  ∀ c ∈ w.claims, c.worker = x → c.task.isEnded = true

theorem quiescent_of_polling {u : World} (hi : LeaseInv env u) (hp : u.phase x = .polling) :
    Quiescent u x := by
  intro c hc hx
  obtain ⟨i, hc⟩ := List.mem_iff_getElem?.mp hc
  by_contra hlive
  exact hi.idle hp hc (Bool.eq_false_iff.mpr hlive) hx

theorem Quiescent.task {time : Time} {u u' : World} {i : ℕ} {event : TaskEvent}
    (h : Quiescent u x) (hu : u.step env ⟨time, .task i event⟩ = some u') : Quiescent u' x := by
  cases World.step_moves hu with
  | phased => exact h
  | moved hc hm =>
    intro d hd hx
    rcases List.mem_or_eq_of_mem_set hd with hd | rfl
    · exact h d hd hx
    · have hs := hm.claim_same
      have hold := h _ (List.mem_of_getElem? hc) (hs.worker.symm.trans hx)
      by_contra hlive
      rw [hs.live (Bool.eq_false_iff.mpr hlive)] at hold
      cases hold

theorem Quiescent.enqueue {time : Time} {u u' : World} {r : Enqueue} (h : Quiescent u x)
    (hu : u.step env ⟨time, .enqueue r⟩ = some u') : Quiescent u' x := by
  cases World.step_moves hu with
  | phased => exact h
  | enqueued => exact h

/-- A loop starts no task of another worker, and none when it returns. -/
theorem Quiescent.loop {time : Time} {u u' : World} {y : String} (h : Quiescent u x)
    (hm : LoopMove env p time u y l u' l') (hy : y = x → l'.stage.hasReturned = true) :
    Quiescent u' x := by
  rcases hm.claims with hsame | ⟨now, task, jobs, hclaims, -, -, -, htask⟩
  · rwa [Quiescent, hsame]
  · intro c hc hx
    rw [hclaims, List.mem_append] at hc
    rcases hc with hc | hc
    · exact h c hc hx
    · obtain ⟨job, -, rfl⟩ := List.mem_map.mp hc
      rw [newClaim, htask (hy hx)]
      rfl

theorem LoopMove.polling {time : Time} {u u' : World} (hm : LoopMove env p time u x l u' l')
    (h : l'.stage.hasReturned = true) : l.stage.phase = .polling := by
  cases hm with
  | ended hs => exact hs
  | went hs => exact hs.phase.1
  | claimed hs => rw [hs]; rfl
  | late hs => rw [hs]; rfl
  | _ => cases h

structure ClusterInv (layout : Layout) (w : Cluster) : Prop where
  loops : ∀ x, (w.loops x).Sound (w.processes (layout.process x)) (w.world.phase x)
  processes : ∀ k, (w.processes k).Sound (layout.workers k) w.loops
  /-- Whoever has returned has no running task. -/
  returned : ∀ x, (w.loops x).stage.hasReturned = true → Quiescent w.world x

theorem ClusterInv.looped {time : Time} {u : World} (hi : ClusterInv layout w)
    (hl : LeaseInv env w.world)
    (hm : LoopMove env (w.processes (layout.process x)) time w.world x (w.loops x) u l) :
    ClusterInv layout (w.update x (u, l)) := by
  have hphase := hm.phase (hi.loops x).phase
  have hreturned : ∀ y, (w.loops y).stage.hasReturned = true →
      (Function.update w.loops x l y).stage.hasReturned = true := by
    intro y hy
    by_cases hyx : y = x
    · subst hyx
      rw [Function.update_self]
      exact hm.hasReturned hy
    · rwa [Function.update_of_ne hyx]
  refine ⟨fun y => ?_, fun k => (hi.processes k).of_loops hreturned, fun y hy => ?_⟩
  · simp only [Cluster.update]
    by_cases hyx : y = x
    · subst hyx
      rw [Function.update_self]
      exact (hi.loops y).step (hi.processes _) hm
    · rw [Function.update_of_ne hyx, hphase, Function.update_of_ne hyx]
      exact hi.loops y
  · simp only [Cluster.update] at hy ⊢
    by_cases hyx : y = x
    · subst hyx
      rw [Function.update_self] at hy
      have hp : w.world.phase y = .polling := (hi.loops y).phase.trans (hm.polling hy)
      exact (quiescent_of_polling hl hp).loop hm fun _ => hy
    · rw [Function.update_of_ne hyx] at hy
      exact (hi.returned y hy).loop hm fun h => absurd h.symm hyx

theorem clusterInv_of_reachable (h : (cluster env layout).Reachable G w) :
    ClusterInv layout w := by
  apply h.invariant
  · refine ⟨fun x => ⟨rfl, fun _ => rfl, nofun, nofun⟩, fun k => ?_, nofun⟩
    refine ⟨Watch.sent_new, nofun, nofun, nofun, ?_⟩
    simp [cluster, Cluster.initial, MainStage.joined]
  · intro w e w' hw hi hstep _
    cases Cluster.step_moves hstep with
    | enqueued hv =>
      refine ⟨fun x => ?_, hi.processes, fun x hx => (hi.returned x hx).enqueue hv⟩
      rw [phase_enqueue hv]
      exact hi.loops x
    | tasked hv =>
      refine ⟨fun x => ?_, hi.processes, fun x hx => (hi.returned x hx).task hv⟩
      rw [phase_task hv]
      exact hi.loops x
    | looped hm => exact hi.looped (leaseInv_of_reachable (cluster_refines_fleet hw)) hm
    | @mained time k event q hq =>
      have hq := Process.step_moves hq
      refine ⟨fun x => ?_, fun j => ?_, hi.returned⟩
      · by_cases hx : layout.process x = k
        · subst hx
          simp only [Function.update_self]
          exact (hi.loops x).process hq
        · simp only [Function.update_of_ne hx]
          exact hi.loops x
      · by_cases hj : j = k
        · subst hj
          simp only [Function.update_self]
          exact (hi.processes j).step hq
        · simp only [Function.update_of_ne hj]
          exact hi.processes j

end ResendRouter.Service
