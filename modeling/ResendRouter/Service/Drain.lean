import ResendRouter.Service.Processes

/-! # Ending a process

A worker leaves its loop only when it is told to, takes at most one more batch
after the signal, and has no running task once its loop has returned; so a
process whose workers have all been joined has nothing left to do. Once `main`
waits for the workers, the steps that lead there are always possible.
-/

namespace ResendRouter.Service
open Foundation Program Database Delivery

def sampleLayout : Layout where
  workers
    | 0 => ["a", "b"]
    | _ => []
  process := fun _ => 0
  process_eq := by
    rintro (_ | p) x hx
    · rfl
    · cases hx

/-- The signal arrives while worker `a` waits for its claim call. -/
def signalled : List ClusterEvent :=
  [.enqueue sampleEnqueue, .loop "a" .borrow, .main 0 .signal].map fun action => ⟨0, action⟩

/-- The claim call of `a` is answered all the same, and its batch is worked off. -/
def lastBatch (code : UInt16) : List ClusterEvent :=
  ⟨0, .loop "a" (.claim 0 [] .answered)⟩ ::
    [.checkDeadline, .refresh .answered, .send, .finish (.ok code), .receive 250, .decide 3,
      .readClock, .record .answered].map fun event => ⟨seconds 1, .task 0 event⟩

/-- Worker `b` leaves its select, its claim statement still on its way, and `a` leaves after its
batch; `main` joins both. -/
def drained : List ClusterEvent :=
  [.loop "b" .change, .loop "a" .join, .loop "a" .borrow, .main 0 .served, .main 0 .joined,
    .main 0 .joined, .main 0 .returns].map fun action => ⟨seconds 2, action⟩

variable {env : Env} {layout : Layout} {w w' v : Cluster} {x : String} {e : ClusterEvent}
  {p q : Process} {l l' : Loop} {event : MainEvent}

def claimCount (x : String) (u : World) : ℕ := (u.claims.map (·.worker)).count x

/-- The jobs that the next claim call of the worker returns at most, if the loop may claim. -/
def claimAllowance (env : Env) (x : String) (l : Loop) : ℕ :=
  if l.stage.mayClaim then (env.config x).deliveryClaimLimit.toNat else 0

theorem claimCount_append {u u' : World} {y : String} {now : Time} {task : Task}
    {jobs : List ClaimedJob} (h : u'.claims = u.claims ++ jobs.map (newClaim y now task)) :
    claimCount x u' = claimCount x u + if y = x then jobs.length else 0 := by
  have hworkers : (jobs.map (newClaim y now task)).map (·.worker) =
      List.replicate jobs.length y := by
    rw [List.map_map]
    exact List.map_const' ..
  rw [claimCount, h, List.map_append, List.count_append, hworkers, List.count_replicate, claimCount]
  simp only [beq_iff_eq]

theorem claimCount_task {time : Time} {u u' : World} {i : ℕ} {event : TaskEvent}
    (hu : u.step env ⟨time, .task i event⟩ = some u') : claimCount x u' = claimCount x u := by
  cases World.step_moves hu with
  | phased => rfl
  | moved hc hm => rw [claimCount, map_set_of_eq (·.worker) hc hm.claim_same.worker, claimCount]

theorem claimCount_enqueue {time : Time} {u u' : World} {r : Enqueue}
    (hu : u.step env ⟨time, .enqueue r⟩ = some u') : claimCount x u' = claimCount x u := by
  cases hu
  rfl

/-- What a loop claims is taken from its allowance. -/
theorem LoopMove.claimCount_le {time : Time} {u u' : World} (hm : LoopMove env p time u x l u' l')
    (hvalue : p.channel.value = true) :
    claimCount x u' + claimAllowance env x l' ≤ claimCount x u + claimAllowance env x l := by
  rcases hm.claims with hsame | ⟨now, task, jobs, hclaims, hlength, hmay, hno, -⟩
  · rw [claimCount, hsame, ← claimCount]
    refine Nat.add_le_add_left ?_ _
    simp only [claimAllowance]
    split_ifs with h' h
    · exact le_refl _
    · exact absurd (hm.mayClaim hvalue h') h
    · exact Nat.zero_le _
    · exact Nat.zero_le _
  · rw [claimCount_append hclaims, if_pos rfl, claimAllowance, hno, claimAllowance, hmay]
    simpa using hlength

theorem LoopMove.claimCount_of_ne {time : Time} {u u' : World} {y : String}
    (hm : LoopMove env p time u y l u' l') (hne : y ≠ x) : claimCount x u' = claimCount x u := by
  rcases hm.claims with hsame | ⟨now, task, jobs, hclaims, -⟩
  · rw [claimCount, hsame, claimCount]
  · rw [claimCount_append hclaims, if_neg hne, Nat.add_zero]

theorem value_of_moves (h : w.Moves env layout e w') {k : ℕ}
    (hv : (w.processes k).channel.value = true) : (w'.processes k).channel.value = true := by
  cases h with
  | @mained time j event q hq =>
    by_cases hj : k = j
    · subst hj
      simp only [Function.update_self]
      exact (Process.step_moves hq).value hv
    · simpa only [Function.update_of_ne hj] using hv
  | _ => exact hv

/-- After the signal a worker takes at most one more batch, and none unless it was inside the
select or had left it with a statement on its way. -/
theorem one_more_batch_at_most
    (hsignal : (w.processes (layout.process x)).channel.value = true)
    (hrun : (cluster env layout).Reaches System.free w v) :
    claimCount x v.world ≤ claimCount x w.world + claimAllowance env x (w.loops x) := by
  suffices h : (v.processes (layout.process x)).channel.value = true ∧
      claimCount x v.world + claimAllowance env x (v.loops x) ≤
        claimCount x w.world + claimAllowance env x (w.loops x) from
    (Nat.le_add_right _ _).trans h.2
  apply hrun.invariant ⟨hsignal, le_refl _⟩
  rintro s e s' ⟨hvalue, hle⟩ hstep -
  have hmoves := Cluster.step_moves hstep
  refine ⟨value_of_moves hmoves hvalue, le_trans ?_ hle⟩
  cases hmoves with
  | enqueued hv => rw [claimCount_enqueue hv]
  | tasked hv => rw [claimCount_task hv]
  | mained => exact le_refl _
  | @looped time action y u l hm =>
    simp only [Cluster.update]
    by_cases hy : y = x
    · subst hy
      rw [Function.update_self]
      exact hm.claimCount_le hvalue
    · rw [Function.update_of_ne (Ne.symm hy), hm.claimCount_of_ne hy]

theorem one_more_batch_at_most_signalled : ∃ w v,
    (cluster sampleEnv sampleLayout).Reachable System.free w ∧
    (cluster sampleEnv sampleLayout).Reaches System.free w v ∧
    claimCount "a" w.world = 0 ∧ claimCount "a" v.world = 1 ∧
    claimCount "a" v.world ≤
      claimCount "a" w.world + claimAllowance sampleEnv "a" (w.loops "a") := by
  obtain ⟨w, hw, hp⟩ := System.exists_reachable_of_run (cluster sampleEnv sampleLayout) System.free
    signalled (fun w => (w.processes 0).channel.value = true ∧ claimCount "a" w.world = 0 ∧
      ((cluster sampleEnv sampleLayout).run System.free w (lastBatch 200)).map
        (fun v => claimCount "a" v.world) = some 1) (by decide)
  rw [decide_eq_true_eq, Option.map_eq_some_iff] at hp
  obtain ⟨hsignal, hcount, v, hv, hone⟩ := hp
  have hrun := System.reaches_of_run hv
  exact ⟨w, v, hw, hrun, hcount, hone, one_more_batch_at_most hsignal hrun⟩

/-- Whoever waits has seen nothing, so what it is told is the signal or the end of `main`. -/
theorem Loop.change_returns {channel : Watch Bool} {time : Time} {u u' : World}
    (hseen : l.stage.hasReturned = false → l.seen = 0) (hsent : channel.Sent (· = true))
    (h : l.step env channel time u x .change = some (u', l')) : l'.stage.hasReturned = true := by
  simp only [Loop.step] at h
  split at h
  case h_1 => cases h
  case h_2 told htold =>
    have hends (hstage : l.stage.hasReturned = false) :
        told.toOption = none ∨ channel.value = true := by
      rw [hseen hstage] at htold
      cases told with
      | error => exact .inl rfl
      | ok n => exact .inr (hsent.of_changed (Nat.zero_le _) htold)
    split at h
    case h_1 executed hs =>
      rw [if_pos (hends (by rw [hs]; rfl))] at h
      split_ifs at h
      all_goals
        obtain ⟨u₁, -, heq⟩ := Option.map_eq_some_iff.mp h
        cases heq
        rfl
    case h_2 hs =>
      rw [if_pos (hends (by rw [hs]; rfl))] at h
      obtain ⟨u₁, -, heq⟩ := Option.map_eq_some_iff.mp h
      cases heq
      rfl
    case h_3 => cases h

/-- A worker returns only after the signal or the end of `main`, and always when it is told of
a change: the select is never entered again after one. -/
theorem workers_return_when_told (hw : (cluster env layout).Reachable System.free w) (x : String) :
    ((w.loops x).stage.hasReturned = true →
      (w.processes (layout.process x)).channel.value = true ∨
        (w.processes (layout.process x)).main.isReturned = true) ∧
    ∀ time w', (cluster env layout).step w ⟨time, .loop x .change⟩ = some w' →
      (w'.loops x).stage.hasReturned = true := by
  have hi := clusterInv_of_reachable hw
  refine ⟨fun hr => ?_, fun time w' hstep => ?_⟩
  · rcases (hi.loops x).reason hr with hvalue | hclosed | hreturned
    · exact .inl hvalue
    · exact .inr ((hi.processes _).closed hclosed)
    · exact .inr hreturned
  · simp only [cluster, Cluster.step, Option.map_eq_some_iff] at hstep
    obtain ⟨⟨u, l⟩, hl, rfl⟩ := hstep
    simp only [Cluster.update, Function.update_self]
    exact Loop.change_returns (hi.loops x).unseen (hi.processes _).sent hl

theorem workers_return_when_told_signalled : ∃ w,
    (cluster sampleEnv sampleLayout).Reachable System.free w ∧
    (w.processes 0).channel.value = true ∧
    ((w.loops "a").stage.hasReturned = true →
      (w.processes 0).channel.value = true ∨ (w.processes 0).main.isReturned = true) ∧
    ∀ time w', (cluster sampleEnv sampleLayout).step w ⟨time, .loop "a" .change⟩ = some w' →
      (w'.loops "a").stage.hasReturned = true := by
  obtain ⟨w, hw, hp⟩ := System.exists_reachable_of_run (cluster sampleEnv sampleLayout) System.free
    signalled (fun w => (w.processes 0).channel.value) (by decide)
  exact ⟨w, hw, hp, workers_return_when_told hw "a"⟩

/-- What the worker has done up to `u` is all that it has done up to `u'`. -/
def NothingMore (x : String) (u u' : World) : Prop :=
  ∀ (i : ℕ) (c' : Claim), u'.claims[i]? = some c' → c'.worker = x → c'.task.isEnded = true ∧
    (u.claims[i]? = none ∧ c'.post = none ∧ c'.outcomes = [] ∨
      ∃ c, u.claims[i]? = some c ∧ c'.outcomes = c.outcomes ∧
        c'.post.map (·.request) = c.post.map (·.request))

theorem TaskMove.nothingMore {time : Time} {t t' : Tables} {c c' : Claim}
    (hm : TaskMove env time t c t' c') (hended : c.task.isEnded = true) :
    c'.outcomes = c.outcomes ∧ c'.post.map (·.request) = c.post.map (·.request) := by
  cases hm with
  | finished hp => exact ⟨rfl, by rw [hp]; rfl⟩
  | ended => exact ⟨rfl, rfl⟩
  | _ => simp_all [Task.isEnded]

theorem NothingMore.task {time : Time} {u₀ u u' : World} {i : ℕ} {event : TaskEvent}
    (h : NothingMore x u₀ u) (hle : u₀.claims.length ≤ u.claims.length)
    (hu : u.step env ⟨time, .task i event⟩ = some u') :
    NothingMore x u₀ u' ∧ u₀.claims.length ≤ u'.claims.length := by
  cases World.step_moves hu with
  | phased => exact ⟨h, hle⟩
  | moved hc hm =>
    refine ⟨fun k d hd hx => ?_, by rwa [List.length_set]⟩
    rcases (getElem?_set_some hc).mp hd with ⟨rfl, rfl⟩ | ⟨-, hd⟩
    · have hs := hm.claim_same
      obtain ⟨hended, hold⟩ := h _ _ hc (hs.worker.symm.trans hx)
      obtain ⟨houtcomes, hpost⟩ := TaskMove.nothingMore hm hended
      refine ⟨?_, ?_⟩
      · by_contra hlive
        rw [hs.live (Bool.eq_false_iff.mpr hlive)] at hended
        cases hended
      · rw [houtcomes, hpost]
        refine hold.imp_left fun ⟨hnone, hp, ho⟩ => ⟨hnone, ?_, ho⟩
        rw [hp] at hpost
        exact Option.map_eq_none_iff.mp hpost
    · exact h k d hd hx

theorem NothingMore.loop {time : Time} {u₀ u u' : World} {y : String} (h : NothingMore x u₀ u)
    (hle : u₀.claims.length ≤ u.claims.length) (hm : LoopMove env p time u y l u' l')
    (hy : y = x → l'.stage.hasReturned = true) :
    NothingMore x u₀ u' ∧ u₀.claims.length ≤ u'.claims.length := by
  rcases hm.claims with hsame | ⟨now, task, jobs, hclaims, -, -, -, htask⟩
  · rw [NothingMore, hsame]
    exact ⟨h, hle⟩
  · refine ⟨fun k d hd hx => ?_, by rw [hclaims, List.length_append]; omega⟩
    rw [hclaims] at hd
    rcases getElem?_append_some.mp hd with hd | ⟨n, rfl, hn⟩
    · exact h k d hd hx
    · rw [List.getElem?_map, Option.map_eq_some_iff] at hn
      obtain ⟨job, -, rfl⟩ := hn
      refine ⟨?_, .inl ⟨List.getElem?_eq_none (by omega), rfl, rfl⟩⟩
      rw [newClaim, htask (hy hx)]
      rfl

/-- When `main` has joined all workers in time, every task of the process has ended, and no run
goes on to send another request or to record another outcome for one of its claims. -/
theorem drained_process_is_done {k : ℕ} (hw : (cluster env layout).Reachable System.free w)
    (hreturned : (w.processes k).main = .returned true) (hx : x ∈ layout.workers k)
    (hrun : (cluster env layout).Reaches System.free w v) :
    (v.loops x).stage.hasReturned = true ∧ NothingMore x w.world v.world := by
  have hi := clusterInv_of_reachable hw
  have hx : (w.loops x).stage.hasReturned = true :=
    (hi.processes k).joined x (by rwa [hreturned])
  suffices h : (v.loops x).stage.hasReturned = true ∧ NothingMore x w.world v.world ∧
      w.world.claims.length ≤ v.world.claims.length from ⟨h.1, h.2.1⟩
  refine hw.later (I := fun v => (v.loops x).stage.hasReturned = true ∧
    NothingMore x w.world v.world ∧ w.world.claims.length ≤ v.world.claims.length) hrun
    ⟨hx, fun i c hc hcx => ?_, le_refl _⟩ ?_
  · exact ⟨hi.returned x hx c (List.mem_of_getElem? hc) hcx, .inr ⟨c, hc, rfl, rfl⟩⟩
  · rintro s e s' - ⟨hr, hn, hle⟩ hstep -
    cases Cluster.step_moves hstep with
    | enqueued hv =>
      cases hv
      exact ⟨hr, hn, hle⟩
    | tasked hv =>
      exact ⟨hr, hn.task hle hv⟩
    | mained => exact ⟨hr, hn, hle⟩
    | @looped time action y u l hm =>
      simp only [Cluster.update]
      by_cases hy : y = x
      · subst hy
        rw [Function.update_self]
        have hl := hm.hasReturned hr
        obtain ⟨hn', hle'⟩ := hn.loop hle hm fun _ => hl
        exact ⟨hl, hn', hle'⟩
      · rw [Function.update_of_ne (Ne.symm hy)]
        obtain ⟨hn', hle'⟩ := hn.loop hle hm fun h => absurd h hy
        exact ⟨hr, hn', hle'⟩

/-- The claim statement of `b` takes the job that is retried, after the process has ended. -/
theorem drained_process_is_done_late : ∃ w v,
    (cluster sampleEnv sampleLayout).Reachable System.free w ∧
    (cluster sampleEnv sampleLayout).Reaches System.free w v ∧
    w.world.claims.map (·.outcomes.length) = [1] ∧
    v.world.claims.map (·.outcomes.length) = [1, 0] ∧
    (v.loops "b").stage.hasReturned = true ∧ NothingMore "b" w.world v.world := by
  obtain ⟨w, hw, hp⟩ := System.exists_reachable_of_run (cluster sampleEnv sampleLayout) System.free
    (⟨0, .loop "b" .borrow⟩ :: signalled ++ lastBatch 500 ++ drained) (fun w =>
      w.world.claims.map (·.outcomes.length) = [1] ∧ (w.processes 0).main = .returned true ∧
      ((cluster sampleEnv sampleLayout).run System.free w
        [⟨seconds 3600, .loop "b" (.late (seconds 3600) [])⟩]).map
          (fun v => v.world.claims.map (·.outcomes.length)) = some [1, 0]) (by decide)
  rw [decide_eq_true_eq, Option.map_eq_some_iff] at hp
  obtain ⟨hone, hmain, v, hv, hlate⟩ := hp
  have hrun := System.reaches_of_run hv
  obtain ⟨hreturned, hdone⟩ := drained_process_is_done hw hmain
    (show "b" ∈ sampleLayout.workers 0 by simp [sampleLayout]) hrun
  exact ⟨w, v, hw, hrun, hone, hlate, hreturned, hdone⟩

def LoopEvent.isOrderly : LoopEvent → Bool
  | .borrow => true
  | .change => true
  | .join => true
  | _ => false

def MainEvent.isOrderly : MainEvent → Bool
  | .joined => true
  | .returns => true
  | _ => false

def ClusterAction.isMain : ClusterAction → Bool
  | .main _ _ => true
  | _ => false

/-- A step of the process itself that claims nothing, loses no reply, and ends no wait early. Every
database call of a task is answered, so no record call waits for a transaction of another process
that stays open. The end of the connections is not such a step: the server waits for its clients. -/
def ClusterAction.Orderly (layout : Layout) (k : ℕ) (w : Cluster) : ClusterAction → Prop
  | .task i event => event.isOrderly = true ∧
      ∃ c, w.world.claims[i]? = some c ∧ layout.process c.worker = k
  | .loop x event => layout.process x = k ∧ event.isOrderly = true
  | .main j event => j = k ∧ event.isOrderly = true
  | _ => False

def orderly (layout : Layout) (k : ℕ) : System.Guard Cluster ClusterEvent := fun w e _ =>
  e.time = w.world.clock ∧ e.action.Orderly layout k w

def working (layout : Layout) (k : ℕ) : System.Guard Cluster ClusterEvent := fun w e w' =>
  orderly layout k w e w' ∧ e.action.isMain = false

theorem processes_of_working {k : ℕ} (h : (cluster env layout).Reaches (working layout k) w v) :
    v.processes = w.processes := by
  apply h.invariant (I := fun v => v.processes = w.processes) rfl
  rintro s e s' hs hstep ⟨-, hno⟩
  cases Cluster.step_moves hstep with
  | mained => cases hno
  | _ => exact hs

def LoopStage.rank : LoopStage → ℕ
  | .processing _ => 2
  | .leaving => 0
  | .stopped => 0
  | .aborted => 0
  | _ => 1

/-- A worker that has not returned has a step that brings it closer to its return. -/
theorem exists_loop_step (hw : (cluster env layout).Reachable System.free w)
    (hvalue : (w.processes (layout.process x)).channel.value = true)
    (hmain : (w.processes (layout.process x)).main.isReturned = false)
    (hx : (w.loops x).stage.hasReturned = false) :
    ∃ e w', (cluster env layout).step w e = some w' ∧ working layout (layout.process x) w e w' ∧
      w'.world.rank + (w'.loops x).stage.rank < w.world.rank + (w.loops x).stage.rank := by
  have hi := clusterInv_of_reachable hw
  have hchanged : (w.processes (layout.process x)).channel.changed (w.loops x).seen =
      some (.ok (w.processes (layout.process x)).channel.version) := by
    apply Watch.changed_of_lt
    rw [(hi.loops x).unseen hx]
    exact Nat.pos_of_ne_zero ((hi.processes _).signalled hvalue)
  cases hs : (w.loops x).stage with
  | atHead =>
    refine ⟨⟨w.world.clock, .loop x .borrow⟩, ?_⟩
    simp only [cluster, Cluster.step, Loop.step, hs, hvalue, if_true, Loop.stop]
    exact ⟨_, rfl, ⟨⟨rfl, rfl, rfl⟩, rfl⟩, by simp [Cluster.update, LoopStage.rank, World.rank]⟩
  | selecting executed =>
    refine ⟨⟨w.world.clock, .loop x .change⟩, ?_⟩
    simp only [cluster, Cluster.step, Loop.step, hs, hchanged, hvalue, or_true, if_true]
    cases executed <;>
    exact ⟨_, rfl, ⟨⟨rfl, rfl, rfl⟩, rfl⟩, by simp [Cluster.update, LoopStage.rank, World.rank]⟩
  | sleeping =>
    refine ⟨⟨w.world.clock, .loop x .change⟩, ?_⟩
    simp only [cluster, Cluster.step, Loop.step, hs, hchanged, hvalue, or_true, if_true, Loop.stop]
    exact ⟨_, rfl, ⟨⟨rfl, rfl, rfl⟩, rfl⟩, by simp [Cluster.update, LoopStage.rank, World.rank]⟩
  | processing batch =>
    have hfleet := cluster_refines_fleet hw
    have hphase : w.world.phase x = .processing batch := by rw [(hi.loops x).phase, hs]; rfl
    by_cases hended : w.world.allEnded batch = true
    · refine ⟨⟨w.world.clock, .loop x .join⟩, ?_⟩
      simp only [cluster, Cluster.step, Loop.step, hs, World.step, World.act, World.join, hphase,
        if_pos hended]
      exact ⟨_, rfl, ⟨⟨rfl, rfl, rfl⟩, rfl⟩, by simp [Cluster.update, LoopStage.rank, World.rank]⟩
    · -- some task of the batch is running, and it can go on
      obtain ⟨i, hmem, hno⟩ := not_all_ended hended
      obtain ⟨c, hc, rfl⟩ := ownBatches_of_reachable hfleet x batch hphase i hmem
      obtain ⟨event, u, horderly, hstep, hlt, -⟩ :=
        exists_world_step hfleet hc (hno c hc) w.world.clock
      refine ⟨⟨w.world.clock, .task i event⟩, { w with world := u }, ?_,
        ⟨⟨rfl, horderly, c, hc, rfl⟩, rfl⟩, ?_⟩
      · simp only [cluster, Cluster.step, hstep, Option.map_some]
      · simpa only [hs] using Nat.add_lt_add_right hlt _
  | leaving => simp [hs, LoopStage.hasReturned] at hx
  | stopped => simp [hs, LoopStage.hasReturned] at hx
  | aborted =>
    have h := (hi.loops x).aborted hs
    rw [hmain] at h
    cases h

theorem loop_can_return {k : ℕ} (hw : (cluster env layout).Reachable System.free w)
    (hx : layout.process x = k) (hvalue : (w.processes k).channel.value = true)
    (hmain : (w.processes k).main.isReturned = false) :
    ∃ v, (cluster env layout).Reaches (working layout k) w v ∧
      v.processes = w.processes ∧ (v.loops x).stage.hasReturned = true := by
  subst hx
  obtain ⟨v, hv, hP⟩ := hw.exists_goal (H := working layout (layout.process x))
    (P := fun v => v.processes = w.processes → (v.loops x).stage.hasReturned = true)
    (fun v => v.world.rank + (v.loops x).stage.rank) (fun _ _ _ _ => trivial) fun v hv hP => by
      obtain ⟨hsame, hno⟩ := Classical.not_imp.mp hP
      obtain ⟨e, v', hstep, hguard, hlt⟩ := exists_loop_step hv (by rw [hsame]; exact hvalue)
        (by rw [hsame]; exact hmain) (Bool.eq_false_iff.mpr hno)
      exact ⟨v', .single ⟨e, hstep, hguard⟩, hlt⟩
  have hsame := processes_of_working hv
  exact ⟨v, hv, hsame, hP hsame⟩

theorem main_step (env : Env) {k : ℕ}
    (h : (w.processes k).step (layout.workers k) w.loops event = some q)
    (he : event.isOrderly = true) : (cluster env layout).Reaches (orderly layout k) w
      { w with processes := Function.update w.processes k q } := by
  refine .single ⟨⟨w.world.clock, .main k event⟩, ?_, rfl, rfl, he⟩
  simp only [cluster, Cluster.step, h, Option.map_some]

/-- A process that waits for its workers can finish by its own steps: whatever they were doing,
each of them can return, so that no wait has to time out. By induction on the number of handles
that are left. -/
theorem shutdown_completes {k j : ℕ} {inTime : Bool}
    (hw : (cluster env layout).Reachable System.free w)
    (hmain : (w.processes k).main = .draining j inTime) :
    ∃ v, (cluster env layout).Reaches (orderly layout k) w v ∧
      (v.processes k).main = .returned inTime := by
  induction hn : (layout.workers k).length - j generalizing w j with
  | zero =>
    have hstep : (w.processes k).step (layout.workers k) w.loops .returns =
        some ⟨(w.processes k).channel.close, .returned inTime⟩ := by
      simp only [Process.step, hmain]
      rw [if_pos (by omega)]
    exact ⟨_, main_step env hstep rfl, by simp only [Function.update_self]⟩
  | succ n ih =>
    have hj : j < (layout.workers k).length := by omega
    have hsignal := ((clusterInv_of_reachable hw).processes k).draining j inTime hmain
    obtain ⟨u, hu, hsame, hreturned⟩ := loop_can_return hw
      (layout.process_eq k _ (List.getElem_mem hj)) hsignal (by rw [hmain]; rfl)
    have hrun : (cluster env layout).Reaches (orderly layout k) w u := hu.mono fun _ _ _ h => h.1
    have hstep : (u.processes k).step (layout.workers k) u.loops .joined =
        some { w.processes k with main := .draining (j + 1) inTime } := by
      simp only [Process.step, hsame, hmain, List.getElem?_eq_getElem hj, if_pos hreturned]
    have hjoin := main_step env hstep rfl
    have hreach := (hw.trans (hrun.mono fun _ _ _ _ => trivial)).trans
      (hjoin.mono fun _ _ _ _ => trivial)
    obtain ⟨v, hv, hdone⟩ := ih hreach (j := j + 1) (by simp only [Function.update_self]) (by omega)
    exact ⟨v, (hrun.trans hjoin).trans hv, hdone⟩

/-- Worker `a` is in the middle of an attempt when `main` begins to wait. -/
theorem shutdown_completes_attempting : ∃ w v,
    (cluster sampleEnv sampleLayout).Reachable System.free w ∧
    (w.processes 0).main = .draining 0 true ∧ claimCount "a" w.world = 1 ∧
    (cluster sampleEnv sampleLayout).Reaches (orderly sampleLayout 0) w v ∧
    (v.processes 0).main = .returned true := by
  obtain ⟨w, hw, hp⟩ := System.exists_reachable_of_run (cluster sampleEnv sampleLayout) System.free
    (signalled ++ (lastBatch 200).take 4 ++ [⟨seconds 1, .main 0 .served⟩]) (fun w =>
      (w.processes 0).main = .draining 0 true ∧ claimCount "a" w.world = 1) (by decide)
  rw [decide_eq_true_eq] at hp
  obtain ⟨v, hv, hdone⟩ := shutdown_completes hw hp.1
  exact ⟨w, v, hw, hp.1, hp.2, hv, hdone⟩

end ResendRouter.Service
