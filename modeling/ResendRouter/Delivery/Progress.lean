import ResendRouter.Delivery.Lease

/-! # Tasks come to an end

A running task always has a step of its own that brings it closer to its end,
without the loss of a reply and whatever the database holds; and the batch of a
worker holds its own claims.
-/

namespace ResendRouter.Delivery
open Foundation Program Database

variable {env : Env} {time : Time} {t t' : Tables} {c c' : Claim} {w w' : World} {i : ℕ}
  {workerId : String} {now : Time} {skip : List Uuid} {fate : Fate} {G : System.Guard World Event}

theorem step_stop (h : w.step env ⟨time, .stop workerId⟩ = some w') :
    w' = { w with clock := time, phase := Function.update w.phase workerId .stopped } := by
  cases h
  rfl

theorem step_idle (h : w.step env ⟨time, .idle⟩ = some w') : w' = { w with clock := time } := by
  cases h
  rfl

theorem phase_enqueue {q : Enqueue} (h : w.step env ⟨time, .enqueue q⟩ = some w') :
    w'.phase = w.phase := by
  cases h
  rfl

theorem phase_task {i : ℕ} {event : TaskEvent} (h : w.step env ⟨time, .task i event⟩ = some w') :
    w'.phase = w.phase := by
  obtain ⟨v', hv, rfl⟩ := Option.map_eq_some_iff.mp h
  simp only [World.act, World.task] at hv
  split at hv
  case h_2 => cases hv
  case h_1 =>
    obtain ⟨⟨t, c⟩, -, rfl⟩ := Option.map_eq_some_iff.mp hv
    rfl

theorem step_join (h : w.step env ⟨time, .join workerId⟩ = some w') :
    w' = { w with clock := time, phase := Function.update w.phase workerId .polling } := by
  obtain ⟨v', hv, rfl⟩ := Option.map_eq_some_iff.mp h
  simp only [World.act, World.join] at hv
  split at hv
  case h_2 => cases hv
  case h_1 =>
    split_ifs at hv
    cases hv
    rfl

/-- A claim call changes nothing, or appends what it returns; only its answer starts tasks. -/
theorem step_claim (h : w.step env ⟨time, .claim workerId now skip fate⟩ = some w') :
    w'.phase = w.phase ∧ w'.claims = w.claims ∨
      ∃ (jobs : List ClaimedJob) (task : Task) (phase : Phase),
        w'.claims = w.claims ++ jobs.map (newClaim workerId now task) ∧
        jobs.length ≤ (env.config workerId).deliveryClaimLimit.toNat ∧
        w'.phase = Function.update w.phase workerId phase ∧
        (task = .ended ∧ phase = .polling ∨ fate = .answered ∧ task = .spawned ∧
          phase = .processing (List.range' w.claims.length jobs.length)) := by
  obtain ⟨v', hv, rfl⟩ := Option.map_eq_some_iff.mp h
  simp only [World.act, World.claim] at hv
  split at hv
  case h_1 =>
    cases hv
    exact .inl ⟨rfl, rfl⟩
  case h_3 => cases hv
  case h_2 hp _ =>
    rcases hr : claimDueJobs w.tables workerId (env.config workerId).deliveryClaimLimit
      (env.config workerId).staleDeliveryLockSecs now skip with ⟨_ | jobs, t⟩
    · simp only [hr, Option.some.injEq] at hv
      subst hv
      exact .inl ⟨rfl, rfl⟩
    · simp only [hr, Option.some.injEq] at hv
      subst hv
      refine .inr ⟨jobs, _, _, rfl, length_claimed hr, rfl, ?_⟩
      split
      case isTrue hspawn => exact .inr ⟨hspawn.1, rfl, rfl⟩
      case isFalse => exact .inl ⟨rfl, rfl⟩

/-- The batch of a worker consists of its own claims. -/
def World.OwnBatches (w : World) : Prop :=
  ∀ x batch, w.phase x = .processing batch → ∀ i ∈ batch,
    ∃ c, w.claims[i]? = some c ∧ c.worker = x

theorem World.OwnBatches.update {y : String} {phase : Phase} (h : w.OwnBatches)
    (hphase : w'.phase = Function.update w.phase y phase)
    (hclaims : ∀ (i : ℕ) (c : Claim), w.claims[i]? = some c →
      ∃ c', w'.claims[i]? = some c' ∧ c'.worker = c.worker)
    (hnew : ∀ batch, phase = .processing batch → ∀ i ∈ batch,
      ∃ c, w'.claims[i]? = some c ∧ c.worker = y) : w'.OwnBatches := by
  intro x batch hx i hi
  rw [hphase] at hx
  by_cases hxy : x = y
  · subst hxy
    rw [Function.update_self] at hx
    exact hnew batch hx i hi
  · rw [Function.update_of_ne hxy] at hx
    obtain ⟨c, hc, rfl⟩ := h x batch hx i hi
    exact hclaims i c hc

theorem World.OwnBatches.step {e : Event} (h : w.OwnBatches) (hw : w.step env e = some w') :
    w'.OwnBatches := by
  rcases e with ⟨time, action⟩
  cases action with
  | enqueue q =>
    cases hw
    exact h
  | idle =>
    cases hw
    exact h
  | stop y =>
    rw [step_stop hw]
    exact h.update rfl (fun i c hc => ⟨c, hc, rfl⟩) nofun
  | join y =>
    rw [step_join hw]
    exact h.update rfl (fun i c hc => ⟨c, hc, rfl⟩) nofun
  | claim y now skip fate =>
    rcases step_claim hw with ⟨hphase, hclaims⟩ | ⟨jobs, task, phase, hclaims, -, hphase, htask⟩
    · rwa [OwnBatches, hphase, hclaims]
    · refine h.update hphase (fun i c hc => ?_) ?_
      · exact ⟨c, by rw [hclaims]; exact getElem?_append_old hc, rfl⟩
      · rintro batch hbatch i hi
        rcases htask with ⟨-, rfl⟩ | ⟨-, -, rfl⟩
        · cases hbatch
        · cases hbatch
          obtain ⟨n, hn, rfl⟩ := List.mem_range'.mp hi
          refine ⟨newClaim y now task jobs[n], ?_, rfl⟩
          rw [hclaims]
          refine getElem?_append_some.mpr (.inr ⟨n, by omega, ?_⟩)
          rw [List.getElem?_map, List.getElem?_eq_getElem hn, Option.map_some]
  | task i event =>
    intro x batch hx k hk
    rw [phase_task hw] at hx
    obtain ⟨d, hd, rfl⟩ := h x batch hx k hk
    cases World.step_moves hw with
    | phased => exact ⟨d, hd, rfl⟩
    | @moved time i event c t c' hc hm =>
      by_cases hki : k = i
      · subst hki
        refine ⟨c', (getElem?_set_some hc).mpr (.inl ⟨rfl, rfl⟩), ?_⟩
        obtain rfl := eq_of_getElem? hd hc
        exact hm.claim_same.worker
      · exact ⟨d, (getElem?_set_some hc).mpr (.inr ⟨hki, hd⟩), rfl⟩

theorem ownBatches_of_reachable (h : (fleet env).Reachable G w) : w.OwnBatches := by
  apply h.invariant
  · nofun
  · intro w e w' _ hi hstep _
    exact hi.step hstep

/-- A step of the task itself, and a reply that arrives. -/
def TaskEvent.isOrderly : TaskEvent → Bool
  | .refresh .answered => true
  | .refresh _ => false
  | .record .answered => true
  | .record _ => false
  | .die => false
  | _ => true

def Claim.rank (c : Claim) : ℕ :=
  match c.task with
  | .spawned => 8
  | .resolving => 7
  | .ready _ => 6
  | .posting => if c.post.any (·.finished.isSome) then 4 else 5
  | .responded _ _ => 3
  | .calling _ => 2
  | .recording _ _ => 1
  | .ended => 0

/-- Whoever awaits a response has sent the request. -/
def Claim.Posted (c : Claim) : Prop := c.task = .posting → c.post.isSome = true

theorem posted_of_reachable (h : (fleet env).Reachable G w) : ∀ c ∈ w.claims, c.Posted := by
  apply h.invariant
  · simp [fleet, World.initial]
  · intro w e w' _ hi hstep _
    cases World.step_moves hstep with
    | phased => exact hi
    | enqueued => exact hi
    | @claimed time workerId now skip fate jobs t phase task hp hr h hphase =>
      intro c hc
      rcases List.mem_append.mp hc with hc | hc
      · exact hi c hc
      · obtain ⟨job, -, rfl⟩ := List.mem_map.mp hc
        rcases hphase with rfl | ⟨rfl, -⟩ <;> rintro ⟨⟩
    | moved hc hm =>
      intro d hd
      rcases List.mem_or_eq_of_mem_set hd with hd | rfl
      · exact hi d hd
      · have hold := hi _ (List.mem_of_getElem? hc)
        cases hm with
        | sent => exact fun _ => rfl
        | finished => exact fun _ => rfl
        | refreshed h url hu held hr ht => rcases ht with rfl | rfl <;> rintro ⟨⟩
        | _ => rintro ⟨⟩

section
variable (hmacSha256 : Bytes → Bytes → Bytes) (config : Config) (time : Time) (t : Tables)

theorem taskStep_refresh (hc : c.task = .resolving) :
    ∃ t' c', taskStep hmacSha256 config time t c (.refresh .answered) = some (t', c') ∧
      (c'.task = .ended ∨ ∃ url, c'.task = .ready url) := by
  simp only [taskStep, hc]
  split
  case isTrue =>
    refine ⟨_, _, rfl, ?_⟩
    simp only
    split
    case isTrue => exact .inr ⟨_, rfl⟩
    case isFalse => exact .inl rfl
  case isFalse => exact ⟨_, _, rfl, .inr ⟨_, rfl⟩⟩

theorem taskStep_failed_ends (response : Response) (d : ℤ) (seed : ℕ) :
    ∃ t' c', taskStep.failed time t c response d seed = some (t', c') ∧
      (c'.task = .ended ∨ ∃ call, c'.task = .calling call) := by
  simp only [taskStep.failed]
  split
  case h_1 call _ => exact ⟨_, _, rfl, .inr ⟨call, rfl⟩⟩
  case h_2 => exact ⟨_, _, rfl, .inl rfl⟩

theorem taskStep_decide {response : Response} {d : ℤ} (hc : c.task = .responded response d)
    (seed : ℕ) : ∃ t' c', taskStep hmacSha256 config time t c (.decide seed) = some (t', c') ∧
      (c'.task = .ended ∨ ∃ call, c'.task = .calling call) := by
  simp only [taskStep, hc]
  split
  case h_1 status =>
    split
    case isTrue => exact ⟨_, _, rfl, .inr ⟨_, rfl⟩⟩
    case isFalse => exact taskStep_failed_ends ..
  case h_2 => exact taskStep_failed_ends ..

/-- A running task has a step that brings it closer to its end. -/
theorem exists_task_step (hpost : c.Posted) (hlive : c.task.isEnded = false) :
    ∃ event t' c', event.isOrderly = true ∧
      taskStep hmacSha256 config time t c event = some (t', c') ∧ c'.rank < c.rank := by
  cases hc : c.task with
  | spawned =>
    refine ⟨.checkDeadline, t, ?_⟩
    simp only [taskStep, hc]
    split
    case isTrue => exact ⟨_, rfl, rfl, by simp [Claim.rank, hc]⟩
    case isFalse => exact ⟨_, rfl, rfl, by simp [Claim.rank, hc]⟩
  | resolving =>
    obtain ⟨t', c', hs, hc'⟩ := taskStep_refresh hmacSha256 config time t hc
    refine ⟨.refresh .answered, t', c', rfl, hs, ?_⟩
    rcases hc' with hc' | ⟨url, hc'⟩ <;> simp [Claim.rank, hc, hc']
  | ready url =>
    refine ⟨.send, t, ?_⟩
    simp only [taskStep, hc]
    exact ⟨_, rfl, rfl, by simp [Claim.rank, hc]⟩
  | posting =>
    obtain ⟨⟨request, startedAt, finished⟩, hp⟩ := Option.isSome_iff_exists.mp (hpost hc)
    cases finished with
    | none =>
      refine ⟨.finish (.ok 200), t, ?_⟩
      simp only [taskStep, hp]
      exact ⟨_, rfl, rfl, by simp [Claim.rank, hc, hp]⟩
    | some r =>
      refine ⟨.receive 0, t, ?_⟩
      simp only [taskStep, hc, hp]
      exact ⟨_, rfl, rfl, by simp [Claim.rank, hc, hp]⟩
  | responded response d =>
    obtain ⟨t', c', hs, hc'⟩ := taskStep_decide hmacSha256 config time t hc 0
    refine ⟨.decide 0, t', c', rfl, hs, ?_⟩
    rcases hc' with hc' | ⟨call, hc'⟩ <;> simp [Claim.rank, hc, hc']
  | calling call =>
    refine ⟨.readClock, t, ?_⟩
    simp only [taskStep, hc]
    exact ⟨_, rfl, rfl, by simp [Claim.rank, hc]⟩
  | recording call now =>
    refine ⟨.record .answered, ?_⟩
    simp only [taskStep, hc]
    exact ⟨_, _, rfl, rfl, by simp [Claim.rank, hc]⟩
  | ended =>
    rw [hc] at hlive
    cases hlive

end

theorem not_all_ended {batch : List ℕ} (h : ¬ w.allEnded batch = true) :
    ∃ i ∈ batch, ∀ c, w.claims[i]? = some c → c.task.isEnded = false := by
  rw [World.allEnded, List.all_eq_true] at h
  simp only [not_forall] at h
  obtain ⟨i, hi, hno⟩ := h
  refine ⟨i, hi, fun c hc => ?_⟩
  rwa [hc, Option.all_some, Bool.not_eq_true] at hno

def World.rank (w : World) : ℕ := (w.claims.map Claim.rank).sum

theorem exists_world_step (h : (fleet env).Reachable G w) (hc : w.claims[i]? = some c)
    (hlive : c.task.isEnded = false) (time : Time) :
    ∃ event w', event.isOrderly = true ∧ w.step env ⟨time, .task i event⟩ = some w' ∧
      w'.rank < w.rank ∧ w'.phase = w.phase := by
  obtain ⟨event, t, c', horderly, hs, hlt⟩ := exists_task_step env.hmacSha256
    (env.config c.worker) time w.tables (posted_of_reachable h c (List.mem_of_getElem? hc)) hlive
  refine ⟨event, { w with tables := t, clock := time, claims := w.claims.set i c' }, horderly,
    ?_, sum_map_set_lt Claim.rank hc hlt, rfl⟩
  simp only [World.step, World.act, World.task, hc, hs, Option.map_some]

end ResendRouter.Delivery
