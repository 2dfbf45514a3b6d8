import ResendRouter.Delivery.Fleet
import ResendRouter.Foundation.Positions

/-! # The lease of a job

The lock token of a job is the id of a worker, and a worker uses it for every
one of its claims. It fences all the same, because a worker claims again only
after its tasks have ended: whoever finds the token in the row is the latest
claim of the job, and has recorded nothing yet.
-/

namespace ResendRouter.Delivery
open Foundation Program Database

variable {env : Env} {time : Time} {t t' : Tables} {c c' d : Claim} {w w' : World} {e : Event}
  {i k : ℕ} {j : DeliveryJob}

def World.store (w : World) : Store := ⟨w.tables, w.claims.map (·.job)⟩

/-- A task never changes whose claim it works for. -/
structure Claim.Same (c c' : Claim) : Prop where
  worker : c'.worker = c.worker
  job : c'.job = c.job
  lockedAt : c'.lockedAt = c.lockedAt
  live : c'.task.isEnded = false → c.task.isEnded = false

theorem TaskMove.claim_same (h : TaskMove env time t c t' c') : c.Same c' := by
  cases h <;> constructor <;> first | rfl | simp_all [Task.isEnded]

/-- Every event of the fleet is one call on the database, or none. -/
theorem World.Moves.ledger_step (h : w.Moves env e w') :
    ∃ a, ledger.step w.store a = some w'.store ∧
      ∀ q, a = .enqueueEvent q → e.action = .enqueue q := by
  cases h with
  | phased => exact ⟨.aborted, rfl, by simp⟩
  | @enqueued time q e deadlineAt js t ht h =>
    refine ⟨.enqueueEvent q, ?_, by simp⟩
    simp only [ledger, Store.step, World.store, ht]
  | @claimed time workerId now skip fate jobs t phase task hp hr h hphase =>
    refine ⟨.claimDueJobs workerId (env.config workerId).deliveryClaimLimit
      (env.config workerId).staleDeliveryLockSecs now skip, ?_, by simp⟩
    have hjobs : (jobs.map (newClaim workerId now task)).map (·.job) = jobs := by
      rw [List.map_map]
      exact List.map_id' _
    simp only [ledger, Store.step, World.store, hr, List.map_append, hjobs]
  | @moved time i event c t c' hc h =>
    have hclaims : (w.claims.set i c').map (·.job) = w.claims.map (·.job) :=
      map_set_of_eq _ hc h.claim_same.job
    have hjob : (w.claims.map (·.job))[i]? = some c.job := by
      rw [List.getElem?_map, hc, Option.map_some]
    cases h with
    | refreshed h url hu held hr ht =>
      refine ⟨.updateClaimedJobDestinationUrl i url, ?_, by simp⟩
      simp only [ledger, Store.step, World.store, hjob, Option.map_some, hu, hclaims]
    | @recorded call now t' a h hu hr =>
      refine ⟨.record i call now, ?_, by simp⟩
      simp only [ledger, Store.step, World.store, hjob, Option.map_some, hu, hclaims]
    | _ => exact ⟨.aborted, by simp only [ledger, Store.step, World.store, hclaims], by simp⟩

/-- The fleet refines the ledger, and what a guard says about the enqueued events carries over. -/
theorem fleet_refines_ledger {G : System.Guard World Event} {K : System.Guard Store DbAction}
    (hGK : ∀ w e w' a, G w e w' → (∀ q, a = .enqueueEvent q → e.action = .enqueue q) →
      K w.store a w'.store)
    (h : (fleet env).Reachable G w) : ledger.Reachable K w.store := by
  apply h.simulate World.store rfl
  intro s e s' _ hs hg
  rcases (World.step_moves hs).ledger_step with ⟨a, ha, hq⟩
  exact .single ⟨a, ha, hGK s e s' a hg hq⟩

/-- The claim at position `i` is the most recent one of its job. -/
structure World.Latest (w : World) (i : ℕ) (c : Claim) : Prop where
  present : w.claims[i]? = some c
  newest : ∀ (k : ℕ) (d : Claim), w.claims[k]? = some d → d.job.id = c.job.id → k ≤ i

/-- A job has one latest claim. -/
theorem World.Latest.eq (h : w.Latest i c) (h' : w.Latest k d) (hid : d.job.id = c.job.id) :
    k = i ∧ d = c := by
  have hk : k = i := le_antisymm (h.newest k d h'.present hid) (h'.newest i c h.present hid.symm)
  subst hk
  exact ⟨rfl, eq_of_getElem? h.present h'.present⟩

/-- What the latest claim of a job says about its row. -/
inductive Claim.Explains (c : Claim) (j : DeliveryJob) : Prop where
  | holding (outcomes : c.outcomes = []) (status : j.status = .delivering)
      (lockedBy : j.lockedBy = some c.worker) (lockedAt : j.lockedAt = some c.lockedAt)
      (count : j.attemptCount = c.job.attemptCount)
  | resolved {o} (outcomes : c.outcomes = [o]) (status : j.status = o.call.outcome.status)
      (lockedBy : j.lockedBy = none) (lockedAt : j.lockedAt = none)
      (count : j.attemptCount = c.attempt)
      (closed : j.status.isTerminal = true → j.completedAt = some o.recordedAt)

def Claim.Retried (c : Claim) : Prop := ∃ o, c.outcomes = [o] ∧ o.call.outcome.status = .retrying

structure LeaseInv (env : Env) (w : World) : Prop where
  token : ∀ c ∈ w.claims, c.job.lockedBy = c.worker
  /-- A worker with a running task is not polling. -/
  busy : ∀ (i : ℕ) (c : Claim), w.claims[i]? = some c → c.task.isEnded = false →
    (∃ batch, w.phase c.worker = .processing batch ∧ i ∈ batch) ∨ w.phase c.worker = .stopped
  /-- While a task runs, its worker does not claim the job again. -/
  newest : ∀ (i : ℕ) (c : Claim) (k : ℕ) (d : Claim), w.claims[i]? = some c →
    c.task.isEnded = false → w.claims[k]? = some d → d.worker = c.worker →
    d.job.id = c.job.id → k ≤ i
  running : ∀ c ∈ w.claims, c.task.isEnded = false → c.outcomes = []
  single : ∀ c ∈ w.claims, c.outcomes.length ≤ 1
  jobs : ∀ j ∈ w.tables.deliveryJobs,
    (j.status = .queued ∧ ∀ c ∈ w.claims, c.job.id ≠ j.id) ∨
      ∃ i c, w.Latest i c ∧ c.job.id = j.id ∧ c.Explains j
  /-- A superseded claim recorded a retry, or nothing. -/
  past : ∀ (i : ℕ) (c : Claim) (k : ℕ) (d : Claim), w.claims[i]? = some c →
    w.claims[k]? = some d → i < k → d.job.id = c.job.id → c.outcomes = [] ∨ c.Retried
  /-- A claim is superseded after a retry, or when its lock is stale. -/
  spaced : ∀ (i : ℕ) (c : Claim) (k : ℕ) (d : Claim), w.claims[i]? = some c →
    w.claims[k]? = some d → i < k → d.job.id = c.job.id →
    (∀ (m : ℕ) (b : Claim), i < m → m < k → w.claims[m]? = some b → b.job.id ≠ c.job.id) →
    c.Retried ∨ c.lockedAt + seconds (env.config d.worker).staleDeliveryLockSecs < d.lockedAt

theorem ledgerInv_of_fleet {G : System.Guard World Event} (h : (fleet env).Reachable G w) :
    LedgerInv w.store :=
  ledgerInv_of_reachable (fleet_refines_ledger (fun _ _ _ _ _ _ => trivial) h)

/-- The fence: a running task that finds its token in the row of its job belongs to the latest
claim of the job, and that claim has recorded nothing. -/
theorem LeaseInv.fence (hi : LeaseInv env w) (hc : w.claims[i]? = some c)
    (hlive : c.task.isEnded = false) (hj : j ∈ w.tables.deliveryJobs)
    (hl : lockedRow c.job j = true) : w.Latest i c ∧ c.outcomes = [] := by
  obtain ⟨hid, hby, hstatus⟩ := lockedRow_iff.mp hl
  rw [hi.token c (List.mem_of_getElem? hc)] at hby
  refine ⟨?_, hi.running c (List.mem_of_getElem? hc) hlive⟩
  rcases hi.jobs j hj with ⟨hq, -⟩ | ⟨k, d, hd, hdid, hex⟩
  · rw [hstatus] at hq
    cases hq
  · cases hex with
    | resolved _ _ hnone =>
      rw [hby] at hnone
      cases hnone
    | holding _ _ hby' =>
      have hw : d.worker = c.worker := by
        rw [hby, Option.some.injEq] at hby'
        exact hby'.symm
      have hjob : d.job.id = c.job.id := hdid.trans hid
      have hki : k ≤ i := hi.newest i c k d hc hlive hd.present hw hjob
      exact ⟨hc, fun m b hb hbid => (hd.newest m b hb (hbid.trans hjob.symm)).trans hki⟩

theorem Claim.Explains.congr (h : c.Explains j) (hs : c.Same d) (ho : d.outcomes = c.outcomes) :
    d.Explains j := by
  cases h with
  | holding h1 h2 h3 h4 h5 =>
    exact .holding (ho.trans h1) h2 (hs.worker ▸ h3) (hs.lockedAt ▸ h4) (hs.job ▸ h5)
  | resolved h1 h2 h3 h4 h5 h6 =>
    refine .resolved (ho.trans h1) h2 h3 h4 ?_ h6
    rw [h5, Claim.attempt, Claim.attempt, hs.job]

theorem Claim.Explains.url (h : c.Explains j) (url : String) : c.Explains (urlRow url j) := by
  cases h with
  | holding h1 h2 h3 h4 h5 => exact .holding h1 h2 h3 h4 h5
  | resolved h1 h2 h3 h4 h5 h6 => exact .resolved h1 h2 h3 h4 h5 h6

/-- A row that a claim condition matches was retried, or its lock is stale. -/
theorem Claim.Explains.due {now : Time} {stale : ℤ} (h : c.Explains j)
    (hdue : isDue now stale j = true) :
    c.Retried ∨ c.outcomes = [] ∧ c.lockedAt + seconds stale < now := by
  cases h with
  | holding h1 h2 h3 h4 h5 =>
    refine .inr ⟨h1, ?_⟩
    simp only [isDue, h2, h4, Option.any_some, reduceCtorEq, decide_false, Bool.false_or,
      Bool.or_false, Bool.false_and, decide_true, Bool.true_and, decide_eq_true_eq] at hdue
    exact lt_sub_iff_add_lt.mp hdue
  | @resolved o h1 h2 h3 h4 h5 h6 =>
    refine .inl ⟨o, h1, ?_⟩
    have hl := o.call.outcome_legal
    cases hs : o.call.outcome.status with
    | retrying => rfl
    | queued => exact absurd hs hl.released.2
    | delivering => exact absurd hs hl.released.1
    | _ => simp [isDue, h2, hs] at hdue

theorem LeaseInv.phased {phase : String → Phase} (hi : LeaseInv env w)
    (h : ∀ x, phase x = w.phase x ∨ phase x = .stopped ∨
      ∃ batch, w.phase x = .processing batch ∧ w.allEnded batch = true) :
    LeaseInv env { w with clock := time, phase := phase } := by
  refine ⟨hi.token, fun i c hc hlive => ?_, hi.newest, hi.running, hi.single, ?_, hi.past,
    hi.spaced⟩
  · rcases h c.worker with hp | hp | ⟨batch, hp, hended⟩
    · change (∃ batch, phase c.worker = _ ∧ _) ∨ phase c.worker = _
      rw [hp]
      exact hi.busy i c hc hlive
    · exact .inr hp
    · rcases hi.busy i c hc hlive with ⟨batch', hp', hmem⟩ | hp'
      · -- the batch has ended, so the task is not running
        rw [hp, Phase.processing.injEq] at hp'
        subst hp'
        have he := List.all_eq_true.mp hended i hmem
        simp [hc, hlive] at he
      · rw [hp] at hp'
        cases hp'
  · intro j hj
    rcases hi.jobs j hj with hq | ⟨i, c, hc, hid, hex⟩
    · exact .inl hq
    · exact .inr ⟨i, c, ⟨hc.present, hc.newest⟩, hid, hex⟩

theorem LeaseInv.enqueued {q : Enqueue} {r : WebhookEvent} {deadlineAt : Time}
    {js : List DeliveryJob} {ingested : List Enqueue} (hi : LeaseInv env w)
    (hl : LedgerInv w.store) (h : Enqueued q w.tables t r deadlineAt js) :
    LeaseInv env { w with tables := t, clock := time, ingested := ingested } := by
  refine ⟨hi.token, hi.busy, hi.newest, hi.running, hi.single, fun j hj => ?_, hi.past, hi.spaced⟩
  rcases h.mem_jobs.mp hj with hj | hj
  · rcases hi.jobs j hj with hq | ⟨i, c, hc, hid, hex⟩
    · exact .inl hq
    · exact .inr ⟨i, c, ⟨hc.present, hc.newest⟩, hid, hex⟩
  · obtain ⟨d, -, hf⟩ := h.queued j hj
    refine .inl ⟨hf.status, fun c hc hid => ?_⟩
    -- a claimed job is in the table, and a new job is not
    obtain ⟨k, hk, hs⟩ := hl.snapshots c.job (List.mem_map_of_mem hc)
    exact h.id_ne hk hj (hs.id.trans hid)

section Claimed
variable {workerId : String} {now : Time} {jobs : List ClaimedJob} {task : Task}

theorem claims_cases (h : (w.claims ++ jobs.map (newClaim workerId now task))[k]? = some d) :
    w.claims[k]? = some d ∨ ∃ n job, k = w.claims.length + n ∧ jobs[n]? = some job ∧
      d = newClaim workerId now task job := by
  rcases getElem?_append_some.mp h with h | ⟨n, hk, h⟩
  · exact .inl h
  · rw [List.getElem?_map, Option.map_eq_some_iff] at h
    rcases h with ⟨job, hjob, hd⟩
    exact .inr ⟨n, job, hk, hjob, hd.symm⟩

theorem claims_new {n : ℕ} {job : ClaimedJob} (h : jobs[n]? = some job) :
    (w.claims ++ jobs.map (newClaim workerId now task))[w.claims.length + n]? =
      some (newClaim workerId now task job) :=
  getElem?_append_some.mpr (.inr ⟨n, rfl, by rw [List.getElem?_map, h, Option.map_some]⟩)

/-- No task of a polling worker is running. -/
theorem LeaseInv.idle (hi : LeaseInv env w) (hp : w.phase workerId = .polling)
    (hc : w.claims[i]? = some c) (hlive : c.task.isEnded = false) : c.worker ≠ workerId := by
  rintro rfl
  rcases hi.busy i c hc hlive with ⟨batch, hb, -⟩ | hb <;>
  · rw [hp] at hb
    cases hb

/-- The claims that a claim call supersedes were retried, or their locks are stale. -/
theorem LeaseInv.superseded {stale : ℤ} (hi : LeaseInv env w)
    (h : Claimed w.tables t jobs workerId stale now) (hc : w.Latest i c) {job : ClaimedJob}
    (hjob : job ∈ jobs) (hid : job.id = c.job.id) :
    c.Retried ∨ c.outcomes = [] ∧ c.lockedAt + seconds stale < now := by
  obtain ⟨j, hj, hdue, e, -, -, rfl⟩ := h.due job hjob
  rcases hi.jobs j hj with ⟨-, hno⟩ | ⟨k, d, hd, hdid, hex⟩
  · exact absurd hid.symm (hno c (List.mem_of_getElem? hc.present))
  · obtain ⟨-, rfl⟩ := hc.eq hd (hdid.trans hid)
    exact hex.due hdue

theorem LeaseInv.claimed {phase : Phase} (hi : LeaseInv env w)
    (hp : w.phase workerId = .polling)
    (h : Claimed w.tables t jobs workerId (env.config workerId).staleDeliveryLockSecs now)
    (hphase : task = .ended ∨
      task = .spawned ∧ phase = .processing (List.range' w.claims.length jobs.length)) :
    LeaseInv env ⟨t, time, Function.update w.phase workerId phase,
      w.claims ++ jobs.map (newClaim workerId now task), w.ingested⟩ := by
  have hlatest : ∀ (i : ℕ) (c : Claim) (n : ℕ) (job : ClaimedJob), w.claims[i]? = some c →
      jobs[n]? = some job → job.id = c.job.id →
      (∀ (m : ℕ) (b : Claim), i < m → w.claims[m]? = some b → b.job.id ≠ c.job.id) →
      c.Retried ∨ c.outcomes = [] ∧
        c.lockedAt + seconds (env.config workerId).staleDeliveryLockSecs < now := by
    intro i c n job hc hjob hid hafter
    refine hi.superseded h ⟨hc, fun m b hb hbid => ?_⟩ (List.mem_of_getElem? hjob) hid
    by_contra him
    exact hafter m b (by omega) hb hbid
  have hnew : ∀ c ∈ jobs.map (newClaim workerId now task), c.job.lockedBy = c.worker ∧
      c.outcomes = [] := by
    intro c hc
    obtain ⟨job, hjob, rfl⟩ := List.mem_map.mp hc
    obtain ⟨j, -, -, e, -, -, rfl⟩ := h.due job hjob
    exact ⟨rfl, rfl⟩
  -- a returned job occurs once
  have honce : ∀ {n m : ℕ} {a b : ClaimedJob}, jobs[n]? = some a → jobs[m]? = some b →
      b.id = a.id → n = m :=
    fun ha hb hid => position_eq_of_nodup h.nodup ha hb hid.symm
  constructor
  case token =>
    intro c hc
    rcases List.mem_append.mp hc with hc | hc
    · exact hi.token c hc
    · exact (hnew c hc).1
  case running =>
    intro c hc hlive
    rcases List.mem_append.mp hc with hc | hc
    · exact hi.running c hc hlive
    · exact (hnew c hc).2
  case single =>
    intro c hc
    rcases List.mem_append.mp hc with hc | hc
    · exact hi.single c hc
    · rw [(hnew c hc).2]
      exact Nat.zero_le 1
  case busy =>
    intro i c hc hlive
    rcases claims_cases hc with hc | ⟨n, job, rfl, hjob, rfl⟩
    · simpa only [Function.update_of_ne (hi.idle hp hc hlive)] using hi.busy i c hc hlive
    · rcases hphase with rfl | ⟨rfl, rfl⟩
      · cases hlive
      · refine .inl ⟨_, Function.update_self _ _ _, List.mem_range'_1.mpr ?_⟩
        have := lt_length_of_getElem? hjob
        omega
  case newest =>
    intro i c k d hc hlive hd hw hid
    rcases claims_cases hd with hd | ⟨m, job', rfl, hjob', rfl⟩
    · rcases claims_cases hc with hc | ⟨n, job, rfl, hjob, rfl⟩
      · exact hi.newest i c k d hc hlive hd hw hid
      · have := lt_length_of_getElem? hd
        omega
    · rcases claims_cases hc with hc | ⟨n, job, rfl, hjob, rfl⟩
      · exact absurd hw.symm (hi.idle hp hc hlive)
      · rw [honce hjob hjob' hid]
  case jobs =>
    intro r hr
    obtain ⟨j, hj, ⟨⟨job, hjob, hid⟩, rfl⟩ | ⟨hno, rfl⟩⟩ := (h.rows r).mp hr
    · obtain ⟨n, hn⟩ := List.mem_iff_getElem?.mp hjob
      refine .inr ⟨_, _, ⟨claims_new hn, fun k d hd hdid => ?_⟩, hid, ?_⟩
      · rcases claims_cases hd with hd | ⟨m, job', rfl, hjob', rfl⟩
        · have := lt_length_of_getElem? hd
          omega
        · rw [honce hn hjob' hdid]
      · obtain ⟨j', hj', -, e, -, -, rfl⟩ := h.due job hjob
        rw [← Table.eq_of_key_eq hj' hj hid]
        exact .holding rfl rfl rfl rfl rfl
    · rcases hi.jobs r hj with ⟨hq, hnone⟩ | ⟨i, c, hc, hid, hex⟩
      · refine .inl ⟨hq, fun c hc hid => ?_⟩
        rcases List.mem_append.mp hc with hc | hc
        · exact hnone c hc hid
        · obtain ⟨job, hjob, rfl⟩ := List.mem_map.mp hc
          exact hno job hjob hid
      · refine .inr ⟨i, c, ⟨getElem?_append_old hc.present, fun k d hd hdid => ?_⟩, hid, hex⟩
        rcases claims_cases hd with hd | ⟨m, job', rfl, hjob', rfl⟩
        · exact hc.newest k d hd hdid
        · exact absurd (hdid.trans hid) (hno job' (List.mem_of_getElem? hjob'))
  case past =>
    intro i c k d hc hd hik hid
    rcases claims_cases hc with hc | ⟨n, job, rfl, hjob, rfl⟩
    · rcases claims_cases hd with hd | ⟨m, job', rfl, hjob', rfl⟩
      · exact hi.past i c k d hc hd hik hid
      · by_cases hlater : ∃ (m : ℕ) (b : Claim), i < m ∧ w.claims[m]? = some b ∧ b.job.id = c.job.id
        · rcases hlater with ⟨m, b, him, hb, hbid⟩
          exact hi.past i c m b hc hb him hbid
        · refine (hlatest i c m job' hc hjob' hid fun n b hin hb hbid => ?_).symm.imp_left And.left
          exact hlater ⟨n, b, hin, hb, hbid⟩
    · exact .inl rfl
  case spaced =>
    intro i c k d hc hd hik hid hbetween
    rcases claims_cases hc with hc | ⟨n, job, rfl, hjob, rfl⟩
    · rcases claims_cases hd with hd | ⟨m, job', rfl, hjob', rfl⟩
      · exact hi.spaced i c k d hc hd hik hid
          fun m b him hmk hb => hbetween m b him hmk (getElem?_append_old hb)
      · refine (hlatest i c m job' hc hjob' hid fun n b hin hb => ?_).imp_right And.right
        have := lt_length_of_getElem? hb
        exact hbetween n b hin (by omega) (getElem?_append_old hb)
    · rcases claims_cases hd with hd | ⟨m, job', rfl, hjob', rfl⟩
      · have := lt_length_of_getElem? hd
        omega
      · have := honce hjob hjob' hid
        omega

end Claimed

section Moved

/-- What a step of a task does to the tables and to the outcomes of its claim. -/
inductive TaskEffect (t : Tables) (c : Claim) (t' : Tables) (c' : Claim) : Prop where
  | quiet (ht : t' = t) (ho : c'.outcomes = c.outcomes)
  | refreshed {url} (hlive : c.task.isEnded = false)
      (held : ∃ j ∈ t.deliveryJobs, lockedRow c.job j = true) (hr : Refreshed t t' c.job url)
      (ho : c'.outcomes = c.outcomes)
  | recorded {call now a} (hlive : c.task.isEnded = false)
      (hr : Recorded (RecordCall.outcome call) t t' c.job call.durationMs now a)
      (ho : c'.outcomes = c.outcomes ++ [⟨call, now⟩]) (ended : c'.task = .ended)

theorem TaskMove.effect (h : TaskMove env time t c t' c') : TaskEffect t c t' c' := by
  cases h with
  | refreshed h url hu held hr ht => exact .refreshed (by rw [h]; rfl) held hr rfl
  | recorded h hu hr => exact .recorded (by rw [h]; rfl) hr rfl rfl
  | _ => exact .quiet rfl rfl

theorem Claim.Same.refl (c : Claim) : c.Same c := ⟨rfl, rfl, rfl, id⟩

theorem moved_cases (hc : w.claims[i]? = some c) (hs : c.Same c')
    (h : (w.claims.set i c')[k]? = some d) :
    ∃ b, w.claims[k]? = some b ∧ b.Same d ∧ (k = i ∧ b = c ∧ d = c' ∨ k ≠ i ∧ d = b) := by
  rcases (getElem?_set_some hc).mp h with ⟨rfl, rfl⟩ | ⟨hk, h⟩
  · exact ⟨c, hc, hs, .inl ⟨rfl, rfl, rfl⟩⟩
  · exact ⟨d, h, .refl d, .inr ⟨hk, rfl⟩⟩

theorem World.Latest.moved (h : w.Latest k d) (hc : w.claims[i]? = some c) (hs : c.Same c')
    {v : World} (hv : v.claims = w.claims.set i c') : ∃ b, v.Latest k b ∧ d.Same b ∧
      (k = i ∧ d = c ∧ b = c' ∨ k ≠ i ∧ b = d) := by
  have hback : ∀ m a, v.claims[m]? = some a → a.job.id = d.job.id → m ≤ k := by
    intro m a ha hid
    rw [hv] at ha
    obtain ⟨b, hb, hsame, -⟩ := moved_cases hc hs ha
    exact h.newest m b hb (by rw [← hsame.job, hid])
  by_cases hk : k = i
  · subst hk
    obtain rfl : d = c := eq_of_getElem? hc h.present
    refine ⟨c', ⟨?_, fun m a ha hid => hback m a ha (by rw [hid, hs.job])⟩, hs,
      .inl ⟨rfl, rfl, rfl⟩⟩
    rw [hv]
    exact (getElem?_set_some hc).mpr (.inl ⟨rfl, rfl⟩)
  · refine ⟨d, ⟨?_, hback⟩, .refl d, .inr ⟨hk, rfl⟩⟩
    rw [hv]
    exact (getElem?_set_some hc).mpr (.inr ⟨hk, h.present⟩)

theorem LeaseInv.jobs_moved (hi : LeaseInv env w) (hc : w.claims[i]? = some c)
    (hs : c.Same c') (he : TaskEffect w.tables c t c') {v : World}
    (hv : v.claims = w.claims.set i c') (hr : j ∈ t.deliveryJobs) :
    (j.status = .queued ∧ ∀ c ∈ v.claims, c.job.id ≠ j.id) ∨
      ∃ i c, v.Latest i c ∧ c.job.id = j.id ∧ c.Explains j := by
  have hunclaimed : (∀ b ∈ w.claims, b.job.id ≠ j.id) → ∀ b ∈ v.claims, b.job.id ≠ j.id := by
    intro hno b hb
    rw [hv] at hb
    obtain ⟨k, hk⟩ := List.mem_iff_getElem?.mp hb
    obtain ⟨a, ha, hsame, -⟩ := moved_cases hc hs hk
    rw [hsame.job]
    exact hno a (List.mem_of_getElem? ha)
  have hkept : c'.outcomes = c.outcomes → ∀ k d, w.Latest k d → d.job.id = j.id →
      (d.Explains j) → ∃ i c, v.Latest i c ∧ c.job.id = j.id ∧ c.Explains j := by
    intro ho k d hd hid hex
    obtain ⟨b, hb, hsame, ⟨-, rfl, rfl⟩ | ⟨-, rfl⟩⟩ := hd.moved hc hs hv
    · exact ⟨k, b, hb, by rw [hsame.job, hid], hex.congr hsame ho⟩
    · exact ⟨k, b, hb, hid, hex⟩
  cases he with
  | quiet ht ho =>
    subst ht
    rcases hi.jobs j hr with ⟨hq, hno⟩ | ⟨k, d, hd, hid, hex⟩
    · exact .inl ⟨hq, hunclaimed hno⟩
    · exact .inr (hkept ho k d hd hid hex)
  | @refreshed url hlive held href ho =>
    obtain ⟨j₀, hj₀, hj⟩ := (href.rows j).mp hr
    have hid : j.id = j₀.id := by rw [hj]; split <;> rfl
    have hstatus : j.status = j₀.status := by rw [hj]; split <;> rfl
    rcases hi.jobs j₀ hj₀ with ⟨hq, hno⟩ | ⟨k, d, hd, hdid, hex⟩
    · exact .inl ⟨hstatus.trans hq, hunclaimed (hid ▸ hno)⟩
    · refine .inr (hkept ho k d hd (hdid.trans hid.symm) ?_)
      rw [hj]
      split
      · exact hex.url url
      · exact hex
  | @recorded call now a hlive hrec ho hended =>
    obtain ⟨j₀, hj₀, hj⟩ := (hrec.jobs j).mp hr
    by_cases hl : lockedRow c.job j₀ = true
    · obtain ⟨hlatest, hnone⟩ := hi.fence hc hlive hj₀ hl
      rw [if_pos hl] at hj
      obtain ⟨b, hb, hsame, hcase⟩ := hlatest.moved hc hs hv
      have hbc : b = c' := by
        rcases hcase with ⟨-, -, h⟩ | ⟨hk, -⟩
        · exact h
        · exact absurd rfl hk
      subst hbc
      refine .inr ⟨i, b, hb, ?_, ?_⟩
      · rw [hsame.job, hj, Outcome.row_id, (lockedRow_iff.mp hl).1]
      · rw [hnone, List.nil_append] at ho
        rw [hj]
        refine .resolved ho rfl rfl rfl ?_ fun hterm => ?_
        · change a.attemptNumber = b.attempt
          rw [(newDeliveryAttempt_ok hrec.made).2.1, Claim.attempt, hsame.job]
        · have hclose := call.outcome_legal.terminal.mp hterm
          simp only [Outcome.row, hclose, Bool.false_eq_true, if_false]
    · rw [if_neg hl] at hj
      subst hj
      rcases hi.jobs j hj₀ with ⟨hq, hno⟩ | ⟨k, d, hd, hid, hex⟩
      · exact .inl ⟨hq, hunclaimed hno⟩
      · obtain ⟨b, hb, hsame, ⟨-, rfl, rfl⟩ | ⟨-, rfl⟩⟩ := hd.moved hc hs hv
        · -- the claim has recorded nothing, so its row would be locked by it
          exfalso
          cases hex with
          | holding _ hstatus hby _ _ =>
            refine hl (lockedRow_iff.mpr ⟨hid.symm, ?_, hstatus⟩)
            rw [hby, hi.token d (List.mem_of_getElem? hc)]
          | resolved hsome =>
            rw [hi.running d (List.mem_of_getElem? hc) hlive] at hsome
            cases hsome
        · exact .inr ⟨k, b, hb, hid, hex⟩

theorem LeaseInv.outcomes_moved (hi : LeaseInv env w) (hc : w.claims[i]? = some c)
    (he : TaskEffect w.tables c t c') : c'.outcomes = c.outcomes ∨
      w.Latest i c ∧ c.outcomes = [] ∧ c'.task = .ended ∧ ∃ o, c'.outcomes = [o] := by
  cases he with
  | quiet _ ho => exact .inl ho
  | refreshed _ _ _ ho => exact .inl ho
  | recorded hlive hrec ho hended =>
    obtain ⟨j, hj, hl⟩ := hrec.held
    obtain ⟨hlatest, hnone⟩ := hi.fence hc hlive hj hl
    rw [hnone, List.nil_append] at ho
    exact .inr ⟨hlatest, hnone, hended, _, ho⟩

theorem LeaseInv.moved (hi : LeaseInv env w) (hc : w.claims[i]? = some c)
    (h : TaskMove env time w.tables c t c') :
    LeaseInv env { w with tables := t, clock := time, claims := w.claims.set i c' } := by
  have hs := h.claim_same
  have hout := hi.outcomes_moved hc h.effect
  have hmem := List.mem_of_getElem? hc
  constructor
  case token =>
    intro d hd
    rcases List.mem_or_eq_of_mem_set hd with hd | rfl
    · exact hi.token d hd
    · rw [hs.job, hs.worker]
      exact hi.token c hmem
  case running =>
    intro d hd hlive
    rcases List.mem_or_eq_of_mem_set hd with hd | rfl
    · exact hi.running d hd hlive
    · rcases hout with ho | ⟨-, -, hended, -⟩
      · rw [ho]
        exact hi.running c hmem (hs.live hlive)
      · rw [hended] at hlive
        cases hlive
  case single =>
    intro d hd
    rcases List.mem_or_eq_of_mem_set hd with hd | rfl
    · exact hi.single d hd
    · rcases hout with ho | ⟨-, -, -, o, ho⟩
      · rw [ho]
        exact hi.single c hmem
      · rw [ho]
        exact le_refl 1
  case busy =>
    intro k d hd hlive
    obtain ⟨b, hb, hsame, -⟩ := moved_cases hc hs hd
    change (∃ batch, w.phase d.worker = _ ∧ _) ∨ w.phase d.worker = _
    rw [hsame.worker]
    exact hi.busy k b hb (hsame.live hlive)
  case newest =>
    intro k d m b hd hlive hb hw hid
    obtain ⟨d₀, hd₀, hsd, -⟩ := moved_cases hc hs hd
    obtain ⟨b₀, hb₀, hsb, -⟩ := moved_cases hc hs hb
    rw [hsd.worker, hsb.worker] at hw
    rw [hsd.job, hsb.job] at hid
    exact hi.newest k d₀ m b₀ hd₀ (hsd.live hlive) hb₀ hw hid
  case jobs => exact fun j hj => hi.jobs_moved hc hs h.effect rfl hj
  case past =>
    intro k d m b hd hb hkm hid
    obtain ⟨d₀, hd₀, hsd, hcase⟩ := moved_cases hc hs hd
    obtain ⟨b₀, hb₀, hsb, -⟩ := moved_cases hc hs hb
    rw [hsd.job, hsb.job] at hid
    have hold := hi.past k d₀ m b₀ hd₀ hb₀ hkm hid
    rcases hcase with ⟨rfl, rfl, rfl⟩ | ⟨-, rfl⟩
    · rcases hout with ho | ⟨hlatest, -⟩
      · rwa [Claim.Retried, ho]
      · have := hlatest.newest m b₀ hb₀ hid
        omega
    · exact hold
  case spaced =>
    intro k d m b hd hb hkm hid hbetween
    obtain ⟨d₀, hd₀, hsd, hcase⟩ := moved_cases hc hs hd
    obtain ⟨b₀, hb₀, hsb, -⟩ := moved_cases hc hs hb
    rw [hsd.job, hsb.job] at hid
    rw [hsb.worker, hsb.lockedAt, hsd.lockedAt]
    have hold := hi.spaced k d₀ m b₀ hd₀ hb₀ hkm hid fun n a hkn hnm ha hne => by
      by_cases hn : n = i
      · subst hn
        obtain rfl : a = c := eq_of_getElem? hc ha
        exact hbetween n c' hkn hnm ((getElem?_set_some hc).mpr (.inl ⟨rfl, rfl⟩))
          (by rw [hs.job, hsd.job, hne])
      · exact hbetween n a hkn hnm ((getElem?_set_some hc).mpr (.inr ⟨hn, ha⟩))
          (by rw [hsd.job, hne])
    rcases hcase with ⟨rfl, rfl, rfl⟩ | ⟨-, rfl⟩
    · rcases hout with ho | ⟨hlatest, -⟩
      · rwa [Claim.Retried, ho]
      · -- a later claim of the job rules an outcome out
        have := hlatest.newest m b₀ hb₀ hid
        omega
    · exact hold

end Moved

theorem LeaseInv.step (hi : LeaseInv env w) (hl : LedgerInv w.store) (h : w.Moves env e w') :
    LeaseInv env w' := by
  cases h with
  | phased h => exact hi.phased h
  | enqueued ht h => exact hi.enqueued hl h
  | claimed hp hr h hphase => exact hi.claimed hp h hphase
  | moved hc h => exact hi.moved hc h

theorem leaseInv_of_reachable {G : System.Guard World Event} (h : (fleet env).Reachable G w) :
    LeaseInv env w := by
  apply h.invariant
  · constructor <;> simp [fleet, World.initial, Tables.empty]
  · intro s e s' hs hi hstep _
    exact hi.step (ledgerInv_of_fleet hs) (World.step_moves hstep)

end ResendRouter.Delivery
