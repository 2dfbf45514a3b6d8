import ResendRouter.Delivery.Lease

/-! # Superseded claims change nothing

The fence in terms of runs: which claims write, how claims of one job follow
each other, what a closed job still sees, and when a claim that lost its job is
told so.
-/

namespace ResendRouter.Delivery
open Foundation Program Database

variable {env : Env} {time : Time} {t t' : Tables} {c c' d : Claim} {w w' : World} {e : Event}
  {i k : ℕ} {j : DeliveryJob}

/-- A step of a task that changes the tables is taken for the latest claim of its job, which has
recorded nothing before. -/
theorem writer_is_latest (hi : LeaseInv env w) {event : TaskEvent} (hc : w.claims[i]? = some c)
    (h : w.Moves env ⟨time, .task i event⟩ w') (hne : w'.tables ≠ w.tables) :
    w.Latest i c ∧ c.outcomes = [] := by
  cases h with
  | phased => exact absurd rfl hne
  | @moved _ _ _ b t b' hb h =>
    obtain rfl : b = c := eq_of_getElem? hc hb
    cases h.effect with
    | quiet ht => exact absurd ht hne
    | refreshed hlive held =>
      rcases held with ⟨j, hj, hl⟩
      exact hi.fence hc hlive hj hl
    | recorded hlive hrec =>
      obtain ⟨j, hj, hl⟩ := hrec.held
      exact hi.fence hc hlive hj hl

/-- Between two states, nothing happened to a job: its row, its attempts and its claims, with
what they recorded, are the same. -/
structure World.Untouched (w w' : World) (j : DeliveryJob) : Prop where
  row : j ∈ w'.tables.deliveryJobs
  attempts : w'.tables.attemptsOf j.id = w.tables.attemptsOf j.id
  claims : ∀ (k : ℕ) (d : Claim), w'.claims[k]? = some d → d.job.id = j.id →
    ∃ c, w.claims[k]? = some c ∧ d.job = c.job ∧ d.outcomes = c.outcomes

theorem World.Untouched.trans {v : World} (h : w.Untouched w' j) (h' : w'.Untouched v j) :
    w.Untouched v j := by
  refine ⟨h'.row, h'.attempts.trans h.attempts, fun k d hd hid => ?_⟩
  obtain ⟨b, hb, hjob, hout⟩ := h'.claims k d hd hid
  obtain ⟨c, hc, hjob', hout'⟩ := h.claims k b hb (hjob ▸ hid)
  exact ⟨c, hc, hjob.trans hjob', hout.trans hout'⟩

theorem not_lockedRow_of_terminal {job : ClaimedJob} (hterm : j.status.isTerminal = true) :
    lockedRow job j = false := by
  by_contra hl
  rw [Bool.not_eq_false, lockedRow_iff] at hl
  rw [hl.2.2] at hterm
  cases hterm

/-- A closed job is neither claimed, nor written by a task. -/
theorem untouched_step (hj : j ∈ w.tables.deliveryJobs) (hterm : j.status.isTerminal = true)
    (h : w.Moves env e w') : w.Untouched w' j := by
  cases h with
  | phased => exact ⟨hj, rfl, fun k d hd _ => ⟨d, hd, rfl, rfl⟩⟩
  | enqueued ht h =>
    exact ⟨h.mem_jobs.mpr (.inl hj), attemptsOf_congr _ (congrArg _ h.attempts),
      fun k d hd _ => ⟨d, hd, rfl, rfl⟩⟩
  | @claimed time workerId now skip fate jobs t phase task hp hr h hphase =>
    have hno : ∀ job ∈ jobs, job.id ≠ j.id := by
      intro job hjob hid
      obtain ⟨j', hj', hdue, e, -, -, rfl⟩ := h.due job hjob
      rw [Table.eq_of_key_eq hj' hj hid] at hdue
      rw [isDue_not_terminal hdue] at hterm
      cases hterm
    refine ⟨(h.rows j).mpr ⟨j, hj, .inr ⟨hno, rfl⟩⟩, attemptsOf_congr _ (congrArg _ h.attempts),
      fun k d hd hid => ?_⟩
    rcases claims_cases hd with hd | ⟨n, job, rfl, hjob, rfl⟩
    · exact ⟨d, hd, rfl, rfl⟩
    · exact absurd hid (hno job (List.mem_of_getElem? hjob))
  | @moved time i event c t c' hc h =>
    have hs := h.claim_same
    have hclaims : c'.outcomes = c.outcomes ∨ c.job.id ≠ j.id → ∀ (k : ℕ) (d : Claim),
        (w.claims.set i c')[k]? = some d → d.job.id = j.id →
          ∃ c, w.claims[k]? = some c ∧ d.job = c.job ∧ d.outcomes = c.outcomes := by
      intro hor k d hd hid
      obtain ⟨b, hb, hsame, ⟨rfl, rfl, rfl⟩ | ⟨-, rfl⟩⟩ := moved_cases hc hs hd
      · rcases hor with ho | hne
        · exact ⟨b, hb, hsame.job, ho⟩
        · exact absurd (hsame.job ▸ hid) hne
      · exact ⟨d, hb, rfl, rfl⟩
    cases h.effect with
    | quiet ht ho =>
      subst ht
      exact ⟨hj, rfl, hclaims (.inl ho)⟩
    | refreshed hlive held hr ho =>
      refine ⟨(hr.rows j).mpr ⟨j, hj, ?_⟩, attemptsOf_congr _ (congrArg _ hr.attempts),
        hclaims (.inl ho)⟩
      rw [not_lockedRow_of_terminal hterm]
      rfl
    | recorded hlive hr ho hended =>
      have hne : c.job.id ≠ j.id := by
        intro hid
        obtain ⟨j', hj', hl⟩ := hr.held
        rw [Table.eq_of_key_eq hj' hj ((lockedRow_iff.mp hl).1.trans hid),
          not_lockedRow_of_terminal hterm] at hl
        cases hl
      refine ⟨(hr.jobs j).mpr ⟨j, hj, ?_⟩, ?_, hclaims (.inr hne)⟩
      · rw [not_lockedRow_of_terminal hterm]
        rfl
      · change t.attemptsOf j.id = _
        rw [hr.attemptsOf, if_neg (Ne.symm hne)]

theorem untouched_later {G : System.Guard World Event} (hj : j ∈ w.tables.deliveryJobs)
    (hterm : j.status.isTerminal = true) (h : (fleet env).Reaches G w w') : w.Untouched w' j := by
  induction h with
  | refl => exact ⟨hj, rfl, fun _ d hd _ => ⟨d, hd, rfl, rfl⟩⟩
  | tail _ hn ih =>
    rcases hn with ⟨e, he, -⟩
    exact ih.trans (untouched_step ih.row hterm (World.step_moves he))

/-- A claim writes only while it is the latest of its job and has recorded nothing; consecutive
claims are separated by a retry or by the stale interval; a closed job is never touched again. -/
theorem lease_fencing (env : Env) {w : World} (h : (fleet env).Reachable System.free w) :
    (∀ time i event c w', w.claims[i]? = some c →
      (fleet env).step w ⟨time, .task i event⟩ = some w' → w'.tables ≠ w.tables →
        w.Latest i c ∧ c.outcomes = []) ∧
    (∀ c ∈ w.claims, c.outcomes.length ≤ 1) ∧
    (∀ (i k : ℕ) (c d : Claim), w.claims[i]? = some c → w.claims[k]? = some d → i < k →
      d.job.id = c.job.id →
      (∀ (m : ℕ) (b : Claim), i < m → m < k → w.claims[m]? = some b → b.job.id ≠ c.job.id) →
      c.Retried ∨
        c.lockedAt + seconds (env.config d.worker).staleDeliveryLockSecs < d.lockedAt) ∧
    (∀ j ∈ w.tables.deliveryJobs, j.status = .succeeded ∨ j.status = .failed →
      ∀ w', (fleet env).Reaches System.free w w' → w.Untouched w' j) := by
  have hi := leaseInv_of_reachable h
  refine ⟨?_, hi.single, fun i k c d => hi.spaced i c k d, ?_⟩
  · intro time i event c w' hc hstep hne
    exact writer_is_latest hi hc (World.step_moves hstep) hne
  · intro j hj hterm w' hw'
    exact untouched_later hj (isTerminal_iff.mpr hterm) hw'

theorem lease_fencing_delivered : ∃ w, (fleet sampleEnv).Reachable System.free w ∧
    w.claims.map (·.outcomes.length) = [0, 1, 1] ∧
    w.tables.deliveryJobs.rows.map (·.status) = [.succeeded] ∧
    (∀ c ∈ w.claims, c.outcomes.length ≤ 1) ∧
    ∀ j ∈ w.tables.deliveryJobs, j.status = .succeeded ∨ j.status = .failed →
      ∀ w', (fleet sampleEnv).Reaches System.free w w' → w.Untouched w' j := by
  obtain ⟨w, hw, hp⟩ := System.exists_reachable_of_run (fleet sampleEnv) System.free delivered
    (fun w => w.claims.map (·.outcomes.length) = [0, 1, 1] ∧
      w.tables.deliveryJobs.rows.map (·.status) = [.succeeded]) (by decide)
  rw [decide_eq_true_eq] at hp
  obtain ⟨-, hsingle, -, hclosed⟩ := lease_fencing sampleEnv hw
  exact ⟨w, hw, hp.1, hp.2, hsingle, hclosed⟩

def World.Holds (w : World) (i : ℕ) (c : Claim) : Prop := w.Latest i c ∧ c.outcomes = []

/-- What each call answers when its lock is lost, with the tables as they were. -/
def ReportsLost (t : Tables) (job : ClaimedJob) (now : Time) : RecordCall → Prop
  | .success code d => recordSuccess t job code d now = ⟨.ok false, t⟩
  | .retry code error d next => recordRetry t job code error d next now = ⟨.ok none, t⟩
  | .finalFailure code error d => recordFinalFailure t job code error d now = ⟨.ok none, t⟩

theorem reportsLost_iff {job : ClaimedJob} {now : Time} {call : RecordCall} :
    ReportsLost t job now call ↔
      recordOutcome call.outcome t job call.durationMs now = ⟨.ok none, t⟩ := by
  cases call with
  | retry => exact Iff.rfl
  | finalFailure => exact Iff.rfl
  | success code d =>
    change Reply.map Option.isSome (recordOutcome _ t job d now) = _ ↔ _
    cases hr : recordOutcome (successOutcome code) t job d now with
    | mk result tables =>
      cases result with
      | error e => simp [Reply.map, Except.map, RecordCall.outcome, RecordCall.durationMs, hr]
      | ok n => simp [Reply.map, Except.map, RecordCall.outcome, RecordCall.durationMs, hr]

/-- The number after a snapshot's count is free exactly when nothing was recorded since. -/
theorem attempt_free_iff (hl : LedgerInv w.store) (hc : c ∈ w.claims)
    (hj : j ∈ w.tables.deliveryJobs) (hid : j.id = c.job.id) :
    (∀ b ∈ w.tables.deliveryAttempts, b.key ≠ (c.job.id, c.job.attemptCount + 1)) ↔
      j.attemptCount = c.job.attemptCount := by
  have hs := hl.snapshot (List.mem_map_of_mem hc) hj hid
  have hcoh := hl.coherent j hj
  constructor
  · intro hfree
    by_contra hne
    have hcount := hs.count
    have hpos := hs.nonneg
    obtain ⟨b, hb, hk⟩ := hcoh.exists_number (n := c.job.attemptCount + 1) (by omega) (by omega)
    exact hfree b hb (by rw [hk, hid])
  · intro heq b hb hk
    rw [DeliveryAttempt.key, Prod.mk.injEq] at hk
    have hmem : b.attemptNumber ∈ (w.tables.attemptsOf j.id).map (·.attemptNumber) :=
      List.mem_map_of_mem (mem_attemptsOf.mpr ⟨hb, hk.1.trans hid.symm⟩)
    have hnum := hcoh.numbers
    change (w.tables.attemptsOf j.id).map _ = _ at hnum
    rw [hnum, List.mem_map] at hmem
    rcases hmem with ⟨n, hn, hb'⟩
    rw [List.mem_range] at hn
    omega

/-- A call reports a lost lock exactly when nothing was recorded for the job since the claim, the
number, the duration, the error and the dates fit their columns, and the worker does not hold the
job. -/
theorem lost_lock_reported_iff (env : Env) {w : World} {i : ℕ} {c : Claim} (now : Time)
    (call : RecordCall) (h : (fleet env).Reachable System.free w) (hc : w.claims[i]? = some c) :
    ReportsLost w.tables c.job now call ↔
      c.job.attemptCount < i32Max ∧ 0 ≤ wrapI32 call.durationMs ∧
        optionalTextOk call.outcome.error = true ∧
        (timestampOk now = true ∧ call.outcome.nextAttemptAt.all timestampOk = true) ∧
        ∀ j ∈ w.tables.deliveryJobs, j.id = c.job.id →
          j.attemptCount = c.job.attemptCount ∧ lockedRow c.job j = false := by
  have hl := ledgerInv_of_fleet h
  have hmem := List.mem_of_getElem? hc
  have hjob : c.job ∈ w.store.claimed := List.mem_map_of_mem hmem
  obtain ⟨j, (hj : j ∈ w.tables.deliveryJobs), hs⟩ := hl.snapshots c.job hjob
  have hid := hs.id
  have hmax : c.job.attemptCount ≤ i32Max := hs.count.trans (hl.bounded j hj)
  rw [reportsLost_iff, recordOutcome_lost ⟨j, hj, hid⟩, wrapI32_succ_pos_iff hs.nonneg hmax]
  have hrow : ∀ r ∈ w.tables.deliveryJobs, r.id = c.job.id → r = j :=
    fun r hr hrid => Table.eq_of_key_eq hr hj (hrid.trans hid.symm)
  constructor
  · rintro ⟨htext, hdates, hlt, hd, hfree, hunlocked⟩
    rw [wrapI32_succ hs.nonneg hlt] at hfree
    refine ⟨hlt, hd, htext, hdates, fun r hr hrid => ?_⟩
    rw [hrow r hr hrid]
    exact ⟨(attempt_free_iff hl hmem hj hid).mp hfree, hunlocked j hj⟩
  · rintro ⟨hlt, hd, htext, hdates, hrows⟩
    obtain ⟨hcount, hunlocked⟩ := hrows j hj hid
    rw [wrapI32_succ hs.nonneg hlt]
    refine ⟨htext, hdates, hlt, hd, (attempt_free_iff hl hmem hj hid).mpr hcount, fun r hr => ?_⟩
    by_cases hrid : r.id = c.job.id
    · rwa [hrow r hr hrid]
    · rw [← Bool.not_eq_true, lockedRow_iff]
      exact fun hlr => hrid hlr.1

theorem World.not_holds_of_later (hd : w.claims[k]? = some d) (hid : d.job.id = c.job.id)
    (hik : i < k) : ¬ w.Holds i c := fun h => by
  have := h.1.newest k d hd hid
  omega

/-- Worker `b` took the job over and has recorded nothing yet: the stalled worker `a` is told. -/
theorem lost_lock_reported_iff_claimed : ∃ w c, (fleet sampleEnv).Reachable System.free w ∧
    w.claims[0]? = some c ∧ ¬ w.Holds 0 c ∧
    (ReportsLost w.tables c.job (seconds 302) (.success 200 9) ↔
      c.job.attemptCount < i32Max ∧ 0 ≤ wrapI32 9 ∧ optionalTextOk none = true ∧
        (timestampOk (seconds 302) = true ∧ Option.all timestampOk none = true) ∧
        ∀ j ∈ w.tables.deliveryJobs, j.id = c.job.id →
          j.attemptCount = c.job.attemptCount ∧ lockedRow c.job j = false) := by
  obtain ⟨w, hw, hp⟩ := System.exists_reachable_of_run (fleet sampleEnv) System.free
    (takenOver.take 3) (fun w => (w.claims[0]?).map (·.job.id) = some 2 ∧
      (w.claims[1]?).map (·.job.id) = some 2) (by decide)
  rw [decide_eq_true_eq, Option.map_eq_some_iff, Option.map_eq_some_iff] at hp
  rcases hp with ⟨⟨c, hc, hcid⟩, d, hd, hdid⟩
  exact ⟨w, c, hw, hc, World.not_holds_of_later hd (hdid.trans hcid.symm) Nat.one_pos,
    lost_lock_reported_iff sampleEnv (seconds 302) (.success 200 9) hw hc⟩

/-- Worker `b` has recorded a retry: the stalled worker `a` gets a unique violation instead. -/
theorem lost_lock_not_reported : ¬ ∀ w, (fleet sampleEnv).Reachable System.free w →
    ∀ i c, w.claims[i]? = some c → ¬ w.Holds i c →
      ∀ now call, ReportsLost w.tables c.job now call := by
  intro hall
  obtain ⟨w, hw, hp⟩ := System.exists_reachable_of_run (fleet sampleEnv) System.free takenOver
    (fun w => (w.claims[0]?).map (fun c => (c.job.id,
        match (recordSuccess w.tables c.job 200 9 (seconds 303)).result with
        | .error .uniqueViolation => true
        | _ => false)) = some (2, true) ∧
      (w.claims[1]?).map (·.job.id) = some 2) (by decide)
  rw [decide_eq_true_eq, Option.map_eq_some_iff, Option.map_eq_some_iff] at hp
  rcases hp with ⟨⟨c, hc, hcp⟩, d, hd, hdid⟩
  rw [Prod.mk.injEq] at hcp
  have hlost : recordSuccess w.tables c.job 200 9 (seconds 303) = ⟨.ok false, w.tables⟩ :=
    hall w hw 0 c hc (World.not_holds_of_later hd (hdid.trans hcp.1.symm) Nat.one_pos)
      (seconds 303) (.success 200 9)
  rw [hlost] at hcp
  cases hcp.2

end ResendRouter.Delivery
