import ResendRouter.Delivery.Verdicts
import Mathlib.Algebra.BigOperators.Intervals

/-! # Retries back off

A retry waits for its delay or for the deadline, and no retry is decided at the
deadline. The delays of a job therefore add up inside its retry window, and this
bounds the number of its attempts.
-/

namespace ResendRouter.Delivery
open Foundation Program Database

variable {env : Env} {time : Time} {t t' : Tables} {c c' d : Claim} {w w' : World} {e : Event}
  {i k : ℕ} {j r : DeliveryJob} {a b : DeliveryAttempt} {n m next : Time}

theorem baseRetryDelaySecs_range (attempt : ℤ) : 5 * (baseRetryDelaySecs attempt / 5) =
    baseRetryDelaySecs attempt ∧ 15 ≤ baseRetryDelaySecs attempt ∧
      baseRetryDelaySecs attempt ≤ maxRetryDelaySecs := by
  unfold baseRetryDelaySecs maxRetryDelaySecs
  split_ifs <;> decide

theorem draw_le (bound seed : ℕ) : draw bound seed ≤ bound :=
  Nat.le_of_lt_succ (Nat.mod_lt _ (Nat.succ_pos bound))

/-- The jitter takes away at most a fifth of the base delay, and the cap holds after it. -/
theorem retryDelay_bounds (attempt : ℤ) (seed : ℕ) :
    4 * baseRetryDelaySecs attempt ≤ 5 * retryDelay attempt seed ∧
      retryDelay attempt seed ≤ maxRetryDelaySecs := by
  obtain ⟨hfifth, hleast, hcap⟩ := baseRetryDelaySecs_range attempt
  have hdraw := draw_le (baseRetryDelaySecs attempt / 5 * 2) seed
  simp only [retryDelay]
  split_ifs with hz
  · omega
  · have hjitter : (baseRetryDelaySecs attempt : ℤ) - (baseRetryDelaySecs attempt / 5 : ℕ) ≤
        baseRetryDelaySecs attempt + ((draw (baseRetryDelaySecs attempt / 5 * 2) seed : ℕ) -
          (baseRetryDelaySecs attempt / 5 : ℕ)) := by
      omega
    constructor
    · omega
    · exact min_le_right _ _

/-- A retry is scheduled within the hour and no later than the deadline, and before the deadline
it has waited for its delay. -/
theorem recordFailure_schedule {job : ClaimedJob} {code : Option UInt16} {error : String} {d : ℤ}
    {seed : ℕ} {call : RecordCall} (h : recordFailure job code error d n seed = some call)
    (hnext : call.outcome.nextAttemptAt = some next) :
    n < job.deadlineAt ∧ n < next ∧ next ≤ job.deadlineAt ∧
      next ≤ n + seconds maxRetryDelaySecs ∧ (next < job.deadlineAt →
        4 * seconds (baseRetryDelaySecs (wrapI32 (job.attemptCount + 1))) ≤ 5 * (next - n)) := by
  rcases recordFailure_cases h with ⟨-, rfl⟩ | ⟨next', rfl, hopen, hlater, hclamp⟩
  · cases hnext
  · cases hnext
    refine ⟨hopen, hlater, hclamp, ?_⟩
    simp only [recordFailure, if_neg (not_le.mpr hopen)] at h
    obtain ⟨u, hu, hcall⟩ := Option.map_eq_some_iff.mp h
    obtain ⟨hleast, hcap⟩ := retryDelay_bounds (wrapI32 (job.attemptCount + 1)) seed
    have hu := addTime_eq_some hu
    cases hcall
    simp only [seconds] at hu ⊢
    split_ifs with hlate
    · refine ⟨?_, fun hlt => absurd hlt (lt_irrefl _)⟩
      have : u ≤ n + maxRetryDelaySecs * 1000000 := by
        rw [hu]
        gcongr
      exact hlate.le.trans this
    · constructor
      · rw [hu]
        gcongr
      · intro _
        rw [hu, add_sub_cancel_left]
        have : (4 : ℤ) * baseRetryDelaySecs (wrapI32 (job.attemptCount + 1)) ≤
            5 * retryDelay (wrapI32 (job.attemptCount + 1)) seed := by
          exact_mod_cast hleast
        linarith

def Claim.Scheduled (c : Claim) (next : Time) : Prop :=
  ∃ o ∈ c.outcomes, o.call.outcome.nextAttemptAt = some next

/-- A retry was chosen by `record_failure` at the clock reading of the claim's decision. -/
def Drawn (c : Claim) (call : RecordCall) : Prop :=
  ∀ next, call.outcome.nextAttemptAt = some next → ∃ n code error d seed,
    c.decidedAt = some n ∧ recordFailure c.job code error d n seed = some call

structure ClaimDrawn (c : Claim) : Prop where
  task : ∀ call, c.task.call = some call → Drawn c call
  outcomes : ∀ o ∈ c.outcomes, Drawn c o.call

theorem ClaimDrawn.moved (h : ClaimDrawn c) (hrun : c.task.isEnded = false → c.outcomes = [])
    (hm : TaskMove env time t c t' c') : ClaimDrawn c' := by
  cases hm with
  | @failed response d call hs hno seed hc =>
    refine ⟨?_, ?_⟩
    · rintro _ ⟨⟩ next -
      exact ⟨time, _, _, d, seed, rfl, hc⟩
    · rw [hrun (by rw [hs]; rfl)]
      simp
  | overflowed hs hno =>
    refine ⟨nofun, ?_⟩
    rw [hrun (by rw [hs]; rfl)]
    simp
  | stamped hs =>
    refine ⟨?_, h.outcomes⟩
    rintro _ ⟨⟩
    exact h.task _ (by rw [hs]; rfl)
  | @recorded call now t' a hs hu hr =>
    refine ⟨nofun, fun o ho => ?_⟩
    rcases List.mem_append.mp ho with ho | ho
    · exact h.outcomes o ho
    · rw [List.mem_singleton.mp ho]
      exact h.task call (by rw [hs]; rfl)
  | refreshed hs url hu held hr ht =>
    rcases ht with rfl | rfl <;> exact ⟨nofun, h.outcomes⟩
  | finished hp response => exact ⟨h.task, h.outcomes⟩
  | expired hs hd =>
    refine ⟨?_, h.outcomes⟩
    rintro _ ⟨⟩ next ⟨⟩
  | succeeded hs hok =>
    refine ⟨?_, h.outcomes⟩
    rintro _ ⟨⟩ next ⟨⟩
  | _ => exact ⟨nofun, h.outcomes⟩

theorem drawn_of_reachable {G : System.Guard World Event} (h : (fleet env).Reachable G w) :
    ∀ c ∈ w.claims, ClaimDrawn c := by
  apply h.invariant
  · simp [fleet, World.initial]
  · intro s e s' hs hi hstep _
    cases World.step_moves hstep with
    | phased => exact hi
    | enqueued => exact hi
    | claimed hp hr h hphase =>
      intro c hc
      rcases List.mem_append.mp hc with hc | hc
      · exact hi c hc
      · obtain ⟨job, -, rfl⟩ := List.mem_map.mp hc
        constructor
        · rcases hphase with rfl | ⟨rfl, -⟩ <;> rintro _ ⟨⟩
        · simp [newClaim]
    | moved hc h =>
      intro d hd
      rcases List.mem_or_eq_of_mem_set hd with hd | rfl
      · exact hi d hd
      · have hmem := List.mem_of_getElem? hc
        exact (hi _ hmem).moved ((leaseInv_of_reachable hs).running _ hmem) h

theorem ClaimDrawn.schedule (h : ClaimDrawn c) (hs : c.Scheduled next) :
    ∃ n, c.decidedAt = some n ∧ n < c.job.deadlineAt ∧ n < next ∧ next ≤ c.job.deadlineAt ∧
      next ≤ n + seconds maxRetryDelaySecs ∧ (next < c.job.deadlineAt →
        4 * seconds (baseRetryDelaySecs c.attempt) ≤ 5 * (next - n)) := by
  rcases hs with ⟨o, ho, hnext⟩
  obtain ⟨n, code, error, d, seed, hn, hcall⟩ := h.outcomes o ho next hnext
  exact ⟨n, hn, recordFailure_schedule hcall hnext⟩

/-- The clock has passed `x`, and had passed it when the claim was decided. -/
def World.Since (w : World) (d : Claim) (x : Time) : Prop :=
  x ≤ w.clock ∧ ∀ n, d.decidedAt = some n → x ≤ n

structure SpacingInv (w : World) : Prop where
  /-- A claim that comes after an outcome has seen it counted. -/
  counted : ∀ (i : ℕ) (c : Claim) (k : ℕ) (d : Claim), w.claims[i]? = some c →
    w.claims[k]? = some d → i < k → d.job.id = c.job.id → c.outcomes ≠ [] →
      c.attempt ≤ d.job.attemptCount
  /-- A claim that comes after a retry has waited for its schedule. -/
  waited : ∀ (i : ℕ) (c : Claim) (k : ℕ) (d : Claim), w.claims[i]? = some c →
    w.claims[k]? = some d → i < k → d.job.id = c.job.id → ∀ next, c.Scheduled next →
      w.Since d next
  /-- A job is claimed after its creation. -/
  begun : ∀ c ∈ w.claims, ∀ j ∈ w.tables.deliveryJobs, j.id = c.job.id → w.Since c j.createdAt

theorem TaskMove.decidedAt (h : TaskMove env time t c t' c') :
    c'.decidedAt = c.decidedAt ∨ c'.decidedAt = some time := by
  cases h with
  | failed => exact .inr rfl
  | overflowed => exact .inr rfl
  | _ => exact .inl rfl

theorem World.Since.later {x : Time} (h : w.Since d x) (hle : w.clock ≤ w'.clock) :
    w'.Since d x :=
  ⟨h.1.trans hle, h.2⟩

theorem World.Since.moved {x : Time} (h : w.Since c x) (hm : TaskMove env time t c t' c')
    (hle : w.clock ≤ time) (htime : time = w'.clock) : w'.Since c' x := by
  have hx := h.1.trans hle
  refine ⟨htime ▸ hx, fun n hn => ?_⟩
  rcases hm.decidedAt with hd | hd
  · exact h.2 n (hd ▸ hn)
  · rw [hd, Option.some.injEq] at hn
    exact hn ▸ hx

theorem World.Moves.row_origin (h : w.Moves env e w') (hr : r ∈ w'.tables.deliveryJobs) :
    (∃ j ∈ w.tables.deliveryJobs, r.id = j.id ∧ r.createdAt = j.createdAt) ∨
      w'.claims = w.claims ∧ ∀ j ∈ w.tables.deliveryJobs, j.id ≠ r.id := by
  cases h with
  | phased => exact .inl ⟨r, hr, rfl, rfl⟩
  | enqueued ht h =>
    rcases h.mem_jobs.mp hr with hr | hr
    · exact .inl ⟨r, hr, rfl, rfl⟩
    · exact .inr ⟨rfl, fun j hj => h.id_ne hj hr⟩
  | claimed hp hreply h hphase =>
    obtain ⟨j, hj, ⟨-, rfl⟩ | ⟨-, rfl⟩⟩ := (h.rows r).mp hr
    · exact .inl ⟨j, hj, rfl, rfl⟩
    · exact .inl ⟨r, hj, rfl, rfl⟩
  | moved hc h =>
    cases h.effect with
    | quiet ht => exact .inl ⟨r, ht ▸ hr, rfl, rfl⟩
    | refreshed hlive held href =>
      obtain ⟨j, hj, rfl⟩ := (href.rows r).mp hr
      refine .inl ⟨j, hj, ?_⟩
      split <;> exact ⟨rfl, rfl⟩
    | recorded hlive hrec =>
      obtain ⟨j, hj, rfl⟩ := (hrec.jobs r).mp hr
      refine .inl ⟨j, hj, ?_⟩
      split <;> exact ⟨rfl, rfl⟩

theorem unclaimed_schedule (hl : LedgerInv w.store) (ho : OutcomeInv w)
    (hj : j ∈ w.tables.deliveryJobs) (hno : ∀ c ∈ w.claims, c.job.id ≠ j.id) :
    j.nextAttemptAt = j.createdAt := by
  have hnone : w.tables.attemptsOf j.id = [] := by
    rw [List.eq_nil_iff_forall_not_mem]
    intro a ha
    obtain ⟨ha, hid⟩ := mem_attemptsOf.mp ha
    obtain ⟨c, hc, o, -, hrow⟩ := ho.rows a ha
    exact hno c hc (hrow.jobId.symm.trans hid)
  have hcoherent : Coherent w.tables j := hl.coherent j hj
  apply hcoherent.unscheduled
  rw [hnone]
  rfl

/-- The row of a retried job keeps the schedule of its latest claim. -/
theorem retried_schedule (hl : LedgerInv w.store) (ho : OutcomeInv w)
    (hj : j ∈ w.tables.deliveryJobs) (hc : w.Latest i c) (hid : c.job.id = j.id)
    (hcount : j.attemptCount = c.attempt) (hs : c.Scheduled next) :
    j.nextAttemptAt = next := by
  rcases hs with ⟨o, hoc, hnext⟩
  have hmem := List.mem_of_getElem? hc.present
  obtain ⟨a, hlast, hrow⟩ := last_attempt hl ho hj hmem hoc hid hcount
  have hretry : a.willRetry = true := by
    rw [hrow.willRetry, o.call.outcome_legal.scheduled, hnext]
    rfl
  obtain ⟨rows, hrows⟩ := List.getLast?_eq_some_iff.mp hlast
  have hcoherent : Coherent w.tables j := hl.coherent j hj
  have hfilter : ((w.tables.attemptsOf j.id).filter (·.willRetry)).getLast? = some a := by
    rw [hrows, List.filter_append]
    simp [hretry]
  have hcol := hcoherent.scheduled hfilter
  exact Option.some.inj (hcol.trans (hrow.nextAttemptAt.trans hnext))

/-- What the claims of a job say about a row that is claimed again. -/
structure Predecessor (w : World) (j : DeliveryJob) (now : Time) (c : Claim) : Prop where
  counted : c.outcomes ≠ [] → c.attempt ≤ j.attemptCount
  waited : ∀ next, c.Scheduled next → next ≤ max w.clock now

/-- Whoever claims a due row finds the earlier outcomes counted and the earlier retries over. -/
theorem SpacingInv.predecessor {now : Time} {stale : ℤ} (hi : SpacingInv w)
    (hl : LedgerInv w.store) (hle : LeaseInv env w) (ho : OutcomeInv w)
    (hj : j ∈ w.tables.deliveryJobs) (hdue : isDue now stale j = true)
    (hc : w.claims[i]? = some c) (hid : c.job.id = j.id) : Predecessor w j now c := by
  rcases hle.jobs j hj with ⟨-, hno⟩ | ⟨k, d, hd, hdid, hex⟩
  · exact absurd hid (hno c (List.mem_of_getElem? hc))
  · have hjob : d.job.id = c.job.id := hdid.trans hid.symm
    have hik : i ≤ k := hd.newest i c hc hjob.symm
    rcases hik.lt_or_eq with hik | rfl
    · -- the latest claim came after this one
      have hsnap := hl.snapshot (List.mem_map_of_mem (List.mem_of_getElem? hd.present)) hj
        hdid.symm
      constructor
      · exact fun hne => (hi.counted i c k d hc hd.present hik hjob hne).trans hsnap.count
      · exact fun next hs => le_max_of_le_left (hi.waited i c k d hc hd.present hik hjob next hs).1
    · obtain rfl : c = d := eq_of_getElem? hd.present hc
      cases hex with
      | holding hnil =>
        constructor
        · exact fun hne => absurd hnil hne
        · rintro next ⟨o, hoc, -⟩
          rw [hnil] at hoc
          cases hoc
      | @resolved o hout hstatus hby hat hcount =>
        constructor
        · exact fun _ => hcount.ge
        · intro next hs
          rw [← retried_schedule hl ho hj hd hdid hcount hs]
          apply le_max_of_le_right
          -- a row that is due and not locked is due by its schedule
          simp only [isDue, hat, Option.any_none, Bool.and_false, Bool.or_false,
            Bool.and_eq_true, decide_eq_true_eq] at hdue
          exact hdue.2

section Step
variable (hi : SpacingInv w) (hl : LedgerInv w.store) (hle : LeaseInv env w) (ho : OutcomeInv w)
  (htime : w.clock ≤ e.time) (hnow : ∀ now ∈ e.statementTime, now ≤ e.time)
  (h : w.Moves env e w')
include hi hl hle ho htime hnow h

theorem SpacingInv.begun_step : ∀ c ∈ w'.claims, ∀ r ∈ w'.tables.deliveryJobs,
    r.id = c.job.id → w'.Since c r.createdAt := by
  intro c hc r hr hid
  rcases h.row_origin hr with ⟨j, hj, hrid, hcreated⟩ | ⟨hclaims, hno⟩
  · rw [hcreated]
    rw [hrid] at hid
    cases h with
    | phased => exact (hi.begun c hc j hj hid).later htime
    | enqueued => exact (hi.begun c hc j hj hid).later htime
    | @claimed time workerId now skip fate jobs t phase task hp hreply hcl hphase =>
      rcases List.mem_append.mp hc with hc | hc
      · exact (hi.begun c hc j hj hid).later htime
      · obtain ⟨job, hjob, rfl⟩ := List.mem_map.mp hc
        refine ⟨?_, nofun⟩
        change j.createdAt ≤ time
        obtain ⟨j', hj', hdue, ev, -, -, rfl⟩ := hcl.due job hjob
        obtain rfl := Table.eq_of_key_eq hj' hj hid.symm
        rcases hle.jobs j' hj' with ⟨hqueued, hno⟩ | ⟨k, d, hd, hdid, -⟩
        · -- a queued row is due by its schedule, which is its creation
          rw [← unclaimed_schedule hl ho hj' hno]
          simp only [isDue, hqueued, decide_true, Bool.true_and, reduceCtorEq,
            decide_false, Bool.false_and, Bool.or_false, decide_eq_true_eq] at hdue
          exact hdue.trans (hnow now rfl)
        · have hmem := List.mem_of_getElem? hd.present
          exact (hi.begun d hmem j' hj' hdid.symm).1.trans htime
    | moved hm h =>
      rcases List.mem_or_eq_of_mem_set hc with hc | rfl
      · exact (hi.begun c hc j hj hid).later htime
      · refine World.Since.moved ?_ h htime rfl
        rw [h.claim_same.job] at hid
        exact hi.begun _ (List.mem_of_getElem? hm) j hj hid
  · rw [hclaims] at hc
    obtain ⟨k, hk, hs⟩ := hl.snapshots c.job (List.mem_map_of_mem hc)
    exact absurd (hs.id.trans hid.symm) (hno k hk)

theorem SpacingInv.step : SpacingInv w' := by
  refine ⟨?_, ?_, hi.begun_step hl hle ho htime hnow h⟩
  · intro i c k d hc hd hik hid hne
    cases h with
    | phased => exact hi.counted i c k d hc hd hik hid hne
    | enqueued => exact hi.counted i c k d hc hd hik hid hne
    | claimed hp hreply hcl hphase =>
      rcases claims_cases hc with hc | ⟨n, job, rfl, hjob, rfl⟩
      · rcases claims_cases hd with hd | ⟨m, job', rfl, hjob', rfl⟩
        · exact hi.counted i c k d hc hd hik hid hne
        · obtain ⟨j, hj, hdue, ev, -, -, rfl⟩ := hcl.due job' (List.mem_of_getElem? hjob')
          exact (hi.predecessor hl hle ho hj hdue hc hid.symm).counted hne
      · exact absurd rfl hne
    | moved hm h =>
      obtain ⟨c₀, hc₀, hsc, hcase⟩ := moved_cases hm h.claim_same hc
      obtain ⟨d₀, hd₀, hsd, -⟩ := moved_cases hm h.claim_same hd
      rw [hsd.job, hsc.job] at hid
      rw [hsd.job, Claim.attempt, hsc.job]
      refine hi.counted i c₀ k d₀ hc₀ hd₀ hik hid ?_
      rcases hcase with ⟨rfl, rfl, rfl⟩ | ⟨-, rfl⟩
      · rcases hle.outcomes_moved hm h.effect with hout | ⟨hlatest, -⟩
        · rwa [hout] at hne
        · have := hlatest.newest k d₀ hd₀ hid
          omega
      · exact hne
  · intro i c k d hc hd hik hid next hs
    cases h with
    | phased => exact (hi.waited i c k d hc hd hik hid next hs).later htime
    | enqueued => exact (hi.waited i c k d hc hd hik hid next hs).later htime
    | @claimed time workerId now skip fate jobs t phase task hp hreply hcl hphase =>
      rcases claims_cases hc with hc | ⟨n, job, rfl, hjob, rfl⟩
      · rcases claims_cases hd with hd | ⟨m, job', rfl, hjob', rfl⟩
        · exact (hi.waited i c k d hc hd hik hid next hs).later htime
        · obtain ⟨j, hj, hdue, ev, -, -, rfl⟩ := hcl.due job' (List.mem_of_getElem? hjob')
          have hwait := (hi.predecessor hl hle ho hj hdue hc hid.symm).waited next hs
          refine ⟨hwait.trans (max_le htime (hnow now rfl)), ?_⟩
          rintro _ ⟨⟩
      · rcases hs with ⟨o, hoc, -⟩
        cases hoc
    | moved hm h =>
      obtain ⟨c₀, hc₀, hsc, hcase⟩ := moved_cases hm h.claim_same hc
      obtain ⟨d₀, hd₀, hsd, hdcase⟩ := moved_cases hm h.claim_same hd
      rw [hsd.job, hsc.job] at hid
      have hs₀ : c₀.Scheduled next := by
        rcases hcase with ⟨rfl, rfl, rfl⟩ | ⟨-, rfl⟩
        · rcases hle.outcomes_moved hm h.effect with hout | ⟨hlatest, -⟩
          · rwa [Claim.Scheduled, hout] at hs
          · have := hlatest.newest k d₀ hd₀ hid
            omega
        · exact hs
      have hsince := hi.waited i c₀ k d₀ hc₀ hd₀ hik hid next hs₀
      rcases hdcase with ⟨rfl, rfl, rfl⟩ | ⟨-, rfl⟩
      · exact hsince.moved h htime rfl
      · exact hsince.later htime

end Step

theorem spacingInv_of_reachable (h : (fleet env).Reachable clocked w) : SpacingInv w := by
  apply h.invariant
  · constructor <;> simp [fleet, World.initial, Tables.empty]
  · intro s e s' hs hi hstep hg
    exact hi.step (ledgerInv_of_fleet hs) (leaseInv_of_reachable hs) (outcomeInv_of_reachable hs)
      hg.1 hg.2 (World.step_moves hstep)

def retriesOf (t : Tables) (id : Uuid) : List DeliveryAttempt :=
  (t.attemptsOf id).filter (·.willRetry)

/-- The row is the outcome of a claim that `record_failure` decided at the clock reading `n`. -/
def World.DecidedAt (w : World) (a : DeliveryAttempt) (n : Time) : Prop :=
  ∃ c ∈ w.claims, ∃ o ∈ c.outcomes, RowOf c o a ∧ c.decidedAt = some n

theorem RowOf.scheduled {o : Committed} (h : RowOf c o a) (hoc : o ∈ c.outcomes)
    (hnext : a.nextAttemptAt = some next) : c.Scheduled next :=
  ⟨o, hoc, h.nextAttemptAt.symm.trans hnext⟩

theorem RowOf.retry {o : Committed} (h : RowOf c o a) (hretry : a.willRetry = true) :
    ∃ next, a.nextAttemptAt = some next := by
  rw [h.nextAttemptAt]
  exact Option.isSome_iff_exists.mp
    (o.call.outcome_legal.scheduled.mp (h.willRetry.symm.trans hretry))

theorem RowOf.count {o : Committed} (h : RowOf c o a) (hl : LedgerInv w.store)
    (hc : c ∈ w.claims) : c.attempt = c.job.attemptCount + 1 := by
  obtain ⟨j, hj, hs⟩ := hl.snapshots c.job (List.mem_map_of_mem hc)
  have hpos := a.number_pos
  rw [h.number, Claim.attempt,
    wrapI32_succ_pos_iff hs.nonneg (hs.count.trans (hl.bounded j hj))] at hpos
  exact wrapI32_succ hs.nonneg hpos

section Retries
variable (h : (fleet env).Reachable clocked w)
include h

theorem exists_decidedAt (ha : a ∈ w.tables.deliveryAttempts) (hretry : a.willRetry = true) :
    ∃ n, w.DecidedAt a n := by
  obtain ⟨c, hc, o, hoc, hrow⟩ := (outcomeInv_of_reachable h).rows a ha
  obtain ⟨next, hnext⟩ := hrow.retry hretry
  obtain ⟨n, hn, -⟩ := (drawn_of_reachable h c hc).schedule (hrow.scheduled hoc hnext)
  exact ⟨n, c, hc, o, hoc, hrow, hn⟩

theorem World.DecidedAt.schedule (hd : w.DecidedAt a n) (hretry : a.willRetry = true)
    (hj : j ∈ w.tables.deliveryJobs) (hid : a.jobId = j.id) :
    ∃ next, a.nextAttemptAt = some next ∧ n < j.deadlineAt ∧ n < next ∧ next ≤ j.deadlineAt ∧
      next ≤ n + seconds maxRetryDelaySecs ∧ (next < j.deadlineAt →
        4 * seconds (baseRetryDelaySecs a.attemptNumber) ≤ 5 * (next - n)) := by
  rcases hd with ⟨c, hc, o, hoc, hrow, hn⟩
  obtain ⟨next, hnext⟩ := hrow.retry hretry
  obtain ⟨n', hn', hs⟩ := (drawn_of_reachable h c hc).schedule (hrow.scheduled hoc hnext)
  rw [hn, Option.some.injEq] at hn'
  subst hn'
  rw [((ledgerInv_of_fleet h).snapshot (List.mem_map_of_mem hc) hj
    (hid.symm.trans hrow.jobId)).deadlineAt, hrow.number]
  exact ⟨next, hnext, hs⟩

theorem World.DecidedAt.created (hd : w.DecidedAt a n) (hj : j ∈ w.tables.deliveryJobs)
    (hid : a.jobId = j.id) : j.createdAt ≤ n := by
  rcases hd with ⟨c, hc, o, hoc, hrow, hn⟩
  exact ((spacingInv_of_reachable h).begun c hc j hj (hid.symm.trans hrow.jobId)).2 n hn

/-- The next attempt is decided after the schedule of the retry before it. -/
theorem World.DecidedAt.waited (ha : w.DecidedAt a n) (hb : w.DecidedAt b m)
    (hid : b.jobId = a.jobId) (hnum : b.attemptNumber = a.attemptNumber + 1)
    (hnext : a.nextAttemptAt = some next) : next ≤ m := by
  rcases ha with ⟨c, hc, o, hoc, hrow, -⟩
  rcases hb with ⟨d, hd, p, hpd, hrow', hm⟩
  have hl := ledgerInv_of_fleet h
  have hs := spacingInv_of_reachable h
  have hjob : d.job.id = c.job.id := by
    rw [← hrow.jobId, ← hrow'.jobId, hid]
  have hcount := hrow.count hl hc
  have hcount' := hrow'.count hl hd
  rw [hrow.number, hrow'.number] at hnum
  obtain ⟨i, hi⟩ := List.mem_iff_getElem?.mp hc
  obtain ⟨k, hk⟩ := List.mem_iff_getElem?.mp hd
  -- the claim with the higher number comes later
  have hik : i < k := by
    rcases lt_trichotomy i k with hik | rfl | hki
    · exact hik
    · rw [hi, Option.some.injEq] at hk
      subst hk
      omega
    · have := hs.counted k d i c hk hi hki hjob.symm (List.ne_nil_of_mem hpd)
      omega
  exact (hs.waited i c k d hi hk hik hjob next (hrow.scheduled hoc hnext)).2 m hm

/-- Two retries in a row are decided at least four fifths of the base delay apart. -/
theorem World.DecidedAt.spaced (ha : w.DecidedAt a n) (hb : w.DecidedAt b m)
    (hretry : a.willRetry = true) (hretry' : b.willRetry = true)
    (hj : j ∈ w.tables.deliveryJobs) (hida : a.jobId = j.id) (hidb : b.jobId = j.id)
    (hnum : b.attemptNumber = a.attemptNumber + 1) :
    4 * seconds (baseRetryDelaySecs a.attemptNumber) ≤ 5 * (m - n) := by
  obtain ⟨next, hnext, -, -, -, -, hdelay⟩ := ha.schedule h hretry hj hida
  obtain ⟨-, -, hopen, -⟩ := hb.schedule h hretry' hj hidb
  have hwait := ha.waited h hb (hidb.trans hida.symm) hnum hnext
  have := hdelay (hwait.trans_lt hopen)
  linarith

/-- The delays between the creation of a job and the decision of a retry. -/
theorem delays_add_up (hj : j ∈ w.tables.deliveryJobs) {k : ℕ}
    (ha : a ∈ w.tables.attemptsOf j.id) (hretry : a.willRetry = true)
    (hnum : a.attemptNumber = k + 1) (hd : w.DecidedAt a n) :
    4 * seconds (∑ i ∈ Finset.Icc 1 k, baseRetryDelaySecs i : ℕ) ≤ 5 * (n - j.createdAt) := by
  have hid := (mem_attemptsOf.mp ha).2
  induction k generalizing a n with
  | zero =>
    have := hd.created h hj hid
    simp only [Finset.Icc_eq_empty_of_lt Nat.zero_lt_one, Finset.sum_empty, seconds]
    push_cast
    linarith
  | succ k ih =>
    have hcoh := (ledgerInv_of_fleet h).coherent j hj
    have hle := hcoh.number_le ha
    obtain ⟨b, hb, hkey⟩ := hcoh.exists_number (n := (k + 1 : ℕ)) (by omega) (by omega)
    rw [DeliveryAttempt.key, Prod.mk.injEq] at hkey
    have hbm := mem_attemptsOf.mpr ⟨hb, hkey.1⟩
    have hretry' := hcoh.earlier b hbm (by omega)
    obtain ⟨m, hm⟩ := exists_decidedAt h hb hretry'
    have hrest := ih hbm hretry' (by rw [hkey.2]; push_cast; rfl) hm hkey.1
    have hgap := hm.spaced h hd hretry' hretry hj hkey.1 hid (by rw [hnum, hkey.2])
    rw [Finset.sum_Icc_succ_top (by omega)]
    rw [hkey.2] at hgap
    simp only [seconds] at hrest hgap ⊢
    push_cast at hrest hgap ⊢
    linarith

end Retries

/-- Only the last row of a job may announce no retry, and the retries are numbered from one. -/
theorem retries_count (hc : Coherent t j) :
    (t.attemptsOf j.id).length ≤ (retriesOf t j.id).length + 1 ∧
      (0 < (retriesOf t j.id).length → ∃ a ∈ t.attemptsOf j.id,
        a.willRetry = true ∧ a.attemptNumber = (retriesOf t j.id).length) := by
  have hlen : (t.attemptsOf j.id).length = j.attemptCount.toNat := by
    simpa using congrArg List.length hc.numbers
  have hle : (retriesOf t j.id).length ≤ (t.attemptsOf j.id).length := List.length_filter_le _ _
  constructor
  · rcases List.eq_nil_or_concat' (t.attemptsOf j.id) with hnil | ⟨rows, a, hrows⟩
    · rw [hnil]
      exact Nat.zero_le _
    · -- the numbers of the earlier rows are below the count
      have hnum := hc.numbers
      rw [hrows, ← hlen, hrows, List.length_append, List.length_singleton, List.range_succ,
        List.map_append, List.map_append] at hnum
      have hinit := (List.append_inj hnum (by simp)).1
      have hretry : ∀ b ∈ rows, b.willRetry = true := by
        intro b hb
        refine hc.earlier b (by rw [hrows]; exact List.mem_append_left _ hb) ?_
        have hn := List.mem_map_of_mem (f := (·.attemptNumber)) hb
        rw [hinit, List.mem_map] at hn
        obtain ⟨k, hk, hn⟩ := hn
        have hk := List.mem_range.mp hk
        rw [hrows, List.length_append, List.length_singleton] at hlen
        omega
      rw [retriesOf, hrows, List.filter_append, List.filter_eq_self.mpr hretry]
      simp
  · intro hpos
    have hcount := j.count_nonneg
    obtain ⟨a, ha, hkey⟩ := hc.exists_number (n := (retriesOf t j.id).length) (by omega) (by omega)
    rw [DeliveryAttempt.key, Prod.mk.injEq] at hkey
    have hmem := mem_attemptsOf.mpr ⟨ha, hkey.1⟩
    refine ⟨a, hmem, ?_, hkey.2⟩
    rcases hle.lt_or_eq with hlt | heq
    · exact hc.earlier a hmem (by omega)
    · exact List.length_filter_eq_length_iff.mp heq a hmem

theorem delays_at_least (k : ℕ) :
    3600 * k ≤ ∑ i ∈ Finset.Icc 1 k, baseRetryDelaySecs i + 5 * 3600 := by
  induction k with
  | zero => simp
  | succ k ih =>
    rw [Finset.sum_Icc_succ_top (by omega)]
    by_cases hk : k < 5
    · omega
    · have hbase : baseRetryDelaySecs ((k + 1 : ℕ) : ℤ) = 3600 := by
        simp only [baseRetryDelaySecs]
        split_ifs <;> first | omega | rfl
      omega

section Bound
variable (h : (fleet env).Reachable clocked w) (hj : j ∈ w.tables.deliveryJobs)
include h hj

/-- The least delays between the retries of a job fit into its window. -/
theorem delays_in_window (hpos : 0 < (retriesOf w.tables j.id).length) :
    4 * seconds (∑ i ∈ Finset.Icc 1 ((retriesOf w.tables j.id).length - 1),
      baseRetryDelaySecs i : ℕ) < 5 * (j.deadlineAt - j.createdAt) := by
  have hc : Coherent w.tables j := (ledgerInv_of_fleet h).coherent j hj
  obtain ⟨a, ha, hretry, hnum⟩ := (retries_count hc).2 hpos
  obtain ⟨ha', hid⟩ := mem_attemptsOf.mp ha
  obtain ⟨n, hn⟩ := exists_decidedAt h ha' hretry
  obtain ⟨-, -, hopen, -⟩ := hn.schedule h hretry hj hid
  have hsum := delays_add_up h hj ha hretry (k := (retriesOf w.tables j.id).length - 1)
    (by rw [hnum]; omega) hn
  linarith

/-- The attempt count stays below the machine range. -/
theorem count_bounded
    (hwindow : j.deadlineAt - j.createdAt < seconds (2 ^ 30 * 2880)) :
    j.attemptCount + 1 ≤ i32Max := by
  have hc : Coherent w.tables j := (ledgerInv_of_fleet h).coherent j hj
  have hlen : (w.tables.attemptsOf j.id).length = j.attemptCount.toNat := by
    simpa using congrArg List.length hc.numbers
  have hrows := (retries_count hc).1
  have hfew : (retriesOf w.tables j.id).length ≤ 2 ^ 30 + 5 := by
    by_contra hmany
    have hsum := delays_in_window h hj (by omega)
    have hleast := delays_at_least ((retriesOf w.tables j.id).length - 1)
    simp only [seconds] at hsum hwindow
    have hleast' : (3600 : ℤ) * ((retriesOf w.tables j.id).length - 1 : ℕ) ≤
        (∑ i ∈ Finset.Icc 1 ((retriesOf w.tables j.id).length - 1), baseRetryDelaySecs i : ℕ) +
          5 * 3600 := by
      exact_mod_cast hleast
    have hmany' : (2 : ℤ) ^ 30 + 5 ≤ ((retriesOf w.tables j.id).length - 1 : ℕ) := by
      exact_mod_cast Nat.le_sub_one_of_lt (not_le.mp hmany)
    norm_num at hmany' hwindow
    linarith
  unfold i32Max
  omega

end Bound

/-- Under one non-decreasing clock, every retry is scheduled after its decision, within the hour
and by the deadline; two retries in a row are decided four fifths of the base delay apart, and
after a retry that waits for the deadline there is none; the delays fit into the retry window, so
that the attempts are bounded and their count never overflows. -/
theorem retries_back_off (env : Env) {w : World} (h : (fleet env).Reachable clocked w) :
    ∀ j ∈ w.tables.deliveryJobs,
      (∀ a ∈ retriesOf w.tables j.id, (∃ n, w.DecidedAt a n) ∧ ∀ n, w.DecidedAt a n →
        ∃ next, a.nextAttemptAt = some next ∧ n < next ∧ next ≤ j.deadlineAt ∧
          next ≤ n + seconds 3600) ∧
      (∀ a ∈ retriesOf w.tables j.id, ∀ b ∈ retriesOf w.tables j.id,
        b.attemptNumber = a.attemptNumber + 1 → ∀ n m, w.DecidedAt a n → w.DecidedAt b m →
          4 * seconds (baseRetryDelaySecs a.attemptNumber) ≤ 5 * (m - n)) ∧
      (∀ a ∈ retriesOf w.tables j.id, a.nextAttemptAt = some j.deadlineAt →
        ∀ b ∈ retriesOf w.tables j.id, b.attemptNumber ≠ a.attemptNumber + 1) ∧
      (0 < (retriesOf w.tables j.id).length ∨ 0 < j.deadlineAt - j.createdAt →
        4 * seconds (∑ i ∈ Finset.Icc 1 ((retriesOf w.tables j.id).length - 1),
          baseRetryDelaySecs i : ℕ) < 5 * (j.deadlineAt - j.createdAt)) ∧
      (w.tables.attemptsOf j.id).length ≤ (retriesOf w.tables j.id).length + 1 ∧
      (0 < j.deadlineAt - j.createdAt → j.deadlineAt - j.createdAt < seconds (2 ^ 30 * 2880) →
        j.attemptCount + 1 ≤ i32Max ∧
          ∀ c ∈ w.claims, c.job.id = j.id → c.job.attemptCount + 1 ≤ i32Max) := by
  intro j hj
  have hl := ledgerInv_of_fleet h
  have hmem : ∀ {a}, a ∈ retriesOf w.tables j.id ↔
      (a ∈ w.tables.deliveryAttempts ∧ a.jobId = j.id) ∧ a.willRetry = true := by
    intro a
    rw [retriesOf, List.mem_filter, mem_attemptsOf]
  refine ⟨fun a ha => ?_, fun a ha b hb hnum n m hn hm => ?_, fun a ha hlate b hb hnum => ?_, ?_,
    (retries_count (hl.coherent j hj)).1, fun _ hwindow => ?_⟩
  · obtain ⟨⟨ha, hid⟩, hretry⟩ := hmem.mp ha
    refine ⟨exists_decidedAt h ha hretry, fun n hn => ?_⟩
    obtain ⟨next, hnext, -, hlater, hclamp, hcap, -⟩ := hn.schedule h hretry hj hid
    exact ⟨next, hnext, hlater, hclamp, hcap⟩
  · obtain ⟨⟨ha, hida⟩, hretry⟩ := hmem.mp ha
    obtain ⟨⟨hb, hidb⟩, hretry'⟩ := hmem.mp hb
    exact hn.spaced h hm hretry hretry' hj hida hidb hnum
  · obtain ⟨⟨ha, hida⟩, hretry⟩ := hmem.mp ha
    obtain ⟨⟨hb, hidb⟩, hretry'⟩ := hmem.mp hb
    obtain ⟨n, hn⟩ := exists_decidedAt h ha hretry
    obtain ⟨m, hm⟩ := exists_decidedAt h hb hretry'
    -- the next retry would be decided before the deadline that it waited for
    obtain ⟨-, -, hopen, -⟩ := hm.schedule h hretry' hj hidb
    exact absurd (hn.waited h hm (hidb.trans hida.symm) hnum hlate) (not_le.mpr hopen)
  · intro hor
    by_cases hpos : 0 < (retriesOf w.tables j.id).length
    · exact delays_in_window h hj hpos
    · have hwindow := hor.resolve_left hpos
      rw [Nat.eq_zero_of_not_pos hpos]
      simp only [Finset.Icc_eq_empty_of_lt Nat.zero_lt_one, Finset.sum_empty, seconds]
      push_cast
      linarith
  · have hcount := count_bounded h hj hwindow
    refine ⟨hcount, fun c hc hid => ?_⟩
    have := (hl.snapshot (List.mem_map_of_mem hc) hj hid.symm).count
    omega

def failedTwice : List Event :=
  takenOver ++ [⟨seconds 303, .join "b"⟩, ⟨seconds 317, .claim "b" (seconds 317) [] .answered⟩] ++
  attemptSteps 2 318 (.ok 503) ++ [⟨seconds 318, .task 2 (.record .answered)⟩]

theorem retries_back_off_twice : ∃ w, (fleet sampleEnv).Reachable clocked w ∧
    w.tables.deliveryJobs.rows.map (fun j => (retriesOf w.tables j.id).map (·.attemptNumber)) =
      [[1, 2]] ∧
    ∀ j ∈ w.tables.deliveryJobs, ∀ a ∈ retriesOf w.tables j.id, ∀ b ∈ retriesOf w.tables j.id,
      b.attemptNumber = a.attemptNumber + 1 → ∀ n m, w.DecidedAt a n → w.DecidedAt b m →
        4 * seconds (baseRetryDelaySecs a.attemptNumber) ≤ 5 * (m - n) := by
  obtain ⟨w, hw, hp⟩ := System.exists_reachable_of_run (fleet sampleEnv) clocked failedTwice
    (fun w => w.tables.deliveryJobs.rows.map
      (fun j => (retriesOf w.tables j.id).map (·.attemptNumber)) = [[1, 2]]) (by decide)
  exact ⟨w, hw, of_decide_eq_true hp, fun j hj => (retries_back_off sampleEnv hw j hj).2.1⟩

end ResendRouter.Delivery
