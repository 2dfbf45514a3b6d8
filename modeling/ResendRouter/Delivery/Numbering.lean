import ResendRouter.Delivery.Requests
import ResendRouter.Signatures.Outbound

/-! # What the attempt number of a request counts

A request is numbered before anybody knows what will be recorded. Its number is
one more than the number of earlier claims of the job that recorded an outcome,
so a repeated number means that nothing was recorded in between.
-/

namespace ResendRouter.Delivery
open Foundation Program Database Signatures

variable {env : Env} {time : Time} {t t' : Tables} {c c' d : Claim} {w w' : World} {e : Event}
  {i k : ℕ} {id : Uuid}

def Claim.recordedFor (id : Uuid) (c : Claim) : Bool := c.job.id = id && ! c.outcomes.isEmpty

/-- The number of claims of a job that recorded an outcome. -/
def recorded (id : Uuid) (claims : List Claim) : ℕ := claims.countP (·.recordedFor id)

theorem Claim.recordedFor_of_empty (h : c.outcomes = []) : c.recordedFor id = false := by
  simp [Claim.recordedFor, h]

theorem Claim.recordedFor_congr (hs : c.Same c') (ho : c'.outcomes = c.outcomes) :
    c'.recordedFor id = c.recordedFor id := by
  rw [Claim.recordedFor, Claim.recordedFor, hs.job, ho]

theorem recorded_append_claimed {workerId : String} {now : Time} {task : Task}
    (claims : List Claim) (jobs : List ClaimedJob) :
    recorded id (claims ++ jobs.map (newClaim workerId now task)) = recorded id claims := by
  have hnone : (jobs.map (newClaim workerId now task)).countP (·.recordedFor id) = 0 := by
    rw [List.countP_eq_zero]
    intro c hc
    obtain ⟨job, -, rfl⟩ := List.mem_map.mp hc
    exact Bool.eq_false_iff.mp (Claim.recordedFor_of_empty rfl)
  rw [recorded, List.countP_append, hnone, Nat.add_zero, recorded]

theorem recorded_eq_zero {claims : List Claim} (h : ∀ c ∈ claims, c.job.id ≠ id) :
    recorded id claims = 0 := by
  rw [recorded, List.countP_eq_zero]
  intro c hc
  simp [Claim.recordedFor, h c hc]

structure NumberInv (w : World) : Prop where
  rows : ∀ j ∈ w.tables.deliveryJobs, j.attemptCount = recorded j.id w.claims
  /-- A snapshot counts what was recorded before its claim. -/
  snapshots : ∀ (k : ℕ) (c : Claim), w.claims[k]? = some c →
    c.job.attemptCount = recorded c.job.id (w.claims.take k)

theorem NumberInv.enqueued {q : Enqueue} {r : WebhookEvent} {deadlineAt : Time}
    {js : List DeliveryJob} {ingested : List Enqueue} (hi : NumberInv w)
    (hl : LedgerInv w.store) (h : Enqueued q w.tables t r deadlineAt js) :
    NumberInv { w with tables := t, clock := time, ingested := ingested } := by
  refine ⟨fun j hj => ?_, hi.snapshots⟩
  rcases h.mem_jobs.mp hj with hj | hj
  · exact hi.rows j hj
  · obtain ⟨d, -, hf⟩ := h.queued j hj
    -- a claimed job is in the table, and a new job is not
    have hno : ∀ c ∈ w.claims, c.job.id ≠ j.id := by
      intro c hc hid
      obtain ⟨k, hk, hs⟩ := hl.snapshots c.job (List.mem_map_of_mem hc)
      exact h.id_ne hk hj (hs.id.trans hid)
    rw [hf.attemptCount, recorded_eq_zero hno]
    rfl

theorem NumberInv.claimed {workerId : String} {now : Time} {stale : ℤ} {jobs : List ClaimedJob}
    {task : Task} {phase : String → Phase} (hi : NumberInv w)
    (h : Claimed w.tables t jobs workerId stale now) :
    NumberInv ⟨t, time, phase, w.claims ++ jobs.map (newClaim workerId now task),
      w.ingested⟩ := by
  constructor
  case rows =>
    intro r hr
    rw [recorded_append_claimed]
    obtain ⟨j, hj, ⟨-, rfl⟩ | ⟨-, rfl⟩⟩ := (h.rows r).mp hr
    · exact hi.rows j hj
    · exact hi.rows r hj
  case snapshots =>
    intro k c hc
    rcases claims_cases hc with hc | ⟨n, job, rfl, hjob, rfl⟩
    · rw [List.take_append_of_le_length (lt_length_of_getElem? hc).le]
      exact hi.snapshots k c hc
    · obtain ⟨j, hj, -, e, -, -, rfl⟩ := h.due job (List.mem_of_getElem? hjob)
      rw [List.take_length_add_append, ← List.map_take, recorded_append_claimed]
      exact hi.rows j hj

section Moved

theorem NumberInv.quiet (hi : NumberInv w) (hc : w.claims[i]? = some c) (hs : c.Same c')
    (ho : c'.outcomes = c.outcomes)
    (hrows : ∀ r ∈ t.deliveryJobs, ∃ j ∈ w.tables.deliveryJobs,
      r.id = j.id ∧ r.attemptCount = j.attemptCount) :
    NumberInv { w with tables := t, clock := time, claims := w.claims.set i c' } := by
  constructor
  case rows =>
    intro r hr
    obtain ⟨j, hj, hid, hcount⟩ := hrows r hr
    rw [hid, hcount, hi.rows j hj]
    exact congrArg _ (countP_set_of_eq hc (Claim.recordedFor_congr hs ho)).symm
  case snapshots =>
    intro k d hd
    obtain ⟨b, hb, hsame, -⟩ := moved_cases hc hs hd
    rw [hsame.job, hi.snapshots k b hb]
    exact congrArg _ (countP_take_set_of_eq hc (Claim.recordedFor_congr hs ho)).symm

/-- An outcome raises the count of its job by one, and no later snapshot of the job exists. -/
theorem NumberInv.recorded {call : RecordCall} {now : Time} {a : DeliveryAttempt}
    (hi : NumberInv w) (hv : LeaseInv env w) (hl : LedgerInv w.store)
    (hc : w.claims[i]? = some c) (hs : c.Same c') (hlive : c.task.isEnded = false)
    (h : Recorded (RecordCall.outcome call) w.tables t c.job call.durationMs now a)
    (ho : c'.outcomes = c.outcomes ++ [⟨call, now⟩]) :
    NumberInv { w with tables := t, clock := time, claims := w.claims.set i c' } := by
  obtain ⟨k, hk, hkl⟩ := h.held
  obtain ⟨hlatest, hnone⟩ := hv.fence hc hlive hk hkl
  have hkid : k.id = c.job.id := (lockedRow_iff.mp hkl).1
  have hother : ∀ {id}, id ≠ c.job.id → c'.recordedFor id = c.recordedFor id := by
    intro id hid
    simp [Claim.recordedFor, hs.job, Ne.symm hid]
  have hgain : Delivery.recorded c.job.id (w.claims.set i c') =
      Delivery.recorded c.job.id w.claims + 1 := by
    apply countP_set_succ hc (Claim.recordedFor_of_empty hnone)
    simp [Claim.recordedFor, hs.job, ho]
  constructor
  case rows =>
    intro r hr
    obtain ⟨j, hj, rfl⟩ := (h.jobs r).mp hr
    by_cases hid : j.id = c.job.id
    · obtain rfl := Table.eq_of_key_eq hj hk (hid.trans hkid.symm)
      have hsnap := hl.snapshot (List.mem_map_of_mem (List.mem_of_getElem? hc)) hj hid
      have hnumber := (h.number (hl.coherent j hj) hid (hl.bounded j hj) hsnap.nonneg
        hsnap.count).2
      rw [if_pos hkl, Outcome.row_id, hid]
      change a.attemptNumber = ((Delivery.recorded c.job.id (w.claims.set i c') : ℕ) : ℤ)
      rw [hgain, hnumber, hi.rows j hj, hid]
      rfl
    · rw [if_neg fun hjl => hid (lockedRow_iff.mp hjl).1, hi.rows j hj]
      exact congrArg _ (countP_set_of_eq hc (hother hid)).symm
  case snapshots =>
    intro m d hd
    obtain ⟨b, hb, hsame, hcase⟩ := moved_cases hc hs hd
    rw [hsame.job, hi.snapshots m b hb]
    refine congrArg _ ?_
    change _ = Delivery.recorded b.job.id ((w.claims.set i c').take m)
    by_cases hid : b.job.id = c.job.id
    · -- the claim that records is the latest one of its job
      have hmi : m ≤ i := hlatest.newest m b hb hid
      rw [List.take_set_of_le hmi]
    · exact (countP_take_set_of_eq hc (hother hid)).symm

end Moved

theorem NumberInv.step (hi : NumberInv w) (hv : LeaseInv env w) (hl : LedgerInv w.store)
    (h : w.Moves env e w') : NumberInv w' := by
  cases h with
  | phased => exact ⟨hi.rows, hi.snapshots⟩
  | enqueued ht h => exact hi.enqueued hl h
  | claimed hp hr h hphase => exact hi.claimed h
  | moved hc h =>
    have hs := h.claim_same
    cases h.effect with
    | quiet ht ho =>
      subst ht
      exact hi.quiet hc hs ho fun r hr => ⟨r, hr, rfl, rfl⟩
    | refreshed hlive held hr ho =>
      refine hi.quiet hc hs ho fun r hr' => ?_
      obtain ⟨j, hj, rfl⟩ := (hr.rows r).mp hr'
      exact ⟨j, hj, by split <;> rfl, by split <;> rfl⟩
    | recorded hlive hr ho ended => exact hi.recorded hv hl hc hs hlive hr ho

theorem numberInv_of_reachable {G : System.Guard World Event} (h : (fleet env).Reachable G w) :
    NumberInv w := by
  apply h.invariant
  · constructor <;> simp [fleet, World.initial, Tables.empty]
  · intro s e s' hs hi hstep _
    exact hi.step (leaseInv_of_reachable hs) (ledgerInv_of_fleet hs) (World.step_moves hstep)

/-- Attempts are written differently when the counts before them differ, also at the overflow. -/
theorem toString_wrapI32_inj {m n : ℤ} (hm : 0 ≤ m) (hn : 0 ≤ n) (hm' : m ≤ i32Max)
    (hn' : n ≤ i32Max) : toString (wrapI32 (m + 1)) = toString (wrapI32 (n + 1)) ↔ m = n := by
  constructor
  · intro h
    have hw : wrapI32 (m + 1) = wrapI32 (n + 1) := toString_int_inj h
    simp only [wrapI32, i32Max] at *
    omega
  · rintro rfl
    rfl

theorem count_of_claim (hl : LedgerInv w.store) (hc : w.claims[k]? = some c) :
    0 ≤ c.job.attemptCount ∧ c.job.attemptCount ≤ i32Max := by
  obtain ⟨j, hj, hs⟩ := hl.snapshots c.job (List.mem_map_of_mem (List.mem_of_getElem? hc))
  exact ⟨hs.nonneg, hs.count.trans (hl.bounded j hj)⟩

/-- The attempt number of a request is one more than the number of earlier claims of its job that
recorded an outcome; two requests of a job have the same number exactly when no claim from the
one on and before the other recorded any; and `attempt_count` is the number of all claims of the
job that recorded one. -/
theorem attempt_numbers_count_outcomes (env : Env) {w : World}
    (h : (fleet env).Reachable System.free w) :
    (∀ (k : ℕ) (c : Claim) (p : Post), w.claims[k]? = some c → c.post = some p →
      p.request.header "x-resend-router-attempt" =
        some (toString (wrapI32 (recorded c.job.id (w.claims.take k) + 1)))) ∧
    (∀ (i k : ℕ) (c d : Claim) (p q : Post), i ≤ k → w.claims[i]? = some c →
      w.claims[k]? = some d → d.job.id = c.job.id → c.post = some p → d.post = some q →
      (q.request.header "x-resend-router-attempt" = p.request.header "x-resend-router-attempt" ↔
        ∀ (m : ℕ) (b : Claim), i ≤ m → m < k → w.claims[m]? = some b → b.job.id = c.job.id →
          b.outcomes = [])) ∧
    ∀ j ∈ w.tables.deliveryJobs, j.attemptCount = recorded j.id w.claims := by
  have hi := numberInv_of_reachable h
  have hl := ledgerInv_of_fleet h
  have hheader : ∀ (k : ℕ) (c : Claim) (p : Post), w.claims[k]? = some c → c.post = some p →
      p.request.header "x-resend-router-attempt" = some (toString c.attempt) := by
    intro k c p hc hp
    obtain ⟨url, now, hreq⟩ :=
      (requestInv_of_reachable h).requests c (List.mem_of_getElem? hc) p hp
    rw [hreq]
    exact (deliver_headers env.hmacSha256 (env.config c.worker) c.job c.attempt url now).2.2.2.1
  refine ⟨fun k c p hc hp => ?_, fun i k c d p q hik hc hd hid hp hq => ?_, hi.rows⟩
  · rw [hheader k c p hc hp, Claim.attempt, hi.snapshots k c hc]
  · obtain ⟨hc0, hc1⟩ := count_of_claim hl hc
    obtain ⟨hd0, hd1⟩ := count_of_claim hl hd
    rw [hheader k d q hd hq, hheader i c p hc hp, Option.some.injEq, Claim.attempt, Claim.attempt,
      toString_wrapI32_inj hd0 hc0 hd1 hc1, hi.snapshots k d hd, hi.snapshots i c hc, hid,
      Int.natCast_inj, eq_comm, recorded, recorded, countP_take_eq_iff hik]
    simp only [Claim.recordedFor, Bool.and_eq_false_imp, decide_eq_true_eq,
      List.isEmpty_iff, Bool.not_eq_eq_eq_not, Bool.not_false]

theorem attempt_numbers_count_outcomes_delivered : ∃ w,
    (fleet sampleEnv).Reachable System.free w ∧
    (w.claims.map fun c => (c.post.isSome, recorded c.job.id w.claims)) =
      [(false, 2), (true, 2), (true, 2)] ∧
    ∀ (k : ℕ) (c : Claim) (p : Post), w.claims[k]? = some c → c.post = some p →
      p.request.header "x-resend-router-attempt" =
        some (toString (wrapI32 (recorded c.job.id (w.claims.take k) + 1))) := by
  obtain ⟨w, hw, hp⟩ := System.exists_reachable_of_run (fleet sampleEnv) System.free delivered
    (fun w => (w.claims.map fun c => (c.post.isSome, recorded c.job.id w.claims)) =
      [(false, 2), (true, 2), (true, 2)]) (by decide)
  exact ⟨w, hw, of_decide_eq_true hp, (attempt_numbers_count_outcomes sampleEnv hw).1⟩

end ResendRouter.Delivery
