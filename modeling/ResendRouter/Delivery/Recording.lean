import ResendRouter.Delivery.Fencing

/-! # Recording under the lock

Whoever holds the lock of a job finds the next attempt number free, so of the
constraints on an attempt row only two can fail: the milliseconds are cut to 32
bits before they are stored, and a date may be too early for its column.
-/

namespace ResendRouter.Delivery
open Foundation Program Database

variable {env : Env} {c : Claim} {w : World} {i : ℕ} {t : Tables}

/-- What each call answers when its outcome is committed. -/
def Commits (t : Tables) (job : ClaimedJob) (now : Time) : RecordCall → Prop
  | .success code d => (recordSuccess t job code d now).result = .ok true
  | .retry code error d next =>
    (recordRetry t job code error d next now).result = .ok (some (job.attemptCount + 1))
  | .finalFailure code error d =>
    (recordFinalFailure t job code error d now).result = .ok (some (job.attemptCount + 1))

theorem commits_iff {job : ClaimedJob} {now : Time} {call : RecordCall}
    (hnumber : wrapI32 (job.attemptCount + 1) = job.attemptCount + 1) :
    Commits t job now call ↔ (recordOutcome call.outcome t job call.durationMs now).result =
      .ok (some (job.attemptCount + 1)) := by
  cases call with
  | retry => exact Iff.rfl
  | finalFailure => exact Iff.rfl
  | success code d =>
    change (recordSuccess t job code d now).result = _ ↔
      (recordOutcome (successOutcome code) t job d now).result = _
    simp only [recordSuccess, Reply.map]
    rcases recordOutcome_cases (successOutcome code) t job d now with ⟨-, hno⟩ | ⟨a, hr, hrec⟩
    · cases hr : (recordOutcome (successOutcome code) t job d now).result with
      | error e => simp [Except.map]
      | ok n => cases n with
        | none => simp [Except.map]
        | some n => exact absurd hr (hno n)
    · have hn := (newDeliveryAttempt_ok hrec.made).2.1
      simp [hr, Except.map, hn, hnumber]

/-- The row of the job that a claim holds is locked by it, at the claim's own count. -/
theorem LeaseInv.held (hi : LeaseInv env w) (hl : LedgerInv w.store) (hc : w.Holds i c) :
    ∃ j ∈ w.tables.deliveryJobs, lockedRow c.job j = true ∧
      j.attemptCount = c.job.attemptCount := by
  rcases hc with ⟨hlatest, hnone⟩
  have hmem := List.mem_of_getElem? hlatest.present
  obtain ⟨j, hj, hs⟩ := hl.snapshots c.job (List.mem_map_of_mem hmem)
  refine ⟨j, hj, ?_⟩
  rcases hi.jobs j hj with ⟨-, hno⟩ | ⟨k, d, hd, hdid, hex⟩
  · exact absurd hs.id.symm (hno c hmem)
  · obtain ⟨-, rfl⟩ := hlatest.eq hd (hdid.trans hs.id)
    cases hex with
    | holding _ hstatus hby _ hcount =>
      refine ⟨lockedRow_iff.mpr ⟨hs.id, ?_, hstatus⟩, hcount⟩
      rw [hby, hi.token d hmem]
    | resolved hsome =>
      rw [hnone] at hsome
      cases hsome

/-- The holder of a lock commits its outcome exactly when the columns have its dates and the low 32
bits of the duration are those of a non-negative number. -/
theorem holder_records_iff (env : Env) {w : World} {i : ℕ} {c : Claim} (now : Time)
    (call : RecordCall) (millis : ℕ) (h : (fleet env).Reachable System.free w)
    (hc : w.Holds i c) (hcount : c.job.attemptCount < i32Max)
    (htext : optionalTextOk call.outcome.error = true)
    (hd : call.durationMs = elapsedMillis millis) :
    Commits w.tables c.job now call ↔
      (timestampOk now = true ∧ call.outcome.nextAttemptAt.all timestampOk = true) ∧
        elapsedMillis millis % 2 ^ 32 < 2 ^ 31 := by
  have hi := leaseInv_of_reachable h
  have hl := ledgerInv_of_fleet h
  have hmem := List.mem_of_getElem? hc.1.present
  obtain ⟨j, hj, hlocked, hsame⟩ := hi.held hl hc
  have hid := (lockedRow_iff.mp hlocked).1
  have hs := hl.snapshot (List.mem_map_of_mem hmem) hj hid
  have hnumber := wrapI32_succ hs.nonneg hcount
  have hpos : 0 < c.job.attemptCount + 1 := by
    have := hs.nonneg
    omega
  have hfree := (attempt_free_iff hl hmem hj hid).mpr hsame
  rw [commits_iff hnumber, recordOutcome_committed, hnumber, hd]
  have hbits : 0 ≤ wrapI32 (elapsedMillis millis) ↔ elapsedMillis millis % 2 ^ 32 < 2 ^ 31 := by
    unfold wrapI32
    omega
  rw [← hbits]
  constructor
  · exact fun ⟨_, _, hdates, _, hms, _⟩ => ⟨hdates, hms⟩
  · exact fun ⟨hdates, hms⟩ => ⟨rfl, htext, hdates, hpos, hms, hfree, j, hj, hlocked⟩

theorem World.holds_of_single (hone : w.claims.length = 1) (hc : w.claims[0]? = some c)
    (hnone : c.outcomes = []) : w.Holds 0 c := by
  refine ⟨⟨hc, fun k d hd _ => ?_⟩, hnone⟩
  have := lt_length_of_getElem? hd
  omega

theorem holder_records_iff_claimed : ∃ w c, (fleet sampleEnv).Reachable System.free w ∧
    w.Holds 0 c ∧ (Commits w.tables c.job (seconds 1) (.success 200 250) ↔
      (timestampOk (seconds 1) = true ∧ Option.all timestampOk none = true) ∧
        elapsedMillis 250 % 2 ^ 32 < 2 ^ 31) := by
  obtain ⟨w, hw, hp⟩ := System.exists_reachable_of_run (fleet sampleEnv) System.free
    (takenOver.take 2) (fun w => w.claims.length = 1 ∧
      (w.claims[0]?).map (fun c => (c.outcomes.length, c.job.attemptCount)) = some (0, 0))
    (by decide)
  rw [decide_eq_true_eq, Option.map_eq_some_iff] at hp
  rcases hp with ⟨hone, c, hc, hp⟩
  rw [Prod.mk.injEq] at hp
  have hholds := World.holds_of_single hone hc (List.eq_nil_of_length_eq_zero hp.1)
  exact ⟨w, c, hw, hholds, holder_records_iff sampleEnv (seconds 1) (.success 200 250) 250 hw hholds
    (by rw [hp.2]; decide) rfl (by decide)⟩

/-- A success whose response takes 2^31 milliseconds to arrive, up to the commit of its record. -/
def slowResponse : List Event :=
  takenOver.take 2 ++
    ([.checkDeadline, .refresh .answered, .send].map fun event => ⟨seconds 1, .task 0 event⟩) ++
    [.finish (.ok 200), .receive 2147483648, .decide 0, .readClock].map fun event =>
      ⟨seconds 2147485, .task 0 event⟩

/-- The worker holds the lock, and its success breaks the constraint on the duration. -/
theorem holder_cannot_record : ¬ ∀ w, (fleet sampleEnv).Reachable System.free w →
    ∀ i c, w.Holds i c → c.job.attemptCount < i32Max → ∀ now call millis,
      optionalTextOk call.outcome.error = true → call.durationMs = elapsedMillis millis →
        Commits w.tables c.job now call := by
  intro hall
  -- in the state that the run ends in, the record that is about to commit is refused
  obtain ⟨w, hw, hp⟩ := System.exists_reachable_of_run (fleet sampleEnv) System.free slowResponse
    (fun w => w.claims.length = 1 ∧
      (w.claims[0]?).map (fun c => (c.outcomes.length, c.job.attemptCount,
        (recordSuccess w.tables c.job 200 2147483648 (seconds 2147485)).result.toBool)) =
          some (0, 0, false)) (by decide)
  rw [decide_eq_true_eq, Option.map_eq_some_iff] at hp
  rcases hp with ⟨hone, c, hc, hp⟩
  simp only [Prod.mk.injEq] at hp
  rcases hp with ⟨hlen, hcount, hrefused⟩
  have hholds := World.holds_of_single hone hc (List.eq_nil_of_length_eq_zero hlen)
  have hok : (recordSuccess w.tables c.job 200 2147483648 (seconds 2147485)).result = .ok true :=
    hall w hw 0 c hholds (by rw [hcount]; decide) (seconds 2147485) (.success 200 2147483648)
      2147483648 rfl (by decide)
  rw [hok] at hrefused
  cases hrefused

end ResendRouter.Delivery
