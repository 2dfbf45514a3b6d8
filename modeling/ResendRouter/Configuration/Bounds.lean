import ResendRouter.Configuration.Validation
import ResendRouter.Delivery.Task
import Mathlib.Tactic.Linarith

/-! # The intervals of an accepted configuration

Both intervals are unsigned numbers that the program reads as signed ones. The
check of the stale lock adds to the cast value, and the retry window is checked
at its lower end only.
-/

namespace ResendRouter.Configuration
open Foundation Program Database Delivery

variable {parseUrl : String → Except String String} {c : Config}

theorem ok_bind {ε α β : Type} (a : α) (f : α → Except ε β) : (Except.ok a >>= f) = f a := rfl

theorem error_bind {ε α β : Type} (e : ε) (f : α → Except ε β) :
    (Except.error e >>= f) = .error e := rfl

/-- The validation in a build with overflow checks, where the sum of the stale lock check can
panic. -/
def checkedValidate (parseUrl : String → Except String String) (c : Config) : Except Failure Unit :=
  match earlierChecks c with
  | .error e => .error (.error e)
  | .ok () => match addI64 (wrapI64 c.deliveryTimeoutSecs) 5 with
    | none => .error .panic
    | some floor => (remainingChecks parseUrl c floor).mapError Failure.error

theorem checkedValidate_rejected {e : AppError} (h : earlierChecks c = .error e) :
    checkedValidate parseUrl c = .error (.error e) := by
  rw [checkedValidate, h]

theorem checkedValidate_overflow (h : earlierChecks c = .ok ())
    (hsum : i64Max < wrapI64 c.deliveryTimeoutSecs + 5) :
    checkedValidate parseUrl c = .error .panic := by
  rw [checkedValidate, h, addI64_eq_none hsum]

theorem checkedValidate_sum (h : earlierChecks c = .ok ())
    (hsum : wrapI64 c.deliveryTimeoutSecs + 5 ≤ i64Max) : checkedValidate parseUrl c =
      (remainingChecks parseUrl c c.staleLockFloor).mapError Failure.error := by
  have hlow := wrapI64_ge c.deliveryTimeoutSecs
  rw [checkedValidate, h, addI64_eq_some (by omega) hsum, Config.staleLockFloor,
    wrapI64_of_mem (by omega) hsum]

theorem mapError_ne_panic (x : Except AppError Unit) :
    x.mapError Failure.error ≠ .error .panic := by
  cases x <;> simp [Except.mapError]

theorem checkedValidate_eq_panic : checkedValidate parseUrl c = .error .panic ↔
    EarlierPassed c ∧ i64Max < wrapI64 c.deliveryTimeoutSecs + 5 := by
  rw [← earlierChecks_eq_ok]
  constructor
  · intro h
    cases hearly : earlierChecks c with
    | error e =>
      rw [checkedValidate_rejected hearly, Except.error.injEq] at h
      cases h
    | ok u =>
      by_contra hsum
      rw [checkedValidate_sum hearly (by simpa using hsum)] at h
      exact mapError_ne_panic _ h
  · rintro ⟨hearly, hsum⟩
    exact checkedValidate_overflow hearly hsum

/-- Without an overflow both builds give the same verdict. -/
theorem checkedValidate_eq (h : checkedValidate parseUrl c ≠ .error .panic) :
    checkedValidate parseUrl c = (c.validate parseUrl).mapError Failure.error := by
  rw [validate_eq]
  cases hearly : earlierChecks c with
  | error e => rw [checkedValidate_rejected hearly, error_bind, Except.mapError]
  | ok u =>
    have hsum : wrapI64 c.deliveryTimeoutSecs + 5 ≤ i64Max := by
      by_contra hsum
      exact h (checkedValidate_overflow hearly (not_le.mp hsum))
    rw [checkedValidate_sum hearly hsum, ok_bind]

/-- An accepted lock outlives a request, and the validation never overflows. -/
structure LockSound (parseUrl : String → Except String String) (c : Config) : Prop where
  outlives : c.validate parseUrl = .ok () →
    (c.deliveryTimeoutSecs : ℤ) + 5 < c.staleDeliveryLockSecs
  noOverflow : checkedValidate parseUrl c ≠ .error .panic

/-- The timeout keeps clear of the largest `i64`, or one of the other checks refuses the
configuration. -/
def LockRange (parseUrl : String → Except String String) (c : Config) : Prop :=
  (c.deliveryTimeoutSecs : ℤ) + 5 ≤ i64Max ∨ ¬ EarlierPassed c ∨
    (i64Max < (c.deliveryTimeoutSecs : ℤ) ∧
      (c.staleDeliveryLockSecs ≤ (c.deliveryTimeoutSecs : ℤ) - 18446744073709551616 + 5 ∨
        ¬ LaterPassed parseUrl c))

/-- The check of the stale lock is sound exactly for the timeouts up to 2^63 - 6, apart from
configurations that are refused anyway. -/
theorem lock_lifetime_sound_iff (ht : c.deliveryTimeoutSecs < 18446744073709551616)
    (hs : c.staleDeliveryLockSecs ≤ i64Max) : LockSound parseUrl c ↔ LockRange parseUrl c := by
  have hsound : LockSound parseUrl c ↔
      (c.validate parseUrl = .ok () → (c.deliveryTimeoutSecs : ℤ) + 5 < c.staleDeliveryLockSecs) ∧
        ¬ (EarlierPassed c ∧ i64Max < wrapI64 c.deliveryTimeoutSecs + 5) := by
    rw [← checkedValidate_eq_panic]
    exact ⟨fun h => ⟨h.outlives, h.noOverflow⟩, fun h => ⟨h.1, h.2⟩⟩
  have hmax : i64Max = 9223372036854775807 := rfl
  rw [hsound, validate_eq_ok, LockRange, Config.staleLockFloor]
  by_cases hearly : EarlierPassed c
  · by_cases hle : (c.deliveryTimeoutSecs : ℤ) ≤ i64Max
    · rw [wrapI64_of_mem (by omega) hle]
      by_cases hsum : (c.deliveryTimeoutSecs : ℤ) + 5 ≤ i64Max
      · have hfloor := wrapI64_of_mem (by omega) hsum
        simp only [hfloor, hsum, not_lt.mpr hsum, and_false, not_false_eq_true, and_true,
          true_or, iff_true]
        exact fun h => h.2.1
      · simp [hearly, hsum, not_le.mp hsum, not_lt.mpr hle]
    · rw [not_le] at hle
      -- the cast is negative, so the floor is far below every timeout
      have hcast := wrapI64_of_gt hle (by omega)
      have hfloor : wrapI64 (wrapI64 c.deliveryTimeoutSecs + 5) =
          c.deliveryTimeoutSecs - 18446744073709551616 + 5 := by
        rw [hcast]
        exact wrapI64_of_mem (by omega) (by omega)
      have hover : ¬ i64Max < wrapI64 c.deliveryTimeoutSecs + 5 := by omega
      have hno : ¬ (c.deliveryTimeoutSecs : ℤ) + 5 < c.staleDeliveryLockSecs := by omega
      have hbig : ¬ (c.deliveryTimeoutSecs : ℤ) + 5 ≤ i64Max := by omega
      simp only [hfloor, hover, hno, hbig, hearly, hle, true_and, imp_false, not_and_or, not_lt,
        not_false_eq_true, and_true, and_false, not_true_eq_false, false_or]
  · simp [hearly]

/-- The default numbers of the program, with one destination for every event. -/
def defaultConfig : Config where
  databaseUrl := "postgres://localhost/router"
  databaseMaxConnections := 5
  serverBind := .v4 0 3000
  resendWebhookSecret := "whsec_c2VjcmV0"
  resendSignatureToleranceSecs := 300
  routerSigningSecret := "0123456789abcdef0123456789abcdef"
  destinations := [⟨"audit", "https://app.example.com/hook", [], [], [], true⟩]
  deliveryWorkerCount := 2
  deliveryClaimLimit := 5
  deliveryTimeoutSecs := 20
  retryWindowSecs := 259200
  warnAfterAttempts := 10
  staleDeliveryLockSecs := 300
  workerDrainTimeoutSecs := 30

theorem lock_lifetime_sound_iff_default : LockSound (fun _ => .ok "https") defaultConfig :=
  (lock_lifetime_sound_iff (by decide) (by decide)).mpr (.inl (by decide))

/-- The largest timeout is cast to -1, and the default lock is accepted. -/
theorem lock_lifetime_unsound : ¬ ∀ (parseUrl : String → Except String String) (c : Config),
    c.deliveryTimeoutSecs < 18446744073709551616 → c.staleDeliveryLockSecs ≤ i64Max →
      LockSound parseUrl c := by
  intro hall
  have h := (hall (fun _ => .ok "https")
    { defaultConfig with deliveryTimeoutSecs := 18446744073709551615 }
    (by decide) (by decide)).outlives (by decide)
  revert h
  decide

def year2000 : Time := seconds 946684800

/-- The window is the configured one, and an event enqueued at `now` gets jobs that the deadline
check lets through until that much time has passed. -/
structure DeadlineReal (c : Config) (now : Time) : Prop where
  window : c.retryWindow = seconds c.retryWindowSecs
  representable : (addTime now c.retryWindow).isSome = true
  later : ∀ (t : Tables) (q : Enqueue), q.now = now → q.retryWindow = c.retryWindow →
    ∀ j ∈ (enqueueEvent t q).tables.deliveryJobs, j ∉ t.deliveryJobs → j.createdAt < j.deadlineAt
  delivered : ∀ (t : Tables) (q : Enqueue), q.now = now → q.retryWindow = c.retryWindow →
    ∀ j ∈ (enqueueEvent t q).tables.deliveryJobs, j ∉ t.deliveryJobs →
      ∀ (hmacSha256 : Bytes → Bytes → Bytes) (config : Config) (t' : Tables) (cl : Claim),
        cl.task = .spawned → cl.job.deadlineAt = j.deadlineAt →
          ∀ time < now + seconds c.retryWindowSecs,
            taskStep hmacSha256 config time t' cl .checkDeadline =
              some (t', { cl with task := .resolving })

theorem new_job_deadline {t : Tables} {q : Enqueue} {j : DeliveryJob}
    (hj : j ∈ (enqueueEvent t q).tables.deliveryJobs) (hnew : j ∉ t.deliveryJobs) :
    j.createdAt = q.now ∧ j.deadlineAt = q.now + q.retryWindow := by
  rcases enqueueEvent_cases t q with ⟨ht, -⟩ | ⟨e, deadlineAt, js, -, hq⟩
  · rw [ht] at hj
    exact absurd hj hnew
  · rcases (Table.mem_append hq.jobs).mp hj with hold | hj
    · exact absurd hold hnew
    · obtain ⟨d, -, hf⟩ := hq.queued j hj
      have hd := addTime_eq_some (Enqueue.prepare_ok hq.prepared).1
      exact ⟨hf.createdAt, hf.deadlineAt.trans hd⟩

/-- An accepted window gives a real deadline exactly when its end is a representable date. -/
theorem retry_window_real_iff {now : Time} (hvalid : c.validate parseUrl = .ok ())
    (hw : c.retryWindowSecs < 18446744073709551616) (hnow : year2000 ≤ now) :
    DeadlineReal c now ↔ now + seconds c.retryWindowSecs ≤ maxTime := by
  have hpos : 0 < (c.retryWindowSecs : ℤ) := by
    have := (validate_eq_ok.mp hvalid).1.retryWindowSecs
    omega
  have hwindow : c.retryWindow = seconds (wrapI64 c.retryWindowSecs) := rfl
  constructor
  · intro h
    have hsome := h.representable
    rw [h.window, addTime, Option.isSome_ite] at hsome
    exact hsome.2
  · intro hmax
    have hle : (c.retryWindowSecs : ℤ) ≤ i64Max := by
      simp only [year2000, seconds, maxTime] at hnow hmax
      unfold i64Max
      linarith
    rw [wrapI64_of_mem (by omega) hle] at hwindow
    have hlater : now < now + seconds c.retryWindowSecs := by
      simp only [seconds]
      linarith
    refine ⟨hwindow, ?_, ?_, ?_⟩
    · have hmin : minTime ≤ now + seconds c.retryWindowSecs := by
        simp only [year2000, seconds, minTime] at *
        linarith
      rw [hwindow, addTime, if_pos ⟨hmin, hmax⟩, Option.isSome_some]
    · intro t q hq hqw j hj hnew
      obtain ⟨hcreated, hdeadline⟩ := new_job_deadline hj hnew
      rwa [hcreated, hdeadline, hq, hqw, hwindow]
    · intro t q hq hqw j hj hnew hmacSha256 config t' cl htask hjob time htime
      have hdeadline := (new_job_deadline hj hnew).2
      rw [hq, hqw, hwindow] at hdeadline
      rw [← hdeadline, ← hjob] at htime
      simp only [taskStep, htask, if_neg (not_le.mpr htime)]

theorem retry_window_real_iff_default : DeadlineReal defaultConfig (seconds 1750000000) :=
  (@retry_window_real_iff (fun _ => .ok "https") _ _ (by decide) (by decide) (by decide)).mpr
    (by decide)

/-- The largest window is accepted and read as a second back. -/
theorem retry_window_unreal : ¬ ∀ (parseUrl : String → Except String String) (c : Config),
    c.validate parseUrl = .ok () → c.retryWindowSecs < 18446744073709551616 →
      ∀ now, year2000 ≤ now → now ≤ seconds 32535216000 → DeadlineReal c now := by
  intro hall
  have h := (hall (fun _ => .ok "https")
    { defaultConfig with retryWindowSecs := 18446744073709551615 } (by decide) (by decide)
    (seconds 1750000000) (by decide) (by decide)).window
  revert h
  decide

end ResendRouter.Configuration
