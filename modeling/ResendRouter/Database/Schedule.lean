import ResendRouter.Database.Ledger
import Mathlib.Tactic.Linarith

/-! # Every open job stays claimable

The claim condition has one arm for waiting rows and one for locked rows. Every
UPDATE leaves a row in the column pattern of one of the two, or closes it.
-/

namespace ResendRouter.Database
open Foundation Program

/-- The lock columns are set together while the row is being delivered, and the completion
column when it is closed. -/
structure RowPattern (j : DeliveryJob) : Prop where
  lockedAt : j.status = .delivering ↔ j.lockedAt.isSome = true
  lockedBy : j.status = .delivering ↔ j.lockedBy.isSome = true
  completedAt : j.status = .succeeded ∨ j.status = .failed ↔ j.completedAt.isSome = true

theorem rowPattern_of_reachable {G : System.Guard Store DbAction} {s : Store}
    (h : ledger.Reachable G s) : ∀ j ∈ s.tables.deliveryJobs, RowPattern j := by
  refine h.invariant ?_ fun s a s' _ hi hs _ =>
    (Store.step_moves hs).rows (P := RowPattern) ?_ ?_ ?_ ?_ hi
  · simp [ledger, Tables.empty]
  · intro q x y deadlineAt d j _ _ hf
    constructor <;> simp [hf.status, hf.unlocked, hf.open_]
  · intro stale now workerId j hdue hj
    have hopen : ¬ (j.status = .succeeded ∨ j.status = .failed) := by
      rw [← isTerminal_iff, isDue_not_terminal hdue]
      exact Bool.false_ne_true
    have hnone := (not_congr hj.completedAt).mp hopen
    constructor <;> simp [claimRow, hnone]
  · exact fun url j hj => ⟨hj.lockedAt, hj.lockedBy, hj.completedAt⟩
  · intro o t job d now a j ho _ hl hj
    have hstatus := (lockedRow_iff.mp hl).2.2
    have hnone : j.completedAt.isSome = false := by
      have hopen := hj.completedAt.not.mp (by simp [hstatus])
      simpa using hopen
    constructor
    · simp [Outcome.row, ho.released.1]
    · simp [Outcome.row, ho.released.1]
    · change o.status = .succeeded ∨ o.status = .failed ↔
        (if o.willRetry = true then j.completedAt else some now).isSome = true
      rw [← isTerminal_iff, ho.terminal]
      cases o.willRetry <;> simp [hnone]

/-- Only events with a non-negative retry window are enqueued. -/
def windowed : System.Guard Store DbAction := fun _ a _ =>
  ∀ q, a = .enqueueEvent q → 0 ≤ q.retryWindow

theorem created_before_deadline {s : Store} (h : ledger.Reachable windowed s) :
    ∀ j ∈ s.tables.deliveryJobs, j.createdAt ≤ j.deadlineAt := by
  refine h.invariant ?_ fun s a s' _ hi hs hg =>
    (Store.step_moves hs).rows (P := fun j => j.createdAt ≤ j.deadlineAt) ?_ ?_ ?_ ?_ hi
  · simp [ledger, Tables.empty]
  · intro q x y deadlineAt d j ha hp hf
    have hwindow := hg q ha
    rw [hf.createdAt, hf.deadlineAt, addTime_eq_some (Enqueue.prepare_ok hp).1]
    linarith
  · exact fun _ _ _ _ _ hj => hj
  · exact fun _ _ hj => hj
  · exact fun _ _ _ _ _ _ _ _ _ _ hj => hj

/-- Past its deadline and past its lock, a row with the right pattern is due. -/
theorem RowPattern.isDue {j : DeliveryJob} {now : Time} {stale : ℤ} (h : RowPattern j)
    (hopen : ¬ (j.status = .succeeded ∨ j.status = .failed)) (hnext : j.nextAttemptAt ≤ now)
    (hlock : ∀ l ∈ j.lockedAt, l + seconds stale < now) : isDue now stale j = true := by
  cases hs : j.status with
  | queued => simp [Database.isDue, hs, hnext]
  | retrying => simp [Database.isDue, hs, hnext]
  | succeeded => exact absurd (.inl hs) hopen
  | failed => exact absurd (.inr hs) hopen
  | delivering =>
    obtain ⟨l, hl⟩ := Option.isSome_iff_exists.mp (h.lockedAt.mp hs)
    have hstale := lt_sub_iff_add_lt.mpr (hlock l hl)
    simp [Database.isDue, hs, hl, hstale]

end ResendRouter.Database
