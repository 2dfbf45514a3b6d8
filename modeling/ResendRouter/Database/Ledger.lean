import ResendRouter.Database.CallSpecs
import ResendRouter.Foundation.Transition

/-! # The attempt ledger

The database as a system of its own: any call, in any order, with any snapshot
that a claim ever returned. The rows of `delivery_attempts` and the columns of
`delivery_jobs` that summarize them stay in step in every reachable state.
-/

namespace ResendRouter.Database
open Foundation Program

/-- The tables, and every snapshot that `claim_due_jobs` has returned so far. -/
structure Store where
  tables : Tables
  claimed : List ClaimedJob

/-- One call. A snapshot is named by its position among those returned. -/
inductive DbAction where
  | enqueueEvent (q : Enqueue)
  | claimDueJobs (workerId : String) (limit staleLockSecs : ℤ) (now : Time) (skip : List Uuid)
  | updateClaimedJobDestinationUrl (snapshot : ℕ) (destinationUrl : String)
  | record (snapshot : ℕ) (call : RecordCall) (now : Time)
  /-- A call that is aborted before its commit. -/
  | aborted

def Store.step (s : Store) : DbAction → Option Store
  | .enqueueEvent q => some { s with tables := (Database.enqueueEvent s.tables q).tables }
  | .claimDueJobs workerId limit staleLockSecs now skip =>
    let reply := Database.claimDueJobs s.tables workerId limit staleLockSecs now skip
    some ⟨reply.tables, s.claimed ++ match reply.result with
      | .ok jobs => jobs
      | .error _ => []⟩
  | .updateClaimedJobDestinationUrl snapshot destinationUrl => (s.claimed[snapshot]?).map fun job =>
    { s with
      tables := (Database.updateClaimedJobDestinationUrl s.tables job destinationUrl).tables }
  | .record snapshot call now => (s.claimed[snapshot]?).map fun job =>
    { s with tables := (call.run s.tables job now).tables }
  | .aborted => some s

def ledger : System Store DbAction := ⟨⟨.empty, []⟩, Store.step⟩

/-- What one call can do to the store. -/
inductive Store.Moves (s : Store) : DbAction → Store → Prop where
  | same {a} : Moves s a s
  | enqueued {q e deadlineAt js t} (h : Enqueued q s.tables t e deadlineAt js) :
      Moves s (.enqueueEvent q) { s with tables := t }
  | claimed {action workerId stale now jobs t}
      (h : Claimed s.tables t jobs workerId stale now) : Moves s action ⟨t, s.claimed ++ jobs⟩
  | refreshed {action job url t} (hjob : job ∈ s.claimed) (h : Refreshed s.tables t job url) :
      Moves s action { s with tables := t }
  | recorded {action job call now a t} (hjob : job ∈ s.claimed)
      (h : Recorded (RecordCall.outcome call) s.tables t job call.durationMs now a) :
      Moves s action { s with tables := t }

theorem updateUrl_moves {s : Store} {action : DbAction} {job : ClaimedJob}
    (hjob : job ∈ s.claimed) (url : String) : s.Moves action { s with
      tables := (updateClaimedJobDestinationUrl s.tables job url).tables } := by
  rcases updateUrl_cases s.tables job url with ⟨h, -⟩ | ⟨-, -, h⟩
  · rw [h]
    exact .same
  · exact .refreshed hjob h

theorem record_moves {s : Store} {action : DbAction} {job : ClaimedJob} (hjob : job ∈ s.claimed)
    (call : RecordCall) (now : Time) :
    s.Moves action { s with tables := (call.run s.tables job now).tables } := by
  rcases call.run_cases s.tables job now with ⟨h, -⟩ | ⟨-, a, h⟩
  · rw [h]
    exact .same
  · exact .recorded hjob h

theorem Store.step_moves {s s' : Store} {a : DbAction} (h : s.step a = some s') :
    s.Moves a s' := by
  cases a with
  | enqueueEvent q =>
    cases h
    rcases enqueueEvent_cases s.tables q with ⟨h, -⟩ | ⟨e, deadlineAt, js, -, h⟩
    · rw [h]
      exact .same
    · exact .enqueued h
  | claimDueJobs workerId limit stale now skip =>
    cases h
    rcases claimDueJobs_cases s.tables workerId limit stale now skip with ⟨e, h⟩ | ⟨jobs, t, h, hc⟩
    · simpa [h] using Moves.same
    · simpa [h] using Moves.claimed hc
  | updateClaimedJobDestinationUrl k url =>
    obtain ⟨job, hjob, rfl⟩ := Option.map_eq_some_iff.mp h
    exact updateUrl_moves (List.mem_of_getElem? hjob) url
  | record k call now =>
    obtain ⟨job, hjob, rfl⟩ := Option.map_eq_some_iff.mp h
    exact record_moves (List.mem_of_getElem? hjob) call now
  | aborted =>
    cases h
    exact .same

/-- The rows of a job in `delivery_attempts` and its summary columns agree. -/
structure Coherent (t : Tables) (j : DeliveryJob) : Prop where
  /-- The attempt numbers are 1, 2, ..., `attempt_count`, each once. -/
  numbers : (t.attemptsOf j.id).map (·.attemptNumber) =
    (List.range j.attemptCount.toNat).map fun k : ℕ => (k : ℤ) + 1
  /-- Every row but the last one announced a retry. -/
  earlier : ∀ a ∈ t.attemptsOf j.id, a.attemptNumber ≠ j.attemptCount → a.willRetry = true
  /-- The last row announced none exactly when the job is closed. -/
  last : ∀ a, (t.attemptsOf j.id).getLast? = some a → a.attemptNumber = j.attemptCount ∧
    (a.willRetry = false ↔ j.status = .succeeded ∨ j.status = .failed)
  started : j.status = .succeeded ∨ j.status = .failed → 0 < j.attemptCount
  lastAttemptAt : j.lastAttemptAt = (t.attemptsOf j.id).getLast?.map (·.attemptedAt)
  lastStatusCode : j.lastStatusCode = (t.attemptsOf j.id).getLast?.bind (·.statusCode)
  lastError : j.lastError = (t.attemptsOf j.id).getLast?.bind (·.error)
  /-- The schedule is that of the last row that announced a retry, and at first the creation. -/
  nextAttemptAt : some j.nextAttemptAt =
    match ((t.attemptsOf j.id).filter (·.willRetry)).getLast? with
    | none => some j.createdAt
    | some a => a.nextAttemptAt

/-- A snapshot names its row, and never runs ahead of it. -/
structure SnapshotOf (c : ClaimedJob) (j : DeliveryJob) : Prop where
  id : j.id = c.id
  eventId : j.eventId = c.eventId
  destinationName : j.destinationName = c.destinationName
  deadlineAt : j.deadlineAt = c.deadlineAt
  nonneg : 0 ≤ c.attemptCount
  count : c.attemptCount ≤ j.attemptCount

structure LedgerInv (s : Store) : Prop where
  coherent : ∀ j ∈ s.tables.deliveryJobs, Coherent s.tables j
  bounded : ∀ j ∈ s.tables.deliveryJobs, j.attemptCount ≤ i32Max
  snapshots : ∀ c ∈ s.claimed, ∃ j ∈ s.tables.deliveryJobs, SnapshotOf c j
  bodies : ∀ c ∈ s.claimed, ∃ e ∈ s.tables.webhookEvents,
    e.id = c.eventId ∧ c.rawBody = e.rawBody ∧ c.headers = e.headers

/-- What the snapshots say holds of the row that they name. -/
theorem LedgerInv.snapshot {s : Store} {c : ClaimedJob} {j : DeliveryJob} (hi : LedgerInv s)
    (hc : c ∈ s.claimed) (hj : j ∈ s.tables.deliveryJobs) (hid : j.id = c.id) :
    SnapshotOf c j := by
  obtain ⟨k, hk, hs⟩ := hi.snapshots c hc
  rwa [Table.eq_of_key_eq hj hk (hid.trans hs.id.symm)]

theorem isTerminal_iff {s : JobStatus} : s.isTerminal = true ↔ s = .succeeded ∨ s = .failed := by
  cases s <;> decide

variable {t t' : Tables} {j j' : DeliveryJob}

/-- Coherence only looks at the rows of the job and at the columns it names. -/
theorem Coherent.congr (h : Coherent t j) (ha : t'.attemptsOf j'.id = t.attemptsOf j.id)
    (hcount : j'.attemptCount = j.attemptCount)
    (hstatus : j'.status.isTerminal = j.status.isTerminal)
    (hlast : j'.lastAttemptAt = j.lastAttemptAt ∧ j'.lastStatusCode = j.lastStatusCode ∧
      j'.lastError = j.lastError)
    (hnext : j'.nextAttemptAt = j.nextAttemptAt ∧ j'.createdAt = j.createdAt) :
    Coherent t' j' := by
  have hst : j'.status = .succeeded ∨ j'.status = .failed ↔
      j.status = .succeeded ∨ j.status = .failed := by
    rw [← isTerminal_iff, ← isTerminal_iff, hstatus]
  constructor
  · rw [ha, hcount, h.numbers]
  · rw [ha, hcount]
    exact h.earlier
  · intro a
    rw [ha, hcount, hst]
    exact h.last a
  · rw [hst, hcount]
    exact h.started
  · rw [ha, hlast.1, h.lastAttemptAt]
  · rw [ha, hlast.2.1, h.lastStatusCode]
  · rw [ha, hlast.2.2, h.lastError]
  · rw [ha, hnext.1, hnext.2, h.nextAttemptAt]

theorem Coherent.unscheduled (h : Coherent t j)
    (hnone : ((t.attemptsOf j.id).filter (·.willRetry)).getLast? = none) :
    j.nextAttemptAt = j.createdAt := by
  have hnext := h.nextAttemptAt
  rw [hnone] at hnext
  exact Option.some.inj hnext

/-- The last row that announced a retry is the schedule. -/
theorem Coherent.scheduled (h : Coherent t j) {a : DeliveryAttempt}
    (hlast : ((t.attemptsOf j.id).filter (·.willRetry)).getLast? = some a) :
    some j.nextAttemptAt = a.nextAttemptAt := by
  rw [h.nextAttemptAt, hlast]

theorem attemptsOf_congr (id : Uuid) (h : t'.deliveryAttempts.rows = t.deliveryAttempts.rows) :
    t'.attemptsOf id = t.attemptsOf id := by
  rw [Tables.attemptsOf, Tables.attemptsOf, h]

theorem mem_attemptsOf {id : Uuid} {a : DeliveryAttempt} :
    a ∈ t.attemptsOf id ↔ a ∈ t.deliveryAttempts ∧ a.jobId = id := by
  simp [Tables.attemptsOf, Table.mem_def]

theorem Coherent.exists_number (h : Coherent t j) {n : ℤ} (h0 : 0 < n)
    (h1 : n ≤ j.attemptCount) : ∃ a ∈ t.deliveryAttempts, a.key = (j.id, n) := by
  have hn : n ∈ (t.attemptsOf j.id).map (·.attemptNumber) := by
    rw [h.numbers, List.mem_map]
    refine ⟨(n - 1).toNat, List.mem_range.mpr ?_, ?_⟩ <;> omega
  obtain ⟨a, ha, rfl⟩ := List.mem_map.mp hn
  obtain ⟨ha, hid⟩ := mem_attemptsOf.mp ha
  exact ⟨a, ha, by rw [DeliveryAttempt.key, hid]⟩

theorem Coherent.number_le (h : Coherent t j) {a : DeliveryAttempt}
    (ha : a ∈ t.attemptsOf j.id) : a.attemptNumber ≤ j.attemptCount := by
  have hn := List.mem_map_of_mem (f := (·.attemptNumber)) ha
  rw [h.numbers, List.mem_map] at hn
  obtain ⟨k, hk, hn⟩ := hn
  have := List.mem_range.mp hk
  omega

theorem lockedRow_iff {job : ClaimedJob} :
    lockedRow job j = true ↔
      j.id = job.id ∧ j.lockedBy = some job.lockedBy ∧ j.status = .delivering := by
  simp [lockedRow, and_assoc]

/-- The unique constraint lets a snapshot record only the next attempt of its job, so a
snapshot that was overtaken by another outcome records nothing. -/
theorem Recorded.number {o : Outcome} {job : ClaimedJob} {d : ℤ} {now : Time}
    {a : DeliveryAttempt} (h : Recorded o t t' job d now a) (hc : Coherent t j)
    (hj : j.id = job.id) (hb : j.attemptCount ≤ i32Max) (h0 : 0 ≤ job.attemptCount)
    (hle : job.attemptCount ≤ j.attemptCount) :
    job.attemptCount = j.attemptCount ∧ a.attemptNumber = j.attemptCount + 1 := by
  obtain ⟨hid, hn, -⟩ := newDeliveryAttempt_ok h.made
  have hpos := a.number_pos
  rw [hn, wrapI32_succ_pos_iff h0 (hle.trans hb)] at hpos
  rw [wrapI32_succ h0 hpos] at hn
  have heq : job.attemptCount = j.attemptCount := by
    by_contra hne
    obtain ⟨b, hbm, hk⟩ := hc.exists_number (n := job.attemptCount + 1) (by omega) (by omega)
    refine h.fresh b hbm ?_
    rw [hk, DeliveryAttempt.key, hid, hn, hj]
  exact ⟨heq, heq ▸ hn⟩

theorem Recorded.attemptsOf {o : Outcome} {job : ClaimedJob} {d : ℤ} {now : Time}
    {a : DeliveryAttempt} (h : Recorded o t t' job d now a) (id : Uuid) :
    t'.attemptsOf id = if id = job.id then t.attemptsOf id ++ [a] else t.attemptsOf id := by
  have hid := (newDeliveryAttempt_ok h.made).1
  rw [Tables.attemptsOf, h.attempts, List.filter_append, Tables.attemptsOf]
  by_cases he : id = job.id
  · simp [he, hid]
  · simp [he, hid, Ne.symm he]

/-- The row that an outcome rewrites is coherent with the attempt row that it adds. -/
theorem Coherent.record {o : Outcome} {job : ClaimedJob} {d : ℤ} {now : Time}
    {a : DeliveryAttempt} (hc : Coherent t j) (h : Recorded o t t' job d now a)
    (hl : lockedRow job j = true) (ho : o.Legal) (hn : a.attemptNumber = j.attemptCount + 1) :
    Coherent t' (o.row a now j) := by
  obtain ⟨hid, -, hdel⟩ := lockedRow_iff.mp hl
  obtain ⟨-, -, hat, hcode, herr, hretry, hnext⟩ := newDeliveryAttempt_ok h.made
  have hrows : t'.attemptsOf (o.row a now j).id = t.attemptsOf j.id ++ [a] := by
    rw [h.attemptsOf, Outcome.row_id, if_pos hid]
  have hcount : (o.row a now j).attemptCount = j.attemptCount + 1 := hn
  have hlast : (t'.attemptsOf (o.row a now j).id).getLast? = some a := by
    rw [hrows, List.getLast?_append, List.getLast?_singleton, Option.some_or]
  have hpast : ∀ b ∈ t.attemptsOf j.id, b.willRetry = true := by
    intro b hb
    by_cases hbn : b.attemptNumber = j.attemptCount
    · have hsome : (t.attemptsOf j.id).getLast? ≠ none := by
        rw [ne_eq, List.getLast?_eq_none_iff]
        exact List.ne_nil_of_mem hb
      obtain ⟨l, hlast⟩ := Option.ne_none_iff_exists'.mp hsome
      obtain ⟨hln, hiff⟩ := hc.last l hlast
      have hlm := mem_attemptsOf.mp (List.mem_of_getLast? hlast)
      have hbm := mem_attemptsOf.mp hb
      have hkey : b = l := Table.eq_of_key_eq hbm.1 hlm.1
        (by rw [DeliveryAttempt.key, DeliveryAttempt.key, hbm.2, hlm.2, hbn, hln])
      by_contra hf
      rw [hkey, Bool.not_eq_true, hiff, hdel] at hf
      rcases hf with hf | hf <;> cases hf
    · exact hc.earlier b hb hbn
  constructor
  · rw [hrows, hcount, List.map_append, hc.numbers, Int.toNat_add j.count_nonneg (by omega)]
    simp [List.range_succ, hn, j.count_nonneg]
  · intro b hb hbn
    rw [hrows, List.mem_append, List.mem_singleton] at hb
    rcases hb with hb | rfl
    · exact hpast b hb
    · exact absurd rfl hbn
  · intro b hb
    rw [hlast, Option.some.injEq] at hb
    subst hb
    refine ⟨rfl, ?_⟩
    rw [hretry, ← ho.terminal, isTerminal_iff]
    rfl
  · intro _
    exact a.number_pos
  · rw [hlast, Option.map_some, hat]
    rfl
  · rw [hlast, Option.bind_some, hcode]
    rfl
  · rw [hlast, Option.bind_some, herr]
    rfl
  · rw [hrows, List.filter_append]
    cases hw : o.willRetry with
    | true =>
      obtain ⟨next, hsome⟩ := Option.isSome_iff_exists.mp (ho.scheduled.mp hw)
      simp [hretry, hw, Outcome.row, hsome, hnext]
    | false =>
      have hnone : o.nextAttemptAt = none := by
        rw [← Option.not_isSome_iff_eq_none, ← ho.scheduled, hw]
        exact Bool.false_ne_true
      rw [hnone] at hnext
      simp [hretry, hw, Outcome.row, hnext, hc.nextAttemptAt]

theorem Enqueued.mem_jobs {q : Enqueue} {e : WebhookEvent} {deadlineAt : Time}
    {js : List DeliveryJob} (h : Enqueued q t t' e deadlineAt js) :
    j ∈ t'.deliveryJobs ↔ j ∈ t.deliveryJobs ∨ j ∈ js :=
  Table.mem_append h.jobs

theorem Enqueued.mem_events {q : Enqueue} {e r : WebhookEvent} {deadlineAt : Time}
    {js : List DeliveryJob} (h : Enqueued q t t' e deadlineAt js) :
    r ∈ t'.webhookEvents ↔ r ∈ t.webhookEvents ∨ r = e :=
  Table.mem_append_one h.events

theorem Enqueued.id_ne {q : Enqueue} {e : WebhookEvent} {deadlineAt : Time}
    {js : List DeliveryJob} (h : Enqueued q t t' e deadlineAt js) (hj : j ∈ t.deliveryJobs)
    (hj' : j' ∈ js) : j.id ≠ j'.id := by
  have hn := t'.deliveryJobs.unique
  rw [h.jobs, List.map_append, List.nodup_append] at hn
  exact hn.2.2 _ (List.mem_map_of_mem hj) _ (List.mem_map_of_mem hj')

/-- The rule for properties of single rows: they hold of every row, in every reachable store, if
new rows have them and the three kinds of UPDATE keep them. -/
theorem Store.Moves.rows {s s' : Store} {action : DbAction} (h : s.Moves action s')
    {P : DeliveryJob → Prop}
    (hfresh : ∀ q x y deadlineAt d j, action = .enqueueEvent q →
      q.prepare = .ok (deadlineAt, x, y) → FreshJob q deadlineAt d j → P j)
    (hclaim : ∀ stale now workerId j, isDue now stale j = true → P j → P (claimRow workerId now j))
    (hurl : ∀ url j, P j → P (urlRow url j))
    (hrecord : ∀ (o : Outcome) t job d now a j, o.Legal → Recorded o s.tables t job d now a →
      lockedRow job j = true → P j → P (o.row a now j))
    (hP : ∀ j ∈ s.tables.deliveryJobs, P j) : ∀ j ∈ s'.tables.deliveryJobs, P j := by
  cases h with
  | same => exact hP
  | enqueued h =>
    intro j hj
    rcases h.mem_jobs.mp hj with hj | hj
    · exact hP j hj
    · obtain ⟨d, -, hf⟩ := h.queued j hj
      exact hfresh _ _ _ _ d j rfl h.prepared hf
  | claimed h =>
    intro r hr
    obtain ⟨j, hj, ⟨⟨c, hc, hid⟩, rfl⟩ | ⟨-, rfl⟩⟩ := (h.rows r).mp hr
    · obtain ⟨j', hj', hdue, e, -, -, rfl⟩ := h.due c hc
      rw [Table.eq_of_key_eq hj' hj hid] at hdue
      exact hclaim _ _ _ j hdue (hP j hj)
    · exact hP r hj
  | refreshed _ h =>
    intro r hr
    obtain ⟨j, hj, rfl⟩ := (h.rows r).mp hr
    split
    · exact hurl _ j (hP j hj)
    · exact hP j hj
  | @recorded action job call now a t _ h =>
    intro r hr
    obtain ⟨j, hj, rfl⟩ := (h.jobs r).mp hr
    split
    case isTrue hl => exact hrecord _ _ _ _ _ _ j call.outcome_legal h hl (hP j hj)
    case isFalse => exact hP j hj

theorem isDue_not_terminal {now : Time} {stale : ℤ} (h : isDue now stale j = true) :
    j.status.isTerminal = false := by
  cases hs : j.status <;> simp [isDue, hs, JobStatus.isTerminal] at h ⊢

theorem LedgerInv.coherent_step {s s' : Store} {action : DbAction} (hi : LedgerInv s)
    (h : s.Moves action s') :
    ∀ j ∈ s'.tables.deliveryJobs, Coherent s'.tables j := by
  cases h with
  | same => exact hi.coherent
  | enqueued h =>
    intro j hj
    have hsame := attemptsOf_congr j.id (congrArg Table.rows h.attempts)
    rcases h.mem_jobs.mp hj with hj | hj
    · exact (hi.coherent j hj).congr hsame rfl rfl ⟨rfl, rfl, rfl⟩ ⟨rfl, rfl⟩
    · obtain ⟨d, -, hf⟩ := h.queued j hj
      obtain ⟨hlast, hcode, herror⟩ := hf.unattempted
      have hnone : s.tables.attemptsOf j.id = [] := by
        rw [List.eq_nil_iff_forall_not_mem]
        intro a ha
        obtain ⟨ha, hid⟩ := mem_attemptsOf.mp ha
        obtain ⟨r, hr, hrid⟩ := s.tables.attemptJob a ha
        exact h.id_ne hr hj (hrid.trans hid)
      constructor <;>
        simp [hsame, hnone, hf.attemptCount, hf.status, hlast, hcode, herror, hf.nextAttemptAt,
          hf.createdAt]
  | claimed h =>
    intro r hr
    have hsame := attemptsOf_congr r.id (congrArg Table.rows h.attempts)
    obtain ⟨j, hj, ⟨⟨c, hc, hid⟩, rfl⟩ | ⟨-, rfl⟩⟩ := (h.rows r).mp hr
    · obtain ⟨j', hj', hdue, e, -, -, rfl⟩ := h.due c hc
      rw [Table.eq_of_key_eq hj' hj hid] at hdue
      exact (hi.coherent j hj).congr hsame rfl (isDue_not_terminal hdue).symm ⟨rfl, rfl, rfl⟩
        ⟨rfl, rfl⟩
    · exact (hi.coherent r hj).congr hsame rfl rfl ⟨rfl, rfl, rfl⟩ ⟨rfl, rfl⟩
  | refreshed _ h =>
    intro r hr
    obtain ⟨j, hj, rfl⟩ := (h.rows r).mp hr
    have hsame := attemptsOf_congr j.id (congrArg Table.rows h.attempts)
    split <;> exact (hi.coherent j hj).congr hsame rfl rfl ⟨rfl, rfl, rfl⟩ ⟨rfl, rfl⟩
  | @recorded action job call now a t hjob h =>
    intro r hr
    obtain ⟨j, hj, rfl⟩ := (h.jobs r).mp hr
    split
    case isTrue hl =>
      have hs := hi.snapshot hjob hj (lockedRow_iff.mp hl).1
      exact (hi.coherent j hj).record h hl call.outcome_legal
        (h.number (hi.coherent j hj) hs.id (hi.bounded j hj) hs.nonneg hs.count).2
    case isFalse hl =>
      -- the locked row has the key of the snapshot, so this row has another one
      have hne : j.id ≠ job.id := fun he => by
        obtain ⟨k, hk, hkl⟩ := h.held
        rw [Table.eq_of_key_eq hk hj ((lockedRow_iff.mp hkl).1.trans he.symm)] at hkl
        exact hl hkl
      refine (hi.coherent j hj).congr ?_ rfl rfl ⟨rfl, rfl, rfl⟩ ⟨rfl, rfl⟩
      rw [h.attemptsOf, if_neg hne]

/-- What a step keeps of a row: its identity, and its count from below. -/
structure DeliveryJob.Continues (j r : DeliveryJob) : Prop where
  id : r.id = j.id
  eventId : r.eventId = j.eventId
  destinationName : r.destinationName = j.destinationName
  deadlineAt : r.deadlineAt = j.deadlineAt
  count : j.attemptCount ≤ r.attemptCount

theorem DeliveryJob.Continues.refl (j : DeliveryJob) : j.Continues j :=
  ⟨rfl, rfl, rfl, rfl, le_rfl⟩

theorem SnapshotOf.continue {c : ClaimedJob} (h : SnapshotOf c j) (hr : j.Continues j') :
    SnapshotOf c j' :=
  ⟨hr.id.trans h.id, hr.eventId.trans h.eventId, hr.destinationName.trans h.destinationName,
    hr.deadlineAt.trans h.deadlineAt, h.nonneg, h.count.trans hr.count⟩

/-- Rows are never removed, and their attempt count never goes down. -/
theorem LedgerInv.row_step {s s' : Store} {action : DbAction} (hi : LedgerInv s)
    (h : s.Moves action s')
    (hj : j ∈ s.tables.deliveryJobs) : ∃ r ∈ s'.tables.deliveryJobs, j.Continues r := by
  cases h with
  | same => exact ⟨j, hj, .refl j⟩
  | enqueued h => exact ⟨j, h.mem_jobs.mpr (.inl hj), .refl j⟩
  | @claimed action workerId stale now jobs t h =>
    by_cases hc : ∃ c ∈ jobs, c.id = j.id
    · exact ⟨_, (h.rows _).mpr ⟨j, hj, .inl ⟨hc, rfl⟩⟩, rfl, rfl, rfl, rfl, le_rfl⟩
    · exact ⟨j, (h.rows j).mpr ⟨j, hj, .inr ⟨fun c hm he => hc ⟨c, hm, he⟩, rfl⟩⟩, .refl j⟩
  | refreshed _ h =>
    refine ⟨_, (h.rows _).mpr ⟨j, hj, rfl⟩, ?_⟩
    split
    · exact ⟨rfl, rfl, rfl, rfl, le_rfl⟩
    · exact .refl j
  | @recorded action job call now a t hjob h =>
    refine ⟨_, (h.jobs _).mpr ⟨j, hj, rfl⟩, ?_⟩
    split
    case isTrue hl =>
      have hs := hi.snapshot hjob hj (lockedRow_iff.mp hl).1
      have hn := (h.number (hi.coherent j hj) hs.id (hi.bounded j hj) hs.nonneg hs.count).2
      refine ⟨rfl, rfl, rfl, rfl, ?_⟩
      change j.attemptCount ≤ a.attemptNumber
      omega
    case isFalse => exact .refl j

theorem Store.Moves.event_kept {s s' : Store} {action : DbAction} {e : WebhookEvent}
    (h : s.Moves action s')
    (he : e ∈ s.tables.webhookEvents) : e ∈ s'.tables.webhookEvents := by
  cases h with
  | same => exact he
  | enqueued h => exact h.mem_events.mpr (.inl he)
  | claimed h => exact h.events ▸ he
  | refreshed _ h => exact h.events ▸ he
  | recorded _ h => exact h.events ▸ he

theorem LedgerInv.step {s s' : Store} {action : DbAction} (hi : LedgerInv s)
    (h : s.Moves action s') : LedgerInv s' := by
  -- a snapshot is an old one, or it was taken from a row by this step
  have hclaimed : ∀ c ∈ s'.claimed, c ∈ s.claimed ∨
      (∃ j ∈ s'.tables.deliveryJobs, SnapshotOf c j) ∧ ∃ e ∈ s'.tables.webhookEvents,
        e.id = c.eventId ∧ c.rawBody = e.rawBody ∧ c.headers = e.headers := by
    cases h with
    | @claimed action workerId stale now jobs t h =>
      intro c hc
      rcases List.mem_append.mp hc with hc | hc
      · exact .inl hc
      · obtain ⟨j, hj, -, e, he, hev, rfl⟩ := h.due c hc
        refine .inr ⟨⟨claimRow workerId now j, ?_, ?_⟩, e, h.events ▸ he, hev, rfl, rfl⟩
        · exact (h.rows _).mpr ⟨j, hj, .inl ⟨⟨_, hc, rfl⟩, rfl⟩⟩
        · exact ⟨rfl, rfl, rfl, rfl, j.count_nonneg, le_rfl⟩
    | _ => exact fun c hc => .inl hc
  refine ⟨hi.coherent_step h, ?_, fun c hc => ?_, fun c hc => ?_⟩
  · refine h.rows (P := fun j => j.attemptCount ≤ i32Max) ?_ ?_ ?_ ?_ hi.bounded
    · intro q x y deadlineAt d j _ _ hf
      rw [hf.attemptCount]
      decide
    · exact fun _ _ _ _ _ hb => hb
    · exact fun _ _ hb => hb
    · intro o t job d now a j _ hr _ _
      change a.attemptNumber ≤ i32Max
      rw [(newDeliveryAttempt_ok hr.made).2.1]
      exact wrapI32_le _
  · rcases hclaimed c hc with hc | ⟨hnew, -⟩
    · obtain ⟨j, hj, hs⟩ := hi.snapshots c hc
      obtain ⟨r, hr, hcont⟩ := hi.row_step h hj
      exact ⟨r, hr, hs.continue hcont⟩
    · exact hnew
  · rcases hclaimed c hc with hc | ⟨-, hnew⟩
    · obtain ⟨e, he, hsame⟩ := hi.bodies c hc
      exact ⟨e, h.event_kept he, hsame⟩
    · exact hnew

theorem ledgerInv_of_reachable {s : Store} (h : ledger.Reachable System.free s) : LedgerInv s := by
  apply h.invariant
  · constructor <;> simp [ledger, Tables.empty]
  · intro s a s' _ hi hs _
    exact hi.step (Store.step_moves hs)

/-- In every state that calls with any snapshots reach, the ledger of every job is coherent. -/
theorem attempt_ledger_coherent {s : Store} (h : ledger.Reachable System.free s) :
    ∀ j ∈ s.tables.deliveryJobs, Coherent s.tables j :=
  (ledgerInv_of_reachable h).coherent

def sampleDestination : DestinationConfig where
  name := "app"
  url := "https://app.example.com/hook"
  fromDomains := ["example.com"]
  toDomains := []
  eventTypes := []
  catchAll := false

/-- An event for one destination, received at the epoch, to be delivered within an hour. -/
def sampleEnqueue : Enqueue where
  eventRowId := 1
  jobIds := fun i => BitVec.ofNat 128 (i + 2)
  now := 0
  headers := [("svix-id", [0x6D]), ("svix-timestamp", [0x30])]
  body := [0x7B, 0x7D]
  event := ⟨none, none, some "example.com", []⟩
  destinations := [sampleDestination]
  retryWindow := seconds 3600

/-- Worker `b` takes the job over and records a retry; then worker `a` reports a success. -/
def overtaken : List DbAction := [
  .enqueueEvent sampleEnqueue,
  .claimDueJobs "a" 5 300 0 [],
  .claimDueJobs "b" 5 300 (seconds 301) [],
  .record 1 (.retry (some 500) (some "destination returned HTTP 500") 7 (seconds 317))
    (seconds 302),
  .record 0 (.success 200 9) (seconds 303)]

theorem attempt_ledger_coherent_overtaken : ∃ s, ledger.Reachable System.free s ∧
    s.claimed.length = 2 ∧ s.tables.deliveryJobs.rows.map (·.attemptCount) = [1] ∧
    ∀ j ∈ s.tables.deliveryJobs, Coherent s.tables j := by
  obtain ⟨s, hs, hp⟩ := System.exists_reachable_of_run ledger System.free overtaken
    (fun s => s.claimed.length = 2 ∧ s.tables.deliveryJobs.rows.map (·.attemptCount) = [1])
    (by decide)
  rw [decide_eq_true_eq] at hp
  exact ⟨s, hs, hp.1, hp.2, attempt_ledger_coherent hs⟩

end ResendRouter.Database
