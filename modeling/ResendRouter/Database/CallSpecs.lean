import ResendRouter.Database.Calls

/-! # What each call does to the tables

One description per call. Every invariant of the development is derived from
these descriptions, and none of them unfolds a call again.
-/

namespace ResendRouter.Database
open Foundation Program

variable {t t' : Tables}

theorem Reply.isTrue_iff {ε : Type} {r : Reply ε Bool} : r.isTrue = true ↔ r.result = .ok true := by
  cases hr : r.result with
  | error e => simp [Reply.isTrue, hr]
  | ok b => simp [Reply.isTrue, hr]

/-- A committed outcome: a fresh attempt row, and the rows under the lock rewritten. -/
structure Recorded (o : Outcome) (t t' : Tables) (job : ClaimedJob) (durationMs : ℤ) (now : Time)
    (a : DeliveryAttempt) : Prop where
  made : newDeliveryAttempt job.id (wrapI32 (job.attemptCount + 1)) now o.statusCode o.error
    durationMs o.willRetry o.nextAttemptAt = .ok a
  fresh : ∀ b ∈ t.deliveryAttempts, b.key ≠ a.key
  attempts : t'.deliveryAttempts.rows = t.deliveryAttempts.rows ++ [a]
  events : t'.webhookEvents = t.webhookEvents
  held : ∃ j ∈ t.deliveryJobs, lockedRow job j = true
  jobs : ∀ r, r ∈ t'.deliveryJobs ↔
    ∃ j ∈ t.deliveryJobs, r = if lockedRow job j then o.row a now j else j
  identities : t'.deliveryJobs.rows.map DeliveryJob.identity =
    t.deliveryJobs.rows.map DeliveryJob.identity

theorem newDeliveryAttempt_ok {jobId : Uuid} {n : ℤ} {now : Time} {code : Option ℤ}
    {error : Option String} {d : ℤ} {retry : Bool} {next : Option Time} {a : DeliveryAttempt}
    (h : newDeliveryAttempt jobId n now code error d retry next = .ok a) :
    a.jobId = jobId ∧ a.attemptNumber = n ∧ a.attemptedAt = now ∧ a.statusCode = code ∧
      a.error = error ∧ a.willRetry = retry ∧ a.nextAttemptAt = next := by
  simp only [newDeliveryAttempt] at h
  split_ifs at h
  cases h
  exact ⟨rfl, rfl, rfl, rfl, rfl, rfl, rfl⟩

theorem newDeliveryAttempt_isOk {jobId : Uuid} {n : ℤ} {now : Time} {code : Option ℤ}
    {error : Option String} {d : ℤ} {retry : Bool} {next : Option Time} :
    (∃ a, newDeliveryAttempt jobId n now code error d retry next = .ok a) ↔
      optionalTextOk error = true ∧ (timestampOk now = true ∧ next.all timestampOk = true) ∧
        0 < n ∧ 0 ≤ wrapI32 d := by
  simp only [newDeliveryAttempt]
  split_ifs with ht hdates hc
  · simp [ht]
  · simpa [ht, hdates] using hc
  · simpa [ht, hdates] using hc
  · simp [hdates]

theorem recordOutcome_cases (o : Outcome) (t : Tables) (job : ClaimedJob) (d : ℤ) (now : Time) :
    ((recordOutcome o t job d now).tables = t ∧
      ∀ n, (recordOutcome o t job d now).result ≠ .ok (some n)) ∨
    ∃ a, (recordOutcome o t job d now).result = .ok (some a.attemptNumber) ∧
      Recorded o t (recordOutcome o t job d now).tables job d now a := by
  simp only [recordOutcome]
  split
  case h_1 => exact .inl ⟨rfl, by simp⟩
  case h_2 a ha =>
    split
    case h_1 => exact .inl ⟨rfl, by simp⟩
    case h_2 t₁ ht =>
      obtain ⟨hattempts, hevents, hjobs, hfresh, -⟩ := Tables.insertAttempt_inserted ht
      split
      case isTrue => exact .inl ⟨rfl, by simp⟩
      case isFalse hz =>
        refine .inr ⟨a, rfl, ha, hfresh, hattempts, hevents, ?_, fun r => ?_, ?_⟩
        · rw [hjobs] at hz
          simpa [Table.affected_eq_zero] using hz
        · rw [Tables.mem_updateJobs, hjobs]
        · rw [← hjobs]
          exact Tables.identities_updateJobs t₁ _ _ (o.row_id a now) (o.row_eventId a now)
            fun _ => rfl

/-- When a call reports that the lock is lost: its attempt row passes every constraint, and no
row is locked by the snapshot. -/
theorem recordOutcome_lost {o : Outcome} {job : ClaimedJob} {d : ℤ} {now : Time}
    (hjob : ∃ j ∈ t.deliveryJobs, j.id = job.id) :
    recordOutcome o t job d now = ⟨.ok none, t⟩ ↔
      optionalTextOk o.error = true ∧
        (timestampOk now = true ∧ o.nextAttemptAt.all timestampOk = true) ∧
        0 < wrapI32 (job.attemptCount + 1) ∧ 0 ≤ wrapI32 d ∧
        (∀ b ∈ t.deliveryAttempts, b.key ≠ (job.id, wrapI32 (job.attemptCount + 1))) ∧
        ∀ j ∈ t.deliveryJobs, lockedRow job j = false := by
  simp only [recordOutcome]
  split
  case h_1 e he =>
    simp only [Reply.mk.injEq, reduceCtorEq, false_and, false_iff]
    rintro ⟨h1, h2, h3, h4, -⟩
    obtain ⟨a, ha⟩ := newDeliveryAttempt_isOk.mpr ⟨h1, h2, h3, h4⟩
    rw [he] at ha
    cases ha
  case h_2 a ha =>
    obtain ⟨h1, h2, h3, h4⟩ := newDeliveryAttempt_isOk.mp ⟨a, ha⟩
    have hk : a.key = (job.id, wrapI32 (job.attemptCount + 1)) := by
      obtain ⟨hid, hn, -⟩ := newDeliveryAttempt_ok ha
      simp [DeliveryAttempt.key, hid, hn]
    simp only [h1, h2, h3, h4, true_and, and_self, ← hk]
    by_cases hf : ∀ b ∈ t.deliveryAttempts, b.key ≠ a.key
    · obtain ⟨t₁, ht⟩ := Tables.insertAttempt_ok (by rwa [(newDeliveryAttempt_ok ha).1]) hf
      obtain ⟨-, -, hjobs, -⟩ := Tables.insertAttempt_inserted ht
      have hz : t₁.deliveryJobs.affected (lockedRow job) = 0 ↔
          ∀ j ∈ t.deliveryJobs, lockedRow job j = false := by
        rw [hjobs]
        exact Table.affected_eq_zero
      rw [← hz]
      by_cases h0 : t₁.deliveryJobs.affected (lockedRow job) = 0
      · simpa [ht, h0] using hf
      · simp [ht, h0]
    · have hb : ∃ b ∈ t.deliveryAttempts, b.key = a.key := by
        simpa using hf
      simp [Tables.insertAttempt_taken hb, hf]

/-- When an outcome is committed: its attempt row passes every constraint, and the snapshot holds
the lock of a row. -/
theorem recordOutcome_committed {o : Outcome} {job : ClaimedJob} {d : ℤ} {now : Time} {n : ℤ} :
    (recordOutcome o t job d now).result = .ok (some n) ↔
      n = wrapI32 (job.attemptCount + 1) ∧ optionalTextOk o.error = true ∧
        (timestampOk now = true ∧ o.nextAttemptAt.all timestampOk = true) ∧ 0 < n ∧
        0 ≤ wrapI32 d ∧ (∀ b ∈ t.deliveryAttempts, b.key ≠ (job.id, n)) ∧
        ∃ j ∈ t.deliveryJobs, lockedRow job j = true := by
  constructor
  · intro h
    rcases recordOutcome_cases o t job d now with ⟨-, hno⟩ | ⟨a, hr, hrec⟩
    · exact absurd h (hno n)
    · rw [hr, Except.ok.injEq, Option.some.injEq] at h
      subst h
      obtain ⟨hid, hn, -⟩ := newDeliveryAttempt_ok hrec.made
      obtain ⟨htext, hdates, -, hd⟩ := newDeliveryAttempt_isOk.mp ⟨a, hrec.made⟩
      have hfresh := hrec.fresh
      rw [DeliveryAttempt.key, hid] at hfresh
      exact ⟨hn, htext, hdates, a.number_pos, hd, hfresh, hrec.held⟩
  · rintro ⟨hn, htext, hdates, hpos, hd, hfresh, j, hj, hl⟩
    subst hn
    obtain ⟨a, ha⟩ : ∃ a, newDeliveryAttempt job.id (wrapI32 (job.attemptCount + 1)) now
        o.statusCode o.error d o.willRetry o.nextAttemptAt = .ok a :=
      newDeliveryAttempt_isOk.mpr ⟨htext, hdates, hpos, hd⟩
    obtain ⟨hid, hn, -⟩ := newDeliveryAttempt_ok ha
    have hjob : ∃ r ∈ t.deliveryJobs, r.id = a.jobId := by
      simp only [lockedRow, Bool.and_eq_true, decide_eq_true_eq] at hl
      exact ⟨j, hj, hl.1.1.trans hid.symm⟩
    obtain ⟨t₁, ht⟩ := t.insertAttempt_ok hjob (by rwa [DeliveryAttempt.key, hid, hn])
    have hz : t₁.deliveryJobs.affected (lockedRow job) ≠ 0 := by
      rw [(Tables.insertAttempt_inserted ht).2.2.1, ne_eq, Table.affected_eq_zero]
      exact fun hnone => by simp [hnone j hj] at hl
    simp only [recordOutcome, ha, ht, if_neg hz, hn]

/-- The three calls are one transaction with different outcomes. -/
theorem RecordCall.run_eq (r : RecordCall) (t : Tables) (job : ClaimedJob) (now : Time) :
    r.run t job now = (recordOutcome r.outcome t job r.durationMs now).map Option.isSome := by
  cases r <;> rfl

/-- A call either leaves the tables and reports nothing recorded, or it commits an outcome. -/
theorem RecordCall.run_cases (r : RecordCall) (t : Tables) (job : ClaimedJob) (now : Time) :
    ((r.run t job now).tables = t ∧ (r.run t job now).result ≠ .ok true) ∨
    (r.run t job now).result = .ok true ∧
      ∃ a, Recorded r.outcome t (r.run t job now).tables job r.durationMs now a := by
  rw [run_eq]
  rcases recordOutcome_cases r.outcome t job r.durationMs now with ⟨ht, hn⟩ | ⟨a, hr, hrec⟩
  · refine .inl ⟨ht, fun h => ?_⟩
    cases hres : (recordOutcome r.outcome t job r.durationMs now).result with
    | error e => simp [Reply.map, hres, Except.map] at h
    | ok n =>
      cases n with
      | none => simp [Reply.map, hres, Except.map] at h
      | some n => exact hn n hres
  · exact .inr ⟨by simp [Reply.map, hr, Except.map], a, hrec⟩

/-- What a committed outcome leaves consistent: only a retry names the next attempt, and only
the other two close the job. -/
structure Outcome.Legal (o : Outcome) : Prop where
  terminal : o.status.isTerminal = true ↔ o.willRetry = false
  scheduled : o.willRetry = true ↔ o.nextAttemptAt.isSome = true
  released : o.status ≠ .delivering ∧ o.status ≠ .queued

theorem RecordCall.outcome_legal (r : RecordCall) : r.outcome.Legal := by
  cases r <;> constructor <;>
    simp [outcome, successOutcome, retryOutcome, finalFailureOutcome, JobStatus.isTerminal]

/-- A committed claim: due rows become locked, and each is returned with its event. -/
structure Claimed (t t' : Tables) (jobs : List ClaimedJob) (workerId : String)
    (staleLockSecs : ℤ) (now : Time) : Prop where
  due : ∀ c ∈ jobs, ∃ j ∈ t.deliveryJobs, isDue now staleLockSecs j = true ∧
    ∃ e ∈ t.webhookEvents, e.id = j.eventId ∧ c = claimedJob j e workerId
  nodup : (jobs.map ClaimedJob.id).Nodup
  rows : ∀ r, r ∈ t'.deliveryJobs ↔ ∃ j ∈ t.deliveryJobs,
    ((∃ c ∈ jobs, c.id = j.id) ∧ r = claimRow workerId now j) ∨
      ((∀ c ∈ jobs, c.id ≠ j.id) ∧ r = j)
  events : t'.webhookEvents = t.webhookEvents
  attempts : t'.deliveryAttempts = t.deliveryAttempts
  identities : t'.deliveryJobs.rows.map DeliveryJob.identity =
    t.deliveryJobs.rows.map DeliveryJob.identity

theorem mem_picked {limit staleLockSecs : ℤ} {now : Time} {skip : List Uuid} {id : Uuid}
    (h : id ∈ picked t limit staleLockSecs now skip) :
    ∃ j ∈ t.deliveryJobs, j.id = id ∧ isDue now staleLockSecs j = true := by
  simp only [picked, List.mem_map] at h
  rcases h with ⟨j, hj, rfl⟩
  have hf := (List.mem_insertionSort _).mp (List.mem_of_mem_take hj)
  simp only [List.mem_filter, Bool.and_eq_true] at hf
  exact ⟨j, hf.1, rfl, hf.2.1⟩

/-- Every picked row has its event, so none is lost between UPDATE and RETURNING. -/
theorem mem_returned {workerId : String} {ids : List Uuid} {c : ClaimedJob} :
    c ∈ (t.deliveryJobs.rows.filter (ids.contains ·.id)).filterMap (returning t workerId) ↔
      ∃ j ∈ t.deliveryJobs, j.id ∈ ids ∧
        ∃ e ∈ t.webhookEvents, e.id = j.eventId ∧ c = claimedJob j e workerId := by
  simp only [List.mem_filterMap, List.mem_filter, List.contains_iff_mem, returning,
    Option.map_eq_some_iff, Table.find?_eq_some, Table.mem_def]
  constructor
  · rintro ⟨j, ⟨hj, hid⟩, e, ⟨he, hev⟩, rfl⟩
    exact ⟨j, hj, hid, e, he, hev, rfl⟩
  · rintro ⟨j, hj, hid, e, he, hev, rfl⟩
    exact ⟨j, ⟨hj, hid⟩, e, ⟨he, hev⟩, rfl⟩

theorem returned_nodup (workerId : String) (ids : List Uuid) :
    (((t.deliveryJobs.rows.filter (ids.contains ·.id)).filterMap
      (returning t workerId)).map ClaimedJob.id).Nodup := by
  have hsub : ∀ l : List DeliveryJob,
      ((l.filterMap (returning t workerId)).map ClaimedJob.id).Sublist (l.map DeliveryJob.id) := by
    intro l
    induction l with
    | nil => simp
    | cons j l ih =>
      rw [List.filterMap_cons]
      cases hr : returning t workerId j with
      | none => exact ih.trans (List.sublist_cons_self _ _)
      | some c =>
        obtain ⟨e, -, rfl⟩ := Option.map_eq_some_iff.mp hr
        exact ih.cons_cons _
  exact (hsub _).nodup ((List.filter_sublist.map _).nodup t.deliveryJobs.unique)

theorem length_claimed {workerId : String} {limit staleLockSecs : ℤ} {now : Time}
    {skip : List Uuid} {jobs : List ClaimedJob}
    (h : claimDueJobs t workerId limit staleLockSecs now skip = ⟨.ok jobs, t'⟩) :
    jobs.length ≤ limit.toNat := by
  simp only [claimDueJobs] at h
  split_ifs at h
  · cases h
  · cases h
  · cases h
  · cases h
    calc _ ≤ _ := List.length_filterMap_le _ _
      _ ≤ (picked t limit staleLockSecs now skip).length := t.deliveryJobs.length_filter_contains _
      _ ≤ limit.toNat := by
        rw [picked, List.length_map]
        exact List.length_take_le _ _

theorem claimDueJobs_cases (t : Tables) (workerId : String) (limit staleLockSecs : ℤ) (now : Time)
    (skip : List Uuid) :
    (∃ e, claimDueJobs t workerId limit staleLockSecs now skip = ⟨.error e, t⟩) ∨
    ∃ jobs t', claimDueJobs t workerId limit staleLockSecs now skip = ⟨.ok jobs, t'⟩ ∧
      Claimed t t' jobs workerId staleLockSecs now := by
  simp only [claimDueJobs]
  split_ifs
  · exact .inl ⟨_, rfl⟩
  · exact .inl ⟨_, rfl⟩
  · exact .inl ⟨_, rfl⟩
  · refine .inr ⟨_, _, rfl, ?_, returned_nodup _ _, ?_, rfl, rfl,
      Tables.identities_updateJobs t _ _ (claimRow_id workerId now) (claimRow_eventId workerId now)
        fun _ => rfl⟩
    · intro c hc
      obtain ⟨j, hj, hid, e, he, hev, rfl⟩ := mem_returned.mp hc
      obtain ⟨j', hj', hid', hdue⟩ := mem_picked hid
      rw [Table.eq_of_key_eq hj' hj hid'] at hdue
      exact ⟨j, hj, hdue, e, he, hev, rfl⟩
    · intro r
      rw [claimTables, Tables.mem_updateJobs]
      have hiff : ∀ j ∈ t.deliveryJobs, (j.id ∈ picked t limit staleLockSecs now skip) ↔
          ∃ c ∈ (t.deliveryJobs.rows.filter
            ((picked t limit staleLockSecs now skip).contains ·.id)).filterMap
              (returning t workerId), c.id = j.id := by
        intro j hj
        constructor
        · intro hid
          obtain ⟨e, he, hev⟩ := t.jobEvent j hj
          exact ⟨_, mem_returned.mpr ⟨j, hj, hid, e, he, hev, rfl⟩, rfl⟩
        · rintro ⟨c, hc, hcid⟩
          obtain ⟨j', hj', hid', e, -, -, rfl⟩ := mem_returned.mp hc
          rw [← hcid]
          exact hid'
      refine exists_congr fun j => and_congr_right fun hj => ?_
      by_cases hid : j.id ∈ picked t limit staleLockSecs now skip
      · have hc := (hiff j hj).mp hid
        have hn : ¬ ∀ c ∈ (t.deliveryJobs.rows.filter
            ((picked t limit staleLockSecs now skip).contains ·.id)).filterMap
              (returning t workerId), c.id ≠ j.id := by
          rcases hc with ⟨c, hm, he⟩
          exact fun h => h c hm he
        simp only [hc, hn, List.contains_iff_mem, hid, if_true, true_and, false_and, or_false]
      · have hc := mt (hiff j hj).mpr hid
        have hn := fun c hm he => hc ⟨c, hm, he⟩
        simp only [hc, List.contains_iff_mem, hid, if_false, false_and, false_or]
        exact ⟨fun h => ⟨hn, h⟩, fun h => h.2⟩

structure Refreshed (t t' : Tables) (job : ClaimedJob) (url : String) : Prop where
  rows : ∀ r, r ∈ t'.deliveryJobs ↔
    ∃ j ∈ t.deliveryJobs, r = if lockedRow job j then urlRow url j else j
  events : t'.webhookEvents = t.webhookEvents
  attempts : t'.deliveryAttempts = t.deliveryAttempts
  identities : t'.deliveryJobs.rows.map DeliveryJob.identity =
    t.deliveryJobs.rows.map DeliveryJob.identity

/-- The call reports whether the job is still locked, and changes nothing when it is not. -/
theorem updateUrl_cases (t : Tables) (job : ClaimedJob) (url : String) :
    (updateClaimedJobDestinationUrl t job url).tables = t ∧
      (updateClaimedJobDestinationUrl t job url).result ≠ .ok true ∨
    (updateClaimedJobDestinationUrl t job url).result = .ok true ∧
      (∃ j ∈ t.deliveryJobs, lockedRow job j = true) ∧
      Refreshed t (updateClaimedJobDestinationUrl t job url).tables job url := by
  simp only [updateClaimedJobDestinationUrl]
  split_ifs
  · exact .inl ⟨rfl, by simp⟩
  · by_cases hz : t.deliveryJobs.affected (lockedRow job) = 0
    · refine .inl ⟨?_, by simp [hz]⟩
      simp only [Tables.updateJobs, Table.updateWhere_of_affected_eq_zero hz]
    · refine .inr ⟨by simpa using Nat.pos_of_ne_zero hz, ?_, ?_, rfl, rfl,
        Tables.identities_updateJobs t _ _ (urlRow_id url) (urlRow_eventId url) fun _ => rfl⟩
      · simpa [Table.affected_eq_zero] using hz
      · intro r
        rw [Tables.mem_updateJobs]

theorem Enqueue.prepare_ok {q : Enqueue} {deadlineAt : Time} {svixId svixTimestamp : String}
    (h : q.prepare = .ok (deadlineAt, svixId, svixTimestamp)) :
    addTime q.now q.retryWindow = some deadlineAt ∧
      headerToString q.headers "svix-id" = some svixId ∧
      headerToString q.headers "svix-timestamp" = some svixTimestamp := by
  rw [Enqueue.prepare] at h
  split at h
  case h_1 => cases h
  case h_2 hd =>
    split at h
    case h_1 => cases h
    case h_2 hx =>
      split at h
      case h_1 => cases h
      case h_2 hy =>
        cases h
        exact ⟨hd, hx, hy⟩

theorem newWebhookEvent_ok {id : Uuid} {svixId svixTimestamp : String} {now : Time}
    {eventId eventType : Option String} {body : Bytes} {headers : Json} {count : ℤ}
    {e : WebhookEvent} (h : newWebhookEvent id svixId svixTimestamp now eventId eventType body
      headers count = .ok e) :
    e.id = id ∧ e.sourceSvixId = svixId ∧ e.sourceSvixTimestamp = svixTimestamp ∧
      e.rawBody = body ∧ e.headers = headers ∧ e.matchedDestinationCount = count := by
  simp only [newWebhookEvent] at h
  split_ifs at h
  cases h
  exact ⟨rfl, rfl, rfl, rfl, rfl, rfl⟩

/-- A new job is queued, due at its creation, and not locked. -/
structure FreshJob (q : Enqueue) (deadlineAt : Time) (d : DestinationConfig) (j : DeliveryJob) :
    Prop where
  eventId : j.eventId = q.eventRowId
  destinationName : j.destinationName = d.name
  destinationUrl : j.destinationUrl = d.url
  status : j.status = .queued
  attemptCount : j.attemptCount = 0
  nextAttemptAt : j.nextAttemptAt = q.now
  deadlineAt : j.deadlineAt = deadlineAt
  createdAt : j.createdAt = q.now
  unlocked : j.lockedAt = none ∧ j.lockedBy = none
  unattempted : j.lastAttemptAt = none ∧ j.lastStatusCode = none ∧ j.lastError = none
  open_ : j.completedAt = none

theorem Enqueue.jobRow_ok {q : Enqueue} {deadlineAt : Time} {i : ℕ} {d : DestinationConfig}
    {j : DeliveryJob} (h : q.jobRow deadlineAt i d = .ok j) :
    FreshJob q deadlineAt d j ∧ j.id = q.jobIds i := by
  simp only [Enqueue.jobRow, newDeliveryJob] at h
  split_ifs at h
  cases h
  exact ⟨⟨rfl, rfl, rfl, rfl, rfl, rfl, rfl, rfl, ⟨rfl, rfl⟩, ⟨rfl, rfl, rfl⟩, rfl⟩, rfl⟩

/-- A committed event: its row, and one queued job for each destination. -/
structure Enqueued (q : Enqueue) (t t' : Tables) (e : WebhookEvent) (deadlineAt : Time)
    (js : List DeliveryJob) : Prop where
  prepared : q.prepare = .ok (deadlineAt, e.sourceSvixId, e.sourceSvixTimestamp)
  made : q.eventRow e.sourceSvixId e.sourceSvixTimestamp = .ok e
  fresh : ∀ r ∈ t.webhookEvents, r.id ≠ e.id ∧ r.sourceSvixId ≠ e.sourceSvixId
  events : t'.webhookEvents.rows = t.webhookEvents.rows ++ [e]
  jobs : t'.deliveryJobs.rows = t.deliveryJobs.rows ++ js
  attempts : t'.deliveryAttempts = t.deliveryAttempts
  names : js.map (·.destinationName) = q.destinations.map (·.name)
  ids : js.map (·.id) = (List.range q.destinations.length).map q.jobIds
  queued : ∀ j ∈ js, ∃ d ∈ q.destinations, FreshJob q deadlineAt d j

theorem insertDeliveryJobs_ok {q : Enqueue} {deadlineAt : Time} {i : ℕ}
    {ds : List DestinationConfig} (h : q.insertDeliveryJobs deadlineAt t i ds = .ok t') :
    ∃ js, t'.deliveryJobs.rows = t.deliveryJobs.rows ++ js ∧
      t'.webhookEvents = t.webhookEvents ∧ t'.deliveryAttempts = t.deliveryAttempts ∧
      js.map (·.destinationName) = ds.map (·.name) ∧
      js.map (·.id) = (List.range ds.length).map (fun k => q.jobIds (i + k)) ∧
      ∀ j ∈ js, ∃ d ∈ ds, FreshJob q deadlineAt d j := by
  induction ds generalizing t i with
  | nil =>
    cases h
    exact ⟨[], by simp, rfl, rfl, rfl, rfl, by simp⟩
  | cons d ds ih =>
    obtain ⟨j, hj, h⟩ := bind_eq_ok.mp h
    obtain ⟨t₁, ht, h⟩ := bind_eq_ok.mp h
    obtain ⟨hrows, hevents, hattempts, -⟩ := Tables.insertJob_inserted ht
    obtain ⟨js, hjs, hevents', hattempts', hnames, hids, hqueued⟩ := ih h
    obtain ⟨hf, hid⟩ := Enqueue.jobRow_ok hj
    refine ⟨j :: js, by rw [hjs, hrows]; simp, hevents'.trans hevents,
      hattempts'.trans hattempts, by simp [hnames, hf.destinationName], ?_, ?_⟩
    · rw [List.map_cons, hids, hid, List.length_cons, List.range_succ_eq_map, List.map_cons,
        List.map_map]
      have hshift : ∀ k, q.jobIds (i + 1 + k) = q.jobIds (i + (k + 1)) := fun k => by
        congr 1
        omega
      simp only [hshift, Function.comp_def, Nat.add_zero, Nat.succ_eq_add_one]
    simp only [List.forall_mem_cons]
    refine ⟨⟨d, List.mem_cons_self, hf⟩, fun k hk => ?_⟩
    obtain ⟨d', hd', hk⟩ := hqueued k hk
    exact ⟨d', List.mem_cons_of_mem _ hd', hk⟩

theorem enqueueEvent_cases (t : Tables) (q : Enqueue) :
    ((enqueueEvent t q).tables = t ∧ ∀ id, (enqueueEvent t q).result ≠ .ok (.inserted id)) ∨
    ∃ e deadlineAt js, (enqueueEvent t q).result = .ok (.inserted q.eventRowId) ∧
      Enqueued q t (enqueueEvent t q).tables e deadlineAt js := by
  simp only [enqueueEvent]
  split
  case h_1 => exact .inl ⟨rfl, by simp⟩
  case h_2 deadlineAt svixId svixTimestamp hp =>
    split
    case h_1 => exact .inl ⟨rfl, by simp⟩
    case h_2 => exact .inl ⟨rfl, by simp⟩
    case h_3 t₁ ht =>
      obtain ⟨e, he, ht⟩ := bind_eq_ok.mp ht
      obtain ⟨hevents, hjobs, hattempts, hfresh⟩ := Tables.insertEvent_inserted ht
      obtain ⟨-, hid, hts, -⟩ := newWebhookEvent_ok he
      split
      case h_1 => exact .inl ⟨rfl, by simp⟩
      case h_2 t₂ h₂ =>
        obtain ⟨js, hrows, hevents', hattempts', hnames, hids, hqueued⟩ := insertDeliveryJobs_ok h₂
        refine .inr ⟨e, deadlineAt, js, rfl, ?_, ?_, hfresh, ?_, ?_, ?_, hnames, ?_, hqueued⟩
        · rw [hp, hid, hts]
        · rw [hid, hts, he]
        · rw [hevents', hevents]
        · rw [hrows, hjobs]
        · rw [hattempts', hattempts]
        · simpa only [Nat.zero_add] using hids

end ResendRouter.Database
