import ResendRouter.Foundation.Table
import ResendRouter.Foundation.Json
import ResendRouter.Program.Basic

/-! # The tables and their constraints

The rows carry the CHECK constraints of the migration, and the tables carry
its PRIMARY KEY, UNIQUE and REFERENCES constraints, so that only states the
database admits can be built. Statements that would break one fail.
-/

namespace ResendRouter.Database
open Foundation Program

/-- 4714-11-24 00:00:00 UTC before Christ, the first moment that `timestamptz` has. -/
def minTimestamp : Time := seconds (-210866803200)

/-- The end of the year 294276 UTC, the first moment that it no longer has. -/
def endTimestamp : Time := seconds 9224318016000

/-- The database refuses a date outside its range, although the program has dates from the year
-9999 on. -/
def timestampOk (t : Time) : Bool := minTimestamp ≤ t && t < endTimestamp

theorem timestampOk_getD {next : Option Time} {t : Time} (hn : next.all timestampOk = true)
    (ht : timestampOk t = true) : timestampOk (next.getD t) = true := by
  cases next with
  | none => exact ht
  | some u => exact hn

inductive JobStatus where
  | queued
  | delivering
  | retrying
  | succeeded
  | failed
  deriving DecidableEq

/-- The two statuses that a worker writes together with `completed_at`. -/
def JobStatus.isTerminal : JobStatus → Bool
  | .succeeded => true
  | .failed => true
  | _ => false

structure WebhookEvent where
  id : Uuid
  sourceSvixId : String
  sourceSvixTimestamp : String
  receivedAt : Time
  resendEventId : Option String
  resendEventType : Option String
  rawBody : Bytes
  headers : Json
  matchedDestinationCount : ℤ
  count_nonneg : 0 ≤ matchedDestinationCount
  received_ok : timestampOk receivedAt = true

structure DeliveryJob where
  id : Uuid
  eventId : Uuid
  destinationName : String
  destinationUrl : String
  status : JobStatus
  attemptCount : ℤ
  nextAttemptAt : Time
  deadlineAt : Time
  lockedAt : Option Time
  lockedBy : Option String
  lastAttemptAt : Option Time
  lastStatusCode : Option ℤ
  lastError : Option String
  completedAt : Option Time
  createdAt : Time
  count_nonneg : 0 ≤ attemptCount
  next_ok : timestampOk nextAttemptAt = true
  deadline_ok : timestampOk deadlineAt = true
  created_ok : timestampOk createdAt = true
  deriving DecidableEq

structure DeliveryAttempt where
  jobId : Uuid
  attemptNumber : ℤ
  attemptedAt : Time
  statusCode : Option ℤ
  error : Option String
  durationMs : ℤ
  willRetry : Bool
  nextAttemptAt : Option Time
  number_pos : 0 < attemptNumber
  duration_nonneg : 0 ≤ durationMs
  attempted_ok : timestampOk attemptedAt = true
  next_ok : nextAttemptAt.all timestampOk = true
  deriving DecidableEq

/-- The columns of a job that no UPDATE sets. -/
def DeliveryJob.identity (j : DeliveryJob) : Uuid × Uuid × String × Time :=
  (j.id, j.eventId, j.destinationName, j.deadlineAt)

def DeliveryAttempt.key (a : DeliveryAttempt) : Uuid × ℤ := (a.jobId, a.attemptNumber)

structure Tables where
  webhookEvents : Table WebhookEvent WebhookEvent.id
  deliveryJobs : Table DeliveryJob DeliveryJob.id
  deliveryAttempts : Table DeliveryAttempt DeliveryAttempt.key
  svixUnique : (webhookEvents.rows.map WebhookEvent.sourceSvixId).Nodup
  jobEvent : ∀ j ∈ deliveryJobs, ∃ e ∈ webhookEvents, e.id = j.eventId
  attemptJob : ∀ a ∈ deliveryAttempts, ∃ j ∈ deliveryJobs, j.id = a.jobId

/-- A text column admits every text without U+0000. -/
def textOk (s : String) : Bool := ! s.toList.contains '\x00'

def optionalTextOk (s : Option String) : Bool := s.all textOk

mutual

/-- A jsonb column admits the documents all of whose strings it admits. -/
def jsonOk : Json → Bool
  | .string s => textOk s
  | .array items => jsonItemsOk items
  | .object entries => jsonEntriesOk entries
  | _ => true

def jsonItemsOk : List Json → Bool
  | [] => true
  | j :: js => jsonOk j && jsonItemsOk js

def jsonEntriesOk : List (String × Json) → Bool
  | [] => true
  | (k, j) :: es => textOk k && jsonOk j && jsonEntriesOk es

end

/-- The row of an INSERT into `webhook_events`, once its values pass the column checks. -/
def newWebhookEvent (id : Uuid) (svixId svixTimestamp : String) (receivedAt : Time)
    (eventId eventType : Option String) (rawBody : Bytes) (headers : Json) (count : ℤ) :
    Except DbError WebhookEvent :=
  if (textOk svixId && textOk svixTimestamp && optionalTextOk eventId && optionalTextOk eventType
      && jsonOk headers) = false then .error .invalidText
  else if hr : timestampOk receivedAt = true then
    if h : 0 ≤ count then
      .ok ⟨id, svixId, svixTimestamp, receivedAt, eventId, eventType, rawBody, headers, count, h,
        hr⟩
    else .error .checkViolation
  else .error .timestampOutOfRange

/-- The row of an INSERT into `delivery_jobs`, queued and due at once. -/
def newDeliveryJob (id eventId : Uuid) (destinationName destinationUrl : String)
    (now deadlineAt : Time) : Except DbError DeliveryJob :=
  if (textOk destinationName && textOk destinationUrl) = false then .error .invalidText
  else if h : timestampOk now = true ∧ timestampOk deadlineAt = true then .ok {
    id := id, eventId := eventId
    destinationName := destinationName, destinationUrl := destinationUrl
    status := .queued, attemptCount := 0
    nextAttemptAt := now, deadlineAt := deadlineAt
    lockedAt := none, lockedBy := none
    lastAttemptAt := none, lastStatusCode := none, lastError := none
    completedAt := none, createdAt := now
    count_nonneg := le_refl 0, next_ok := h.1, deadline_ok := h.2, created_ok := h.1 }
  else .error .timestampOutOfRange

/-- The row of an INSERT into `delivery_attempts`; the duration is cast to `i32` first. -/
def newDeliveryAttempt (jobId : Uuid) (attemptNumber : ℤ) (attemptedAt : Time)
    (statusCode : Option ℤ) (error : Option String) (durationMs : ℤ) (willRetry : Bool)
    (nextAttemptAt : Option Time) : Except DbError DeliveryAttempt :=
  if optionalTextOk error = false then .error .invalidText
  else if ht : timestampOk attemptedAt = true ∧ nextAttemptAt.all timestampOk = true then
    if h : 0 < attemptNumber ∧ 0 ≤ wrapI32 durationMs then
      .ok ⟨jobId, attemptNumber, attemptedAt, statusCode, error, wrapI32 durationMs, willRetry,
        nextAttemptAt, h.1, h.2, ht.1, ht.2⟩
    else .error .checkViolation
  else .error .timestampOutOfRange

namespace Tables

def empty : Tables where
  webhookEvents := .empty
  deliveryJobs := .empty
  deliveryAttempts := .empty
  svixUnique := List.nodup_nil
  jobEvent := fun _ h => absurd h Table.not_mem_empty
  attemptJob := fun _ h => absurd h Table.not_mem_empty

/-- INSERT ... ON CONFLICT (source_svix_id) DO NOTHING; `none` when the conflict arises. -/
def insertEvent (t : Tables) (e : WebhookEvent) : Except DbError (Option Tables) :=
  if hs : e.sourceSvixId ∈ t.webhookEvents.rows.map WebhookEvent.sourceSvixId then .ok none
  else match h : t.webhookEvents.insert e with
    | none => .error .uniqueViolation
    | some events => .ok (some { t with
        webhookEvents := events
        svixUnique := by
          rw [Table.insert_rows h, List.map_append, List.nodup_append]
          refine ⟨t.svixUnique, by simp, ?_⟩
          intro a ha b hb
          obtain rfl : b = e.sourceSvixId := by simpa using hb
          exact fun hab => hs (hab ▸ ha)
        jobEvent := fun j hj => by
          obtain ⟨r, hr, hid⟩ := t.jobEvent j hj
          exact ⟨r, (Table.mem_insert h).mpr (.inl hr), hid⟩ })

def insertJob (t : Tables) (j : DeliveryJob) : Except DbError Tables :=
  match h : t.deliveryJobs.insert j with
  | none => .error .uniqueViolation
  | some jobs =>
    if he : j.eventId ∈ t.webhookEvents.rows.map WebhookEvent.id then .ok { t with
      deliveryJobs := jobs
      jobEvent := fun r hr => by
        rcases (Table.mem_insert h).mp hr with hr | rfl
        · exact t.jobEvent r hr
        · exact List.mem_map.mp he
      attemptJob := fun a ha => by
        obtain ⟨r, hr, hid⟩ := t.attemptJob a ha
        exact ⟨r, (Table.mem_insert h).mpr (.inl hr), hid⟩ }
    else .error .foreignKeyViolation

def insertAttempt (t : Tables) (a : DeliveryAttempt) : Except DbError Tables :=
  match h : t.deliveryAttempts.insert a with
  | none => .error .uniqueViolation
  | some attempts =>
    if hj : a.jobId ∈ t.deliveryJobs.rows.map DeliveryJob.id then .ok { t with
      deliveryAttempts := attempts
      attemptJob := fun b hb => by
        rcases (Table.mem_insert h).mp hb with hb | rfl
        · exact t.attemptJob b hb
        · exact List.mem_map.mp hj }
    else .error .foreignKeyViolation

/-- UPDATE delivery_jobs SET ... WHERE `p`; the key and the reference of a row never change. -/
def updateJobs (t : Tables) (p : DeliveryJob → Bool) (f : DeliveryJob → DeliveryJob)
    (hid : ∀ j, (f j).id = j.id) (hev : ∀ j, (f j).eventId = j.eventId) : Tables := { t with
  deliveryJobs := t.deliveryJobs.updateWhere p f hid
  jobEvent := fun r hr => by
    obtain ⟨j, hj, rfl⟩ := Table.mem_updateWhere.mp hr
    have he : (if p j then f j else j).eventId = j.eventId := by split <;> simp [hev]
    rw [he]
    exact t.jobEvent j hj
  attemptJob := fun a ha => by
    obtain ⟨j, hj, hja⟩ := t.attemptJob a ha
    refine ⟨_, Table.mem_updateWhere.mpr ⟨j, hj, rfl⟩, ?_⟩
    rw [← hja]
    split <;> simp [hid] }

def attemptsOf (t : Tables) (id : Uuid) : List DeliveryAttempt :=
  t.deliveryAttempts.rows.filter (·.jobId = id)

variable {t t' : Tables}

theorem insertEvent_conflict {e : WebhookEvent} (h : t.insertEvent e = .ok none) :
    ∃ r ∈ t.webhookEvents, r.sourceSvixId = e.sourceSvixId := by
  simp only [insertEvent] at h
  split at h
  case isTrue hs => exact List.mem_map.mp hs
  case isFalse => split at h <;> simp at h

theorem insertEvent_duplicate {e : WebhookEvent}
    (h : ∃ r ∈ t.webhookEvents, r.sourceSvixId = e.sourceSvixId) : t.insertEvent e = .ok none := by
  rw [insertEvent, dif_pos (List.mem_map.mpr h)]

theorem insertEvent_inserted {e : WebhookEvent} (h : t.insertEvent e = .ok (some t')) :
    t'.webhookEvents.rows = t.webhookEvents.rows ++ [e] ∧ t'.deliveryJobs = t.deliveryJobs ∧
      t'.deliveryAttempts = t.deliveryAttempts ∧
      (∀ r ∈ t.webhookEvents, r.id ≠ e.id ∧ r.sourceSvixId ≠ e.sourceSvixId) := by
  simp only [insertEvent] at h
  split at h
  case isTrue => simp at h
  case isFalse hs =>
    split at h
    case h_1 => cases h
    case h_2 events hi =>
      cases h
      refine ⟨Table.insert_rows hi, rfl, rfl, fun r hr => ⟨Table.key_ne_of_insert hi hr, ?_⟩⟩
      exact fun he => hs (List.mem_map.mpr ⟨r, hr, he⟩)

theorem insertEvent_ok {e : WebhookEvent}
    (hk : ∀ r ∈ t.webhookEvents, r.id ≠ e.id ∧ r.sourceSvixId ≠ e.sourceSvixId) :
    ∃ t', t.insertEvent e = .ok (some t') := by
  simp only [insertEvent]
  split
  case isTrue hs =>
    obtain ⟨r, hr, he⟩ := List.mem_map.mp hs
    exact absurd he (hk r hr).2
  case isFalse =>
    split
    case h_1 hi =>
      obtain ⟨r, hr, he⟩ := Table.insert_eq_none.mp hi
      exact absurd he (hk r hr).1
    case h_2 => exact ⟨_, rfl⟩

theorem insertJob_inserted {j : DeliveryJob} (h : t.insertJob j = .ok t') :
    t'.deliveryJobs.rows = t.deliveryJobs.rows ++ [j] ∧ t'.webhookEvents = t.webhookEvents ∧
      t'.deliveryAttempts = t.deliveryAttempts ∧ (∀ r ∈ t.deliveryJobs, r.id ≠ j.id) ∧
      ∃ e ∈ t.webhookEvents, e.id = j.eventId := by
  simp only [insertJob] at h
  split at h
  case h_1 => cases h
  case h_2 jobs hi =>
    split at h
    case isTrue he =>
      cases h
      exact ⟨Table.insert_rows hi, rfl, rfl, fun r hr => Table.key_ne_of_insert hi hr,
        List.mem_map.mp he⟩
    case isFalse => cases h

theorem insertJob_ok {j : DeliveryJob} (he : ∃ e ∈ t.webhookEvents, e.id = j.eventId)
    (hk : ∀ r ∈ t.deliveryJobs, r.id ≠ j.id) : ∃ t', t.insertJob j = .ok t' := by
  simp only [insertJob]
  split
  case h_1 hi =>
    obtain ⟨r, hr, hid⟩ := Table.insert_eq_none.mp hi
    exact absurd hid (hk r hr)
  case h_2 => exact ⟨_, dif_pos (List.mem_map.mpr he)⟩

theorem insertAttempt_inserted {a : DeliveryAttempt} (h : t.insertAttempt a = .ok t') :
    t'.deliveryAttempts.rows = t.deliveryAttempts.rows ++ [a] ∧
      t'.webhookEvents = t.webhookEvents ∧ t'.deliveryJobs = t.deliveryJobs ∧
      (∀ b ∈ t.deliveryAttempts, b.key ≠ a.key) ∧ ∃ j ∈ t.deliveryJobs, j.id = a.jobId := by
  simp only [insertAttempt] at h
  split at h
  case h_1 => cases h
  case h_2 attempts hi =>
    split at h
    case isTrue hj =>
      cases h
      refine ⟨Table.insert_rows hi, rfl, rfl, fun b hb => Table.key_ne_of_insert hi hb, ?_⟩
      exact List.mem_map.mp hj
    case isFalse => cases h

theorem insertAttempt_ok {a : DeliveryAttempt} (hj : ∃ j ∈ t.deliveryJobs, j.id = a.jobId)
    (hk : ∀ b ∈ t.deliveryAttempts, b.key ≠ a.key) : ∃ t', t.insertAttempt a = .ok t' := by
  simp only [insertAttempt]
  split
  case h_1 hi =>
    obtain ⟨b, hb, he⟩ := Table.insert_eq_none.mp hi
    exact absurd he (hk b hb)
  case h_2 => exact ⟨_, dif_pos (List.mem_map.mpr hj)⟩

theorem insertAttempt_taken {a : DeliveryAttempt} (hk : ∃ b ∈ t.deliveryAttempts, b.key = a.key) :
    t.insertAttempt a = .error .uniqueViolation := by
  simp only [insertAttempt]
  split
  case h_1 => rfl
  case h_2 hi =>
    rw [Table.insert_eq_none.mpr hk] at hi
    cases hi

theorem mem_updateJobs {p : DeliveryJob → Bool} {f : DeliveryJob → DeliveryJob}
    {hid : ∀ j, (f j).id = j.id} {hev : ∀ j, (f j).eventId = j.eventId} {r : DeliveryJob} :
    r ∈ (t.updateJobs p f hid hev).deliveryJobs ↔
      ∃ j ∈ t.deliveryJobs, r = if p j then f j else j := by
  simp only [updateJobs, Table.mem_updateWhere]

theorem identities_updateJobs (t : Tables) (p : DeliveryJob → Bool) (f : DeliveryJob → DeliveryJob)
    (hid : ∀ j, (f j).id = j.id) (hev : ∀ j, (f j).eventId = j.eventId)
    (hf : ∀ j, (f j).identity = j.identity) :
    (t.updateJobs p f hid hev).deliveryJobs.rows.map DeliveryJob.identity =
      t.deliveryJobs.rows.map DeliveryJob.identity :=
  @Table.map_updateWhere _ _ _ t.deliveryJobs p f hid _ DeliveryJob.identity hf

end Tables
end ResendRouter.Database
