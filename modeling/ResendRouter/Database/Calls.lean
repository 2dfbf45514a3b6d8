import ResendRouter.Database.Schema
import ResendRouter.Database.Headers
import Mathlib.Data.List.Sort

/-! # The calls of the database layer

Each call is a function of the tables. A call that fails, or that rolls its
transaction back, leaves the tables as they were. Random identifiers and clock
readings are arguments.
-/

namespace ResendRouter.Database
open Foundation Program

/-- What a call answers, and the tables it leaves. -/
structure Reply (ε α : Type) where
  result : Except ε α
  tables : Tables

def Reply.map {ε α β : Type} (f : α → β) (r : Reply ε α) : Reply ε β := ⟨r.result.map f, r.tables⟩

def Reply.isTrue {ε : Type} (r : Reply ε Bool) : Bool :=
  match r.result with
  | .ok b => b
  | .error _ => false

/-- A database call takes effect and is answered, takes effect and fails for the caller, or
fails without effect. -/
inductive Fate where
  | answered
  | lost
  | never
  deriving DecidableEq

structure ClaimedJob where
  id : Uuid
  eventId : Uuid
  destinationName : String
  destinationUrl : String
  attemptCount : ℤ
  deadlineAt : Time
  lockedBy : String
  rawBody : Bytes
  headers : Json

inductive EnqueueOutcome where
  | inserted (id : Uuid)
  | duplicate
  deriving DecidableEq

/-- The arguments of one `enqueue_event`, with its clock reading and its fresh identifiers. -/
structure Enqueue where
  eventRowId : Uuid
  jobIds : ℕ → Uuid
  now : Time
  headers : HeaderMap
  body : Bytes
  event : ResendEventForRouting
  destinations : List DestinationConfig
  retryWindow : Duration

namespace Enqueue

/-- The values computed before the transaction begins: deadline, svix-id and svix-timestamp. -/
def prepare (q : Enqueue) : Except Failure (Time × String × String) :=
  match addTime q.now q.retryWindow with
  | none => .error .panic
  | some deadlineAt => match headerToString q.headers "svix-id" with
    | none => .error (.error (.badRequest "missing svix-id"))
    | some svixId => match headerToString q.headers "svix-timestamp" with
      | none => .error (.error (.badRequest "missing svix-timestamp"))
      | some svixTimestamp => .ok (deadlineAt, svixId, svixTimestamp)

def eventRow (q : Enqueue) (svixId svixTimestamp : String) : Except DbError WebhookEvent :=
  newWebhookEvent q.eventRowId svixId svixTimestamp q.now q.event.eventId q.event.eventType q.body
    (headersToJson q.headers) (wrapI32 q.destinations.length)

def jobRow (q : Enqueue) (deadlineAt : Time) (i : ℕ) (d : DestinationConfig) :
    Except DbError DeliveryJob :=
  newDeliveryJob (q.jobIds i) q.eventRowId d.name d.url q.now deadlineAt

def insertDeliveryJobs (q : Enqueue) (deadlineAt : Time) :
    Tables → ℕ → List DestinationConfig → Except DbError Tables
  | t, _, [] => .ok t
  | t, i, d :: ds => do
    let row ← q.jobRow deadlineAt i d
    let t ← t.insertJob row
    q.insertDeliveryJobs deadlineAt t (i + 1) ds

end Enqueue

def enqueueEvent (t : Tables) (q : Enqueue) : Reply Failure EnqueueOutcome :=
  match q.prepare with
  | .error failure => ⟨.error failure, t⟩
  | .ok (deadlineAt, svixId, svixTimestamp) =>
    match q.eventRow svixId svixTimestamp >>= t.insertEvent with
    | .error e => ⟨.error (.error (.database e)), t⟩
    | .ok none => ⟨.ok .duplicate, t⟩
    | .ok (some t₁) => match q.insertDeliveryJobs deadlineAt t₁ 0 q.destinations with
      | .error e => ⟨.error (.error (.database e)), t⟩
      | .ok t₂ => ⟨.ok (.inserted q.eventRowId), t₂⟩

/-- The WHERE condition. -/
def isDue (now : Time) (staleLockSecs : ℤ) (j : DeliveryJob) : Bool :=
  ((j.status = .queued || j.status = .retrying) && j.nextAttemptAt ≤ now) ||
    (j.status = .delivering && j.lockedAt.any (· < now - seconds staleLockSecs))

/-- The rows that FOR UPDATE SKIP LOCKED picks. The skipped rows are those that other
transactions hold locked, so they may be any; this also covers every way of breaking ties. -/
def picked (t : Tables) (limit staleLockSecs : ℤ) (now : Time) (skip : List Uuid) : List Uuid :=
  (((t.deliveryJobs.rows.filter fun j => isDue now staleLockSecs j && ! skip.contains j.id)
    |>.insertionSort fun a b => a.nextAttemptAt ≤ b.nextAttemptAt).take limit.toNat).map (·.id)

/-- The bound for `locked_at` is not in the range of `timestamptz`, and some row needs it. While it
is in the range, the product of the seconds with the interval is exact. -/
def staleBoundFails (t : Tables) (staleLockSecs : ℤ) (now : Time) : Bool :=
  ! timestampOk (now - seconds staleLockSecs) &&
    t.deliveryJobs.rows.any fun j => j.status = .delivering && j.lockedAt.isSome

def claimRow (workerId : String) (now : Time) (j : DeliveryJob) : DeliveryJob :=
  { j with status := .delivering, lockedAt := some now, lockedBy := some workerId }

@[simp] theorem claimRow_id (workerId : String) (now : Time) (j : DeliveryJob) :
    (claimRow workerId now j).id = j.id := rfl

@[simp] theorem claimRow_eventId (workerId : String) (now : Time) (j : DeliveryJob) :
    (claimRow workerId now j).eventId = j.eventId := rfl

def claimTables (t : Tables) (ids : List Uuid) (workerId : String) (now : Time) : Tables :=
  t.updateJobs (fun j => ids.contains j.id) (claimRow workerId now)
    (claimRow_id workerId now) (claimRow_eventId workerId now)

/-- The snapshot of a row and its event that RETURNING produces. -/
def claimedJob (j : DeliveryJob) (e : WebhookEvent) (workerId : String) : ClaimedJob where
  id := j.id
  eventId := j.eventId
  destinationName := j.destinationName
  destinationUrl := j.destinationUrl
  attemptCount := j.attemptCount
  deadlineAt := j.deadlineAt
  lockedBy := workerId
  rawBody := e.rawBody
  headers := e.headers

def returning (t : Tables) (workerId : String) (j : DeliveryJob) : Option ClaimedJob :=
  (t.webhookEvents.find? j.eventId).map fun e => claimedJob j e workerId

def claimDueJobs (t : Tables) (workerId : String) (limit staleLockSecs : ℤ) (now : Time)
    (skip : List Uuid) : Reply DbError (List ClaimedJob) :=
  if textOk workerId = false then ⟨.error .invalidText, t⟩
  else if limit < 0 then ⟨.error .invalidLimit, t⟩
  else if staleBoundFails t staleLockSecs now = true then ⟨.error .timestampOutOfRange, t⟩
  else
    let ids := picked t limit staleLockSecs now skip
    ⟨.ok ((t.deliveryJobs.rows.filter (ids.contains ·.id)).filterMap (returning t workerId)),
      claimTables t ids workerId now⟩

/-- WHERE id = $1 AND locked_by = $n AND status = 'delivering'. -/
def lockedRow (job : ClaimedJob) (j : DeliveryJob) : Bool :=
  j.id = job.id && j.lockedBy = some job.lockedBy && j.status = .delivering

def urlRow (url : String) (j : DeliveryJob) : DeliveryJob := { j with destinationUrl := url }

@[simp] theorem urlRow_id (url : String) (j : DeliveryJob) : (urlRow url j).id = j.id := rfl

@[simp] theorem urlRow_eventId (url : String) (j : DeliveryJob) :
    (urlRow url j).eventId = j.eventId := rfl

def updateClaimedJobDestinationUrl (t : Tables) (job : ClaimedJob) (destinationUrl : String) :
    Reply DbError Bool :=
  if textOk destinationUrl = false then ⟨.error .invalidText, t⟩
  else ⟨.ok (0 < t.deliveryJobs.affected (lockedRow job)),
    t.updateJobs (lockedRow job) (urlRow destinationUrl) (urlRow_id destinationUrl)
      (urlRow_eventId destinationUrl)⟩

/-- What the three outcomes write: the attempt row's columns and the status of the job.
Only a retry sets `next_attempt_at`, and only the other two set `completed_at`. -/
structure Outcome where
  status : JobStatus
  statusCode : Option ℤ
  error : Option String
  willRetry : Bool
  nextAttemptAt : Option Time

/-- The UPDATE binds the same dates as the INSERT of the attempt. -/
def Outcome.row (o : Outcome) (a : DeliveryAttempt) (now : Time) (j : DeliveryJob) : DeliveryJob :=
  { j with
    status := o.status
    attemptCount := a.attemptNumber
    nextAttemptAt := a.nextAttemptAt.getD j.nextAttemptAt
    lastAttemptAt := some now
    lastStatusCode := o.statusCode
    lastError := o.error
    completedAt := if o.willRetry then j.completedAt else some now
    lockedAt := none
    lockedBy := none
    count_nonneg := a.number_pos.le
    next_ok := timestampOk_getD a.next_ok j.next_ok }

@[simp] theorem Outcome.row_id (o : Outcome) (a : DeliveryAttempt) (now : Time) (j : DeliveryJob) :
    (o.row a now j).id = j.id := rfl

@[simp] theorem Outcome.row_eventId (o : Outcome) (a : DeliveryAttempt) (now : Time)
    (j : DeliveryJob) : (o.row a now j).eventId = j.eventId := rfl

/-- The transaction of all three calls: insert the attempt row, then update the job under the
lock guard, and roll back when no row is affected. -/
def recordOutcome (o : Outcome) (t : Tables) (job : ClaimedJob) (durationMs : ℤ) (now : Time) :
    Reply DbError (Option ℤ) :=
  match newDeliveryAttempt job.id (wrapI32 (job.attemptCount + 1)) now o.statusCode o.error
      durationMs o.willRetry o.nextAttemptAt with
  | .error e => ⟨.error e, t⟩
  | .ok a => match t.insertAttempt a with
    | .error e => ⟨.error e, t⟩
    | .ok t₁ =>
      if t₁.deliveryJobs.affected (lockedRow job) = 0 then ⟨.ok none, t⟩
      else ⟨.ok (some a.attemptNumber),
        t₁.updateJobs (lockedRow job) (o.row a now) (o.row_id a now) (o.row_eventId a now)⟩

def successOutcome (statusCode : UInt16) : Outcome :=
  ⟨.succeeded, some statusCode.toNat, none, false, none⟩

def retryOutcome (statusCode : Option UInt16) (error : Option String) (nextAttemptAt : Time) :
    Outcome :=
  ⟨.retrying, statusCode.map fun c => (c.toNat : ℤ), error, true, some nextAttemptAt⟩

def finalFailureOutcome (statusCode : Option UInt16) (error : Option String) : Outcome :=
  ⟨.failed, statusCode.map fun c => (c.toNat : ℤ), error, false, none⟩

def recordSuccess (t : Tables) (job : ClaimedJob) (statusCode : UInt16) (durationMs : ℤ)
    (now : Time) : Reply DbError Bool :=
  (recordOutcome (successOutcome statusCode) t job durationMs now).map Option.isSome

def recordRetry (t : Tables) (job : ClaimedJob) (statusCode : Option UInt16)
    (error : Option String) (durationMs : ℤ) (nextAttemptAt now : Time) :
    Reply DbError (Option ℤ) :=
  recordOutcome (retryOutcome statusCode error nextAttemptAt) t job durationMs now

def recordFinalFailure (t : Tables) (job : ClaimedJob) (statusCode : Option UInt16)
    (error : Option String) (durationMs : ℤ) (now : Time) : Reply DbError (Option ℤ) :=
  recordOutcome (finalFailureOutcome statusCode error) t job durationMs now

/-- A call of one of the three, with all of its arguments but the claimed job. -/
inductive RecordCall where
  | success (statusCode : UInt16) (durationMs : ℤ)
  | retry (statusCode : Option UInt16) (error : Option String) (durationMs : ℤ)
      (nextAttemptAt : Time)
  | finalFailure (statusCode : Option UInt16) (error : Option String) (durationMs : ℤ)
  deriving DecidableEq

namespace RecordCall

def run (t : Tables) (job : ClaimedJob) (now : Time) : RecordCall → Reply DbError Bool
  | .success code d => recordSuccess t job code d now
  | .retry code error d next => (recordRetry t job code error d next now).map Option.isSome
  | .finalFailure code error d => (recordFinalFailure t job code error d now).map Option.isSome

def outcome : RecordCall → Outcome
  | .success code _ => successOutcome code
  | .retry code error _ next => retryOutcome code error next
  | .finalFailure code error _ => finalFailureOutcome code error

def durationMs : RecordCall → ℤ
  | .success _ d => d
  | .retry _ _ d _ => d
  | .finalFailure _ _ d => d

end RecordCall
end ResendRouter.Database
