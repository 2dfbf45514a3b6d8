import ResendRouter.Ingest.Intake

/-! # Record calls, statement by statement

`record_success`, `record_retry` and `record_final_failure` insert the attempt
row and then update the job, in one transaction. What a transaction has written
is visible to itself only until it commits; until then an INSERT of the same
attempt number waits for it, and so does every UPDATE of the same job.
-/

namespace ResendRouter.Service
open Foundation Program Database Ingest

variable {svc : Services}

/-- Where a record call stands between two of its awaits. -/
inductive RecordStage where
  | begun
  | inserted (attempt : DeliveryAttempt)
  /-- The job has a new version, and its row is locked. -/
  | updated (attempt : DeliveryAttempt) (row : DeliveryJob)
  /-- The UPDATE has affected no row. -/
  | unaffected
  | returned (answer : Except DbError Bool)
  /-- Gone, or failed for the caller, without an answer of the database. -/
  | cut

def RecordStage.isOpen : RecordStage → Bool
  | .returned _ => false
  | .cut => false
  | _ => true

def RecordStage.answer : RecordStage → Option (Except DbError Bool)
  | .unaffected => some (.ok false)
  | .returned answer => some answer
  | _ => none

/-- A record call with the snapshot that it was given and its reading of the clock. -/
structure Recorder where
  snapshot : ℕ
  job : ClaimedJob
  call : RecordCall
  now : Time
  stage : RecordStage

inductive RecordEvent where
  | insertAttempt
  | updateJob
  | commit (fate : Fate)
  | rollback
  /-- The call fails or its task is gone, and the server rolls back. -/
  | cut

/-- The statements of a call whose task goes on and whose connection holds. -/
def RecordEvent.isStatement : RecordEvent → Bool
  | .commit fate => fate = .answered
  | .cut => false
  | _ => true

namespace Recorder

def attempt (r : Recorder) : Except DbError DeliveryAttempt :=
  newDeliveryAttempt r.job.id (wrapI32 (r.job.attemptCount + 1)) r.now r.call.outcome.statusCode
    r.call.outcome.error r.call.durationMs r.call.outcome.willRetry r.call.outcome.nextAttemptAt

/-- The key of the attempt row that the open transaction has inserted. -/
def heldKey (r : Recorder) : Option (Uuid × ℤ) :=
  match r.stage with
  | .inserted a => some a.key
  | .updated a _ => some a.key
  | _ => none

/-- The id of the job row that the open transaction has locked. -/
def heldRow (r : Recorder) : Option Uuid :=
  match r.stage with
  | .updated _ row => some row.id
  | _ => none

end Recorder

/-- Replace the version of a row; its id and its reference are those of the old version. -/
def overwrite (row j : DeliveryJob) : DeliveryJob := { row with id := j.id, eventId := j.eventId }

/-- What a commit makes visible: the attempt row, and the new version of the job. -/
def installed (t : Tables) (a : DeliveryAttempt) (row : DeliveryJob) : Except DbError Tables := do
  let t₁ ← t.insertAttempt a
  return t₁.updateJobs (·.id = row.id) (overwrite row) (fun _ => rfl) fun _ => rfl

/-- One step of a record call, with the other calls and the committed tables. -/
def Recorder.step (others : List Recorder) (t : Tables) (r : Recorder) :
    RecordEvent → Option (Tables × Recorder)
  | .insertAttempt => match r.stage with
    | .begun => match r.attempt with
      | .error e => some (t, { r with stage := .returned (.error e) })
      | .ok a =>
        if others.any (·.heldKey = some a.key) then none
        else match t.insertAttempt a with
          | .error e => some (t, { r with stage := .returned (.error e) })
          | .ok _ => some (t, { r with stage := .inserted a })
    | _ => none
  | .updateJob => match r.stage with
    | .inserted a =>
      if others.any (·.heldRow = some r.job.id) then none
      else match t.deliveryJobs.rows.find? (lockedRow r.job) with
        | none => some (t, { r with stage := .unaffected })
        | some j => some (t, { r with stage := .updated a (r.call.outcome.row a r.now j) })
    | _ => none
  | .commit fate => match r.stage with
    | .updated a row => match fate, installed t a row with
      | .never, _ => some (t, { r with stage := .cut })
      | .answered, .ok t' => some (t', { r with stage := .returned (.ok true) })
      | .lost, .ok t' => some (t', { r with stage := .cut })
      | _, .error _ => none
    | _ => none
  | .rollback => match r.stage with
    | .unaffected => some (t, { r with stage := .returned (.ok false) })
    | _ => none
  | .cut => if r.stage.isOpen then some (t, { r with stage := .cut }) else none

/-- The handlers with the committed tables, and all record calls so far. -/
structure Connections (svc : Services) where
  intake : Intake svc
  recorders : List Recorder

inductive ConnectionsAction (svc : Services) where
  | intake (a : IntakeAction svc)
  | call (snapshot : ℕ) (call : RecordCall) (now : Time)
  | recorder (i : ℕ) (event : RecordEvent)

namespace Connections

def holdsRow (w : Connections svc) (id : Uuid) : Bool :=
  w.recorders.any (·.heldRow = some id)

/-- A claim skips the rows that are locked, and an UPDATE of the URL waits for them. The record
calls themselves are not atomic here. -/
def admits (w : Connections svc) : DbAction → Bool
  | .record _ _ _ => false
  | .claimDueJobs _ _ _ _ skip => w.recorders.all fun r => r.heldRow.all (skip.contains ·)
  | .updateClaimedJobDestinationUrl snapshot _ =>
    (w.intake.store.claimed[snapshot]?).all fun job => ! w.holdsRow job.id
  | _ => true

def step (w : Connections svc) : ConnectionsAction svc → Option (Connections svc)
  | .intake (.worker a) =>
    if w.admits a then (w.intake.step (.worker a)).map fun v => { w with intake := v } else none
  | .intake a => (w.intake.step a).map fun v => { w with intake := v }
  | .call snapshot call now => (w.intake.store.claimed[snapshot]?).map fun job =>
      { w with recorders := w.recorders ++ [⟨snapshot, job, call, now, .begun⟩] }
  | .recorder i event => match w.recorders[i]? with
    | none => none
    | some r => (r.step (w.recorders.eraseIdx i) w.intake.store.tables event).map fun (t, r) =>
        ⟨{ w.intake with store := { w.intake.store with tables := t } }, w.recorders.set i r⟩

end Connections

def connections (svc : Services) : System (Connections svc) (ConnectionsAction svc) :=
  ⟨⟨(intake svc).init, []⟩, Connections.step⟩

end ResendRouter.Service
