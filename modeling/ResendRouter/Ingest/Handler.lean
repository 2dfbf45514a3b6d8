import ResendRouter.Database.Ledger
import ResendRouter.Program.Resend

/-! # Concurrent webhook handlers

`resend_webhook` between two of its awaits, on any number of replicas. The
statements of a transaction are visible to itself only until it commits; an
INSERT waits for another open transaction that has taken the same unique key.
-/

namespace ResendRouter.Ingest
open Foundation Program Database

/-- The keyed hash, the JSON parser and the URL parser. -/
structure Services where
  hmacSha256 : Bytes → Bytes → Bytes
  fromSlice : Bytes → Except String Json
  parseUrl : String → Except String String

/-- A process with a validated configuration. Its destinations come from one environment
variable, so they are fewer than 2^31. -/
structure Replica (svc : Services) where
  config : Config
  valid : config.validate svc.parseUrl = .ok ()
  fits : (config.destinations.length : ℤ) ≤ i32Max

structure Request (svc : Services) where
  replica : Replica svc
  headers : HeaderMap
  body : Bytes

variable {svc : Services}

def Request.event (r : Request svc) : Except AppError ResendEventForRouting :=
  parseEventForRouting svc.fromSlice r.body

def Request.matched (r : Request svc) : List DestinationConfig :=
  match r.event with
  | .ok event => (RouteMatcher.new r.replica.config.destinations).matchDestinations event
  | .error _ => []

def Request.svixId (r : Request svc) : Option String := headerToString r.headers "svix-id"

/-- The checks before `enqueue_event`: the call to make, or the status to answer. -/
def Request.check (r : Request svc) (now : Time) (eventRowId : Uuid) (jobIds : ℕ → Uuid)
    (enqueuedAt : Time) : Except ℕ Enqueue :=
  match verifyWebhookSignature svc.hmacSha256 r.replica.config.resendWebhookSecret
      r.replica.config.resendSignatureToleranceSecs r.headers r.body now with
  | .error e => .error e.statusCode
  | .ok () => match r.event with
    | .error e => .error e.statusCode
    | .ok event =>
      if r.matched = [] then .error 204
      else .ok {
        eventRowId := eventRowId, jobIds := jobIds, now := enqueuedAt
        headers := r.headers, body := r.body, event := event
        destinations := r.matched, retryWindow := r.replica.config.retryWindow }

/-- The effect of the first statements of `enqueue_event` on the given committed tables: the event
row and `written` jobs; `none` on a conflict. -/
def written (q : Enqueue) (t : Tables) (count : ℕ) : Except Failure (Option Tables) :=
  match q.prepare with
  | .error failure => .error failure
  | .ok (deadlineAt, svixId, svixTimestamp) =>
    match q.eventRow svixId svixTimestamp >>= t.insertEvent with
    | .error e => .error (.error (.database e))
    | .ok none => .ok none
    | .ok (some t₁) => match q.insertDeliveryJobs deadlineAt t₁ 0 (q.destinations.take count) with
      | .error e => .error (.error (.database e))
      | .ok t₂ => .ok (some t₂)

inductive Stage where
  | received
  /-- The transaction is open, and nothing is written. -/
  | begun (q : Enqueue)
  /-- The event row and `count` jobs are written. -/
  | writing (q : Enqueue) (count : ℕ)
  /-- The event row was not written, since a committed one has its svix-id. -/
  | duplicate (q : Enqueue)
  | committed (q : Enqueue)
  | answered (status : ℕ)
  /-- Gone without an answer. -/
  | lost

structure Handler (svc : Services) where
  request : Request svc
  stage : Stage
  /-- The call whose transaction this handler committed. -/
  inserted : Option Enqueue
  cutOffAfterCommit : Bool

inductive HandlerEvent where
  | check (now : Time) (eventRowId : Uuid) (jobIds : ℕ → Uuid) (enqueuedAt : Time)
  | insertEvent
  | insertDeliveryJob
  | commit (fate : Fate)
  | rollback
  | answer
  /-- A database call fails. -/
  | fail
  /-- The request times out, or the handler is gone without an answer. A commit that is under way
  then is decided first. -/
  | cutOff (timedOut : Bool)

/-- The handler has taken the svix-id or the event id of the call in its open transaction. -/
def Handler.holdsEvent (h : Handler svc) (q : Enqueue) : Bool :=
  match h.stage with
  | .writing q' _ => headerToString q'.headers "svix-id" = headerToString q.headers "svix-id" ||
      q'.eventRowId = q.eventRowId
  | _ => false

/-- The handler has taken the job id in its open transaction. -/
def Handler.holdsJob (h : Handler svc) (id : Uuid) : Bool :=
  match h.stage with
  | .writing q count => (List.range count).any fun i => q.jobIds i = id
  | _ => false

def Handler.answerWith (h : Handler svc) (status : ℕ) : Handler svc :=
  { h with stage := .answered status }

def failureStatus : ℕ := 500

def timeoutStatus : ℕ := 408

/-- One step of a handler, with the other handlers and the committed tables. -/
def Handler.step (others : List (Handler svc)) (t : Tables) (h : Handler svc) :
    HandlerEvent → Option (Tables × Handler svc)
  | .check now eventRowId jobIds enqueuedAt => match h.stage with
    | .received => match h.request.check now eventRowId jobIds enqueuedAt with
      | .error status => some (t, h.answerWith status)
      | .ok q => match q.prepare with
        | .error (.error e) => some (t, h.answerWith e.statusCode)
        | .error .panic => some (t, { h with stage := .lost })
        | .ok _ => some (t, { h with stage := .begun q })
    | _ => none
  | .insertEvent => match h.stage with
    | .begun q =>
      if others.any (·.holdsEvent q) then none
      else match written q t 0 with
        | .error _ => some (t, h.answerWith failureStatus)
        | .ok none => some (t, { h with stage := .duplicate q })
        | .ok (some _) => some (t, { h with stage := .writing q 0 })
    | _ => none
  | .insertDeliveryJob => match h.stage with
    | .writing q count =>
      if q.destinations.length ≤ count ∨ others.any (·.holdsJob (q.jobIds count)) then none
      else match written q t (count + 1) with
        | .ok (some _) => some (t, { h with stage := .writing q (count + 1) })
        | _ => some (t, h.answerWith failureStatus)
    | _ => none
  | .commit fate => match h.stage with
    | .writing q count =>
      if count < q.destinations.length then none
      else match fate, written q t count with
        | .never, _ => some (t, h.answerWith failureStatus)
        | .answered, .ok (some t') => some (t', { h with
            stage := .committed q, inserted := some q })
        | .lost, .ok (some t') => some (t', { h with
            stage := .answered failureStatus, inserted := some q, cutOffAfterCommit := true })
        | _, _ => none
    | _ => none
  | .rollback => match h.stage with
    | .duplicate _ => some (t, h.answerWith 202)
    | _ => none
  | .answer => match h.stage with
    | .committed _ => some (t, h.answerWith 202)
    | _ => none
  | .fail => match h.stage with
    | .begun _ => some (t, h.answerWith failureStatus)
    | .writing _ _ => some (t, h.answerWith failureStatus)
    | .duplicate _ => some (t, h.answerWith failureStatus)
    | _ => none
  | .cutOff timedOut =>
    let gone := if timedOut then Stage.answered timeoutStatus else .lost
    match h.stage with
    | .answered _ => none
    | .lost => none
    | .committed _ => some (t, { h with stage := gone, cutOffAfterCommit := true })
    | _ => some (t, { h with stage := gone })

structure Intake (svc : Services) where
  store : Store
  handlers : List (Handler svc)

inductive IntakeAction (svc : Services) where
  | arrive (r : Request svc)
  | handler (i : ℕ) (event : HandlerEvent)
  /-- A database call of a worker. -/
  | worker (a : DbAction)

def Intake.step (w : Intake svc) : IntakeAction svc → Option (Intake svc)
  | .arrive r => some { w with handlers := w.handlers ++ [⟨r, .received, none, false⟩] }
  | .handler i event => match w.handlers[i]? with
    | none => none
    | some h => (h.step (w.handlers.eraseIdx i) w.store.tables event).map fun (t, h) =>
        { w with store := { w.store with tables := t }, handlers := w.handlers.set i h }
  | .worker a => match a with
    | .enqueueEvent _ => none
    | _ => (w.store.step a).map fun s => { w with store := s }

def intake (svc : Services) : System (Intake svc) (IntakeAction svc) :=
  ⟨⟨⟨.empty, []⟩, []⟩, Intake.step⟩

end ResendRouter.Ingest
