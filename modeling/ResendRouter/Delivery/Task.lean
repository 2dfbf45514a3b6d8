import ResendRouter.Database.CallSpecs

/-! # Delivering one claimed job

The steps of `deliver_and_record` between two of its awaits, as the positions of
a task. Every clock reading, jitter draw, response and failure is an input.
-/

namespace ResendRouter.Delivery
open Foundation Program Database

def maxRetryDelaySecs : ℕ := 60 * 60

def userAgent : String := "resend-router/0.1.0"

def baseRetryDelaySecs (attemptAfterFailure : ℤ) : ℕ :=
  if attemptAfterFailure ≤ 1 then 15
  else if attemptAfterFailure = 2 then 60
  else if attemptAfterFailure = 3 then 5 * 60
  else if attemptAfterFailure = 4 then 15 * 60
  else if attemptAfterFailure = 5 then 30 * 60
  else maxRetryDelaySecs

/-- A draw from `0..=bound`; every value of the range is the draw of some seed. -/
def draw (bound seed : ℕ) : ℕ := seed % (bound + 1)

def retryDelay (attemptAfterFailure : ℤ) (seed : ℕ) : ℕ :=
  let base := baseRetryDelaySecs attemptAfterFailure
  let jitterWindow := base / 5
  if jitterWindow = 0 then max base 1
  else
    let offset : ℤ := (draw (jitterWindow * 2) seed : ℤ) - jitterWindow
    min (max (base + offset) 1).toNat maxRetryDelaySecs

def elapsedMillis (millis : ℕ) : ℤ := if (millis : ℤ) ≤ i64Max then millis else i64Max

structure ResolvedDestinationUrl where
  url : String
  fromCurrentConfig : Bool
  deriving DecidableEq

def resolveDestinationUrl (config : Config) (job : ClaimedJob) : ResolvedDestinationUrl :=
  match config.destinationUrl job.destinationName with
  | some url => ⟨url, true⟩
  | none => ⟨job.destinationUrl, false⟩

structure Request where
  url : String
  headers : List (String × String)
  body : Bytes
  deriving DecidableEq

/-- The request of one POST, stamped with the clock reading `now`. -/
def deliver (hmacSha256 : Bytes → Bytes → Bytes) (config : Config) (job : ClaimedJob)
    (attempt : ℤ) (destinationUrl : String) (now : Time) : Request :=
  let timestamp := toString (unixTimestamp now)
  let deliveryId := job.id.toText
  let signature := signDelivery hmacSha256 config.routerSigningSecret timestamp deliveryId
    job.eventId.toText job.destinationName attempt job.rawBody
  { url := destinationUrl
    headers := [
      ("content-type", (headerValueFromJson job.headers "content-type").getD "application/json"),
      ("user-agent", userAgent),
      ("x-resend-router-delivery-id", deliveryId),
      ("x-resend-router-event-id", job.eventId.toText),
      ("x-resend-router-attempt", toString attempt),
      ("x-resend-router-destination", job.destinationName),
      ("x-resend-router-timestamp", timestamp),
      ("x-resend-router-signature", signature)]
    body := job.rawBody }

/-- The status of a response, or the text of a transport error. -/
abbrev Response := Except String UInt16

def isSuccess (status : UInt16) : Bool := 200 ≤ status.toNat && status.toNat < 300

/-- The record call that `record_failure` chooses at the clock reading `now`; `none` when the
date addition panics. -/
def recordFailure (job : ClaimedJob) (statusCode : Option UInt16) (error : String)
    (durationMs : ℤ) (now : Time) (seed : ℕ) : Option RecordCall :=
  if job.deadlineAt ≤ now then some (.finalFailure statusCode (some error) durationMs)
  else (addTime now (seconds (retryDelay (wrapI32 (job.attemptCount + 1)) seed))).map
    fun nextAttemptAt => .retry statusCode (some error) durationMs
      (if nextAttemptAt > job.deadlineAt then job.deadlineAt else nextAttemptAt)

/-- The status code and the error text that a failed response is recorded with. -/
def failureColumns : Response → Option UInt16 × String
  | .ok status => (some status, "destination returned HTTP " ++ toString status.toNat)
  | .error error => (none, error)

def expiredCall : RecordCall :=
  .finalFailure none (some "retry window expired before delivery attempt") 0

inductive Task where
  /-- Before the deadline check. -/
  | spawned
  /-- The deadline has not passed; the URL is resolved next. -/
  | resolving
  /-- About to send the POST. -/
  | ready (url : String)
  /-- The POST is sent, and the task awaits its response. -/
  | posting
  | responded (response : Response) (durationMs : ℤ)
  /-- Inside a record call that has not read its clock yet. -/
  | calling (call : RecordCall)
  /-- The transaction of the record call has not taken effect yet. -/
  | recording (call : RecordCall) (now : Time)
  /-- Returned, failed, panicked, aborted, or never spawned. -/
  | ended

def Task.isEnded : Task → Bool
  | .ended => true
  | _ => false

/-- The record call that a task is about to make. -/
def Task.call : Task → Option RecordCall
  | .calling call => some call
  | .recording call _ => some call
  | _ => none

/-- One POST: its request, its start, and its end with what came back. -/
structure Post where
  request : Request
  startedAt : Time
  finished : Option (Time × Response)

/-- An outcome that a claim committed, with the clock reading of the record call. -/
structure Committed where
  call : RecordCall
  recordedAt : Time

/-- A job returned by a claim, and everything that was done on its behalf. -/
structure Claim where
  worker : String
  job : ClaimedJob
  lockedAt : Time
  task : Task
  post : Option Post
  /-- The clock reading of `record_failure`. -/
  decidedAt : Option Time
  outcomes : List Committed

def newClaim (worker : String) (lockedAt : Time) (task : Task) (job : ClaimedJob) : Claim :=
  ⟨worker, job, lockedAt, task, none, none, []⟩

def Claim.attempt (c : Claim) : ℤ := wrapI32 (c.job.attemptCount + 1)

inductive TaskEvent where
  | checkDeadline
  | refresh (fate : Fate)
  | send
  | sendFails (error : String) (millis : ℕ)
  | finish (response : Response)
  | receive (millis : ℕ)
  | decide (seed : ℕ)
  | readClock
  | record (fate : Fate)
  | die

section
variable (hmacSha256 : Bytes → Bytes → Bytes) (config : Config)

/-- One step of the task of a claim, at the given time. -/
def taskStep (time : Time) (t : Tables) (c : Claim) : TaskEvent → Option (Tables × Claim)
  | .checkDeadline => match c.task with
    | .spawned =>
      if c.job.deadlineAt ≤ time then some (t, { c with task := .calling expiredCall })
      else some (t, { c with task := .resolving })
    | _ => none
  | .refresh fate => match c.task with
    | .resolving =>
      let resolved := resolveDestinationUrl config c.job
      if resolved.fromCurrentConfig = true ∧ resolved.url ≠ c.job.destinationUrl then
        let reply := updateClaimedJobDestinationUrl t c.job resolved.url
        match fate with
        | .answered => some (reply.tables,
            { c with task := if reply.isTrue then .ready resolved.url else .ended })
        | .lost => some (reply.tables, { c with task := .ended })
        | .never => some (t, { c with task := .ended })
      else some (t, { c with task := .ready resolved.url })
    | _ => none
  | .send => match c.task with
    | .ready url => some (t, { c with
        task := .posting
        post := some ⟨deliver hmacSha256 config c.job c.attempt url time, time, none⟩ })
    | _ => none
  | .sendFails error millis => match c.task with
    | .ready _ => some (t, { c with task := .responded (.error error) (elapsedMillis millis) })
    | _ => none
  -- a POST can outlive its task
  | .finish response => match c.post with
    | some ⟨request, startedAt, none⟩ =>
      some (t, { c with post := some ⟨request, startedAt, some (time, response)⟩ })
    | _ => none
  | .receive millis => match c.task, c.post with
    | .posting, some ⟨_, _, some (_, response)⟩ =>
      some (t, { c with task := .responded response (elapsedMillis millis) })
    | _, _ => none
  | .decide seed => match c.task with
    | .responded response d =>
      match response with
      | .ok status =>
        if isSuccess status then some (t, { c with task := .calling (.success status d) })
        else failed (.ok status) d seed
      | .error error => failed (.error error) d seed
    | _ => none
  | .readClock => match c.task with
    | .calling call => some (t, { c with task := .recording call time })
    | _ => none
  | .record fate => match c.task with
    | .recording call now =>
      match fate with
      | .never => some (t, { c with task := .ended })
      | _ =>
        let reply := call.run t c.job now
        some (reply.tables, { c with
          task := .ended
          outcomes := if reply.isTrue then c.outcomes ++ [⟨call, now⟩]
            else c.outcomes })
    | _ => none
  | .die => some (t, { c with task := .ended })
where
  failed (response : Response) (d : ℤ) (seed : ℕ) : Option (Tables × Claim) :=
    let (statusCode, error) := failureColumns response
    match recordFailure c.job statusCode error d time seed with
    | some call => some (t, { c with task := .calling call, decidedAt := some time })
    | none => some (t, { c with task := .ended, decidedAt := some time })

end
end ResendRouter.Delivery
