import ResendRouter.Delivery.Task
import ResendRouter.Database.Ledger
import Mathlib.Logic.Function.Basic

/-! # Any number of workers on one database

Every worker runs its claim loop: it claims a batch, spawns a task for each job,
and claims again when all of them have ended. The tasks of all workers
interleave, and an event of the system is one step of one of them.
-/

namespace ResendRouter.Delivery
open Foundation Program Database

/-- The configuration of each worker's process, and the keyed hash. -/
structure Env where
  hmacSha256 : Bytes → Bytes → Bytes
  config : String → Config

/-- Where the loop of a worker stands. A batch is a list of positions among the claims. -/
inductive Phase where
  | polling
  | processing (batch : List ℕ)
  | stopped

/-- The committed tables, the clock, the loops, all claims in the order of their commits, and
the enqueue calls that inserted an event. -/
structure World where
  tables : Tables
  clock : Time
  phase : String → Phase
  claims : List Claim
  ingested : List Enqueue

inductive Action where
  | enqueue (q : Enqueue)
  /-- A claim call, whose statement reads the database clock as `now`. -/
  | claim (workerId : String) (now : Time) (skip : List Uuid) (fate : Fate)
  /-- All tasks of the batch are joined. -/
  | join (workerId : String)
  /-- The loop ends by a shutdown, or with its process. -/
  | stop (workerId : String)
  | task (claim : ℕ) (event : TaskEvent)
  | idle

structure Event where
  time : Time
  action : Action

namespace World

def enqueue (w : World) (q : Enqueue) : World :=
  let reply := enqueueEvent w.tables q
  { w with
    tables := reply.tables
    ingested := match reply.result with
      | .ok (.inserted _) => w.ingested ++ [q]
      | _ => w.ingested }

/-- One round of `run_worker` up to the spawning of the tasks; a lost reply leaves its jobs
locked without a task. -/
def claim (env : Env) (w : World) (workerId : String) (now : Time) (skip : List Uuid)
    (fate : Fate) : Option World :=
  match w.phase workerId, fate with
  | .polling, .never => some w
  | .polling, _ =>
    let reply := claimDueJobs w.tables workerId (env.config workerId).deliveryClaimLimit
      (env.config workerId).staleDeliveryLockSecs now skip
    match reply.result with
    | .error _ => some w
    | .ok jobs =>
      let spawn := fate = .answered ∧ jobs ≠ []
      some { w with
        tables := reply.tables
        phase := Function.update w.phase workerId
          (if spawn then .processing (List.range' w.claims.length jobs.length) else .polling)
        claims := w.claims ++
          jobs.map (newClaim workerId now (if spawn then .spawned else .ended)) }
  | _, _ => none

def allEnded (w : World) (batch : List ℕ) : Bool :=
  batch.all fun i => (w.claims[i]?).all (·.task.isEnded)

def join (w : World) (workerId : String) : Option World :=
  match w.phase workerId with
  | .processing batch =>
    if w.allEnded batch then some { w with phase := Function.update w.phase workerId .polling }
    else none
  | _ => none

def task (env : Env) (time : Time) (w : World) (i : ℕ) (event : TaskEvent) : Option World :=
  match w.claims[i]? with
  | some c => (taskStep env.hmacSha256 (env.config c.worker) time w.tables c event).map
      fun (t, c) => { w with tables := t, claims := w.claims.set i c }
  | none => none

def act (env : Env) (time : Time) (w : World) : Action → Option World
  | .enqueue q => some (w.enqueue q)
  | .claim workerId now skip fate => w.claim env workerId now skip fate
  | .join workerId => w.join workerId
  | .stop workerId => some { w with phase := Function.update w.phase workerId .stopped }
  | .task i event => w.task env time i event
  | .idle => some w

def step (env : Env) (w : World) (e : Event) : Option World :=
  (w.act env e.time e.action).map fun w => { w with clock := e.time }

def initial : World := ⟨.empty, 0, fun _ => .polling, [], []⟩

end World

def fleet (env : Env) : System World Event := ⟨.initial, World.step env⟩

def Event.statementTime (e : Event) : Option Time :=
  match e.action with
  | .claim _ now _ _ => some now
  | _ => none

/-- The clock never runs backwards, and a statement reads it no later than its commit. -/
def clocked : System.Guard World Event := fun w e _ =>
  w.clock ≤ e.time ∧ ∀ now ∈ e.statementTime, now ≤ e.time

instance (w : World) (e : Event) (w' : World) : Decidable (clocked w e w') :=
  inferInstanceAs (Decidable (_ ∧ _))

def sampleConfig : Config where
  databaseUrl := "postgres://localhost/router"
  databaseMaxConnections := 10
  serverBind := .v4 0 3000
  resendWebhookSecret := "whsec_c2VjcmV0"
  resendSignatureToleranceSecs := 300
  routerSigningSecret := "0123456789abcdef0123456789abcdef"
  destinations := [sampleDestination]
  deliveryWorkerCount := 2
  deliveryClaimLimit := 10
  deliveryTimeoutSecs := 20
  retryWindowSecs := 3600
  warnAfterAttempts := 10
  staleDeliveryLockSecs := 300
  workerDrainTimeoutSecs := 30

/-- Every worker has the sample configuration; the keyed hash is the constant one. -/
def sampleEnv : Env := ⟨fun _ _ => [], fun _ => sampleConfig⟩

def attemptSteps (i : ℕ) (second : ℤ) (response : Response) : List Event :=
  [.checkDeadline, .refresh .answered, .send, .finish response, .receive 250, .decide 3,
    .readClock].map fun event => ⟨seconds second, .task i event⟩

/-- Worker `b` takes a stalled job over from `a` and records a retry. -/
def takenOver : List Event :=
  [⟨0, .enqueue sampleEnqueue⟩, ⟨0, .claim "a" 0 [] .answered⟩,
    ⟨seconds 301, .claim "b" (seconds 301) [] .answered⟩] ++
  attemptSteps 1 302 (.ok 500) ++ [⟨seconds 302, .task 1 (.record .answered)⟩]

/-- Worker `b` claims the retried job again and delivers it. -/
def delivered : List Event :=
  takenOver ++ [⟨seconds 303, .join "b"⟩, ⟨seconds 317, .claim "b" (seconds 317) [] .answered⟩] ++
  attemptSteps 2 318 (.ok 200) ++ [⟨seconds 318, .task 2 (.record .answered)⟩]

/-- What one step can do to a claim and the tables. -/
inductive TaskMove (env : Env) (time : Time) (t : Tables) (c : Claim) : Tables → Claim → Prop where
  | expired (h : c.task = .spawned) (hd : c.job.deadlineAt ≤ time) :
      TaskMove env time t c t { c with task := .calling expiredCall }
  | opened (h : c.task = .spawned) (hd : time < c.job.deadlineAt) :
      TaskMove env time t c t { c with task := .resolving }
  | resolved (h : c.task = .resolving) (url : String) :
      TaskMove env time t c t { c with task := .ready url }
  | refreshed {t' task} (h : c.task = .resolving) (url : String)
      (hu : (updateClaimedJobDestinationUrl t c.job url).tables = t')
      (held : ∃ j ∈ t.deliveryJobs, lockedRow c.job j = true) (hr : Refreshed t t' c.job url)
      (ht : task = .ready url ∨ task = .ended) :
      TaskMove env time t c t' { c with task := task }
  | sent {url} (h : c.task = .ready url) :
      TaskMove env time t c t { c with
        task := .posting
        post := some ⟨deliver env.hmacSha256 (env.config c.worker) c.job c.attempt url time,
          time, none⟩ }
  | unsent {url} (h : c.task = .ready url) (error : String) (d : ℤ) :
      TaskMove env time t c t { c with task := .responded (.error error) d }
  | finished {request startedAt} (h : c.post = some ⟨request, startedAt, none⟩)
      (response : Response) :
      TaskMove env time t c t { c with post := some ⟨request, startedAt, some (time, response)⟩ }
  | received {request startedAt finishedAt response} (h : c.task = .posting)
      (hp : c.post = some ⟨request, startedAt, some (finishedAt, response)⟩) (d : ℤ) :
      TaskMove env time t c t { c with task := .responded response d }
  | succeeded {status d} (h : c.task = .responded (.ok status) d) (hs : isSuccess status = true) :
      TaskMove env time t c t { c with task := .calling (.success status d) }
  | failed {response d call} (h : c.task = .responded response d)
      (hs : ∀ status, response = .ok status → isSuccess status = false) (seed : ℕ)
      (hc : recordFailure c.job (failureColumns response).1 (failureColumns response).2 d time
        seed = some call) :
      TaskMove env time t c t { c with task := .calling call, decidedAt := some time }
  | overflowed {response d} (h : c.task = .responded response d)
      (hs : ∀ status, response = .ok status → isSuccess status = false) :
      TaskMove env time t c t { c with task := .ended, decidedAt := some time }
  | stamped {call} (h : c.task = .calling call) :
      TaskMove env time t c t { c with task := .recording call time }
  | recorded {call now t' a} (h : c.task = .recording call now)
      (hu : (call.run t c.job now).tables = t')
      (hr : Recorded (RecordCall.outcome call) t t' c.job call.durationMs now a) :
      TaskMove env time t c t' { c with
        task := .ended
        outcomes := c.outcomes ++ [⟨call, now⟩] }
  | ended : TaskMove env time t c t { c with task := .ended }

variable {env : Env} {time : Time} {t t' : Tables} {c c' : Claim} {w w' : World}

theorem taskStep_failed {response : Response} {d : ℤ} {seed : ℕ}
    (h : c.task = .responded response d)
    (hs : ∀ status, response = .ok status → isSuccess status = false)
    (hf : taskStep.failed time t c response d seed = some (t', c')) :
    TaskMove env time t c t' c' := by
  simp only [taskStep.failed] at hf
  split at hf
  case h_1 call hc =>
    cases hf
    exact .failed h hs seed hc
  case h_2 =>
    cases hf
    exact .overflowed h hs

theorem taskStep_moves {event : TaskEvent}
    (h : taskStep env.hmacSha256 (env.config c.worker) time t c event = some (t', c')) :
    TaskMove env time t c t' c' := by
  cases event with
  | checkDeadline =>
    simp only [taskStep] at h
    split at h
    case h_1 ht =>
      split_ifs at h with hd
      · cases h
        exact .expired ht hd
      · cases h
        exact .opened ht (not_le.mp hd)
    case h_2 => cases h
  | refresh fate =>
    simp only [taskStep] at h
    split at h
    case h_2 => cases h
    case h_1 ht =>
      split at h
      case isFalse =>
        cases h
        exact .resolved ht _
      case isTrue =>
        rcases updateUrl_cases t c.job (resolveDestinationUrl (env.config c.worker) c.job).url
          with ⟨hsame, hno⟩ | ⟨hyes, held, hr⟩
        · have hf := mt Reply.isTrue_iff.mp hno
          cases fate <;> simp only [hf, hsame] at h <;> cases h <;> exact .ended
        · rw [← Reply.isTrue_iff] at hyes
          cases fate with
          | answered =>
            simp only [hyes, if_true] at h
            cases h
            exact .refreshed ht _ rfl held hr (.inl rfl)
          | lost =>
            cases h
            exact .refreshed ht _ rfl held hr (.inr rfl)
          | never =>
            cases h
            exact .ended
  | send =>
    simp only [taskStep] at h
    split at h
    case h_1 url ht =>
      cases h
      exact .sent ht
    case h_2 => cases h
  | sendFails error millis =>
    simp only [taskStep] at h
    split at h
    case h_1 url ht =>
      cases h
      exact .unsent ht error _
    case h_2 => cases h
  | finish response =>
    simp only [taskStep] at h
    split at h
    case h_1 request startedAt hp =>
      cases h
      exact .finished hp response
    case h_2 => cases h
  | receive millis =>
    simp only [taskStep] at h
    split at h
    case h_1 request startedAt finishedAt response ht hp =>
      cases h
      exact .received ht hp _
    case h_2 => cases h
  | decide seed =>
    simp only [taskStep] at h
    split at h
    case h_2 => cases h
    case h_1 response d ht =>
      split at h
      case h_1 status =>
        split_ifs at h with hs
        · cases h
          exact .succeeded ht hs
        · refine taskStep_failed ht ?_ h
          rintro _ ⟨⟩
          exact Bool.not_eq_true _ ▸ hs
      case h_2 error =>
        refine taskStep_failed ht ?_ h
        rintro _ ⟨⟩
  | readClock =>
    simp only [taskStep] at h
    split at h
    case h_1 call ht =>
      cases h
      exact .stamped ht
    case h_2 => cases h
  | record fate =>
    simp only [taskStep] at h
    split at h
    case h_2 => cases h
    case h_1 call now ht =>
      rcases call.run_cases t c.job now with ⟨hsame, hno⟩ | ⟨hyes, a, hr⟩
      · have hf := mt Reply.isTrue_iff.mp hno
        cases fate <;> simp only [hf, hsame] at h <;> cases h <;> exact .ended
      · rw [← Reply.isTrue_iff] at hyes
        cases fate with
        | never =>
          cases h
          exact .ended
        | answered =>
          simp only [hyes, if_true] at h
          cases h
          exact .recorded ht rfl hr
        | lost =>
          simp only [hyes, if_true] at h
          cases h
          exact .recorded ht rfl hr
  | die =>
    cases h
    exact .ended

/-- What one event can do to the world. -/
inductive World.Moves (env : Env) (w : World) : Event → World → Prop where
  | phased {e phase} (h : ∀ x, phase x = w.phase x ∨ phase x = .stopped ∨
        ∃ batch, w.phase x = .processing batch ∧ w.allEnded batch = true) :
      Moves env w e { w with clock := e.time, phase := phase }
  | enqueued {time q e deadlineAt js t} (ht : (enqueueEvent w.tables q).tables = t)
      (h : Enqueued q w.tables t e deadlineAt js) :
      Moves env w ⟨time, .enqueue q⟩
        { w with tables := t, clock := time, ingested := w.ingested ++ [q] }
  | claimed {time workerId now skip fate jobs t phase task} (hp : w.phase workerId = .polling)
      (hr : claimDueJobs w.tables workerId (env.config workerId).deliveryClaimLimit
        (env.config workerId).staleDeliveryLockSecs now skip = ⟨.ok jobs, t⟩)
      (h : Claimed w.tables t jobs workerId (env.config workerId).staleDeliveryLockSecs now)
      (hphase : task = .ended ∨
        task = .spawned ∧ phase = .processing (List.range' w.claims.length jobs.length)) :
      Moves env w ⟨time, .claim workerId now skip fate⟩
        ⟨t, time, Function.update w.phase workerId phase,
          w.claims ++ jobs.map (newClaim workerId now task), w.ingested⟩
  | moved {time i event c t c'} (hc : w.claims[i]? = some c)
      (h : TaskMove env time w.tables c t c') :
      Moves env w ⟨time, .task i event⟩
        { w with tables := t, clock := time, claims := w.claims.set i c' }

theorem World.Moves.same {e : Event} : w.Moves env e { w with clock := e.time } :=
  .phased fun _ => .inl rfl

theorem World.claim_moves {workerId : String} {now : Time} {skip : List Uuid} {fate : Fate}
    (h : w.claim env workerId now skip fate = some w') :
    w.Moves env ⟨time, .claim workerId now skip fate⟩ { w' with clock := time } := by
  simp only [World.claim] at h
  split at h
  case h_1 =>
    cases h
    exact .same
  case h_3 => cases h
  case h_2 hp _ =>
    rcases claimDueJobs_cases w.tables workerId (env.config workerId).deliveryClaimLimit
      (env.config workerId).staleDeliveryLockSecs now skip with ⟨e, hr⟩ | ⟨jobs, t, hr, hc⟩
    · simp only [hr, Option.some.injEq] at h
      subst h
      exact .same
    · simp only [hr, Option.some.injEq] at h
      subst h
      refine .claimed hp hr hc ?_
      split
      case isTrue => exact .inr ⟨rfl, rfl⟩
      case isFalse => exact .inl rfl

theorem World.step_moves {e : Event} (h : w.step env e = some w') : w.Moves env e w' := by
  rcases e with ⟨time, action⟩
  obtain ⟨v, hv, rfl⟩ := Option.map_eq_some_iff.mp h
  cases action with
  | enqueue q =>
    cases hv
    rcases enqueueEvent_cases w.tables q with ⟨ht, hno⟩ | ⟨e, deadlineAt, js, hyes, hq⟩
    · have hsame : w.enqueue q = w := by
        rw [World.enqueue]
        cases hr : (enqueueEvent w.tables q).result with
        | error f => simp only [ht]
        | ok o => cases o with
          | inserted id => exact absurd hr (hno id)
          | duplicate => simp only [ht]
      rw [hsame]
      exact .same
    · have hm : w.Moves env ⟨time, .enqueue q⟩ _ := .enqueued rfl hq
      simpa only [World.enqueue, hyes] using hm
  | claim workerId now skip fate => exact World.claim_moves hv
  | join workerId =>
    simp only [World.act, World.join] at hv
    split at hv
    case h_2 => cases hv
    case h_1 batch hb =>
      split_ifs at hv with hended
      cases hv
      apply Moves.phased
      intro x
      by_cases hx : x = workerId
      · subst hx
        exact .inr (.inr ⟨batch, hb, hended⟩)
      · exact .inl (Function.update_of_ne hx _ _)
  | stop workerId =>
    cases hv
    apply Moves.phased
    intro x
    by_cases hx : x = workerId
    · subst hx
      exact .inr (.inl (Function.update_self _ _ _))
    · exact .inl (Function.update_of_ne hx _ _)
  | task i event =>
    simp only [World.act, World.task] at hv
    split at hv
    case h_2 => cases hv
    case h_1 c hc =>
      obtain ⟨⟨t, c'⟩, ht, rfl⟩ := Option.map_eq_some_iff.mp hv
      exact .moved hc (taskStep_moves ht)
  | idle =>
    cases hv
    exact .same

end ResendRouter.Delivery
