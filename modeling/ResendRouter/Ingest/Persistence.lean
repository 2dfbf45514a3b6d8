import ResendRouter.Configuration.Validation
import ResendRouter.Database.Admission
import ResendRouter.Ingest.ExactlyOnce
import ResendRouter.Signatures.Verification

/-! # Which accepted webhooks are stored

A verified request always has its two headers, and its header texts are always
admissible. The texts of the event and the URLs of the configuration come from
JSON, so they may contain U+0000, which no column admits; and a retry window
that is cast to a negative number may put the deadline before the dates of the
database.
-/

namespace ResendRouter.Ingest
open Foundation Program Database ResendRouter.Configuration Signatures

/-- A request to a process with the given configuration, with its clock readings and the
identifiers that are drawn for it. -/
structure Webhook where
  config : Config
  headers : HeaderMap
  body : Bytes
  now : Time
  eventRowId : Uuid
  jobIds : ℕ → Uuid
  enqueuedAt : Time

def Webhook.matched (w : Webhook) (event : ResendEventForRouting) : List DestinationConfig :=
  (RouteMatcher.new w.config.destinations).matchDestinations event

def Webhook.enqueue (w : Webhook) (event : ResendEventForRouting) : Enqueue where
  eventRowId := w.eventRowId
  jobIds := w.jobIds
  now := w.enqueuedAt
  headers := w.headers
  body := w.body
  event := event
  destinations := w.matched event
  retryWindow := w.config.retryWindow

variable {svc : Services} {t : Tables} {w : Webhook} {event : ResendEventForRouting}

/-- The handler from its start to its end, when no other one runs. -/
def resendWebhook (svc : Services) (t : Tables) (w : Webhook) : Reply Failure ℕ :=
  match verifyWebhookSignature svc.hmacSha256 w.config.resendWebhookSecret
      w.config.resendSignatureToleranceSecs w.headers w.body w.now with
  | .error e => ⟨.error (.error e), t⟩
  | .ok () => match parseEventForRouting svc.fromSlice w.body with
    | .error e => ⟨.error (.error e), t⟩
    | .ok event =>
      if w.matched event = [] then ⟨.ok 204, t⟩
      else (enqueueEvent t (w.enqueue event)).map fun _ => 202

/-- The status that the framework answers with; a panic has none. -/
def answeredStatus : Except Failure ℕ → Option ℕ
  | .ok status => some status
  | .error (.error e) => some e.statusCode
  | .error .panic => none

def Request.webhook (r : Request svc) (now : Time) (eventRowId : Uuid) (jobIds : ℕ → Uuid)
    (enqueuedAt : Time) : Webhook :=
  ⟨r.replica.config, r.headers, r.body, now, eventRowId, jobIds, enqueuedAt⟩

section
variable {r : Request svc} {now enqueuedAt : Time} {eventRowId : Uuid} {jobIds : ℕ → Uuid}

/-- The handler makes the call that the concurrent model makes after its checks. -/
theorem resendWebhook_of_check {q : Enqueue}
    (h : r.check now eventRowId jobIds enqueuedAt = .ok q) :
    resendWebhook svc t (r.webhook now eventRowId jobIds enqueuedAt) =
      (enqueueEvent t q).map fun _ => 202 := by
  simp only [Request.check] at h
  split at h
  case h_1 => cases h
  case h_2 hv =>
    split at h
    case h_1 => cases h
    case h_2 event he =>
      split at h
      case isTrue => cases h
      case isFalse hm =>
        cases h
        simp only [Request.matched, he] at hm
        rw [Request.event] at he
        simp only [resendWebhook, Request.webhook, hv, he, Webhook.matched, Webhook.enqueue,
          Request.matched, Request.event]
        exact if_neg hm

theorem resendWebhook_of_check_error {status : ℕ}
    (h : r.check now eventRowId jobIds enqueuedAt = .error status) :
    (resendWebhook svc t (r.webhook now eventRowId jobIds enqueuedAt)).tables = t ∧
      answeredStatus (resendWebhook svc t (r.webhook now eventRowId jobIds enqueuedAt)).result =
        some status := by
  simp only [Request.check] at h
  split at h
  case h_1 e hv =>
    cases h
    simp only [resendWebhook, Request.webhook, hv, answeredStatus, and_self]
  case h_2 hv =>
    split at h
    case h_1 e he =>
      cases h
      rw [Request.event] at he
      simp only [resendWebhook, Request.webhook, hv, he, answeredStatus, and_self]
    case h_2 event he =>
      split at h
      case isFalse => cases h
      case isTrue hm =>
        cases h
        simp only [Request.matched, he] at hm
        rw [Request.event] at he
        have hr : resendWebhook svc t (r.webhook now eventRowId jobIds enqueuedAt) =
            ⟨.ok 204, t⟩ := by
          simp only [resendWebhook, Request.webhook, hv, he, Webhook.matched]
          exact if_pos hm
        rw [hr]
        exact ⟨rfl, rfl⟩

end

/-- A verified and matched webhook. The names of its headers are valid, as the HTTP library
ensures. -/
structure Accepted (svc : Services) (w : Webhook) (event : ResendEventForRouting) : Prop where
  valid : w.config.validate svc.parseUrl = .ok ()
  names : HeaderNames w.headers
  verified : verifyWebhookSignature svc.hmacSha256 w.config.resendWebhookSecret
    w.config.resendSignatureToleranceSecs w.headers w.body w.now = .ok ()
  parsed : parseEventForRouting svc.fromSlice w.body = .ok event
  matched : w.matched event ≠ []
  representable : (addTime w.enqueuedAt w.config.retryWindow).isSome = true

/-- The event is stored, and the handler says so. -/
structure Persisted (svc : Services) (t : Tables) (w : Webhook) (event : ResendEventForRouting) :
    Prop where
  headersFound : ∀ message,
    (enqueueEvent t (w.enqueue event)).result ≠ .error (.error (.badRequest message))
  stored : Stored (enqueueEvent t (w.enqueue event)) w.eventRowId
  answered : (resendWebhook svc t w).result = .ok 202

/-- The columns admit the values of the event and of its destinations. -/
structure Storable (t : Tables) (w : Webhook) (event : ResendEventForRouting) : Prop where
  eventId : optionalTextOk event.eventId = true
  eventType : optionalTextOk event.eventType = true
  count : ((w.matched event).length : ℤ) % 4294967296 < 2147483648
  receivedAt : timestampOk w.enqueuedAt = true
  jobs : (∃ r ∈ t.webhookEvents, FirstText w.headers "svix-id" r.sourceSvixId) ∨
    (∀ d ∈ w.matched event, textOk d.url = true) ∧
      timestampOk (w.enqueuedAt + w.config.retryWindow) = true

theorem isNameCharacter_ne_zero {c : Char} (h : isNameCharacter c = true) : c ≠ '\x00' := by
  rintro rfl
  revert h
  decide

theorem textOk_matched (hvalid : w.config.validate svc.parseUrl = .ok ()) :
    ∀ d ∈ w.matched event, textOk d.name = true := by
  intro d hd
  have hname := (matchDestinations_names w.config.destinations event).subset
    (List.mem_map_of_mem hd)
  obtain ⟨d', hd', heq⟩ := List.mem_map.mp hname
  rw [textOk_iff, ← heq]
  have hall := ((validate_eq_ok.mp hvalid).2.2.destinations d' hd').nameCharacters
  exact fun hz => isNameCharacter_ne_zero (List.all_eq_true.mp hall _ hz) rfl

theorem wrapI32_nonneg_iff (n : ℤ) : 0 ≤ wrapI32 n ↔ n % 4294967296 < 2147483648 := by
  unfold wrapI32
  omega

theorem enqueueEvent_prepared {q : Enqueue} {deadlineAt : Time} {svixId svixTimestamp : String}
    (hp : q.prepare = .ok (deadlineAt, svixId, svixTimestamp)) {failure : Failure}
    (h : (enqueueEvent t q).result = .error failure) :
    ∃ e, failure = .error (.database e) := by
  simp only [enqueueEvent, hp] at h
  split at h
  case h_1 e _ =>
    cases h
    exact ⟨e, rfl⟩
  case h_2 => cases h
  case h_3 =>
    split at h
    case h_1 e _ =>
      cases h
      exact ⟨e, rfl⟩
    case h_2 => cases h

/-- The headers that the verification read are there for the call as well. -/
theorem Accepted.prepared (h : Accepted svc w event) : ∃ deadlineAt svixId svixTimestamp,
    FirstText w.headers "svix-id" svixId ∧ FirstText w.headers "svix-timestamp" svixTimestamp ∧
      (w.enqueue event).prepare = .ok (deadlineAt, svixId, svixTimestamp) := by
  have hsigned := verifyWebhookSignature_eq_ok.mp h.verified
  obtain ⟨svixId, hid⟩ := hsigned.svixId
  obtain ⟨svixTimestamp, -, hts, -⟩ := hsigned.timestamp
  obtain ⟨deadlineAt, hd⟩ := Option.isSome_iff_exists.mp h.representable
  refine ⟨deadlineAt, svixId, svixTimestamp, hid, hts, ?_⟩
  simp only [Enqueue.prepare, Webhook.enqueue, hd, headerToString_eq_some.mpr hid,
    headerToString_eq_some.mpr hts]

theorem Accepted.headersFound (h : Accepted svc w event) (message : String) :
    (enqueueEvent t (w.enqueue event)).result ≠ .error (.error (.badRequest message)) := by
  intro hr
  obtain ⟨deadlineAt, svixId, svixTimestamp, -, -, hprep⟩ := h.prepared
  obtain ⟨e, he⟩ := enqueueEvent_prepared hprep hr
  cases he

theorem Accepted.stored_iff (h : Accepted svc w event) (hfresh : FreshIds t (w.enqueue event)) :
    Stored (enqueueEvent t (w.enqueue event)) w.eventRowId ↔ Storable t w event := by
  obtain ⟨deadlineAt, svixId, svixTimestamp, hid, hts, hprep⟩ := h.prepared
  have hdup : (∃ r ∈ t.webhookEvents, r.sourceSvixId = svixId) ↔
      ∃ r ∈ t.webhookEvents, FirstText w.headers "svix-id" r.sourceSvixId := by
    constructor
    · rintro ⟨r, hr, rfl⟩
      exact ⟨r, hr, hid⟩
    · rintro ⟨r, hr, ht⟩
      exact ⟨r, hr, ht.unique hid⟩
  have hrow : (∃ e, (w.enqueue event).eventRow svixId svixTimestamp = .ok e) ↔
      optionalTextOk event.eventId = true ∧ optionalTextOk event.eventType = true ∧
        timestampOk w.enqueuedAt = true ∧
          ((w.matched event).length : ℤ) % 4294967296 < 2147483648 := by
    rw [Enqueue.eventRow, newWebhookEvent_isOk, wrapI32_nonneg_iff]
    simp [Webhook.enqueue, textOk_headerToString (headerToString_eq_some.mpr hid),
      textOk_headerToString (headerToString_eq_some.mpr hts), headersToJson_ok h.names]
  obtain rfl : deadlineAt = w.enqueuedAt + w.config.retryWindow :=
    addTime_eq_some (Enqueue.prepare_ok hprep).1
  obtain ⟨d₀, hd₀⟩ := List.exists_mem_of_ne_nil _ h.matched
  refine (enqueueEvent_stored_iff hprep hfresh).trans ?_
  rw [hrow, hdup]
  constructor
  · rintro ⟨⟨hevent, htype, hreceived, hcount⟩, hjobs⟩
    refine ⟨hevent, htype, hcount, hreceived, hjobs.imp_right fun hall => ?_⟩
    exact ⟨fun d hd => (hall d hd).1.2, (hall d₀ hd₀).2.2⟩
  · rintro ⟨hevent, htype, hcount, hreceived, hjobs⟩
    refine ⟨⟨hevent, htype, hreceived, hcount⟩, hjobs.imp_right fun ⟨hurls, hdeadline⟩ d hd => ?_⟩
    exact ⟨⟨textOk_matched h.valid d hd, hurls d hd⟩, hreceived, hdeadline⟩

theorem Accepted.answered (h : Accepted svc w event)
    (hs : Stored (enqueueEvent t (w.enqueue event)) w.eventRowId) :
    (resendWebhook svc t w).result = .ok 202 := by
  have hok : ∃ o, (enqueueEvent t (w.enqueue event)).result = .ok o := by
    rcases hs with hr | hr
    · exact ⟨_, hr⟩
    · exact ⟨_, hr⟩
  rcases hok with ⟨o, ho⟩
  simp only [resendWebhook, h.verified, h.parsed, if_neg h.matched, Reply.map, ho, Except.map]

/-- An accepted webhook whose identifiers are new never misses a header, and it is stored exactly
when no column refuses a text of the event, a URL, a date, or the number of its destinations. -/
theorem webhook_persisted_iff (h : Accepted svc w event) (hfresh : FreshIds t (w.enqueue event)) :
    (∀ message, (enqueueEvent t (w.enqueue event)).result ≠
      .error (.error (.badRequest message))) ∧
    (Persisted svc t w event ↔ Storable t w event) := by
  refine ⟨h.headersFound, ?_⟩
  rw [← h.stored_iff hfresh]
  constructor
  · exact fun hp => hp.stored
  · exact fun hs => ⟨h.headersFound, hs, h.answered hs⟩

def sampleWebhook (body : Bytes) : Webhook where
  config := sampleReplica.config
  headers := (sampleRequest [0x6D]).headers
  body := body
  now := 0
  eventRowId := 1
  jobIds := fun i => BitVec.ofNat 128 (i + 10)
  enqueuedAt := 0

theorem sampleWebhook_fresh (body : Bytes) (event : ResendEventForRouting) :
    FreshIds .empty ((sampleWebhook body).enqueue event) := by
  have hlen : ((sampleWebhook body).enqueue event).destinations.length ≤ 2 :=
    List.length_filter_le _ _
  refine ⟨fun e he => absurd he Table.not_mem_empty, fun j hj => absurd hj Table.not_mem_empty, ?_⟩
  intro a ha b hb heq
  have hmod := congrArg BitVec.toNat heq
  simp only [Webhook.enqueue, sampleWebhook, BitVec.toNat_ofNat] at hmod
  omega

/-- The parser of the sample, which also reads an object whose `id` is one escaped U+0000. -/
def escapingServices : Services where
  hmacSha256 := sampleServices.hmacSha256
  fromSlice := fun body =>
    if body = asBytes "\x7b\"id\":\"\\u0000\"\x7d" then .ok (.object [("id", .string "\x00")])
    else sampleServices.fromSlice body
  parseUrl := sampleServices.parseUrl

def emptyEvent : ResendEventForRouting := ⟨none, none, none, []⟩

def nulEvent : ResendEventForRouting := ⟨some "\x00", none, none, []⟩

theorem webhook_persisted_iff_sample :
    Persisted escapingServices .empty (sampleWebhook [0x7B, 0x7D]) emptyEvent :=
  ((@webhook_persisted_iff escapingServices .empty (sampleWebhook [0x7B, 0x7D]) emptyEvent
    ⟨by decide, by decide, by decide, by decide, by decide, by decide⟩
    (sampleWebhook_fresh _ emptyEvent)).2).mpr ⟨rfl, rfl, by decide, by decide, .inr (by decide)⟩

/-- A window that is cast to a negative one: the deadline is a date of the program only. -/
def backwardsConfig : Config :=
  { sampleReplica.config with retryWindowSecs := 18446743773709551616 }

example : backwardsConfig.validate sampleServices.parseUrl = .ok () ∧
    (addTime 0 backwardsConfig.retryWindow).map timestampOk = some false := by decide

/-- The event id is U+0000, and the database refuses the event row. -/
theorem webhook_not_persisted : ¬ ∀ (svc : Services) (t : Tables) (w : Webhook)
    (event : ResendEventForRouting), Accepted svc w event → FreshIds t (w.enqueue event) →
      Persisted svc t w event := by
  intro hall
  have hp := hall escapingServices .empty (sampleWebhook (asBytes "\x7b\"id\":\"\\u0000\"\x7d"))
    nulEvent ⟨by decide, by decide, by decide, by decide, by decide, by decide⟩
    (sampleWebhook_fresh _ nulEvent)
  have hr : (enqueueEvent .empty ((sampleWebhook (asBytes "\x7b\"id\":\"\\u0000\"\x7d")).enqueue
      nulEvent)).result = .error (.error (.database .invalidText)) := by decide
  rcases hp.stored with h | h
  · rw [hr] at h
    cases h
  · rw [hr] at h
    cases h

end ResendRouter.Ingest
