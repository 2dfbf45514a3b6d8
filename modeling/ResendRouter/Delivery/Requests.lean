import ResendRouter.Delivery.Outcomes

/-! # Forwarded requests verify at the receiver

The receiver only has the headers and the body. What it recomputes from them is
the signature header, the body is that of the inbound webhook, and the attempt
header is the number under which the outcome of the claim is recorded.
-/

namespace ResendRouter.Delivery
open Foundation Program Database

variable {env : Env} {time : Time} {t t' : Tables} {c c' d : Claim} {w w' : World} {e : Event}
  {i k : ℕ} {j : DeliveryJob} {p : Post}

def Request.header (r : Request) (name : String) : Option String :=
  (r.headers.find? (·.1 = name)).map (·.2)

def receivedPrefix (timestamp deliveryId eventId destination attempt : String) : String :=
  timestamp ++ "." ++ deliveryId ++ "." ++ eventId ++ "." ++ destination ++ "." ++ attempt ++ "."

/-- The signature that the receiver computes from the headers and the body. -/
def receiverSignature (hmacSha256 : Bytes → Bytes → Bytes) (secret : String) (r : Request) :
    Option String := do
  let timestamp ← r.header "x-resend-router-timestamp"
  let deliveryId ← r.header "x-resend-router-delivery-id"
  let eventId ← r.header "x-resend-router-event-id"
  let destination ← r.header "x-resend-router-destination"
  let attempt ← r.header "x-resend-router-attempt"
  some ("v1," ++ Base64.standard.encode (hmacSha256 (asBytes secret)
    (asBytes (receivedPrefix timestamp deliveryId eventId destination attempt) ++ r.body)))

theorem deliveryContent_eq (timestamp deliveryId eventId destination : String) (attempt : ℤ)
    (body : Bytes) : deliveryContent timestamp deliveryId eventId destination attempt body =
      asBytes (receivedPrefix timestamp deliveryId eventId destination (toString attempt)) ++
        body := by
  have hdot : asBytes "." = [dot] := by decide
  simp only [deliveryContent, receivedPrefix, asBytes_append, hdot, List.append_assoc,
    List.cons_append, List.nil_append]

section Deliver
variable (hmacSha256 : Bytes → Bytes → Bytes) (config : Config) (job : ClaimedJob) (attempt : ℤ)
  (url : String) (now : Time)

theorem deliver_headers : let r := deliver hmacSha256 config job attempt url now
    r.header "x-resend-router-delivery-id" = some job.id.toText ∧
    r.header "x-resend-router-event-id" = some job.eventId.toText ∧
    r.header "x-resend-router-destination" = some job.destinationName ∧
    r.header "x-resend-router-attempt" = some (toString attempt) ∧
    r.header "x-resend-router-timestamp" = some (toString (unixTimestamp now)) :=
  ⟨rfl, rfl, rfl, rfl, rfl⟩

/-- The receiver's recomputation yields the signature header. -/
theorem deliver_verifies : let r := deliver hmacSha256 config job attempt url now
    receiverSignature hmacSha256 config.routerSigningSecret r =
      r.header "x-resend-router-signature" := by
  intro r
  obtain ⟨hid, hev, hdest, hatt, hts⟩ := deliver_headers hmacSha256 config job attempt url now
  have hsig : r.header "x-resend-router-signature" = some (signDelivery hmacSha256
      config.routerSigningSecret (toString (unixTimestamp now)) job.id.toText job.eventId.toText
      job.destinationName attempt job.rawBody) := rfl
  have hbody : r.body = job.rawBody := rfl
  rw [hsig, receiverSignature, hid, hev, hdest, hatt, hts, hbody, signDelivery, deliveryContent_eq]
  rfl

end Deliver

/-- Every POST carries the request of its claim. -/
structure RequestInv (env : Env) (w : World) : Prop where
  requests : ∀ c ∈ w.claims, ∀ p, c.post = some p → ∃ url now, p.request =
    deliver env.hmacSha256 (env.config c.worker) c.job c.attempt url now
  /-- The events are those of the enqueue calls that inserted one, in their order. -/
  ingested : w.ingested.map (fun q => (q.eventRowId, q.body)) =
    w.tables.webhookEvents.rows.map fun e => (e.id, e.rawBody)

theorem Enqueued.event_eq {q : Enqueue} {r : WebhookEvent} {deadlineAt : Time}
    {js : List DeliveryJob} (h : Enqueued q t t' r deadlineAt js) :
    r.id = q.eventRowId ∧ r.rawBody = q.body := by
  have hmade := h.made
  rw [Enqueue.eventRow] at hmade
  obtain ⟨hid, -, -, hbody, -⟩ := newWebhookEvent_ok hmade
  exact ⟨hid, hbody⟩

theorem TaskMove.events (h : TaskMove env time t c t' c') : t'.webhookEvents = t.webhookEvents := by
  cases h.effect with
  | quiet ht => rw [ht]
  | refreshed _ _ hr => exact hr.events
  | recorded _ hr => exact hr.events

theorem TaskMove.request (h : TaskMove env time t c t' c')
    (hi : ∀ p, c.post = some p → ∃ url now, p.request =
      deliver env.hmacSha256 (env.config c.worker) c.job c.attempt url now) :
    ∀ p, c'.post = some p → ∃ url now, p.request =
      deliver env.hmacSha256 (env.config c'.worker) c'.job c'.attempt url now := by
  cases h with
  | @sent url ht =>
    intro p hp
    cases hp
    exact ⟨url, time, rfl⟩
  | finished hpost response =>
    intro p hp
    cases hp
    have hr := hi _ hpost
    exact hr
  | _ => exact hi

theorem RequestInv.step (hi : RequestInv env w) (h : w.Moves env e w') : RequestInv env w' := by
  cases h with
  | phased => exact ⟨hi.requests, hi.ingested⟩
  | enqueued ht h =>
    refine ⟨hi.requests, ?_⟩
    obtain ⟨hid, hbody⟩ := Enqueued.event_eq h
    rw [List.map_append, hi.ingested, h.events, List.map_append, List.map_singleton,
      List.map_singleton, hid, hbody]
  | claimed hp hr h hphase =>
    refine ⟨fun c hc p hp => ?_, ?_⟩
    · rcases List.mem_append.mp hc with hc | hc
      · exact hi.requests c hc p hp
      · obtain ⟨job, -, rfl⟩ := List.mem_map.mp hc
        cases hp
    · rw [h.events]
      exact hi.ingested
  | moved hc h =>
    refine ⟨fun d hd => ?_, ?_⟩
    · rcases List.mem_or_eq_of_mem_set hd with hd | rfl
      · exact hi.requests d hd
      · exact h.request (hi.requests _ (List.mem_of_getElem? hc))
    · rw [h.events]
      exact hi.ingested

theorem requestInv_of_reachable {G : System.Guard World Event} (h : (fleet env).Reachable G w) :
    RequestInv env w := by
  apply h.invariant
  · constructor <;> simp [fleet, World.initial, Tables.empty, Table.empty]
  · intro s e s' _ hi hstep _
    exact hi.step (World.step_moves hstep)

/-- The enqueue call that inserted the event of a claim, and its body. -/
theorem inserted_body (hl : LedgerInv w.store) (hi : RequestInv env w) (hc : c ∈ w.claims) :
    (∃ q ∈ w.ingested, q.eventRowId = c.job.eventId) ∧
      ∀ q ∈ w.ingested, q.eventRowId = c.job.eventId → c.job.rawBody = q.body := by
  obtain ⟨r, hr, hid, hbody, -⟩ := hl.bodies c.job (List.mem_map_of_mem hc)
  have hback : ∀ x, x ∈ w.ingested.map (fun q => (q.eventRowId, q.body)) ↔
      x ∈ w.tables.webhookEvents.rows.map fun e => (e.id, e.rawBody) := by
    intro x
    rw [hi.ingested]
  constructor
  · obtain ⟨q, hq, hqr⟩ := List.mem_map.mp ((hback (r.id, r.rawBody)).mpr (List.mem_map_of_mem hr))
    exact ⟨q, hq, (Prod.mk.inj hqr).1.trans hid⟩
  · intro q hq hqid
    obtain ⟨r', hr', hrq⟩ := List.mem_map.mp ((hback (q.eventRowId, q.body)).mp
      (List.mem_map_of_mem hq))
    have hrr : r' = r := Table.eq_of_key_eq hr' hr
      ((Prod.mk.inj hrq).1.trans (hqid.trans hid.symm))
    rw [hbody, ← hrr]
    exact (Prod.mk.inj hrq).2

/-- Every POST carries the body of the webhook that inserted the event, verifies at the receiver,
names its job, and is numbered as its outcome is recorded. -/
theorem forwarded_requests_verify (env : Env) {w : World}
    (h : (fleet env).Reachable System.free w) : ∀ c ∈ w.claims, ∀ p, c.post = some p →
      ((∃ q ∈ w.ingested, q.eventRowId = c.job.eventId) ∧
        ∀ q ∈ w.ingested, q.eventRowId = c.job.eventId → p.request.body = q.body) ∧
      receiverSignature env.hmacSha256 (env.config c.worker).routerSigningSecret p.request =
        p.request.header "x-resend-router-signature" ∧
      (p.request.header "x-resend-router-signature").isSome = true ∧
      (∃ j ∈ w.tables.deliveryJobs, j.id = c.job.id ∧ j.eventId = c.job.eventId ∧
        p.request.header "x-resend-router-delivery-id" = some j.id.toText ∧
        p.request.header "x-resend-router-event-id" = some j.eventId.toText ∧
        p.request.header "x-resend-router-destination" = some j.destinationName) ∧
      ∀ o ∈ c.outcomes, ∃ a ∈ w.tables.deliveryAttempts, RowOf c o a ∧
        p.request.header "x-resend-router-attempt" = some (toString a.attemptNumber) := by
  intro c hc p hp
  have hi := requestInv_of_reachable h
  have hl := ledgerInv_of_fleet h
  obtain ⟨url, now, hreq⟩ := hi.requests c hc p hp
  obtain ⟨hid, hev, hdest, hatt, -⟩ :=
    deliver_headers env.hmacSha256 (env.config c.worker) c.job c.attempt url now
  obtain ⟨hex, hall⟩ := inserted_body hl hi hc
  rw [hreq]
  refine ⟨⟨hex, hall⟩, deliver_verifies .., rfl, ?_, fun o ho => ?_⟩
  · obtain ⟨j, hj, hs⟩ := hl.snapshots c.job (List.mem_map_of_mem hc)
    refine ⟨j, hj, hs.id, hs.eventId, ?_⟩
    rw [hs.id, hs.eventId, hs.destinationName]
    exact ⟨hid, hev, hdest⟩
  · obtain ⟨a, ha, hrow⟩ := (outcomeInv_of_reachable h).outcomes c hc o ho
    exact ⟨a, ha, hrow, by rw [hrow.number, hatt]⟩

theorem forwarded_requests_verify_delivered : ∃ w, (fleet sampleEnv).Reachable System.free w ∧
    w.claims.map (·.post.isSome) = [false, true, true] ∧
    ∀ c ∈ w.claims, ∀ p, c.post = some p →
      receiverSignature sampleEnv.hmacSha256 (sampleEnv.config c.worker).routerSigningSecret
        p.request = p.request.header "x-resend-router-signature" := by
  obtain ⟨w, hw, hp⟩ := System.exists_reachable_of_run (fleet sampleEnv) System.free delivered
    (fun w => w.claims.map (·.post.isSome) = [false, true, true]) (by decide)
  exact ⟨w, hw, of_decide_eq_true hp,
    fun c hc p hp => (forwarded_requests_verify sampleEnv hw c hc p hp).2.1⟩

end ResendRouter.Delivery
