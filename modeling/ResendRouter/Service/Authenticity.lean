import ResendRouter.Service.Guarantees
import ResendRouter.Signatures.Inbound

/-! # Only what was sent is stored and forwarded

Requests may come from anyone, and may be replayed, cut or joined anew. All that
is assumed of them is that nobody but the sender makes a tag: a request with a
valid tag for its signed content has a content that the sender has signed.
-/

namespace ResendRouter.Service
open Foundation Program Database Ingest Delivery Signatures

variable {svc : Services} {D : Deployment svc} {w : Installation svc} {e : WebhookEvent}

/-- A message as its sender signs it. -/
structure Message where
  svixId : String
  svixTimestamp : String
  body : Bytes
  id_dotFree : '.' ∉ svixId.toList
  timestamp_dotFree : '.' ∉ svixTimestamp.toList
  object : JsonObjectText body

def Message.content (m : Message) : Bytes := signedContent m.svixId m.svixTimestamp m.body

/-- The request has no valid tag for its content unless the sender has signed that content. -/
def Unforged (sent : Message → Prop) (r : Ingest.Request svc) : Prop :=
  ∀ svixId svixTimestamp text token, FirstText r.headers "svix-id" svixId →
    FirstText r.headers "svix-timestamp" svixTimestamp →
    FirstText r.headers "svix-signature" text → token ∈ splitWhitespace text →
    RightToken svc.hmacSha256 r.replica.config.resendWebhookSecret r.headers r.body token →
    ∃ m, sent m ∧ m.content = signedContent svixId svixTimestamp r.body

def unforgeable (sent : Message → Prop) :
    System.Guard (Installation svc) (ServiceEvent svc) := fun _ e _ =>
  ∀ r ∈ e.arriving, Unforged sent r

structure Message.Stored (m : Message) (e : WebhookEvent) : Prop where
  svixId : e.sourceSvixId = m.svixId
  svixTimestamp : e.sourceSvixTimestamp = m.svixTimestamp
  body : e.rawBody = m.body

theorem unforged_of_reachable {sent : Message → Prop}
    (hw : (service D).Reachable (unforgeable sent) w) :
    ∀ h ∈ w.handlers, Unforged sent h.request := by
  apply hw.invariant
  · simp [service]
  · intro w e w' hw hi hstep hg
    cases Installation.step_moves hstep with
    | arrived time r =>
      intro h hh
      rcases List.mem_append.mp hh with hh | hh
      · exact hi h hh
      · rw [List.mem_singleton.mp hh]
        exact hg r rfl
    | @handled time i event h t h' hm hs =>
      intro d hd
      rcases List.mem_or_eq_of_mem_set hd with hd | rfl
      · exact hi d hd
      · have hmem := List.mem_of_getElem? hm
        have hinv := (intakeInv_of_reachable (service_refines_intake hw)).handlers h hmem
        rw [(handlerMove_keeps (Handler.step_moves hs) hinv).1]
        exact hi h hmem
    | worked => exact hi

/-- A stored event is a message of the sender. -/
theorem sent_of_stored {sent : Message → Prop}
    (hjson : ∀ b value, svc.fromSlice b = .ok value → JsonText b)
    (hw : (service D).Reachable (unforgeable sent) w) (he : e ∈ w.world.tables.webhookEvents) :
    ∃ m, sent m ∧ m.Stored e := by
  have hintake := service_refines_intake hw
  obtain ⟨h, hh, q, hins, hing⟩ := (intakeInv_of_reachable hintake).events e he
  have hc := ((intakeInv_of_reachable hintake).handlers h hh).inserted q hins
  obtain ⟨now, hverified⟩ := hc.verified
  obtain ⟨text, htext, token, htoken, hright⟩ := (verifyWebhookSignature_eq_ok.mp hverified).token
  have hid : FirstText h.request.headers "svix-id" e.sourceSvixId :=
    headerToString_eq_some.mp (hc.headers ▸ hing.svixId)
  have hts : FirstText h.request.headers "svix-timestamp" e.sourceSvixTimestamp :=
    headerToString_eq_some.mp (hc.headers ▸ hing.svixTimestamp)
  obtain ⟨m, hm, hcontent⟩ := unforged_of_reachable hw h hh _ _ text token hid hts htext htoken
    hright
  rw [← hc.body, ← hing.body, Message.content] at hcontent
  obtain ⟨htime, event, hevent⟩ := stored_accepted hintake he
  obtain ⟨value, hvalue⟩ := parseEventForRouting_ok hevent
  obtain ⟨h1, h2, h3⟩ := signedContent_inj m.id_dotFree m.timestamp_dotFree m.object htime
    (hjson _ _ hvalue) hcontent.symm
  exact ⟨m, hm, h1, h2, h3⟩

/-- Whatever requests arrive, every stored event is a message that the sender has signed, each is
stored once, and every POST carries the body of one. -/
theorem only_sent_messages (D : Deployment svc) {sent : Message → Prop}
    (hjson : ∀ b value, svc.fromSlice b = .ok value → JsonText b)
    (hw : (service D).Reachable (unforgeable sent) w) :
    (∀ e ∈ w.world.tables.webhookEvents, ∃ m, sent m ∧ m.Stored e ∧
      ∀ e' ∈ w.world.tables.webhookEvents, e'.sourceSvixId = m.svixId → e' = e) ∧
    ∀ c ∈ w.world.claims, ∀ p, c.post = some p → ∃ m, sent m ∧ p.request.body = m.body ∧
      ∃ e ∈ w.world.tables.webhookEvents, e.id = c.job.eventId ∧ m.Stored e := by
  have hf := service_refines_free_fleet hw
  refine ⟨fun e he => ?_, fun c hc p hp => ?_⟩
  · obtain ⟨m, hm, hstored⟩ := sent_of_stored hjson hw he
    refine ⟨m, hm, hstored, fun e' he' hid => ?_⟩
    exact List.inj_on_of_nodup_map w.world.tables.svixUnique he' he (hid.trans hstored.svixId.symm)
  · obtain ⟨e, he, hid, hbody, -⟩ := (ledgerInv_of_fleet hf).bodies c.job (List.mem_map_of_mem hc)
    obtain ⟨m, hm, hstored⟩ := sent_of_stored hjson hw he
    obtain ⟨url, now, hreq⟩ := (requestInv_of_reachable hf).requests c hc p hp
    refine ⟨m, hm, ?_, e, he, hid, hstored⟩
    rw [hreq]
    exact hbody.trans hstored.body

def sampleMessage : Message where
  svixId := "m"
  svixTimestamp := "0"
  body := [0x7B, 0x7D]
  id_dotFree := by decide
  timestamp_dotFree := by decide
  object := braces_jsonObjectText

/-- A request with another svix-id and a tag that nobody has made. -/
def forgedRequest : Request sampleServices where
  replica := sampleReplica
  headers := [("svix-id", [0x6E]), ("svix-timestamp", [0x30]),
    ("svix-signature", [0x76, 0x31, 0x2C, 0x41, 0x41, 0x41, 0x41])]
  body := sampleMessage.body

/-- After the message has been forwarded, it is replayed, and the other request is tried. -/
def contested : List (ServiceEvent sampleServices) :=
  forwarded ++ [.arrive (sampleRequest [0x6D]), .arrive forgedRequest,
    .handler 1 (.check (seconds 3) 2 (fun i => BitVec.ofNat 128 (i + 20)) (seconds 3)),
    .handler 2 (.check (seconds 3) 3 (fun i => BitVec.ofNat 128 (i + 30)) (seconds 3)),
    .handler 1 .insertEvent, .handler 1 .rollback].map fun action => ⟨seconds 3, action⟩

def sampled : System.Guard (Installation sampleServices) (ServiceEvent sampleServices) :=
  fun _ e _ => ∀ r ∈ e.arriving, r.body = sampleMessage.body ∧
    (r.headers = (sampleRequest [0x6D]).headers ∨ r.headers = forgedRequest.headers)

instance (w : Installation sampleServices) (e : ServiceEvent sampleServices)
    (w' : Installation sampleServices) : Decidable (sampled w e w') :=
  inferInstanceAs (Decidable (∀ r ∈ _, _))

theorem unforgeable_of_sampled {w w' : Installation sampleServices}
    {e : ServiceEvent sampleServices} (h : sampled w e w') :
    unforgeable (· = sampleMessage) w e w' := by
  intro r hr svixId svixTimestamp text token hid hts hsig htoken hright
  obtain ⟨hbody, hheaders | hheaders⟩ := h r hr
  · rw [hheaders] at hid hts
    obtain rfl : svixId = "m" := hid.unique ⟨_, rfl, by decide⟩
    obtain rfl : svixTimestamp = "0" := hts.unique ⟨_, rfl, by decide⟩
    exact ⟨sampleMessage, rfl, by rw [hbody]; rfl⟩
  · rw [hheaders] at hsig
    obtain rfl : text = "v1,AAAA" := hsig.unique ⟨_, rfl, by decide⟩
    rw [show splitWhitespace "v1,AAAA" = ["v1,AAAA"] by decide, List.mem_singleton] at htoken
    obtain ⟨_, _, _, tag, -, -, -, heq, htag⟩ := hright
    have hmatches : candidateMatches [77, 97, 110] token = true :=
      candidateMatches_eq_true.mpr ⟨tag, heq, htag⟩
    rw [htoken] at hmatches
    exact absurd hmatches (by decide)

theorem only_sent_messages_contested : ∃ w,
    (service sampleDeployment).Reachable (unforgeable (· = sampleMessage)) w ∧
    w.handlers.map Handler.status = [202, 202, 400] ∧
    w.world.claims.map (·.post.isSome) = [true, false] ∧
    (∀ e ∈ w.world.tables.webhookEvents, ∃ m, m = sampleMessage ∧ m.Stored e ∧
      ∀ e' ∈ w.world.tables.webhookEvents, e'.sourceSvixId = m.svixId → e' = e) ∧
    ∀ c ∈ w.world.claims, ∀ p, c.post = some p → ∃ m, m = sampleMessage ∧
      p.request.body = m.body ∧
      ∃ e ∈ w.world.tables.webhookEvents, e.id = c.job.eventId ∧ m.Stored e := by
  have hjson : ∀ b value, sampleServices.fromSlice b = .ok value → JsonText b := by
    intro b value hb
    simp only [sampleServices] at hb
    split_ifs at hb with hbody
    rw [hbody]
    exact braces_jsonObjectText.jsonText
  obtain ⟨w, hw, hp⟩ := System.exists_reachable_of_run (service sampleDeployment) sampled contested
    (fun w => w.handlers.map Handler.status = [202, 202, 400] ∧
      w.world.claims.map (·.post.isSome) = [true, false]) (by decide)
  rw [decide_eq_true_eq] at hp
  have hw := hw.mono (G := unforgeable (· = sampleMessage)) fun _ _ _ h => unforgeable_of_sampled h
  exact ⟨w, hw, hp.1, hp.2, only_sent_messages sampleDeployment hjson hw⟩

end ResendRouter.Service
