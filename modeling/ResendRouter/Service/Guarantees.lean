import ResendRouter.Service.Deployment
import ResendRouter.Routing.Constraints
import ResendRouter.Signatures.Outbound
import ResendRouter.Database.HeaderObjects

/-! # What the service guarantees end to end

From an authenticated webhook to the POST at a destination, and from an
acknowledgement to the end of every job, in every run of handlers and workers.
-/

namespace ResendRouter.Service
open Foundation Program Database Ingest Delivery Routing ResendRouter.Configuration Signatures

variable {svc : Services} {D : Deployment svc} {w w' : Installation svc} {h h' : Handler svc}
  {q : Enqueue} {c : Claim} {j : DeliveryJob}
  {G : System.Guard (Installation svc) (ServiceEvent svc)}

theorem mem_matched {r : Ingest.Request svc} {event : ResendEventForRouting}
    (he : r.event = .ok event) {d : DestinationConfig} :
    d ∈ r.matched ↔ ∃ d₀ ∈ r.replica.config.destinations,
      Routed d₀ event ∧ normalizeDestination d₀ = d := by
  have hvalid := (validate_eq_ok.mp r.replica.valid).2.2.destinations
  rw [Ingest.Request.matched, he]
  simp only [RouteMatcher.matchDestinations, RouteMatcher.new, List.mem_filter, List.mem_map]
  constructor
  · rintro ⟨⟨d₀, hd₀, rfl⟩, hmatch⟩
    exact ⟨d₀, hd₀, (destinationMatches_normalizeDestination (hvalid d₀ hd₀)).mp hmatch, rfl⟩
  · rintro ⟨d₀, hd₀, hrouted, rfl⟩
    exact ⟨⟨d₀, hd₀, rfl⟩, (destinationMatches_normalizeDestination (hvalid d₀ hd₀)).mpr hrouted⟩

def Installation.Runs (D : Deployment svc) (w : Installation svc) (replica : Replica svc) : Prop :=
  (∃ workerId, D workerId = replica) ∨ ∃ h ∈ w.handlers, h.request.replica = replica

theorem configured_of_lists (hw : (service D).Reachable G w) {name url : String}
    (hl : w.world.Lists D.env name url) :
    ∃ replica, w.Runs D replica ∧
      ∃ d ∈ replica.config.destinations, d.name = name ∧ d.url = url := by
  rcases hl with ⟨q, hq, d, hd, rfl, rfl⟩ | ⟨workerId, hurl⟩
  · obtain ⟨h, hh, -, hchecked⟩ := handler_of_ingested hw q hq
    rw [hchecked.destinations] at hd
    obtain ⟨d₀, hd₀, -, rfl⟩ := (mem_matched hchecked.event).mp hd
    exact ⟨h.request.replica, .inr ⟨h, hh, rfl⟩, d₀, hd₀, rfl, rfl⟩
  · have hnodup := (validate_eq_ok.mp (D workerId).valid).2.2.names
    obtain ⟨d, hd, hname, hurl⟩ := (destinationUrl_eq_some hnodup).mp hurl
    exact ⟨D workerId, .inl ⟨workerId, rfl⟩, d, hd, hname, hurl⟩

/-- What a POST has from the request that inserted its event. -/
structure Forwarded (h : Handler svc) (c : Claim) (p : Post) : Prop where
  authentic : ∃ now, verifyWebhookSignature svc.hmacSha256
    h.request.replica.config.resendWebhookSecret
    h.request.replica.config.resendSignatureToleranceSecs h.request.headers h.request.body now =
      .ok ()
  inserted : h.inserted.map (·.eventRowId) = some c.job.eventId
  routed : ∃ event, h.request.event = .ok event ∧
    ∃ d ∈ h.request.replica.config.destinations, d.name = c.job.destinationName ∧ Routed d event
  body : p.request.body = h.request.body
  contentType : p.request.header "content-type" =
    some ((headerTexts h.request.headers "content-type").head?.getD "application/json")

theorem headerValueFromJson_contentType (headers : HeaderMap) :
    headerValueFromJson (headersToJson headers) "content-type" =
      (headerTexts headers "content-type").head? := by
  rw [headerValueFromJson_eq]
  rfl

/-- Nothing is forwarded but webhooks whose signature was valid, with their body and content type,
to destinations that the event was matched to, and only to URLs that a process of the service has
configured for them. -/
theorem posts_come_from_webhooks (D : Deployment svc) {w : Installation svc}
    (hw : (service D).Reachable System.free w) : ∀ c ∈ w.world.claims, ∀ p, c.post = some p →
      (∃ h ∈ w.handlers, Forwarded h c p) ∧
      ∃ replica, w.Runs D replica ∧ ∃ d ∈ replica.config.destinations,
        d.name = c.job.destinationName ∧ d.url = p.request.url := by
  intro c hc p hp
  have hf := service_refines_free_fleet hw
  have ho := originInv_of_reachable hf
  obtain ⟨q, hq, hof⟩ := ho.claimOf (ledgerInv_of_fleet hf) hc
  obtain ⟨h, hh, hins, hchecked⟩ := handler_of_ingested hw q hq
  obtain ⟨url, now, hreq⟩ := (requestInv_of_reachable hf).requests c hc p hp
  refine ⟨⟨h, hh, hchecked.verified, ?_, ⟨q.event, hchecked.event, ?_⟩, ?_, ?_⟩,
    configured_of_lists hw (ho.posted (urlInv_of_reachable hf) hc hp)⟩
  · rw [hins, Option.map_some, hof.event]
  · obtain ⟨d, hd, hname⟩ := hof.destination
    rw [hchecked.destinations] at hd
    obtain ⟨d₀, hd₀, hrouted, rfl⟩ := (mem_matched hchecked.event).mp hd
    exact ⟨d₀, hd₀, hname, hrouted⟩
  · rw [hreq]
    exact hof.body.trans hchecked.body
  · rw [hreq, ← hchecked.headers, ← headerValueFromJson_contentType, ← hof.headers]
    rfl

def sampleDeployment : Deployment sampleServices := fun _ => sampleReplica

/-- A webhook for two destinations is acknowledged; one job is delivered, and the task of the other
one has died. -/
def forwarded : List (ServiceEvent sampleServices) :=
  [⟨0, .arrive (sampleRequest [0x6D])⟩,
    ⟨0, .handler 0 (.check 0 1 (fun i => BitVec.ofNat 128 (i + 10)) 0)⟩,
    ⟨0, .handler 0 .insertEvent⟩, ⟨0, .handler 0 .insertDeliveryJob⟩,
    ⟨0, .handler 0 .insertDeliveryJob⟩, ⟨0, .handler 0 (.commit .answered)⟩,
    ⟨0, .handler 0 .answer⟩, ⟨0, .worker (.claim "a" 0 [] .answered)⟩] ++
  ((attemptSteps 0 1 (.ok 200)).map fun e => ⟨e.time, .worker e.action⟩) ++
  [⟨seconds 1, .worker (.task 0 (.record .answered))⟩, ⟨seconds 2, .worker (.task 1 .die)⟩]

theorem posts_come_from_webhooks_forwarded : ∃ w,
    (service sampleDeployment).Reachable System.free w ∧
    w.world.claims.map (·.post.isSome) = [true, false] ∧
    ∀ c ∈ w.world.claims, ∀ p, c.post = some p → ∃ h ∈ w.handlers, Forwarded h c p := by
  obtain ⟨w, hw, hp⟩ := System.exists_reachable_of_run (service sampleDeployment) System.free
    forwarded (fun w => w.world.claims.map (·.post.isSome) = [true, false]) (by decide)
  exact ⟨w, hw, of_decide_eq_true hp,
    fun c hc p hp => (posts_come_from_webhooks sampleDeployment hw c hc p hp).1⟩

def IsHeaderCharacter (c : Char) : Prop := 32 ≤ c.toNat ∧ c.toNat < 127 ∨ c = '\t'

def IsHeaderText (s : String) : Prop := ∀ c ∈ s.toList, IsHeaderCharacter c

theorem IsHeaderText.append {s t : String} (hs : IsHeaderText s) (ht : IsHeaderText t) :
    IsHeaderText (s ++ t) := by
  intro c hc
  rw [String.toList_append, List.mem_append] at hc
  exact hc.elim (hs c) (ht c)

theorem isHeaderText_of_all {s : String}
    (h : s.toList.all (fun c => 32 ≤ c.toNat && c.toNat < 127) = true) : IsHeaderText s := by
  intro c hc
  have hc' := List.all_eq_true.mp h c hc
  simp only [Bool.and_eq_true, decide_eq_true_eq] at hc'
  exact .inl hc'

theorem isHeaderCharacter_of_le {a b c : Char} (ha : 32 ≤ a.toNat) (hb : b.toNat < 127)
    (h : a ≤ c ∧ c ≤ b) : IsHeaderCharacter c := by
  have h1 : a.toNat ≤ c.toNat := h.1
  have h2 : c.toNat ≤ b.toNat := h.2
  exact .inl ⟨by omega, by omega⟩

theorem isHeaderCharacter_of_isDigit {c : Char} (h : isDigit c = true) : IsHeaderCharacter c := by
  simp only [isDigit, Bool.and_eq_true, decide_eq_true_eq] at h
  exact isHeaderCharacter_of_le (by decide) (by decide) h

theorem isHeaderCharacter_of_isHexDigit {c : Char} (h : isHexDigit c = true) :
    IsHeaderCharacter c := by
  simp only [isHexDigit, Bool.or_eq_true, Bool.and_eq_true, decide_eq_true_eq] at h
  rcases h with (h | h) | h
  · exact isHeaderCharacter_of_isDigit h
  · exact isHeaderCharacter_of_le (by decide) (by decide) h
  · exact isHeaderCharacter_of_le (by decide) (by decide) h

theorem isHeaderCharacter_of_isNameCharacter {c : Char} (h : isNameCharacter c = true) :
    IsHeaderCharacter c := by
  change ((decide ('A' ≤ c ∧ c ≤ 'Z') || 'a' ≤ c && c ≤ 'z' || '0' ≤ c && c ≤ '9') ||
    c = '-' || c = '_' || c = '.') = true at h
  simp only [Bool.or_eq_true, Bool.and_eq_true, decide_eq_true_eq] at h
  rcases h with ((((h | h) | h) | rfl) | rfl) | rfl
  · exact isHeaderCharacter_of_le (a := 'A') (b := 'Z') (by decide) (by decide) h
  · exact isHeaderCharacter_of_le (a := 'a') (b := 'z') (by decide) (by decide) h
  · exact isHeaderCharacter_of_le (a := '0') (b := '9') (by decide) (by decide) h
  all_goals exact .inl (by decide)

theorem toNat_ofNat_of_lt {n : ℕ} (h : n < 127) : (Char.ofNat n).toNat = n := by
  revert n
  decide

theorem isHeaderText_headerText (value : Bytes) : IsHeaderText (headerText value) := by
  rw [headerText, toStr]
  split
  case isFalse =>
    exact isHeaderText_of_all (by decide)
  case isTrue hall =>
    intro c hc
    rw [Option.getD_some, String.toList_ofList, List.mem_map] at hc
    obtain ⟨b, hb, rfl⟩ := hc
    have hvisible := List.all_eq_true.mp hall b hb
    simp only [isVisibleAscii, Bool.or_eq_true, Bool.and_eq_true, decide_eq_true_eq,
      UInt8.le_iff_toNat_le, UInt8.lt_iff_toNat_lt, UInt8.reduceToNat] at hvisible
    rcases hvisible with ⟨hlow, hhigh⟩ | rfl
    · left
      rw [toNat_ofNat_of_lt hhigh]
      exact ⟨hlow, hhigh⟩
    · exact .inr rfl

theorem isHeaderText_toString (n : ℤ) : IsHeaderText (toString n) := by
  obtain ⟨ds, hs, -, hd⟩ := isDecimal_toString n
  intro c hc
  have hcases : c = '-' ∨ c = '+' ∨ c ∈ ds := by
    rcases hs with hs | hs | hs <;> rw [hs] at hc
    · exact .inr (.inr hc)
    · exact (List.mem_cons.mp hc).imp_right .inr
    · exact .inr (List.mem_cons.mp hc)
  rcases hcases with rfl | rfl | hc
  · exact .inl (by decide)
  · exact .inl (by decide)
  · exact isHeaderCharacter_of_isDigit (hd c hc)

theorem isHeaderText_toText (u : Uuid) : IsHeaderText u.toText := by
  obtain ⟨g₁, g₂, g₃, g₄, g₅, hs, -, hx⟩ := isHyphenatedUuid_toText u
  intro c hc
  by_cases hg : c ∈ g₁ ++ g₂ ++ g₃ ++ g₄ ++ g₅
  · exact isHeaderCharacter_of_isHexDigit (hx c hg)
  · simp only [List.mem_append, not_or] at hg
    rw [hs] at hc
    simp only [List.mem_append, List.mem_cons, hg, false_or, or_false, or_self] at hc
    rw [hc]
    exact .inl (by decide)

theorem isHeaderText_signDelivery (hmacSha256 : Bytes → Bytes → Bytes)
    (secret timestamp deliveryId eventId destination : String) (attempt : ℤ) (body : Bytes) :
    IsHeaderText (signDelivery hmacSha256 secret timestamp deliveryId eventId destination attempt
      body) := by
  refine IsHeaderText.append (isHeaderText_of_all (by decide)) fun c hc => ?_
  have hvisible := Base64.Engine.encode_visible c hc
  exact .inl ⟨by omega, hvisible.2⟩

/-- A request has header values only that can be sent, if the destination name is one and the
stored content type is one of a received header. -/
theorem isHeaderText_deliver (hmacSha256 : Bytes → Bytes → Bytes) (config : Config)
    {job : ClaimedJob} (attempt : ℤ) (url : String) (now : Time)
    (hname : IsHeaderText job.destinationName)
    (htype : ∀ s, headerValueFromJson job.headers "content-type" = some s → IsHeaderText s) :
    ∀ field ∈ (deliver hmacSha256 config job attempt url now).headers, IsHeaderText field.2 := by
  have htype' : IsHeaderText
      ((headerValueFromJson job.headers "content-type").getD "application/json") := by
    cases hs : headerValueFromJson job.headers "content-type" with
    | none => exact isHeaderText_of_all (by decide)
    | some s => exact htype s hs
  have hagent : IsHeaderText userAgent := isHeaderText_of_all (by decide)
  simp only [deliver, List.forall_mem_cons, List.not_mem_nil, false_implies, implies_true,
    and_true]
  exact ⟨htype', hagent, isHeaderText_toText _, isHeaderText_toText _, isHeaderText_toString _,
    hname, isHeaderText_toString _, isHeaderText_signDelivery _ _ _ _ _ _ _ _⟩

/-- Whatever headers a webhook has, no request that the service builds is refused for one of its
header values, and none of them carries a line break. -/
theorem requests_have_header_texts (D : Deployment svc) {w : Installation svc}
    (hw : (service D).Reachable System.free w) : ∀ c ∈ w.world.claims,
      (∀ url now, ∀ field ∈ (deliver svc.hmacSha256 (D c.worker).config c.job c.attempt url
        now).headers, IsHeaderText field.2) ∧
      ∀ p, c.post = some p → ∀ field ∈ p.request.headers, IsHeaderText field.2 := by
  intro c hc
  have hf := service_refines_free_fleet hw
  obtain ⟨q, hq, hof⟩ := (originInv_of_reachable hf).claimOf (ledgerInv_of_fleet hf) hc
  obtain ⟨h, hh, -, hchecked⟩ := handler_of_ingested hw q hq
  have hname : IsHeaderText c.job.destinationName := by
    obtain ⟨d, hd, hname⟩ := hof.destination
    rw [hchecked.destinations] at hd
    obtain ⟨d₀, hd₀, -, rfl⟩ := (mem_matched hchecked.event).mp hd
    have hvalid := (validate_eq_ok.mp h.request.replica.valid).2.2.destinations d₀ hd₀
    intro x hx
    rw [← hname] at hx
    exact isHeaderCharacter_of_isNameCharacter (List.all_eq_true.mp hvalid.nameCharacters x hx)
  have htype : ∀ s, headerValueFromJson c.job.headers "content-type" = some s →
      IsHeaderText s := by
    intro s hs
    rw [hof.headers, headerValueFromJson_contentType] at hs
    obtain ⟨field, -, rfl⟩ := List.mem_map.mp (List.mem_of_mem_head? hs)
    exact isHeaderText_headerText _
  have hall := fun url now => isHeaderText_deliver svc.hmacSha256 (D c.worker).config c.attempt url
    now hname htype
  refine ⟨hall, fun p hp => ?_⟩
  obtain ⟨url, now, hreq⟩ := (requestInv_of_reachable hf).requests c hc p hp
  rw [hreq]
  exact hall url now

theorem requests_have_header_texts_forwarded : ∃ w,
    (service sampleDeployment).Reachable System.free w ∧ w.world.claims.length = 2 ∧
    ∀ c ∈ w.world.claims, ∀ p, c.post = some p → ∀ field ∈ p.request.headers,
      IsHeaderText field.2 := by
  obtain ⟨w, hw, hp⟩ := System.exists_reachable_of_run (service sampleDeployment) System.free
    forwarded (fun w => w.world.claims.length = 2) (by decide)
  exact ⟨w, hw, of_decide_eq_true hp,
    fun c hc => (requests_have_header_texts sampleDeployment hw c hc).2⟩

/-- How far the service is with a job of an accepted request: it will be claimed again, or a
destination has taken the body with a 2xx, or the deadline has passed. -/
inductive Tracked (w : Installation svc) (h : Handler svc) (j : DeliveryJob) : Prop where
  | pending (hopen : ¬ (j.status = .succeeded ∨ j.status = .failed))
      (hdue : ∀ stale now, j.deadlineAt < now → (∀ l ∈ j.lockedAt, l + seconds stale < now) →
        isDue now stale j = true)
  | delivered (hs : j.status = .succeeded) {c p status} (hc : c ∈ w.world.claims)
      (hid : c.job.id = j.id) (hp : c.post = some p) (hr : c.Received status)
      (hok : isSuccess status = true) (hbody : p.request.body = h.request.body)
  | expired {completedAt} (hs : j.status = .failed) (hc : j.completedAt = some completedAt)
      (hd : j.deadlineAt ≤ completedAt)

section Lawful
variable (hw : (service D).Reachable lawful w)
include hw

theorem post_body (hh : h ∈ w.handlers) (hins : h.inserted = some q) (hc : c ∈ w.world.claims)
    (hevent : q.eventRowId = c.job.eventId) {p : Post} (hp : c.post = some p) :
    p.request.body = h.request.body := by
  have hf := service_refines_windowed_fleet hw
  have hreq := requestInv_of_reachable hf
  obtain ⟨q', hq', hof⟩ := (originInv_of_reachable hf).claimOf (ledgerInv_of_fleet hf) hc
  obtain rfl := ingested_unique hreq hq' (ingested_of_handler hw h hh q hins)
    (hof.event.trans hevent.symm)
  obtain ⟨url, now, hrequest⟩ := hreq.requests c hc p hp
  have hinv := (intakeInv_of_reachable (service_refines_intake hw)).handlers h hh
  rw [hrequest]
  exact hof.body.trans (hinv.inserted q' hins).body

theorem tracked_of_job (hh : h ∈ w.handlers) (hins : h.inserted = some q)
    (hj : j ∈ w.world.tables.deliveryJobs) (hevent : j.eventId = q.eventRowId) :
    Tracked w h j := by
  have hf := service_refines_windowed_fleet hw
  have hl := leaseInv_of_reachable hf
  have hledger := ledgerInv_of_fleet hf
  have hsound := sound_of_reachable (fun _ _ _ hg => hg.1.1) hf
  by_cases hopen : j.status = .succeeded ∨ j.status = .failed
  case neg =>
    have hpattern := rowPattern_of_reachable (fleet_refines_ledger (K := System.free)
      (fun _ _ _ _ _ _ => trivial) hf) j hj
    have hnext := next_before_deadline hf hj
    exact .pending hopen fun stale now hnow hlock =>
      hpattern.isDue hopen (hnext.trans hnow.le) hlock
  -- the latest claim of a closed job has recorded the outcome that closed it
  obtain ⟨i, c, hlatest, o, ho, hid, hstatus, -, hcompleted⟩ :=
    closed_by hl hj (isTerminal_iff.mpr hopen)
  have hc := List.mem_of_getElem? hlatest.present
  have hs := hledger.snapshot (List.mem_map_of_mem hc) hj hid.symm
  rcases hopen with hsucceeded | hfailed
  · obtain ⟨status, d, -, hok, hr⟩ :=
      ((hsound c hc).outcomes o ho).of_succeeded (hstatus.trans hsucceeded)
    obtain ⟨request, startedAt, finishedAt, hp⟩ := id hr
    exact .delivered hsucceeded hc hid hp hr hok
      (post_body hw hh hins hc (hevent.symm.trans hs.eventId) hp)
  · refine .expired hfailed hcompleted ?_
    rw [hs.deadlineAt]
    exact ((hsound c hc).outcomes o ho).of_failed (hstatus.trans hfailed)

end Lawful

/-- Whoever was answered 202 has an event in the store, inserted by a verified request with the
same svix-id, and for each destination that the event has to go to exactly one job, which the
service is still going to claim, or which has ended with a 2xx for the body of that request, or
after the retry window. -/
theorem acknowledged_until_closed (D : Deployment svc) {w : Installation svc}
    (hw : (service D).Reachable lawful w) : ∀ h ∈ w.handlers, h.stage = .answered 202 →
      ∃ h' ∈ w.handlers, ∃ q, h'.inserted = some q ∧ Checked h'.request q ∧
        h'.request.svixId = h.request.svixId ∧
        ∀ d ∈ h'.request.replica.config.destinations, Routed d q.event →
          ∃ j ∈ w.world.tables.deliveryJobs,
            (j.eventId = q.eventRowId ∧ j.destinationName = d.name) ∧
            (∀ k ∈ w.world.tables.deliveryJobs,
              k.eventId = q.eventRowId → k.destinationName = d.name → k = j) ∧
            j.deadlineAt = q.now + h'.request.replica.config.retryWindow ∧ Tracked w h' j := by
  intro h hh hs
  have hi := intakeInv_of_reachable (service_refines_intake hw)
  have hf := service_refines_windowed_fleet hw
  obtain ⟨e, he, hsvix⟩ := (hi.handlers h hh).acknowledged (.inr (.inr hs))
  obtain ⟨h', hh', q, hins, hing⟩ := hi.events e he
  have hchecked := (hi.handlers h' hh').inserted q hins
  have hcomplete := hing.completeFor hchecked
  refine ⟨h', hh', q, hins, hchecked, hcomplete.svixId.trans hsvix.symm, fun d hd hrouted => ?_⟩
  have hname : d.name ∈ (jobsOf w.world.tables e.id).map (·.destinationName) := by
    have hm := (mem_matched hchecked.event).mpr ⟨d, hd, hrouted, rfl⟩
    have hnames : (jobsOf w.world.tables e.id).map (·.destinationName) =
        h'.request.matched.map (·.name) := hcomplete.names
    rw [hnames]
    exact List.mem_map.mpr ⟨_, hm, rfl⟩
  obtain ⟨j, hj, hjname⟩ := List.mem_map.mp hname
  have hmem : ∀ k, k ∈ jobsOf w.world.tables e.id ↔
      k ∈ w.world.tables.deliveryJobs ∧ k.eventId = q.eventRowId := by
    intro k
    rw [jobsOf, List.mem_filter, decide_eq_true_eq, hing.id]
    rfl
  obtain ⟨hjobs, hevent⟩ := (hmem j).mp hj
  refine ⟨j, hjobs, ⟨hevent, hjname⟩, fun k hk hkevent hkname => ?_, ?_,
    tracked_of_job hw hh' hins hjobs hevent⟩
  · exact List.inj_on_of_nodup_map hcomplete.distinct ((hmem k).mpr ⟨hk, hkevent⟩) hj
      (hkname.trans hjname.symm)
  · obtain ⟨r, hr, q', hq', hof⟩ := (originInv_of_reachable hf).jobs j hjobs
    have hid := (newWebhookEvent_ok hof.made).1
    obtain rfl := ingested_unique (requestInv_of_reachable hf) hq'
      (ingested_of_handler hw h' hh' q hins) (hid.symm.trans (hof.event.trans hevent))
    rw [addTime_eq_some (Enqueue.prepare_ok hof.prepared).1,
      windowed_of_reachable hw h' hh' q' (.inr hins)]

theorem acknowledged_until_closed_forwarded : ∃ w,
    (service sampleDeployment).Reachable lawful w ∧ w.handlers.map Handler.status = [202] ∧
    w.world.tables.deliveryJobs.rows.map (·.status) = [.succeeded, .delivering] ∧
    ∀ h ∈ w.handlers, h.stage = .answered 202 → ∃ h' ∈ w.handlers, ∃ q, h'.inserted = some q ∧
      ∀ d ∈ h'.request.replica.config.destinations, Routed d q.event →
        ∃ j ∈ w.world.tables.deliveryJobs, j.destinationName = d.name ∧ Tracked w h' j := by
  obtain ⟨w, hw, hp⟩ := System.exists_reachable_of_run (service sampleDeployment) lawful forwarded
    (fun w => w.handlers.map Handler.status = [202] ∧
      w.world.tables.deliveryJobs.rows.map (·.status) = [.succeeded, .delivering]) (by decide)
  rw [decide_eq_true_eq] at hp
  refine ⟨w, hw, hp.1, hp.2, fun h hh hs => ?_⟩
  obtain ⟨h', hh', q, hins, -, -, hall⟩ := acknowledged_until_closed sampleDeployment hw h hh hs
  refine ⟨h', hh', q, hins, fun d hd hrouted => ?_⟩
  obtain ⟨j, hj, ⟨-, hname⟩, -, -, htracked⟩ := hall d hd hrouted
  exact ⟨j, hj, hname, htracked⟩

end ResendRouter.Service
