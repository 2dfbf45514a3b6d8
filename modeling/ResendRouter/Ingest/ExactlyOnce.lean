import ResendRouter.Ingest.Intake

/-! # Exactly-once, all-or-nothing ingestion

What the committed tables and the answers have in common, whatever requests
arrive, on whatever replicas, and wherever they are aborted.
-/

namespace ResendRouter.Ingest
open Foundation Program Database

variable {svc : Services} {t t' : Tables} {q : Enqueue} {e : WebhookEvent} {h h' : Handler svc}
  {v w : Intake svc} {i : ℕ}

theorem Request.matched_names (r : Request svc) : (r.matched.map (·.name)).Sublist
    (r.replica.config.destinations.map (·.name)) := by
  rw [Request.matched]
  split
  · exact matchDestinations_names _ _
  · exact List.nil_sublist _

theorem Request.matched_nodup (r : Request svc) : (r.matched.map (·.name)).Nodup :=
  r.matched_names.nodup (Config.destinations_ok r.replica.valid).2

theorem Request.wrapI32_matched (r : Request svc) :
    wrapI32 r.matched.length = r.matched.length := by
  have hle := r.matched_names.length_le
  have hfits := r.replica.fits
  rw [List.length_map, List.length_map] at hle
  apply wrapI32_of_mem <;> omega

structure CompleteFor (t : Tables) (r : Request svc) (e : WebhookEvent) : Prop where
  svixId : r.svixId = some e.sourceSvixId
  body : e.rawBody = r.body
  count_pos : 1 ≤ e.matchedDestinationCount
  /-- As many jobs as the row counts. -/
  count : ((jobsOf t e.id).length : ℤ) = e.matchedDestinationCount
  /-- One job for each matched destination. -/
  names : (jobsOf t e.id).map (·.destinationName) = r.matched.map (·.name)
  distinct : ((jobsOf t e.id).map (·.destinationName)).Nodup
  deadline : ∃ deadlineAt, ∀ j ∈ jobsOf t e.id, j.deadlineAt = deadlineAt

theorem Ingested.completeFor {r : Request svc} (hi : Ingested t q e) (hq : Checked r q) :
    CompleteFor t r e := by
  obtain ⟨deadlineAt, hd⟩ := hi.jobs
  rw [targets, hq.destinations] at hd
  have hnames : (jobsOf t e.id).map (·.destinationName) = r.matched.map (·.name) := by
    have := congrArg (List.map Prod.fst) hd
    simpa only [List.map_map, Function.comp_def] using this
  have hcount : e.matchedDestinationCount = r.matched.length := by
    rw [hi.count, hq.destinations, r.wrapI32_matched]
  refine ⟨?_, hi.body.trans hq.body, ?_, ?_, hnames, ?_, deadlineAt, fun j hj => ?_⟩
  · rw [← hi.svixId, hq.headers]
    rfl
  · have := List.length_pos_iff.mpr hq.matched
    omega
  · have := congrArg List.length hnames
    rw [List.length_map, List.length_map] at this
    rw [hcount, this]
  · rw [hnames]
    exact r.matched_nodup
  · have hmem : (j.destinationName, j.deadlineAt) ∈
        r.matched.map fun d => (d.name, deadlineAt) := by
      rw [← hd]
      exact List.mem_map_of_mem hj
    obtain ⟨d, -, heq⟩ := List.mem_map.mp hmem
    exact (congrArg Prod.snd heq).symm

theorem HandlerMove.inserted {others : List (Handler svc)} (hm : HandlerMove others t h t' h') :
    (t' = t ∧ h'.inserted = h.inserted) ∨ h'.inserted.isSome = true := by
  cases hm with
  | committed => exact .inr rfl
  | _ => exact .inl ⟨rfl, rfl⟩

/-- A commit is remembered in every later state. -/
theorem inserted_later (hv : (intake svc).Reachable System.free v)
    (hvw : (intake svc).Reaches System.free v w) (hm : v.handlers[i]? = some h)
    (hins : h.inserted.isSome = true) :
    ∃ h', w.handlers[i]? = some h' ∧ h'.inserted.isSome = true := by
  apply hv.later hvw (I := fun w => ∃ h', w.handlers[i]? = some h' ∧ h'.inserted.isSome = true)
    ⟨h, hm, hins⟩
  rintro w a w' _ ⟨h₀, hm₀, hins₀⟩ hstep _
  cases a with
  | arrive r =>
    cases hstep
    exact ⟨h₀, getElem?_append_old hm₀, hins₀⟩
  | handler k event =>
    obtain ⟨x, t, x', hx, hmove, rfl⟩ := Intake.step_handler hstep
    by_cases hik : i = k
    · subst hik
      refine ⟨x', (getElem?_set_some hx).mpr (.inl ⟨rfl, rfl⟩), ?_⟩
      rw [hm₀, Option.some.injEq] at hx
      rcases hmove.inserted with ⟨-, heq⟩ | hsome
      · rw [heq, ← hx, hins₀]
      · exact hsome
    · exact ⟨h₀, (getElem?_set_some hx).mpr (.inr ⟨hik, hm₀⟩), hins₀⟩
  | worker a =>
    obtain ⟨-, s, -, rfl⟩ := Intake.step_worker hstep
    exact ⟨h₀, hm₀, hins₀⟩

structure ExactlyOnce (w : Intake svc) : Prop where
  /-- At most one row for each svix-id. -/
  unique : ∀ e ∈ w.store.tables.webhookEvents, ∀ e' ∈ w.store.tables.webhookEvents,
    e.sourceSvixId = e'.sourceSvixId → e = e'
  /-- Every row was inserted by one request, with all of its jobs. -/
  complete : ∀ e ∈ w.store.tables.webhookEvents, ∃ h ∈ w.handlers,
    h.inserted.map (·.eventRowId) = some e.id ∧ CompleteFor w.store.tables h.request e
  /-- An acknowledged svix-id is stored, with all of its jobs. -/
  acknowledged : ∀ h ∈ w.handlers, h.stage = .answered 202 →
    ∃ e ∈ w.store.tables.webhookEvents, h.request.svixId = some e.sourceSvixId ∧
      ∃ h' ∈ w.handlers, CompleteFor w.store.tables h'.request e
  /-- No step of a request that answered otherwise has changed the tables. -/
  untouched : ∀ (i : ℕ) (h : Handler svc) (status : ℕ), w.handlers[i]? = some h →
    h.stage = .answered status → status ≠ 202 → h.cutOffAfterCommit = false →
    ∀ v v' event, (intake svc).Reachable System.free v →
      (intake svc).step v (.handler i event) = some v' → (intake svc).Reaches System.free v' w →
      v'.store.tables = v.store.tables

/-- Ingestion is exactly-once and all-or-nothing in every reachable state. -/
theorem ingestion_exactly_once (hw : (intake svc).Reachable System.free w) : ExactlyOnce w := by
  have hi := intakeInv_of_reachable hw
  have hcomplete : ∀ e ∈ w.store.tables.webhookEvents, ∃ h ∈ w.handlers,
      h.inserted.map (·.eventRowId) = some e.id ∧ CompleteFor w.store.tables h.request e := by
    intro e he
    obtain ⟨h, hm, q, hq, hing⟩ := hi.events e he
    exact ⟨h, hm, by simp [hq, hing.id], hing.completeFor ((hi.handlers h hm).inserted q hq)⟩
  constructor
  · intro e he e' he' hs
    exact List.inj_on_of_nodup_map w.store.tables.svixUnique he he' hs
  · exact hcomplete
  · intro h hm hs
    obtain ⟨e, he, hid⟩ := (hi.handlers h hm).acknowledged (.inr (.inr hs))
    obtain ⟨h', hm', -, hc⟩ := hcomplete e he
    exact ⟨e, he, hid, h', hm', hc⟩
  · intro i h status hm hs hne hcut v v' event hv hstep hreach
    obtain ⟨x, t, x', hx, hmove, rfl⟩ := Intake.step_handler hstep
    rcases hmove.inserted with ⟨rfl, -⟩ | hsome
    · rfl
    · -- the commit would still be remembered at the answer
      have hx' : (v.handlers.set i x')[i]? = some x' := (getElem?_set_some hx).mpr (.inl ⟨rfl, rfl⟩)
      obtain ⟨h₀, hm₀, hins₀⟩ := inserted_later (hv.step hstep trivial) hreach hx' hsome
      rw [hm, Option.some.injEq] at hm₀
      have hnone := (hi.handlers h (List.mem_of_getElem? hm)).untouched hcut (by simp [hs])
        (by simpa [hs] using hne)
      rw [← hm₀, hnone] at hins₀
      cases hins₀

/-- A constant keyed hash, and parsers that accept one text each. -/
def sampleServices : Services where
  hmacSha256 := fun _ _ => [77, 97, 110]
  fromSlice := fun body =>
    if body = [0x7B, 0x7D] then .ok (.object []) else .error "expected value"
  parseUrl := fun url =>
    if url = "https://app.example.com/hook" then .ok "https"
    else .error "relative URL without a base"

def auditDestination : DestinationConfig where
  name := "audit"
  url := "https://app.example.com/hook"
  fromDomains := []
  toDomains := []
  eventTypes := []
  catchAll := true

def sampleReplica : Replica sampleServices where
  config := {
    databaseUrl := "postgres://localhost/router"
    databaseMaxConnections := 10
    serverBind := .v4 0 3000
    resendWebhookSecret := "whsec_c2VjcmV0"
    resendSignatureToleranceSecs := 300
    routerSigningSecret := "0123456789abcdef0123456789abcdef"
    destinations := [{ sampleDestination with catchAll := true }, auditDestination]
    deliveryWorkerCount := 2
    deliveryClaimLimit := 10
    deliveryTimeoutSecs := 20
    retryWindowSecs := 3600
    warnAfterAttempts := 10
    staleDeliveryLockSecs := 300
    workerDrainTimeoutSecs := 30 }
  valid := by decide
  fits := by decide

def sampleRequest (svixId : Bytes) : Request sampleServices where
  replica := sampleReplica
  headers := [("svix-id", svixId), ("svix-timestamp", [0x30]),
    ("svix-signature", [0x76, 0x31, 0x2C, 0x54, 0x57, 0x46, 0x75])]
  body := [0x7B, 0x7D]

/-- Two redeliveries race, and a third request times out between its INSERTs. -/
def raced : List (IntakeAction sampleServices) := [
  .arrive (sampleRequest [0x6D]), .arrive (sampleRequest [0x6D]), .arrive (sampleRequest [0x6E]),
  .handler 0 (.check 0 1 (fun i => BitVec.ofNat 128 (i + 10)) 0),
  .handler 1 (.check 0 2 (fun i => BitVec.ofNat 128 (i + 20)) 0),
  .handler 2 (.check 0 3 (fun i => BitVec.ofNat 128 (i + 30)) 0),
  .handler 0 .insertEvent, .handler 2 .insertEvent, .handler 0 .insertDeliveryJob,
  .handler 2 .insertDeliveryJob, .handler 2 (.cutOff true), .handler 0 .insertDeliveryJob,
  .handler 0 (.commit .answered), .handler 1 .insertEvent, .handler 1 .rollback,
  .handler 0 .answer]

def Handler.status (h : Handler svc) : ℕ :=
  match h.stage with
  | .answered status => status
  | _ => 0

theorem ingestion_exactly_once_raced : ∃ w, (intake sampleServices).Reachable System.free w ∧
    w.handlers.map Handler.status = [202, 202, 408] ∧
    w.store.tables.webhookEvents.rows.map (·.matchedDestinationCount) = [2] ∧ ExactlyOnce w := by
  obtain ⟨w, hw, hp⟩ := System.exists_reachable_of_run (intake sampleServices) System.free raced
    (fun w => w.handlers.map Handler.status = [202, 202, 408] ∧
      w.store.tables.webhookEvents.rows.map (·.matchedDestinationCount) = [2])
    (by decide)
  rw [decide_eq_true_eq] at hp
  exact ⟨w, hw, hp.1, hp.2, ingestion_exactly_once hw⟩

end ResendRouter.Ingest
