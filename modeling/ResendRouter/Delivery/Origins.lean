import ResendRouter.Delivery.Destinations
import ResendRouter.Delivery.Requests

/-! # Where a delivery comes from

Every job goes back to one of the enqueue calls that inserted an event. Its URL
is listed under its name, in the destinations of such a call or in the
configuration of a worker, and so is the URL of every POST.
-/

namespace ResendRouter.Delivery
open Foundation Program Database

variable {env : Env} {time : Time} {t t' : Tables} {c c' d : Claim} {w w' : World} {e : Event}
  {i k : ℕ} {j j' : DeliveryJob} {q : Enqueue} {r : WebhookEvent} {name url : String}

/-- The call that inserted the event of a job announced the job as well. -/
structure JobOf (q : Enqueue) (r : WebhookEvent) (j : DeliveryJob) : Prop where
  prepared : q.prepare = .ok (j.deadlineAt, r.sourceSvixId, r.sourceSvixTimestamp)
  made : q.eventRow r.sourceSvixId r.sourceSvixTimestamp = .ok r
  event : r.id = j.eventId
  destination : ∃ d ∈ q.destinations, d.name = j.destinationName

theorem JobOf.congr (h : JobOf q r j) (hid : j'.identity = j.identity) : JobOf q r j' := by
  simp only [DeliveryJob.identity, Prod.mk.injEq] at hid
  rcases hid with ⟨-, hevent, hname, hdeadline⟩
  exact ⟨hdeadline ▸ h.prepared, h.made, hevent ▸ h.event, hname ▸ h.destination⟩

theorem JobOf.of_enqueued {deadlineAt : Time} {js : List DeliveryJob}
    (h : Enqueued q t t' r deadlineAt js) (hj : j ∈ js) : JobOf q r j := by
  obtain ⟨d, hd, hf⟩ := h.queued j hj
  refine ⟨hf.deadlineAt ▸ h.prepared, h.made, ?_, d, hd, hf.destinationName.symm⟩
  rw [hf.eventId]
  exact (newWebhookEvent_ok h.made).1

/-- The URL is listed under the name, by an enqueue call or by the configuration of a worker. -/
def World.Lists (env : Env) (w : World) (name url : String) : Prop :=
  (∃ q ∈ w.ingested, ∃ d ∈ q.destinations, d.name = name ∧ d.url = url) ∨
    ∃ workerId, (env.config workerId).destinationUrl name = some url

theorem World.Lists.mono (h : w.Lists env name url) (hw : ∀ q ∈ w.ingested, q ∈ w'.ingested) :
    w'.Lists env name url := by
  rcases h with ⟨q, hq, hd⟩ | hconfig
  · exact .inl ⟨q, hw q hq, hd⟩
  · exact .inr hconfig

theorem World.Lists.target (h : w.Lists env c.job.destinationName c.job.destinationUrl) :
    w.Lists env c.job.destinationName (env.target c) := by
  cases hu : (env.config c.worker).destinationUrl c.job.destinationName with
  | none =>
    rw [Env.target_of_none hu]
    exact h
  | some url =>
    rw [Env.target_of_some hu]
    exact .inr ⟨c.worker, hu⟩

structure OriginInv (env : Env) (w : World) : Prop where
  jobs : ∀ j ∈ w.tables.deliveryJobs, ∃ r ∈ w.tables.webhookEvents, ∃ q ∈ w.ingested, JobOf q r j
  urls : ∀ j ∈ w.tables.deliveryJobs, w.Lists env j.destinationName j.destinationUrl
  claims : ∀ c ∈ w.claims, w.Lists env c.job.destinationName c.job.destinationUrl

theorem taskStep_resolving {event : TaskEvent}
    (h : taskStep env.hmacSha256 (env.config c.worker) time t c event = some (t', c'))
    (hres : c.task = .resolving) : t' = t ∨ Refreshed t t' c.job (env.target c) := by
  cases event with
  | refresh fate =>
    simp only [taskStep, hres] at h
    split at h
    case isFalse =>
      cases h
      exact .inl rfl
    case isTrue =>
      rcases updateUrl_cases t c.job (env.target c) with ⟨hsame, -⟩ | ⟨-, -, hr⟩
      · rw [Env.target] at hsame
        cases fate <;> simp only [hsame] at h <;> cases h <;> exact .inl rfl
      · cases fate with
        | answered =>
          cases h
          exact .inr hr
        | lost =>
          cases h
          exact .inr hr
        | never =>
          cases h
          exact .inl rfl
  | finish response =>
    simp only [taskStep] at h
    split at h
    case h_1 =>
      cases h
      exact .inl rfl
    case h_2 => cases h
  | die =>
    cases h
    exact .inl rfl
  | _ => simp [taskStep, hres] at h

theorem OriginInv.enqueued {deadlineAt : Time} {js : List DeliveryJob} (hi : OriginInv env w)
    (h : Enqueued q w.tables t r deadlineAt js) :
    OriginInv env { w with tables := t, clock := time, ingested := w.ingested ++ [q] } := by
  have hkept : ∀ p ∈ w.ingested, p ∈ w.ingested ++ [q] := fun p hp => List.mem_append_left _ hp
  have hnew : q ∈ w.ingested ++ [q] := List.mem_append_right _ (List.mem_singleton_self q)
  refine ⟨fun j hj => ?_, fun j hj => ?_, fun c hc => (hi.claims c hc).mono hkept⟩
  · rcases h.mem_jobs.mp hj with hj | hj
    · obtain ⟨r', hr', p, hp, hjob⟩ := hi.jobs j hj
      exact ⟨r', h.mem_events.mpr (.inl hr'), p, hkept p hp, hjob⟩
    · exact ⟨r, h.mem_events.mpr (.inr rfl), q, hnew, .of_enqueued h hj⟩
  · rcases h.mem_jobs.mp hj with hj | hj
    · exact (hi.urls j hj).mono hkept
    · obtain ⟨d, hd, hf⟩ := h.queued j hj
      exact .inl ⟨q, hnew, d, hd, hf.destinationName.symm, hf.destinationUrl.symm⟩

theorem OriginInv.claimed {workerId : String} {now : Time} {stale : ℤ} {jobs : List ClaimedJob}
    {phase : String → Phase} {task : Task} (hi : OriginInv env w)
    (h : Claimed w.tables t jobs workerId stale now) :
    OriginInv env ⟨t, time, phase, w.claims ++ jobs.map (newClaim workerId now task),
      w.ingested⟩ := by
  have hrow : ∀ j' ∈ t.deliveryJobs, ∃ j ∈ w.tables.deliveryJobs,
      j'.identity = j.identity ∧ j'.destinationName = j.destinationName ∧
        j'.destinationUrl = j.destinationUrl := by
    intro j' hj'
    obtain ⟨j, hj, ⟨-, rfl⟩ | ⟨-, rfl⟩⟩ := (h.rows j').mp hj'
    · exact ⟨j, hj, rfl, rfl, rfl⟩
    · exact ⟨j', hj, rfl, rfl, rfl⟩
  refine ⟨fun j' hj' => ?_, fun j' hj' => ?_, fun c hc => ?_⟩
  · obtain ⟨j, hj, hid, -, -⟩ := hrow j' hj'
    obtain ⟨r, hr, q, hq, hjob⟩ := hi.jobs j hj
    exact ⟨r, h.events ▸ hr, q, hq, hjob.congr hid⟩
  · obtain ⟨j, hj, -, hname, hurl⟩ := hrow j' hj'
    rw [hname, hurl]
    exact hi.urls j hj
  · rcases List.mem_append.mp hc with hc | hc
    · exact hi.claims c hc
    · obtain ⟨job, hjob, rfl⟩ := List.mem_map.mp hc
      obtain ⟨j, hj, -, r, -, -, rfl⟩ := h.due job hjob
      exact hi.urls j hj

/-- A step of a task keeps what a row says about its job, and writes no URL but the one that it
resolves. -/
theorem taskStep_row {event : TaskEvent}
    (h : taskStep env.hmacSha256 (env.config c.worker) time t c event = some (t', c'))
    (hj : j' ∈ t'.deliveryJobs) : ∃ j ∈ t.deliveryJobs, j'.identity = j.identity ∧
      (j'.destinationUrl = j.destinationUrl ∨
        lockedRow c.job j = true ∧ j'.destinationUrl = env.target c) := by
  have hm := taskStep_moves h
  by_cases hres : c.task = .resolving
  · rcases taskStep_resolving h hres with rfl | hr
    · exact ⟨j', hj, rfl, .inl rfl⟩
    · obtain ⟨j, hj₀, rfl⟩ := (hr.rows j').mp hj
      refine ⟨j, hj₀, ?_⟩
      split
      case isTrue hlocked => exact ⟨rfl, .inr ⟨hlocked, rfl⟩⟩
      case isFalse => exact ⟨rfl, .inl rfl⟩
  · cases hm with
    | refreshed hres' => exact absurd hres' hres
    | recorded _ _ hr =>
      obtain ⟨j, hj₀, rfl⟩ := (hr.jobs j').mp hj
      refine ⟨j, hj₀, ?_⟩
      split <;> exact ⟨rfl, .inl rfl⟩
    | _ => exact ⟨j', hj, rfl, .inl rfl⟩

theorem OriginInv.moved {event : TaskEvent} (hi : OriginInv env w) (hl : LedgerInv w.store)
    (hc : w.claims[i]? = some c)
    (h : taskStep env.hmacSha256 (env.config c.worker) time w.tables c event = some (t, c')) :
    OriginInv env { w with tables := t, clock := time, claims := w.claims.set i c' } := by
  have hm := taskStep_moves h
  have hmem := List.mem_of_getElem? hc
  refine ⟨fun j' hj' => ?_, fun j' hj' => ?_, fun d hd => ?_⟩
  · obtain ⟨j, hj, hid, -⟩ := taskStep_row h hj'
    obtain ⟨r, hr, q, hq, hjob⟩ := hi.jobs j hj
    exact ⟨r, hm.events ▸ hr, q, hq, hjob.congr hid⟩
  · obtain ⟨j, hj, hid, hurl⟩ := taskStep_row h hj'
    have hname : j'.destinationName = j.destinationName := congrArg (·.2.2.1) hid
    rw [hname]
    rcases hurl with hurl | ⟨hlocked, hurl⟩
    · rw [hurl]
      exact hi.urls j hj
    · have hsnapshot := hl.snapshot (List.mem_map_of_mem hmem) hj (lockedRow_iff.mp hlocked).1
      rw [hurl, hsnapshot.destinationName]
      exact (hi.claims c hmem).target
  · rcases List.mem_or_eq_of_mem_set hd with hd | rfl
    · exact hi.claims d hd
    · rw [hm.claim_same.job]
      exact hi.claims c hmem

theorem OriginInv.step (hi : OriginInv env w) (hl : LedgerInv w.store)
    (h : w.step env e = some w') : OriginInv env w' := by
  cases World.step_moves h with
  | phased => exact ⟨hi.jobs, hi.urls, hi.claims⟩
  | enqueued _ hq => exact hi.enqueued hq
  | claimed _ _ hc => exact hi.claimed hc
  | moved =>
    obtain ⟨c, t, c', hc, hstep, heq⟩ := World.step_task h
    rw [heq]
    exact hi.moved hl hc hstep

theorem originInv_of_reachable {G : System.Guard World Event} (h : (fleet env).Reachable G w) :
    OriginInv env w := by
  apply h.invariant
  · constructor <;> simp [fleet, World.initial, Tables.empty]
  · intro s e s' hs hi hstep _
    exact hi.step (ledgerInv_of_fleet hs) hstep

/-- The call that inserted the event of a claim, and what the claim has from it. -/
structure ClaimOf (q : Enqueue) (c : Claim) : Prop where
  event : q.eventRowId = c.job.eventId
  body : c.job.rawBody = q.body
  headers : c.job.headers = headersToJson q.headers
  deadline : addTime q.now q.retryWindow = some c.job.deadlineAt
  destination : ∃ d ∈ q.destinations, d.name = c.job.destinationName

theorem OriginInv.claimOf (hi : OriginInv env w) (hl : LedgerInv w.store) (hc : c ∈ w.claims) :
    ∃ q ∈ w.ingested, ClaimOf q c := by
  have hjob : c.job ∈ w.store.claimed := List.mem_map_of_mem hc
  obtain ⟨j, hj, hs⟩ := hl.snapshots c.job hjob
  obtain ⟨r', hr', hid', hbody, hheaders⟩ := hl.bodies c.job hjob
  obtain ⟨r, hr, q, hq, hof⟩ := hi.jobs j hj
  obtain rfl : r' = r :=
    Table.eq_of_key_eq hr' hr (hid'.trans (hs.eventId.symm.trans hof.event.symm))
  obtain ⟨hid, -, -, hbody', hheaders', -⟩ := newWebhookEvent_ok hof.made
  exact ⟨q, hq, hid.symm.trans hid', hbody.trans hbody', hheaders.trans hheaders',
    hs.deadlineAt ▸ (Enqueue.prepare_ok hof.prepared).1, hs.destinationName ▸ hof.destination⟩

theorem ingested_unique (hi : RequestInv env w) {q q' : Enqueue} (hq : q ∈ w.ingested)
    (hq' : q' ∈ w.ingested) (he : q.eventRowId = q'.eventRowId) : q = q' := by
  have hids : w.ingested.map (·.eventRowId) = w.tables.webhookEvents.rows.map (·.id) := by
    have := congrArg (List.map Prod.fst) hi.ingested
    simpa only [List.map_map, Function.comp_def] using this
  exact List.inj_on_of_nodup_map (hids ▸ w.tables.webhookEvents.unique) hq hq' he

theorem OriginInv.posted (hi : OriginInv env w) (hu : UrlInv env w) (hc : c ∈ w.claims) {p : Post}
    (hp : c.post = some p) : w.Lists env c.job.destinationName p.request.url := by
  rw [(hu.aimed c hc).posted p hp]
  exact (hi.claims c hc).target

end ResendRouter.Delivery
