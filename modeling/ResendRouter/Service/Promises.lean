import ResendRouter.Foundation.Courier
import ResendRouter.Service.Guarantees
import Mathlib.Data.Int.ConditionallyCompleteOrder

/-! # The service is a courier

Messages are named by their svix-id and addressees by the names of the
destinations. Every run of handlers and workers is a run of the abstract courier:
a commit of a handler accepts a message, a POST sends a parcel, and a parcel
gets its verdict with the outcome that a worker commits.
-/

namespace ResendRouter.Service
open Foundation Program Database Ingest Delivery Routing Relation

variable {svc : Services} {D : Deployment svc} {w w' v : Installation svc} {t t' : Tables}
  {e : WebhookEvent} {j k : DeliveryJob} {c c' : Claim} {env : Env} {time : Time}
  {h h' : Handler svc}

def verdict : JobStatus → Verdict
  | .succeeded => .delivered
  | .failed => .expired
  | _ => .pending

def parcelOf (j : DeliveryJob) (e : WebhookEvent) : Parcel String String Time :=
  ⟨e.sourceSvixId, j.destinationName, j.deadlineAt, verdict j.status⟩

def parcels (t : Tables) : Set (Parcel String String Time) :=
  { p | ∃ j ∈ t.deliveryJobs, ∃ e ∈ t.webhookEvents, e.id = j.eventId ∧ p = parcelOf j e }

def messages (t : Tables) : Set (String × Bytes) :=
  { m | ∃ e ∈ t.webhookEvents, m = (e.sourceSvixId, e.rawBody) }

/-- The claim has sent its request for the message to its destination. -/
def Sends (t : Tables) (c : Claim) (m : String × String × Bytes) : Prop :=
  ∃ e ∈ t.webhookEvents, e.id = c.job.eventId ∧ ∃ body,
    c.post.map (·.request.body) = some body ∧ m = (e.sourceSvixId, c.job.destinationName, body)

/-- The destination has answered the claim's request with a 2xx. -/
def Confirms (t : Tables) (c : Claim) (m : String × String) : Prop :=
  ∃ e ∈ t.webhookEvents, e.id = c.job.eventId ∧
    (∃ status, c.Received status ∧ isSuccess status = true) ∧
      m = (e.sourceSvixId, c.job.destinationName)

/-- The request has a valid signature; its addressees are the configured destinations whose
constraints its event satisfies. -/
structure Offers (r : Ingest.Request svc) (m : String × Bytes × Set String) : Prop where
  verified : ∃ now, verifyWebhookSignature svc.hmacSha256 r.replica.config.resendWebhookSecret
    r.replica.config.resendSignatureToleranceSecs r.headers r.body now = .ok ()
  svixId : r.svixId = some m.1
  body : m.2.1 = r.body
  targets : ∃ event, r.event = .ok event ∧
    m.2.2 = { name | ∃ d ∈ r.replica.config.destinations, d.name = name ∧ Routed d event }

def Acknowledges (h : Handler svc) (id : String) : Prop :=
  h.stage = .answered 202 ∧ h.request.svixId = some id

def Installation.courier (w : Installation svc) : Courier String String Bytes Time where
  now := w.world.clock
  offered := collect (fun h => Offers h.request) w.handlers
  accepted := messages w.world.tables
  parcels := parcels w.world.tables
  acknowledged := collect Acknowledges w.handlers
  sent := collect (Sends w.world.tables) w.world.claims
  confirmed := collect (Confirms w.world.tables) w.world.claims

theorem courier_initial :
    (service D).init.courier = (Courier.start 0 : Courier String String Bytes Time) := by
  simp [service, Installation.courier, Courier.start, World.initial, Tables.empty, collect, parcels,
    messages]

theorem parcels_congr (he : t'.webhookEvents = t.webhookEvents)
    (hto : ∀ r ∈ t'.deliveryJobs, ∃ j ∈ t.deliveryJobs, r.eventId = j.eventId ∧
      ∀ e, parcelOf r e = parcelOf j e)
    (hfrom : ∀ j ∈ t.deliveryJobs, ∃ r ∈ t'.deliveryJobs, r.eventId = j.eventId ∧
      ∀ e, parcelOf r e = parcelOf j e) : parcels t' = parcels t := by
  ext p
  simp only [parcels, he, Set.mem_ofPred_eq]
  constructor
  · rintro ⟨r, hr, e, hmem, hid, rfl⟩
    obtain ⟨j, hj, hevent, heq⟩ := hto r hr
    exact ⟨j, hj, e, hmem, hid.trans hevent, heq e⟩
  · rintro ⟨j, hj, e, hmem, hid, rfl⟩
    obtain ⟨r, hr, hevent, heq⟩ := hfrom j hj
    exact ⟨r, hr, e, hmem, hid.trans hevent.symm, (heq e).symm⟩

theorem parcels_claimed {jobs : List ClaimedJob} {workerId : String} {stale : ℤ} {now : Time}
    (hc : Claimed t t' jobs workerId stale now) : parcels t' = parcels t := by
  have hpending : ∀ j ∈ t.deliveryJobs, (∃ c ∈ jobs, c.id = j.id) →
      verdict j.status = .pending := by
    rintro j hj ⟨c, hmem, hid⟩
    obtain ⟨j', hj', hdue, e, -, -, rfl⟩ := hc.due c hmem
    obtain rfl := Table.eq_of_key_eq hj' hj hid
    have := isDue_not_terminal hdue
    cases hs : j'.status <;> rw [hs] at this
    all_goals first | rfl | cases this
  have hclaim : ∀ j ∈ t.deliveryJobs, (∃ c ∈ jobs, c.id = j.id) →
      ∀ e, parcelOf (claimRow workerId now j) e = parcelOf j e := by
    intro j hj hin e
    simp only [parcelOf, hpending j hj hin]
    rfl
  refine parcels_congr hc.events (fun r hr => ?_) fun j hj => ?_
  · obtain ⟨j, hj, ⟨hin, rfl⟩ | ⟨-, rfl⟩⟩ := (hc.rows r).mp hr
    · exact ⟨j, hj, rfl, hclaim j hj hin⟩
    · exact ⟨r, hj, rfl, fun _ => rfl⟩
  · by_cases hin : ∃ c ∈ jobs, c.id = j.id
    · exact ⟨_, (hc.rows _).mpr ⟨j, hj, .inl ⟨hin, rfl⟩⟩, rfl, hclaim j hj hin⟩
    · have hout : ∀ c ∈ jobs, c.id ≠ j.id := fun c hmem hid => hin ⟨c, hmem, hid⟩
      exact ⟨j, (hc.rows _).mpr ⟨j, hj, .inr ⟨hout, rfl⟩⟩, rfl, fun _ => rfl⟩

theorem parcels_refreshed {job : ClaimedJob} {url : String} (hr : Refreshed t t' job url) :
    parcels t' = parcels t := by
  refine parcels_congr hr.events (fun r hmem => ?_) fun j hj => ?_
  · obtain ⟨j, hj, rfl⟩ := (hr.rows r).mp hmem
    exact ⟨j, hj, by split <;> rfl, fun e => by split <;> rfl⟩
  · exact ⟨_, (hr.rows _).mpr ⟨j, hj, rfl⟩, by split <;> rfl, fun e => by split <;> rfl⟩

section Recorded
variable {o : Outcome} {job : ClaimedJob} {d : ℤ} {now : Time} {a : DeliveryAttempt}

theorem parcelOf_row (e : WebhookEvent) :
    parcelOf (o.row a now j) e = (parcelOf j e).settle (verdict o.status) := rfl

theorem parcelOf_locked (hl : lockedRow job j = true) (e : WebhookEvent) :
    (parcelOf j e).verdict = .pending := by
  simp [parcelOf, (lockedRow_iff.mp hl).2.2, verdict]

theorem parcels_retried (hr : Recorded o t t' job d now a) (ho : verdict o.status = .pending) :
    parcels t' = parcels t := by
  have hrow : ∀ j, j.eventId = (if lockedRow job j then o.row a now j else j).eventId ∧
      ∀ e, parcelOf (if lockedRow job j then o.row a now j else j) e = parcelOf j e := by
    intro j
    split
    case isTrue hl =>
      refine ⟨rfl, fun e => ?_⟩
      rw [parcelOf_row, ho, ← parcelOf_locked hl e]
      rfl
    case isFalse => exact ⟨rfl, fun _ => rfl⟩
  refine parcels_congr hr.events (fun r hmem => ?_) fun j hj => ?_
  · obtain ⟨j, hj, rfl⟩ := (hr.jobs r).mp hmem
    exact ⟨j, hj, (hrow j).1.symm, (hrow j).2⟩
  · exact ⟨_, (hr.jobs _).mpr ⟨j, hj, rfl⟩, (hrow j).1.symm, (hrow j).2⟩

/-- A verdict on the one row under the lock, when no other row stands for the same parcel. -/
theorem parcels_settled (hr : Recorded o t t' job d now a) (hj : j ∈ t.deliveryJobs)
    (hl : lockedRow job j = true) (he : e ∈ t.webhookEvents) (hid : e.id = j.eventId)
    (hone : ∀ k ∈ t.deliveryJobs, ∀ r ∈ t.webhookEvents, r.id = k.eventId →
      parcelOf k r = parcelOf j e → k = j) :
    parcels t' = insert ((parcelOf j e).settle (verdict o.status))
      (parcels t \ {parcelOf j e}) := by
  have hsame : ∀ k ∈ t.deliveryJobs, lockedRow job k = true → k = j := fun k hk hlk =>
    Table.eq_of_key_eq hk hj ((lockedRow_iff.mp hlk).1.trans (lockedRow_iff.mp hl).1.symm)
  ext p
  simp only [Set.mem_insert_iff, Set.mem_sdiff, Set.mem_singleton_iff]
  constructor
  · rintro ⟨r, hmem, x, hx, hxid, rfl⟩
    obtain ⟨k, hk, rfl⟩ := (hr.jobs r).mp hmem
    rw [hr.events] at hx
    split at hxid
    case isTrue hlk =>
      obtain rfl := hsame k hk hlk
      obtain rfl := Table.eq_of_key_eq hx he (hxid.trans hid.symm)
      rw [if_pos hlk]
      exact .inl (parcelOf_row x)
    case isFalse hlk =>
      rw [if_neg hlk]
      refine .inr ⟨⟨k, hk, x, hx, hxid, rfl⟩, fun heq => ?_⟩
      rw [hone k hk x hx hxid heq] at hlk
      exact hlk hl
  · rintro (rfl | ⟨⟨k, hk, x, hx, hxid, rfl⟩, hne⟩)
    · refine ⟨_, (hr.jobs _).mpr ⟨j, hj, rfl⟩, e, hr.events ▸ he, ?_, ?_⟩
      · rw [if_pos hl]
        exact hid
      · rw [if_pos hl]
        exact (parcelOf_row e).symm
    · have hlk : lockedRow job k ≠ true := by
        intro hlk
        obtain rfl := hsame k hk hlk
        obtain rfl := Table.eq_of_key_eq hx he (hxid.trans hid.symm)
        exact hne rfl
      refine ⟨_, (hr.jobs _).mpr ⟨k, hk, rfl⟩, x, hr.events ▸ hx, ?_, ?_⟩ <;> rw [if_neg hlk]
      exact hxid

end Recorded

section Enqueued
variable {q : Enqueue} {deadlineAt : Time} {js : List DeliveryJob}

/-- A row finds the same event after a commit. -/
theorem event_enqueued (hq : Enqueued q t t' e deadlineAt js) {P : WebhookEvent → Prop} {id : Uuid}
    (hold : ∃ r ∈ t.webhookEvents, r.id = id) :
    (∃ r ∈ t'.webhookEvents, r.id = id ∧ P r) ↔ ∃ r ∈ t.webhookEvents, r.id = id ∧ P r := by
  constructor
  · rintro ⟨r, hr, hid, hP⟩
    obtain ⟨x, hx, hxid⟩ := hold
    obtain rfl : r = x :=
      Table.eq_of_key_eq hr (hq.mem_events.mpr (.inl hx)) (hid.trans hxid.symm)
    exact ⟨r, hx, hid, hP⟩
  · rintro ⟨r, hr, hrest⟩
    exact ⟨r, hq.mem_events.mpr (.inl hr), hrest⟩

theorem messages_enqueued (hq : Enqueued q t t' e deadlineAt js) :
    messages t' = insert (e.sourceSvixId, e.rawBody) (messages t) := by
  ext m
  simp only [messages, Set.mem_ofPred_eq, Set.mem_insert_iff, hq.mem_events, or_and_right,
    exists_or, exists_eq_left]
  exact or_comm

theorem parcels_enqueued (hq : Enqueued q t t' e deadlineAt js) :
    parcels t' = parcels t ∪ Courier.addressed e.sourceSvixId
      { name | ∃ d ∈ q.destinations, d.name = name } deadlineAt := by
  have hid : e.id = q.eventRowId := (newWebhookEvent_ok hq.made).1
  have hnew : e ∈ t'.webhookEvents := hq.mem_events.mpr (.inr rfl)
  have hold : ∀ j ∈ t.deliveryJobs, ∀ p, (∃ r ∈ t'.webhookEvents, r.id = j.eventId ∧
      p = parcelOf j r) ↔ ∃ r ∈ t.webhookEvents, r.id = j.eventId ∧ p = parcelOf j r :=
    fun j hj p => event_enqueued hq (P := fun r => p = parcelOf j r) (t.jobEvent j hj)
  ext p
  rw [Set.mem_union]
  constructor
  · rintro ⟨j, hj, r, hr, hrid, rfl⟩
    rcases hq.mem_jobs.mp hj with hj | hj
    · exact .inl ⟨j, hj, (hold j hj _).mp ⟨r, hr, hrid, rfl⟩⟩
    · obtain ⟨d, hd, hf⟩ := hq.queued j hj
      obtain rfl : r = e := Table.eq_of_key_eq hr hnew (hrid.trans (hf.eventId.trans hid.symm))
      exact .inr ⟨rfl, ⟨d, hd, hf.destinationName.symm⟩, hf.deadlineAt, by
        simp [parcelOf, hf.status, verdict]⟩
  · rintro (⟨j, hj, hp⟩ | ⟨hm, ⟨d, hd, hname⟩, hdl, hv⟩)
    · exact ⟨j, hq.mem_jobs.mpr (.inl hj), (hold j hj p).mpr hp⟩
    · have hin : d.name ∈ js.map (·.destinationName) := hq.names ▸ List.mem_map_of_mem hd
      obtain ⟨j, hj, hjname⟩ := List.mem_map.mp hin
      obtain ⟨d', -, hf⟩ := hq.queued j hj
      refine ⟨j, hq.mem_jobs.mpr (.inr hj), e, hnew, hid.trans hf.eventId.symm, ?_⟩
      rw [parcelOf, hf.status, hf.deadlineAt, hjname, hname, ← hm, ← hdl]
      cases p
      cases hv
      rfl

end Enqueued

/-- Different rows stand for different parcels. -/
theorem parcelOf_inj {G : System.Guard (Installation svc) (ServiceEvent svc)}
    (hw : (service D).Reachable G w) (hj : j ∈ w.world.tables.deliveryJobs)
    (hk : k ∈ w.world.tables.deliveryJobs) {r : WebhookEvent}
    (he : e ∈ w.world.tables.webhookEvents) (hr : r ∈ w.world.tables.webhookEvents)
    (hid : e.id = j.eventId) (hrid : r.id = k.eventId) (heq : parcelOf k r = parcelOf j e) :
    k = j := by
  simp only [parcelOf, Parcel.mk.injEq] at heq
  obtain rfl : r = e := List.inj_on_of_nodup_map w.world.tables.svixUnique hr he heq.1
  have hi := intakeInv_of_reachable (service_refines_intake hw)
  obtain ⟨h, hh, q, hins, hing⟩ := hi.events r hr
  have hdistinct := (hing.completeFor ((hi.handlers h hh).inserted q hins)).distinct
  have hmem : ∀ x ∈ w.world.tables.deliveryJobs, r.id = x.eventId →
      x ∈ jobsOf w.world.tables r.id := fun x hx hxid =>
    List.mem_filter.mpr ⟨hx, decide_eq_true hxid.symm⟩
  exact List.inj_on_of_nodup_map hdistinct (hmem k hk hrid) (hmem j hj hid) heq.2.1

theorem sends_events (he : t'.webhookEvents = t.webhookEvents) : Sends t' = Sends t := by
  unfold Sends
  rw [he]

theorem confirms_events (he : t'.webhookEvents = t.webhookEvents) : Confirms t' = Confirms t := by
  unfold Confirms
  rw [he]

theorem sends_congr (hj : c'.job = c.job)
    (hp : c'.post.map (·.request.body) = c.post.map (·.request.body))
    (m : String × String × Bytes) : Sends t c' m ↔ Sends t c m := by
  simp only [Sends, hj, hp]

theorem confirms_congr (hj : c'.job = c.job) (hp : c'.post = c.post) (m : String × String) :
    Confirms t c' m ↔ Confirms t c m := by
  simp only [Confirms, Claim.Received, hj, hp]

/-- A record call reads the clock before it commits. -/
theorem stamp_past {u : World} (hu : (fleet env).Reachable clocked u) :
    ∀ c ∈ u.claims, ∀ call now, c.task = .recording call now → now ≤ u.clock := by
  apply hu.invariant
  · simp [fleet, World.initial]
  · intro u e u' _ hi hstep hg
    have hle := hg.1
    cases World.step_moves hstep with
    | phased => exact fun c hc call now hs => (hi c hc call now hs).trans hle
    | enqueued => exact fun c hc call now hs => (hi c hc call now hs).trans hle
    | claimed hp hr h hphase =>
      intro c hc call now hs
      rcases List.mem_append.mp hc with hc | hc
      · exact (hi c hc call now hs).trans hle
      · obtain ⟨job, -, rfl⟩ := List.mem_map.mp hc
        rcases hphase with rfl | ⟨rfl, -⟩ <;> cases hs
    | moved hc h =>
      intro d hd call now hs
      rcases List.mem_or_eq_of_mem_set hd with hd | rfl
      · exact (hi d hd call now hs).trans hle
      · cases h with
        | stamped =>
          cases hs
          exact le_rfl
        | finished => exact (hi _ (List.mem_of_getElem? hc) call now hs).trans hle
        | refreshed _ _ _ _ _ ht => rcases ht with rfl | rfl <;> cases hs
        | _ => cases hs

section Worker
variable {i : ℕ} {u : World}

/-- A step that changes nothing of what is seen from outside. -/
theorem runs_of_unseen (hle : w.world.clock ≤ u.clock)
    (he : u.tables.webhookEvents = w.world.tables.webhookEvents)
    (hp : parcels u.tables = parcels w.world.tables)
    (hs : collect (Sends u.tables) u.claims =
      collect (Sends w.world.tables) w.world.claims)
    (hc : collect (Confirms u.tables) u.claims =
      collect (Confirms w.world.tables) w.world.claims) :
    Courier.Runs w.courier (Installation.courier ⟨u, w.handlers⟩) := by
  have heq : Installation.courier ⟨u, w.handlers⟩ = { w.courier with now := u.clock } :=
    Courier.ext rfl rfl (by simp only [Installation.courier, messages, he]) hp rfl hs hc
  rw [heq]
  exact .tick hle

/-- A task gives its verdict with the outcome that it commits. -/
theorem recorded_runs (hw : (service D).Reachable oneClock w) (hle : w.world.clock ≤ time)
    (hc : w.world.claims[i]? = some c) {call : RecordCall} {now : Time} {a : DeliveryAttempt}
    (hs : c.task = .recording call now)
    (hr : Recorded (RecordCall.outcome call) w.world.tables t c.job call.durationMs now a)
    (hj' : c'.job = c.job) (hp' : c'.post = c.post) :
    Courier.Runs w.courier (Installation.courier
      ⟨{ w.world with tables := t, clock := time, claims := w.world.claims.set i c' },
        w.handlers⟩) := by
  have hmem := List.mem_of_getElem? hc
  have hf := service_refines_clocked_fleet hw
  have hsent : collect (Sends t) (w.world.claims.set i c') =
      collect (Sends w.world.tables) w.world.claims := by
    rw [sends_events hr.events]
    exact collect_set_of_iff hc (sends_congr hj' (by rw [hp']))
  have hconfirmed : collect (Confirms t) (w.world.claims.set i c') =
      collect (Confirms w.world.tables) w.world.claims := by
    rw [confirms_events hr.events]
    exact collect_set_of_iff hc (confirms_congr hj' hp')
  by_cases hv : verdict call.outcome.status = .pending
  · exact runs_of_unseen hle hr.events (parcels_retried hr hv) hsent hconfirmed
  obtain ⟨j, hj, hl⟩ := hr.held
  obtain ⟨e, he, hid⟩ := w.world.tables.jobEvent j hj
  have hparcels := parcels_settled hr hj hl he hid fun k hk r hrmem hrid heq =>
    parcelOf_inj hw hj hk he hrmem hid hrid heq
  have heq : Installation.courier
      ⟨{ w.world with tables := t, clock := time, claims := w.world.claims.set i c' },
        w.handlers⟩ = { w.courier with
          now := time
          parcels := insert ((parcelOf j e).settle (verdict call.outcome.status))
            (w.courier.parcels \ {parcelOf j e}) } :=
    Courier.ext rfl rfl (by simp only [Installation.courier, messages, hr.events]) hparcels rfl
      hsent hconfirmed
  rw [heq]
  have hin : parcelOf j e ∈ w.courier.parcels := ⟨j, hj, e, he, hid, rfl⟩
  have hpending := parcelOf_locked hl e
  have hsnapshot := (ledgerInv_of_fleet hf).snapshot (List.mem_map_of_mem hmem) hj
    (lockedRow_iff.mp hl).1
  have hsound := (sound_of_reachable (fun _ _ _ hg => hg.1) hf c hmem).task
  rw [hs] at hsound
  refine Courier.Runs.later hle ?_
  cases call with
  | success status d =>
    refine .deliver hin hpending ⟨c, hmem, e, he, hid.trans hsnapshot.eventId, ?_, ?_⟩
    · exact ⟨status, hsound.2.1, hsound.1⟩
    · simp only [parcelOf, hsnapshot.destinationName]
  | retry => exact absurd rfl hv
  | finalFailure =>
    refine .expire hin hpending ?_
    change j.deadlineAt ≤ time
    rw [hsnapshot.deadlineAt]
    exact hsound.2.1.trans ((stamp_past hf c hmem _ _ hs).trans hle)

theorem sent_runs (hw : (service D).Reachable oneClock w) (hle : w.world.clock ≤ time)
    (hc : w.world.claims[i]? = some c) (hnone : c.post = none) {p : Post}
    (hj' : c'.job = c.job) (hp' : c'.post = some p) (hbody : p.request.body = c.job.rawBody)
    (hopen : p.finished = none) :
    Courier.Runs w.courier (Installation.courier
      ⟨{ w.world with clock := time, claims := w.world.claims.set i c' }, w.handlers⟩) := by
  have hjob := List.mem_map_of_mem (f := Claim.job) (List.mem_of_getElem? hc)
  have hl := ledgerInv_of_fleet (service_refines_clocked_fleet hw)
  obtain ⟨j, hj, hsnapshot⟩ := hl.snapshots c.job hjob
  obtain ⟨e, he, hid, hraw, -⟩ := hl.bodies c.job hjob
  have hsends : ∀ m, Sends w.world.tables c' m ↔
      m = (e.sourceSvixId, c.job.destinationName, e.rawBody) ∨ Sends w.world.tables c m := by
    intro m
    simp only [Sends, hj', hp', hnone, Option.map_some, Option.map_none, Option.some.injEq,
      reduceCtorEq, false_and, exists_false, and_false, or_false, exists_eq_left']
    constructor
    · rintro ⟨r, hr, hrid, rfl⟩
      obtain rfl := Table.eq_of_key_eq hr he (hrid.trans hid.symm)
      rw [hbody, hraw]
    · rintro rfl
      exact ⟨e, he, hid, by rw [hbody, hraw]⟩
  have hconfirms : ∀ m, Confirms w.world.tables c' m ↔ Confirms w.world.tables c m := by
    intro m
    have hno : ∀ status, ¬ c'.Received status := by
      rintro status ⟨request, startedAt, finishedAt, hpost⟩
      rw [hp', Option.some.injEq] at hpost
      rw [hpost] at hopen
      cases hopen
    have hno' : ∀ status, ¬ c.Received status := by
      rintro status ⟨request, startedAt, finishedAt, hpost⟩
      rw [hnone] at hpost
      cases hpost
    simp only [Confirms, hno, hno', false_and, exists_false, and_false]
  have heq : Installation.courier
      ⟨{ w.world with clock := time, claims := w.world.claims.set i c' }, w.handlers⟩ =
        { w.courier with
          now := time
          sent := insert (e.sourceSvixId, c.job.destinationName, e.rawBody) w.courier.sent } :=
    Courier.ext rfl rfl rfl rfl rfl (collect_set_insert hc hsends) (collect_set_of_iff hc hconfirms)
  rw [heq]
  refine Courier.Runs.later hle ?_
  have hevent : e.id = j.eventId := hid.trans hsnapshot.eventId.symm
  rw [← hsnapshot.destinationName]
  exact .send (p := parcelOf j e) ⟨j, hj, e, he, hevent, rfl⟩ ⟨e, he, rfl⟩

theorem finished_runs (hw : (service D).Reachable oneClock w) (hle : w.world.clock ≤ time)
    (hc : w.world.claims[i]? = some c) {request : Delivery.Request} {startedAt : Time}
    {response : Response} (hp : c.post = some ⟨request, startedAt, none⟩) (hj' : c'.job = c.job)
    (hp' : c'.post = some ⟨request, startedAt, some (time, response)⟩) :
    Courier.Runs w.courier (Installation.courier
      ⟨{ w.world with clock := time, claims := w.world.claims.set i c' }, w.handlers⟩) := by
  have hmem := List.mem_of_getElem? hc
  have hl := ledgerInv_of_fleet (service_refines_clocked_fleet hw)
  obtain ⟨e, he, hid, -⟩ := hl.bodies c.job (List.mem_map_of_mem hmem)
  have hsends : ∀ m, Sends w.world.tables c' m ↔ Sends w.world.tables c m :=
    sends_congr hj' (by rw [hp, hp']; rfl)
  have hbefore : ∀ status, ¬ c.Received status := by
    rintro status ⟨request, startedAt, finishedAt, hpost⟩
    rw [hp] at hpost
    cases hpost
  by_cases hok : ∃ status, response = .ok status ∧ isSuccess status = true
  · obtain ⟨status, rfl, hok⟩ := hok
    have hreceived : c'.Received status := ⟨request, startedAt, time, hp'⟩
    have hconfirms : ∀ m, Confirms w.world.tables c' m ↔
        m = (e.sourceSvixId, c.job.destinationName) ∨ Confirms w.world.tables c m := by
      intro m
      simp only [Confirms, hbefore, false_and, exists_false, and_false, or_false, hj']
      constructor
      · rintro ⟨r, hr, hrid, -, rfl⟩
        rw [Table.eq_of_key_eq hr he (hrid.trans hid.symm)]
      · rintro rfl
        exact ⟨e, he, hid, ⟨status, hreceived, hok⟩, rfl⟩
    have heq : Installation.courier
        ⟨{ w.world with clock := time, claims := w.world.claims.set i c' }, w.handlers⟩ =
          { w.courier with
            now := time
            confirmed := insert (e.sourceSvixId, c.job.destinationName) w.courier.confirmed } :=
      Courier.ext rfl rfl rfl rfl rfl (collect_set_of_iff hc hsends)
        (collect_set_insert hc hconfirms)
    rw [heq]
    have hsent : (e.sourceSvixId, c.job.destinationName, request.body) ∈ w.courier.sent :=
      ⟨c, hmem, e, he, hid, request.body, by rw [hp]; rfl, rfl⟩
    exact Courier.Runs.later hle (.confirm hsent)
  · have hconfirms : ∀ m, Confirms w.world.tables c' m ↔ Confirms w.world.tables c m := by
      intro m
      have hno : ¬ ∃ status, c'.Received status ∧ isSuccess status = true := by
        rintro ⟨status, ⟨request', startedAt', finishedAt', hpost⟩, hs⟩
        rw [hp', Option.some.injEq, Post.mk.injEq, Option.some.injEq, Prod.mk.injEq] at hpost
        exact hok ⟨status, hpost.2.2.2, hs⟩
      simp only [Confirms, hno, hbefore, false_and, exists_false, and_false]
    exact runs_of_unseen hle rfl rfl (collect_set_of_iff hc hsends)
      (collect_set_of_iff hc hconfirms)

theorem moved_runs (hw : (service D).Reachable oneClock w) (hle : w.world.clock ≤ time)
    (hc : w.world.claims[i]? = some c) (hm : TaskMove D.env time w.world.tables c t c') :
    Courier.Runs w.courier (Installation.courier
      ⟨{ w.world with tables := t, clock := time, claims := w.world.claims.set i c' },
        w.handlers⟩) := by
  have hmem := List.mem_of_getElem? hc
  have hquiet : ∀ {x : Claim}, x.job = c.job → x.post = c.post →
      Courier.Runs w.courier (Installation.courier
        ⟨{ w.world with clock := time, claims := w.world.claims.set i x }, w.handlers⟩) :=
    fun hj hp => runs_of_unseen hle rfl rfl
      (collect_set_of_iff hc (sends_congr hj (by rw [hp])))
      (collect_set_of_iff hc (confirms_congr hj hp))
  cases hm with
  | refreshed hs url hu held hr ht =>
    refine runs_of_unseen hle hr.events (parcels_refreshed hr) ?_ ?_
    · rw [sends_events hr.events]
      exact collect_set_of_iff hc (sends_congr rfl rfl)
    · rw [confirms_events hr.events]
      exact collect_set_of_iff hc (confirms_congr rfl rfl)
  | sent hs =>
    have hnone := ((urlInv_of_reachable (service_refines_free_fleet hw)).aimed c hmem).unsent
      (by rw [hs]; rfl)
    exact sent_runs hw hle hc hnone rfl rfl rfl rfl
  | finished hp response => exact finished_runs hw hle hc hp rfl rfl
  | recorded hs hu hr => exact recorded_runs hw hle hc hs hr rfl rfl
  | _ => exact hquiet rfl rfl

theorem worker_runs {a : Delivery.Action} (hw : (service D).Reachable oneClock w)
    (ha : ∀ q, a ≠ .enqueue q) (hle : w.world.clock ≤ time)
    (hu : w.world.step D.env ⟨time, a⟩ = some u) :
    Courier.Runs w.courier (Installation.courier ⟨u, w.handlers⟩) := by
  cases World.step_moves hu with
  | phased => exact runs_of_unseen hle rfl rfl rfl rfl
  | enqueued => exact absurd rfl (ha _)
  | claimed hp hr h hphase =>
    refine runs_of_unseen hle h.events (parcels_claimed h) ?_ ?_
    · rw [sends_events h.events, collect_append, Set.union_eq_left]
      rintro m ⟨c, hc, r, -, -, body, hbody, -⟩
      obtain ⟨job, -, rfl⟩ := List.mem_map.mp hc
      cases hbody
    · rw [confirms_events h.events, collect_append, Set.union_eq_left]
      rintro m ⟨c, hc, r, -, -, ⟨status, ⟨request, startedAt, finishedAt, hpost⟩, -⟩, -⟩
      obtain ⟨job, -, rfl⟩ := List.mem_map.mp hc
      cases hpost
  | moved hc h => exact moved_runs hw hle hc h

end Worker

section Handler
variable {i : ℕ}

theorem Offers.unique {r : Ingest.Request svc} {m m' : String × Bytes × Set String}
    (ho : Offers r m) (ho' : Offers r m') : m = m' := by
  obtain ⟨event, hevent, htargets⟩ := ho.targets
  obtain ⟨event', hevent', htargets'⟩ := ho'.targets
  rw [hevent, Except.ok.injEq] at hevent'
  subst hevent'
  refine Prod.ext ?_ (Prod.ext (ho.body.trans ho'.body.symm) (htargets.trans htargets'.symm))
  exact Option.some.inj (ho.svixId.symm.trans ho'.svixId)

theorem arrived_runs (hle : w.world.clock ≤ time) (r : Ingest.Request svc) :
    Courier.Runs w.courier (Installation.courier
      ⟨{ w.world with clock := time }, w.handlers ++ [⟨r, .received, none, false⟩]⟩) := by
  have hacknowledged : collect Acknowledges (w.handlers ++ [⟨r, .received, none, false⟩]) =
      collect Acknowledges w.handlers := by
    rw [collect_append, Set.union_eq_left]
    rintro id ⟨h, hh, hs, -⟩
    rw [List.mem_singleton.mp hh] at hs
    cases hs
  have hone : ∀ m, m ∈ collect (fun h : Handler svc => Offers h.request)
      [⟨r, .received, none, false⟩] ↔ Offers r m := by
    simp [mem_collect]
  by_cases hoffer : ∃ m, Offers r m
  · obtain ⟨m, hm⟩ := hoffer
    have hoffered : collect (fun h : Handler svc => Offers h.request)
        (w.handlers ++ [⟨r, .received, none, false⟩]) =
          insert m (collect (fun h => Offers h.request) w.handlers) := by
      ext n
      rw [collect_append, Set.mem_union, hone, Set.mem_insert_iff, or_comm]
      exact or_congr_left ⟨fun hn => hn.unique hm, fun hn => hn ▸ hm⟩
    refine Courier.Runs.later hle ?_
    have heq : Installation.courier
        ⟨{ w.world with clock := time }, w.handlers ++ [⟨r, .received, none, false⟩]⟩ =
          { w.courier with now := time, offered := insert m w.courier.offered } :=
      Courier.ext rfl hoffered rfl rfl hacknowledged rfl rfl
    rw [heq]
    exact .offer m
  · have hoffered : collect (fun h : Handler svc => Offers h.request)
        (w.handlers ++ [⟨r, .received, none, false⟩]) =
          collect (fun h => Offers h.request) w.handlers := by
      rw [collect_append, Set.union_eq_left]
      exact fun m hm => absurd ⟨m, (hone m).mp hm⟩ hoffer
    have heq : Installation.courier
        ⟨{ w.world with clock := time }, w.handlers ++ [⟨r, .received, none, false⟩]⟩ =
          { w.courier with now := time } :=
      Courier.ext rfl hoffered rfl rfl hacknowledged rfl rfl
    rw [heq]
    exact .tick hle

theorem offers_of_checked {r : Ingest.Request svc} {q : Enqueue} (hq : Checked r q) {id : String}
    (hid : r.svixId = some id) :
    Offers r (id, r.body, { name | ∃ d ∈ q.destinations, d.name = name }) := by
  refine ⟨hq.verified, hid, rfl, q.event, hq.event, ?_⟩
  ext name
  simp only [Set.mem_ofPred_eq, hq.destinations]
  constructor
  · rintro ⟨d, hd, rfl⟩
    obtain ⟨d₀, hd₀, hrouted, rfl⟩ := (mem_matched hq.event).mp hd
    exact ⟨d₀, hd₀, rfl, hrouted⟩
  · rintro ⟨d₀, hd₀, rfl, hrouted⟩
    exact ⟨_, (mem_matched hq.event).mpr ⟨d₀, hd₀, hrouted, rfl⟩, rfl⟩

/-- A commit of a handler accepts its message. -/
theorem committed_runs (hw : (service D).Reachable oneClock w) (hle : w.world.clock ≤ time)
    (hm : w.handlers[i]? = some h) (x : Handler svc) (hreq : x.request = h.request) {q : Enqueue}
    (hq : Checked h.request q) (hbefore : h.stage ≠ .answered 202)
    (hafter : x.stage ≠ .answered 202) {deadlineAt : Time} {js : List DeliveryJob}
    (he : Enqueued q w.world.tables t e deadlineAt js) (ingested : List Enqueue) :
    Courier.Runs w.courier (Installation.courier
      ⟨{ w.world with tables := t, clock := time, ingested := ingested },
        w.handlers.set i x⟩) := by
  have hl := ledgerInv_of_fleet (service_refines_clocked_fleet hw)
  have hclaimed : ∀ c ∈ w.world.claims, ∃ r ∈ w.world.tables.webhookEvents,
      r.id = c.job.eventId := by
    intro c hc
    obtain ⟨r, hr, hid, -⟩ := hl.bodies c.job (List.mem_map_of_mem hc)
    exact ⟨r, hr, hid⟩
  have hsent : collect (Sends t) w.world.claims =
      collect (Sends w.world.tables) w.world.claims := by
    ext m
    exact exists_congr fun c => and_congr_right fun hc => event_enqueued he (hclaimed c hc)
  have hconfirmed : collect (Confirms t) w.world.claims =
      collect (Confirms w.world.tables) w.world.claims := by
    ext m
    exact exists_congr fun c => and_congr_right fun hc => event_enqueued he (hclaimed c hc)
  obtain ⟨hid, hsvix, hts, hraw, -⟩ := newWebhookEvent_ok he.made
  have heq : Installation.courier
      ⟨{ w.world with tables := t, clock := time, ingested := ingested },
        w.handlers.set i x⟩ = { w.courier with
          now := time
          accepted := insert (e.sourceSvixId, e.rawBody) w.courier.accepted
          parcels := w.courier.parcels ∪ Courier.addressed e.sourceSvixId
            { name | ∃ d ∈ q.destinations, d.name = name } deadlineAt } := by
    refine Courier.ext rfl ?_ (messages_enqueued he) (parcels_enqueued he) ?_ hsent hconfirmed
    · exact collect_set_of_iff hm fun m => by rw [hreq]
    · exact collect_set_of_iff hm fun id => by simp only [Acknowledges, hbefore, hafter, false_and]
  rw [heq]
  refine Courier.Runs.later hle (.accept deadlineAt ⟨h, List.mem_of_getElem? hm, ?_⟩ ?_ ?_)
  · have hsvixId : h.request.svixId = some e.sourceSvixId := by
      rw [Ingest.Request.svixId, ← hq.headers]
      exact (Enqueue.prepare_ok he.prepared).2.1
    have hbody : e.rawBody = h.request.body := hraw.trans hq.body
    rw [hbody]
    exact offers_of_checked hq hsvixId
  · obtain ⟨d, hd⟩ := List.exists_mem_of_ne_nil _ hq.matched
    exact ⟨d.name, d, hq.destinations ▸ hd, rfl⟩
  · rintro b ⟨r, hr, heq⟩
    exact (he.fresh r hr).2 (Prod.mk.inj heq).1.symm

theorem handler_runs (hw : (service D).Reachable oneClock w) (hle : w.world.clock ≤ time)
    (hm : w.handlers[i]? = some h) {others : List (Handler svc)} (ingested : List Enqueue)
    (hmove : HandlerMove others w.world.tables h t h') :
    Courier.Runs w.courier (Installation.courier
      ⟨{ w.world with tables := t, clock := time, ingested := ingested },
        w.handlers.set i h'⟩) := by
  have hmem := List.mem_of_getElem? hm
  have hinv := (intakeInv_of_reachable (service_refines_intake hw)).handlers h hmem
  have hunseen : ∀ {x : Handler svc}, x.request = h.request →
      (x.stage = .answered 202 ↔ h.stage = .answered 202) →
      Courier.Runs w.courier (Installation.courier
        ⟨{ w.world with clock := time, ingested := ingested }, w.handlers.set i x⟩) := by
    intro x hreq hstage
    have heq : Installation.courier
        ⟨{ w.world with clock := time, ingested := ingested }, w.handlers.set i x⟩ =
          { w.courier with now := time } := by
      refine Courier.ext rfl ?_ rfl rfl ?_ rfl rfl
      · exact collect_set_of_iff hm fun m => by rw [hreq]
      · exact collect_set_of_iff hm fun id => by simp only [Acknowledges, hreq, hstage]
    rw [heq]
    exact .tick hle
  cases hmove with
  | checked hs => exact hunseen rfl (by simp [hs])
  | started hs => exact hunseen rfl (by simp [hs])
  | conflicted hs => exact hunseen rfl (by simp [hs])
  | added hs => exact hunseen rfl (by simp [hs])
  | ended hend hopen =>
    refine hunseen rfl (iff_of_false ?_ (hopen 202))
    rcases hend with rfl | ⟨status, rfl, hne⟩
    · exact nofun
    · simpa using hne
  | @committed q n t' stage cut hs hn ht hend =>
    obtain ⟨e, deadlineAt, js, he⟩ := enqueued_of_written ht hn
    have hafter : stage ≠ .answered 202 := by
      rcases hend with ⟨rfl, -⟩ | ⟨rfl, -⟩ <;> simp [failureStatus]
    exact committed_runs hw hle hm ⟨h.request, stage, some q, cut⟩ rfl (hinv.writing q n hs).1
      (by simp [hs]) hafter he ingested
  | @acknowledged q hs =>
    obtain ⟨e, he, hid⟩ := hinv.acknowledged
      (hs.elim (fun hs => .inl ⟨q, hs⟩) fun hs => .inr (.inl ⟨q, hs⟩))
    have hno : h.stage ≠ .answered 202 := by
      rcases hs with hs | hs <;> simp [hs]
    have heq : Installation.courier
        ⟨{ w.world with clock := time, ingested := ingested },
          w.handlers.set i (h.answerWith 202)⟩ = { w.courier with
            now := time
            acknowledged := insert e.sourceSvixId w.courier.acknowledged } := by
      refine Courier.ext rfl ?_ rfl rfl ?_ rfl rfl
      · exact collect_set_of_iff hm fun m => Iff.rfl
      · refine collect_set_insert hm fun id => ?_
        simp [Acknowledges, Handler.answerWith, hno, hid, eq_comm]
    rw [heq]
    exact Courier.Runs.later hle (.acknowledge ⟨e, he, rfl⟩)

end Handler

theorem step_runs (hw : (service D).Reachable oneClock w) {e : ServiceEvent svc}
    (hs : (service D).step w e = some w') (hg : oneClock w e w') :
    Courier.Runs w.courier w'.courier := by
  have hle := hg.1
  cases Installation.step_moves hs with
  | arrived time r => exact arrived_runs hle r
  | handled hm hstep => exact handler_runs hw hle hm _ (Handler.step_moves hstep)
  | worked ha hv => exact worker_runs hw ha hle hv

theorem courier_runs (hw : (service D).Reachable oneClock w)
    (hv : (service D).Reaches oneClock w v) : Courier.Runs w.courier v.courier :=
  hw.later hv (I := fun u => Courier.Runs w.courier u.courier) .refl
    fun _ _ _ hu hi hs hg => hi.trans (step_runs hu hs hg)

/-- Every run of handlers and workers is a run of the courier. So in every reachable state each
accepted message has exactly one parcel for each of its addressees, nothing but accepted messages
is sent, every verdict has its reason, and no verdict changes later. -/
theorem service_refines_courier (D : Deployment svc) (hw : (service D).Reachable oneClock w)
    (hv : (service D).Reaches oneClock w v) :
    Courier.Runs (.start 0) w.courier ∧ Courier.Runs w.courier v.courier ∧ w.courier.Sound ∧
      ∀ p ∈ w.courier.parcels, p.verdict ≠ .pending → p ∈ v.courier.parcels := by
  have hruns := courier_runs (System.Reachable.init (S := service D)) hw
  rw [courier_initial] at hruns
  have hlater := courier_runs hw hv
  exact ⟨hruns, hlater, (Courier.sound_start 0).runs hruns, fun p hp hpv => hlater.final hp hpv⟩

/-- A parcel is delivered, and still is when another worker claims the other one. -/
theorem service_refines_courier_forwarded : ∃ w v,
    (service sampleDeployment).Reachable oneClock w ∧
    (service sampleDeployment).Reaches oneClock w v ∧ v.world.claims.length = 3 ∧
    Courier.Runs w.courier v.courier ∧ w.courier.Sound ∧
    ∃ p ∈ w.courier.parcels, p.verdict = .delivered ∧ p ∈ v.courier.parcels := by
  obtain ⟨w, hw, hp⟩ := System.exists_reachable_of_run (service sampleDeployment) oneClock forwarded
    (fun w => w.world.tables.deliveryJobs.rows.any (fun j => decide (j.status = .succeeded)) &&
      ((service sampleDeployment).run oneClock w
        [⟨seconds 400, .worker (.claim "b" (seconds 400) [] .answered)⟩]).any
          fun v : Installation sampleServices => decide (v.world.claims.length = 3)) (by decide)
  obtain ⟨hsucceeded, hrun⟩ := Bool.and_eq_true_iff.mp hp
  obtain ⟨j, hj, hstatus⟩ := List.any_eq_true.mp hsucceeded
  obtain ⟨v, hv, hthree⟩ := (Option.any_eq_true _ _).mp hrun
  have hreach := System.reaches_of_run hv
  obtain ⟨-, hlater, hsound, hfinal⟩ := service_refines_courier sampleDeployment hw hreach
  obtain ⟨e, he, hid⟩ := w.world.tables.jobEvent j hj
  have hverdict : (parcelOf j e).verdict = .delivered := by
    rw [parcelOf, of_decide_eq_true hstatus]
    rfl
  have hmem : parcelOf j e ∈ w.courier.parcels := ⟨j, hj, e, he, hid, rfl⟩
  exact ⟨w, v, hw, hreach, of_decide_eq_true hthree, hlater, hsound, _, hmem, hverdict,
    hfinal _ hmem (by rw [hverdict]; exact nofun)⟩

end ResendRouter.Service
