import ResendRouter.Ingest.Transactions
import ResendRouter.Foundation.Positions

/-! # The invariant of all handlers

An open transaction owns its keys: no commit of another handler takes them, so
its statements stay valid until it commits itself. Every committed event was
written by one handler, with all of its jobs. For the store, a run of handlers
and workers is a run of atomic calls.
-/

namespace ResendRouter.Ingest
open Foundation Program Database

variable {svc : Services} {t u : Tables} {q : Enqueue} {e : WebhookEvent}

def jobsOf (t : Tables) (eventId : Uuid) : List DeliveryJob :=
  t.deliveryJobs.rows.filter (·.eventId = eventId)

def targets (t : Tables) (eventId : Uuid) : List (String × Time) :=
  (jobsOf t eventId).map fun j => (j.destinationName, j.deadlineAt)

theorem targets_eq (t : Tables) (eventId : Uuid) :
    targets t eventId = ((t.deliveryJobs.rows.map DeliveryJob.identity).filter
      (·.2.1 = eventId)).map (·.2.2) := by
  rw [targets, jobsOf, List.filter_map, List.map_map]
  rfl

/-- The event row of a call, with one job for each of its destinations. -/
structure Ingested (t : Tables) (q : Enqueue) (e : WebhookEvent) : Prop where
  id : e.id = q.eventRowId
  svixId : headerToString q.headers "svix-id" = some e.sourceSvixId
  svixTimestamp : headerToString q.headers "svix-timestamp" = some e.sourceSvixTimestamp
  body : e.rawBody = q.body
  count : e.matchedDestinationCount = wrapI32 q.destinations.length
  jobs : ∃ deadlineAt, targets t e.id = q.destinations.map fun d => (d.name, deadlineAt)

theorem Ingested.congr (h : Ingested t q e) (hjobs : targets u e.id = targets t e.id) :
    Ingested u q e := by
  obtain ⟨deadlineAt, hd⟩ := h.jobs
  exact ⟨h.id, h.svixId, h.svixTimestamp, h.body, h.count, deadlineAt, hjobs.trans hd⟩

theorem jobsOf_enqueued {deadlineAt : Time} {js : List DeliveryJob}
    (h : Enqueued q t u e deadlineAt js) (eventId : Uuid) :
    jobsOf u eventId = jobsOf t eventId ++ if eventId = e.id then js else [] := by
  have hid : e.id = q.eventRowId := (newWebhookEvent_ok h.made).1
  have hjs : ∀ j ∈ js, j.eventId = e.id := fun j hj => by
    obtain ⟨d, -, hf⟩ := h.queued j hj
    rw [hf.eventId, hid]
  rw [jobsOf, jobsOf, h.jobs, List.filter_append]
  congr 1
  split
  case isTrue heq =>
    rw [List.filter_eq_self]
    intro j hj
    simpa [heq] using hjs j hj
  case isFalse hne =>
    rw [List.filter_eq_nil_iff]
    intro j hj
    simpa [hjs j hj] using Ne.symm hne

theorem targets_enqueued {deadlineAt : Time} {js : List DeliveryJob} {r : WebhookEvent}
    (h : Enqueued q t u e deadlineAt js) (hr : r ∈ t.webhookEvents) :
    targets u r.id = targets t r.id := by
  rw [targets, targets, jobsOf_enqueued h, if_neg (h.fresh r hr).1, List.append_nil]

theorem ingested_of_enqueued {deadlineAt : Time} {js : List DeliveryJob}
    (h : Enqueued q t u e deadlineAt js) : Ingested u q e := by
  obtain ⟨hid, -, -, hbody, -, hcount⟩ := newWebhookEvent_ok h.made
  obtain ⟨-, hsvix, htimestamp⟩ := Enqueue.prepare_ok h.prepared
  have hnone : jobsOf t e.id = [] := by
    rw [jobsOf, List.filter_eq_nil_iff]
    intro j hj
    obtain ⟨r, hr, hre⟩ := t.jobEvent j hj
    simpa [← hre] using (h.fresh r hr).1
  refine ⟨hid, hsvix, htimestamp, hbody, hcount, deadlineAt, ?_⟩
  rw [targets, jobsOf_enqueued h, hnone, if_pos rfl, List.nil_append]
  calc js.map (fun j => (j.destinationName, j.deadlineAt))
      = (js.map (·.destinationName)).map fun name => (name, deadlineAt) := by
        rw [List.map_map]
        apply List.map_congr_left
        intro j hj
        obtain ⟨d, -, hf⟩ := h.queued j hj
        rw [Function.comp_apply, hf.deadlineAt]
    _ = q.destinations.map fun d => (d.name, deadlineAt) := by
        rw [h.names, List.map_map]
        rfl

/-- A call of a worker writes no event, and no column that names a job. -/
theorem worker_frame {s s' : Store} {a : DbAction} (h : s.Moves a s')
    (ha : ∀ q, a ≠ .enqueueEvent q) :
    s'.tables.webhookEvents = s.tables.webhookEvents ∧
      s'.tables.deliveryJobs.rows.map DeliveryJob.identity =
        s.tables.deliveryJobs.rows.map DeliveryJob.identity := by
  cases h with
  | same => exact ⟨rfl, rfl⟩
  | enqueued h => exact absurd rfl (ha _)
  | claimed h => exact ⟨h.events, h.identities⟩
  | refreshed _ h => exact ⟨h.events, h.identities⟩
  | recorded _ h => exact ⟨h.events, h.identities⟩

/-- What holds of one handler at any position. -/
structure HandlerInv (t : Tables) (h : Handler svc) : Prop where
  begun : ∀ q, h.stage = .begun q → Checked h.request q
  writing : ∀ q n, h.stage = .writing q n →
    Checked h.request q ∧ ∃ t', written q t n = .ok (some t')
  inserted : ∀ q, h.inserted = some q → Checked h.request q
  /-- Who is about to acknowledge, or has acknowledged, has an event with its svix-id. -/
  acknowledged : (∃ q, h.stage = .duplicate q) ∨ (∃ q, h.stage = .committed q) ∨
    h.stage = .answered 202 →
      ∃ e ∈ t.webhookEvents, h.request.svixId = some e.sourceSvixId
  cut : h.cutOffAfterCommit = true → h.stage = .lost ∨ ∃ status, h.stage = .answered status
  untouched : h.cutOffAfterCommit = false → (∀ q, h.stage ≠ .committed q) →
    h.stage ≠ .answered 202 → h.inserted = none

structure IntakeInv (w : Intake svc) : Prop where
  handlers : ∀ h ∈ w.handlers, HandlerInv w.store.tables h
  apart : ∀ (i k : ℕ) (h h' : Handler svc) (q : Enqueue) (n : ℕ) (q' : Enqueue) (n' : ℕ), i ≠ k →
    w.handlers[i]? = some h → w.handlers[k]? = some h' → h.stage = .writing q n →
    h'.stage = .writing q' n' → KeysApart q n q' n'
  events : ∀ e ∈ w.store.tables.webhookEvents, ∃ h ∈ w.handlers, ∃ q,
    h.inserted = some q ∧ Ingested w.store.tables q e

variable {h h' : Handler svc} {w w' : Intake svc} {i : ℕ}

theorem HandlerInv.arrived (t : Tables) (r : Request svc) :
    HandlerInv t ⟨r, .received, none, false⟩ := by
  constructor <;> simp

/-- A commit that takes none of the keys of a handler leaves its invariant. -/
theorem HandlerInv.frame (hi : HandlerInv t h)
    (hkept : ∀ e ∈ t.webhookEvents, e ∈ u.webhookEvents)
    (ha : ∀ q n, h.stage = .writing q n → Apart q n t u) : HandlerInv u h where
  begun := hi.begun
  writing q n hs := by
    obtain ⟨hq, t', ht'⟩ := hi.writing q n hs
    exact ⟨hq, written_transport ht' (ha q n hs)⟩
  inserted := hi.inserted
  acknowledged hs := by
    obtain ⟨e, he, hid⟩ := hi.acknowledged hs
    exact ⟨e, hkept e he, hid⟩
  cut := hi.cut
  untouched := hi.untouched

def Stage.isOpen : Stage → Bool
  | .received => true
  | .begun _ => true
  | .writing _ _ => true
  | .duplicate _ => true
  | _ => false

theorem HandlerInv.uncommitted (hi : HandlerInv t h) {stage : Stage} (hs : h.stage = stage)
    (hopen : stage.isOpen = true) : h.cutOffAfterCommit = false ∧ h.inserted = none := by
  subst hs
  have hcut : h.cutOffAfterCommit = false := by
    rw [← Bool.not_eq_true]
    intro hc
    rcases hi.cut hc with hs | ⟨status, hs⟩ <;>
      · rw [hs] at hopen
        cases hopen
  refine ⟨hcut, hi.untouched hcut (fun q hs => ?_) fun hs => ?_⟩ <;>
    · rw [hs] at hopen
      cases hopen

theorem HandlerInv.staged (hself : h.cutOffAfterCommit = false ∧ h.inserted = none) {stage : Stage}
    (hbegun : ∀ q, stage = .begun q → Checked h.request q)
    (hwriting : ∀ q n, stage = .writing q n →
      Checked h.request q ∧ ∃ t', written q t n = .ok (some t'))
    (hack : (∃ q, stage = .duplicate q) ∨ (∃ q, stage = .committed q) ∨ stage = .answered 202 →
      ∃ e ∈ t.webhookEvents, h.request.svixId = some e.sourceSvixId) :
    HandlerInv t { h with stage := stage } where
  begun := hbegun
  writing := hwriting
  inserted q hq := by
    rw [hself.2] at hq
    cases hq
  acknowledged := hack
  cut hc := by
    rw [hself.1] at hc
    cases hc
  untouched _ _ _ := hself.2

/-- One handler takes a step: the handlers other than it, and itself, and the events. -/
theorem IntakeInv.replace (hi : IntakeInv w) (hm : w.handlers[i]? = some h) {s : Store}
    (hothers : ∀ x ∈ w.handlers.eraseIdx i, HandlerInv s.tables x)
    (hself : HandlerInv s.tables h')
    (hkeys : ∀ q n, h'.stage = .writing q n → ∀ x ∈ w.handlers.eraseIdx i, ∀ q' n',
      x.stage = .writing q' n' → KeysApart q n q' n')
    (hevents : ∀ e ∈ s.tables.webhookEvents, ∃ x, (x = h' ∨ x ∈ w.handlers.eraseIdx i) ∧
      ∃ q, x.inserted = some q ∧ Ingested s.tables q e) :
    IntakeInv ⟨s, w.handlers.set i h'⟩ where
  handlers x hx := by
    rcases (mem_set_iff hm).mp hx with rfl | hx
    · exact hself
    · exact hothers x hx
  apart k l x y q n q' n' hkl hk hl hx hy := by
    rcases (getElem?_set_some hm).mp hk with ⟨hki, hxe⟩ | ⟨hki, hxk⟩ <;>
      rcases (getElem?_set_some hm).mp hl with ⟨hli, hye⟩ | ⟨hli, hyl⟩
    · exact absurd (hki.trans hli.symm) hkl
    · subst hxe
      exact hkeys q n hx y (List.mem_eraseIdx_iff_getElem?.mpr ⟨l, hli, hyl⟩) q' n' hy
    · subst hye
      exact (hkeys q' n' hy x (List.mem_eraseIdx_iff_getElem?.mpr ⟨k, hki, hxk⟩) q n hx).symm
    · exact hi.apart k l x y q n q' n' hkl hxk hyl hx hy
  events e he := by
    obtain ⟨x, hx, q, hq⟩ := hevents e he
    exact ⟨x, (mem_set_iff hm).mpr hx, q, hq⟩

theorem IntakeInv.quiet (hi : IntakeInv w) (hm : w.handlers[i]? = some h)
    (hself : HandlerInv w.store.tables h') (hins : h'.inserted = h.inserted)
    (hkeys : ∀ q n, h'.stage = .writing q n → ∀ x ∈ w.handlers.eraseIdx i, ∀ q' n',
      x.stage = .writing q' n' → KeysApart q n q' n') :
    IntakeInv ⟨w.store, w.handlers.set i h'⟩ := by
  refine hi.replace hm (fun x hx => ?_) hself hkeys fun e he => ?_
  · exact hi.handlers x ((mem_iff_eraseIdx hm).mpr (.inr hx))
  · obtain ⟨x, hx, q, hq, hing⟩ := hi.events e he
    rcases (mem_iff_eraseIdx hm).mp hx with rfl | hx
    · exact ⟨h', .inl rfl, q, hins.trans hq, hing⟩
    · exact ⟨x, .inr hx, q, hq, hing⟩

/-- What a commit writes takes no key of a call whose keys are apart. -/
theorem apart_of_enqueued {q' : Enqueue} {n n' : ℕ} {deadlineAt : Time} {js : List DeliveryJob}
    (hq : Enqueued q t u e deadlineAt js) (hn : q.destinations.length ≤ n)
    (hk : KeysApart q n q' n') : Apart q' n' t u where
  events r hr := by
    rcases hq.mem_events.mp hr with hr | rfl
    · exact .inl hr
    · refine .inr ⟨?_, fun hs => hk.svixId ?_⟩
      · rw [(newWebhookEvent_ok hq.made).1]
        exact hk.eventRowId
      · rw [hs, (Enqueue.prepare_ok hq.prepared).2.1]
  jobs j hj := by
    rcases hq.mem_jobs.mp hj with hj | hj
    · exact .inl ⟨j, hj, rfl⟩
    · have hid : j.id ∈ (List.range q.destinations.length).map q.jobIds := by
        rw [← hq.ids]
        exact List.mem_map_of_mem hj
      obtain ⟨a, ha, he⟩ := List.mem_map.mp hid
      refine .inr fun b hb => ?_
      rw [← he]
      exact hk.jobIds a (lt_of_lt_of_le (List.mem_range.mp ha) hn) b hb

theorem IntakeInv.move (hi : IntakeInv w) (hm : w.handlers[i]? = some h)
    (hmove : HandlerMove (w.handlers.eraseIdx i) w.store.tables h t h') :
    IntakeInv ⟨⟨t, w.store.claimed⟩, w.handlers.set i h'⟩ := by
  have hself : HandlerInv w.store.tables h := hi.handlers h (List.mem_of_getElem? hm)
  have hpair : ∀ q n, h.stage = .writing q n → ∀ x ∈ w.handlers.eraseIdx i, ∀ q' n',
      x.stage = .writing q' n' → KeysApart q n q' n' := by
    intro q n hs x hx q' n' hx'
    obtain ⟨k, hki, hk⟩ := List.mem_eraseIdx_iff_getElem?.mp hx
    exact hi.apart i k h x q n q' n' (Ne.symm hki) hm hk hs hx'
  cases hmove with
  | @checked q hs hq =>
    have hnone := hself.uncommitted hs rfl
    refine hi.quiet hm (.staged hnone ?_ (by simp) (by simp)) rfl (by simp)
    intro q' hq'
    cases hq'
    exact hq
  | @started q t' hs hw ho =>
    have hnone := hself.uncommitted hs rfl
    refine hi.quiet hm (.staged hnone (by simp) ?_ (by simp)) rfl ?_
    · intro q' n' hs'
      cases hs'
      exact ⟨hself.begun q hs, t', hw⟩
    · intro q' n' hs' x hx
      cases hs'
      exact ho x hx
  | @conflicted q hs hw =>
    have hnone := hself.uncommitted hs rfl
    obtain ⟨e, he, hid⟩ := written_conflict hw
    refine hi.quiet hm (.staged hnone (by simp) (by simp) fun _ => ⟨e, he, ?_⟩) rfl (by simp)
    rw [← hid, (hself.begun q hs).headers]
    rfl
  | @added q n t' hs hn hw ho =>
    have hnone := hself.uncommitted hs rfl
    refine hi.quiet hm (.staged hnone (by simp) ?_ (by simp)) rfl ?_
    · intro q' n' hs'
      cases hs'
      exact ⟨(hself.writing q n hs).1, t', hw⟩
    · intro q' n' hs' x hx q₂ n₂ hx₂
      cases hs'
      have hold := hpair q n hs x hx q₂ n₂ hx₂
      refine ⟨hold.svixId, hold.eventRowId, fun a ha b hb => ?_⟩
      rcases Nat.lt_succ_iff_lt_or_eq.mp ha with ha | rfl
      · exact hold.jobIds a ha b hb
      · exact ho x hx q₂ n₂ hx₂ b hb
  | @committed q n t' stage cut hs hn hw hend =>
    have hnone := hself.uncommitted hs rfl
    have hq := (hself.writing q n hs).1
    obtain ⟨e, deadlineAt, js, henq⟩ := enqueued_of_written hw hn
    have hing := ingested_of_enqueued henq
    refine hi.replace (s := ⟨t, w.store.claimed⟩) hm ?_ ?_ ?_ ?_
    · intro x hx
      have hx₀ := hi.handlers x ((mem_iff_eraseIdx hm).mpr (.inr hx))
      refine hx₀.frame (fun r hr => henq.mem_events.mpr (.inl hr)) fun q' n' hx' => ?_
      exact apart_of_enqueued henq hn (hpair q n hs x hx q' n' hx')
    · constructor
      · rcases hend with ⟨rfl, -⟩ | ⟨rfl, -⟩ <;> simp
      · rcases hend with ⟨rfl, -⟩ | ⟨rfl, -⟩ <;> simp
      · intro q' hq'
        cases hq'
        exact hq
      · intro _
        refine ⟨e, henq.mem_events.mpr (.inr rfl), ?_⟩
        rw [← hing.svixId, hq.headers]
        rfl
      · rcases hend with ⟨rfl, rfl⟩ | ⟨rfl, rfl⟩
        · simp [hnone.1]
        · exact fun _ => .inr ⟨_, rfl⟩
      · rcases hend with ⟨rfl, rfl⟩ | ⟨rfl, rfl⟩
        · exact fun _ hne => absurd rfl (hne q)
        · simp
    · rcases hend with ⟨rfl, -⟩ | ⟨rfl, -⟩ <;> simp
    · intro r hr
      rcases henq.mem_events.mp hr with hr | rfl
      · obtain ⟨x, hx, q', hq', hing'⟩ := hi.events r hr
        rcases (mem_iff_eraseIdx hm).mp hx with rfl | hx
        · rw [hnone.2] at hq'
          cases hq'
        · exact ⟨x, .inr hx, q', hq', hing'.congr (targets_enqueued henq hr)⟩
      · exact ⟨_, .inl rfl, q, rfl, hing⟩
  | @acknowledged q hs =>
    refine hi.quiet hm ?_ rfl (by simp [Handler.answerWith])
    refine ⟨by simp [Handler.answerWith], by simp [Handler.answerWith], hself.inserted,
      fun _ => hself.acknowledged ?_, fun _ => .inr ⟨202, rfl⟩,
      fun _ _ hne => absurd rfl hne⟩
    rcases hs with hs | hs
    · exact .inl ⟨q, hs⟩
    · exact .inr (.inl ⟨q, hs⟩)
  | @ended stage cut hs hopen hcut =>
    have hfinal : (∀ q, stage ≠ .begun q) ∧ (∀ q n, stage ≠ .writing q n) ∧
        (∀ q, stage ≠ .duplicate q) ∧ (∀ q, stage ≠ .committed q) ∧ stage ≠ .answered 202 := by
      rcases hs with rfl | ⟨status, rfl, hne⟩
      · simp
      · simpa using hne
    rcases hfinal with ⟨h1, h2, h3, h4, h5⟩
    refine hi.quiet hm ?_ rfl fun q n hs' => absurd hs' (h2 q n)
    refine ⟨fun q hs' => absurd hs' (h1 q), fun q n hs' => absurd hs' (h2 q n), hself.inserted,
      ?_, fun _ => hs.imp id fun ⟨status, hs', _⟩ => ⟨status, hs'⟩, fun hc _ _ => ?_⟩
    · rintro (⟨q, hs'⟩ | ⟨q, hs'⟩ | hs')
      · exact absurd hs' (h3 q)
      · exact absurd hs' (h4 q)
      · exact absurd hs' h5
    · rcases hcut with hcut | ⟨hcut, hnot⟩
      · rw [hcut] at hc
        cases hc
      · exact hself.untouched (hcut ▸ hc) hnot (hopen 202)

theorem IntakeInv.arrive (hi : IntakeInv w) (r : Request svc) :
    IntakeInv { w with handlers := w.handlers ++ [⟨r, .received, none, false⟩] } where
  handlers x hx := by
    rcases List.mem_append.mp hx with hx | hx
    · exact hi.handlers x hx
    · rw [List.mem_singleton.mp hx]
      exact .arrived _ r
  apart k l x y q n q' n' hkl hk hl hx hy := by
    have hold : ∀ (k : ℕ) (x : Handler svc) (q : Enqueue) (n : ℕ), x.stage = .writing q n →
        (w.handlers ++ [⟨r, .received, none, false⟩])[k]? = some x → w.handlers[k]? = some x := by
      intro k x q n hx hk
      rcases getElem?_append_some.mp hk with hk | ⟨m, -, hm⟩
      · exact hk
      · rw [List.mem_singleton.mp (List.mem_of_getElem? hm)] at hx
        cases hx
    exact hi.apart k l x y q n q' n' hkl (hold k x q n hx hk) (hold l y q' n' hy hl) hx hy
  events e he := by
    obtain ⟨x, hx, hq⟩ := hi.events e he
    exact ⟨x, List.mem_append_left _ hx, hq⟩

theorem IntakeInv.worker (hi : IntakeInv w) {s : Store} {a : DbAction} (hs : w.store.Moves a s)
    (ha : ∀ q, a ≠ .enqueueEvent q) : IntakeInv { w with store := s } := by
  obtain ⟨hevents, hids⟩ := worker_frame hs ha
  refine ⟨fun x hx => (hi.handlers x hx).frame (fun e he => hevents ▸ he) fun q n _ => ⟨?_, ?_⟩,
    hi.apart, fun e he => ?_⟩
  · exact fun e he => .inl (hevents ▸ he)
  · intro j hj
    have hm : j.identity ∈ w.store.tables.deliveryJobs.rows.map DeliveryJob.identity := by
      rw [← hids]
      exact List.mem_map_of_mem hj
    obtain ⟨j₀, hj₀, heq⟩ := List.mem_map.mp hm
    exact .inl ⟨j₀, hj₀, congrArg Prod.fst heq⟩
  · rw [hevents] at he
    obtain ⟨x, hx, q, hq, hing⟩ := hi.events e he
    refine ⟨x, hx, q, hq, hing.congr ?_⟩
    rw [targets_eq, targets_eq, hids]

theorem Intake.step_handler {event : HandlerEvent} (hstep : w.step (.handler i event) = some w') :
    ∃ h t h', w.handlers[i]? = some h ∧
      HandlerMove (w.handlers.eraseIdx i) w.store.tables h t h' ∧
      w' = ⟨⟨t, w.store.claimed⟩, w.handlers.set i h'⟩ := by
  simp only [Intake.step] at hstep
  split at hstep
  case h_1 => cases hstep
  case h_2 h hm =>
    obtain ⟨⟨t, h'⟩, hmove, rfl⟩ := Option.map_eq_some_iff.mp hstep
    exact ⟨h, t, h', hm, Handler.step_moves hmove, rfl⟩

theorem Intake.step_worker {a : DbAction} (hstep : w.step (.worker a) = some w') :
    (∀ q, a ≠ .enqueueEvent q) ∧ ∃ s, w.store.step a = some s ∧ w' = { w with store := s } := by
  simp only [Intake.step] at hstep
  split at hstep
  case h_1 => cases hstep
  case h_2 ha =>
    obtain ⟨s, hs, rfl⟩ := Option.map_eq_some_iff.mp hstep
    exact ⟨ha, s, hs, rfl⟩

theorem intakeInv_of_reachable (hw : (intake svc).Reachable System.free w) : IntakeInv w := by
  apply hw.invariant
  · constructor <;> simp [intake, Tables.empty]
  · intro w a w' _ hi hstep _
    cases a with
    | arrive r =>
      cases hstep
      exact hi.arrive r
    | handler i event =>
      obtain ⟨h, t, h', hm, hmove, rfl⟩ := Intake.step_handler hstep
      exact hi.move hm hmove
    | worker a =>
      obtain ⟨ha, s, hs, rfl⟩ := Intake.step_worker hstep
      exact hi.worker (Store.step_moves hs) ha

/-- Open transactions leave no trace in the store: a run of the handlers and the workers is, for
the store, a run of the ledger, with one atomic `enqueue_event` for each commit. -/
theorem intake_refines_ledger (hw : (intake svc).Reachable System.free w) :
    ledger.Reachable System.free w.store := by
  apply hw.simulate Intake.store rfl
  intro w a w' _ hstep _
  cases a with
  | arrive r =>
    cases hstep
    exact .refl
  | handler i event =>
    obtain ⟨h, t, h', hm, hmove, rfl⟩ := Intake.step_handler hstep
    cases hmove with
    | @committed q n t' stage cut hs hn ht hend =>
      refine .single ⟨.enqueueEvent q, ?_, trivial⟩
      simp only [ledger, Store.step, enqueueEvent_of_written ht hn]
    | _ => exact .refl
  | worker a =>
    obtain ⟨-, s, hs, rfl⟩ := Intake.step_worker hstep
    exact .single ⟨a, hs, trivial⟩

/-- An open transaction with all of its statements can always commit. -/
theorem commit_enabled (hw : (intake svc).Reachable System.free w) {h : Handler svc}
    (hm : w.handlers[i]? = some h) {n : ℕ} (hs : h.stage = .writing q n)
    (hn : q.destinations.length ≤ n) : ∃ w', w.step (.handler i (.commit .answered)) = some w' := by
  obtain ⟨-, t', ht'⟩ :=
    ((intakeInv_of_reachable hw).handlers h (List.mem_of_getElem? hm)).writing q n hs
  simp [Intake.step, hm, Handler.step, hs, not_lt.mpr hn, ht']

end ResendRouter.Ingest
