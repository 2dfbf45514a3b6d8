import ResendRouter.Ingest.Handler

/-! # Open transactions against a moving database

The statements of a transaction keep succeeding while others commit, as long as
those write other keys; and a transaction that has executed all of its
statements commits exactly what the atomic `enqueue_event` writes. From this,
all that one step of a handler can do.
-/

namespace ResendRouter.Ingest
open Foundation Program Database

variable {svc : Services} {t t' u : Tables} {q : Enqueue} {n : ℕ}

structure Statements (q : Enqueue) (t t' : Tables) (count : ℕ) (deadlineAt : Time)
    (e : WebhookEvent) (t₁ : Tables) : Prop where
  prepared : q.prepare = .ok (deadlineAt, e.sourceSvixId, e.sourceSvixTimestamp)
  made : q.eventRow e.sourceSvixId e.sourceSvixTimestamp = .ok e
  event : t.insertEvent e = .ok (some t₁)
  jobs : q.insertDeliveryJobs deadlineAt t₁ 0 (q.destinations.take count) = .ok t'

theorem written_ok : written q t n = .ok (some t') ↔
    ∃ deadlineAt e t₁, Statements q t t' n deadlineAt e t₁ := by
  constructor
  · intro h
    simp only [written] at h
    split at h
    case h_1 => cases h
    case h_2 deadlineAt svixId svixTimestamp hp =>
      split at h
      case h_1 => cases h
      case h_2 => cases h
      case h_3 t₁ ht =>
        obtain ⟨e, he, ht⟩ := bind_eq_ok.mp ht
        obtain ⟨-, hid, hts, -⟩ := newWebhookEvent_ok he
        split at h
        case h_1 => cases h
        case h_2 t₂ h₂ =>
          cases h
          exact ⟨deadlineAt, e, t₁, by rw [hp, hid, hts], by rw [hid, hts, he], ht, h₂⟩
  · rintro ⟨deadlineAt, e, t₁, hp, hm, he, hj⟩
    have hbind : (q.eventRow e.sourceSvixId e.sourceSvixTimestamp >>= t.insertEvent) =
        .ok (some t₁) := bind_eq_ok.mpr ⟨e, hm, he⟩
    simp only [written, hp, hbind, hj]

/-- With all statements executed, a commit writes what the atomic call writes. -/
theorem enqueueEvent_of_written (h : written q t n = .ok (some t'))
    (hn : q.destinations.length ≤ n) : enqueueEvent t q = ⟨.ok (.inserted q.eventRowId), t'⟩ := by
  obtain ⟨deadlineAt, e, t₁, hp, hm, he, hj⟩ := written_ok.mp h
  have hbind : (q.eventRow e.sourceSvixId e.sourceSvixTimestamp >>= t.insertEvent) =
      .ok (some t₁) := bind_eq_ok.mpr ⟨e, hm, he⟩
  rw [List.take_of_length_le hn] at hj
  simp only [enqueueEvent, hp, hbind, hj]

theorem enqueued_of_written (h : written q t n = .ok (some t')) (hn : q.destinations.length ≤ n) :
    ∃ e deadlineAt js, Enqueued q t t' e deadlineAt js := by
  have heq := enqueueEvent_of_written h hn
  rcases enqueueEvent_cases t q with ⟨-, hno⟩ | ⟨e, deadlineAt, js, -, hq⟩
  · rw [heq] at hno
    exact absurd rfl (hno q.eventRowId)
  · rw [heq] at hq
    exact ⟨e, deadlineAt, js, hq⟩

theorem written_conflict (h : written q t n = .ok none) :
    ∃ e ∈ t.webhookEvents, headerToString q.headers "svix-id" = some e.sourceSvixId := by
  simp only [written] at h
  split at h
  case h_1 => cases h
  case h_2 deadlineAt svixId svixTimestamp hp =>
    split at h
    case h_1 => cases h
    case h_2 ht =>
      obtain ⟨e, he, ht⟩ := bind_eq_ok.mp ht
      obtain ⟨r, hr, hid⟩ := Tables.insertEvent_conflict ht
      refine ⟨r, hr, ?_⟩
      rw [hid, (newWebhookEvent_ok he).2.1, (Enqueue.prepare_ok hp).2.1]
    case h_3 => split at h <;> cases h

/-- What `u` has more than `t` takes neither the keys of the event nor those of the first
`count` jobs. -/
structure Apart (q : Enqueue) (count : ℕ) (t u : Tables) : Prop where
  events : ∀ e ∈ u.webhookEvents, e ∈ t.webhookEvents ∨
    e.id ≠ q.eventRowId ∧ headerToString q.headers "svix-id" ≠ some e.sourceSvixId
  jobs : ∀ j ∈ u.deliveryJobs, (∃ j₀ ∈ t.deliveryJobs, j₀.id = j.id) ∨
    ∀ k < count, j.id ≠ q.jobIds k

/-- The loop over the destinations succeeds on any tables with the event in which no other row
has one of its keys. The induction is on the destinations, and each round makes both tables
grow by the same row. -/
theorem insertDeliveryJobs_transport {deadlineAt : Time} {i : ℕ} {ds : List DestinationConfig}
    (h : q.insertDeliveryJobs deadlineAt t i ds = .ok t')
    (hev : ∃ e ∈ u.webhookEvents, e.id = q.eventRowId)
    (hjobs : ∀ j ∈ u.deliveryJobs, (∃ j₀ ∈ t.deliveryJobs, j₀.id = j.id) ∨
      ∀ k < ds.length, j.id ≠ q.jobIds (i + k)) :
    ∃ u', q.insertDeliveryJobs deadlineAt u i ds = .ok u' := by
  induction ds generalizing t u i with
  | nil => exact ⟨u, rfl⟩
  | cons d ds ih =>
    obtain ⟨j, hj, h⟩ := bind_eq_ok.mp h
    obtain ⟨t₁, ht, h⟩ := bind_eq_ok.mp h
    obtain ⟨hrows, -, -, hfresh, -⟩ := Tables.insertJob_inserted ht
    obtain ⟨hf, hid⟩ := Enqueue.jobRow_ok hj
    have hnew : ∀ r ∈ u.deliveryJobs, r.id ≠ j.id := by
      intro r hr
      rcases hjobs r hr with ⟨j₀, hj₀, he⟩ | hne
      · rw [← he]
        exact hfresh j₀ hj₀
      · rw [hid]
        exact hne 0 (Nat.succ_pos _)
    obtain ⟨u₁, hu⟩ := Tables.insertJob_ok (by rwa [hf.eventId]) hnew
    obtain ⟨hrows', hevents', -⟩ := Tables.insertJob_inserted hu
    have hrest : ∀ r ∈ u₁.deliveryJobs, (∃ j₀ ∈ t₁.deliveryJobs, j₀.id = r.id) ∨
        ∀ k < ds.length, r.id ≠ q.jobIds (i + 1 + k) := by
      intro r hr
      rcases (Table.mem_append_one hrows').mp hr with hr | rfl
      · rcases hjobs r hr with ⟨j₀, hj₀, he⟩ | hne
        · exact .inl ⟨j₀, (Table.mem_append_one hrows).mpr (.inl hj₀), he⟩
        · refine .inr fun k hk => ?_
          have hk := hne (k + 1) (Nat.succ_lt_succ hk)
          rwa [← Nat.add_assoc, Nat.add_right_comm] at hk
      · exact .inl ⟨r, (Table.mem_append_one hrows).mpr (.inr rfl), rfl⟩
    obtain ⟨u', hu'⟩ := ih h (by rwa [hevents']) hrest
    exact ⟨u', bind_eq_ok.mpr ⟨j, hj, bind_eq_ok.mpr ⟨u₁, hu, hu'⟩⟩⟩

/-- Statements that succeeded succeed again after other commits with other keys. -/
theorem written_transport (h : written q t n = .ok (some t')) (ha : Apart q n t u) :
    ∃ u', written q u n = .ok (some u') := by
  obtain ⟨deadlineAt, e, t₁, hp, hm, he, hj⟩ := written_ok.mp h
  obtain ⟨hevents, hjobs, -, hfresh⟩ := Tables.insertEvent_inserted he
  have hid : e.id = q.eventRowId := (newWebhookEvent_ok hm).1
  have hnew : ∀ r ∈ u.webhookEvents, r.id ≠ e.id ∧ r.sourceSvixId ≠ e.sourceSvixId := by
    intro r hr
    rcases ha.events r hr with hr | ⟨hne, hsvix⟩
    · exact hfresh r hr
    · rw [hid]
      refine ⟨hne, fun hs => hsvix ?_⟩
      rw [hs, (Enqueue.prepare_ok hp).2.1]
  obtain ⟨u₁, hu⟩ := Tables.insertEvent_ok hnew
  obtain ⟨hevents', hjobs', -⟩ := Tables.insertEvent_inserted hu
  have hown : ∃ r ∈ u₁.webhookEvents, r.id = q.eventRowId :=
    ⟨e, (Table.mem_append_one hevents').mpr (.inr rfl), hid⟩
  have hrest : ∀ j ∈ u₁.deliveryJobs, (∃ j₀ ∈ t₁.deliveryJobs, j₀.id = j.id) ∨
      ∀ k < (q.destinations.take n).length, j.id ≠ q.jobIds (0 + k) := by
    intro j hj
    rw [hjobs'] at hj
    rcases ha.jobs j hj with ⟨j₀, hj₀, he⟩ | hne
    · exact .inl ⟨j₀, hjobs ▸ hj₀, he⟩
    · refine .inr fun k hk => ?_
      rw [Nat.zero_add]
      exact hne k (lt_of_lt_of_le hk (List.length_take_le n _))
  obtain ⟨u', hu'⟩ := insertDeliveryJobs_transport hj hown hrest
  exact ⟨u', written_ok.mpr ⟨deadlineAt, e, u₁, hp, hm, hu, hu'⟩⟩

structure Checked (r : Request svc) (q : Enqueue) : Prop where
  headers : q.headers = r.headers
  body : q.body = r.body
  event : r.event = .ok q.event
  destinations : q.destinations = r.matched
  matched : r.matched ≠ []
  verified : ∃ now, verifyWebhookSignature svc.hmacSha256 r.replica.config.resendWebhookSecret
    r.replica.config.resendSignatureToleranceSecs r.headers r.body now = .ok ()

theorem Request.check_cases (r : Request svc) (now : Time) (eventRowId : Uuid) (jobIds : ℕ → Uuid)
    (enqueuedAt : Time) :
    (∃ status, r.check now eventRowId jobIds enqueuedAt = .error status ∧ status ≠ 202) ∨
    ∃ q, r.check now eventRowId jobIds enqueuedAt = .ok q ∧ Checked r q := by
  have herror : ∀ e : AppError, e.statusCode ≠ 202 := fun e h => by
    have := e.le_statusCode
    omega
  simp only [Request.check]
  split
  case h_1 e _ => exact .inl ⟨_, rfl, herror e⟩
  case h_2 hv =>
    split
    case h_1 e _ => exact .inl ⟨_, rfl, herror e⟩
    case h_2 event he =>
      split
      case isTrue => exact .inl ⟨_, rfl, by decide⟩
      case isFalse hm => exact .inr ⟨_, rfl, rfl, rfl, he, rfl, hm, now, hv⟩

/-- Two open transactions have no key in common. -/
structure KeysApart (q : Enqueue) (n : ℕ) (q' : Enqueue) (n' : ℕ) : Prop where
  svixId : headerToString q.headers "svix-id" ≠ headerToString q'.headers "svix-id"
  eventRowId : q.eventRowId ≠ q'.eventRowId
  jobIds : ∀ a < n, ∀ b < n', q.jobIds a ≠ q'.jobIds b

theorem KeysApart.symm {q' : Enqueue} {n' : ℕ} (h : KeysApart q n q' n') : KeysApart q' n' q n :=
  ⟨h.svixId.symm, h.eventRowId.symm, fun b hb a ha => (h.jobIds a ha b hb).symm⟩

theorem holdsEvent_false {others : List (Handler svc)}
    (h : others.any (·.holdsEvent q) = false) :
    ∀ h' ∈ others, ∀ q' n', h'.stage = .writing q' n' → KeysApart q 0 q' n' := by
  intro h' hm q' n' hs
  have hf := List.any_eq_false.mp h h' hm
  simp only [Handler.holdsEvent, hs, Bool.not_eq_true, Bool.or_eq_false_iff,
    decide_eq_false_iff_not] at hf
  exact ⟨Ne.symm hf.1, Ne.symm hf.2, fun a ha => absurd ha (Nat.not_lt_zero a)⟩

theorem holdsJob_false {others : List (Handler svc)} {id : Uuid}
    (h : others.any (·.holdsJob id) = false) :
    ∀ h' ∈ others, ∀ q' n', h'.stage = .writing q' n' → ∀ b < n', id ≠ q'.jobIds b := by
  intro h' hm q' n' hs b hb he
  have hf := List.any_eq_false.mp h h' hm
  simp only [Handler.holdsJob, hs, List.any_eq_true, List.mem_range, decide_eq_true_eq,
    not_exists, not_and] at hf
  exact hf b hb he.symm

/-- All that one step of a handler can do to the tables and to itself. -/
inductive HandlerMove (others : List (Handler svc)) (t : Tables) (h : Handler svc) :
    Tables → Handler svc → Prop where
  | checked {q : Enqueue} (hs : h.stage = .received) (hq : Checked h.request q) :
      HandlerMove others t h t { h with stage := .begun q }
  | started {q : Enqueue} {t' : Tables} (hs : h.stage = .begun q)
      (hw : written q t 0 = .ok (some t'))
      (ho : ∀ h' ∈ others, ∀ q' n', h'.stage = .writing q' n' → KeysApart q 0 q' n') :
      HandlerMove others t h t { h with stage := .writing q 0 }
  | conflicted {q : Enqueue} (hs : h.stage = .begun q) (hw : written q t 0 = .ok none) :
      HandlerMove others t h t { h with stage := .duplicate q }
  | added {q : Enqueue} {n : ℕ} {t' : Tables} (hs : h.stage = .writing q n)
      (hn : n < q.destinations.length) (hw : written q t (n + 1) = .ok (some t'))
      (ho : ∀ h' ∈ others, ∀ q' n', h'.stage = .writing q' n' →
        ∀ b < n', q.jobIds n ≠ q'.jobIds b) :
      HandlerMove others t h t { h with stage := .writing q (n + 1) }
  | committed {q : Enqueue} {n : ℕ} {t' : Tables} {stage cut} (hs : h.stage = .writing q n)
      (hn : q.destinations.length ≤ n) (hw : written q t n = .ok (some t'))
      (hend : stage = .committed q ∧ cut = h.cutOffAfterCommit ∨
        stage = .answered failureStatus ∧ cut = true) :
      HandlerMove others t h t'
        { h with stage := stage, inserted := some q, cutOffAfterCommit := cut }
  | acknowledged {q : Enqueue} (hs : h.stage = .duplicate q ∨ h.stage = .committed q) :
      HandlerMove others t h t (h.answerWith 202)
  | ended {stage cut} (hs : stage = .lost ∨ ∃ status, stage = .answered status ∧ status ≠ 202)
      (hopen : ∀ status, h.stage ≠ .answered status)
      (hcut : cut = true ∨ cut = h.cutOffAfterCommit ∧ ∀ q, h.stage ≠ .committed q) :
      HandlerMove others t h t { h with stage := stage, cutOffAfterCommit := cut }

/-- A handler that answers an error has left the tables alone. -/
theorem HandlerMove.answer {others : List (Handler svc)} {h : Handler svc} {status : ℕ}
    (hstatus : status ≠ 202) (hopen : ∀ status, h.stage ≠ .answered status)
    (hnot : ∀ q, h.stage ≠ .committed q) : HandlerMove others t h t (h.answerWith status) :=
  .ended (.inr ⟨status, rfl, hstatus⟩) hopen (.inr ⟨rfl, hnot⟩)

theorem Handler.step_moves {others : List (Handler svc)} {h h' : Handler svc}
    {event : HandlerEvent} (hstep : h.step others t event = some (t', h')) :
    HandlerMove others t h t' h' := by
  have hfailure : failureStatus ≠ 202 := by decide
  cases event with
  | check now eventRowId jobIds enqueuedAt =>
    simp only [Handler.step] at hstep
    split at hstep
    case h_2 => cases hstep
    case h_1 hs =>
      have hopen : ∀ status, h.stage ≠ .answered status := by simp [hs]
      have hnot : ∀ q, h.stage ≠ .committed q := by simp [hs]
      rcases h.request.check_cases now eventRowId jobIds enqueuedAt with
        ⟨status, hc, hne⟩ | ⟨q, hc, hq⟩
      · rw [hc] at hstep
        cases hstep
        exact .answer hne hopen hnot
      · simp only [hc] at hstep
        split at hstep
        case h_1 e _ =>
          cases hstep
          have := e.le_statusCode
          exact .answer (by omega) hopen hnot
        case h_2 =>
          cases hstep
          exact .ended (.inl rfl) hopen (.inr ⟨rfl, hnot⟩)
        case h_3 =>
          cases hstep
          exact .checked hs hq
  | insertEvent =>
    simp only [Handler.step] at hstep
    split at hstep
    case h_2 => cases hstep
    case h_1 q hs =>
      split at hstep
      case isTrue => cases hstep
      case isFalse ho =>
        split at hstep
        case h_1 =>
          cases hstep
          exact .answer hfailure (by simp [hs]) (by simp [hs])
        case h_2 hw =>
          cases hstep
          exact .conflicted hs hw
        case h_3 hw =>
          cases hstep
          exact .started hs hw (holdsEvent_false (Bool.not_eq_true _ ▸ ho))
  | insertDeliveryJob =>
    simp only [Handler.step] at hstep
    split at hstep
    case h_2 => cases hstep
    case h_1 q count hs =>
      split at hstep
      case isTrue => cases hstep
      case isFalse hguard =>
        rw [not_or, not_le, Bool.not_eq_true] at hguard
        split at hstep
        case h_1 hw =>
          cases hstep
          exact .added hs hguard.1 hw (holdsJob_false hguard.2)
        case h_2 =>
          cases hstep
          exact .answer hfailure (by simp [hs]) (by simp [hs])
  | commit fate =>
    simp only [Handler.step] at hstep
    split at hstep
    case h_2 => cases hstep
    case h_1 q count hs =>
      split at hstep
      case isTrue => cases hstep
      case isFalse hn =>
        split at hstep
        case h_1 =>
          cases hstep
          exact .answer hfailure (by simp [hs]) (by simp [hs])
        case h_2 hw =>
          cases hstep
          exact .committed hs (not_lt.mp hn) hw (.inl ⟨rfl, rfl⟩)
        case h_3 hw =>
          cases hstep
          exact .committed hs (not_lt.mp hn) hw (.inr ⟨rfl, rfl⟩)
        case h_4 => cases hstep
  | rollback =>
    simp only [Handler.step] at hstep
    split at hstep
    case h_2 => cases hstep
    case h_1 q hs =>
      cases hstep
      exact .acknowledged (.inl hs)
  | answer =>
    simp only [Handler.step] at hstep
    split at hstep
    case h_2 => cases hstep
    case h_1 q hs =>
      cases hstep
      exact .acknowledged (.inr hs)
  | fail =>
    simp only [Handler.step] at hstep
    split at hstep
    case h_4 => cases hstep
    all_goals
      cases hstep
      exact .answer hfailure (by simp [*]) (by simp [*])
  | cutOff timedOut =>
    have hgone : (if timedOut then Stage.answered timeoutStatus else .lost) = Stage.lost ∨
        ∃ status, (if timedOut then Stage.answered timeoutStatus else .lost) = .answered status ∧
          status ≠ 202 := by
      cases timedOut
      · exact .inl rfl
      · exact .inr ⟨_, rfl, by decide⟩
    simp only [Handler.step] at hstep
    split at hstep
    case h_1 => cases hstep
    case h_2 => cases hstep
    case h_3 hs =>
      cases hstep
      exact .ended hgone (by simp [hs]) (.inl rfl)
    case h_4 h1 _ h3 =>
      cases hstep
      exact .ended hgone h1 (.inr ⟨rfl, h3⟩)

end ResendRouter.Ingest
