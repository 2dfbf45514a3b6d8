import ResendRouter.Ingest.Persistence

/-! # Every open request is answered

An INSERT waits for another transaction with the same svix-id, and that one
waits for nobody, since its other keys are drawn for it alone. So handlers do not
block each other: their own statements bring all of them to an answer, and the
answer is 202 unless a column refuses a value or an index entry has no room for it.
-/

namespace ResendRouter.Ingest
open Foundation Program Database

variable {svc : Services} {t t' u : Tables} {q q' : Enqueue} {h h' : Handler svc}
  {others : List (Handler svc)} {w w' : Intake svc} {event : HandlerEvent} {i n : ℕ}

def Stage.call : Stage → Option Enqueue
  | .begun q => some q
  | .writing q _ => some q
  | .duplicate q => some q
  | .committed q => some q
  | _ => none

/-- The call whose rows are not committed yet, but may be. -/
def Stage.pending : Stage → Option Enqueue
  | .begun q => some q
  | .writing q _ => some q
  | _ => none

def freshIds (t : Tables) (q : Enqueue) : Bool :=
  t.webhookEvents.rows.all (fun e => e.id != q.eventRowId) &&
    t.deliveryJobs.rows.all (fun j =>
      (List.range q.destinations.length).all fun k => j.id != q.jobIds k) &&
    (List.range q.destinations.length).all fun a =>
      (List.range q.destinations.length).all fun b => q.jobIds a != q.jobIds b || a == b

def idsApart (q q' : Enqueue) : Bool :=
  q.eventRowId != q'.eventRowId && (List.range q.destinations.length).all fun a =>
    (List.range q'.destinations.length).all fun b => q.jobIds a != q'.jobIds b

def IntakeAction.drawing : IntakeAction svc → Option ℕ
  | .handler i (.check _ _ _ _) => some i
  | _ => none

/-- Drawn identifiers occur neither in the tables nor in a call that is under way. -/
def freshDraws : System.Guard (Intake svc) (IntakeAction svc) := fun w a w' =>
  ∀ i ∈ a.drawing, ((w'.handlers[i]?).bind (·.stage.pending)).all (fun q =>
    freshIds w.store.tables q &&
      (w.handlers.eraseIdx i).all fun x => x.stage.pending.all (idsApart q)) = true

instance (w : Intake svc) (a : IntakeAction svc) (w' : Intake svc) :
    Decidable (freshDraws w a w') := inferInstanceAs (Decidable (∀ i ∈ a.drawing, _ = true))

theorem freshIds_eq_true : freshIds t q = true ↔ FreshIds t q := by
  simp only [freshIds, Bool.and_eq_true, List.all_eq_true, bne_iff_ne, List.mem_range,
    Bool.or_eq_true, beq_iff_eq, ne_eq]
  constructor
  · rintro ⟨⟨hevents, hjobs⟩, hdistinct⟩
    refine ⟨hevents, hjobs, fun a ha b hb heq => ?_⟩
    exact (hdistinct a ha b hb).resolve_left (not_not.mpr heq)
  · rintro ⟨hevents, hjobs, hdistinct⟩
    refine ⟨⟨hevents, hjobs⟩, fun a ha b hb => ?_⟩
    rw [or_iff_not_imp_left, not_not]
    exact hdistinct a ha b hb

theorem idsApart_eq_true : idsApart q q' = true ↔ q.eventRowId ≠ q'.eventRowId ∧
    ∀ a < q.destinations.length, ∀ b < q'.destinations.length, q.jobIds a ≠ q'.jobIds b := by
  simp only [idsApart, Bool.and_eq_true, List.all_eq_true, bne_iff_ne, List.mem_range]

theorem idsApart_symm (h : idsApart q q' = true) : idsApart q' q = true := by
  rw [idsApart_eq_true] at h ⊢
  exact ⟨h.1.symm, fun b hb a ha => (h.2 a ha b hb).symm⟩

theorem freshIds_enqueued {e : WebhookEvent} {deadlineAt : Time} {js : List DeliveryJob}
    (hf : FreshIds t q') (hq : Enqueued q t u e deadlineAt js) (ha : idsApart q q' = true) :
    FreshIds u q' := by
  obtain ⟨hevent, hjobs⟩ := idsApart_eq_true.mp ha
  refine ⟨fun r hr => ?_, fun j hj k hk => ?_, hf.distinct⟩
  · rcases hq.mem_events.mp hr with hr | rfl
    · exact hf.event r hr
    · rw [(newWebhookEvent_ok hq.made).1]
      exact hevent
  · rcases hq.mem_jobs.mp hj with hj | hj
    · exact hf.jobs j hj k hk
    · have hid : j.id ∈ (List.range q.destinations.length).map q.jobIds := by
        rw [← hq.ids]
        exact List.mem_map_of_mem hj
      obtain ⟨a, ha, heq⟩ := List.mem_map.mp hid
      rw [← heq]
      exact hjobs a (List.mem_range.mp ha) k hk

/-- What a worker writes leaves the identifiers alone. -/
theorem freshIds_frame (hf : FreshIds t q) (hevents : u.webhookEvents = t.webhookEvents)
    (hids : u.deliveryJobs.rows.map DeliveryJob.identity =
      t.deliveryJobs.rows.map DeliveryJob.identity) : FreshIds u q := by
  refine ⟨fun e he => hf.event e (hevents ▸ he), fun j hj k hk => ?_, hf.distinct⟩
  have hm : j.identity ∈ t.deliveryJobs.rows.map DeliveryJob.identity := by
    rw [← hids]
    exact List.mem_map_of_mem hj
  obtain ⟨j₀, hj₀, heq⟩ := List.mem_map.mp hm
  have hid : j₀.id = j.id := congrArg Prod.fst heq
  rw [← hid]
  exact hf.jobs j₀ hj₀ k hk

/-- The identifiers of the calls under way are still unused, and not drawn twice. -/
structure DrawInv (w : Intake svc) : Prop where
  fresh : ∀ h ∈ w.handlers, ∀ q, h.stage.pending = some q →
    FreshIds w.store.tables q ∧ ∃ x, q.prepare = .ok x
  apart : ∀ (i k : ℕ) (h h' : Handler svc) (q q' : Enqueue), i ≠ k → w.handlers[i]? = some h →
    w.handlers[k]? = some h' → h.stage.pending = some q → h'.stage.pending = some q' →
      idsApart q q' = true

/-- Only the check of a request begins a call. -/
theorem Handler.step_pending (hstep : h.step others t event = some (t', h')) :
    h'.stage.pending = none ∨ h'.stage.pending = h.stage.pending ∨
      (∃ now eventRowId jobIds enqueuedAt, event = .check now eventRowId jobIds enqueuedAt) ∧
        t' = t ∧ ∀ q, h'.stage.pending = some q → ∃ x, q.prepare = .ok x := by
  cases Handler.step_moves hstep with
  | checked hs hq =>
    refine .inr (.inr ?_)
    cases event with
    | check now eventRowId jobIds enqueuedAt =>
      refine ⟨⟨_, _, _, _, rfl⟩, rfl, fun q' hq' => ?_⟩
      cases hq'
      simp only [Handler.step, hs] at hstep
      split at hstep
      case h_1 => cases hstep
      case h_2 q₀ _ =>
        split at hstep
        case h_1 => cases hstep
        case h_2 => cases hstep
        case h_3 x hx =>
          cases hstep
          exact ⟨x, hx⟩
    | cutOff timedOut =>
      simp only [Handler.step, hs] at hstep
      split_ifs at hstep <;> cases hstep
    | _ => simp [Handler.step, hs] at hstep
  | started hs => exact .inr (.inl (by rw [hs]; rfl))
  | conflicted => exact .inl rfl
  | added hs => exact .inr (.inl (by rw [hs]; rfl))
  | committed hs hn hw hend => rcases hend with ⟨rfl, -⟩ | ⟨rfl, -⟩ <;> exact .inl rfl
  | acknowledged => exact .inl rfl
  | ended hs => rcases hs with rfl | ⟨status, rfl, -⟩ <;> exact .inl rfl

theorem HandlerMove.tables (hmove : HandlerMove others t h t' h') : t' = t ∨
    h'.stage.pending = none ∧ ∃ q e deadlineAt js, h.stage.pending = some q ∧
      Enqueued q t t' e deadlineAt js := by
  cases hmove with
  | @committed q n t' stage cut hs hn hw hend =>
    obtain ⟨e, deadlineAt, js, hq⟩ := enqueued_of_written hw hn
    refine .inr ⟨?_, q, e, deadlineAt, js, by rw [hs]; rfl, hq⟩
    rcases hend with ⟨rfl, -⟩ | ⟨rfl, -⟩ <;> rfl
  | _ => exact .inl rfl

theorem Intake.handler_step (hstep : w.step (.handler i event) = some w') :
    ∃ h t h', w.handlers[i]? = some h ∧
      h.step (w.handlers.eraseIdx i) w.store.tables event = some (t, h') ∧
      w' = ⟨⟨t, w.store.claimed⟩, w.handlers.set i h'⟩ := by
  simp only [Intake.step] at hstep
  split at hstep
  case h_1 => cases hstep
  case h_2 h hm =>
    obtain ⟨⟨t, h'⟩, hmove, rfl⟩ := Option.map_eq_some_iff.mp hstep
    exact ⟨h, t, h', hm, hmove, rfl⟩

theorem DrawInv.replace (hi : DrawInv w) (hm : w.handlers[i]? = some h) {s : Store}
    (hothers : ∀ x ∈ w.handlers.eraseIdx i, ∀ q, x.stage.pending = some q → FreshIds s.tables q)
    (hself : ∀ q, h'.stage.pending = some q → (FreshIds s.tables q ∧ ∃ x, q.prepare = .ok x) ∧
      ∀ x ∈ w.handlers.eraseIdx i, ∀ q', x.stage.pending = some q' → idsApart q q' = true) :
    DrawInv ⟨s, w.handlers.set i h'⟩ where
  fresh x hx q hq := by
    rcases (mem_set_iff hm).mp hx with rfl | hx
    · exact (hself q hq).1
    · exact ⟨hothers x hx q hq, (hi.fresh x ((mem_iff_eraseIdx hm).mpr (.inr hx)) q hq).2⟩
  apart k l x y q q' hkl hk hl hx hy := by
    rcases (getElem?_set_some hm).mp hk with ⟨hki, hxe⟩ | ⟨hki, hxk⟩ <;>
      rcases (getElem?_set_some hm).mp hl with ⟨hli, hye⟩ | ⟨hli, hyl⟩
    · exact absurd (hki.trans hli.symm) hkl
    · subst hxe
      exact (hself q hx).2 y (List.mem_eraseIdx_iff_getElem?.mpr ⟨l, hli, hyl⟩) q' hy
    · subst hye
      exact idsApart_symm
        ((hself q' hy).2 x (List.mem_eraseIdx_iff_getElem?.mpr ⟨k, hki, hxk⟩) q hx)
    · exact hi.apart k l x y q q' hkl hxk hyl hx hy

theorem DrawInv.handler (hi : DrawInv w) (hstep : w.step (.handler i event) = some w')
    (hdraw : freshDraws w (.handler i event) w') : DrawInv w' := by
  obtain ⟨h, t, h', hm, hmove, rfl⟩ := Intake.handler_step hstep
  have hpair : ∀ q, h.stage.pending = some q → ∀ x ∈ w.handlers.eraseIdx i, ∀ q',
      x.stage.pending = some q' → idsApart q q' = true := by
    intro q hq x hx q' hq'
    obtain ⟨k, hki, hk⟩ := List.mem_eraseIdx_iff_getElem?.mp hx
    exact hi.apart i k h x q q' (Ne.symm hki) hm hk hq hq'
  have hold : ∀ x ∈ w.handlers.eraseIdx i, ∀ q, x.stage.pending = some q →
      FreshIds w.store.tables q :=
    fun x hx q hq => (hi.fresh x ((mem_iff_eraseIdx hm).mpr (.inr hx)) q hq).1
  rcases (Handler.step_moves hmove).tables with rfl | ⟨hnone, q₀, e, deadlineAt, js, hq₀, henq⟩
  · refine hi.replace hm hold fun q hq => ?_
    rcases Handler.step_pending hmove with hnone | heq | ⟨⟨now, id, ids, at', rfl⟩, -, hprep⟩
    · rw [hnone] at hq
      cases hq
    · rw [heq] at hq
      exact ⟨hi.fresh h (List.mem_of_getElem? hm) q hq, hpair q hq⟩
    · -- the identifiers were drawn in this step
      have hset : (w.handlers.set i h')[i]? = some h' :=
        (getElem?_set_some hm).mpr (.inl ⟨rfl, rfl⟩)
      have hd := hdraw i rfl
      simp only [hset, Option.bind_some, hq, Option.all_some, Bool.and_eq_true, List.all_eq_true]
        at hd
      refine ⟨⟨freshIds_eq_true.mp hd.1, hprep q hq⟩, fun x hx q' hq' => ?_⟩
      have := hd.2 x hx
      rwa [hq', Option.all_some] at this
  · refine hi.replace hm (fun x hx q hq => ?_) fun q hq => ?_
    · exact freshIds_enqueued (hold x hx q hq) henq (hpair q₀ hq₀ x hx q hq)
    · rw [hnone] at hq
      cases hq

theorem drawInv_of_reachable (hw : (intake svc).Reachable freshDraws w) : DrawInv w := by
  apply hw.invariant
  · constructor <;> simp [intake]
  · intro w a w' _ hi hstep hdraw
    cases a with
    | arrive r =>
      cases hstep
      have hold : ∀ (k : ℕ) (x : Handler svc) (q : Enqueue), x.stage.pending = some q →
          (w.handlers ++ [⟨r, .received, none, false⟩])[k]? = some x → w.handlers[k]? = some x := by
        intro k x q hq hk
        rcases getElem?_append_some.mp hk with hk | ⟨m, -, hm⟩
        · exact hk
        · rw [List.mem_singleton.mp (List.mem_of_getElem? hm)] at hq
          cases hq
      constructor
      · intro x hx q hq
        obtain ⟨k, hk⟩ := List.mem_iff_getElem?.mp hx
        exact hi.fresh x (List.mem_of_getElem? (hold k x q hq hk)) q hq
      · intro k l x y q q' hkl hk hl hx hy
        exact hi.apart k l x y q q' hkl (hold k x q hx hk) (hold l y q' hy hl) hx hy
    | handler i event => exact hi.handler hstep hdraw
    | worker a =>
      obtain ⟨ha, s, hs, rfl⟩ := Intake.step_worker hstep
      obtain ⟨hevents, hids⟩ := worker_frame (Store.step_moves hs) ha
      refine ⟨fun x hx q hq => ?_, hi.apart⟩
      obtain ⟨hf, hprep⟩ := hi.fresh x hx q hq
      exact ⟨freshIds_frame hf hevents hids, hprep⟩

/-- A text that every index on a text column has room for: a B-tree entry takes 2692 bytes of it
without compression. The tables here set no such limit, so longer texts are only not promised. -/
def indexTextOk (s : String) : Bool := s.utf8ByteSize ≤ 2692

/-- The columns admit the header names, the texts and the two dates of the call, and the texts that
have an index, the svix-id and the event id, fit into it. -/
structure Admissible (q : Enqueue) : Prop where
  names : HeaderNames q.headers
  eventId : optionalTextOk q.event.eventId = true
  eventType : optionalTextOk q.event.eventType = true
  urls : ∀ d ∈ q.destinations, textOk d.url = true
  receivedAt : timestampOk q.now = true
  deadlineAt : timestampOk (q.now + q.retryWindow) = true
  indexedSvixId : (headerToString q.headers "svix-id").all indexTextOk = true
  indexedEventId : q.event.eventId.all indexTextOk = true

theorem Checked.textOk_name {r : Request svc} (hq : Checked r q) :
    ∀ d ∈ q.destinations, textOk d.name = true := by
  intro d hd
  have he := hq.event
  rw [hq.destinations, Request.matched, he] at hd
  exact textOk_matched (w := r.webhook 0 0 (fun _ => 0) 0) r.replica.valid d hd

/-- A call with new identifiers and admissible values finds its svix-id, or each of its statements
succeeds. -/
theorem written_isOk {r : Request svc} (hq : Checked r q) (ha : Admissible q)
    (hf : FreshIds t q) (hprep : ∃ x, q.prepare = .ok x) (n : ℕ) :
    written q t n = .ok none ∨ ∃ t', written q t n = .ok (some t') := by
  obtain ⟨⟨deadlineAt, svixId, svixTimestamp⟩, hp⟩ := hprep
  obtain ⟨hadd, hid, hts⟩ := Enqueue.prepare_ok hp
  have hdeadline : timestampOk deadlineAt = true := addTime_eq_some hadd ▸ ha.deadlineAt
  have hcount : 0 ≤ wrapI32 q.destinations.length := by
    rw [hq.destinations, r.wrapI32_matched]
    exact Int.natCast_nonneg _
  obtain ⟨e, he⟩ : ∃ e, q.eventRow svixId svixTimestamp = .ok e :=
    newWebhookEvent_isOk.mpr ⟨textOk_headerToString hid, textOk_headerToString hts, ha.eventId,
      ha.eventType, headersToJson_ok ha.names, ha.receivedAt, hcount⟩
  obtain ⟨heid, hesvix, hets, -⟩ := newWebhookEvent_ok he
  by_cases hdup : ∃ x ∈ t.webhookEvents, x.sourceSvixId = e.sourceSvixId
  · have hbind : (q.eventRow svixId svixTimestamp >>= t.insertEvent) = .ok none :=
      bind_eq_ok.mpr ⟨e, he, Tables.insertEvent_duplicate hdup⟩
    exact .inl (by simp only [written, hp, hbind])
  · have hk : ∀ x ∈ t.webhookEvents, x.id ≠ e.id ∧ x.sourceSvixId ≠ e.sourceSvixId := by
      rw [heid]
      exact fun x hx => ⟨hf.event x hx, fun heq => hdup ⟨x, hx, heq⟩⟩
    obtain ⟨t₁, ht⟩ := Tables.insertEvent_ok hk
    obtain ⟨hevents, hjobs, -⟩ := Tables.insertEvent_inserted ht
    have htake : (q.destinations.take n).length ≤ q.destinations.length := by
      rw [List.length_take]
      exact Nat.min_le_right _ _
    obtain ⟨t₂, h₂⟩ := (@insertDeliveryJobs_isOk t₁ q deadlineAt 0 (q.destinations.take n)
      ⟨e, (Table.mem_append_one hevents).mpr (.inr rfl), heid⟩
      (fun j hj k hk => by
        rw [Nat.zero_add]
        exact hf.jobs j (hjobs ▸ hj) k (lt_of_lt_of_le hk htake))
      (fun a ha b hb => by
        rw [Nat.zero_add, Nat.zero_add]
        exact hf.distinct a (lt_of_lt_of_le ha htake) b (lt_of_lt_of_le hb htake))).mpr
      fun d hd => ⟨⟨hq.textOk_name d (List.mem_of_mem_take hd),
        ha.urls d (List.mem_of_mem_take hd)⟩, ha.receivedAt, hdeadline⟩
    refine .inr ⟨t₂, written_ok.mpr ⟨deadlineAt, e, t₁, ?_, ?_, ht, h₂⟩⟩
    · rw [hp, hesvix, hets]
    · rw [hesvix, hets, he]

/-- Past the event row no statement of an admissible call fails. -/
theorem written_succ_isOk {r : Request svc} (hq : Checked r q) (ha : Admissible q)
    (hf : FreshIds t q) (hprep : ∃ x, q.prepare = .ok x) (hw : written q t n = .ok (some t')) :
    ∃ u, written q t (n + 1) = .ok (some u) := by
  rcases written_isOk hq ha hf hprep (n + 1) with hnone | hsome
  · obtain ⟨x, hx, hid⟩ := written_conflict hnone
    obtain ⟨deadlineAt, e, t₁, hp, -, he, -⟩ := written_ok.mp hw
    obtain ⟨-, -, -, hk⟩ := Tables.insertEvent_inserted he
    rw [(Enqueue.prepare_ok hp).2.1, Option.some.injEq] at hid
    exact absurd hid.symm (hk x hx).2
  · exact hsome

def HandlerEvent.isStatement : HandlerEvent → Bool
  | .insertEvent => true
  | .insertDeliveryJob => true
  | .commit .answered => true
  | .rollback => true
  | .answer => true
  | _ => false

/-- Handlers execute their statements, and nothing else happens. -/
def statements : System.Guard (Intake svc) (IntakeAction svc) := fun _ a _ =>
  ∃ i event, a = .handler i event ∧ event.isStatement = true

theorem freshDraws_of_statements {a : IntakeAction svc} (h : statements w a w') :
    freshDraws w a w' := by
  rcases h with ⟨k, event, rfl, hs⟩
  intro i hi
  cases event with
  | check => cases hs
  | _ => cases hi

def Handler.rank (h : Handler svc) : ℕ :=
  match h.stage with
  | .begun q => q.destinations.length + 3
  | .writing q n => q.destinations.length - n + 2
  | .duplicate _ => 1
  | .committed _ => 1
  | _ => 0

/-- A statement of the call was refused. -/
def Refused (t : Tables) (h : Handler svc) (q : Enqueue) : Prop :=
  (h.stage = .begun q ∧ ∃ failure, written q t 0 = .error failure) ∨
    ∃ n, h.stage = .writing q n ∧ ∀ u, written q t (n + 1) ≠ .ok (some u)

/-- A statement brings a call closer to its answer, which is 202 unless it is refused. -/
theorem Handler.step_statement (hstep : h.step others t event = some (t', h'))
    (hs : event.isStatement = true) : ∃ q, h.stage.call = some q ∧ h'.rank < h.rank ∧
      (h'.stage.call = some q ∨ h'.stage = .answered 202 ∨
        h'.stage = .answered failureStatus ∧ Refused t h q) := by
  cases event with
  | insertEvent =>
    simp only [Handler.step] at hstep
    split at hstep
    case h_2 => cases hstep
    case h_1 q hq =>
      refine ⟨q, by rw [hq]; rfl, ?_⟩
      split at hstep
      case isTrue => cases hstep
      case isFalse =>
        split at hstep
        case h_1 failure hw =>
          cases hstep
          exact ⟨by simp [rank, answerWith, hq], .inr (.inr ⟨rfl, .inl ⟨hq, failure, hw⟩⟩)⟩
        case h_2 =>
          cases hstep
          exact ⟨by simp [rank, hq], .inl rfl⟩
        case h_3 =>
          cases hstep
          exact ⟨by simp [rank, hq], .inl rfl⟩
  | insertDeliveryJob =>
    simp only [Handler.step] at hstep
    split at hstep
    case h_2 => cases hstep
    case h_1 q n hq =>
      refine ⟨q, by rw [hq]; rfl, ?_⟩
      split at hstep
      case isTrue => cases hstep
      case isFalse hguard =>
        split at hstep
        case h_1 =>
          cases hstep
          refine ⟨?_, .inl rfl⟩
          simp only [rank, hq]
          omega
        case h_2 hw =>
          cases hstep
          exact ⟨by simp [rank, answerWith, hq], .inr (.inr ⟨rfl, .inr ⟨n, hq, hw⟩⟩)⟩
  | commit fate =>
    cases fate with
    | answered =>
      simp only [Handler.step] at hstep
      split at hstep
      case h_2 => cases hstep
      case h_1 q n hq =>
        refine ⟨q, by rw [hq]; rfl, ?_⟩
        split at hstep
        case isTrue => cases hstep
        case isFalse =>
          split at hstep
          case h_1 hfate => cases hfate
          case h_2 =>
            cases hstep
            exact ⟨by simp [rank, hq], .inl rfl⟩
          case h_3 hfate _ => cases hfate
          case h_4 => cases hstep
    | _ => cases hs
  | rollback =>
    simp only [Handler.step] at hstep
    split at hstep
    case h_2 => cases hstep
    case h_1 q hq =>
      cases hstep
      exact ⟨q, by rw [hq]; rfl, by simp [rank, answerWith, hq], .inr (.inl rfl)⟩
  | answer =>
    simp only [Handler.step] at hstep
    split at hstep
    case h_2 => cases hstep
    case h_1 q hq =>
      cases hstep
      exact ⟨q, by rw [hq]; rfl, by simp [rank, answerWith, hq], .inr (.inl rfl)⟩
  | _ => cases hs

theorem Stage.call_eq_some {stage : Stage} (h : stage.call = some q) :
    stage = .begun q ∨ (∃ n, stage = .writing q n) ∨ stage = .duplicate q ∨
      stage = .committed q := by
  cases stage <;> cases h <;> simp

theorem count_le_of_reachable (hw : (intake svc).Reachable System.free w) :
    ∀ h ∈ w.handlers, ∀ q n, h.stage = .writing q n → n ≤ q.destinations.length := by
  apply hw.invariant
  · simp [intake]
  · intro w a w' _ hi hstep _
    cases a with
    | arrive r =>
      cases hstep
      intro x hx q n hs
      rcases List.mem_append.mp hx with hx | hx
      · exact hi x hx q n hs
      · rw [List.mem_singleton.mp hx] at hs
        cases hs
    | handler i event =>
      obtain ⟨h, t, h', hm, hmove, rfl⟩ := Intake.step_handler hstep
      intro x hx q n hs
      rcases (mem_set_iff hm).mp hx with rfl | hx
      · cases hmove with
        | checked => cases hs
        | started =>
          cases hs
          exact Nat.zero_le _
        | conflicted => cases hs
        | added _ hn =>
          cases hs
          exact hn
        | committed _ _ _ hend => rcases hend with ⟨rfl, -⟩ | ⟨rfl, -⟩ <;> cases hs
        | acknowledged => cases hs
        | ended hgone => rcases hgone with rfl | ⟨status, rfl, -⟩ <;> cases hs
      · exact hi x ((mem_iff_eraseIdx hm).mpr (.inr hx)) q n hs
    | worker a =>
      obtain ⟨-, s, -, rfl⟩ := Intake.step_worker hstep
      exact hi

theorem free_of_draws (hw : (intake svc).Reachable freshDraws w) :
    (intake svc).Reachable System.free w :=
  System.Reaches.mono hw fun _ _ _ _ => trivial

/-- An open transaction waits for nobody: its keys are drawn for it alone. -/
theorem writing_enabled (hw : (intake svc).Reachable freshDraws w) (hm : w.handlers[i]? = some h)
    (hs : h.stage = .writing q n) :
    ∃ event w', event.isStatement = true ∧ w.step (.handler i event) = some w' := by
  by_cases hn : n < q.destinations.length
  · have hunblocked : (w.handlers.eraseIdx i).any (·.holdsJob (q.jobIds n)) = false := by
      rw [List.any_eq_false]
      intro x hx
      simp only [Handler.holdsJob]
      split
      case h_2 => exact Bool.false_ne_true
      case h_1 q' c hx' =>
        obtain ⟨k, hki, hk⟩ := List.mem_eraseIdx_iff_getElem?.mp hx
        have hapart := (drawInv_of_reachable hw).apart i k h x q q' (Ne.symm hki) hm hk
          (by rw [hs]; rfl) (by rw [hx']; rfl)
        have hc := count_le_of_reachable (free_of_draws hw) x (List.mem_of_getElem? hk) q' c hx'
        simp only [List.any_eq_true, List.mem_range, decide_eq_true_eq, not_exists, not_and]
        intro b hb
        exact ((idsApart_eq_true.mp hapart).2 n hn b (lt_of_lt_of_le hb hc)).symm
    refine ⟨.insertDeliveryJob, ?_⟩
    simp only [Intake.step, hm, Handler.step, hs, hunblocked, not_le.mpr hn, Bool.false_eq_true,
      or_self, if_false]
    split
    · exact ⟨_, rfl, rfl⟩
    · exact ⟨_, rfl, rfl⟩
  · obtain ⟨w', hw'⟩ := commit_enabled (free_of_draws hw) hm hs (not_lt.mp hn)
    exact ⟨_, w', rfl, hw'⟩

/-- While a call is open, some handler can execute a statement. -/
theorem statement_enabled (hw : (intake svc).Reachable freshDraws w) (hm : w.handlers[i]? = some h)
    (hc : h.stage.call = some q) :
    ∃ k event w', event.isStatement = true ∧ w.step (.handler k event) = some w' := by
  by_cases hopen : ∃ (k : ℕ) (x : Handler svc) (q' : Enqueue) (n : ℕ),
      w.handlers[k]? = some x ∧ x.stage = .writing q' n
  · obtain ⟨k, x, q', n, hk, hx⟩ := hopen
    exact ⟨k, writing_enabled hw hk hx⟩
  · refine ⟨i, ?_⟩
    rcases Stage.call_eq_some hc with hs | ⟨n, hs⟩ | hs | hs
    · -- no transaction is open, so the svix-id is not taken
      have hunblocked : (w.handlers.eraseIdx i).any (·.holdsEvent q) = false := by
        rw [List.any_eq_false]
        intro x hx
        simp only [Handler.holdsEvent]
        split
        case h_2 => exact Bool.false_ne_true
        case h_1 q' n hx' =>
          obtain ⟨k, -, hk⟩ := List.mem_eraseIdx_iff_getElem?.mp hx
          exact absurd ⟨k, x, q', n, hk, hx'⟩ hopen
      refine ⟨.insertEvent, ?_⟩
      simp only [Intake.step, hm, Handler.step, hs, hunblocked, Bool.false_eq_true, if_false]
      split
      · exact ⟨_, rfl, rfl⟩
      · exact ⟨_, rfl, rfl⟩
      · exact ⟨_, rfl, rfl⟩
    · exact absurd ⟨i, h, q, n, hm, hs⟩ hopen
    · refine ⟨.rollback, ?_⟩
      simp only [Intake.step, hm, Handler.step, hs]
      exact ⟨_, rfl, rfl⟩
    · refine ⟨.answer, ?_⟩
      simp only [Intake.step, hm, Handler.step, hs]
      exact ⟨_, rfl, rfl⟩

/-- Where a call ends up: 202, or a failure of a call that is not admissible. -/
def Settled (q : Enqueue) (stage : Stage) : Prop :=
  stage = .answered 202 ∨ stage = .answered failureStatus ∧ ¬ Admissible q

theorem Settled.call_eq_none {stage : Stage} (h : Settled q stage) : stage.call = none := by
  rcases h with rfl | ⟨rfl, -⟩ <;> rfl

/-- A refused statement has met a value that a column does not admit. -/
theorem not_admissible (hw : (intake svc).Reachable freshDraws w) (hm : w.handlers[i]? = some h)
    (hr : Refused w.store.tables h q) : ¬ Admissible q := by
  intro ha
  have hmem := List.mem_of_getElem? hm
  have hself := (intakeInv_of_reachable (free_of_draws hw)).handlers h hmem
  have hfresh := (drawInv_of_reachable hw).fresh h hmem q
  rcases hr with ⟨hs, failure, hfail⟩ | ⟨n, hs, hfail⟩
  · obtain ⟨hf, hprep⟩ := hfresh (by rw [hs]; rfl)
    rcases written_isOk (hself.begun q hs) ha hf hprep 0 with hnone | ⟨t', ht'⟩
    · rw [hfail] at hnone
      cases hnone
    · rw [hfail] at ht'
      cases ht'
  · obtain ⟨hf, hprep⟩ := hfresh (by rw [hs]; rfl)
    obtain ⟨hq, t', ht'⟩ := hself.writing q n hs
    obtain ⟨u, hu⟩ := written_succ_isOk hq ha hf hprep ht'
    exact hfail u hu

theorem settles (hw : (intake svc).Reachable freshDraws w)
    (hww' : (intake svc).Reaches statements w w') (hm : w.handlers[i]? = some h)
    (hc : h.stage.call = some q) :
    ∃ h', w'.handlers[i]? = some h' ∧ (h'.stage.call = some q ∨ Settled q h'.stage) := by
  have hall : (intake svc).Reachable freshDraws w' ∧
      ∃ h', w'.handlers[i]? = some h' ∧ (h'.stage.call = some q ∨ Settled q h'.stage) := by
    apply hww'.invariant (I := fun v => (intake svc).Reachable freshDraws v ∧
      ∃ h', v.handlers[i]? = some h' ∧ (h'.stage.call = some q ∨ Settled q h'.stage))
    · exact ⟨hw, h, hm, .inl hc⟩
    · rintro v a v' ⟨hv, x, hx, hcall⟩ hstep hst
      refine ⟨hv.step hstep (freshDraws_of_statements hst), ?_⟩
      obtain ⟨k, event, rfl, hs⟩ := hst
      obtain ⟨y, t, y', hy, hmove, rfl⟩ := Intake.handler_step hstep
      by_cases hik : i = k
      · subst hik
        obtain rfl := eq_of_getElem? hx hy
        refine ⟨y', (getElem?_set_some hx).mpr (.inl ⟨rfl, rfl⟩), ?_⟩
        obtain ⟨q', hq', -, hnext⟩ := Handler.step_statement hmove hs
        rcases hcall with hcall | hsettled
        · obtain rfl : q = q' := by rwa [hcall, Option.some.injEq] at hq'
          rcases hnext with hnext | hnext | ⟨hnext, hr⟩
          · exact .inl hnext
          · exact .inr (.inl hnext)
          · exact .inr (.inr ⟨hnext, not_admissible hv hx hr⟩)
        · rw [hsettled.call_eq_none] at hq'
          cases hq'
      · exact ⟨x, (getElem?_set_some hy).mpr (.inr ⟨hik, hx⟩), hcall⟩
  exact hall.2

/-- Open requests do not block each other: from every reachable state the statements of the
handlers alone bring every open call to its answer, which is 202 for an admissible call. -/
theorem open_requests_answered (hw : (intake svc).Reachable freshDraws w) :
    ∃ w', (intake svc).Reaches statements w w' ∧ (∀ h ∈ w'.handlers, h.stage.call = none) ∧
      ∀ (i : ℕ) (h : Handler svc) (q : Enqueue), w.handlers[i]? = some h →
        h.stage.call = some q → ∃ h', w'.handlers[i]? = some h' ∧ Settled q h'.stage := by
  obtain ⟨w', hww', hdone⟩ := System.Reachable.exists_goal
    (P := fun v : Intake svc => ∀ h ∈ v.handlers, h.stage.call = none)
    (fun v : Intake svc => (v.handlers.map Handler.rank).sum)
    (fun _ _ _ h => freshDraws_of_statements h) hw (by
      intro v hv hnot
      simp only [not_forall] at hnot
      obtain ⟨x, hx, hcall⟩ := hnot
      obtain ⟨q, hq⟩ := Option.ne_none_iff_exists'.mp hcall
      obtain ⟨k, hk⟩ := List.mem_iff_getElem?.mp hx
      obtain ⟨l, event, v', hs, hstep⟩ := statement_enabled hv hk hq
      refine ⟨v', .single ⟨.handler l event, hstep, l, event, rfl, hs⟩, ?_⟩
      obtain ⟨y, t, y', hy, hmove, rfl⟩ := Intake.handler_step hstep
      obtain ⟨-, -, hlt, -⟩ := Handler.step_statement hmove hs
      exact sum_map_set_lt Handler.rank hy hlt)
  refine ⟨w', hww', hdone, fun i h q hm hc => ?_⟩
  obtain ⟨h', hm', hcall | hsettled⟩ := settles hw hww' hm hc
  · rw [hdone h' (List.mem_of_getElem? hm')] at hcall
    cases hcall
  · exact ⟨h', hm', hsettled⟩

/-- The first redelivery waits between its INSERTs, and the second one for the first. -/
theorem open_requests_answered_raced : ∃ w w', (intake sampleServices).Reachable freshDraws w ∧
    w.handlers.map (·.stage.call.isSome) = [true, true, true] ∧
    (intake sampleServices).Reaches statements w w' ∧
    ∀ h ∈ w'.handlers, h.stage.call = none := by
  obtain ⟨w, hw, hp⟩ := System.exists_reachable_of_run (intake sampleServices) freshDraws
    (raced.take 10) (fun w => w.handlers.map (·.stage.call.isSome) = [true, true, true])
    (by decide)
  rw [decide_eq_true_eq] at hp
  obtain ⟨w', hww', hdone, -⟩ := open_requests_answered hw
  exact ⟨w, w', hw, hp, hww', hdone⟩

end ResendRouter.Ingest
