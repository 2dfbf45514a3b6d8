import ResendRouter.Service.Recorders
import ResendRouter.Ingest.ExactlyOnce

/-! # Record calls take effect at once

The row lock and the unique key make the statements of a record call look like
one atomic call: what it commits is what the atomic call writes, and what it
answers is what the atomic call answers at some moment of its execution.
-/

namespace ResendRouter.Service
open Foundation Program Database Ingest

variable {svc : Services} {others : List Recorder} {s s' : Store} {t t' t₁ : Tables}
  {r r' : Recorder} {a : DeliveryAttempt} {j row : DeliveryJob} {w w' : Connections svc}
  {event : RecordEvent} {i k : ℕ}

theorem updateJobs_congr {p q : DeliveryJob → Bool} {f g : DeliveryJob → DeliveryJob}
    {hid : ∀ j, (f j).id = j.id} {hev : ∀ j, (f j).eventId = j.eventId}
    {hid' : ∀ j, (g j).id = j.id} {hev' : ∀ j, (g j).eventId = j.eventId}
    (h : ∀ j ∈ t.deliveryJobs, (if p j then f j else j) = if q j then g j else j) :
    t.updateJobs p f hid hev = t.updateJobs q g hid' hev' := by
  have hrows : t.deliveryJobs.updateWhere p f hid = t.deliveryJobs.updateWhere q g hid' := by
    apply Table.ext
    exact List.map_congr_left h
  simp only [Tables.updateJobs, hrows]

theorem run_refused {e : DbError} (h : r.attempt = .error e) :
    r.call.run t r.job r.now = ⟨.error e, t⟩ := by
  rw [Recorder.attempt] at h
  simp only [RecordCall.run_eq, recordOutcome, h]
  rfl

theorem run_taken {e : DbError} (h : r.attempt = .ok a) (ht : t.insertAttempt a = .error e) :
    r.call.run t r.job r.now = ⟨.error e, t⟩ := by
  rw [Recorder.attempt] at h
  simp only [RecordCall.run_eq, recordOutcome, h, ht]
  rfl

theorem run_missed (h : r.attempt = .ok a) (ht : t.insertAttempt a = .ok t₁)
    (hno : ∀ j ∈ t.deliveryJobs, lockedRow r.job j = false) :
    r.call.run t r.job r.now = ⟨.ok false, t⟩ := by
  have hz : t₁.deliveryJobs.affected (lockedRow r.job) = 0 := by
    rw [(Tables.insertAttempt_inserted ht).2.2.1]
    exact Table.affected_eq_zero.mpr hno
  rw [Recorder.attempt] at h
  simp only [RecordCall.run_eq, recordOutcome, h, ht, if_pos hz]
  rfl

/-- The new version, computed from the row under the lock, is what the atomic call writes. -/
theorem run_installed (h : r.attempt = .ok a) (hj : j ∈ t.deliveryJobs)
    (hl : lockedRow r.job j = true)
    (ht : installed t a (r.call.outcome.row a r.now j) = .ok t') :
    r.call.run t r.job r.now = ⟨.ok true, t'⟩ := by
  obtain ⟨t₁, ht₁, ht⟩ := bind_eq_ok.mp ht
  cases ht
  obtain ⟨-, -, hjobs, -⟩ := Tables.insertAttempt_inserted ht₁
  have hz : t₁.deliveryJobs.affected (lockedRow r.job) ≠ 0 := by
    rw [hjobs, ne_eq, Table.affected_eq_zero]
    exact fun hno => by simp [hno j hj] at hl
  have hsame : t₁.updateJobs (lockedRow r.job) (r.call.outcome.row a r.now)
      (r.call.outcome.row_id a r.now) (r.call.outcome.row_eventId a r.now) =
      t₁.updateJobs (·.id = (r.call.outcome.row a r.now j).id)
        (overwrite (r.call.outcome.row a r.now j)) (fun _ => rfl) fun _ => rfl := by
    apply updateJobs_congr
    intro k hk
    rw [hjobs] at hk
    rw [Outcome.row_id]
    by_cases hid : k.id = j.id
    · obtain rfl := Table.eq_of_key_eq hk hj hid
      simp only [hl, decide_true, if_true]
      rfl
    · have hno : lockedRow r.job k = false := by
        rw [← Bool.not_eq_true, lockedRow_iff]
        exact fun hk => hid (hk.1.trans (lockedRow_iff.mp hl).1.symm)
      simp [hno, hid]
  rw [Recorder.attempt] at h
  simp only [RecordCall.run_eq, recordOutcome, h, ht₁, if_neg hz, hsame]
  rfl

/-- All that one step of a record call can do to the committed tables and to itself. -/
inductive RecordMove (others : List Recorder) (t : Tables) (r : Recorder) (event : RecordEvent) :
    Tables → Recorder → Prop where
  | refused {e : DbError} (hs : r.stage = .begun)
      (hr : r.call.run t r.job r.now = ⟨.error e, t⟩) :
      RecordMove others t r event t { r with stage := .returned (.error e) }
  | inserted {a : DeliveryAttempt} {t₁ : Tables} (hs : r.stage = .begun) (ha : r.attempt = .ok a)
      (ht : t.insertAttempt a = .ok t₁) (ho : ∀ r' ∈ others, r'.heldKey ≠ some a.key) :
      RecordMove others t r event t { r with stage := .inserted a }
  | missed {a : DeliveryAttempt} (hs : r.stage = .inserted a)
      (hno : ∀ j ∈ t.deliveryJobs, lockedRow r.job j = false) :
      RecordMove others t r event t { r with stage := .unaffected }
  | updated {a : DeliveryAttempt} {j : DeliveryJob} (hs : r.stage = .inserted a)
      (hj : j ∈ t.deliveryJobs) (hl : lockedRow r.job j = true)
      (ho : ∀ r' ∈ others, r'.heldRow ≠ some r.job.id) :
      RecordMove others t r event t { r with stage := .updated a (r.call.outcome.row a r.now j) }
  | committed {a : DeliveryAttempt} {row : DeliveryJob} {t' : Tables} {stage : RecordStage}
      (hs : r.stage = .updated a row) (ht : installed t a row = .ok t')
      (hend : stage = .returned (.ok true) ∨ stage = .cut ∧ event.isStatement = false) :
      RecordMove others t r event t' { r with stage := stage }
  | rolledBack (hs : r.stage = .unaffected) :
      RecordMove others t r event t { r with stage := .returned (.ok false) }
  | cut (hs : r.stage.isOpen = true) (he : event.isStatement = false) :
      RecordMove others t r event t { r with stage := .cut }

theorem Recorder.step_moves (h : r.step others t event = some (t', r')) :
    RecordMove others t r event t' r' := by
  have hnone : ∀ {p : Recorder → Bool}, ¬ others.any p = true → ∀ r' ∈ others, p r' = false := by
    intro p hp r' hr'
    exact Bool.not_eq_true _ ▸ fun h => hp (List.any_eq_true.mpr ⟨r', hr', h⟩)
  cases event with
  | insertAttempt =>
    simp only [Recorder.step] at h
    split at h
    case h_2 => cases h
    case h_1 hs =>
      split at h
      case h_1 e ha =>
        cases h
        exact .refused hs (run_refused ha)
      case h_2 a ha =>
        split at h
        case isTrue => cases h
        case isFalse ho =>
          split at h
          case h_1 e ht =>
            cases h
            exact .refused hs (run_taken ha ht)
          case h_2 t₁ ht =>
            cases h
            exact .inserted hs ha ht fun r' hr' => by simpa using hnone ho r' hr'
  | updateJob =>
    simp only [Recorder.step] at h
    split at h
    case h_2 => cases h
    case h_1 a hs =>
      split at h
      case isTrue => cases h
      case isFalse ho =>
        split at h
        case h_1 hf =>
          cases h
          refine .missed hs fun j hj => ?_
          simpa using List.find?_eq_none.mp hf j hj
        case h_2 j hf =>
          cases h
          exact .updated hs (List.mem_of_find?_eq_some hf) (List.find?_some hf)
            fun r' hr' => by simpa using hnone ho r' hr'
  | commit fate =>
    simp only [Recorder.step] at h
    split at h
    case h_2 => cases h
    case h_1 a row hs =>
      split at h
      case h_1 =>
        cases h
        exact .cut (by rw [hs]; rfl) rfl
      case h_2 ht =>
        cases h
        exact .committed hs ht (.inl rfl)
      case h_3 ht =>
        cases h
        exact .committed hs ht (.inr ⟨rfl, rfl⟩)
      case h_4 => cases h
  | rollback =>
    simp only [Recorder.step] at h
    split at h
    case h_2 => cases h
    case h_1 hs =>
      cases h
      exact .rolledBack hs
  | cut =>
    simp only [Recorder.step] at h
    split_ifs at h with hs
    cases h
    exact .cut hs rfl

structure Recorder.Same (r r' : Recorder) : Prop where
  snapshot : r'.snapshot = r.snapshot
  job : r'.job = r.job
  call : r'.call = r.call
  now : r'.now = r.now

theorem Recorder.Same.trans {x y z : Recorder} (h : x.Same y) (h' : y.Same z) : x.Same z :=
  ⟨h'.snapshot.trans h.snapshot, h'.job.trans h.job, h'.call.trans h.call, h'.now.trans h.now⟩

theorem RecordMove.same (h : RecordMove others t r event t' r') : r.Same r' := by
  cases h <;> exact ⟨rfl, rfl, rfl, rfl⟩

/-- What holds of a record call at any position. -/
structure RecorderInv (s : Store) (r : Recorder) : Prop where
  snapshot : s.claimed[r.snapshot]? = some r.job
  made : ∀ a, r.stage = .inserted a → r.attempt = .ok a
  /-- The number of the attempt is free until the end of the transaction. -/
  free : ∀ key, r.heldKey = some key → ∀ b ∈ s.tables.deliveryAttempts, b.key ≠ key
  /-- The new version was computed from the row as it still is. -/
  locked : ∀ a row, r.stage = .updated a row → r.attempt = .ok a ∧
    ∃ j ∈ s.tables.deliveryJobs, lockedRow r.job j = true ∧ row = r.call.outcome.row a r.now j

structure ConnectionsInv (w : Connections svc) : Prop where
  recorders : ∀ r ∈ w.recorders, RecorderInv w.intake.store r
  keys : Exclusive Recorder.heldKey w.recorders
  rows : Exclusive Recorder.heldRow w.recorders

/-- A change of the store that leaves alone what a record call relies on. -/
theorem RecorderInv.frame (hi : RecorderInv s r)
    (hclaimed : ∀ (k : ℕ) (job : ClaimedJob), s.claimed[k]? = some job → s'.claimed[k]? = some job)
    (hattempts : ∀ b ∈ s'.tables.deliveryAttempts,
      b ∈ s.tables.deliveryAttempts ∨ r.heldKey ≠ some b.key)
    (hjobs : ∀ j ∈ s.tables.deliveryJobs, r.heldRow = some j.id → j ∈ s'.tables.deliveryJobs) :
    RecorderInv s' r where
  snapshot := hclaimed _ _ hi.snapshot
  made := hi.made
  free key hk b hb := by
    rcases hattempts b hb with hb | hne
    · exact hi.free key hk b hb
    · rintro rfl
      exact hne hk
  locked a row hs := by
    obtain ⟨ha, j, hj, hl, hrow⟩ := hi.locked a row hs
    refine ⟨ha, j, hjobs j hj ?_, hl, hrow⟩
    simp only [Recorder.heldRow, hs, hrow, Outcome.row_id]

structure Frame (w w' : Connections svc) : Prop where
  recorders : w'.recorders = w.recorders
  claimed : ∀ (k : ℕ) (job : ClaimedJob), w.intake.store.claimed[k]? = some job →
    w'.intake.store.claimed[k]? = some job
  attempts : w'.intake.store.tables.deliveryAttempts = w.intake.store.tables.deliveryAttempts
  jobs : ∀ r ∈ w.recorders, ∀ j ∈ w.intake.store.tables.deliveryJobs, r.heldRow = some j.id →
    j ∈ w'.intake.store.tables.deliveryJobs

theorem not_mem_picked {limit stale : ℤ} {now : Time} {skip : List Uuid} {id : Uuid}
    (h : id ∈ skip) : id ∉ picked t limit stale now skip := by
  intro hp
  simp only [picked, List.mem_map] at hp
  rcases hp with ⟨j, hj, rfl⟩
  have hf := (List.mem_insertionSort _).mp (List.mem_of_mem_take hj)
  simp only [List.mem_filter, Bool.and_eq_true, Bool.not_eq_true', List.contains_eq_mem,
    decide_eq_false_iff_not] at hf
  exact hf.2.2 h

theorem claimDueJobs_skipped {workerId : String} {limit stale : ℤ} {now : Time} {skip : List Uuid}
    (hj : j ∈ t.deliveryJobs) (hskip : j.id ∈ skip) :
    j ∈ (claimDueJobs t workerId limit stale now skip).tables.deliveryJobs := by
  simp only [claimDueJobs]
  split_ifs
  · exact hj
  · exact hj
  · exact hj
  · rw [claimTables, Tables.mem_updateJobs]
    refine ⟨j, hj, ?_⟩
    rw [if_neg]
    simpa using not_mem_picked hskip

theorem claimDueJobs_attempts (workerId : String) (limit stale : ℤ) (now : Time)
    (skip : List Uuid) : (claimDueJobs t workerId limit stale now skip).tables.deliveryAttempts =
      t.deliveryAttempts := by
  rcases claimDueJobs_cases t workerId limit stale now skip with ⟨e, h⟩ | ⟨jobs, t', h, hc⟩
  · rw [h]
  · rw [h]
    exact hc.attempts

theorem updateUrl_frame {job : ClaimedJob} (url : String) :
    (updateClaimedJobDestinationUrl t job url).tables.deliveryAttempts = t.deliveryAttempts ∧
      ∀ j ∈ t.deliveryJobs, j.id ≠ job.id →
        j ∈ (updateClaimedJobDestinationUrl t job url).tables.deliveryJobs := by
  rcases updateUrl_cases t job url with ⟨h, -⟩ | ⟨-, -, h⟩
  · rw [h]
    exact ⟨rfl, fun j hj _ => hj⟩
  · refine ⟨h.attempts, fun j hj hne => (h.rows j).mpr ⟨j, hj, ?_⟩⟩
    rw [if_neg]
    exact fun hl => hne (lockedRow_iff.mp hl).1

theorem Frame.handler {event : HandlerEvent} {v : Intake svc}
    (h : w.intake.step (.handler i event) = some v) : Frame w { w with intake := v } := by
  obtain ⟨h, t, h', hm, hmove, rfl⟩ := Intake.step_handler h
  refine ⟨rfl, fun _ _ hk => hk, ?_, fun r _ j hj _ => ?_⟩
  · cases hmove with
    | committed hs hn hw hend =>
      obtain ⟨e, deadlineAt, js, henq⟩ := enqueued_of_written hw hn
      exact henq.attempts
    | _ => rfl
  · cases hmove with
    | committed hs hn hw hend =>
      obtain ⟨e, deadlineAt, js, henq⟩ := enqueued_of_written hw hn
      exact henq.mem_jobs.mpr (.inl hj)
    | _ => exact hj

/-- An admitted call of a worker leaves the locked rows alone. -/
theorem Frame.worker {action : DbAction} {v : Intake svc} (ha : w.admits action = true)
    (h : w.intake.step (.worker action) = some v) : Frame w { w with intake := v } := by
  obtain ⟨hno, s, hs, rfl⟩ := Intake.step_worker h
  cases action with
  | enqueueEvent q => exact absurd rfl (hno q)
  | record k call now => cases ha
  | aborted =>
    cases hs
    exact ⟨rfl, fun _ _ hk => hk, rfl, fun _ _ _ hj _ => hj⟩
  | claimDueJobs workerId limit stale now skip =>
    cases hs
    refine ⟨rfl, fun k job hk => getElem?_append_old hk, claimDueJobs_attempts .., ?_⟩
    intro r hr j hj hrow
    have hskip := List.all_eq_true.mp ha r hr
    rw [hrow] at hskip
    exact claimDueJobs_skipped hj (by simpa using hskip)
  | updateClaimedJobDestinationUrl k url =>
    obtain ⟨job, hjob, rfl⟩ := Option.map_eq_some_iff.mp hs
    refine ⟨rfl, fun _ _ hk => hk, (updateUrl_frame url).1, fun r hr j hj hrow => ?_⟩
    refine (updateUrl_frame url).2 j hj ?_
    rintro hid
    simp only [Connections.admits, hjob, Option.all_some, Connections.holdsRow, Bool.not_eq_true',
      List.any_eq_false, decide_eq_true_eq] at ha
    exact ha r hr (hid ▸ hrow)

theorem ConnectionsInv.frame (hi : ConnectionsInv w) (h : Frame w w') : ConnectionsInv w' where
  recorders r hr := by
    rw [h.recorders] at hr
    exact (hi.recorders r hr).frame h.claimed (fun b hb => .inl (h.attempts ▸ hb)) (h.jobs r hr)
  keys := h.recorders ▸ hi.keys
  rows := h.recorders ▸ hi.rows

theorem ConnectionsInv.replace (hi : ConnectionsInv w) (hm : w.recorders[i]? = some r)
    (hothers : ∀ x ∈ w.recorders.eraseIdx i, RecorderInv s x) (hself : RecorderInv s r')
    (hkeys : ∀ key, r'.heldKey = some key → ∀ x ∈ w.recorders.eraseIdx i, x.heldKey ≠ some key)
    (hrows : ∀ id, r'.heldRow = some id → ∀ x ∈ w.recorders.eraseIdx i, x.heldRow ≠ some id) :
    ConnectionsInv ⟨{ w.intake with store := s }, w.recorders.set i r'⟩ where
  recorders x hx := by
    rcases (mem_set_iff hm).mp hx with rfl | hx
    · exact hself
    · exact hothers x hx
  keys := hi.keys.set hm hkeys
  rows := hi.rows.set hm hrows

theorem RecorderInv.released (hi : RecorderInv s r) {stage : RecordStage}
    (hs : ∀ a, stage ≠ .inserted a) (hu : ∀ a row, stage ≠ .updated a row) :
    RecorderInv s { r with stage := stage } ∧ { r with stage := stage }.heldKey = none ∧
      { r with stage := stage }.heldRow = none := by
  have hkey : { r with stage := stage }.heldKey = none := by
    cases stage with
    | inserted a => exact absurd rfl (hs a)
    | updated a row => exact absurd rfl (hu a row)
    | _ => rfl
  have hrow : { r with stage := stage }.heldRow = none := by
    cases stage with
    | updated a row => exact absurd rfl (hu a row)
    | _ => rfl
  refine ⟨⟨hi.snapshot, fun a h => absurd h (hs a), fun key h => ?_, fun a row h =>
    absurd h (hu a row)⟩, hkey, hrow⟩
  rw [hkey] at h
  cases h

/-- What a commit makes visible, row by row. -/
theorem installed_ok (h : installed t a row = .ok t') :
    (∀ b, b ∈ t'.deliveryAttempts ↔ b ∈ t.deliveryAttempts ∨ b = a) ∧
      ∀ j ∈ t.deliveryJobs, j.id ≠ row.id → j ∈ t'.deliveryJobs := by
  obtain ⟨t₁, ht₁, h⟩ := bind_eq_ok.mp h
  cases h
  obtain ⟨hattempts, -, hjobs, -⟩ := Tables.insertAttempt_inserted ht₁
  refine ⟨fun b => Table.mem_append_one hattempts, fun j hj hne => ?_⟩
  apply Tables.mem_updateJobs.mpr
  rw [hjobs]
  exact ⟨j, hj, by simp [hne]⟩

theorem ConnectionsInv.move (hi : ConnectionsInv w) (hm : w.recorders[i]? = some r)
    (h : RecordMove (w.recorders.eraseIdx i) w.intake.store.tables r event t r') :
    ConnectionsInv ⟨{ w.intake with store := { w.intake.store with tables := t } },
      w.recorders.set i r'⟩ := by
  have hself := hi.recorders r (List.mem_of_getElem? hm)
  have hothers : ∀ x ∈ w.recorders.eraseIdx i, RecorderInv w.intake.store x :=
    fun x hx => hi.recorders x ((mem_iff_eraseIdx hm).mpr (.inr hx))
  -- a step that leaves the tables alone and ends with nothing held
  have hrelease : ∀ stage : RecordStage, (∀ a, stage ≠ .inserted a) →
      (∀ a row, stage ≠ .updated a row) →
      ConnectionsInv ⟨w.intake, w.recorders.set i { r with stage := stage }⟩ := by
    intro stage hs hu
    obtain ⟨hnew, hkey, hrow⟩ := hself.released hs hu
    exact hi.replace (s := w.intake.store) hm hothers hnew (by simp [hkey]) (by simp [hrow])
  cases h with
  | refused => exact hrelease _ (by simp) (by simp)
  | missed => exact hrelease _ (by simp) (by simp)
  | rolledBack => exact hrelease _ (by simp) (by simp)
  | cut => exact hrelease _ (by simp) (by simp)
  | @inserted a t₁ hs ha ht ho =>
    refine hi.replace (s := w.intake.store) hm hothers ?_ ?_ (by simp [Recorder.heldRow])
    · refine ⟨hself.snapshot, ?_, ?_, by simp⟩
      · rintro b ⟨⟩
        exact ha
      · rintro key ⟨⟩ b hb
        exact (Tables.insertAttempt_inserted ht).2.2.2.1 b hb
    · rintro key ⟨⟩
      exact ho
  | @updated a j hs hj hl ho =>
    have hkey : r.heldKey = some a.key := by rw [Recorder.heldKey, hs]
    refine hi.replace (s := w.intake.store) hm hothers ?_ ?_ ?_
    · refine ⟨hself.snapshot, by simp, ?_, ?_⟩
      · rintro key ⟨⟩
        exact hself.free _ hkey
      · rintro b row ⟨⟩
        exact ⟨hself.made a hs, j, hj, hl, rfl⟩
    · rintro key ⟨⟩
      exact hi.keys.others hm hkey
    · rintro id ⟨⟩
      rw [Outcome.row_id, (lockedRow_iff.mp hl).1]
      exact ho
  | @committed a row _ stage hs ht hend =>
    have hkey : r.heldKey = some a.key := by rw [Recorder.heldKey, hs]
    have hrow : r.heldRow = some row.id := by rw [Recorder.heldRow, hs]
    obtain ⟨hattempts, hjobs⟩ := installed_ok ht
    have hopen : (∀ a, stage ≠ .inserted a) ∧ ∀ a row, stage ≠ .updated a row := by
      rcases hend with rfl | ⟨rfl, -⟩ <;> simp
    have hclosed : RecorderInv ⟨t, w.intake.store.claimed⟩ { r with stage := .cut } := by
      refine ⟨hself.snapshot, by simp, ?_, by simp⟩
      rintro key ⟨⟩
    obtain ⟨hnew, hnokey, hnorow⟩ := hclosed.released hopen.1 hopen.2
    refine hi.replace (s := ⟨t, w.intake.store.claimed⟩) hm (fun x hx => ?_) hnew
      (by simp [hnokey]) (by simp [hnorow])
    refine (hothers x hx).frame (fun _ _ hk => hk) (fun b hb => ?_) fun j hj hx' => ?_
    · rcases (hattempts b).mp hb with hb | rfl
      · exact .inl hb
      · exact .inr (hi.keys.others hm hkey x hx)
    · refine hjobs j hj ?_
      rintro hid
      exact hi.rows.others hm hrow x hx (hid ▸ hx')

inductive Connections.Moves (w : Connections svc) : Connections svc → Prop where
  | intake {a : IntakeAction svc} {v : Intake svc} (hv : w.intake.step a = some v)
      (hf : Frame w { w with intake := v }) : Moves w { w with intake := v }
  | called {snapshot : ℕ} {job : ClaimedJob} (call : RecordCall) (now : Time)
      (hjob : w.intake.store.claimed[snapshot]? = some job) :
      Moves w { w with recorders := w.recorders ++ [⟨snapshot, job, call, now, .begun⟩] }
  | recorder {i : ℕ} {r r' : Recorder} {event : RecordEvent} {t : Tables}
      (hm : w.recorders[i]? = some r)
      (h : RecordMove (w.recorders.eraseIdx i) w.intake.store.tables r event t r') :
      Moves w ⟨{ w.intake with store := { w.intake.store with tables := t } },
        w.recorders.set i r'⟩

theorem Connections.recorder_step (h : w.step (.recorder i event) = some w') :
    ∃ r p, w.recorders[i]? = some r ∧
      r.step (w.recorders.eraseIdx i) w.intake.store.tables event = some p ∧
      w' = ⟨{ w.intake with store := { w.intake.store with tables := p.1 } },
        w.recorders.set i p.2⟩ := by
  simp only [Connections.step] at h
  split at h
  case h_1 => cases h
  case h_2 r hm =>
    obtain ⟨p, hp, rfl⟩ := Option.map_eq_some_iff.mp h
    exact ⟨r, p, hm, hp, rfl⟩

theorem Connections.step_moves {action : ConnectionsAction svc} (h : w.step action = some w') :
    w.Moves w' := by
  cases action with
  | intake a =>
    cases a with
    | worker a =>
      simp only [Connections.step] at h
      split_ifs at h with ha
      obtain ⟨v, hv, rfl⟩ := Option.map_eq_some_iff.mp h
      exact .intake hv (.worker ha hv)
    | arrive request =>
      cases h
      exact .intake (a := .arrive request) rfl
        ⟨rfl, fun _ _ hk => hk, rfl, fun _ _ _ hj _ => hj⟩
    | handler i event =>
      obtain ⟨v, hv, rfl⟩ := Option.map_eq_some_iff.mp h
      exact .intake hv (.handler hv)
  | call snapshot call now =>
    obtain ⟨job, hjob, rfl⟩ := Option.map_eq_some_iff.mp h
    exact .called call now hjob
  | recorder i event =>
    obtain ⟨r, p, hm, hp, rfl⟩ := Connections.recorder_step h
    exact .recorder hm (Recorder.step_moves hp)

theorem ConnectionsInv.step (hi : ConnectionsInv w) (h : w.Moves w') : ConnectionsInv w' := by
  cases h with
  | intake hv hf => exact hi.frame hf
  | recorder hm h => exact hi.move hm h
  | @called snapshot job call now hjob =>
    refine ⟨fun r hr => ?_, hi.keys.append rfl, hi.rows.append rfl⟩
    rcases List.mem_append.mp hr with hr | hr
    · exact hi.recorders r hr
    · rw [List.mem_singleton.mp hr]
      exact ⟨hjob, by simp, by simp [Recorder.heldKey], by simp⟩

theorem connectionsInv_of_reachable (hw : (connections svc).Reachable System.free w) :
    ConnectionsInv w := by
  apply hw.invariant
  · exact ⟨by simp [connections], Exclusive.nil, Exclusive.nil⟩
  · intro w a w' _ hi hstep _
    exact hi.step (Connections.step_moves hstep)

/-- The locked row and the free number make the new version the one of the atomic call. -/
theorem RecorderInv.run_installed (hi : RecorderInv s r) (hs : r.stage = .updated a row)
    (ht : installed s.tables a row = .ok t) :
    r.call.run s.tables r.job r.now = ⟨.ok true, t⟩ := by
  obtain ⟨ha, j, hj, hl, rfl⟩ := hi.locked a row hs
  exact Service.run_installed ha hj hl ht

/-- For the handlers and the tables, a run of statements is a run of atomic record calls. -/
theorem connections_refine_intake (hw : (connections svc).Reachable System.free w) :
    (intake svc).Reachable System.free w.intake := by
  apply hw.simulate Connections.intake rfl
  intro w a w' hw hstep _
  have hi := connectionsInv_of_reachable hw
  cases Connections.step_moves hstep with
  | @intake b v hv hf => exact .single ⟨b, hv, trivial⟩
  | called => exact .refl
  | @recorder i r r' _ t hm h =>
    cases h with
    | @committed a row _ stage hs ht hend =>
      have hself := hi.recorders r (List.mem_of_getElem? hm)
      refine .single ⟨.worker (.record r.snapshot r.call r.now), ?_, trivial⟩
      simp only [Ingest.intake, Intake.step, Store.step, hself.snapshot,
        hself.run_installed hs ht, Option.map_some]
    | _ => exact .refl

theorem ledgerInv_of_connections (hw : (connections svc).Reachable System.free w) :
    LedgerInv w.intake.store :=
  ledgerInv_of_reachable (intake_refines_ledger (connections_refine_intake hw))

/-- Whatever the statements of concurrent transactions do to each other, the committed tables are
those of a run of atomic calls, and the ledger of every job is coherent. -/
theorem statements_refine_calls (svc : Services) {w : Connections svc}
    (hw : (connections svc).Reachable System.free w) :
    (intake svc).Reachable System.free w.intake ∧
      ∀ j ∈ w.intake.store.tables.deliveryJobs, Coherent w.intake.store.tables j :=
  ⟨connections_refine_intake hw, (ledgerInv_of_connections hw).coherent⟩

/-- An event for two destinations is stored, and one job is claimed by `a` and then by `b`. -/
def claimedTwice : List (IntakeAction sampleServices) := [
  .arrive (sampleRequest [0x6D]),
  .handler 0 (.check 0 1 (fun i => BitVec.ofNat 128 (i + 10)) 0),
  .handler 0 .insertEvent, .handler 0 .insertDeliveryJob, .handler 0 .insertDeliveryJob,
  .handler 0 (.commit .answered),
  .worker (.claimDueJobs "a" 1 300 0 []),
  .worker (.claimDueJobs "b" 1 300 (seconds 301) [11])]

/-- The record calls of both claims run at once: `b` waits for the attempt number, until `a` finds
its lock lost. -/
def interleaved : List (ConnectionsAction sampleServices) :=
  claimedTwice.map .intake ++ [
    .call 0 (.success 200 9) (seconds 302), .recorder 0 .insertAttempt,
    .call 1 (.retry (some 500) none 7 (seconds 317)) (seconds 302),
    .recorder 0 .updateJob, .recorder 0 .rollback, .recorder 1 .insertAttempt,
    .recorder 1 .updateJob, .intake (.worker (.claimDueJobs "c" 5 300 (seconds 900) [10])),
    .recorder 1 (.commit .answered)]

theorem statements_refine_calls_interleaved : ∃ w,
    (connections sampleServices).Reachable System.free w ∧
    w.intake.store.tables.deliveryAttempts.rows.map (·.statusCode) = [some 500] ∧
    ∀ j ∈ w.intake.store.tables.deliveryJobs, Coherent w.intake.store.tables j := by
  obtain ⟨w, hw, hp⟩ := System.exists_reachable_of_run (connections sampleServices) System.free
    interleaved (fun w =>
      w.intake.store.tables.deliveryAttempts.rows.map (·.statusCode) = [some 500]) (by decide)
  exact ⟨w, hw, of_decide_eq_true hp, (statements_refine_calls sampleServices hw).2⟩

/-- The call at position `i` is that of `r`, and its answer is settled. -/
def Settled (w : Connections svc) (i : ℕ) (r : Recorder) (answer : Except DbError Bool) : Prop :=
  ∃ x, w.recorders[i]? = some x ∧ r.Same x ∧ x.stage.answer = some answer

def Running (w : Connections svc) (i : ℕ) (r : Recorder) : Prop :=
  ∃ x, w.recorders[i]? = some x ∧ r.Same x ∧ x.stage.isOpen = true ∧ x.stage.answer = none

/-- In the step from `u` to `v` the atomic call gives the answer, and has its effect. -/
def TakesEffect (i : ℕ) (r : Recorder) (answer : Except DbError Bool) (u v : Connections svc) :
    Prop :=
  Running u i r ∧
    r.call.run u.intake.store.tables r.job r.now = ⟨answer, v.intake.store.tables⟩

/-- A transaction that has found no row under its lock answers as the atomic call would. -/
theorem RecorderInv.run_missed (hi : RecorderInv s r) (hl : LedgerInv s)
    (hs : r.stage = .inserted a) (hno : ∀ j ∈ s.tables.deliveryJobs, lockedRow r.job j = false) :
    r.call.run s.tables r.job r.now = ⟨.ok false, s.tables⟩ := by
  obtain ⟨j, hj, hsnap⟩ := hl.snapshots r.job (List.mem_of_getElem? hi.snapshot)
  have ha := hi.made a hs
  have hfree := hi.free a.key (by rw [Recorder.heldKey, hs])
  have hjob : a.jobId = r.job.id := by
    rw [Recorder.attempt] at ha
    exact (newDeliveryAttempt_ok ha).1
  obtain ⟨t₁, ht⟩ := s.tables.insertAttempt_ok ⟨j, hj, hsnap.id.trans hjob.symm⟩ hfree
  exact Service.run_missed ha ht hno

/-- An answer is settled by the step in which the atomic call gives it. -/
theorem Settled.step {answer : Except DbError Bool} (hi : ConnectionsInv w)
    (hl : LedgerInv w.intake.store) (h : w.Moves w') (hs : Settled w' i r answer) :
    Settled w i r answer ∨ TakesEffect i r answer w w' := by
  rcases hs with ⟨x, hx, hsame, hanswer⟩
  cases h with
  | intake hv hf => exact .inl ⟨x, hf.recorders ▸ hx, hsame, hanswer⟩
  | called call now hjob =>
    rcases getElem?_append_some.mp hx with hx | ⟨n, -, hn⟩
    · exact .inl ⟨x, hx, hsame, hanswer⟩
    · rw [List.mem_singleton.mp (List.mem_of_getElem? hn)] at hanswer
      cases hanswer
  | @recorder k y y' _ t hm h =>
    rcases (getElem?_set_some hm).mp hx with ⟨rfl, rfl⟩ | ⟨-, hx⟩
    case inr => exact .inl ⟨x, hx, hsame, hanswer⟩
    have hback : r.Same y := by
      obtain ⟨h1, h2, h3, h4⟩ := h.same
      exact ⟨h1.symm.trans hsame.snapshot, h2.symm.trans hsame.job, h3.symm.trans hsame.call,
        h4.symm.trans hsame.now⟩
    have hself := hi.recorders y (List.mem_of_getElem? hm)
    have heffect : ∀ {t : Tables}, y.stage.isOpen = true → y.stage.answer = none →
        y.call.run w.intake.store.tables y.job y.now = ⟨answer, t⟩ →
        Running w i r ∧ r.call.run w.intake.store.tables r.job r.now = ⟨answer, t⟩ := by
      intro t hopen hnone hrun
      rw [hback.call, hback.job, hback.now] at hrun
      exact ⟨⟨y, hm, hback, hopen, hnone⟩, hrun⟩
    cases h with
    | refused hs hr =>
      cases hanswer
      exact .inr (heffect (by rw [hs]; rfl) (by rw [hs]; rfl) hr)
    | inserted => cases hanswer
    | missed hs hno =>
      cases hanswer
      exact .inr (heffect (by rw [hs]; rfl) (by rw [hs]; rfl) (hself.run_missed hl hs hno))
    | updated => cases hanswer
    | committed hs ht hend =>
      rcases hend with rfl | ⟨rfl, -⟩
      · cases hanswer
        exact .inr (heffect (by rw [hs]; rfl) (by rw [hs]; rfl) (hself.run_installed hs ht))
      · cases hanswer
    | rolledBack hs => exact .inl ⟨y, hm, hback, by rw [hs]; exact hanswer⟩
    | cut => cases hanswer

/-- What a record call answers is what the atomic call answers at one moment between its start and
its end, and that moment is when its effect becomes visible. -/
theorem answers_linearize (svc : Services) {w : Connections svc}
    (hw : (connections svc).Reachable System.free w) {i : ℕ} {r : Recorder}
    {answer : Except DbError Bool} (hm : w.recorders[i]? = some r)
    (hs : r.stage = .returned answer) : ∃ u action v,
      (connections svc).Reachable System.free u ∧ (connections svc).step u action = some v ∧
      (connections svc).Reaches System.free v w ∧ TakesEffect i r answer u v := by
  have hinit : ¬ Settled (connections svc).init i r answer := by
    rintro ⟨x, hx, -⟩
    simp [connections] at hx
  have hsettled : Settled w i r answer := ⟨r, hm, ⟨rfl, rfl, rfl, rfl⟩, by rw [hs]; rfl⟩
  obtain ⟨u, action, v, hu, hv, heffect, hreach⟩ := hw.origin
    (P := fun w => Settled w i r answer) (Q := fun u _ v => TakesEffect i r answer u v)
    hinit hsettled fun u _ v hu hv _ hs => Settled.step (connectionsInv_of_reachable hu)
      (ledgerInv_of_connections hu) (Connections.step_moves hv) hs
  exact ⟨u, action, v, hu, hv, hreach, heffect⟩

def RecordStage.told : RecordStage → Option Bool
  | .returned (.ok b) => some b
  | _ => none

theorem RecordStage.told_eq {stage : RecordStage} {b : Bool} (h : stage.told = some b) :
    stage = .returned (.ok b) := by
  cases stage with
  | returned answer =>
    cases answer with
    | ok b' =>
      cases h
      rfl
    | error e => cases h
  | _ => cases h

/-- In `interleaved`, the claim `a` is told that its lock is lost, as the atomic call would tell
it. -/
theorem answers_linearize_interleaved : ∃ w i r u action v,
    w.recorders[i]? = some r ∧ r.stage = .returned (.ok false) ∧
    (connections sampleServices).step u action = some v ∧
    (connections sampleServices).Reaches System.free v w ∧ TakesEffect i r (.ok false) u v := by
  obtain ⟨w, hw, hp⟩ := System.exists_reachable_of_run (connections sampleServices) System.free
    interleaved (fun w => w.recorders.map (·.stage.told) = [some false, some true]) (by decide)
  have hmap := of_decide_eq_true hp
  obtain ⟨r, hm, hr⟩ : ∃ r, w.recorders[0]? = some r ∧ r.stage = .returned (.ok false) := by
    have hfirst := congrArg (·[0]?) hmap
    simp only [List.getElem?_map, List.getElem?_cons_zero] at hfirst
    obtain ⟨r, hm, hr⟩ := Option.map_eq_some_iff.mp hfirst
    exact ⟨r, hm, RecordStage.told_eq hr⟩
  obtain ⟨u, action, v, -, hv, hreach, heffect⟩ := answers_linearize sampleServices hw hm hr
  exact ⟨w, 0, r, u, action, v, hm, hr, hv, hreach, heffect⟩

def RecordStage.rank : RecordStage → ℕ
  | .begun => 3
  | .inserted _ => 2
  | .updated _ _ => 1
  | .unaffected => 1
  | _ => 0

def advancing : System.Guard (Connections svc) (ConnectionsAction svc) := fun _ action _ =>
  match action with
  | .recorder _ event => event.isStatement = true
  | _ => False

theorem RecordMove.rank_lt (h : RecordMove others t r event t' r') :
    r'.stage.rank < r.stage.rank := by
  cases h with
  | refused hs => simp [hs, RecordStage.rank]
  | inserted hs => simp [hs, RecordStage.rank]
  | missed hs => simp [hs, RecordStage.rank]
  | updated hs => simp [hs, RecordStage.rank]
  | committed hs ht hend => rcases hend with rfl | ⟨rfl, -⟩ <;> simp [hs, RecordStage.rank]
  | rolledBack hs => simp [hs, RecordStage.rank]
  | cut hs =>
    cases hstage : r.stage <;> simp [hstage, RecordStage.isOpen, RecordStage.rank] at hs ⊢

def RecordStage.Answering (stage : RecordStage) : Prop :=
  stage.isOpen = true ∨ ∃ answer, stage = .returned answer

theorem RecordMove.answering (h : RecordMove others t r event t' r')
    (he : event.isStatement = true) : r'.stage.Answering := by
  cases h with
  | refused => exact .inr ⟨_, rfl⟩
  | inserted => exact .inl rfl
  | missed => exact .inl rfl
  | updated => exact .inl rfl
  | committed hs ht hend =>
    rcases hend with rfl | ⟨-, hf⟩
    · exact .inr ⟨_, rfl⟩
    · simp [he] at hf
  | rolledBack => exact .inr ⟨_, rfl⟩
  | cut hs hf => simp [he] at hf

theorem RecorderInv.commits (hi : RecorderInv s r) (hrow : r.heldRow ≠ none) :
    ∃ p, r.step others s.tables (.commit .answered) = some p := by
  cases hs : r.stage with
  | updated a row =>
    obtain ⟨ha, j, hj, hl, -⟩ := hi.locked a row hs
    have hjob : a.jobId = r.job.id := by
      rw [Recorder.attempt] at ha
      exact (newDeliveryAttempt_ok ha).1
    obtain ⟨t₁, ht₁⟩ := s.tables.insertAttempt_ok ⟨j, hj, (lockedRow_iff.mp hl).1.trans hjob.symm⟩
      (hi.free a.key (by rw [Recorder.heldKey, hs]))
    simp [Recorder.step, hs, installed, ht₁, bind, Except.bind, pure, Except.pure]
  | _ => exact absurd (by rw [Recorder.heldRow, hs]) hrow

/-- The UPDATE waits for a row lock alone. -/
theorem Recorder.updates (hrow : r.heldRow = none) (hkey : r.heldKey ≠ none)
    (ho : ∀ x ∈ others, x.heldRow = none) : ∃ p, r.step others t .updateJob = some p := by
  cases hs : r.stage with
  | inserted a =>
    have hno : ¬ others.any (·.heldRow = some r.job.id) = true := by
      rw [List.any_eq_true]
      rintro ⟨x, hx, hx'⟩
      simp [ho x hx] at hx'
    simp only [Recorder.step, hs, if_neg hno]
    split <;> exact ⟨_, rfl⟩
  | updated a row => simp [Recorder.heldRow, hs] at hrow
  | _ => exact absurd (by rw [Recorder.heldKey, hs]) hkey

/-- The INSERT waits for an attempt number alone, and a rollback for nothing. -/
theorem Recorder.begins (hopen : r.stage.isOpen = true) (hkey : r.heldKey = none)
    (ho : ∀ x ∈ others, x.heldKey = none) :
    ∃ event p, event.isStatement = true ∧ r.step others t event = some p := by
  cases hs : r.stage with
  | begun =>
    cases ha : r.attempt with
    | error e => exact ⟨.insertAttempt, _, rfl, by simp only [Recorder.step, hs, ha]; rfl⟩
    | ok a =>
      have hno : ¬ others.any (·.heldKey = some a.key) = true := by
        rw [List.any_eq_true]
        rintro ⟨x, hx, hx'⟩
        simp [ho x hx] at hx'
      cases ht : t.insertAttempt a with
      | error e =>
        exact ⟨.insertAttempt, _, rfl, by simp only [Recorder.step, hs, ha, if_neg hno, ht]; rfl⟩
      | ok t₁ =>
        exact ⟨.insertAttempt, _, rfl, by simp only [Recorder.step, hs, ha, if_neg hno, ht]; rfl⟩
  | unaffected => exact ⟨.rollback, _, rfl, by simp only [Recorder.step, hs]; rfl⟩
  | inserted a => simp [Recorder.heldKey, hs] at hkey
  | updated a row => simp [Recorder.heldKey, hs] at hkey
  | returned answer => simp [RecordStage.isOpen, hs] at hopen
  | cut => simp [RecordStage.isOpen, hs] at hopen

/-- While a call is open, the statement of some call need not wait: those that wait for a number
or a row wait for calls that have more, and the last of these can commit. -/
theorem ConnectionsInv.exists_statement (hi : ConnectionsInv w)
    (ho : ∃ r ∈ w.recorders, r.stage.isOpen = true) :
    ∃ (i : ℕ) (r : Recorder) (event : RecordEvent) (p : Tables × Recorder),
      w.recorders[i]? = some r ∧ event.isStatement = true ∧
      r.step (w.recorders.eraseIdx i) w.intake.store.tables event = some p := by
  by_cases hrow : ∀ r ∈ w.recorders, r.heldRow = none
  case neg =>
    push Not at hrow
    obtain ⟨r, hr, hheld⟩ := hrow
    obtain ⟨i, hm⟩ := List.mem_iff_getElem?.mp hr
    obtain ⟨p, hp⟩ := (hi.recorders r hr).commits hheld
    exact ⟨i, r, _, p, hm, rfl, hp⟩
  by_cases hkey : ∀ r ∈ w.recorders, r.heldKey = none
  case neg =>
    push Not at hkey
    obtain ⟨r, hr, hheld⟩ := hkey
    obtain ⟨i, hm⟩ := List.mem_iff_getElem?.mp hr
    obtain ⟨p, hp⟩ := Recorder.updates (t := w.intake.store.tables) (hrow r hr) hheld
      fun x hx => hrow x (List.mem_of_mem_eraseIdx hx)
    exact ⟨i, r, _, p, hm, rfl, hp⟩
  obtain ⟨r, hr, hopen⟩ := ho
  obtain ⟨i, hm⟩ := List.mem_iff_getElem?.mp hr
  obtain ⟨event, p, he, hp⟩ := Recorder.begins (t := w.intake.store.tables) hopen (hkey r hr)
    fun x hx => hkey x (List.mem_of_mem_eraseIdx hx)
  exact ⟨i, r, event, p, hm, he, hp⟩

theorem answering_of_reaches (hreach : (connections svc).Reaches advancing w w')
    (hm : w.recorders[i]? = some r) (hopen : r.stage.isOpen = true) :
    ∃ x, w'.recorders[i]? = some x ∧ r.Same x ∧ x.stage.Answering := by
  apply hreach.invariant (I := fun w => ∃ x, w.recorders[i]? = some x ∧ r.Same x ∧
    x.stage.Answering)
  · exact ⟨r, hm, ⟨rfl, rfl, rfl, rfl⟩, .inl hopen⟩
  · rintro u (_ | _ | ⟨k, event⟩) v ⟨x, hx, hsame, hanswering⟩ hv he
    case intake => exact he.elim
    case call => exact he.elim
    obtain ⟨y, p, hy, hp, rfl⟩ := Connections.recorder_step hv
    by_cases hk : i = k
    · subst hk
      obtain rfl : x = y := Option.some.inj (hx.symm.trans hy)
      have hmove := Recorder.step_moves hp
      exact ⟨p.2, (getElem?_set_some hy).mpr (.inl ⟨rfl, rfl⟩), hsame.trans hmove.same,
        hmove.answering he⟩
    · exact ⟨x, by rw [List.getElem?_set_ne (Ne.symm hk)]; exact hx, hsame, hanswering⟩

/-- Record calls never wait for each other in a cycle: from every reachable state their statements
alone bring every open call to its answer. -/
theorem open_calls_answer (svc : Services) {w : Connections svc}
    (hw : (connections svc).Reachable System.free w) : ∃ w',
      (connections svc).Reaches advancing w w' ∧
      ∀ (i : ℕ) (r : Recorder), w.recorders[i]? = some r → r.stage.isOpen = true →
        ∃ (x : Recorder) (answer : Except DbError Bool), w'.recorders[i]? = some x ∧ r.Same x ∧
          x.stage = .returned answer := by
  obtain ⟨w', hreach, hclosed⟩ := hw.exists_goal
    (P := fun w => ∀ r ∈ w.recorders, r.stage.isOpen = false) (H := advancing)
    (fun w => (w.recorders.map fun r => r.stage.rank).sum) (fun _ _ _ _ => trivial)
    fun w hw hopen => by
      push Not at hopen
      obtain ⟨r, hr, hopen⟩ := hopen
      obtain ⟨i, r, event, ⟨t, r'⟩, hm, he, hp⟩ := (connectionsInv_of_reachable hw).exists_statement
        ⟨r, hr, by simpa using hopen⟩
      refine ⟨⟨{ w.intake with store := { w.intake.store with tables := t } },
        w.recorders.set i r'⟩, .single ⟨.recorder i event, ?_, he⟩,
        sum_map_set_lt (fun r => r.stage.rank) hm (Recorder.step_moves hp).rank_lt⟩
      simp only [connections, Connections.step, hm, hp, Option.map_some]
  refine ⟨w', hreach, fun i r hm hopen => ?_⟩
  obtain ⟨x, hx, hsame, hanswer⟩ := answering_of_reaches hreach hm hopen
  rcases hanswer with hx' | ⟨answer, hanswer⟩
  · rw [hclosed x (List.mem_of_getElem? hx)] at hx'
    cases hx'
  · exact ⟨x, answer, hx, hsame, hanswer⟩

/-- One call holds the attempt number that the other waits for, and both are answered. -/
theorem open_calls_answer_waiting : ∃ w w',
    (connections sampleServices).Reachable System.free w ∧
    w.recorders.map (·.stage.isOpen) = [true, true] ∧
    (connections sampleServices).Reaches advancing w w' ∧
    ∀ (i : ℕ) (r : Recorder), w.recorders[i]? = some r → r.stage.isOpen = true →
      ∃ (x : Recorder) (answer : Except DbError Bool),
        w'.recorders[i]? = some x ∧ r.Same x ∧ x.stage = .returned answer := by
  obtain ⟨w, hw, hp⟩ := System.exists_reachable_of_run (connections sampleServices) System.free
    (interleaved.take 11) (fun w => w.recorders.map (·.stage.isOpen) = [true, true]) (by decide)
  obtain ⟨w', hreach, hanswers⟩ := open_calls_answer sampleServices hw
  exact ⟨w, w', hw, of_decide_eq_true hp, hreach, hanswers⟩

end ResendRouter.Service
