import ResendRouter.Delivery.Backoff
import ResendRouter.Delivery.Progress
import ResendRouter.Delivery.Recording
import ResendRouter.Delivery.Verdicts

/-! # One worker can close every job

Past every deadline and every lock, one worker closes a job with each task that
it runs, because a claim that finds the deadline passed records the final
failure without a request, and the holder of the lock can always record it. The
moment has to be a date of the program, and its stale bound one of the database.
-/

namespace ResendRouter.Delivery
open Foundation Program Database System Relation

variable {env : Env} {time : Time} {t t' : Tables} {c c' : Claim} {u v w : World} {i : ℕ}
  {x : String} {j : DeliveryJob} {stale : ℤ}

def openIds (t : Tables) : List Uuid :=
  (t.deliveryJobs.rows.filter fun j => ! j.status.isTerminal).map DeliveryJob.id

theorem mem_openIds {id : Uuid} :
    id ∈ openIds t ↔ ∃ j ∈ t.deliveryJobs, j.status.isTerminal = false ∧ j.id = id := by
  simp [openIds, Table.mem_def, and_assoc]

theorem openIds_nodup (t : Tables) : (openIds t).Nodup :=
  (List.filter_sublist.map DeliveryJob.id).nodup t.deliveryJobs.unique

theorem openIds_of_claimed {jobs : List ClaimedJob} {stale : ℤ} {now : Time}
    (h : Claimed t t' jobs x stale now) : openIds t' ⊆ openIds t := by
  intro id hid
  obtain ⟨r, hr, hopen, rfl⟩ := mem_openIds.mp hid
  obtain ⟨j, hj, ⟨⟨job, hjob, hjid⟩, rfl⟩ | ⟨-, rfl⟩⟩ := (h.rows r).mp hr
  · obtain ⟨j', hj', hdue, e, -, -, rfl⟩ := h.due job hjob
    obtain rfl : j' = j := Table.eq_of_key_eq hj' hj hjid
    exact mem_openIds.mpr ⟨j', hj', isDue_not_terminal hdue, rfl⟩
  · exact mem_openIds.mpr ⟨r, hj, hopen, rfl⟩

theorem openIds_of_recorded {o : Outcome} {job : ClaimedJob} {d : ℤ} {now : Time}
    {a : DeliveryAttempt} (h : Recorded o t t' job d now a) (ho : o.status.isTerminal = true) :
    openIds t' ⊆ openIds t ∧ (openIds t').length < (openIds t).length := by
  have hsub : openIds t' ⊆ openIds t := by
    intro id hid
    obtain ⟨r, hr, hopen, rfl⟩ := mem_openIds.mp hid
    obtain ⟨j, hj, rfl⟩ := (h.jobs r).mp hr
    by_cases hl : lockedRow job j = true
    · rw [if_pos hl, Outcome.row, ho] at hopen
      cases hopen
    · rw [if_neg hl] at hopen ⊢
      exact mem_openIds.mpr ⟨j, hj, hopen, rfl⟩
  obtain ⟨j, hj, hl⟩ := h.held
  have hin : j.id ∈ openIds t :=
    mem_openIds.mpr ⟨j, hj, by rw [(lockedRow_iff.mp hl).2.2]; rfl, rfl⟩
  have hout : j.id ∉ openIds t' := by
    intro hid
    obtain ⟨r, hr, hopen, hrid⟩ := mem_openIds.mp hid
    have hrow := (h.jobs (o.row a now j)).mpr ⟨j, hj, by rw [if_pos hl]⟩
    obtain rfl : r = o.row a now j := Table.eq_of_key_eq hr hrow hrid
    rw [Outcome.row, ho] at hopen
    cases hopen
  refine ⟨hsub, ?_⟩
  have hnodup : (j.id :: openIds t').Nodup := List.nodup_cons.mpr ⟨hout, openIds_nodup t'⟩
  exact (List.subperm_of_subset hnodup (List.cons_subset.mpr ⟨hin, hsub⟩)).length_le

/-- The deadline has passed at `time`, after a retry window that keeps the attempt numbers inside
the machine range: below about ninety thousand years. -/
structure Expired (time : Time) (j : DeliveryJob) : Prop where
  deadline : j.deadlineAt ≤ time
  window : j.deadlineAt - j.createdAt < seconds (2 ^ 30 * 2880)

theorem expired_of_claimed {jobs : List ClaimedJob} {now : Time}
    (he : ∀ j ∈ t.deliveryJobs, Expired time j) (h : Claimed t t' jobs x stale now) :
    ∀ j ∈ t'.deliveryJobs, Expired time j := by
  intro r hr
  obtain ⟨j, hj, ⟨-, rfl⟩ | ⟨-, rfl⟩⟩ := (h.rows r).mp hr
  · exact ⟨(he j hj).deadline, (he j hj).window⟩
  · exact he r hj

theorem expired_of_recorded {o : Outcome} {job : ClaimedJob} {d : ℤ} {now : Time}
    {a : DeliveryAttempt} (he : ∀ j ∈ t.deliveryJobs, Expired time j)
    (h : Recorded o t t' job d now a) : ∀ j ∈ t'.deliveryJobs, Expired time j := by
  intro r hr
  obtain ⟨j, hj, rfl⟩ := (h.jobs r).mp hr
  split
  · exact ⟨(he j hj).deadline, (he j hj).window⟩
  · exact he j hj

def StaleLock (stale : ℤ) (time : Time) (j : DeliveryJob) : Prop :=
  ∀ l ∈ j.lockedAt, l + seconds stale < time

/-- A claim call returns a job as long as one is due. -/
theorem claim_returns_some {limit : ℤ} {now : Time} (hid : textOk x = true)
    (hlimit : 0 < limit) (hbound : timestampOk (now - seconds stale) = true)
    (hj : j ∈ t.deliveryJobs) (hdue : isDue now stale j = true) :
    ∃ jobs t', claimDueJobs t x limit stale now [] = ⟨.ok jobs, t'⟩ ∧ jobs ≠ [] ∧
      Claimed t t' jobs x stale now := by
  have hruns : staleBoundFails t stale now = false := by
    rw [staleBoundFails, hbound, Bool.not_true, Bool.false_and]
  have hpicked : picked t limit stale now [] ≠ [] := by
    have hmem : j ∈ (t.deliveryJobs.rows.filter fun j => isDue now stale j && ! [].contains j.id) :=
      List.mem_filter.mpr ⟨hj, by simp [hdue]⟩
    intro hnil
    rw [picked, List.map_eq_nil_iff, List.take_eq_nil_iff] at hnil
    rcases hnil with hzero | hnil
    · omega
    · have hsorted := (List.mem_insertionSort fun a b => a.nextAttemptAt ≤ b.nextAttemptAt).mpr hmem
      rw [hnil] at hsorted
      cases hsorted
  obtain ⟨id, hmem⟩ := List.exists_mem_of_ne_nil _ hpicked
  obtain ⟨j', hj', rfl, -⟩ := mem_picked hmem
  obtain ⟨e, he, hev⟩ := t.jobEvent j' hj'
  rcases claimDueJobs_cases t x limit stale now [] with ⟨e, herr⟩ | ⟨jobs, t', hok, hclaimed⟩
  · simp only [claimDueJobs, hid, hruns, Bool.true_eq_false, Bool.false_eq_true, if_false,
      if_neg (not_lt.mpr hlimit.le), Reply.mk.injEq, reduceCtorEq, false_and] at herr
  · refine ⟨jobs, t', hok, ?_, hclaimed⟩
    simp only [claimDueJobs, hid, hruns, Bool.true_eq_false, Bool.false_eq_true, if_false,
      if_neg (not_lt.mpr hlimit.le), Reply.mk.injEq, Except.ok.injEq] at hok
    rw [← hok.1]
    exact List.ne_nil_of_mem (mem_returned.mpr ⟨j', hj', hmem, e, he, hev, rfl⟩)

/-- A step of the worker's loop or of one of its tasks, with every reply received. Nobody else's
transaction is open: no row is skipped as locked, and a record call does not wait. -/
def Action.OfWorker (x : String) (w : World) : Action → Prop
  | .claim y _ skip fate => y = x ∧ skip = [] ∧ fate = .answered
  | .join y => y = x
  | .task i event => event.isOrderly = true ∧ ∃ c, w.claims[i]? = some c ∧ c.worker = x
  | _ => False

def solo (x : String) : Guard World Event := fun w e w' =>
  clockedWindows w e w' ∧ e.action.OfWorker x w

theorem solo_reachable (hw : (fleet env).Reachable clockedWindows w)
    (hv : (fleet env).Reaches (solo x) w v) : (fleet env).Reachable clockedWindows v :=
  hw.trans (hv.mono fun _ _ _ h => h.1)

theorem clockedWindows_of {e : Event} (hle : w.clock ≤ e.time)
    (hs : ∀ now, e.statementTime = some now → now = e.time) (hq : e.enqueued = none) :
    clockedWindows w e v := by
  refine ⟨⟨hle, fun now hnow => (hs now hnow).le⟩, fun q h => ?_⟩
  rw [hq] at h
  cases h

theorem task_reaches (event : TaskEvent) (hc : u.claims[i]? = some c) (hx : c.worker = x)
    (he : event.isOrderly = true)
    (hs : taskStep env.hmacSha256 (env.config c.worker) u.clock u.tables c event = some (t, c')) :
    (fleet env).Reaches (solo x) u { u with tables := t, claims := u.claims.set i c' } := by
  refine .single ⟨⟨u.clock, .task i event⟩, ?_, clockedWindows_of (le_refl _) ?_ rfl, he, c, hc, hx⟩
  · simp only [fleet, World.step, World.act, World.task, hc, hs, Option.map_some]
  · rintro _ ⟨⟩

/-- A claim of the worker whose task has just started, past the deadline and under the lock. -/
structure World.Ready (u : World) (x : String) (i : ℕ) (c : Claim) (j : DeliveryJob) : Prop where
  present : u.claims[i]? = some c
  worker : c.worker = x
  spawned : c.task = .spawned
  expired : c.job.deadlineAt ≤ u.clock
  row : j ∈ u.tables.deliveryJobs
  locked : lockedRow c.job j = true

/-- Whoever holds the lock of a job can record that its deadline has passed. -/
theorem expired_recorded (hu : (fleet env).Reachable clockedWindows u)
    (hc : u.claims[i]? = some c) (hlive : c.task.isEnded = false)
    (hj : j ∈ u.tables.deliveryJobs) (hl : lockedRow c.job j = true)
    (hwindow : j.deadlineAt - j.createdAt < seconds (2 ^ 30 * 2880)) {now : Time}
    (hnow : timestampOk now = true) :
    (expiredCall.run u.tables c.job now).result = .ok true ∧
      ∃ a, Recorded expiredCall.outcome u.tables (expiredCall.run u.tables c.job now).tables c.job
        0 now a := by
  have hclocked : (fleet env).Reachable clocked u := hu.mono fun _ _ _ h => h.1
  have hi := leaseInv_of_reachable hu
  have hledger := ledgerInv_of_fleet hu
  have hmem := List.mem_of_getElem? hc
  have hid := (lockedRow_iff.mp hl).1
  have hcount := count_bounded hclocked hj hwindow
  obtain ⟨j', hj', hl', hsame⟩ := hi.held hledger (hi.fence hc hlive hj hl)
  obtain rfl : j' = j := Table.eq_of_key_eq hj' hj ((lockedRow_iff.mp hl').1.trans hid.symm)
  have hs := hledger.snapshot (List.mem_map_of_mem hmem) hj hid
  have hnumber := wrapI32_succ hs.nonneg (by omega)
  have hpos : 0 < c.job.attemptCount + 1 := by
    have := hs.nonneg
    omega
  have hfree := (attempt_free_iff hledger hmem hj hid).mpr hsame
  have hok : (recordOutcome expiredCall.outcome u.tables c.job 0 now).result =
      .ok (some (c.job.attemptCount + 1)) := by
    rw [recordOutcome_committed, hnumber]
    exact ⟨rfl, by decide, ⟨hnow, rfl⟩, hpos, by decide, hfree, j', hj, hl⟩
  have hyes : (expiredCall.run u.tables c.job now).result = .ok true := by
    rw [RecordCall.run_eq]
    simp only [Reply.map]
    rw [show expiredCall.durationMs = 0 from rfl, hok]
    rfl
  rcases expiredCall.run_cases u.tables c.job now with ⟨-, hno⟩ | ⟨-, a, hrec⟩
  · exact absurd hyes hno
  · exact ⟨hyes, a, hrec⟩

theorem task_reaches_next (event : TaskEvent) {c₁ : Claim} (hc : u.claims[i]? = some c)
    (hx : c₁.worker = x) (he : event.isOrderly = true)
    (hs : taskStep env.hmacSha256 (env.config c₁.worker) u.clock u.tables c₁ event =
      some (t, c')) :
    (fleet env).Reaches (solo x) { u with claims := u.claims.set i c₁ }
      { u with tables := t, claims := u.claims.set i c' } := by
  have hstep := task_reaches event (u := { u with claims := u.claims.set i c₁ })
    ((getElem?_set_some hc).mpr (.inl ⟨rfl, rfl⟩)) hx he hs
  simpa only [List.set_set] using hstep

/-- The task finds the deadline passed, reads the clock, and records the final failure. -/
theorem close_one (hu : (fleet env).Reachable clockedWindows u)
    (hnow : timestampOk u.clock = true) (he : ∀ j ∈ u.tables.deliveryJobs, Expired u.clock j)
    (hr : u.Ready x i c j) : ∃ v a c', (fleet env).Reaches (solo x) u v ∧ v.clock = u.clock ∧
      v.phase = u.phase ∧ v.claims = u.claims.set i c' ∧ c'.task = .ended ∧
      Recorded expiredCall.outcome u.tables v.tables c.job 0 u.clock a := by
  have hc := hr.present
  obtain ⟨hyes, a, hrec⟩ := expired_recorded hu hc (by rw [hr.spawned]; rfl) hr.row hr.locked
    (he j hr.row).window hnow
  have hcheck : (fleet env).Reaches (solo x) u
      { u with claims := u.claims.set i { c with task := .calling expiredCall } } :=
    task_reaches .checkDeadline hc hr.worker rfl
      (by simp only [taskStep, hr.spawned, if_pos hr.expired])
  have hclock : (fleet env).Reaches (solo x)
      { u with claims := u.claims.set i { c with task := .calling expiredCall } }
      { u with claims := u.claims.set i { c with task := .recording expiredCall u.clock } } :=
    task_reaches_next .readClock hc hr.worker rfl rfl
  have hrecord : (fleet env).Reaches (solo x)
      { u with claims := u.claims.set i { c with task := .recording expiredCall u.clock } }
      { u with
        tables := (expiredCall.run u.tables c.job u.clock).tables
        claims := u.claims.set i { c with
          task := .ended
          outcomes := c.outcomes ++ [⟨expiredCall, u.clock⟩] } } :=
    task_reaches_next (.record .answered) hc hr.worker rfl
      (by simp only [taskStep, Reply.isTrue_iff.mpr hyes, if_true])
  exact ⟨_, a, _, (hcheck.trans hclock).trans hrecord, rfl, rfl, rfl, rfl, hrec⟩

/-- The other claims of the batch stay ready. -/
theorem World.Ready.other {k : ℕ} {d : Claim} {r : DeliveryJob} {a : DeliveryAttempt}
    (hi : LeaseInv env u) (hr : u.Ready x i c j) (hk : u.Ready x k d r) (hne : k ≠ i)
    (hclaims : v.claims = u.claims.set i c') (hclock : v.clock = u.clock)
    (hrec : Recorded expiredCall.outcome u.tables v.tables c.job 0 u.clock a) :
    v.Ready x k d r := by
  have hids : d.job.id ≠ c.job.id := by
    intro hid
    have hlatest := (hi.fence hr.present (by rw [hr.spawned]; rfl) hr.row hr.locked).1
    have hlatest' := (hi.fence hk.present (by rw [hk.spawned]; rfl) hk.row hk.locked).1
    exact hne (hlatest.eq hlatest' hid).1
  refine ⟨?_, hk.worker, hk.spawned, hclock ▸ hk.expired, ?_, hk.locked⟩
  · rw [hclaims]
    exact (getElem?_set_some hr.present).mpr (.inr ⟨hne, hk.present⟩)
  · refine (hrec.jobs r).mpr ⟨r, hk.row, ?_⟩
    rw [if_neg]
    intro hl
    exact hids ((lockedRow_iff.mp hk.locked).1.symm.trans (lockedRow_iff.mp hl).1)

/-- A closed job has no lock, and the other rows are as before. -/
theorem locks_closed {a : DeliveryAttempt} {batch : List ℕ} (hi : LeaseInv env u)
    (hr : u.Ready x i c j) (hnew : i ∉ batch) (hclaims : v.claims = u.claims.set i c')
    (hclock : v.clock = u.clock)
    (hrec : Recorded expiredCall.outcome u.tables v.tables c.job 0 u.clock a)
    (hlocks : ∀ r ∈ u.tables.deliveryJobs,
      StaleLock stale u.clock r ∨ ∃ k ∈ i :: batch, ∃ d, u.Ready x k d r) :
    ∀ r ∈ v.tables.deliveryJobs,
      StaleLock stale v.clock r ∨ ∃ k ∈ batch, ∃ d, v.Ready x k d r := by
  intro r hrow
  obtain ⟨r, hold, rfl⟩ := (hrec.jobs r).mp hrow
  by_cases hl : lockedRow c.job r = true
  · rw [if_pos hl]
    refine .inl ?_
    rintro _ ⟨⟩
  · rw [if_neg hl]
    rcases hlocks r hold with hstale | ⟨k, hk, d, hready⟩
    · exact .inl (hclock ▸ hstale)
    · rcases List.mem_cons.mp hk with rfl | hk
      · obtain rfl : c = d := Option.some.inj (hr.present.symm.trans hready.present)
        exact absurd hready.locked hl
      · exact .inr ⟨k, hk, d, hr.other hi hready (fun h => hnew (h ▸ hk)) hclaims hclock hrec⟩

/-- By induction on the batch: every task closes its job, which leaves only stale locks. -/
theorem close_batch (batch : List ℕ) (hnodup : batch.Nodup) {u : World}
    (hu : (fleet env).Reachable clockedWindows u) (hnow : timestampOk u.clock = true)
    (he : ∀ j ∈ u.tables.deliveryJobs, Expired u.clock j)
    (hready : ∀ i ∈ batch, ∃ c j, u.Ready x i c j)
    (hlocks : ∀ j ∈ u.tables.deliveryJobs,
      StaleLock stale u.clock j ∨ ∃ i ∈ batch, ∃ c, u.Ready x i c j) :
    ∃ v, (fleet env).Reaches (solo x) u v ∧ v.clock = u.clock ∧ v.phase = u.phase ∧
      (∀ j ∈ v.tables.deliveryJobs, Expired u.clock j ∧ StaleLock stale u.clock j) ∧
      (∀ i, i ∉ batch → v.claims[i]? = u.claims[i]?) ∧
      (∀ i ∈ batch, ∃ c, v.claims[i]? = some c ∧ c.task = .ended) ∧
      (openIds v.tables).length + batch.length ≤ (openIds u.tables).length := by
  induction batch generalizing u with
  | nil =>
    refine ⟨u, .refl, rfl, rfl, fun j hj => ⟨he j hj, ?_⟩, fun _ _ => rfl, by simp, le_refl _⟩
    rcases hlocks j hj with hstale | ⟨i, hi, -⟩
    · exact hstale
    · cases hi
  | cons i batch ih =>
    obtain ⟨hi, hnodup⟩ := List.nodup_cons.mp hnodup
    obtain ⟨c, j, hr⟩ := hready i List.mem_cons_self
    obtain ⟨u₁, a, c', hrun, hclock, hphase, hclaims, hended, hrec⟩ := close_one hu hnow he hr
    have hlease := leaseInv_of_reachable hu
    have hready₁ : ∀ k ∈ batch, ∃ c j, u₁.Ready x k c j := by
      intro k hk
      obtain ⟨d, r, hkr⟩ := hready k (List.mem_cons_of_mem _ hk)
      exact ⟨d, r, hr.other hlease hkr (fun h => hi (h ▸ hk)) hclaims hclock hrec⟩
    obtain ⟨v, hrun', hclock', hphase', hrows, hkept, hdone, hlength⟩ :=
      ih hnodup (solo_reachable hu hrun) (hclock.symm ▸ hnow)
        (hclock.symm ▸ expired_of_recorded he hrec) hready₁
        (locks_closed hlease hr hi hclaims hclock hrec hlocks)
    refine ⟨v, hrun.trans hrun', hclock'.trans hclock, hphase'.trans hphase, hclock ▸ hrows,
      fun k hk => ?_, fun k hk => ?_, ?_⟩
    · obtain ⟨hki, hkb⟩ := not_or.mp (List.mem_cons.not.mp hk)
      rw [hkept k hkb, hclaims, List.getElem?_set_ne (Ne.symm hki)]
    · rcases List.mem_cons.mp hk with rfl | hk
      · refine ⟨c', ?_, hended⟩
        rw [hkept k hi, hclaims]
        exact (getElem?_set_some hr.present).mpr (.inl ⟨rfl, rfl⟩)
      · exact hdone k hk
    · have := (openIds_of_recorded hrec rfl).2
      rw [List.length_cons]
      omega

/-- A moment up to the end of the year 9999 that is past every deadline and every lock, and from
which the stale interval leads to a date of the database. -/
structure World.Late (w : World) (stale : ℤ) (time : Time) : Prop where
  clock : w.clock ≤ time
  representable : time ≤ maxTime
  bound : timestampOk (time - seconds stale) = true
  expired : ∀ j ∈ w.tables.deliveryJobs, Expired time j
  locks : ∀ j ∈ w.tables.deliveryJobs, StaleLock stale time j

theorem clock_nonneg (hw : (fleet env).Reachable clockedWindows w) : 0 ≤ w.clock := by
  apply hw.invariant (I := fun w => 0 ≤ w.clock) (le_refl _)
  intro w e w' _ hi hstep hg
  obtain ⟨v, -, rfl⟩ := Option.map_eq_some_iff.mp hstep
  exact hi.trans hg.1.1

theorem World.Late.isDate (h : w.Late stale time)
    (hw : (fleet env).Reachable clockedWindows w) : timestampOk time = true := by
  have hzero := (clock_nonneg hw).trans h.clock
  rw [timestampOk, Bool.and_eq_true, decide_eq_true_eq, decide_eq_true_eq]
  exact ⟨le_trans (by decide) hzero, lt_of_le_of_lt h.representable (by decide)⟩

theorem ready_of_claimed {jobs : List ClaimedJob} {n : ℕ}
    (h : Claimed w.tables u.tables jobs x stale time)
    (hclaims : u.claims = w.claims ++ jobs.map (newClaim x time .spawned)) (hn : n < jobs.length)
    (hj : j ∈ w.tables.deliveryJobs) (hid : jobs[n].id = j.id) (hlate : j.deadlineAt ≤ u.clock) :
    u.Ready x (w.claims.length + n) (newClaim x time .spawned jobs[n]) (claimRow x time j) := by
  obtain ⟨j', hj', hdue, e, he, hev, hjob⟩ := h.due jobs[n] (List.getElem_mem hn)
  obtain rfl : j' = j := Table.eq_of_key_eq hj' hj (by rw [← hid, hjob, claimedJob])
  refine ⟨?_, rfl, rfl, ?_, ?_, ?_⟩
  · rw [hclaims]
    exact claims_new (List.getElem?_eq_getElem hn)
  · simpa only [newClaim, hjob, claimedJob] using hlate
  · exact (h.rows _).mpr ⟨j', hj, .inl ⟨⟨jobs[n], List.getElem_mem hn, hid⟩, rfl⟩⟩
  · refine lockedRow_iff.mpr ⟨?_, ?_, rfl⟩ <;> simp only [newClaim, hjob, claimedJob, claimRow]

theorem batch_ready {jobs : List ClaimedJob} (h : Claimed w.tables u.tables jobs x stale time)
    (hclaims : u.claims = w.claims ++ jobs.map (newClaim x time .spawned))
    (hlate : ∀ j ∈ w.tables.deliveryJobs, j.deadlineAt ≤ u.clock) :
    ∀ i ∈ List.range' w.claims.length jobs.length, ∃ c j, u.Ready x i c j := by
  intro i hi
  obtain ⟨n, hn, rfl⟩ := List.mem_range'.mp hi
  obtain ⟨j, hj, -, e, -, -, hjob⟩ := h.due jobs[n] (List.getElem_mem hn)
  rw [Nat.one_mul]
  exact ⟨_, _, ready_of_claimed h hclaims hn hj (by rw [hjob, claimedJob]) (hlate j hj)⟩

/-- The rows that the claim passed over keep their stale locks. -/
theorem batch_locks {jobs : List ClaimedJob} (h : Claimed w.tables u.tables jobs x stale time)
    (hclaims : u.claims = w.claims ++ jobs.map (newClaim x time .spawned))
    (hlate : ∀ j ∈ w.tables.deliveryJobs, j.deadlineAt ≤ u.clock ∧ StaleLock stale u.clock j) :
    ∀ r ∈ u.tables.deliveryJobs, StaleLock stale u.clock r ∨
      ∃ i ∈ List.range' w.claims.length jobs.length, ∃ c, u.Ready x i c r := by
  intro r hr
  obtain ⟨j, hj, ⟨⟨job, hjob, hid⟩, rfl⟩ | ⟨-, rfl⟩⟩ := (h.rows r).mp hr
  · obtain ⟨n, hn, rfl⟩ := List.getElem_of_mem hjob
    exact .inr ⟨_, List.mem_range'.mpr ⟨n, hn, by rw [Nat.one_mul]⟩, _,
      ready_of_claimed h hclaims hn hj hid (hlate j hj).1⟩
  · exact .inl (hlate r hj).2

/-- One round of the worker: a batch is claimed past every deadline, closed and joined. -/
theorem close_some (hw : (fleet env).Reachable clockedWindows w)
    (hlate : w.Late (env.config x).staleDeliveryLockSecs time) (hx : w.phase x = .polling)
    (hid : textOk x = true) (hlimit : 0 < (env.config x).deliveryClaimLimit)
    (hopen : openIds w.tables ≠ []) :
    ∃ v, (fleet env).Reaches (solo x) w v ∧ v.Late (env.config x).staleDeliveryLockSecs time ∧
      v.phase x = .polling ∧ (openIds v.tables).length < (openIds w.tables).length := by
  obtain ⟨id, hmem⟩ := List.exists_mem_of_ne_nil _ hopen
  obtain ⟨j, hj, hstatus, -⟩ := mem_openIds.mp hmem
  have hdue : isDue time (env.config x).staleDeliveryLockSecs j = true := by
    have hp := rowPattern_of_reachable
      (fleet_refines_ledger (K := free) (fun _ _ _ _ _ _ => trivial) hw) j hj
    refine hp.isDue ?_ ((next_before_deadline hw hj).trans (hlate.expired j hj).deadline)
      (hlate.locks j hj)
    rw [← isTerminal_iff, hstatus]
    exact Bool.false_ne_true
  obtain ⟨jobs, t, hr, hne, hclaimed⟩ := claim_returns_some hid hlimit hlate.bound hj hdue
  let u : World := ⟨t, time,
    Function.update w.phase x (.processing (List.range' w.claims.length jobs.length)),
    w.claims ++ jobs.map (newClaim x time .spawned), w.ingested⟩
  have hclaim : (fleet env).Reaches (solo x) w u := by
    refine .single ⟨⟨time, .claim x time [] .answered⟩, ?_,
      clockedWindows_of hlate.clock (fun now h => (Option.some.inj h).symm) rfl, rfl, rfl, rfl⟩
    simp [fleet, World.step, World.act, World.claim, hx, hr, hne, u]
  obtain ⟨v, hrun, hclock, hphase, hrows, -, hdone, hlength⟩ :=
    close_batch (x := x) _ List.nodup_range' (solo_reachable hw hclaim)
      (hlate.isDate hw) (expired_of_claimed hlate.expired hclaimed)
      (batch_ready hclaimed rfl fun j hj => (hlate.expired j hj).deadline)
      (batch_locks hclaimed rfl fun j hj => ⟨(hlate.expired j hj).deadline, hlate.locks j hj⟩)
  have hprocessing : v.phase x = .processing (List.range' w.claims.length jobs.length) := by
    rw [hphase]
    exact Function.update_self ..
  have hended : v.allEnded (List.range' w.claims.length jobs.length) = true := by
    refine List.all_eq_true.mpr fun i hi => ?_
    obtain ⟨c, hc, htask⟩ := hdone i hi
    rw [hc, Option.all_some, htask]
    rfl
  have hjoin : (fleet env).Reaches (solo x) v
      { v with phase := Function.update v.phase x .polling } := by
    refine .single ⟨⟨v.clock, .join x⟩, ?_, clockedWindows_of (le_refl _) ?_ rfl, rfl⟩
    · simp only [fleet, World.step, World.act, World.join, hprocessing, if_pos hended,
        Option.map_some]
    · rintro _ ⟨⟩
  refine ⟨_, (hclaim.trans hrun).trans hjoin, ⟨hclock.le, hlate.representable, hlate.bound,
    fun j hj => (hrows j hj).1, fun j hj => (hrows j hj).2⟩, Function.update_self .., ?_⟩
  have hsub := (List.subperm_of_subset (openIds_nodup _) (openIds_of_claimed hclaimed)).length_le
  have hpos := List.length_pos_of_ne_nil hne
  rw [List.length_range'] at hlength
  change (openIds v.tables).length < _
  change _ + _ ≤ (openIds t).length at hlength
  omega

/-- From every reachable state one worker can close every job by its own steps, once nobody else's
transaction is open: no lock and no lost reply blocks a job for ever. -/
theorem lone_worker_closes_every_job (hw : (fleet env).Reachable clockedWindows w)
    (hlate : w.Late (env.config x).staleDeliveryLockSecs time) (hx : w.phase x = .polling)
    (hid : textOk x = true) (hlimit : 0 < (env.config x).deliveryClaimLimit) :
    ∃ v, (fleet env).Reaches (solo x) w v ∧
      ∀ j ∈ v.tables.deliveryJobs, j.status = .succeeded ∨ j.status = .failed := by
  induction hn : (openIds w.tables).length using Nat.strongRecOn generalizing w with
  | ind n ih =>
    by_cases hopen : openIds w.tables = []
    · refine ⟨w, .refl, fun j hj => isTerminal_iff.mp ?_⟩
      by_contra hno
      have hmem : j.id ∈ openIds w.tables :=
        mem_openIds.mpr ⟨j, hj, Bool.eq_false_iff.mpr hno, rfl⟩
      rw [hopen] at hmem
      cases hmem
    · obtain ⟨u, hu, hlate', hphase, hlt⟩ := close_some hw hlate hx hid hlimit hopen
      obtain ⟨v, hv, hdone⟩ := ih _ (hn ▸ hlt) (solo_reachable hw hu) hlate' hphase rfl
      exact ⟨v, hu.trans hv, hdone⟩

def Phase.isPolling : Phase → Bool
  | .polling => true
  | _ => false

theorem Phase.eq_polling {phase : Phase} (h : phase.isPolling = true) : phase = .polling := by
  cases phase with
  | polling => rfl
  | _ => cases h

/-- Worker `a` has claimed the job and does nothing more, and `b` closes it after the deadline. -/
theorem lone_worker_closes_every_job_stalled : ∃ w v,
    (fleet sampleEnv).Reachable clockedWindows w ∧
    w.tables.deliveryJobs.rows.map (·.status) = [.delivering] ∧
    (fleet sampleEnv).Reaches (solo "b") w v ∧
    ∀ j ∈ v.tables.deliveryJobs, j.status = .succeeded ∨ j.status = .failed := by
  obtain ⟨w, hw, hp⟩ := System.exists_reachable_of_run (fleet sampleEnv) clockedWindows
    (takenOver.take 2) (fun w => w.tables.deliveryJobs.rows.map (·.status) = [.delivering] ∧
      w.clock ≤ seconds 300000 ∧
      (w.tables.deliveryJobs.rows.all fun j => j.deadlineAt ≤ seconds 300000 &&
        j.deadlineAt - j.createdAt < seconds (2 ^ 30 * 2880)) = true ∧
      (w.tables.deliveryJobs.rows.all fun j => j.lockedAt.all fun l =>
        l + seconds 300 < seconds 300000) = true ∧
      (w.phase "b").isPolling = true) (by decide)
  rw [decide_eq_true_eq] at hp
  obtain ⟨hstatus, hclock, hexpired, hlocks, hphase⟩ := hp
  have hlate : w.Late (sampleEnv.config "b").staleDeliveryLockSecs (seconds 300000) := by
    refine ⟨hclock, by decide, by decide, fun j hj => ?_, fun j hj l hl => ?_⟩
    · have hj := List.all_eq_true.mp hexpired j hj
      rw [Bool.and_eq_true, decide_eq_true_eq, decide_eq_true_eq] at hj
      exact ⟨hj.1, hj.2⟩
    · have hj := List.all_eq_true.mp hlocks j hj
      rw [hl] at hj
      exact of_decide_eq_true hj
  obtain ⟨v, hv, hdone⟩ := lone_worker_closes_every_job hw hlate (Phase.eq_polling hphase)
    (by decide) (by decide)
  exact ⟨w, v, hw, hstatus, hv, hdone⟩

end ResendRouter.Delivery
