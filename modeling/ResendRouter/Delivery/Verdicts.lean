import ResendRouter.Delivery.Outcomes

/-! # Verdicts follow from responses and from the deadline

A success is recorded only for a received 2xx, a final failure only at or past
the deadline, and a retry only before it. Under one non-decreasing clock this
carries over to the rows of whole runs.
-/

namespace ResendRouter.Delivery
open Foundation Program Database

variable {env : Env} {time clock clock' : Time} {t t' : Tables} {c c' d : Claim} {w w' : World}
  {e : Event} {i k : ℕ} {j : DeliveryJob} {a : DeliveryAttempt} {o : Committed}

theorem retryDelay_pos (attempt : ℤ) (seed : ℕ) : 0 < retryDelay attempt seed := by
  simp only [retryDelay]
  have hmax : 0 < maxRetryDelaySecs := by decide
  split
  · omega
  · rw [Nat.lt_min]
    exact ⟨by omega, hmax⟩

/-- The two record calls of a failed attempt, by the clock reading of `record_failure`. -/
theorem recordFailure_cases {job : ClaimedJob} {code : Option UInt16} {error : String} {d : ℤ}
    {now : Time} {seed : ℕ} {call : RecordCall}
    (h : recordFailure job code error d now seed = some call) :
    (job.deadlineAt ≤ now ∧ call = .finalFailure code (some error) d) ∨
    ∃ next, call = .retry code (some error) d next ∧ now < job.deadlineAt ∧ now < next ∧
      next ≤ job.deadlineAt := by
  simp only [recordFailure] at h
  split at h
  case isTrue hd =>
    cases h
    exact .inl ⟨hd, rfl⟩
  case isFalse hd =>
    obtain ⟨u, hu, rfl⟩ := Option.map_eq_some_iff.mp h
    have hlt : now < u := by
      rw [addTime_eq_some hu, seconds]
      have := retryDelay_pos (wrapI32 (job.attemptCount + 1)) seed
      have hpos : (0 : ℤ) < (retryDelay (wrapI32 (job.attemptCount + 1)) seed : ℤ) * 1000000 := by
        omega
      linarith
    refine .inr ⟨_, rfl, not_le.mp hd, ?_, ?_⟩
    · split
      · exact not_le.mp hd
      · exact hlt
    · split
      · exact le_rfl
      · exact not_lt.mp ‹_›

/-- The status code of a failed attempt, if there is one, is no success. -/
def FailureCode (code : Option UInt16) : Prop :=
  ∀ status, code = some status → isSuccess status = false

def Claim.Received (c : Claim) (status : UInt16) : Prop :=
  ∃ request startedAt finishedAt, c.post = some ⟨request, startedAt, some (finishedAt, .ok status)⟩

/-- A retry after `now` and no later than the deadline. -/
def RetriesBy (now deadlineAt : Time) (call : RecordCall) : Prop :=
  call.outcome.status = .retrying ∧
    ∃ next, call.outcome.nextAttemptAt = some next ∧ now < next ∧ next ≤ deadlineAt

/-- What a record call says about its claim, at the given clock. -/
def CallSound (clock : Time) (c : Claim) : RecordCall → Prop
  | .success status _ => isSuccess status = true ∧ c.Received status ∧ c.decidedAt = none
  | .retry code _ _ next => FailureCode code ∧ ∃ now, c.decidedAt = some now ∧
      now < c.job.deadlineAt ∧ now < next ∧ next ≤ c.job.deadlineAt
  | .finalFailure code _ _ => FailureCode code ∧ c.job.deadlineAt ≤ clock ∧
      ∀ now, c.decidedAt = some now → c.job.deadlineAt ≤ now

def TaskSound (clock : Time) (c : Claim) : Task → Prop
  | .responded response _ =>
    c.decidedAt = none ∧ ∀ status, response = .ok status → c.Received status
  | .calling call => CallSound clock c call
  | .recording call now => CallSound now c call
  | .ended => True
  | _ => c.decidedAt = none

structure ClaimSound (clock : Time) (c : Claim) : Prop where
  task : TaskSound clock c c.task
  outcomes : ∀ o ∈ c.outcomes, CallSound o.recordedAt c o.call

theorem CallSound.mono {call : RecordCall} (h : CallSound clock c call) (hle : clock ≤ clock')
    (hjob : c'.job = c.job) (hd : c'.decidedAt = c.decidedAt)
    (hr : ∀ status, c.Received status → c'.Received status) : CallSound clock' c' call := by
  cases call with
  | success status d => exact ⟨h.1, hr status h.2.1, hd.trans h.2.2⟩
  | retry code error d next =>
    refine ⟨h.1, ?_⟩
    rw [hd, hjob]
    exact h.2
  | finalFailure code error d =>
    refine ⟨h.1, ?_⟩
    rw [hd, hjob]
    exact ⟨h.2.1.trans hle, h.2.2⟩

theorem TaskSound.mono {task : Task} (h : TaskSound clock c task) (hle : clock ≤ clock')
    (hjob : c'.job = c.job) (hd : c'.decidedAt = c.decidedAt)
    (hr : ∀ status, c.Received status → c'.Received status) : TaskSound clock' c' task := by
  cases task with
  | responded response d => exact ⟨hd.trans h.1, fun status hs => hr status (h.2 status hs)⟩
  | calling call => exact CallSound.mono h hle hjob hd hr
  | recording call now => exact CallSound.mono h le_rfl hjob hd hr
  | ended => trivial
  | _ => exact hd.trans h

/-- Whoever has decided a failure is at its record call, or has ended. -/
theorem TaskSound.decided {task : Task} {now : Time} (h : TaskSound clock c task)
    (hnow : c.decidedAt = some now) :
    task.isEnded = true ∨ ∃ call clock, task.call = some call ∧ CallSound clock c call := by
  cases task with
  | calling call => exact .inr ⟨call, clock, rfl, h⟩
  | recording call now => exact .inr ⟨call, now, rfl, h⟩
  | ended => exact .inl rfl
  | responded response d =>
    rw [h.1] at hnow
    cases hnow
  | _ =>
    rw [show c.decidedAt = none from h] at hnow
    cases hnow

theorem ClaimSound.mono (h : ClaimSound clock c) (hle : clock ≤ clock') : ClaimSound clock' c :=
  ⟨h.task.mono hle rfl rfl fun _ hr => hr, h.outcomes⟩

/-- A step of a task keeps its claim sound; a running task has recorded nothing. -/
theorem ClaimSound.moved (h : ClaimSound clock c) (hle : clock ≤ time)
    (hrun : c.task.isEnded = false → c.outcomes = []) (hm : TaskMove env time t c t' c') :
    ClaimSound time c' := by
  rcases h with ⟨htask, houtcomes⟩
  have hnone : c.task.isEnded = false → ∀ o ∈ c.outcomes, CallSound o.recordedAt c' o.call := by
    intro hlive o ho
    rw [hrun hlive] at ho
    cases ho
  cases hm with
  | expired hs hd =>
    rw [hs] at htask
    refine ⟨⟨nofun, hd, fun now hnow => ?_⟩, houtcomes⟩
    rw [show c.decidedAt = none from htask] at hnow
    cases hnow
  | opened hs hd =>
    rw [hs] at htask
    exact ⟨htask, houtcomes⟩
  | resolved hs url =>
    rw [hs] at htask
    exact ⟨htask, houtcomes⟩
  | refreshed hs url hu held hr ht =>
    rw [hs] at htask
    rcases ht with rfl | rfl
    · exact ⟨htask, houtcomes⟩
    · exact ⟨trivial, houtcomes⟩
  | sent hs =>
    have hlive : c.task.isEnded = false := by
      rw [hs]
      rfl
    rw [hs] at htask
    exact ⟨htask, hnone hlive⟩
  | unsent hs error d =>
    rw [hs] at htask
    exact ⟨⟨htask, nofun⟩, houtcomes⟩
  | finished hp response =>
    -- an unfinished POST has no response yet
    have hr : ∀ (c' : Claim) status, c.Received status → c'.Received status := by
      rintro c' status ⟨request, startedAt, finishedAt, hpost⟩
      rw [hp] at hpost
      cases hpost
    exact ⟨htask.mono hle rfl rfl (hr _), fun o ho =>
      (houtcomes o ho).mono le_rfl rfl rfl (hr _)⟩
  | received hs hp d =>
    rw [hs] at htask
    refine ⟨⟨htask, ?_⟩, houtcomes⟩
    rintro status rfl
    exact ⟨_, _, _, hp⟩
  | succeeded hs hok =>
    rw [hs] at htask
    exact ⟨⟨hok, htask.2 _ rfl, htask.1⟩, houtcomes⟩
  | @failed response d call hs hno seed hc =>
    have hlive : c.task.isEnded = false := by
      rw [hs]
      rfl
    have hcode : FailureCode (failureColumns response).1 := by
      cases response with
      | error error => exact nofun
      | ok status =>
        rintro _ ⟨⟩
        exact hno status rfl
    refine ⟨?_, hnone hlive⟩
    rcases recordFailure_cases hc with ⟨hd, rfl⟩ | ⟨next, rfl, hd, hnext, hclamp⟩
    · refine ⟨hcode, hd, fun now hnow => ?_⟩
      cases hnow
      exact hd
    · exact ⟨hcode, time, rfl, hd, hnext, hclamp⟩
  | overflowed hs hno =>
    have hlive : c.task.isEnded = false := by
      rw [hs]
      rfl
    exact ⟨trivial, hnone hlive⟩
  | stamped hs =>
    rw [hs] at htask
    exact ⟨CallSound.mono htask hle rfl rfl fun _ hr => hr, houtcomes⟩
  | recorded hs hu hr =>
    rw [hs] at htask
    refine ⟨trivial, fun o ho => ?_⟩
    rcases List.mem_append.mp ho with ho | ho
    · exact houtcomes o ho
    · rw [List.mem_singleton.mp ho]
      exact htask
  | ended => exact ⟨trivial, houtcomes⟩

theorem sound_step (hi : ∀ c ∈ w.claims, ClaimSound w.clock c) (hl : LeaseInv env w)
    (hle : w.clock ≤ e.time) (h : w.Moves env e w') : ∀ c ∈ w'.claims, ClaimSound w'.clock c := by
  cases h with
  | phased => exact fun c hc => (hi c hc).mono hle
  | enqueued => exact fun c hc => (hi c hc).mono hle
  | claimed hp hr h hphase =>
    intro c hc
    rcases List.mem_append.mp hc with hc | hc
    · exact (hi c hc).mono hle
    · obtain ⟨job, -, rfl⟩ := List.mem_map.mp hc
      refine ⟨?_, nofun⟩
      rcases hphase with rfl | ⟨rfl, -⟩
      · trivial
      · rfl
  | moved hc h =>
    intro d hd
    rcases List.mem_or_eq_of_mem_set hd with hd | rfl
    · exact (hi d hd).mono hle
    · have hmem := List.mem_of_getElem? hc
      exact (hi _ hmem).moved hle (hl.running _ hmem) h

theorem sound_of_reachable {G : System.Guard World Event}
    (hG : ∀ w e w', G w e w' → w.clock ≤ e.time) (h : (fleet env).Reachable G w) :
    ∀ c ∈ w.claims, ClaimSound w.clock c := by
  apply h.invariant
  · simp [fleet, World.initial]
  · intro s e s' hs hi hstep hg
    exact sound_step hi (leaseInv_of_reachable hs) (hG s e s' hg) (World.step_moves hstep)

def Delivered (a : DeliveryAttempt) : Prop := ∃ n, a.statusCode = some n ∧ 200 ≤ n ∧ n ≤ 299

theorem isSuccess_iff {status : UInt16} :
    isSuccess status = true ↔ 200 ≤ (status.toNat : ℤ) ∧ (status.toNat : ℤ) ≤ 299 := by
  simp only [isSuccess, Bool.and_eq_true, decide_eq_true_eq]
  omega

theorem FailureCode.not_delivered {code : Option UInt16} (h : FailureCode code) :
    ¬ ∃ n, code.map (fun c => (c.toNat : ℤ)) = some n ∧ 200 ≤ n ∧ n ≤ 299 := by
  rintro ⟨n, hn, hrange⟩
  obtain ⟨status, rfl, rfl⟩ := Option.map_eq_some_iff.mp hn
  have hf := h status rfl
  rw [isSuccess_iff.mpr hrange] at hf
  cases hf

section
variable {call : RecordCall} {now next : Time} (h : CallSound clock c call)
include h

theorem CallSound.of_succeeded (hst : call.outcome.status = .succeeded) :
    ∃ status d, call = .success status d ∧ isSuccess status = true ∧ c.Received status := by
  cases call with
  | success status d => exact ⟨status, d, rfl, h.1, h.2.1⟩
  | retry code error d next => cases hst
  | finalFailure code error d => cases hst

theorem CallSound.of_failed (hst : call.outcome.status = .failed) :
    c.job.deadlineAt ≤ clock := by
  cases call with
  | success status d => cases hst
  | retry code error d next => cases hst
  | finalFailure code error d => exact h.2.1

theorem CallSound.next_le (hnext : call.outcome.nextAttemptAt = some next) :
    next ≤ c.job.deadlineAt := by
  cases call with
  | success status d => cases hnext
  | retry code error d next' =>
    cases hnext
    rcases h with ⟨-, now, -, -, -, hclamp⟩
    exact hclamp
  | finalFailure code error d => cases hnext

/-- A failure that is decided before the deadline is retried. -/
theorem CallSound.retried (hnow : c.decidedAt = some now) (hbefore : now < c.job.deadlineAt) :
    RetriesBy now c.job.deadlineAt call := by
  cases call with
  | success status d =>
    rw [h.2.2] at hnow
    cases hnow
  | retry code error d next =>
    rcases h with ⟨-, now', hnow', -, hnext, hclamp⟩
    rw [hnow, Option.some.injEq] at hnow'
    exact ⟨rfl, next, rfl, hnow' ▸ hnext, hclamp⟩
  | finalFailure code error d => exact absurd (h.2.2 now hnow) (not_le.mpr hbefore)

end

theorem RowOf.delivered (h : RowOf c o a) (hs : CallSound clock c o.call) (ha : Delivered a) :
    ∃ status d, o.call = .success status d ∧ isSuccess status = true ∧ c.Received status := by
  rw [Delivered, h.statusCode] at ha
  cases hcall : o.call with
  | success status d =>
    rw [hcall] at hs
    exact ⟨status, d, rfl, hs.1, hs.2.1⟩
  | retry code error d next =>
    rw [hcall] at hs ha
    exact absurd ha hs.1.not_delivered
  | finalFailure code error d =>
    rw [hcall] at hs ha
    exact absurd ha hs.1.not_delivered

theorem outcomes_eq_singleton (hl : LeaseInv env w) (hc : c ∈ w.claims) (ho : o ∈ c.outcomes) :
    c.outcomes = [o] := by
  have hlen := hl.single c hc
  match hout : c.outcomes, hlen with
  | [], _ =>
    rw [hout] at ho
    cases ho
  | [o'], _ =>
    rw [hout, List.mem_singleton] at ho
    rw [ho]

/-- A job with a delivered attempt has succeeded. -/
theorem succeeded_of_delivered (hl : LeaseInv env w) (ho : OutcomeInv w)
    (hs : ∀ c ∈ w.claims, ClaimSound w.clock c) (hj : j ∈ w.tables.deliveryJobs)
    (ha : a ∈ w.tables.attemptsOf j.id) (hd : Delivered a) : j.status = .succeeded := by
  obtain ⟨hmem, hid⟩ := mem_attemptsOf.mp ha
  obtain ⟨c, hc, o, hoc, hrow⟩ := ho.rows a hmem
  obtain ⟨status, d, hcall, -, -⟩ := hrow.delivered ((hs c hc).outcomes o hoc) hd
  have hout := outcomes_eq_singleton hl hc hoc
  have hcid : c.job.id = j.id := hrow.jobId.symm.trans hid
  obtain ⟨i, hi⟩ := List.mem_iff_getElem?.mp hc
  have hlatest : w.Latest i c := by
    refine ⟨hi, fun k b hb hbid => ?_⟩
    by_contra hik
    rcases hl.past i c k b hi hb (not_le.mp hik) hbid with hnil | ⟨o', ho', hst⟩
    · rw [hnil] at hout
      cases hout
    · rw [hout, List.singleton_inj] at ho'
      rw [← ho', hcall] at hst
      cases hst
  rcases hl.jobs j hj with ⟨-, hno⟩ | ⟨k, b, hb, hbid, hex⟩
  · exact absurd hcid (hno c hc)
  · obtain ⟨-, rfl⟩ := hlatest.eq hb (hbid.trans hcid.symm)
    cases hex with
    | holding hnil =>
      rw [hnil] at hout
      cases hout
    | resolved hsome hstatus =>
      rw [hout, List.singleton_inj] at hsome
      rw [hstatus, ← hsome, hcall]
      rfl

/-- The outcome that closed a job, with the claim that recorded it. -/
theorem closed_by (hl : LeaseInv env w) (hj : j ∈ w.tables.deliveryJobs)
    (hterm : j.status.isTerminal = true) : ∃ i c, w.Latest i c ∧ ∃ o ∈ c.outcomes,
      c.job.id = j.id ∧ o.call.outcome.status = j.status ∧ j.attemptCount = c.attempt ∧
        j.completedAt = some o.recordedAt := by
  rcases hl.jobs j hj with ⟨hq, -⟩ | ⟨i, c, hc, hid, hex⟩
  · rw [hq] at hterm
    cases hterm
  · cases hex with
    | holding _ hstatus =>
      rw [hstatus] at hterm
      cases hterm
    | @resolved o hout hstatus _ _ hcount hclosed =>
      exact ⟨i, c, hc, o, by simp [hout], hid, hstatus.symm, hcount, hclosed hterm⟩

/-- The last attempt row of a job is the one of the outcome that set its count. -/
theorem last_attempt (hc : LedgerInv w.store) (ho : OutcomeInv w) (hj : j ∈ w.tables.deliveryJobs)
    {c : Claim} (hmem : c ∈ w.claims) (hoc : o ∈ c.outcomes) (hid : c.job.id = j.id)
    (hcount : j.attemptCount = c.attempt) :
    ∃ a, (w.tables.attemptsOf j.id).getLast? = some a ∧ RowOf c o a := by
  have hcoh := hc.coherent j hj
  obtain ⟨a, ha, hrow⟩ := ho.outcomes c hmem o hoc
  have hpos : 0 < j.attemptCount := by
    rw [hcount, ← hrow.number]
    exact a.number_pos
  obtain ⟨b, hb, hk⟩ := hcoh.exists_number hpos le_rfl
  rw [DeliveryAttempt.key, Prod.mk.injEq] at hk
  have hne : w.tables.attemptsOf j.id ≠ [] :=
    List.ne_nil_of_mem (mem_attemptsOf.mpr ⟨hb, hk.1⟩)
  refine ⟨(w.tables.attemptsOf j.id).getLast hne, List.getLast?_eq_some_getLast hne, ?_⟩
  have hlast := hcoh.last _ (List.getLast?_eq_some_getLast hne)
  have hlmem := mem_attemptsOf.mp (List.getLast_mem hne)
  have heq : (w.tables.attemptsOf j.id).getLast hne = a := by
    apply Table.eq_of_key_eq hlmem.1 ha
    rw [DeliveryAttempt.key, DeliveryAttempt.key, hlmem.2, hlast.1, hrow.jobId, hrow.number, hid,
      hcount]
  rwa [heq]

/-- Under one non-decreasing clock, a success stands for a received 2xx, a failure for a passed
deadline without any 2xx, an open job has seen none, and before the deadline every failed attempt
is retried no later than the deadline: so is every outcome that is committed for it, and so says
the record call that its task, unless it has died, is about to make. -/
theorem verdicts_sound (env : Env) {w : World} (h : (fleet env).Reachable clocked w) :
    (∀ j ∈ w.tables.deliveryJobs, j.status = .succeeded →
      ∃ a, (w.tables.attemptsOf j.id).getLast? = some a ∧ Delivered a ∧
        ∃ c ∈ w.claims, ∃ o ∈ c.outcomes, RowOf c o a ∧
          ∃ status, a.statusCode = some (status.toNat : ℤ) ∧ c.Received status) ∧
    (∀ j ∈ w.tables.deliveryJobs, j.status = .failed →
      (∃ completedAt, j.completedAt = some completedAt ∧ j.deadlineAt ≤ completedAt) ∧
        ∀ a ∈ w.tables.attemptsOf j.id, ¬ Delivered a) ∧
    (∀ j ∈ w.tables.deliveryJobs,
      j.status = .queued ∨ j.status = .delivering ∨ j.status = .retrying →
        ∀ a ∈ w.tables.attemptsOf j.id, ¬ Delivered a) ∧
    (∀ c ∈ w.claims, ∀ j ∈ w.tables.deliveryJobs, j.id = c.job.id →
      ∀ now, c.decidedAt = some now → now < j.deadlineAt →
        (∀ o ∈ c.outcomes, RetriesBy now j.deadlineAt o.call) ∧
          (c.task.isEnded = true ∨
            ∃ call, c.task.call = some call ∧ RetriesBy now j.deadlineAt call)) := by
  have hl := leaseInv_of_reachable h
  have hc := ledgerInv_of_fleet h
  have ho := outcomeInv_of_reachable h
  have hs := sound_of_reachable (fun _ _ _ hg => hg.1) h
  refine ⟨fun j hj hst => ?_, fun j hj hst => ⟨?_, ?_⟩, fun j hj hst a ha hd => ?_, ?_⟩
  · obtain ⟨i, c, hlatest, o, hoc, hid, hostatus, hcount, -⟩ :=
      closed_by hl hj (isTerminal_iff.mpr (.inl hst))
    have hmem := List.mem_of_getElem? hlatest.present
    obtain ⟨a, hlast, hrow⟩ := last_attempt hc ho hj hmem hoc hid hcount
    obtain ⟨status, d, hcall, hok, hreceived⟩ :=
      ((hs c hmem).outcomes o hoc).of_succeeded (hostatus.trans hst)
    have hcode : a.statusCode = some (status.toNat : ℤ) := by
      rw [hrow.statusCode, hcall]
      rfl
    exact ⟨a, hlast, ⟨_, hcode, isSuccess_iff.mp hok⟩, c, hmem, o, hoc, hrow, status, hcode,
      hreceived⟩
  · obtain ⟨i, c, hlatest, o, hoc, hid, hostatus, -, hclosed⟩ :=
      closed_by hl hj (isTerminal_iff.mpr (.inr hst))
    have hmem := List.mem_of_getElem? hlatest.present
    refine ⟨o.recordedAt, hclosed, ?_⟩
    rw [(hc.snapshot (List.mem_map_of_mem hmem) hj hid.symm).deadlineAt]
    exact ((hs c hmem).outcomes o hoc).of_failed (hostatus.trans hst)
  · intro a ha hd
    rw [succeeded_of_delivered hl ho hs hj ha hd] at hst
    cases hst
  · rw [succeeded_of_delivered hl ho hs hj ha hd] at hst
    rcases hst with hst | hst | hst <;> cases hst
  · intro c hmem j hj hid now hnow hbefore
    rw [(hc.snapshot (List.mem_map_of_mem hmem) hj hid).deadlineAt] at hbefore ⊢
    refine ⟨fun o hoc => ((hs c hmem).outcomes o hoc).retried hnow hbefore, ?_⟩
    refine ((hs c hmem).task.decided hnow).imp_right ?_
    rintro ⟨call, clock, hcall, hsound⟩
    exact ⟨call, hcall, hsound.retried hnow hbefore⟩

theorem verdicts_sound_delivered : ∃ w, (fleet sampleEnv).Reachable clocked w ∧
    w.tables.deliveryJobs.rows.map (·.status) = [.succeeded] ∧
    ∀ j ∈ w.tables.deliveryJobs, j.status = .succeeded →
      ∃ a, (w.tables.attemptsOf j.id).getLast? = some a ∧ Delivered a ∧
        ∃ c ∈ w.claims, ∃ o ∈ c.outcomes, RowOf c o a ∧
          ∃ status, a.statusCode = some (status.toNat : ℤ) ∧ c.Received status := by
  obtain ⟨w, hw, hp⟩ := System.exists_reachable_of_run (fleet sampleEnv) clocked delivered
    (fun w => w.tables.deliveryJobs.rows.map (·.status) = [.succeeded]) (by decide)
  exact ⟨w, hw, of_decide_eq_true hp, (verdicts_sound sampleEnv hw).1⟩

def Event.enqueued (e : Event) : Option Enqueue :=
  match e.action with
  | .enqueue q => some q
  | _ => none

/-- One clock, and events with a non-negative retry window only. -/
def clockedWindows : System.Guard World Event := fun w e w' =>
  clocked w e w' ∧ ∀ q ∈ e.enqueued, 0 ≤ q.retryWindow

instance (w : World) (e : Event) (w' : World) : Decidable (clockedWindows w e w') :=
  inferInstanceAs (Decidable (_ ∧ _))

/-- The schedule of a job never passes its deadline. -/
theorem next_before_deadline (h : (fleet env).Reachable clockedWindows w)
    (hj : j ∈ w.tables.deliveryJobs) : j.nextAttemptAt ≤ j.deadlineAt := by
  have hc := ledgerInv_of_fleet h
  have hnext := (hc.coherent j hj).nextAttemptAt
  split at hnext
  case h_1 =>
    have hw : ledger.Reachable windowed w.store := by
      refine fleet_refines_ledger (fun w e w' a hg hq q ha => ?_) h
      exact hg.2 q (by simp only [Event.enqueued, hq q ha, Option.mem_def])
    rw [Option.some.injEq] at hnext
    rw [hnext]
    exact created_before_deadline hw j hj
  case h_2 a hlast =>
    -- the last row that announced a retry is the outcome of a claim, and keeps its deadline
    have hmem := List.mem_filter.mp (List.mem_of_getLast? hlast)
    obtain ⟨ha, hid⟩ := mem_attemptsOf.mp hmem.1
    obtain ⟨c, hcm, o, hoc, hrow⟩ := (outcomeInv_of_reachable h).rows a ha
    have hsound := (sound_of_reachable (fun _ _ _ hg => hg.1.1) h c hcm).outcomes o hoc
    rw [hrow.nextAttemptAt] at hnext
    rw [(hc.snapshot (List.mem_map_of_mem hcm) hj (hid.symm.trans hrow.jobId)).deadlineAt]
    exact hsound.next_le hnext.symm

/-- Every job is in one of the column patterns of the schema, is scheduled by its deadline, and
satisfies the claim condition at every clock value past its deadline and past its lock, unless it
is closed. -/
theorem no_job_stranded (env : Env) {w : World} (h : (fleet env).Reachable clockedWindows w) :
    ∀ j ∈ w.tables.deliveryJobs,
      (j.status = .delivering ↔ j.lockedAt.isSome = true) ∧
      (j.lockedAt.isSome = true ↔ j.lockedBy.isSome = true) ∧
      (j.status = .succeeded ∨ j.status = .failed ↔ j.completedAt.isSome = true) ∧
      j.nextAttemptAt ≤ j.deadlineAt ∧
      (¬ (j.status = .succeeded ∨ j.status = .failed) → ∀ stale now, j.deadlineAt < now →
        (∀ l ∈ j.lockedAt, l + seconds stale < now) → isDue now stale j = true) := by
  intro j hj
  have hp := rowPattern_of_reachable
    (fleet_refines_ledger (K := System.free) (fun _ _ _ _ _ _ => trivial) h) j hj
  have hnext := next_before_deadline h hj
  refine ⟨hp.lockedAt, hp.lockedAt.symm.trans hp.lockedBy, hp.completedAt, hnext, ?_⟩
  intro hopen stale now hdeadline hlock
  exact hp.isDue hopen (hnext.trans hdeadline.le) hlock

theorem no_job_stranded_retrying : ∃ w, (fleet sampleEnv).Reachable clockedWindows w ∧
    w.tables.deliveryJobs.rows.map (·.status) = [.retrying] ∧
    ∀ j ∈ w.tables.deliveryJobs, ¬ (j.status = .succeeded ∨ j.status = .failed) →
      ∀ stale now, j.deadlineAt < now → (∀ l ∈ j.lockedAt, l + seconds stale < now) →
        isDue now stale j = true := by
  obtain ⟨w, hw, hp⟩ := System.exists_reachable_of_run (fleet sampleEnv) clockedWindows takenOver
    (fun w => w.tables.deliveryJobs.rows.map (·.status) = [.retrying]) (by decide)
  exact ⟨w, hw, of_decide_eq_true hp, fun j hj => (no_job_stranded sampleEnv hw j hj).2.2.2.2⟩

end ResendRouter.Delivery
