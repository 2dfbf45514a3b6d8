import ResendRouter.Delivery.Backoff
import ResendRouter.Delivery.Verdicts

/-! # Due jobs are taken in the order of their schedule

A claim call takes due rows in the order of `next_attempt_at`. A due job that it
leaves out is passed over by a full batch of rows scheduled no later, and until
the locks can get stale no row is part of two such batches.
-/

namespace ResendRouter.Delivery
open Foundation Program Database

variable {env : Env} {time start x : Time} {t t' : Tables} {c : Claim} {u v w w' : World}
  {j k : DeliveryJob} {id : Uuid}

section Picked
variable {limit stale : ℤ} {now : Time} {skip : List Uuid}

/-- A due row is left out only by a full batch of rows that are scheduled no later. -/
theorem picked_before (hj : j ∈ t.deliveryJobs) (hdue : isDue now stale j = true)
    (hskip : j.id ∉ skip) (hout : j.id ∉ picked t limit stale now skip) :
    (picked t limit stale now skip).length = limit.toNat ∧
      ∀ id ∈ picked t limit stale now skip, ∃ k ∈ t.deliveryJobs, k.id = id ∧
        isDue now stale k = true ∧ k.nextAttemptAt ≤ j.nextAttemptAt := by
  have hmem : j ∈ t.deliveryJobs.rows.filter
      fun j => isDue now stale j && ! skip.contains j.id :=
    List.mem_filter.mpr ⟨hj, by simp [hdue, hskip]⟩
  have : Std.Total fun a b : DeliveryJob => a.nextAttemptAt ≤ b.nextAttemptAt :=
    ⟨fun _ _ => le_total _ _⟩
  have : IsTrans DeliveryJob fun a b => a.nextAttemptAt ≤ b.nextAttemptAt :=
    ⟨fun _ _ _ => le_trans⟩
  obtain ⟨hlength, hle⟩ := rel_of_not_mem_take (n := limit.toNat) hmem fun h =>
    hout (List.mem_map_of_mem h)
  refine ⟨by rw [picked, List.length_map, hlength], fun id hid => ?_⟩
  obtain ⟨k, hk, rfl⟩ := List.mem_map.mp hid
  have hf := (List.mem_insertionSort _).mp (List.mem_of_mem_take hk)
  simp only [List.mem_filter, Bool.and_eq_true] at hf
  exact ⟨k, hf.1, rfl, hf.2.1, hle k hk⟩

theorem picked_nodup : (picked t limit stale now skip).Nodup := by
  have hfilter := (List.filter_sublist (p := fun j => isDue now stale j && ! skip.contains j.id)
    (l := t.deliveryJobs.rows)).map DeliveryJob.id |>.nodup t.deliveryJobs.unique
  refine ((List.take_sublist _ _).map DeliveryJob.id).nodup ?_
  rw [((List.perm_insertionSort _ _).map DeliveryJob.id).nodup_iff]
  exact hfilter

end Picked

/-- The row may pass over a job that is scheduled at `x`: it waits and is scheduled no later, or
it was locked before `start`. -/
def ahead (x start : Time) (j : DeliveryJob) : Bool :=
  ((j.status = .queued || j.status = .retrying) && j.nextAttemptAt ≤ x) ||
    (j.status = .delivering && j.lockedAt.any (· < start))

def aheadIds (x start : Time) (t : Tables) : List Uuid :=
  (t.deliveryJobs.rows.filter (ahead x start)).map DeliveryJob.id

theorem mem_aheadIds :
    id ∈ aheadIds x start t ↔ ∃ j ∈ t.deliveryJobs, ahead x start j = true ∧ j.id = id := by
  simp [aheadIds, Table.mem_def, and_assoc]

theorem aheadIds_nodup : (aheadIds x start t).Nodup :=
  (List.filter_sublist.map DeliveryJob.id).nodup t.deliveryJobs.unique

theorem length_aheadIds (h : aheadIds x start t' ⊆ aheadIds x start t) :
    (aheadIds x start t').length ≤ (aheadIds x start t).length :=
  (List.subperm_of_subset aheadIds_nodup h).length_le

/-- A row that is due and sorts before the job is ahead of it, as long as no lock that was taken
after `start` is stale. -/
theorem ahead_of_due {now : Time} {stale : ℤ} (hdue : isDue now stale k = true)
    (hle : k.nextAttemptAt ≤ x) (hstale : now - seconds stale ≤ start) :
    ahead x start k = true := by
  simp only [isDue, ahead, Bool.or_eq_true, Bool.and_eq_true, decide_eq_true_eq,
    Option.any_eq_true] at hdue ⊢
  rcases hdue with ⟨hwaiting, -⟩ | ⟨hlocked, l, hl, hlate⟩
  · exact .inl ⟨hwaiting, hle⟩
  · exact .inr ⟨hlocked, l, hl, hlate.trans_le hstale⟩

theorem not_ahead_claimRow {workerId : String} {now : Time} (hnow : start ≤ now) :
    ahead x start (claimRow workerId now k) = false := by
  simp [ahead, claimRow, hnow]

section Claimed
variable {jobs : List ClaimedJob} {workerId : String} {stale limit : ℤ} {now : Time}
  {skip : List Uuid}

theorem aheadIds_claimed (h : Claimed t t' jobs workerId stale now) (hnow : start ≤ now) :
    aheadIds x start t' ⊆ aheadIds x start t := by
  intro id hid
  obtain ⟨r, hr, hahead, rfl⟩ := mem_aheadIds.mp hid
  obtain ⟨j, hj, ⟨-, rfl⟩ | ⟨-, rfl⟩⟩ := (h.rows r).mp hr
  · rw [not_ahead_claimRow hnow] at hahead
    cases hahead
  · exact mem_aheadIds.mpr ⟨r, hj, hahead, rfl⟩

/-- A batch that passes over the job takes as many rows out of those ahead. -/
theorem aheadIds_passed (hj : j ∈ t.deliveryJobs) (hdue : isDue now stale j = true)
    (hskip : j.id ∉ skip) (hnow : start ≤ now) (hstale : now - seconds stale ≤ start)
    (h : claimDueJobs t workerId limit stale now skip = ⟨.ok jobs, t'⟩)
    (hj' : j ∈ t'.deliveryJobs) (hwaiting : j.status ≠ .delivering) :
    limit.toNat + (aheadIds j.nextAttemptAt start t').length ≤
      (aheadIds j.nextAttemptAt start t).length := by
  have ht' : t' = claimTables t (picked t limit stale now skip) workerId now := by
    simp only [claimDueJobs] at h
    split_ifs at h
    · cases h
    · cases h
    · cases h
    · exact (Reply.mk.inj h).2.symm
  have hrows : ∀ r ∈ t'.deliveryJobs, r.id ∈ picked t limit stale now skip →
      ∃ k, r = claimRow workerId now k := by
    intro r hr hid
    rw [ht', claimTables, Tables.mem_updateJobs] at hr
    obtain ⟨k, -, rfl⟩ := hr
    refine ⟨k, if_pos ?_⟩
    split at hid
    case isTrue hk => exact hk
    case isFalse => exact List.contains_iff_mem.mpr hid
  have hout : j.id ∉ picked t limit stale now skip := by
    intro hid
    obtain ⟨k, hk⟩ := hrows j hj' hid
    exact hwaiting (by rw [hk]; rfl)
  obtain ⟨hfull, hbefore⟩ := picked_before hj hdue hskip hout
  have hsub : aheadIds j.nextAttemptAt start t' ⊆ aheadIds j.nextAttemptAt start t := by
    rcases claimDueJobs_cases t workerId limit stale now skip with ⟨e, he⟩ | ⟨js, s, hs, hc⟩
    · rw [he] at h
      cases h
    · rw [hs] at h
      obtain rfl := (Reply.mk.inj h).2
      exact aheadIds_claimed hc hnow
  have hnodup : (picked t limit stale now skip ++ aheadIds j.nextAttemptAt start t').Nodup := by
    refine List.nodup_append.mpr ⟨picked_nodup, aheadIds_nodup, ?_⟩
    rintro id hid _ hid' rfl
    obtain ⟨r, hr, hahead, rfl⟩ := mem_aheadIds.mp hid'
    obtain ⟨k, rfl⟩ := hrows r hr hid
    rw [not_ahead_claimRow hnow] at hahead
    cases hahead
  rw [← hfull, ← List.length_append]
  refine (List.subperm_of_subset hnodup (List.append_subset.mpr ⟨fun id hid => ?_, hsub⟩)).length_le
  obtain ⟨k, hk, rfl, hkdue, hle⟩ := hbefore id hid
  exact mem_aheadIds.mpr ⟨k, hk, ahead_of_due hkdue hle hstale, rfl⟩

end Claimed

theorem locked_since (h : (fleet env).Reachable clocked w) :
    ∀ c ∈ w.claims, w.Since c c.lockedAt := by
  apply h.invariant
  · simp [fleet, World.initial]
  · intro w e w' hw hi hstep hg
    cases World.step_moves hstep with
    | phased => exact fun c hc => (hi c hc).later hg.1
    | enqueued => exact fun c hc => (hi c hc).later hg.1
    | claimed hp hr h hphase =>
      intro c hc
      rcases List.mem_append.mp hc with hc | hc
      · exact (hi c hc).later hg.1
      · obtain ⟨job, -, rfl⟩ := List.mem_map.mp hc
        refine ⟨hg.2 _ rfl, ?_⟩
        rintro _ ⟨⟩
    | moved hc h =>
      intro d hd
      rcases List.mem_or_eq_of_mem_set hd with hd | rfl
      · exact (hi d hd).later hg.1
      · rw [h.claim_same.lockedAt]
        exact (hi _ (List.mem_of_getElem? hc)).moved h hg.1 rfl

theorem aheadIds_refreshed {job : ClaimedJob} {url : String} (h : Refreshed t t' job url) :
    aheadIds x start t' ⊆ aheadIds x start t := by
  intro id hid
  obtain ⟨r, hr, hahead, rfl⟩ := mem_aheadIds.mp hid
  obtain ⟨k, hk, rfl⟩ := (h.rows r).mp hr
  refine mem_aheadIds.mpr ⟨k, hk, ?_, by split <;> rfl⟩
  split at hahead
  · exact hahead
  · exact hahead

/-- A retry that is decided under a lock taken after `start` is scheduled after `start`. -/
theorem aheadIds_recorded {o : Outcome} {job : ClaimedJob} {d : ℤ} {now : Time}
    {a : DeliveryAttempt} (h : Recorded o t t' job d now a) (ho : o.Legal)
    (hlate : ∀ k ∈ t.deliveryJobs, lockedRow job k = true → ∀ next, o.nextAttemptAt = some next →
      next ≤ x → k.lockedAt.any (· < start) = true) :
    aheadIds x start t' ⊆ aheadIds x start t := by
  intro id hid
  obtain ⟨r, hr, hahead, rfl⟩ := mem_aheadIds.mp hid
  obtain ⟨k, hk, rfl⟩ := (h.jobs r).mp hr
  by_cases hl : lockedRow job k = true
  · rw [if_pos hl] at hahead ⊢
    refine mem_aheadIds.mpr ⟨k, hk, ?_, rfl⟩
    have hretry : o.status = .retrying := by
      cases hs : o.status with
      | retrying => rfl
      | queued => exact absurd hs ho.released.2
      | delivering => exact absurd hs ho.released.1
      | _ => simp [ahead, Outcome.row, hs] at hahead
    have hnext : a.nextAttemptAt = o.nextAttemptAt :=
      (newDeliveryAttempt_ok h.made).2.2.2.2.2.2
    have hle : o.nextAttemptAt.getD k.nextAttemptAt ≤ x := by
      simpa [ahead, Outcome.row, hretry, hnext] using hahead
    have hopen : o.willRetry = true := by
      by_contra hno
      have hterminal := ho.terminal.mpr (Bool.not_eq_true _ ▸ hno)
      rw [hretry] at hterminal
      cases hterminal
    obtain ⟨next, hnext⟩ := Option.isSome_iff_exists.mp (ho.scheduled.mp hopen)
    have hold := hlate k hk hl next hnext (by simpa [hnext] using hle)
    simp [ahead, (lockedRow_iff.mp hl).2.2, hold]
  · rw [if_neg hl] at hahead ⊢
    exact mem_aheadIds.mpr ⟨k, hk, hahead, rfl⟩

/-- No step but a claim or an enqueue moves a row ahead, and a claim takes rows away. -/
theorem aheadIds_moved {i : ℕ} {c' : Claim} (hw : (fleet env).Reachable clocked w)
    (hw' : (fleet env).Reachable clocked w') (hx : x ≤ start) (hc : w.claims[i]? = some c)
    (h : TaskMove env time w.tables c w'.tables c') (hc' : c' ∈ w'.claims) :
    aheadIds x start w'.tables ⊆ aheadIds x start w.tables := by
  cases h.effect with
  | quiet ht ho => rw [ht]; exact List.Subset.refl _
  | refreshed hlive held href => exact aheadIds_refreshed href
  | @recorded call now a hlive hrec ho hended =>
    refine aheadIds_recorded hrec call.outcome_legal fun k hk hl next hnext hle => ?_
    have hlease := leaseInv_of_reachable hw
    obtain ⟨hlatest, hnone⟩ := hlease.fence hc hlive hk hl
    rcases hlease.jobs k hk with ⟨hqueued, -⟩ | ⟨m, d, hd, hid, hex⟩
    · rw [(lockedRow_iff.mp hl).2.2] at hqueued
      cases hqueued
    obtain ⟨rfl, rfl⟩ := hlatest.eq hd (hid.trans (lockedRow_iff.mp hl).1)
    cases hex with
    | resolved hout => rw [hnone] at hout; cases hout
    | holding hout hstatus hby hat hcount =>
      rw [hat, Option.any_some, decide_eq_true_eq]
      have hs : c'.Scheduled next := ⟨_, ho ▸ List.mem_append_right _ List.mem_cons_self, hnext⟩
      obtain ⟨n, hn, -, hlt, -⟩ := (drawn_of_reachable hw' c' hc').schedule hs
      have hsince := (locked_since hw' c' hc').2 n hn
      rw [h.claim_same.lockedAt] at hsince
      linarith

/-- A claim statement could take the row: it is due, not locked by others, and the statement does
not fail. -/
def couldTake (env : Env) (t : Tables) (j : DeliveryJob) (workerId : String) (now : Time)
    (skip : List Uuid) : Bool :=
  textOk workerId && ! staleBoundFails t (env.config workerId).staleDeliveryLockSecs now &&
    ! skip.contains j.id && isDue now (env.config workerId).staleDeliveryLockSecs j

/-- The size of the batch of a claim call that could have taken the row. -/
def Event.batch (env : Env) (t : Tables) (j : DeliveryJob) (e : Event) : ℕ :=
  match e.action with
  | .claim _ _ _ .never => 0
  | .claim workerId now skip _ =>
    if couldTake env t j workerId now skip then (env.config workerId).deliveryClaimLimit.toNat
    else 0
  | _ => 0

/-- The number of jobs of an event that was received no later than `x` and is only now stored. -/
def Event.belated (x : Time) (e : Event) : ℕ :=
  match e.enqueued with
  | some q => if q.now ≤ x then q.destinations.length else 0
  | none => 0

/-- A claim statement runs after `start`, and before a lock taken then gets stale. -/
def Event.Prompt (env : Env) (start : Time) (e : Event) : Prop :=
  match e.action with
  | .claim workerId now _ _ => start ≤ now ∧
      now - seconds (env.config workerId).staleDeliveryLockSecs ≤ start
  | _ => True

instance (e : Event) : Decidable (e.Prompt env start) := by
  unfold Event.Prompt
  split <;> infer_instance

/-- A fleet with two counters: the places in the batches that passed over a job, and the jobs that
were stored belatedly. -/
structure Queue where
  world : World
  passed : ℕ
  belated : ℕ

def queue (env : Env) (j : DeliveryJob) : System Queue Event where
  init := ⟨.initial, 0, 0⟩
  step q e := (q.world.step env e).map fun w =>
    ⟨w, q.passed + e.batch env q.world.tables j, q.belated + e.belated j.nextAttemptAt⟩

def waits (env : Env) (j : DeliveryJob) (start : Time) : System.Guard Queue Event := fun q e q' =>
  clocked q.world e q'.world ∧ e.Prompt env start ∧ j ∈ q'.world.tables.deliveryJobs

instance (q : Queue) (e : Event) (q' : Queue) : Decidable (waits env j start q e q') :=
  inferInstanceAs (Decidable (_ ∧ _ ∧ j ∈ q'.world.tables.deliveryJobs.rows))

theorem batch_le {workerId : String} {now : Time} {skip : List Uuid} {fate : Fate} :
    Event.batch env t j ⟨time, .claim workerId now skip fate⟩ ≤
      if couldTake env t j workerId now skip then (env.config workerId).deliveryClaimLimit.toNat
      else 0 := by
  cases fate with
  | never => exact Nat.zero_le _
  | _ => exact le_rfl

theorem batch_of_error {workerId : String} {now : Time} {skip : List Uuid} {fate : Fate}
    {e : DbError} (h : claimDueJobs t workerId (env.config workerId).deliveryClaimLimit
      (env.config workerId).staleDeliveryLockSecs now skip = ⟨.error e, t'⟩) :
    Event.batch env t j ⟨time, .claim workerId now skip fate⟩ = 0 := by
  refine Nat.le_zero.mp (batch_le.trans_eq ?_)
  simp only [claimDueJobs] at h
  split_ifs at h with htext hlimit hstale
  · simp [couldTake, htext]
  · rw [Int.toNat_of_nonpos hlimit.le, ite_self]
  · simp [couldTake, hstale]
  · cases h

/-- One claim call takes its batch out of the rows ahead. -/
theorem claim_passes {workerId : String} {now : Time} {skip : List Uuid} {fate : Fate}
    (hs : w.step env ⟨time, .claim workerId now skip fate⟩ = some w')
    (hwaiting : j.status ≠ .delivering) (hj : j ∈ w.tables.deliveryJobs)
    (hj' : j ∈ w'.tables.deliveryJobs)
    (hprompt : Event.Prompt env start ⟨time, .claim workerId now skip fate⟩) :
    Event.batch env w.tables j ⟨time, .claim workerId now skip fate⟩ +
        (aheadIds j.nextAttemptAt start w'.tables).length ≤
      (aheadIds j.nextAttemptAt start w.tables).length := by
  obtain ⟨hnow, hstale⟩ := hprompt
  obtain ⟨v, hv, rfl⟩ := Option.map_eq_some_iff.mp hs
  simp only [World.act, World.claim] at hv
  split at hv
  case h_1 =>
    cases hv
    simp [Event.batch]
  case h_3 => cases hv
  case h_2 =>
    rcases claimDueJobs_cases w.tables workerId (env.config workerId).deliveryClaimLimit
      (env.config workerId).staleDeliveryLockSecs now skip with ⟨err, hr⟩ | ⟨jobs, t, hr, hc⟩
    · simp only [hr, Option.some.injEq] at hv
      subst hv
      rw [batch_of_error hr, Nat.zero_add]
    · simp only [hr, Option.some.injEq] at hv
      subst hv
      refine (Nat.add_le_add_right batch_le _).trans ?_
      by_cases hcan : couldTake env w.tables j workerId now skip = true
      · rw [if_pos hcan]
        simp only [couldTake, Bool.and_eq_true, Bool.not_eq_true', ← Bool.not_eq_true,
          List.contains_iff_mem] at hcan
        exact aheadIds_passed hj hcan.2 hcan.1.2 hnow hstale hr hj' hwaiting
      · rw [if_neg hcan, Nat.zero_add]
        exact length_aheadIds (aheadIds_claimed hc hnow)

theorem enqueue_belated {q : Enqueue} {e : WebhookEvent} {deadlineAt : Time}
    {js : List DeliveryJob} (h : Enqueued q t t' e deadlineAt js) :
    (aheadIds x start t').length ≤
      (aheadIds x start t).length + if q.now ≤ x then q.destinations.length else 0 := by
  have hlength : js.length = q.destinations.length := by
    simpa using congrArg List.length h.ids
  simp only [aheadIds, h.jobs, List.filter_append, List.map_append, List.length_append,
    List.length_map]
  refine Nat.add_le_add_left ?_ _
  split_ifs with hle
  · exact hlength ▸ List.length_filter_le _ _
  · rw [Nat.le_zero, List.length_eq_zero_iff, List.filter_eq_nil_iff]
    intro j hj
    obtain ⟨d, -, hf⟩ := h.queued j hj
    simp [ahead, hf.status, hf.nextAttemptAt, hle]

/-- What one step adds to the counters is paid by the rows ahead. -/
theorem queue_step {q q' : Queue} {e : Event} (hw : (fleet env).Reachable clocked q.world)
    (hwaiting : j.status ≠ .delivering) (hx : j.nextAttemptAt ≤ start)
    (hj : j ∈ q.world.tables.deliveryJobs) (hs : (queue env j).step q e = some q')
    (hg : waits env j start q e q') :
    q'.passed + (aheadIds j.nextAttemptAt start q'.world.tables).length + q.belated ≤
      q.passed + (aheadIds j.nextAttemptAt start q.world.tables).length + q'.belated := by
  obtain ⟨hclocked, hprompt, hj'⟩ := hg
  obtain ⟨w, hstep, rfl⟩ := Option.map_eq_some_iff.mp hs
  have hw' := hw.step hstep hclocked
  rcases e with ⟨time, action⟩
  cases action with
  | claim workerId now skip fate =>
    have := claim_passes hstep hwaiting hj hj' hprompt
    simp only [Event.belated, Event.enqueued]
    omega
  | enqueue enq =>
    cases World.step_moves hstep with
    | phased =>
      simp only [Event.batch]
      omega
    | enqueued ht h =>
      have : (aheadIds j.nextAttemptAt start _).length ≤ _ := enqueue_belated h
      simp only [Event.batch, Event.belated, Event.enqueued]
      omega
  | task i event =>
    cases World.step_moves hstep with
    | phased =>
      simp only [Event.batch]
      omega
    | @moved _ _ _ c t c' hc h =>
      have : (aheadIds _ start t).length ≤ _ := length_aheadIds (aheadIds_moved hw hw' hx hc h
        (List.mem_of_getElem? ((getElem?_set_some hc).mpr (.inl ⟨rfl, rfl⟩))))
      simp only [Event.batch]
      omega
  | _ =>
    cases World.step_moves hstep with
    | phased =>
      simp only [Event.batch]
      omega

def singleEnv : Env := ⟨fun _ _ => [], fun _ => { sampleConfig with deliveryClaimLimit := 1 }⟩

def secondEnqueue : Enqueue :=
  { sampleEnqueue with
    eventRowId := 8
    jobIds := fun i => BitVec.ofNat 128 (i + 9)
    now := seconds 1
    headers := [("svix-id", [0x6E]), ("svix-timestamp", [0x30])] }

end ResendRouter.Delivery
