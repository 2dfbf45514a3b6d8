import ResendRouter.Delivery.Lease
import ResendRouter.Database.Schedule

/-! # What the workers record

Every row of `delivery_attempts` is the outcome of one claim, and every outcome
follows from the response that the claim received and from the clock readings
of its task.
-/

namespace ResendRouter.Delivery
open Foundation Program Database

variable {env : Env} {time clock clock' : Time} {t t' : Tables} {c c' d : Claim} {w w' : World}
  {e : Event} {i k : ℕ} {j : DeliveryJob} {a : DeliveryAttempt} {o : Committed}

/-- The attempt row that an outcome of a claim left. -/
structure RowOf (c : Claim) (o : Committed) (a : DeliveryAttempt) : Prop where
  jobId : a.jobId = c.job.id
  number : a.attemptNumber = c.attempt
  attemptedAt : a.attemptedAt = o.recordedAt
  statusCode : a.statusCode = o.call.outcome.statusCode
  error : a.error = o.call.outcome.error
  willRetry : a.willRetry = o.call.outcome.willRetry
  nextAttemptAt : a.nextAttemptAt = o.call.outcome.nextAttemptAt

theorem RowOf.congr (h : RowOf c o a) (hjob : c'.job = c.job) : RowOf c' o a := by
  refine ⟨hjob ▸ h.jobId, ?_, h.attemptedAt, h.statusCode, h.error, h.willRetry, h.nextAttemptAt⟩
  rw [h.number, Claim.attempt, Claim.attempt, hjob]

structure OutcomeInv (w : World) : Prop where
  rows : ∀ a ∈ w.tables.deliveryAttempts, ∃ c ∈ w.claims, ∃ o ∈ c.outcomes, RowOf c o a
  outcomes : ∀ c ∈ w.claims, ∀ o ∈ c.outcomes, ∃ a ∈ w.tables.deliveryAttempts, RowOf c o a

theorem OutcomeInv.moved (hi : OutcomeInv w) (hc : w.claims[i]? = some c)
    (h : TaskMove env time w.tables c t c') :
    OutcomeInv { w with tables := t, clock := time, claims := w.claims.set i c' } := by
  have hjob := h.claim_same.job
  have hmem := List.mem_of_getElem? hc
  have hmem' : c' ∈ w.claims.set i c' := List.mem_set (lt_length_of_getElem? hc) c'
  have hother : ∀ d ∈ w.claims, d = c ∨ d ∈ w.claims.set i c' := by
    intro d hd
    obtain ⟨k, hk⟩ := List.mem_iff_getElem?.mp hd
    by_cases hki : k = i
    · subst hki
      exact .inl (eq_of_getElem? hc hk)
    · exact .inr (List.mem_of_getElem? ((getElem?_set_some hc).mpr (.inr ⟨hki, hk⟩)))
  have hkept : (∀ o ∈ c.outcomes, o ∈ c'.outcomes) → ∀ a ∈ w.tables.deliveryAttempts,
      ∃ d ∈ w.claims.set i c', ∃ o ∈ d.outcomes, RowOf d o a := by
    intro hsub a ha
    obtain ⟨d, hd, o, ho, hr⟩ := hi.rows a ha
    rcases hother d hd with rfl | hd
    · exact ⟨c', hmem', o, hsub o ho, hr.congr hjob⟩
    · exact ⟨d, hd, o, ho, hr⟩
  have hsame : t.deliveryAttempts = w.tables.deliveryAttempts → c'.outcomes = c.outcomes →
      OutcomeInv { w with tables := t, clock := time, claims := w.claims.set i c' } := by
    intro ht ho
    refine ⟨fun a ha => hkept (fun o => by rw [ho]; exact id) a (ht ▸ ha), fun d hd o hod => ?_⟩
    change ∃ a ∈ t.deliveryAttempts, _
    rw [ht]
    rcases List.mem_or_eq_of_mem_set hd with hd | rfl
    · exact hi.outcomes d hd o hod
    · obtain ⟨a, ha, hr⟩ := hi.outcomes c hmem o (ho ▸ hod)
      exact ⟨a, ha, hr.congr hjob⟩
  cases h.effect with
  | quiet ht ho => exact hsame (congrArg _ ht) ho
  | refreshed _ _ hr ho => exact hsame hr.attempts ho
  | @recorded call now a _ hr ho _ =>
    obtain ⟨hid, hn, hat, hcode, herr, hretry, hnext⟩ := newDeliveryAttempt_ok hr.made
    have hnew : RowOf c' ⟨call, now⟩ a :=
      ⟨by rw [hid, hjob], by rw [hn, Claim.attempt, hjob], hat, hcode, herr, hretry, hnext⟩
    have hmem_attempts : ∀ {b}, b ∈ t.deliveryAttempts ↔ b ∈ w.tables.deliveryAttempts ∨ b = a :=
      Table.mem_append_one hr.attempts
    constructor
    · intro b hb
      rcases hmem_attempts.mp hb with hb | rfl
      · exact hkept (fun o hoc => by rw [ho]; exact List.mem_append_left _ hoc) b hb
      · exact ⟨c', hmem', _, by rw [ho]; exact List.mem_append_right _ (List.mem_singleton_self _),
          hnew⟩
    · intro d hd o hod
      change ∃ a ∈ t.deliveryAttempts, _
      rcases List.mem_or_eq_of_mem_set hd with hd | rfl
      · obtain ⟨b, hb, hrow⟩ := hi.outcomes d hd o hod
        exact ⟨b, hmem_attempts.mpr (.inl hb), hrow⟩
      · rw [ho, List.mem_append, List.mem_singleton] at hod
        rcases hod with hod | rfl
        · obtain ⟨b, hb, hrow⟩ := hi.outcomes c hmem o hod
          exact ⟨b, hmem_attempts.mpr (.inl hb), hrow.congr hjob⟩
        · exact ⟨a, hmem_attempts.mpr (.inr rfl), hnew⟩

theorem OutcomeInv.step (hi : OutcomeInv w) (h : w.Moves env e w') : OutcomeInv w' := by
  cases h with
  | phased => exact ⟨hi.rows, hi.outcomes⟩
  | enqueued ht h =>
    refine ⟨fun a ha => hi.rows a (h.attempts ▸ ha), fun c hc o ho => ?_⟩
    rw [h.attempts]
    exact hi.outcomes c hc o ho
  | claimed hp hr h hphase =>
    constructor
    · intro a ha
      obtain ⟨c, hc, hrow⟩ := hi.rows a (h.attempts ▸ ha)
      exact ⟨c, List.mem_append_left _ hc, hrow⟩
    · intro c hc o ho
      rw [h.attempts]
      rcases List.mem_append.mp hc with hc | hc
      · exact hi.outcomes c hc o ho
      · obtain ⟨job, -, rfl⟩ := List.mem_map.mp hc
        cases ho
  | moved hc h => exact hi.moved hc h

theorem outcomeInv_of_reachable {G : System.Guard World Event} (h : (fleet env).Reachable G w) :
    OutcomeInv w := by
  apply h.invariant
  · constructor <;> simp [fleet, World.initial, Tables.empty]
  · intro s e s' _ hi hstep _
    exact hi.step (World.step_moves hstep)

end ResendRouter.Delivery
