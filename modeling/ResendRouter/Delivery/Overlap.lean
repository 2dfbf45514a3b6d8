import ResendRouter.Delivery.Verdicts

/-! # No overlapping deliveries under the lease

The lock is neither renewed nor checked before a POST. When every POST starts
soon after its claim and ends within the timeout, and the stale interval is
longer than both together, the POSTs of one job follow each other all the same.
-/

namespace ResendRouter.Delivery
open Foundation Program Database

variable {env : Env} {time : Time} {t t' : Tables} {c c' d : Claim} {w w' : World} {e : Event}
  {i k : ℕ} {j : DeliveryJob} {p q : Post}

def Post.endBy (p : Post) (now : Time) : Time := (p.finished.map Prod.fst).getD now

/-- A POST starts at most five seconds after the lock, and lasts no longer than the timeout. -/
def Post.Timely (p : Post) (lockedAt : Time) (timeoutSecs : ℕ) (now : Time) : Prop :=
  p.startedAt ≤ lockedAt + seconds 5 ∧ p.endBy now ≤ p.startedAt + seconds timeoutSecs

def World.Timely (env : Env) (w : World) : Prop :=
  ∀ c ∈ w.claims, ∀ p ∈ c.post,
    p.Timely c.lockedAt (env.config c.worker).deliveryTimeoutSecs w.clock

/-- The runs of `clocked` through states in which every POST is timely. -/
def timely (env : Env) : System.Guard World Event := fun w e w' => clocked w e w' ∧ w'.Timely env

instance (p : Post) (lockedAt : Time) (timeoutSecs : ℕ) (now : Time) :
    Decidable (p.Timely lockedAt timeoutSecs now) :=
  inferInstanceAs (Decidable (_ ∧ _))

instance (env : Env) (w : World) (e : Event) (w' : World) : Decidable (timely env w e w') :=
  inferInstanceAs (Decidable (_ ∧ ∀ c ∈ w'.claims, ∀ p ∈ c.post, Post.Timely p _ _ _))

def Post.DoneBy (p : Post) (time : Time) : Prop :=
  ∃ finishedAt response, p.finished = some (finishedAt, response) ∧ p.startedAt ≤ finishedAt ∧
    finishedAt ≤ time

def Claim.Silent (c : Claim) : Prop := ∀ p, c.post = some p → p.finished ≠ none

def Task.beforePost : Task → Bool
  | .spawned => true
  | .resolving => true
  | .ready _ => true
  | _ => false

def Task.afterPost : Task → Bool
  | .responded _ _ => true
  | .calling _ => true
  | .recording _ _ => true
  | _ => false

/-- The clock reading of a record call of the claim, in flight or committed. -/
def Claim.StampedAt (c : Claim) (now : Time) : Prop :=
  (∃ call, c.task = .recording call now) ∨ ∃ o ∈ c.outcomes, o.recordedAt = now

structure PostInv (w : World) : Prop where
  unsent : ∀ c ∈ w.claims, c.task.beforePost = true → c.post = none
  settled : ∀ c ∈ w.claims, c.task.afterPost = true ∨ c.outcomes ≠ [] → c.Silent
  /-- A superseded claim is silent, and it is too late for it to start a POST. -/
  past : ∀ (i : ℕ) (c : Claim) (k : ℕ) (d : Claim), w.claims[i]? = some c →
    w.claims[k]? = some d → i < k → d.job.id = c.job.id →
    c.Silent ∧ (c.outcomes ≠ [] ∨ c.lockedAt + seconds 5 < w.clock)
  clock : ∀ c ∈ w.claims, ∀ p, c.post = some p →
    p.startedAt ≤ w.clock ∧ (p.finished ≠ none → p.DoneBy w.clock)
  order : ∀ (i : ℕ) (c : Claim) (k : ℕ) (d : Claim) (p q : Post), w.claims[i]? = some c →
    w.claims[k]? = some d → i < k → d.job.id = c.job.id → c.post = some p → d.post = some q →
    p.DoneBy q.startedAt
  stamped : ∀ (i : ℕ) (c : Claim) (k : ℕ) (d : Claim) (p : Post) (now : Time),
    w.claims[i]? = some c → w.claims[k]? = some d → i ≤ k → d.job.id = c.job.id →
    c.post = some p → d.StampedAt now → p.DoneBy now

theorem Post.DoneBy.mono {now : Time} (h : p.DoneBy time) (hle : time ≤ now) : p.DoneBy now := by
  rcases h with ⟨finishedAt, response, hf, hstart, hend⟩
  exact ⟨finishedAt, response, hf, hstart, hend.trans hle⟩

theorem PostInv.done (hi : PostInv w) (hc : c ∈ w.claims) (hs : c.Silent) (hp : c.post = some p)
    (hle : w.clock ≤ time) : p.DoneBy time :=
  ((hi.clock c hc p hp).2 (hs p hp)).mono hle

theorem PostInv.clock_later (hi : PostInv w) (hle : w.clock ≤ time) (hc : c ∈ w.claims)
    (hp : c.post = some p) : p.startedAt ≤ time ∧ (p.finished ≠ none → p.DoneBy time) := by
  obtain ⟨hstart, hdone⟩ := hi.clock c hc p hp
  exact ⟨hstart.trans hle, fun hf => (hdone hf).mono hle⟩

theorem PostInv.past_later (hi : PostInv w) (hle : w.clock ≤ time) {k : ℕ} {d : Claim}
    (hc : w.claims[i]? = some c) (hd : w.claims[k]? = some d) (hik : i < k)
    (hid : d.job.id = c.job.id) :
    c.Silent ∧ (c.outcomes ≠ [] ∨ c.lockedAt + seconds 5 < time) := by
  obtain ⟨hsilent, hlate⟩ := hi.past i c k d hc hd hik hid
  exact ⟨hsilent, hlate.imp_right fun h => h.trans_le hle⟩

theorem PostInv.later (hi : PostInv w) (hle : w.clock ≤ w'.clock) (hc : w'.claims = w.claims) :
    PostInv w' := by
  refine ⟨hc ▸ hi.unsent, hc ▸ hi.settled, ?_, ?_, hc ▸ hi.order, hc ▸ hi.stamped⟩
  · intro i c k d hcl hd hik hid
    rw [hc] at hcl hd
    exact hi.past_later hle hcl hd hik hid
  · intro c hm p hp
    rw [hc] at hm
    exact hi.clock_later hle hm hp

theorem PostInv.claimed {workerId : String} {now : Time} {jobs : List ClaimedJob} {task : Task}
    {phase : Phase} (hi : PostInv w) (hl : LeaseInv env w)
    (hbound : ∀ x y, (env.config x).deliveryTimeoutSecs + 5 < (env.config y).staleDeliveryLockSecs)
    (h : Claimed w.tables t jobs workerId (env.config workerId).staleDeliveryLockSecs now)
    (hphase : task = .ended ∨
      task = .spawned ∧ phase = .processing (List.range' w.claims.length jobs.length))
    (hle : w.clock ≤ time) (hnow : now ≤ time)
    (htimely : World.Timely env ⟨t, time, Function.update w.phase workerId phase,
      w.claims ++ jobs.map (newClaim workerId now task), w.ingested⟩) :
    PostInv ⟨t, time, Function.update w.phase workerId phase,
      w.claims ++ jobs.map (newClaim workerId now task), w.ingested⟩ := by
  have hnew : ∀ c ∈ jobs.map (newClaim workerId now task),
      c.post = none ∧ c.outcomes = [] ∧ c.task.afterPost = false ∧ ∀ τ, ¬ c.StampedAt τ := by
    intro c hc
    obtain ⟨job, -, rfl⟩ := List.mem_map.mp hc
    rcases hphase with rfl | ⟨rfl, -⟩
    · exact ⟨rfl, rfl, rfl, fun τ hτ => by simp [Claim.StampedAt, newClaim] at hτ⟩
    · exact ⟨rfl, rfl, rfl, fun τ hτ => by simp [Claim.StampedAt, newClaim] at hτ⟩
  have hcases : ∀ (k : ℕ) (d : Claim),
      (w.claims ++ jobs.map (newClaim workerId now task))[k]? = some d →
        w.claims[k]? = some d ∨
          w.claims.length ≤ k ∧ d ∈ jobs.map (newClaim workerId now task) := by
    intro k d hd
    rcases claims_cases hd with hd | ⟨n, job, rfl, hjob, rfl⟩
    · exact .inl hd
    · exact .inr ⟨Nat.le_add_right _ _, List.mem_map_of_mem (List.mem_of_getElem? hjob)⟩
  constructor
  case unsent =>
    intro c hc hb
    rcases List.mem_append.mp hc with hc | hc
    · exact hi.unsent c hc hb
    · exact (hnew c hc).1
  case settled =>
    intro c hc hs
    rcases List.mem_append.mp hc with hc | hc
    · exact hi.settled c hc hs
    · obtain ⟨hpost, -⟩ := hnew c hc
      intro p hp
      rw [hpost] at hp
      cases hp
  case clock =>
    intro c hc p hp
    rcases List.mem_append.mp hc with hc | hc
    · exact hi.clock_later hle hc hp
    · rw [(hnew c hc).1] at hp
      cases hp
  case order =>
    intro i c k d p q hc hd hik hid hp hq
    rcases hcases k d hd with hd | ⟨-, hd⟩
    · rcases hcases i c hc with hc | ⟨-, hc⟩
      · exact hi.order i c k d p q hc hd hik hid hp hq
      · rw [(hnew c hc).1] at hp
        cases hp
    · rw [(hnew d hd).1] at hq
      cases hq
  case stamped =>
    intro i c k d p τ hc hd hik hid hp hτ
    rcases hcases k d hd with hd | ⟨-, hd⟩
    · rcases hcases i c hc with hc | ⟨-, hc⟩
      · exact hi.stamped i c k d p τ hc hd hik hid hp hτ
      · rw [(hnew c hc).1] at hp
        cases hp
    · exact absurd hτ ((hnew d hd).2.2.2 τ)
  case past =>
    intro i c k d hc hd hik hid
    rcases claims_cases hd with hd | ⟨m, job, rfl, hjob, rfl⟩
    · rcases claims_cases hc with hc | ⟨n, job, rfl, -, -⟩
      · exact hi.past_later hle hc hd hik hid
      · have := lt_length_of_getElem? hd
        omega
    · rcases claims_cases hc with hc' | ⟨n, job', rfl, hjob', rfl⟩
      · by_cases hlater : ∃ (m : ℕ) (b : Claim), i < m ∧ w.claims[m]? = some b ∧ b.job.id = c.job.id
        · rcases hlater with ⟨m, b, him, hb, hbid⟩
          exact hi.past_later hle hc' hb him hbid
        · have hlatest : w.Latest i c := by
            refine ⟨hc', fun m b hb hbid => ?_⟩
            by_contra him
            exact hlater ⟨m, b, not_le.mp him, hb, hbid⟩
          rcases hl.superseded h hlatest (List.mem_of_getElem? hjob) hid with
            ⟨o, ho, -⟩ | ⟨-, hstale⟩
          · have hne : c.outcomes ≠ [] := by simp [ho]
            exact ⟨hi.settled c (List.mem_of_getElem? hc') (.inr hne), .inl hne⟩
          · -- past the stale interval a POST in progress would have outlived its timeout
            have hb := hbound c.worker workerId
            simp only [seconds] at hstale
            refine ⟨fun p hp hopen => ?_, .inr ?_⟩
            · obtain ⟨hstart, hlast⟩ := htimely c (List.mem_of_getElem? hc) p hp
              simp only [Post.endBy, hopen, Option.map_none, Option.getD_none, seconds]
                at hstart hlast
              linarith
            · simp only [seconds]
              linarith
      · -- a returned job occurs once
        have := position_eq_of_nodup h.nodup hjob' hjob hid.symm
        omega

section Moved
variable (hi : PostInv w) (hc : w.claims[i]? = some c) (hs : c.Same c') (hle : w.clock ≤ time)
include hi hc hs hle

theorem PostInv.post_kept (hpost : c'.post = c.post)
    (hbefore : c'.task.beforePost = true → c.task.beforePost = true)
    (hafter : c'.task.afterPost = true ∨ c'.outcomes ≠ [] → c.Silent)
    (hout : c.outcomes ≠ [] → c'.outcomes ≠ [])
    (hstamp : ∀ now, c'.StampedAt now → c.StampedAt now ∨ c.Silent ∧ now = time) :
    PostInv { w with tables := t, clock := time, claims := w.claims.set i c' } := by
  have hsilent : c.Silent → c'.Silent := fun h p hp => h p (hpost ▸ hp)
  have hmem := List.mem_of_getElem? hc
  constructor
  case unsent =>
    intro d hd hb
    rcases List.mem_or_eq_of_mem_set hd with hd | rfl
    · exact hi.unsent d hd hb
    · rw [hpost]
      exact hi.unsent c hmem (hbefore hb)
  case settled =>
    intro d hd hb
    rcases List.mem_or_eq_of_mem_set hd with hd | rfl
    · exact hi.settled d hd hb
    · exact hsilent (hafter hb)
  case clock =>
    intro d hd p hp
    rcases List.mem_or_eq_of_mem_set hd with hd | rfl
    · exact hi.clock_later hle hd hp
    · exact hi.clock_later hle hmem (hpost ▸ hp)
  case past =>
    intro k d m b hd hb hkm hid
    obtain ⟨d₀, hd₀, hsd, hcase⟩ := moved_cases hc hs hd
    obtain ⟨b₀, hb₀, hsb, -⟩ := moved_cases hc hs hb
    rw [hsd.job, hsb.job] at hid
    obtain ⟨hsil, hlate⟩ := hi.past_later hle hd₀ hb₀ hkm hid
    rcases hcase with ⟨rfl, rfl, rfl⟩ | ⟨-, rfl⟩
    · rw [hs.lockedAt]
      exact ⟨hsilent hsil, hlate.imp_left hout⟩
    · exact ⟨hsil, hlate⟩
  case order =>
    intro k d m b p q hd hb hkm hid hp hq
    obtain ⟨d₀, hd₀, hsd, hcase⟩ := moved_cases hc hs hd
    obtain ⟨b₀, hb₀, hsb, hcase'⟩ := moved_cases hc hs hb
    rw [hsd.job, hsb.job] at hid
    refine hi.order k d₀ m b₀ p q hd₀ hb₀ hkm hid ?_ ?_
    · rcases hcase with ⟨-, rfl, rfl⟩ | ⟨-, rfl⟩
      · exact hpost ▸ hp
      · exact hp
    · rcases hcase' with ⟨-, rfl, rfl⟩ | ⟨-, rfl⟩
      · exact hpost ▸ hq
      · exact hq
  case stamped =>
    intro k d m b p now hd hb hkm hid hp hnow
    obtain ⟨d₀, hd₀, hsd, hcase⟩ := moved_cases hc hs hd
    obtain ⟨b₀, hb₀, hsb, hcase'⟩ := moved_cases hc hs hb
    rw [hsd.job, hsb.job] at hid
    have hp₀ : d₀.post = some p := by
      rcases hcase with ⟨-, rfl, rfl⟩ | ⟨-, rfl⟩
      · exact hpost ▸ hp
      · exact hp
    rcases hcase' with ⟨rfl, rfl, rfl⟩ | ⟨-, rfl⟩
    · rcases hstamp now hnow with hold | ⟨hsil, rfl⟩
      · exact hi.stamped k d₀ m b₀ p now hd₀ hb₀ hkm hid hp₀ hold
      · refine hi.done (List.mem_of_getElem? hd₀) ?_ hp₀ hle
        rcases hkm.lt_or_eq with hlt | rfl
        · exact (hi.past k d₀ m b₀ hd₀ hb₀ hlt hid).1
        · rw [hd₀, Option.some.injEq] at hb₀
          exact hb₀ ▸ hsil
    · exact hi.stamped k d₀ m b p now hd₀ hb₀ hkm hid hp₀ hnow

theorem PostInv.post_changed (hlatest : w.Latest i c) (hpost : c'.post = some p)
    (hbefore : c'.task.beforePost = false) (hafter : c'.task.afterPost = false)
    (hout : c'.outcomes = []) (hstart : p.startedAt ≤ time)
    (hdone : p.finished ≠ none → p.DoneBy time)
    (hearlier : ∀ (k : ℕ) (d : Claim) (q : Post), k < i → w.claims[k]? = some d →
      d.job.id = c.job.id → d.post = some q → q.DoneBy p.startedAt) :
    PostInv { w with tables := t, clock := time, claims := w.claims.set i c' } := by
  have hstamp : ∀ now, ¬ c'.StampedAt now := by
    rintro now (⟨call, hcall⟩ | ⟨o, ho, -⟩)
    · rw [hcall] at hafter
      cases hafter
    · rw [hout] at ho
      cases ho
  constructor
  case unsent =>
    intro d hd hb
    rcases List.mem_or_eq_of_mem_set hd with hd | rfl
    · exact hi.unsent d hd hb
    · rw [hbefore] at hb
      cases hb
  case settled =>
    intro d hd hb
    rcases List.mem_or_eq_of_mem_set hd with hd | rfl
    · exact hi.settled d hd hb
    · rw [hafter] at hb
      rcases hb with hb | hb
      · cases hb
      · exact absurd hout hb
  case clock =>
    intro d hd q hq
    rcases List.mem_or_eq_of_mem_set hd with hd | rfl
    · exact hi.clock_later hle hd hq
    · rw [hpost, Option.some.injEq] at hq
      exact hq ▸ ⟨hstart, hdone⟩
  case past =>
    intro k d m b hd hb hkm hid
    obtain ⟨d₀, hd₀, hsd, hcase⟩ := moved_cases hc hs hd
    obtain ⟨b₀, hb₀, hsb, -⟩ := moved_cases hc hs hb
    rw [hsd.job, hsb.job] at hid
    rcases hcase with ⟨rfl, rfl, rfl⟩ | ⟨-, rfl⟩
    · have := hlatest.newest m b₀ hb₀ hid
      omega
    · exact hi.past_later hle hd₀ hb₀ hkm hid
  case order =>
    intro k d m b q r hd hb hkm hid hq hr
    obtain ⟨d₀, hd₀, hsd, hcase⟩ := moved_cases hc hs hd
    obtain ⟨b₀, hb₀, hsb, hcase'⟩ := moved_cases hc hs hb
    rw [hsd.job, hsb.job] at hid
    rcases hcase with ⟨rfl, rfl, rfl⟩ | ⟨-, rfl⟩
    · have := hlatest.newest m b₀ hb₀ hid
      omega
    · rcases hcase' with ⟨rfl, rfl, rfl⟩ | ⟨-, rfl⟩
      · rw [hpost, Option.some.injEq] at hr
        exact hr ▸ hearlier k d q hkm hd₀ hid.symm hq
      · exact hi.order k d m b q r hd₀ hb₀ hkm hid hq hr
  case stamped =>
    intro k d m b q now hd hb hkm hid hq hnow
    obtain ⟨d₀, hd₀, hsd, hcase⟩ := moved_cases hc hs hd
    obtain ⟨b₀, hb₀, hsb, hcase'⟩ := moved_cases hc hs hb
    rw [hsd.job, hsb.job] at hid
    rcases hcase' with ⟨rfl, rfl, rfl⟩ | ⟨hmi, rfl⟩
    · exact absurd hnow (hstamp now)
    · rcases hcase with ⟨rfl, rfl, rfl⟩ | ⟨-, rfl⟩
      · have := hlatest.newest m b hb₀ hid
        omega
      · exact hi.stamped k d m b q now hd₀ hb₀ hkm hid hq hnow

end Moved

theorem Claim.StampedAt.of_outcomes {now : Time} (h : c'.StampedAt now)
    (ht : ∀ call, c'.task ≠ .recording call now) (ho : c'.outcomes = c.outcomes) :
    c.StampedAt now := by
  rcases h with ⟨call, hcall⟩ | ⟨o, hoc, hr⟩
  · exact absurd hcall (ht call)
  · exact .inr ⟨o, ho ▸ hoc, hr⟩

theorem PostInv.moved (hi : PostInv w) (hl : LeaseInv env w) (hc : w.claims[i]? = some c)
    (hle : w.clock ≤ time) (h : TaskMove env time w.tables c t c')
    (htimely : World.Timely env
      { w with tables := t, clock := time, claims := w.claims.set i c' }) :
    PostInv { w with tables := t, clock := time, claims := w.claims.set i c' } := by
  have hmem := List.mem_of_getElem? hc
  have hs := h.claim_same
  have hbefore : c.task.beforePost = true → c.Silent := fun hb p hp => by
    rw [hi.unsent c hmem hb] at hp
    cases hp
  have hsettled := hi.settled c hmem
  cases h with
  | expired ht hd =>
    exact hi.post_kept hc hs hle rfl nofun (fun _ => hbefore (by rw [ht]; rfl)) id
      fun now hnow => .inl (hnow.of_outcomes nofun rfl)
  | opened ht hd =>
    exact hi.post_kept hc hs hle rfl (fun _ => by rw [ht]; rfl)
      (fun _ => hbefore (by rw [ht]; rfl)) id fun now hnow => .inl (hnow.of_outcomes nofun rfl)
  | resolved ht url =>
    exact hi.post_kept hc hs hle rfl (fun _ => by rw [ht]; rfl)
      (fun _ => hbefore (by rw [ht]; rfl)) id fun now hnow => .inl (hnow.of_outcomes nofun rfl)
  | refreshed ht url hu held hr htask =>
    refine hi.post_kept hc hs hle rfl (fun _ => by rw [ht]; rfl)
      (fun _ => hbefore (by rw [ht]; rfl)) id fun now hnow => .inl (hnow.of_outcomes ?_ rfl)
    rcases htask with rfl | rfl <;> exact nofun
  | @sent url ht =>
    have hlive : c.task.isEnded = false := by
      rw [ht]
      rfl
    have hnone := hl.running c hmem hlive
    have hstart := (htimely _ (List.mem_set (lt_length_of_getElem? hc) _) _ rfl).1
    -- a superseded claim would start its POST too late
    have hlatest : w.Latest i c := by
      refine ⟨hc, fun k d hd hid => ?_⟩
      by_contra hik
      rcases (hi.past i c k d hc hd (not_le.mp hik) hid).2 with hout | hlate
      · exact hout hnone
      · exact absurd hstart (not_le.mpr (hlate.trans_le hle))
    refine hi.post_changed hc hs hle hlatest rfl rfl rfl hnone le_rfl (fun hf => absurd rfl hf) ?_
    intro k d q hki hd hid hq
    exact hi.done (List.mem_of_getElem? hd) (hi.past k d i c hd hc hki hid.symm).1 hq hle
  | unsent ht error d =>
    exact hi.post_kept hc hs hle rfl nofun (fun _ => hbefore (by rw [ht]; rfl)) id
      fun now hnow => .inl (hnow.of_outcomes nofun rfl)
  | @finished request startedAt hp response =>
    have hopen : ¬ c.Silent := fun hsil => hsil _ hp rfl
    have hlatest : w.Latest i c := by
      refine ⟨hc, fun k d hd hid => ?_⟩
      by_contra hik
      exact hopen (hi.past i c k d hc hd (not_le.mp hik) hid).1
    have hstart := (hi.clock c hmem _ hp).1.trans hle
    refine hi.post_changed hc hs hle hlatest rfl ?_ ?_ ?_ hstart
      (fun _ => ⟨time, response, rfl, hstart, le_rfl⟩) ?_
    · exact Bool.not_eq_true _ ▸ fun hb => hopen (hbefore hb)
    · exact Bool.not_eq_true _ ▸ fun ha => hopen (hsettled (.inl ha))
    · by_contra hne
      exact hopen (hsettled (.inr hne))
    · intro k d q hki hd hid hq
      have hdone := hi.order k d i c q _ hd hc hki hid.symm hq hp
      exact hdone
  | received ht hp d =>
    refine hi.post_kept hc hs hle rfl nofun (fun _ p hp' => ?_) id
      fun now hnow => .inl (hnow.of_outcomes nofun rfl)
    rw [hp, Option.some.injEq] at hp'
    subst hp'
    exact nofun
  | succeeded ht hok =>
    exact hi.post_kept hc hs hle rfl nofun (fun _ => hsettled (.inl (by rw [ht]; rfl))) id
      fun now hnow => .inl (hnow.of_outcomes nofun rfl)
  | failed ht hno seed hcall =>
    exact hi.post_kept hc hs hle rfl nofun (fun _ => hsettled (.inl (by rw [ht]; rfl))) id
      fun now hnow => .inl (hnow.of_outcomes nofun rfl)
  | overflowed ht hno =>
    exact hi.post_kept hc hs hle rfl nofun (fun _ => hsettled (.inl (by rw [ht]; rfl))) id
      fun now hnow => .inl (hnow.of_outcomes nofun rfl)
  | @stamped call ht =>
    have hsil : c.Silent := hsettled (.inl (by rw [ht]; rfl))
    refine hi.post_kept hc hs hle rfl nofun (fun _ => hsil) id fun now hnow => ?_
    rcases hnow with ⟨call', hcall⟩ | hout
    · cases hcall
      exact .inr ⟨hsil, rfl⟩
    · exact .inl (.inr hout)
  | @recorded call now t' a ht hu hr =>
    have hsil : c.Silent := hsettled (.inl (by rw [ht]; rfl))
    refine hi.post_kept hc hs hle rfl nofun (fun _ => hsil) (fun _ => by simp) fun τ hτ => ?_
    rcases hτ with ⟨call', hcall⟩ | ⟨o, ho, hor⟩
    · cases hcall
    · rcases List.mem_append.mp ho with ho | ho
      · exact .inl (.inr ⟨o, ho, hor⟩)
      · rw [List.mem_singleton.mp ho] at hor
        exact .inl (.inl ⟨call, by rw [ht, ← hor]⟩)
  | ended =>
    exact hi.post_kept hc hs hle rfl nofun (fun ho => hsettled (ho.imp_left nofun)) id
      fun now hnow => .inl (hnow.of_outcomes nofun rfl)

theorem postInv_of_reachable
    (hbound : ∀ x y, (env.config x).deliveryTimeoutSecs + 5 < (env.config y).staleDeliveryLockSecs)
    (h : (fleet env).Reachable (timely env) w) : PostInv w := by
  apply h.invariant
  · constructor <;> simp [fleet, World.initial]
  · intro s e s' hs hi hstep hg
    have hl := leaseInv_of_reachable hs
    rcases hg with ⟨⟨hle, hnow⟩, htimely⟩
    cases World.step_moves hstep with
    | phased => exact hi.later hle rfl
    | enqueued => exact hi.later hle rfl
    | claimed hp hr h hphase => exact hi.claimed hl hbound h hphase hle (hnow _ rfl) htimely
    | moved hc h => exact hi.moved hl hc hle h htimely

/-- Two POSTs of one job are never in progress together, and none is in progress, or starts, once
the job is closed. -/
theorem deliveries_never_overlap (env : Env) {w : World}
    (hbound : ∀ x y, (env.config x).deliveryTimeoutSecs + 5 < (env.config y).staleDeliveryLockSecs)
    (h : (fleet env).Reachable (timely env) w) :
    (∀ (i k : ℕ) (c d : Claim) (p q : Post), w.claims[i]? = some c → w.claims[k]? = some d →
      i < k → d.job.id = c.job.id → c.post = some p → d.post = some q → p.DoneBy q.startedAt) ∧
    (∀ j ∈ w.tables.deliveryJobs, j.status = .succeeded ∨ j.status = .failed →
      ∀ c ∈ w.claims, c.job.id = j.id → ∀ p, c.post = some p →
        ∃ completedAt, j.completedAt = some completedAt ∧ p.DoneBy completedAt) := by
  have hi := postInv_of_reachable hbound h
  refine ⟨fun i k c d p q => hi.order i c k d p q, fun j hj hterm c hc hid p hp => ?_⟩
  obtain ⟨k, d, hd, o, ho, hdid, -, -, hclosed⟩ :=
    closed_by (leaseInv_of_reachable h) hj (isTerminal_iff.mpr hterm)
  obtain ⟨i, hci⟩ := List.mem_iff_getElem?.mp hc
  refine ⟨o.recordedAt, hclosed, ?_⟩
  exact hi.stamped i c k d p o.recordedAt hci hd.present (hd.newest i c hci (hid.trans hdid.symm))
    (hdid.trans hid.symm) hp (.inr ⟨o, ho, rfl⟩)

/-- Worker `a` dies in its first POST, which times out; worker `b` delivers after the stale lock. -/
def diedInPost : List Event :=
  [⟨0, .enqueue sampleEnqueue⟩, ⟨0, .claim "a" 0 [] .answered⟩, ⟨0, .task 0 .checkDeadline⟩,
    ⟨0, .task 0 (.refresh .answered)⟩, ⟨seconds 1, .task 0 .send⟩, ⟨seconds 2, .task 0 .die⟩,
    ⟨seconds 21, .task 0 (.finish (.error "operation timed out"))⟩,
    ⟨seconds 301, .claim "b" (seconds 301) [] .answered⟩] ++
  attemptSteps 1 302 (.ok 200) ++ [⟨seconds 302, .task 1 (.record .answered)⟩]

theorem deliveries_never_overlap_died : ∃ w, (fleet sampleEnv).Reachable (timely sampleEnv) w ∧
    w.claims.map (·.post.isSome) = [true, true] ∧
    w.tables.deliveryJobs.rows.map (·.status) = [.succeeded] ∧
    ∀ (i k : ℕ) (c d : Claim) (p q : Post), w.claims[i]? = some c → w.claims[k]? = some d →
      i < k → d.job.id = c.job.id → c.post = some p → d.post = some q → p.DoneBy q.startedAt := by
  obtain ⟨w, hw, hp⟩ := System.exists_reachable_of_run (fleet sampleEnv) (timely sampleEnv)
    diedInPost (fun w => w.claims.map (·.post.isSome) = [true, true] ∧
      w.tables.deliveryJobs.rows.map (·.status) = [.succeeded]) (by decide)
  rw [decide_eq_true_eq] at hp
  have hbound : ∀ x y, (sampleEnv.config x).deliveryTimeoutSecs + 5 <
      (sampleEnv.config y).staleDeliveryLockSecs := by
    intro x y
    change ((20 : ℕ) : ℤ) + 5 < 300
    decide
  exact ⟨w, hw, hp.1, hp.2, (deliveries_never_overlap sampleEnv hbound hw).1⟩

end ResendRouter.Delivery
