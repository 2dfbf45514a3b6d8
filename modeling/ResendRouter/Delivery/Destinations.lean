import ResendRouter.Delivery.Fencing

/-! # The stored URL is the one that was used

A worker reads the URL of a job in the snapshot of its claim, compares it with
its own configuration, and rewrites the row under the lock before it sends. As
long as a claim is the latest of its job, nobody else writes the row, so the row
still has the URL of the POST when its outcome is committed.
-/

namespace ResendRouter.Delivery
open Foundation Program Database

variable {env : Env} {time : Time} {t t' : Tables} {c c' d : Claim} {w w' : World} {e : Event}
  {i k : ℕ} {j : DeliveryJob}

def destinationTable (config : Config) (h : (config.destinations.map (·.name)).Nodup) :
    Table DestinationConfig (·.name) := ⟨config.destinations, h⟩

theorem destinationUrl_eq_some {config : Config}
    (h : (config.destinations.map (·.name)).Nodup) {name url : String} :
    config.destinationUrl name = some url ↔
      ∃ d ∈ config.destinations, d.name = name ∧ d.url = url := by
  have hfind : config.destinationUrl name =
      ((destinationTable config h).find? name).map (·.url) := rfl
  rw [hfind, Option.map_eq_some_iff]
  constructor
  · rintro ⟨d, hd, hurl⟩
    obtain ⟨hmem, hname⟩ := Table.find?_eq_some.mp hd
    exact ⟨d, hmem, hname, hurl⟩
  · rintro ⟨d, hd, hname, hurl⟩
    exact ⟨d, Table.find?_eq_some.mpr ⟨hd, hname⟩, hurl⟩

theorem destinationUrl_eq_none {config : Config} {name : String} :
    config.destinationUrl name = none ↔ ∀ d ∈ config.destinations, d.name ≠ name := by
  simp [Config.destinationUrl]

theorem destinationUrl_perm {config : Config} (h : (config.destinations.map (·.name)).Nodup)
    {ds : List DestinationConfig} (hperm : ds.Perm config.destinations) (name : String) :
    { config with destinations := ds }.destinationUrl name = config.destinationUrl name := by
  ext url
  rw [destinationUrl_eq_some h, destinationUrl_eq_some ((hperm.map _).nodup_iff.mpr h)]
  simp only [hperm.mem_iff]

def Env.target (env : Env) (c : Claim) : String :=
  (resolveDestinationUrl (env.config c.worker) c.job).url

theorem Env.target_same (env : Env) (hs : c.Same c') : env.target c' = env.target c := by
  rw [Env.target, Env.target, hs.worker, hs.job]

theorem Env.target_of_some {url : String}
    (h : (env.config c.worker).destinationUrl c.job.destinationName = some url) :
    env.target c = url := by
  rw [Env.target, resolveDestinationUrl, h]

theorem Env.target_of_none
    (h : (env.config c.worker).destinationUrl c.job.destinationName = none) :
    env.target c = c.job.destinationUrl := by
  rw [Env.target, resolveDestinationUrl, h]

theorem Env.target_of_unchanged
    (h : ¬ ((resolveDestinationUrl (env.config c.worker) c.job).fromCurrentConfig = true ∧
      (resolveDestinationUrl (env.config c.worker) c.job).url ≠ c.job.destinationUrl)) :
    env.target c = c.job.destinationUrl := by
  cases hu : (env.config c.worker).destinationUrl c.job.destinationName with
  | none => exact Env.target_of_none hu
  | some url =>
    rw [resolveDestinationUrl, hu] at h
    rw [Env.target_of_some hu]
    simpa using h

def Task.isUnsent : Task → Bool
  | .spawned => true
  | .resolving => true
  | .ready _ => true
  | _ => false

theorem taskStep_ready {event : TaskEvent} {url : String}
    (h : taskStep env.hmacSha256 (env.config c.worker) time t c event = some (t', c'))
    (hready : c'.task = .ready url) : c.task = .ready url ∧ t' = t ∨
      c.task = .resolving ∧ url = env.target c ∧
        (t' = t ∧ env.target c = c.job.destinationUrl ∨
          (∃ j ∈ t.deliveryJobs, lockedRow c.job j = true) ∧
            Refreshed t t' c.job (env.target c)) := by
  by_cases hres : c.task = .resolving
  · right
    cases event with
    | refresh fate =>
      simp only [taskStep, hres] at h
      split at h
      case isFalse hsame =>
        cases h
        cases hready
        exact ⟨hres, rfl, .inl ⟨rfl, Env.target_of_unchanged hsame⟩⟩
      case isTrue =>
        rcases updateUrl_cases t c.job (env.target c) with ⟨-, hno⟩ | ⟨hyes, held, hr⟩
        · have hf := mt Reply.isTrue_iff.mp hno
          rw [Env.target] at hf
          cases fate <;> simp only [hf] at h <;> cases h <;> cases hready
        · cases fate with
          | answered =>
            rw [← Reply.isTrue_iff, Env.target] at hyes
            simp only [hyes, if_true] at h
            cases h
            cases hready
            exact ⟨hres, rfl, .inr ⟨held, hr⟩⟩
          | lost =>
            cases h
            cases hready
          | never =>
            cases h
            cases hready
    | finish response =>
      simp only [taskStep] at h
      split at h
      case h_1 =>
        cases h
        rw [hres] at hready
        cases hready
      case h_2 => cases h
    | die =>
      cases h
      cases hready
    | _ => simp [taskStep, hres] at h
  · left
    cases taskStep_moves h with
    | resolved hr => exact absurd hr hres
    | refreshed hr => exact absurd hr hres
    | finished => exact ⟨hready, rfl⟩
    | _ => cases hready

/-- A request of a claim is an earlier one, or it is sent to the URL of the task. -/
theorem TaskMove.post_url (h : TaskMove env time t c t' c') {p : Post} (hp : c'.post = some p) :
    (∃ p₀, c.post = some p₀ ∧ p₀.request = p.request) ∨
      c.task = .ready p.request.url ∧ t' = t := by
  cases h with
  | sent ht =>
    cases hp
    exact .inr ⟨ht, rfl⟩
  | finished hpost =>
    cases hp
    exact .inl ⟨_, hpost, rfl⟩
  | _ => exact .inl ⟨p, hp, rfl⟩

/-- Only a resolving task writes a URL, into the row that it has locked. -/
theorem TaskMove.row_url (h : TaskMove env time t c t' c') (hj : j ∈ t'.deliveryJobs) :
    ∃ j₀ ∈ t.deliveryJobs, j₀.id = j.id ∧ (j.destinationUrl = j₀.destinationUrl ∨
      c.task = .resolving ∧ lockedRow c.job j₀ = true) := by
  cases h with
  | refreshed ht url hu held hr =>
    obtain ⟨j₀, hj₀, rfl⟩ := (hr.rows j).mp hj
    by_cases hl : lockedRow c.job j₀ = true
    · exact ⟨j₀, hj₀, by rw [if_pos hl, urlRow_id], .inr ⟨ht, hl⟩⟩
    · exact ⟨j₀, hj₀, by rw [if_neg hl], .inl (by rw [if_neg hl])⟩
  | recorded ht hu hr =>
    obtain ⟨j₀, hj₀, rfl⟩ := (hr.jobs j).mp hj
    by_cases hl : lockedRow c.job j₀ = true
    · exact ⟨j₀, hj₀, by rw [if_pos hl, Outcome.row_id], .inl (by rw [if_pos hl]; rfl)⟩
    · exact ⟨j₀, hj₀, by rw [if_neg hl], .inl (by rw [if_neg hl])⟩
  | _ => exact ⟨j, hj, rfl, .inl rfl⟩

/-- What holds of every claim: nothing is sent before the task is there, and then to the URL that
the worker resolves. -/
structure Claim.Aimed (env : Env) (c : Claim) : Prop where
  unsent : c.task.isUnsent = true → c.post = none
  ready : ∀ url, c.task = .ready url → url = env.target c
  posted : ∀ p, c.post = some p → p.request.url = env.target c

/-- What the latest claim of a job knows about the URL in its row. -/
structure Claim.KnowsUrl (env : Env) (c : Claim) (j : DeliveryJob) : Prop where
  unresolved : c.task = .spawned ∨ c.task = .resolving → j.destinationUrl = c.job.destinationUrl
  ready : ∀ url, c.task = .ready url → j.destinationUrl = env.target c
  posted : ∀ p, c.post = some p → j.destinationUrl = env.target c

theorem Claim.KnowsUrl.congr {j' : DeliveryJob} (h : c.KnowsUrl env j)
    (hurl : j'.destinationUrl = j.destinationUrl) : c.KnowsUrl env j' := by
  constructor <;> rw [hurl]
  · exact h.unresolved
  · exact h.ready
  · exact h.posted

structure UrlInv (env : Env) (w : World) : Prop where
  aimed : ∀ c ∈ w.claims, c.Aimed env
  rows : ∀ i c, w.Latest i c → ∀ j ∈ w.tables.deliveryJobs, j.id = c.job.id → c.KnowsUrl env j

section
variable {event : TaskEvent}

theorem Claim.Aimed.moved (ha : c.Aimed env)
    (h : taskStep env.hmacSha256 (env.config c.worker) time t c event = some (t', c')) :
    c'.Aimed env := by
  have hm := taskStep_moves h
  have htarget := env.target_same hm.claim_same
  constructor
  · intro hunsent
    cases hm with
    | opened ht => exact ha.unsent (by rw [ht]; rfl)
    | resolved ht => exact ha.unsent (by rw [ht]; rfl)
    | refreshed ht => exact ha.unsent (by rw [ht]; rfl)
    | finished hpost =>
      rw [ha.unsent hunsent] at hpost
      cases hpost
    | _ => cases hunsent
  · intro url hready
    rw [htarget]
    rcases taskStep_ready h hready with ⟨hold, -⟩ | ⟨-, rfl, -⟩
    · exact ha.ready url hold
    · rfl
  · intro p hp
    rw [htarget]
    rcases hm.post_url hp with ⟨p₀, hp₀, hreq⟩ | ⟨hold, -⟩
    · rw [← hreq]
      exact ha.posted p₀ hp₀
    · exact ha.ready _ hold

theorem Claim.KnowsUrl.moved (ha : c.Aimed env)
    (hk : ∀ j ∈ t.deliveryJobs, j.id = c.job.id → c.KnowsUrl env j)
    (h : taskStep env.hmacSha256 (env.config c.worker) time t c event = some (t', c'))
    (hj : j ∈ t'.deliveryJobs) (hid : j.id = c'.job.id) : c'.KnowsUrl env j := by
  have hm := taskStep_moves h
  have hs := hm.claim_same
  rw [hs.job] at hid
  obtain ⟨j₀, hj₀, hid₀, hurl⟩ := hm.row_url hj
  have hknows := hk j₀ hj₀ (hid₀.trans hid)
  constructor
  · intro hunresolved
    cases hm with
    | opened ht => exact (hk j hj hid).unresolved (.inl ht)
    | finished hpost => exact (hk j hj hid).unresolved hunresolved
    | refreshed ht url hu held hr hor => rcases hor with rfl | rfl <;> simp at hunresolved
    | _ => simp at hunresolved
  · intro url hready
    rw [env.target_same hs]
    rcases taskStep_ready h hready with ⟨hold, rfl⟩ | ⟨hold, -, ⟨rfl, hsame⟩ | ⟨held, hr⟩⟩
    · exact (hk j hj hid).ready url hold
    · rw [hsame]
      exact (hk j hj hid).unresolved (.inr hold)
    · -- the locked row is the only one of the job
      obtain ⟨j₁, hj₁, hl⟩ := held
      obtain ⟨j₂, hj₂, rfl⟩ := (hr.rows j).mp hj
      have heq : j₂ = j₁ := by
        apply Table.eq_of_key_eq hj₂ hj₁
        rw [(lockedRow_iff.mp hl).1, ← hid]
        split <;> rfl
      rw [heq, if_pos hl]
      rfl
  · intro p hp
    rw [env.target_same hs]
    rcases hm.post_url hp with ⟨p₀, hp₀, -⟩ | ⟨hold, rfl⟩
    · rcases hurl with hurl | ⟨hres, -⟩
      · rw [hurl]
        exact hknows.posted p₀ hp₀
      · rw [ha.unsent (by rw [hres]; rfl)] at hp₀
        cases hp₀
    · exact (hk j hj hid).ready _ hold

theorem World.Latest.of_moved {v : World} (h : v.Latest k d) (hc : w.claims[i]? = some c)
    (hs : c.Same c') (hv : v.claims = w.claims.set i c') :
    ∃ b, w.Latest k b ∧ b.Same d ∧ (k = i ∧ b = c ∧ d = c' ∨ k ≠ i ∧ d = b) := by
  have hpresent := h.present
  rw [hv] at hpresent
  obtain ⟨b, hb, hsame, hcase⟩ := moved_cases hc hs hpresent
  refine ⟨b, ⟨hb, fun m a ha hid => ?_⟩, hsame, hcase⟩
  by_cases hm : m = i
  · subst hm
    obtain rfl : a = c := eq_of_getElem? hc ha
    refine h.newest m c' ?_ (by rw [hs.job, hsame.job, hid])
    rw [hv]
    exact (getElem?_set_some hc).mpr (.inl ⟨rfl, rfl⟩)
  · refine h.newest m a ?_ (by rw [hsame.job, hid])
    rw [hv]
    exact (getElem?_set_some hc).mpr (.inr ⟨hm, ha⟩)

theorem UrlInv.moved (hi : UrlInv env w) (hl : LeaseInv env w) (hc : w.claims[i]? = some c)
    (h : taskStep env.hmacSha256 (env.config c.worker) time w.tables c event = some (t', c')) :
    UrlInv env { w with tables := t', clock := time, claims := w.claims.set i c' } := by
  have hm := taskStep_moves h
  have ha := hi.aimed c (List.mem_of_getElem? hc)
  constructor
  · intro d hd
    rcases List.mem_or_eq_of_mem_set hd with hd | rfl
    · exact hi.aimed d hd
    · exact ha.moved h
  · intro k d hd j hj hid
    obtain ⟨b, hb, -, ⟨rfl, rfl, rfl⟩ | ⟨hk, rfl⟩⟩ := hd.of_moved hc hm.claim_same rfl
    · exact Claim.KnowsUrl.moved ha (hi.rows k b hb) h hj hid
    · obtain ⟨j₀, hj₀, hid₀, hurl⟩ := hm.row_url hj
      have hknows := hi.rows k d hb j₀ hj₀ (hid₀.trans hid)
      have hsame : j.destinationUrl = j₀.destinationUrl := by
        rcases hurl with hurl | ⟨hres, hlocked⟩
        · exact hurl
        · -- a task that writes the row belongs to its latest claim
          have hlatest := (hl.fence hc (by rw [hres]; rfl) hj₀ hlocked).1
          have hjob := (lockedRow_iff.mp hlocked).1.symm.trans (hid₀.trans hid)
          exact absurd (hb.eq hlatest hjob).1.symm hk
      exact hknows.congr hsame

end

theorem UrlInv.enqueued {q : Enqueue} {r : WebhookEvent} {deadlineAt : Time}
    {js : List DeliveryJob} {ingested : List Enqueue} (hi : UrlInv env w)
    (hl : LedgerInv w.store) (h : Enqueued q w.tables t r deadlineAt js) :
    UrlInv env { w with tables := t, clock := time, ingested := ingested } := by
  refine ⟨hi.aimed, fun k d hd j hj hid => ?_⟩
  have hmem := List.mem_of_getElem? hd.present
  rcases h.mem_jobs.mp hj with hj | hj
  · exact hi.rows k d ⟨hd.present, hd.newest⟩ j hj hid
  · -- a claimed job is in the table, and a new job is not
    obtain ⟨j₀, hj₀, hs⟩ := hl.snapshots d.job (List.mem_map_of_mem hmem)
    exact absurd (hs.id.trans hid.symm) (h.id_ne hj₀ hj)

theorem UrlInv.claimed {workerId : String} {now : Time} {stale : ℤ} {jobs : List ClaimedJob}
    {task : Task} {phase : String → Phase} (hi : UrlInv env w)
    (h : Claimed w.tables t jobs workerId stale now) (htask : task = .ended ∨ task = .spawned) :
    UrlInv env ⟨t, time, phase, w.claims ++ jobs.map (newClaim workerId now task),
      w.ingested⟩ := by
  have hnew : ∀ job, (newClaim workerId now task job).Aimed env := by
    intro job
    refine ⟨fun _ => rfl, fun url hready => ?_, fun p hp => by cases hp⟩
    rcases htask with rfl | rfl <;> cases hready
  constructor
  · intro d hd
    rcases List.mem_append.mp hd with hd | hd
    · exact hi.aimed d hd
    · obtain ⟨job, -, rfl⟩ := List.mem_map.mp hd
      exact hnew job
  · intro k d hd j hj hid
    have hrow : ∃ j₀ ∈ w.tables.deliveryJobs, j₀.id = j.id ∧
        j.destinationUrl = j₀.destinationUrl := by
      obtain ⟨j₀, hj₀, ⟨-, rfl⟩ | ⟨-, rfl⟩⟩ := (h.rows j).mp hj
      · exact ⟨j₀, hj₀, rfl, rfl⟩
      · exact ⟨j, hj₀, rfl, rfl⟩
    obtain ⟨j₀, hj₀, hid₀, hurl⟩ := hrow
    rcases claims_cases hd.present with hold | ⟨n, job, rfl, hjob, rfl⟩
    · have hlatest : w.Latest k d :=
        ⟨hold, fun m b hb hbid => hd.newest m b (getElem?_append_old hb) hbid⟩
      exact (hi.rows k d hlatest j₀ hj₀ (hid₀.trans hid)).congr hurl
    · -- the snapshot of a new claim has the URL of the row
      obtain ⟨j₁, hj₁, -, r, -, -, hsnapshot⟩ := h.due job (List.mem_of_getElem? hjob)
      have hsame : job.destinationUrl = j.destinationUrl := by
        have hjid : j₁.id = j₀.id := by
          rw [hid₀, hid]
          exact (congrArg ClaimedJob.id hsnapshot).symm
        rw [hsnapshot, hurl, ← Table.eq_of_key_eq hj₁ hj₀ hjid]
        rfl
      refine ⟨fun _ => hsame.symm, fun url hready => ?_, fun p hp => by cases hp⟩
      rcases htask with rfl | rfl <;> cases hready

theorem World.step_task {event : TaskEvent} (h : w.step env ⟨time, .task i event⟩ = some w') :
    ∃ c t' c', w.claims[i]? = some c ∧
      taskStep env.hmacSha256 (env.config c.worker) time w.tables c event = some (t', c') ∧
      w' = { w with tables := t', clock := time, claims := w.claims.set i c' } := by
  obtain ⟨v, hv, rfl⟩ := Option.map_eq_some_iff.mp h
  simp only [World.act, World.task] at hv
  split at hv
  case h_1 c hc =>
    obtain ⟨⟨t', c'⟩, hstep, rfl⟩ := Option.map_eq_some_iff.mp hv
    exact ⟨c, t', c', hc, hstep, rfl⟩
  case h_2 => cases hv

theorem UrlInv.step (hi : UrlInv env w) (hl : LeaseInv env w) (hledger : LedgerInv w.store)
    (h : w.step env e = some w') : UrlInv env w' := by
  have hm := World.step_moves h
  cases hm with
  | phased => exact ⟨hi.aimed, fun k d hd => hi.rows k d ⟨hd.present, hd.newest⟩⟩
  | enqueued ht hq => exact hi.enqueued hledger hq
  | claimed hp hr hc hphase => exact hi.claimed hc (hphase.imp_right And.left)
  | moved =>
    obtain ⟨c, t', c', hc, hstep, heq⟩ := World.step_task h
    rw [heq]
    exact hi.moved hl hc hstep

theorem urlInv_of_reachable {G : System.Guard World Event} (h : (fleet env).Reachable G w) :
    UrlInv env w := by
  apply h.invariant
  · constructor
    · simp [fleet, World.initial]
    · intro k d hd
      have hpresent := hd.present
      simp [fleet, World.initial] at hpresent
  · intro s e s' hs hi hstep _
    exact hi.step (leaseInv_of_reachable hs) (ledgerInv_of_fleet hs) hstep

/-- The claim at position `i` has ended without a POST. -/
def World.Silent (w : World) (i : ℕ) : Prop :=
  ∃ c, w.claims[i]? = some c ∧ c.task = .ended ∧ c.post = none

theorem World.Silent.step (hs : w.Silent i) (h : w.Moves env e w') : w'.Silent i := by
  obtain ⟨c, hc, hended, hpost⟩ := hs
  cases h with
  | phased => exact ⟨c, hc, hended, hpost⟩
  | enqueued => exact ⟨c, hc, hended, hpost⟩
  | claimed => exact ⟨c, getElem?_append_old hc, hended, hpost⟩
  | @moved time k event d t d' hd h =>
    by_cases hk : i = k
    · subst hk
      obtain rfl : d = c := eq_of_getElem? hc hd
      refine ⟨d', (getElem?_set_some hc).mpr (.inl ⟨rfl, rfl⟩), ?_⟩
      cases h with
      | ended => exact ⟨rfl, hpost⟩
      | finished hsome =>
        rw [hpost] at hsome
        cases hsome
      | _ => simp_all
    · exact ⟨c, (getElem?_set_some hd).mpr (.inr ⟨hk, hc⟩), hended, hpost⟩

theorem World.Silent.later {G : System.Guard World Event} (hs : w.Silent i)
    (h : (fleet env).Reaches G w w') : w'.Silent i := by
  induction h with
  | refl => exact hs
  | tail _ hn ih =>
    rcases hn with ⟨e, he, -⟩
    exact ih.step (World.step_moves he)

/-- A refresh that finds no locked row changes nothing, and ends the task. -/
theorem refresh_lost {url : String} {fate : Fate} (ha : c.Aimed env)
    (hurl : (env.config c.worker).destinationUrl c.job.destinationName = some url)
    (hne : url ≠ c.job.destinationUrl)
    (hlost : ∀ j ∈ t.deliveryJobs, lockedRow c.job j = false)
    (h : taskStep env.hmacSha256 (env.config c.worker) time t c (.refresh fate) = some (t', c')) :
    t' = t ∧ c'.task = .ended ∧ c'.post = none := by
  have hresolved : resolveDestinationUrl (env.config c.worker) c.job = ⟨url, true⟩ := by
    rw [resolveDestinationUrl, hurl]
  simp only [taskStep, hresolved] at h
  split at h
  case h_2 => cases h
  case h_1 hres =>
    have hpost := ha.unsent (by rw [hres]; rfl)
    rw [if_pos ⟨trivial, hne⟩] at h
    rcases updateUrl_cases t c.job url with ⟨hsame, hno⟩ | ⟨-, ⟨j, hj, hl⟩, -⟩
    · have hf := mt Reply.isTrue_iff.mp hno
      cases fate <;> simp only [hf, hsame] at h <;> cases h <;> exact ⟨rfl, rfl, hpost⟩
    · rw [hlost j hj] at hl
      cases hl

/-- An outcome is only committed for the latest claim of a job. -/
theorem latest_of_commit (hl : LeaseInv env w) (h : w.Moves env e w') (hc : w.claims[i]? = some c)
    (hc' : w'.claims[i]? = some c') (hne : c'.outcomes ≠ c.outcomes) : w'.Latest i c' := by
  have hsame : w'.claims[i]? ≠ some c := by
    intro hold
    exact hne (congrArg Claim.outcomes (eq_of_getElem? hold hc'))
  cases h with
  | phased => exact absurd hc hsame
  | enqueued => exact absurd hc hsame
  | claimed => exact absurd (getElem?_append_old hc) hsame
  | @moved time k event d t d' hd h =>
    rcases (getElem?_set_some hd).mp hc' with ⟨rfl, rfl⟩ | ⟨-, hold⟩
    · obtain rfl : d = c := eq_of_getElem? hc hd
      rcases hl.outcomes_moved hc h.effect with ho | ⟨hlatest, -⟩
      · exact absurd ho hne
      · let v : World := { w with tables := t, clock := time, claims := w.claims.set i c' }
        have hv : v.claims = w.claims.set i c' := rfl
        obtain ⟨b, hb, -, ⟨-, -, rfl⟩ | ⟨hi, -⟩⟩ := hlatest.moved hc h.claim_same hv
        · exact hb
        · exact absurd rfl hi
    · exact absurd (congrArg Claim.outcomes (eq_of_getElem? hc hold)) hne

/-- When the outcome of a POST is committed, the row has the URL of the POST. -/
theorem committed_url (h : (fleet env).Reachable System.free w)
    (hstep : (fleet env).step w e = some w') (hc : w.claims[i]? = some c)
    (hc' : w'.claims[i]? = some c') (hne : c'.outcomes ≠ c.outcomes) {p : Post}
    (hp : c'.post = some p) :
    ∃ j ∈ w'.tables.deliveryJobs, j.id = c'.job.id ∧ j.destinationUrl = p.request.url := by
  have h' := h.step hstep trivial
  have hi := urlInv_of_reachable h'
  have hmem := List.mem_of_getElem? hc'
  have hlatest := latest_of_commit (leaseInv_of_reachable h) (World.step_moves hstep) hc hc' hne
  obtain ⟨j, hj, hs⟩ := (ledgerInv_of_fleet h').snapshots c'.job (List.mem_map_of_mem hmem)
  refine ⟨j, hj, hs.id, ?_⟩
  rw [(hi.rows i c' hlatest j hj hs.id).posted p hp, (hi.aimed c' hmem).posted p hp]

/-- Every POST goes to the URL that the configuration of its worker gives for the destination, in
any order of the destinations, or else to that of the snapshot; a claim that finds its lock lost
sends none; and the row has the URL of a POST when the outcome of the POST is committed. -/
theorem stored_url_is_used (env : Env) {parseUrl : String → Except String String}
    (hvalid : ∀ workerId, (env.config workerId).validate parseUrl = .ok ()) {w : World}
    (h : (fleet env).Reachable System.free w) :
    (∀ c ∈ w.claims, ∀ p, c.post = some p →
      (∀ d ∈ (env.config c.worker).destinations, d.name = c.job.destinationName →
        p.request.url = d.url) ∧
      ((∀ d ∈ (env.config c.worker).destinations, d.name ≠ c.job.destinationName) →
        p.request.url = c.job.destinationUrl)) ∧
    (∀ workerId ds, ds.Perm (env.config workerId).destinations → ∀ name,
      { env.config workerId with destinations := ds }.destinationUrl name =
        (env.config workerId).destinationUrl name) ∧
    (∀ i c url time fate w', w.claims[i]? = some c →
      (env.config c.worker).destinationUrl c.job.destinationName = some url →
      url ≠ c.job.destinationUrl → (∀ j ∈ w.tables.deliveryJobs, lockedRow c.job j = false) →
      (fleet env).step w ⟨time, .task i (.refresh fate)⟩ = some w' → w'.tables = w.tables ∧
        ∀ v, (fleet env).Reaches System.free w' v → ∀ d, v.claims[i]? = some d → d.post = none) ∧
    ∀ e w', (fleet env).step w e = some w' → ∀ (i : ℕ) (c c' : Claim), w.claims[i]? = some c →
      w'.claims[i]? = some c' → c'.outcomes ≠ c.outcomes → ∀ p, c'.post = some p →
        ∃ j ∈ w'.tables.deliveryJobs, j.id = c'.job.id ∧ j.destinationUrl = p.request.url := by
  have hi := urlInv_of_reachable h
  have hnames := fun workerId => (Config.destinations_ok (hvalid workerId)).2
  refine ⟨fun c hc p hp => ?_, ?_, ?_, ?_⟩
  · rw [(hi.aimed c hc).posted p hp]
    constructor
    · intro d hd hname
      exact Env.target_of_some ((destinationUrl_eq_some (hnames _)).mpr ⟨d, hd, hname, rfl⟩)
    · exact fun hno => Env.target_of_none (destinationUrl_eq_none.mpr hno)
  · exact fun workerId ds hperm => destinationUrl_perm (hnames workerId) hperm
  · intro i c url time fate w' hc hurl hne hlost hstep
    obtain ⟨b, t', c', hb, htask, rfl⟩ := World.step_task hstep
    obtain rfl : b = c := eq_of_getElem? hc hb
    obtain ⟨rfl, hended, hpost⟩ :=
      refresh_lost (hi.aimed b (List.mem_of_getElem? hc)) hurl hne hlost htask
    refine ⟨rfl, fun v hv d hd => ?_⟩
    have hsilent : World.Silent { w with clock := time, claims := w.claims.set i c' } i :=
      ⟨c', (getElem?_set_some hc).mpr (.inl ⟨rfl, rfl⟩), hended, hpost⟩
    obtain ⟨d', hd', -, hnone⟩ := hsilent.later hv
    rw [eq_of_getElem? hd' hd, hnone]
  · exact fun e w' hstep i c c' hc hc' hne p hp => committed_url h hstep hc hc' hne hp

def movedConfig (url : String) : Config :=
  { sampleConfig with destinations := [{ sampleDestination with url := url }] }

/-- Worker `b` has another URL than the other workers, and none of them has that of the job. -/
def rollingEnv : Env where
  hmacSha256 := fun _ _ => []
  config := fun workerId => movedConfig (if workerId = "b" then "https://b" else "https://a")

theorem rollingEnv_valid (workerId : String) :
    (rollingEnv.config workerId).validate (fun _ => .ok "https") = .ok () := by
  change (movedConfig (if workerId = "b" then _ else _)).validate _ = _
  split <;> decide

/-- Worker `b` takes a stalled job over from `a` and sends; then `a` passes its deadline check. -/
def rolling : List Event :=
  takenOver.take 3 ++ attemptSteps 1 302 (.ok 500) ++ [⟨seconds 303, .task 0 .checkDeadline⟩]

def sentUrl (outcomes : ℕ) (c : Claim) : Option String :=
  if c.outcomes.length = outcomes then c.post.map (·.request.url) else none

theorem sentUrl_eq_some {outcomes : ℕ} {url : String} : sentUrl outcomes c = some url ↔
    c.outcomes.length = outcomes ∧ ∃ p, c.post = some p ∧ p.request.url = url := by
  rw [sentUrl, Option.ite_none_right_eq_some, Option.map_eq_some_iff]

/-- After the takeover `a` finds its lock lost, and `b` commits the outcome of its POST. -/
theorem stored_url_is_used_rolling : ∃ w w' v d, (fleet rollingEnv).Reachable System.free w ∧
    (fleet rollingEnv).step w ⟨seconds 304, .task 0 (.refresh .answered)⟩ = some w' ∧
    (∀ u, (fleet rollingEnv).Reaches System.free w' u →
      ∀ c, u.claims[0]? = some c → c.post = none) ∧
    (fleet rollingEnv).step w ⟨seconds 304, .task 1 (.record .answered)⟩ = some v ∧
    v.claims[1]? = some d ∧
      ∃ j ∈ v.tables.deliveryJobs, j.id = d.job.id ∧ j.destinationUrl = "https://b" := by
  obtain ⟨w, hw, hp⟩ := System.exists_reachable_of_run (fleet rollingEnv) System.free rolling
    (fun w =>
      (w.claims[0]?).map (fun c => ((rollingEnv.config c.worker).destinationUrl
        c.job.destinationName, c.job.destinationUrl, w.tables.deliveryJobs.rows.all
          fun j => ! lockedRow c.job j)) =
        some (some "https://a", "https://app.example.com/hook", true) ∧
      ((fleet rollingEnv).step w ⟨seconds 304, .task 0 (.refresh .answered)⟩).isSome ∧
      (w.claims[1]?).bind (sentUrl 0) = some "https://b" ∧
      (((fleet rollingEnv).step w ⟨seconds 304, .task 1 (.record .answered)⟩).bind
        (·.claims[1]?)).bind (sentUrl 1) = some "https://b") (by decide)
  rw [decide_eq_true_eq] at hp
  obtain ⟨hstale, hrefresh, hbefore, hafter⟩ := hp
  obtain ⟨-, -, hlost, hcommit⟩ := stored_url_is_used rollingEnv rollingEnv_valid hw
  obtain ⟨c, hc, hcp⟩ := Option.map_eq_some_iff.mp hstale
  rw [Prod.mk.injEq, Prod.mk.injEq] at hcp
  rcases hcp with ⟨hurl, hsnapshot, hrows⟩
  obtain ⟨w', hw'⟩ := Option.isSome_iff_exists.mp hrefresh
  obtain ⟨b, hb, hbs⟩ := Option.bind_eq_some_iff.mp hbefore
  obtain ⟨d, hd, hds⟩ := Option.bind_eq_some_iff.mp hafter
  obtain ⟨v, hv, hvd⟩ := Option.bind_eq_some_iff.mp hd
  obtain ⟨hnone, -⟩ := sentUrl_eq_some.mp hbs
  obtain ⟨hone, p, hpost, hsent⟩ := sentUrl_eq_some.mp hds
  refine ⟨w, w', v, d, hw, hw', ?_, hv, hvd, ?_⟩
  · have hne : "https://a" ≠ c.job.destinationUrl := by
      rw [hsnapshot]
      decide
    have hunlocked : ∀ j ∈ w.tables.deliveryJobs, lockedRow c.job j = false := by
      intro j hj
      simpa using List.all_eq_true.mp hrows j hj
    exact (hlost 0 c _ _ _ w' hc hurl hne hunlocked hw').2
  · have hne : d.outcomes ≠ b.outcomes := by
      intro heq
      rw [heq, hnone] at hone
      cases hone
    rw [← hsent]
    exact hcommit _ v hv 1 b d hb hvd hne p hpost

end ResendRouter.Delivery
