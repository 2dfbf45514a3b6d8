import ResendRouter.Program.Config

/-! # What validation accepts

The checks of the validation, in three groups: those before the check of the
stale lock, that check itself, and those after it.
-/

namespace ResendRouter.Configuration
open Foundation Program

variable {parseUrl : String → Except String String}

theorem rejectIf_eq_ok {bad : Prop} [Decidable bad] {message : String} :
    rejectIf bad message = .ok () ↔ ¬ bad := by
  by_cases h : bad <;> simp [rejectIf, h]

theorem bind_unit_eq_ok {ε β : Type} {x : Except ε Unit} {f : Unit → Except ε β} {b : β} :
    (x >>= f) = .ok b ↔ x = .ok () ∧ f () = .ok b := by
  cases x <;> simp [bind, Except.bind]

/-- A configured domain has characters besides its white space, `@` and dots. -/
def SolidDomain (domain : String) : Prop :=
  isBlank (trimEndMatches '.' (trimStartMatches '@' (trim domain))) = false

theorem validateDomains_eq_ok {destinationName field : String} {domains : List String} :
    validateDomains destinationName field domains = .ok () ↔ ∀ d ∈ domains, SolidDomain d := by
  simp [validateDomains, rejectIf_eq_ok, SolidDomain]

structure ValidDestination (parseUrl : String → Except String String) (d : DestinationConfig) :
    Prop where
  name : isBlank (trim d.name) = false
  nameCharacters : d.name.toList.all isNameCharacter = true
  url : ∃ scheme, parseUrl d.url = .ok scheme ∧ (scheme = "http" ∨ scheme = "https")
  criterion : d.catchAll = true ∨ d.fromDomains ≠ [] ∨ d.toDomains ≠ [] ∨ d.eventTypes ≠ []
  fromDomains : ∀ s ∈ d.fromDomains, SolidDomain s
  toDomains : ∀ s ∈ d.toDomains, SolidDomain s
  eventTypes : ∀ s ∈ d.eventTypes, isBlank (trim s) = false

theorem checkUrl_eq_ok {d : DestinationConfig} : checkUrl parseUrl d = .ok () ↔
    ∃ scheme, parseUrl d.url = .ok scheme ∧ (scheme = "http" ∨ scheme = "https") := by
  rw [checkUrl]
  cases parseUrl d.url with
  | error e => simp
  | ok scheme =>
    simp only [rejectIf_eq_ok, not_and_or, not_not, Except.ok.injEq, exists_eq_left']

theorem validate_destination_eq_ok {d : DestinationConfig} :
    d.validate parseUrl = .ok () ↔ ValidDestination parseUrl d := by
  simp only [DestinationConfig.validate, bind_unit_eq_ok, rejectIf_eq_ok, checkUrl_eq_ok,
    validateDomains_eq_ok, not_not, Bool.not_eq_true, Bool.not_eq_false, not_exists, not_and]
  constructor
  · rintro ⟨h1, h2, h3, h4, h5, h6, h7⟩
    exact ⟨h1, h2, h3, h4, h5, h6, h7⟩
  · rintro ⟨h1, h2, h3, h4, h5, h6, h7⟩
    exact ⟨h1, h2, h3, h4, h5, h6, h7⟩

theorem validateDestinations_eq_ok {names : List String} {ds : List DestinationConfig} :
    validateDestinations parseUrl names ds = .ok () ↔
      (∀ d ∈ ds, ValidDestination parseUrl d) ∧ (ds.map (·.name)).Nodup ∧
        ∀ d ∈ ds, d.name ∉ names := by
  simp only [← validate_destination_eq_ok]
  constructor
  · exact validateDestinations_ok
  · induction ds generalizing names with
    | nil => simp [validateDestinations]
    | cons d ds ih =>
      rintro ⟨hall, hnodup, hnew⟩
      rw [List.map_cons, List.nodup_cons] at hnodup
      rw [List.forall_mem_cons] at hall hnew
      have hrest : ∀ e ∈ ds, e.name ∉ d.name :: names := by
        intro e he hin
        rcases List.mem_cons.mp hin with heq | hin
        · exact hnodup.1 (heq ▸ List.mem_map_of_mem he)
        · exact hnew.2 e he hin
      rw [validateDestinations, bind_unit_eq_ok, rejectIf_bind_eq_ok]
      exact ⟨hall.1, hnew.1, ih ⟨hall.2, hnodup.2, hrest⟩⟩

structure EarlierPassed (c : Config) : Prop where
  destinations : c.destinations ≠ []
  routerSigningSecret : 32 ≤ (asBytes c.routerSigningSecret).length
  deliveryWorkerCount : c.deliveryWorkerCount ≠ 0
  databaseMaxConnections : c.databaseMaxConnections ≠ 0
  deliveryClaimLimit : 0 < c.deliveryClaimLimit ∧ c.deliveryClaimLimit ≤ 100
  deliveryTimeoutSecs : c.deliveryTimeoutSecs ≠ 0
  retryWindowSecs : c.retryWindowSecs ≠ 0
  resendSignatureToleranceSecs : 0 < c.resendSignatureToleranceSecs
  warnAfterAttempts : 0 < c.warnAfterAttempts
  staleDeliveryLockSecs : 0 < c.staleDeliveryLockSecs

structure LaterPassed (parseUrl : String → Except String String) (c : Config) : Prop where
  workerDrainTimeoutSecs : c.workerDrainTimeoutSecs ≠ 0
  destinations : ∀ d ∈ c.destinations, ValidDestination parseUrl d
  names : (c.destinations.map (·.name)).Nodup

variable {c : Config}

/-- The checks before the one of the stale lock, in the order of the source. -/
def earlierChecks (c : Config) : Except AppError Unit := do
  rejectIf (c.destinations = []) "DESTINATIONS_JSON must contain at least one destination"
  rejectIf ((asBytes c.routerSigningSecret).length < 32)
    "ROUTER_SIGNING_SECRET should be at least 32 characters"
  rejectIf (c.deliveryWorkerCount = 0) "DELIVERY_WORKERS must be greater than zero"
  rejectIf (c.databaseMaxConnections = 0) "DATABASE_MAX_CONNECTIONS must be greater than zero"
  rejectIf (c.deliveryClaimLimit ≤ 0) "DELIVERY_CLAIM_LIMIT must be greater than zero"
  rejectIf (c.deliveryClaimLimit > 100) "DELIVERY_CLAIM_LIMIT must be 100 or lower"
  rejectIf (c.deliveryTimeoutSecs = 0) "DELIVERY_TIMEOUT_SECS must be greater than zero"
  rejectIf (c.retryWindowSecs = 0) "RETRY_WINDOW_SECS must be greater than zero"
  rejectIf (c.resendSignatureToleranceSecs ≤ 0) "RESEND_SIGNATURE_TOLERANCE_SECS must be positive"
  rejectIf (c.warnAfterAttempts ≤ 0) "WARN_AFTER_ATTEMPTS must be positive"
  rejectIf (c.staleDeliveryLockSecs ≤ 0) "STALE_DELIVERY_LOCK_SECS must be positive"

/-- The check of the stale lock against the given floor, and the checks after it. -/
def remainingChecks (parseUrl : String → Except String String) (c : Config) (floor : ℤ) :
    Except AppError Unit := do
  rejectIf (c.staleDeliveryLockSecs ≤ floor)
    "STALE_DELIVERY_LOCK_SECS must be at least DELIVERY_TIMEOUT_SECS + 5"
  rejectIf (c.workerDrainTimeoutSecs = 0) "WORKER_DRAIN_TIMEOUT_SECS must be positive"
  validateDestinations parseUrl [] c.destinations

theorem validate_eq (c : Config) : c.validate parseUrl =
    earlierChecks c >>= fun _ => remainingChecks parseUrl c c.staleLockFloor := by
  simp only [Config.validate, earlierChecks, remainingChecks, bind_assoc]

theorem earlierChecks_eq_ok : earlierChecks c = .ok () ↔ EarlierPassed c := by
  simp only [earlierChecks, rejectIf_bind_eq_ok, rejectIf_eq_ok]
  constructor
  · rintro ⟨h1, h2, h3, h4, h5, h6, h7, h8, h9, h10, h11⟩
    exact ⟨h1, not_lt.mp h2, h3, h4, ⟨not_le.mp h5, not_lt.mp h6⟩, h7, h8, not_le.mp h9,
      not_le.mp h10, not_le.mp h11⟩
  · rintro ⟨h1, h2, h3, h4, ⟨h5, h6⟩, h7, h8, h9, h10, h11⟩
    exact ⟨h1, not_lt.mpr h2, h3, h4, not_le.mpr h5, not_lt.mpr h6, h7, h8, not_le.mpr h9,
      not_le.mpr h10, not_le.mpr h11⟩

theorem remainingChecks_eq_ok {floor : ℤ} : remainingChecks parseUrl c floor = .ok () ↔
    floor < c.staleDeliveryLockSecs ∧ LaterPassed parseUrl c := by
  simp only [remainingChecks, rejectIf_bind_eq_ok, validateDestinations_eq_ok, not_le]
  constructor
  · rintro ⟨hfloor, hdrain, hall, hnames, -⟩
    exact ⟨hfloor, hdrain, hall, hnames⟩
  · rintro ⟨hfloor, hdrain, hall, hnames⟩
    exact ⟨hfloor, hdrain, hall, hnames, by simp⟩

theorem validate_eq_ok : c.validate parseUrl = .ok () ↔
    EarlierPassed c ∧ c.staleLockFloor < c.staleDeliveryLockSecs ∧ LaterPassed parseUrl c := by
  rw [validate_eq, bind_unit_eq_ok, earlierChecks_eq_ok, remainingChecks_eq_ok]

end ResendRouter.Configuration
