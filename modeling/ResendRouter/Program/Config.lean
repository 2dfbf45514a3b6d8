import ResendRouter.Program.Basic
import ResendRouter.Foundation.Text

/-! # Configuration and its validation

The checks run in the order of the source, and the first failing one names the
error. Parsing of URLs is a parameter: it returns the scheme, or the parser's
error text.
-/

namespace ResendRouter.Program
open Foundation

structure DestinationConfig where
  name : String
  url : String
  fromDomains : List String
  toDomains : List String
  eventTypes : List String
  catchAll : Bool
  deriving DecidableEq

/-- A socket address of the standard library. -/
inductive SocketAddr where
  | v4 (ip : BitVec 32) (port : BitVec 16)
  | v6 (ip : BitVec 128) (port : BitVec 16) (flowinfo scopeId : BitVec 32)
  deriving DecidableEq

structure Config where
  databaseUrl : String
  databaseMaxConnections : ℕ
  serverBind : SocketAddr
  resendWebhookSecret : String
  resendSignatureToleranceSecs : ℤ
  routerSigningSecret : String
  destinations : List DestinationConfig
  deliveryWorkerCount : ℕ
  deliveryClaimLimit : ℤ
  deliveryTimeoutSecs : ℕ
  retryWindowSecs : ℕ
  warnAfterAttempts : ℤ
  staleDeliveryLockSecs : ℤ
  workerDrainTimeoutSecs : ℕ

def rejectIf (bad : Prop) [Decidable bad] (message : String) : Except AppError Unit :=
  if bad then .error (.config message) else .ok ()

theorem rejectIf_bind_eq_ok {bad : Prop} [Decidable bad] {message : String} {β : Type}
    {f : Unit → Except AppError β} {b : β} :
    (rejectIf bad message >>= f) = .ok b ↔ ¬ bad ∧ f () = .ok b := by
  by_cases h : bad <;> simp [rejectIf, h, bind, Except.bind]

def isNameCharacter (c : Char) : Bool :=
  isAsciiAlphanumeric c || c = '-' || c = '_' || c = '.'

def validateDomains (destinationName field : String) (domains : List String) :
    Except AppError Unit :=
  rejectIf (∃ domain ∈ domains,
      isBlank (trimEndMatches '.' (trimStartMatches '@' (trim domain))) = true)
    ("destination `" ++ destinationName ++ "` has an empty " ++ field ++ " entry")

section
variable (parseUrl : String → Except String String)

def checkUrl (d : DestinationConfig) : Except AppError Unit :=
  match parseUrl d.url with
  | .error error => .error (.config ("destination `" ++ d.name ++ "` has invalid url: " ++ error))
  | .ok scheme => rejectIf (scheme ≠ "http" ∧ scheme ≠ "https")
      ("destination `" ++ d.name ++ "` uses unsupported url scheme `" ++ scheme ++ "`")

def DestinationConfig.validate (d : DestinationConfig) : Except AppError Unit := do
  rejectIf (isBlank (trim d.name) = true) "destination name cannot be empty"
  rejectIf (d.name.toList.all isNameCharacter = false)
    ("destination `" ++ d.name ++
      "` name may only contain ASCII letters, numbers, dots, dashes, and underscores")
  checkUrl parseUrl d
  rejectIf (¬ (d.catchAll = true ∨ d.fromDomains ≠ [] ∨ d.toDomains ≠ [] ∨ d.eventTypes ≠ []))
    ("destination `" ++ d.name ++ "` needs at least one match criterion or catch_all=true")
  validateDomains d.name "from_domains" d.fromDomains
  validateDomains d.name "to_domains" d.toDomains
  rejectIf (∃ eventType ∈ d.eventTypes, isBlank (trim eventType) = true)
    ("destination `" ++ d.name ++ "` has an empty event type")

def validateDestinations (names : List String) : List DestinationConfig → Except AppError Unit
  | [] => .ok ()
  | d :: ds => do
    d.validate parseUrl
    rejectIf (d.name ∈ names) ("duplicate destination name `" ++ d.name ++ "`")
    validateDestinations (d.name :: names) ds

/-- The timeout cast to `i64`, plus five, in wrapping arithmetic. -/
def Config.staleLockFloor (c : Config) : ℤ := wrapI64 (wrapI64 c.deliveryTimeoutSecs + 5)

def Config.validate (c : Config) : Except AppError Unit := do
  rejectIf (c.destinations = []) "DESTINATIONS_JSON must contain at least one destination"
  rejectIf ((asBytes c.routerSigningSecret).length < 32)
    "ROUTER_SIGNING_SECRET should be at least 32 characters"
  rejectIf (c.deliveryWorkerCount = 0) "DELIVERY_WORKERS must be greater than zero"
  rejectIf (c.databaseMaxConnections = 0) "DATABASE_MAX_CONNECTIONS must be greater than zero"
  rejectIf (c.deliveryClaimLimit ≤ 0) "DELIVERY_CLAIM_LIMIT must be greater than zero"
  rejectIf (c.deliveryClaimLimit > 100) "DELIVERY_CLAIM_LIMIT must be 100 or lower"
  rejectIf (c.deliveryTimeoutSecs = 0) "DELIVERY_TIMEOUT_SECS must be greater than zero"
  rejectIf (c.retryWindowSecs = 0) "RETRY_WINDOW_SECS must be greater than zero"
  rejectIf (c.resendSignatureToleranceSecs ≤ 0) "RESEND_SIGNATURE_TOLERANCE_SECS must be positive"
  rejectIf (c.warnAfterAttempts ≤ 0) "WARN_AFTER_ATTEMPTS must be positive"
  rejectIf (c.staleDeliveryLockSecs ≤ 0) "STALE_DELIVERY_LOCK_SECS must be positive"
  rejectIf (c.staleDeliveryLockSecs ≤ c.staleLockFloor)
    "STALE_DELIVERY_LOCK_SECS must be at least DELIVERY_TIMEOUT_SECS + 5"
  rejectIf (c.workerDrainTimeoutSecs = 0) "WORKER_DRAIN_TIMEOUT_SECS must be positive"
  validateDestinations parseUrl [] c.destinations

end

def Config.retryWindow (c : Config) : Duration := seconds (wrapI64 c.retryWindowSecs)

def Config.destinationUrl (c : Config) (destinationName : String) : Option String :=
  (c.destinations.find? (·.name = destinationName)).map (·.url)

section
variable {parseUrl : String → Except String String}

theorem bind_eq_ok {ε β γ : Type} {x : Except ε β} {f : β → Except ε γ} {c : γ} :
    (x >>= f) = .ok c ↔ ∃ b, x = .ok b ∧ f b = .ok c := by
  cases x <;> simp [bind, Except.bind]

theorem validateDestinations_ok {names : List String} {ds : List DestinationConfig}
    (h : validateDestinations parseUrl names ds = .ok ()) :
    (∀ d ∈ ds, d.validate parseUrl = .ok ()) ∧ (ds.map (·.name)).Nodup ∧
      ∀ d ∈ ds, d.name ∉ names := by
  induction ds generalizing names with
  | nil => simp
  | cons d ds ih =>
    obtain ⟨_, hd, h⟩ := bind_eq_ok.mp h
    obtain ⟨hn, hs⟩ := rejectIf_bind_eq_ok.mp h
    obtain ⟨hall, hnodup, hnew⟩ := ih hs
    refine ⟨?_, ?_, ?_⟩
    · simpa [hd] using hall
    · simp only [List.map_cons, List.nodup_cons, List.mem_map, not_exists, not_and]
      exact ⟨fun e he heq => hnew e he (by simp [heq]), hnodup⟩
    · simp only [List.forall_mem_cons]
      exact ⟨hn, fun e he hin => hnew e he (List.mem_cons_of_mem _ hin)⟩

theorem Config.destinations_ok {c : Config} (h : c.validate parseUrl = .ok ()) :
    (∀ d ∈ c.destinations, d.validate parseUrl = .ok ()) ∧
      (c.destinations.map (·.name)).Nodup := by
  simp only [Config.validate, rejectIf_bind_eq_ok] at h
  have := validateDestinations_ok h.2.2.2.2.2.2.2.2.2.2.2.2.2
  exact ⟨this.1, this.2.1⟩

end
end ResendRouter.Program
