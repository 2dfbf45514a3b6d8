import ResendRouter.Program.Config

/-! # Reading the configuration from the environment

A variable that is not set, or not valid Unicode, reads as `none`. The parsers
of socket addresses and of the destinations' JSON are parameters.
-/

namespace ResendRouter.Program
open Foundation

abbrev Environment := String → Option String

/-- Parsers of the standard library, the JSON library and the URL library. -/
structure EnvironmentParsers where
  socketAddress : String → Except String SocketAddr
  destinations : String → Except String (List DestinationConfig)
  parseUrl : String → Except String String

def requiredEnv (env : Environment) (key : String) : Except AppError String :=
  match env key with
  | some value => .ok value
  | none => .error (.config ("missing required env var " ++ key))

def optionalEnv (env : Environment) (key : String) : Option String :=
  (env key).filter fun value => ! isBlank (trim value)

/-- The digits of an integer, added to the value so far with the given sign. -/
def accumulate (sign low high : ℤ) : ℤ → List Char → Except String ℤ
  | n, [] => .ok n
  | n, c :: cs =>
    if isDigit c then
      let n := n * 10 + sign * (c.toNat - '0'.toNat)
      if n < low then .error "number too small to fit in target type"
      else if high < n then .error "number too large to fit in target type"
      else accumulate sign low high n cs
    else .error "invalid digit found in string"

/-- The decimal text of an integer type with the given range; only a signed type takes a minus. -/
def parseInteger (low high : ℤ) (s : String) : Except String ℤ :=
  match s.toList with
  | [] => .error "cannot parse integer from empty string"
  | ['+'] => .error "invalid digit found in string"
  | ['-'] => .error "invalid digit found in string"
  | '+' :: digits => accumulate 1 low high 0 digits
  | '-' :: digits =>
    if low < 0 then accumulate (-1) low high 0 digits else .error "invalid digit found in string"
  | digits => accumulate 1 low high 0 digits

def parseUnsigned (high : ℕ) (s : String) : Except String ℕ :=
  (parseInteger 0 high s).map Int.toNat

def parseEnv {α : Type} (parse : String → Except String α) (env : Environment) (key : String)
    (default : α) : Except AppError α :=
  match optionalEnv env key with
  | some value => (parse value).mapError fun error => .config ("invalid " ++ key ++ ": " ++ error)
  | none => .ok default

def u32Max : ℕ := 4294967295

def u64Max : ℕ := 18446744073709551615

def threeDaysSecs : ℕ := 3 * 24 * 60 * 60

section
variable (parsers : EnvironmentParsers) (env : Environment)

def parseBindAddr : Except AppError SocketAddr :=
  match optionalEnv env "SERVER_BIND" with
  | some bind => (parsers.socketAddress bind).mapError fun error =>
      .config ("invalid SERVER_BIND: " ++ error)
  | none =>
    let port := (optionalEnv env "PORT").getD "3000"
    (parsers.socketAddress ("0.0.0.0:" ++ port)).mapError fun error =>
      .config ("invalid PORT: " ++ error)

def parseDestinations : Except AppError (List DestinationConfig) :=
  match (optionalEnv env "DESTINATIONS_JSON").orElse fun _ => optionalEnv env "ROUTES_JSON" with
  | some raw => (parsers.destinations raw).mapError fun error =>
      .config ("invalid DESTINATIONS_JSON: " ++ error)
  | none => .error (.config "missing DESTINATIONS_JSON")

def Config.fromEnv : Except AppError Config := do
  let databaseUrl ← requiredEnv env "DATABASE_URL"
  let databaseMaxConnections ← parseEnv (parseUnsigned u32Max) env "DATABASE_MAX_CONNECTIONS" 5
  let serverBind ← parseBindAddr parsers env
  let resendWebhookSecret ← requiredEnv env "RESEND_WEBHOOK_SECRET"
  let resendSignatureToleranceSecs ←
    parseEnv (parseInteger (-9223372036854775808) i64Max) env "RESEND_SIGNATURE_TOLERANCE_SECS" 300
  let routerSigningSecret ← requiredEnv env "ROUTER_SIGNING_SECRET"
  let destinations ← parseDestinations parsers env
  let deliveryWorkerCount ← parseEnv (parseUnsigned u64Max) env "DELIVERY_WORKERS" 2
  let deliveryClaimLimit ←
    parseEnv (parseInteger (-9223372036854775808) i64Max) env "DELIVERY_CLAIM_LIMIT" 5
  let deliveryTimeoutSecs ← parseEnv (parseUnsigned u64Max) env "DELIVERY_TIMEOUT_SECS" 20
  let retryWindowSecs ← parseEnv (parseUnsigned u64Max) env "RETRY_WINDOW_SECS" threeDaysSecs
  let warnAfterAttempts ←
    parseEnv (parseInteger (-2147483648) i32Max) env "WARN_AFTER_ATTEMPTS" 10
  let staleDeliveryLockSecs ←
    parseEnv (parseInteger (-9223372036854775808) i64Max) env "STALE_DELIVERY_LOCK_SECS" (5 * 60)
  let workerDrainTimeoutSecs ← parseEnv (parseUnsigned u64Max) env "WORKER_DRAIN_TIMEOUT_SECS" 30
  let config : Config := {
    databaseUrl, databaseMaxConnections, serverBind, resendWebhookSecret
    resendSignatureToleranceSecs, routerSigningSecret, destinations, deliveryWorkerCount
    deliveryClaimLimit, deliveryTimeoutSecs, retryWindowSecs, warnAfterAttempts
    staleDeliveryLockSecs, workerDrainTimeoutSecs }
  config.validate parsers.parseUrl
  .ok config

end

variable {parsers : EnvironmentParsers} {env : Environment} {c : Config}

theorem requiredEnv_eq_ok {key value : String} :
    requiredEnv env key = .ok value ↔ env key = some value := by
  rw [requiredEnv]
  cases env key <;> simp

theorem accumulate_range {sign low high n m : ℤ} {digits : List Char} (hn : low ≤ n ∧ n ≤ high)
    (h : accumulate sign low high n digits = .ok m) : low ≤ m ∧ m ≤ high := by
  induction digits generalizing n with
  | nil =>
    cases h
    exact hn
  | cons c cs ih =>
    simp only [accumulate] at h
    split_ifs at h with hdigit hlow hhigh
    exact ih ⟨not_lt.mp hlow, not_lt.mp hhigh⟩ h

theorem parseInteger_range {low high m : ℤ} {s : String} (hlow : low ≤ 0) (hhigh : 0 ≤ high)
    (h : parseInteger low high s = .ok m) : low ≤ m ∧ m ≤ high := by
  rw [parseInteger] at h
  split at h
  case h_1 => cases h
  case h_2 => cases h
  case h_3 => cases h
  case h_4 => exact accumulate_range ⟨hlow, hhigh⟩ h
  case h_5 =>
    split at h
    case isTrue => exact accumulate_range ⟨hlow, hhigh⟩ h
    case isFalse => cases h
  case h_6 => exact accumulate_range ⟨hlow, hhigh⟩ h

theorem parseUnsigned_le {high n : ℕ} {s : String} (h : parseUnsigned high s = .ok n) :
    n ≤ high := by
  rw [parseUnsigned] at h
  cases hm : parseInteger 0 high s with
  | error e => simp [hm, Except.map] at h
  | ok m =>
    have hr := parseInteger_range (le_refl 0) (by omega) hm
    rw [hm, Except.map, Except.ok.injEq] at h
    omega

theorem parseEnv_ok {α : Type} {parse : String → Except String α} {key : String} {default a : α}
    (h : parseEnv parse env key default = .ok a) : a = default ∨ ∃ s, parse s = .ok a := by
  rw [parseEnv] at h
  cases hv : optionalEnv env key with
  | none =>
    rw [hv] at h
    cases h
    exact .inl rfl
  | some value =>
    rw [hv] at h
    cases hp : parse value with
    | error e => simp [hp, Except.mapError] at h
    | ok b =>
      simp only [hp, Except.mapError, Except.ok.injEq] at h
      exact .inr ⟨value, h ▸ hp⟩

/-- What the environment of an accepted configuration ensures. -/
structure Config.Loaded (parsers : EnvironmentParsers) (env : Environment) (c : Config) : Prop where
  resendWebhookSecret : env "RESEND_WEBHOOK_SECRET" = some c.resendWebhookSecret
  routerSigningSecret : env "ROUTER_SIGNING_SECRET" = some c.routerSigningSecret
  deliveryTimeoutSecs : c.deliveryTimeoutSecs ≤ u64Max
  retryWindowSecs : c.retryWindowSecs ≤ u64Max
  staleDeliveryLockSecs : -9223372036854775808 ≤ c.staleDeliveryLockSecs ∧
    c.staleDeliveryLockSecs ≤ i64Max
  valid : c.validate parsers.parseUrl = .ok ()

theorem Config.fromEnv_ok (h : Config.fromEnv parsers env = .ok c) :
    Config.Loaded parsers env c := by
  have hunsigned : ∀ {key : String} {default n : ℕ}, default ≤ u64Max →
      parseEnv (parseUnsigned u64Max) env key default = .ok n → n ≤ u64Max := by
    intro key default n hd hn
    rcases parseEnv_ok hn with rfl | ⟨s, hs⟩
    · exact hd
    · exact parseUnsigned_le hs
  simp only [Config.fromEnv] at h
  obtain ⟨_, -, h⟩ := bind_eq_ok.mp h
  obtain ⟨_, -, h⟩ := bind_eq_ok.mp h
  obtain ⟨_, -, h⟩ := bind_eq_ok.mp h
  obtain ⟨webhookSecret, hwebhook, h⟩ := bind_eq_ok.mp h
  obtain ⟨_, -, h⟩ := bind_eq_ok.mp h
  obtain ⟨routerSecret, hrouter, h⟩ := bind_eq_ok.mp h
  obtain ⟨_, -, h⟩ := bind_eq_ok.mp h
  obtain ⟨_, -, h⟩ := bind_eq_ok.mp h
  obtain ⟨_, -, h⟩ := bind_eq_ok.mp h
  obtain ⟨timeout, htimeout, h⟩ := bind_eq_ok.mp h
  obtain ⟨window, hwindow, h⟩ := bind_eq_ok.mp h
  obtain ⟨_, -, h⟩ := bind_eq_ok.mp h
  obtain ⟨stale, hstale, h⟩ := bind_eq_ok.mp h
  obtain ⟨_, -, h⟩ := bind_eq_ok.mp h
  obtain ⟨_, hv, h⟩ := bind_eq_ok.mp h
  cases h
  refine ⟨requiredEnv_eq_ok.mp hwebhook, requiredEnv_eq_ok.mp hrouter,
    hunsigned (by decide) htimeout, hunsigned (by decide) hwindow, ?_, hv⟩
  rcases parseEnv_ok hstale with rfl | ⟨s, hs⟩
  · change -9223372036854775808 ≤ (5 * 60 : ℤ) ∧ (5 * 60 : ℤ) ≤ i64Max
    decide
  · exact parseInteger_range (by decide) (by decide) hs

end ResendRouter.Program
