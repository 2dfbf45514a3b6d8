import ResendRouter.Program.Environment
import ResendRouter.Configuration.Bounds
import ResendRouter.Signatures.Outbound
import ResendRouter.Foundation.Trim
import Mathlib.Tactic.Ring

/-! # Which configurations an environment has

Numbers are read digit by digit with a check for overflow after each. What is
accepted are the decimal texts of the numbers in range, so every configuration
that passes the validation can be written down, and reads back as itself.
-/

namespace ResendRouter.Configuration
open Foundation Program Signatures

variable {parsers : EnvironmentParsers} {env : Environment} {c : Config} {low high n : ℤ}
  {ds : List Char}

/-- The text is a decimal number; a minus is part of it only where there are negative numbers. -/
inductive Denotes (negatives : Prop) : List Char → ℤ → Prop
  | plain {ds : List Char} (hne : ds ≠ []) (hd : ∀ c ∈ ds, isDigit c = true) :
      Denotes negatives ds (digitsValue ds 0)
  | plus {ds : List Char} (hne : ds ≠ []) (hd : ∀ c ∈ ds, isDigit c = true) :
      Denotes negatives ('+' :: ds) (digitsValue ds 0)
  | minus {ds : List Char} (h : negatives) (hne : ds ≠ []) (hd : ∀ c ∈ ds, isDigit c = true) :
      Denotes negatives ('-' :: ds) (-digitsValue ds 0)

theorem digitsValue_eq (ds : List Char) (k : ℕ) : digitsValue ds k = Nat.ofDigitChars 10 ds k := by
  induction ds generalizing k with
  | nil => rfl
  | cons c cs ih => rw [digitsValue, Nat.ofDigitChars_cons, ih]

theorem le_digitsValue (ds : List Char) (k : ℕ) : k ≤ digitsValue ds k := by
  induction ds generalizing k with
  | nil => exact le_refl k
  | cons c cs ih =>
    have := ih (10 * k + (c.toNat - '0'.toNat))
    rw [digitsValue]
    omega

theorem Denotes.ne_nil {negatives : Prop} (h : Denotes negatives ds n) : ds ≠ [] := by
  cases h with
  | plain hne => exact hne
  | plus hne => exact List.cons_ne_nil _ _
  | minus _ hne => exact List.cons_ne_nil _ _

theorem denotes_toString {negatives : Prop} (h : 0 ≤ n ∨ negatives) :
    Denotes negatives (toString n).toList n := by
  have hvalue : ∀ m : ℕ, digitsValue (Nat.toDigits 10 m) 0 = m := by
    intro m
    rw [digitsValue_eq, Nat.ofDigitChars_ten_toDigits]
  have hne : ∀ m, Nat.toDigits 10 m ≠ [] := by
    intro m hm
    have hr := Nat.repr_ne_empty (n := m)
    rw [Nat.repr_eq_ofList_toDigits, hm] at hr
    exact hr rfl
  by_cases hn : 0 ≤ n
  · have hd : Denotes negatives (Nat.toDigits 10 n.toNat) _ := .plain (hne n.toNat)
      fun c hc => isDigit_of_mem_toDigits hc
    rwa [hvalue, Int.toNat_of_nonneg hn, ← toList_toString_of_nonneg hn] at hd
  · have hd := Denotes.minus (h.resolve_left hn) (hne (-n).toNat)
      fun c hc => isDigit_of_mem_toDigits hc
    rw [hvalue, Int.toNat_of_nonneg (by omega), neg_neg] at hd
    rwa [toList_toString_of_neg (by omega), toList_toString_of_nonneg (by omega)]

theorem digit_value {c : Char} (h : isDigit c = true) :
    (c.toNat : ℤ) - '0'.toNat = ((c.toNat - '0'.toNat : ℕ) : ℤ) := by
  have h0 : '0'.toNat ≤ c.toNat := by
    simp only [isDigit, Bool.and_eq_true, decide_eq_true_eq] at h
    exact h.1
  omega

/-- The checks after each digit accept exactly the digits of a number in range, since a number
that has left the range does not come back. -/
theorem accumulate_eq_ok {sign : ℤ} {k : ℕ} (hsign : sign = 1 ∨ sign = -1)
    (hk : low ≤ sign * k ∧ sign * k ≤ high) :
    accumulate sign low high (sign * k) ds = .ok n ↔
      (∀ c ∈ ds, isDigit c = true) ∧ n = sign * digitsValue ds k ∧ low ≤ n ∧ n ≤ high := by
  induction ds generalizing k with
  | nil =>
    simp only [accumulate, Except.ok.injEq, digitsValue, List.not_mem_nil, false_imp_iff,
      implies_true, true_and]
    constructor
    · rintro rfl
      exact ⟨rfl, hk⟩
    · exact fun h => h.1.symm
  | cons c cs ih =>
    rw [accumulate, List.forall_mem_cons]
    by_cases hc : isDigit c = true
    · have hstep : sign * k * 10 + sign * ((c.toNat : ℤ) - '0'.toNat) =
          sign * ((10 * k + (c.toNat - '0'.toNat) : ℕ) : ℤ) := by
        rw [digit_value hc]
        push_cast
        ring
      have hle := le_digitsValue cs (10 * k + (c.toNat - '0'.toNat))
      simp only [hc, if_true, hstep, digitsValue, true_and]
      split_ifs with hsmall hlarge
      · simp only [false_iff, not_and]
        rintro - rfl hrange
        rcases hsign with rfl | rfl <;> omega
      · simp only [false_iff, not_and]
        rintro - rfl -
        rcases hsign with rfl | rfl <;> omega
      · exact ih ⟨not_lt.mp hsmall, not_lt.mp hlarge⟩
    · simp [hc]

theorem accumulate_plain (hlow : low ≤ 0) (hhigh : 0 ≤ high) :
    accumulate 1 low high 0 ds = .ok n ↔
      (∀ c ∈ ds, isDigit c = true) ∧ n = digitsValue ds 0 ∧ low ≤ n ∧ n ≤ high := by
  have h := @accumulate_eq_ok low high n ds 1 0 (.inl rfl) (by simpa using ⟨hlow, hhigh⟩)
  simpa using h

theorem accumulate_minus (hlow : low ≤ 0) (hhigh : 0 ≤ high) :
    accumulate (-1) low high 0 ds = .ok n ↔
      (∀ c ∈ ds, isDigit c = true) ∧ n = -digitsValue ds 0 ∧ low ≤ n ∧ n ≤ high := by
  have h := @accumulate_eq_ok low high n ds (-1) 0 (.inr rfl) (by simpa using ⟨hlow, hhigh⟩)
  simpa using h

/-- The numbers that are read from a text are those it denotes, within the range. -/
theorem parseInteger_eq_ok {s : String} (hlow : low ≤ 0) (hhigh : 0 ≤ high) :
    parseInteger low high s = .ok n ↔ Denotes (low < 0) s.toList n ∧ low ≤ n ∧ n ≤ high := by
  have hplus : isDigit '+' = false := by decide
  have hminus : isDigit '-' = false := by decide
  rw [parseInteger]
  split
  case h_1 hs =>
    rw [hs]
    simp only [reduceCtorEq, false_iff, not_and]
    exact fun h => absurd rfl h.ne_nil
  case h_2 hs =>
    rw [hs]
    simp only [reduceCtorEq, false_iff, not_and]
    rintro (⟨-, hd⟩ | ⟨hne, -⟩)
    · simp [hplus] at hd
    · exact absurd rfl hne
  case h_3 hs =>
    rw [hs]
    simp only [reduceCtorEq, false_iff, not_and]
    rintro (⟨-, hd⟩ | - | ⟨-, hne, -⟩)
    · simp [hminus] at hd
    · exact absurd rfl hne
  case h_4 digits hne hs =>
    rw [hs, accumulate_plain hlow hhigh]
    constructor
    · rintro ⟨hd, rfl, hr⟩
      exact ⟨.plus hne hd, hr⟩
    · rintro ⟨⟨-, hd⟩ | ⟨-, hd⟩, hr⟩
      · simp [hplus] at hd
      · exact ⟨hd, rfl, hr⟩
  case h_5 digits hne hs =>
    rw [hs]
    split_ifs with hneg
    · rw [accumulate_minus hlow hhigh]
      constructor
      · rintro ⟨hd, rfl, hr⟩
        exact ⟨.minus hneg hne hd, hr⟩
      · rintro ⟨⟨-, hd⟩ | - | ⟨-, -, hd⟩, hr⟩
        · simp [hminus] at hd
        · exact ⟨hd, rfl, hr⟩
    · simp only [false_iff, not_and]
      rintro (⟨-, hd⟩ | - | ⟨hneg', -⟩)
      · simp [hminus] at hd
      · exact absurd hneg' hneg
  case h_6 hnil _ _ hsign hsign' =>
    rw [accumulate_plain hlow hhigh]
    constructor
    · rintro ⟨hd, rfl, hr⟩
      exact ⟨.plain hnil hd, hr⟩
    · generalize s.toList = text at *
      rintro ⟨⟨-, hd⟩ | - | -, hr⟩
      · exact ⟨hd, rfl, hr⟩
      · exact absurd rfl (hsign _)
      · exact absurd rfl (hsign' _)

theorem parseUnsigned_eq_ok {high n : ℕ} {s : String} :
    parseUnsigned high s = .ok n ↔
      Denotes ((0 : ℤ) < 0) s.toList n ∧ 0 ≤ (n : ℤ) ∧ (n : ℤ) ≤ high := by
  rw [← parseInteger_eq_ok (le_refl 0) (Int.natCast_nonneg high), parseUnsigned]
  cases hm : parseInteger 0 high s with
  | error e => simp [Except.map]
  | ok m =>
    have hm0 := (parseInteger_range (le_refl 0) (Int.natCast_nonneg high) hm).1
    simp only [Except.map, Except.ok.injEq]
    omega

theorem mapError_eq_ok {ε δ α : Type} {x : Except ε α} {f : ε → δ} {a : α} :
    x.mapError f = .ok a ↔ x = .ok a := by
  cases x <;> simp [Except.mapError]

theorem parseEnv_eq_ok {α : Type} {parse : String → Except String α} {key : String}
    {default a : α} : parseEnv parse env key default = .ok a ↔
      (optionalEnv env key = none ∧ a = default) ∨
        ∃ s, optionalEnv env key = some s ∧ parse s = .ok a := by
  rw [parseEnv]
  cases optionalEnv env key with
  | none => simp [eq_comm]
  | some s => simpa using mapError_eq_ok

/-- The variable is a number of the range, or it is not set and the value is the default. -/
def Reads (env : Environment) (low high : ℤ) (key : String) (default value : ℤ) : Prop :=
  (optionalEnv env key = none ∧ value = default) ∨ ∃ s, optionalEnv env key = some s ∧
    Denotes (low < 0) s.toList value ∧ low ≤ value ∧ value ≤ high

theorem parseEnv_integer {key : String} {default : ℤ} (hlow : low ≤ 0) (hhigh : 0 ≤ high) :
    parseEnv (parseInteger low high) env key default = .ok n ↔
      Reads env low high key default n := by
  simp only [parseEnv_eq_ok, Reads, parseInteger_eq_ok hlow hhigh]

theorem parseEnv_unsigned {high n default : ℕ} {key : String} :
    parseEnv (parseUnsigned high) env key default = .ok n ↔ Reads env 0 high key default n := by
  simp only [parseEnv_eq_ok, Reads, parseUnsigned_eq_ok, Int.natCast_inj]

/-- The environment says what the configuration says. -/
structure Describes (parsers : EnvironmentParsers) (env : Environment) (c : Config) : Prop where
  databaseUrl : env "DATABASE_URL" = some c.databaseUrl
  databaseMaxConnections :
    Reads env 0 u32Max "DATABASE_MAX_CONNECTIONS" 5 c.databaseMaxConnections
  serverBind : parsers.socketAddress ((optionalEnv env "SERVER_BIND").getD
    ("0.0.0.0:" ++ (optionalEnv env "PORT").getD "3000")) = .ok c.serverBind
  resendWebhookSecret : env "RESEND_WEBHOOK_SECRET" = some c.resendWebhookSecret
  resendSignatureToleranceSecs : Reads env (-9223372036854775808) i64Max
    "RESEND_SIGNATURE_TOLERANCE_SECS" 300 c.resendSignatureToleranceSecs
  routerSigningSecret : env "ROUTER_SIGNING_SECRET" = some c.routerSigningSecret
  destinations : ∃ text, (optionalEnv env "DESTINATIONS_JSON").or (optionalEnv env "ROUTES_JSON") =
    some text ∧ parsers.destinations text = .ok c.destinations
  deliveryWorkerCount : Reads env 0 u64Max "DELIVERY_WORKERS" 2 c.deliveryWorkerCount
  deliveryClaimLimit : Reads env (-9223372036854775808) i64Max "DELIVERY_CLAIM_LIMIT" 5
    c.deliveryClaimLimit
  deliveryTimeoutSecs : Reads env 0 u64Max "DELIVERY_TIMEOUT_SECS" 20 c.deliveryTimeoutSecs
  retryWindowSecs : Reads env 0 u64Max "RETRY_WINDOW_SECS" threeDaysSecs c.retryWindowSecs
  warnAfterAttempts : Reads env (-2147483648) i32Max "WARN_AFTER_ATTEMPTS" 10 c.warnAfterAttempts
  staleDeliveryLockSecs : Reads env (-9223372036854775808) i64Max "STALE_DELIVERY_LOCK_SECS"
    (5 * 60) c.staleDeliveryLockSecs
  workerDrainTimeoutSecs : Reads env 0 u64Max "WORKER_DRAIN_TIMEOUT_SECS" 30
    c.workerDrainTimeoutSecs

theorem parseBindAddr_eq_ok {address : SocketAddr} : parseBindAddr parsers env = .ok address ↔
    parsers.socketAddress ((optionalEnv env "SERVER_BIND").getD
      ("0.0.0.0:" ++ (optionalEnv env "PORT").getD "3000")) = .ok address := by
  rw [parseBindAddr]
  cases optionalEnv env "SERVER_BIND" <;> exact mapError_eq_ok

theorem parseDestinations_eq_ok {ds : List DestinationConfig} :
    parseDestinations parsers env = .ok ds ↔
      ∃ text, (optionalEnv env "DESTINATIONS_JSON").or (optionalEnv env "ROUTES_JSON") =
        some text ∧ parsers.destinations text = .ok ds := by
  rw [parseDestinations, Option.orElse_eq_or]
  cases (optionalEnv env "DESTINATIONS_JSON").or (optionalEnv env "ROUTES_JSON") with
  | none => simp
  | some text => simpa using mapError_eq_ok

/-- A configuration is loaded exactly when the environment describes it and it is valid. -/
theorem fromEnv_eq_ok : Config.fromEnv parsers env = .ok c ↔
    Describes parsers env c ∧ c.validate parsers.parseUrl = .ok () := by
  simp only [Config.fromEnv, bind_eq_ok, requiredEnv_eq_ok, parseEnv_unsigned,
    parseBindAddr_eq_ok, parseDestinations_eq_ok]
  constructor
  · rintro ⟨url, hurl, connections, hconnections, address, hbind, webhook, hwebhook, tolerance,
      htolerance, router, hrouter, ds, hds, workers, hworkers, limit, hlimit, timeout, htimeout,
      window, hwindow, warn, hwarn, stale, hstale, drain, hdrain, ⟨⟩, hvalid, hc⟩
    cases hc
    exact ⟨⟨hurl, hconnections, hbind, hwebhook,
      (parseEnv_integer (by decide) (by decide)).mp htolerance, hrouter, hds, hworkers,
      (parseEnv_integer (by decide) (by decide)).mp hlimit, htimeout, hwindow,
      (parseEnv_integer (by decide) (by decide)).mp hwarn,
      (parseEnv_integer (by decide) (by decide)).mp hstale, hdrain⟩, hvalid⟩
  · rintro ⟨h, hvalid⟩
    exact ⟨_, h.databaseUrl, _, h.databaseMaxConnections, _, h.serverBind, _,
      h.resendWebhookSecret, _,
      (parseEnv_integer (by decide) (by decide)).mpr h.resendSignatureToleranceSecs, _,
      h.routerSigningSecret, _, h.destinations, _, h.deliveryWorkerCount, _,
      (parseEnv_integer (by decide) (by decide)).mpr h.deliveryClaimLimit, _,
      h.deliveryTimeoutSecs, _, h.retryWindowSecs, _,
      (parseEnv_integer (by decide) (by decide)).mpr h.warnAfterAttempts, _,
      (parseEnv_integer (by decide) (by decide)).mpr h.staleDeliveryLockSecs, _,
      h.workerDrainTimeoutSecs, (), hvalid, rfl⟩

/-- The numbers of the configuration are values of their types. -/
structure InRange (c : Config) : Prop where
  databaseMaxConnections : c.databaseMaxConnections ≤ u32Max
  resendSignatureToleranceSecs : c.resendSignatureToleranceSecs ≤ i64Max
  deliveryWorkerCount : c.deliveryWorkerCount ≤ u64Max
  deliveryTimeoutSecs : c.deliveryTimeoutSecs ≤ u64Max
  retryWindowSecs : c.retryWindowSecs ≤ u64Max
  warnAfterAttempts : c.warnAfterAttempts ≤ i32Max
  staleDeliveryLockSecs : c.staleDeliveryLockSecs ≤ i64Max
  workerDrainTimeoutSecs : c.workerDrainTimeoutSecs ≤ u64Max

def environmentEntries (bind destinations : String) (c : Config) : List (String × String) := [
  ("DATABASE_URL", c.databaseUrl),
  ("DATABASE_MAX_CONNECTIONS", toString (c.databaseMaxConnections : ℤ)),
  ("SERVER_BIND", bind),
  ("RESEND_WEBHOOK_SECRET", c.resendWebhookSecret),
  ("RESEND_SIGNATURE_TOLERANCE_SECS", toString c.resendSignatureToleranceSecs),
  ("ROUTER_SIGNING_SECRET", c.routerSigningSecret),
  ("DESTINATIONS_JSON", destinations),
  ("DELIVERY_WORKERS", toString (c.deliveryWorkerCount : ℤ)),
  ("DELIVERY_CLAIM_LIMIT", toString c.deliveryClaimLimit),
  ("DELIVERY_TIMEOUT_SECS", toString (c.deliveryTimeoutSecs : ℤ)),
  ("RETRY_WINDOW_SECS", toString (c.retryWindowSecs : ℤ)),
  ("WARN_AFTER_ATTEMPTS", toString c.warnAfterAttempts),
  ("STALE_DELIVERY_LOCK_SECS", toString c.staleDeliveryLockSecs),
  ("WORKER_DRAIN_TIMEOUT_SECS", toString (c.workerDrainTimeoutSecs : ℤ))]

def environmentOf (bind destinations : String) (c : Config) : Environment := fun key =>
  ((environmentEntries bind destinations c).find? (·.1 = key)).map (·.2)

theorem isBlank_trim {s : String} :
    isBlank (trim s) = true ↔ ∀ c ∈ s.toList, isWhitespace c = true := by
  rw [Trim.isBlank_eq_true, Trim.toList_trim]
  constructor
  · intro h
    obtain ⟨left, right, hs, hleft, hright⟩ := Trim.both_spec isWhitespace s.toList
    rw [h, List.nil_append] at hs
    rw [hs]
    intro c hc
    exact (List.mem_append.mp hc).elim (hleft c) (hright c)
  · intro h
    rw [Trim.both, List.dropWhile_eq_nil_iff.mpr h, List.rdropWhile_nil]

theorem optionalEnv_filled {key value : String} (h : env key = some value)
    (hv : isBlank (trim value) = false) : optionalEnv env key = some value := by
  rw [optionalEnv, h, Option.filter_some, hv]
  rfl

theorem not_isWhitespace_of_isDigit {c : Char} (h : isDigit c = true) :
    isWhitespace c = false := by
  have hrange : 48 ≤ c.toNat ∧ c.toNat ≤ 57 := by
    simp only [isDigit, Bool.and_eq_true, decide_eq_true_eq] at h
    exact h
  simp only [isWhitespace, Bool.or_eq_false_iff, Bool.and_eq_false_iff, decide_eq_false_iff_not]
  omega

theorem Denotes.filled {negatives : Prop} {s : String} (h : Denotes negatives s.toList n) :
    isBlank (trim s) = false := by
  rw [Bool.eq_false_iff, ne_eq, isBlank_trim]
  intro hall
  have hdigit : ∃ c ∈ s.toList, isDigit c = true := by
    generalize s.toList = text at *
    cases h with
    | plain hne hd =>
      obtain ⟨c, hc⟩ := List.exists_mem_of_ne_nil _ hne
      exact ⟨c, hc, hd c hc⟩
    | plus hne hd =>
      obtain ⟨c, hc⟩ := List.exists_mem_of_ne_nil _ hne
      exact ⟨c, List.mem_cons_of_mem _ hc, hd c hc⟩
    | minus _ hne hd =>
      obtain ⟨c, hc⟩ := List.exists_mem_of_ne_nil _ hne
      exact ⟨c, List.mem_cons_of_mem _ hc, hd c hc⟩
  obtain ⟨c, hc, hd⟩ := hdigit
  have hspace := hall c hc
  rw [not_isWhitespace_of_isDigit hd] at hspace
  cases hspace

theorem reads_written {key : String} {default : ℤ} (h : env key = some (toString n))
    (hlow : low ≤ n) (hhigh : n ≤ high) : Reads env low high key default n := by
  have hd : Denotes (low < 0) (toString n).toList n := denotes_toString (by omega)
  exact .inr ⟨_, optionalEnv_filled h hd.filled, hd, hlow, hhigh⟩

/-- What is written down describes the configuration. -/
theorem describes_environmentOf {bind text : String} (hr : InRange c)
    (hv : c.validate parsers.parseUrl = .ok ()) (hbind : isBlank (trim bind) = false)
    (haddr : parsers.socketAddress bind = .ok c.serverBind) (htext : isBlank (trim text) = false)
    (hds : parsers.destinations text = .ok c.destinations) :
    Describes parsers (environmentOf bind text c) c := by
  obtain ⟨hearly, -, -⟩ := validate_eq_ok.mp hv
  have hlimit := hearly.deliveryClaimLimit
  have htolerance := hearly.resendSignatureToleranceSecs
  have hwarn := hearly.warnAfterAttempts
  have hstale := hearly.staleDeliveryLockSecs
  have hmax : i64Max = 9223372036854775807 := rfl
  constructor
  case databaseUrl => rfl
  case databaseMaxConnections =>
    exact reads_written rfl (by omega) (by exact_mod_cast hr.databaseMaxConnections)
  case serverBind =>
    have hset : environmentOf bind text c "SERVER_BIND" = some bind := rfl
    rw [optionalEnv_filled hset hbind, Option.getD_some]
    exact haddr
  case resendWebhookSecret => rfl
  case resendSignatureToleranceSecs =>
    exact reads_written rfl (by omega) hr.resendSignatureToleranceSecs
  case routerSigningSecret => rfl
  case destinations =>
    have hset : environmentOf bind text c "DESTINATIONS_JSON" = some text := rfl
    rw [optionalEnv_filled hset htext, Option.some_or]
    exact ⟨text, rfl, hds⟩
  case deliveryWorkerCount =>
    exact reads_written rfl (by omega) (by exact_mod_cast hr.deliveryWorkerCount)
  case deliveryClaimLimit => exact reads_written rfl (by omega) (by omega)
  case deliveryTimeoutSecs =>
    exact reads_written rfl (by omega) (by exact_mod_cast hr.deliveryTimeoutSecs)
  case retryWindowSecs =>
    exact reads_written rfl (by omega) (by exact_mod_cast hr.retryWindowSecs)
  case warnAfterAttempts => exact reads_written rfl (by omega) hr.warnAfterAttempts
  case staleDeliveryLockSecs => exact reads_written rfl (by omega) hr.staleDeliveryLockSecs
  case workerDrainTimeoutSecs =>
    exact reads_written rfl (by omega) (by exact_mod_cast hr.workerDrainTimeoutSecs)

theorem filled_of_optionalEnv {key value : String} (h : optionalEnv env key = some value) :
    isBlank (trim value) = false := by
  obtain ⟨-, hv⟩ := Option.filter_eq_some_iff.mp h
  simpa using hv

theorem Reads.range {key : String} {default : ℤ} (h : Reads env low high key default n)
    (hd : low ≤ default ∧ default ≤ high) : low ≤ n ∧ n ≤ high := by
  rcases h with ⟨-, rfl⟩ | ⟨s, -, -, hr⟩
  · exact hd
  · exact hr

theorem Reads.natCast_le {high default m : ℕ} {key : String} (h : Reads env 0 high key default m)
    (hd : default ≤ high) : m ≤ high := by
  have := (h.range ⟨Int.natCast_nonneg default, by omega⟩).2
  omega

theorem Describes.inRange (h : Describes parsers env c) : InRange c where
  databaseMaxConnections := h.databaseMaxConnections.natCast_le (by decide)
  resendSignatureToleranceSecs := (h.resendSignatureToleranceSecs.range (by decide)).2
  deliveryWorkerCount := h.deliveryWorkerCount.natCast_le (by decide)
  deliveryTimeoutSecs := h.deliveryTimeoutSecs.natCast_le (by decide)
  retryWindowSecs := h.retryWindowSecs.natCast_le (by decide)
  warnAfterAttempts := (h.warnAfterAttempts.range (by decide)).2
  staleDeliveryLockSecs := (h.staleDeliveryLockSecs.range (by decide)).2
  workerDrainTimeoutSecs := h.workerDrainTimeoutSecs.natCast_le (by decide)

theorem Describes.exists_bind (h : Describes parsers env c) :
    ∃ bind, isBlank (trim bind) = false ∧ parsers.socketAddress bind = .ok c.serverBind := by
  refine ⟨_, ?_, h.serverBind⟩
  cases hb : optionalEnv env "SERVER_BIND" with
  | some bind => exact filled_of_optionalEnv hb
  | none =>
    rw [Option.getD_none, Bool.eq_false_iff, ne_eq, isBlank_trim]
    intro hall
    have hzero : '0' ∈ ("0.0.0.0:" ++ (optionalEnv env "PORT").getD "3000").toList := by
      rw [String.toList_append]
      exact List.mem_append_left _ (by decide)
    exact absurd (hall '0' hzero) (by decide)

theorem Describes.exists_text (h : Describes parsers env c) :
    ∃ text, isBlank (trim text) = false ∧ parsers.destinations text = .ok c.destinations := by
  obtain ⟨text, hset, hds⟩ := h.destinations
  refine ⟨text, ?_, hds⟩
  rcases Option.or_eq_some_iff.mp hset with hset | ⟨-, hset⟩ <;> exact filled_of_optionalEnv hset

/-- An environment loads exactly the valid configurations that it describes, with every number that
a decimal text of its type's range denotes; a configuration is loaded from some environment exactly
when it is valid, its numbers fit their types, and there are texts for its destinations and its
address; and then the environment that writes it down loads it. -/
theorem configurations_load_exactly (parsers : EnvironmentParsers) :
    (∀ env c, Config.fromEnv parsers env = .ok c ↔
      Describes parsers env c ∧ c.validate parsers.parseUrl = .ok ()) ∧
    (∀ c, (∃ env, Config.fromEnv parsers env = .ok c) ↔
      c.validate parsers.parseUrl = .ok () ∧ InRange c ∧
      (∃ text, isBlank (trim text) = false ∧ parsers.destinations text = .ok c.destinations) ∧
      ∃ bind, isBlank (trim bind) = false ∧ parsers.socketAddress bind = .ok c.serverBind) ∧
    ∀ c bind text, c.validate parsers.parseUrl = .ok () → InRange c →
      isBlank (trim bind) = false → parsers.socketAddress bind = .ok c.serverBind →
      isBlank (trim text) = false → parsers.destinations text = .ok c.destinations →
        Config.fromEnv parsers (environmentOf bind text c) = .ok c := by
  have hwrite : ∀ c bind text, c.validate parsers.parseUrl = .ok () → InRange c →
      isBlank (trim bind) = false → parsers.socketAddress bind = .ok c.serverBind →
      isBlank (trim text) = false → parsers.destinations text = .ok c.destinations →
        Config.fromEnv parsers (environmentOf bind text c) = .ok c :=
    fun _ _ _ hv hr hbind haddr htext hds =>
      fromEnv_eq_ok.mpr ⟨describes_environmentOf hr hv hbind haddr htext hds, hv⟩
  refine ⟨fun env c => fromEnv_eq_ok, fun c => ⟨?_, ?_⟩, hwrite⟩
  · rintro ⟨env, henv⟩
    obtain ⟨h, hv⟩ := fromEnv_eq_ok.mp henv
    exact ⟨hv, h.inRange, h.exists_text, h.exists_bind⟩
  · rintro ⟨hv, hr, ⟨text, htext, hds⟩, bind, hbind, haddr⟩
    exact ⟨_, hwrite c bind text hv hr hbind haddr htext hds⟩

def auditText : String :=
  "[\x7b\"name\":\"audit\",\"url\":\"https://app.example.com/hook\",\"catch_all\":true\x7d]"

def auditParsers : EnvironmentParsers where
  socketAddress := fun s =>
    if s = "0.0.0.0:3000" then .ok (.v4 0 3000) else .error "invalid socket address syntax"
  destinations := fun s =>
    if s = auditText then .ok defaultConfig.destinations
    else .error "expected value at line 1 column 1"
  parseUrl := fun _ => .ok "https"

theorem configurations_load_exactly_default : Config.fromEnv auditParsers
    (environmentOf "0.0.0.0:3000" auditText defaultConfig) = .ok defaultConfig :=
  (configurations_load_exactly auditParsers).2.2 _ _ _ (by decide)
    ⟨by decide, by decide, by decide, by decide, by decide, by decide, by decide, by decide⟩
    (by decide) (by decide) (by decide) (by decide)

end ResendRouter.Configuration
