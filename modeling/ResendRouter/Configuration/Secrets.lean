import ResendRouter.Configuration.Validation
import ResendRouter.Program.Environment
import ResendRouter.Signatures.Verification

/-! # The inbound secret of an accepted configuration

No check at the start looks at the webhook secret. It is a key exactly when it
is the canonical spelling of one, and a secret key exactly when it does not fill
its HMAC block with zeros, as the empty key does.
-/

namespace ResendRouter.Configuration
open Foundation Program Signatures

/-- The 64 bytes through which a key enters the hash, in the construction of RFC 2104. -/
def hmacBlock (digest : Bytes → Bytes) (key : Bytes) : Bytes :=
  let key := if 64 < key.length then digest key else key
  key ++ List.replicate (64 - key.length) 0

/-- HMAC as RFC 2104 constructs it, over any digest with blocks of 64 bytes. -/
def hmac (digest : Bytes → Bytes) (key message : Bytes) : Bytes :=
  let block := hmacBlock digest key
  digest (block.map (· ^^^ 0x5C) ++ digest (block.map (· ^^^ 0x36) ++ message))

/-- No message has the same hash under the empty key and under a key with another block. -/
def CollisionFree (digest : Bytes → Bytes) : Prop :=
  ∀ key message, hmac digest key message = hmac digest [] message →
    hmacBlock digest key = hmacBlock digest []

theorem hmac_congr {digest : Bytes → Bytes} {key key' : Bytes}
    (h : hmacBlock digest key = hmacBlock digest key') : hmac digest key = hmac digest key' := by
  funext message
  rw [hmac, hmac, h]

section
variable {hmacSha256 : Bytes → Bytes → Bytes} {secret : String} {tolerance : ℤ}
  {headers : HeaderMap} {body : Bytes} {now : Time} {key : Bytes}

/-- Every token of the signature is made with the given key. -/
def SignedWith (hmacSha256 : Bytes → Bytes → Bytes) (key : Bytes) (headers : HeaderMap)
    (body : Bytes) : Prop :=
  ∃ svixId svixTimestamp svixSignature, FirstText headers "svix-id" svixId ∧
    FirstText headers "svix-timestamp" svixTimestamp ∧
    FirstText headers "svix-signature" svixSignature ∧
    ∀ token ∈ splitWhitespace svixSignature, ∃ text, token = "v1," ++ text ∧
      Decodes text (hmacSha256 key (signedContent svixId svixTimestamp body))

def svixSignature (hmacSha256 : Bytes → Bytes → Bytes) (key : Bytes)
    (svixId svixTimestamp : String) (body : Bytes) : String :=
  "v1," ++ Base64.standard.encode (hmacSha256 key (signedContent svixId svixTimestamp body))

def withSignature (headers : HeaderMap) (svixSignature : String) : HeaderMap :=
  ("svix-signature", asBytes svixSignature) :: headers

theorem svixSignature_visible {svixId svixTimestamp : String} :
    ∀ c ∈ (svixSignature hmacSha256 key svixId svixTimestamp body).toList,
      32 < c.toNat ∧ c.toNat < 127 := by
  intro c hc
  rw [svixSignature, String.toList_append, List.mem_append] at hc
  rcases hc with hc | hc
  · have hc : c = 'v' ∨ c = '1' ∨ c = ',' := by simpa using hc
    rcases hc with rfl | rfl | rfl <;> decide
  · exact Base64.Engine.encode_visible c hc

theorem firstText_withSignature {svixId svixTimestamp : String} :
    FirstText (withSignature headers (svixSignature hmacSha256 key svixId svixTimestamp body))
      "svix-signature" (svixSignature hmacSha256 key svixId svixTimestamp body) := by
  refine ⟨_, by simp [withSignature, HeaderMap.get], toStr_asBytes fun c hc => ?_⟩
  have := svixSignature_visible c hc
  omega

theorem firstText_of_ne {name text signature : String} (hn : name ≠ "svix-signature")
    (h : FirstText headers name text) : FirstText (withSignature headers signature) name text := by
  rcases h with ⟨value, hv, ht⟩
  refine ⟨value, ?_, ht⟩
  rw [← hv, HeaderMap.get, HeaderMap.get, withSignature, List.find?_cons_of_neg]
  simpa using Ne.symm hn

theorem splitWhitespace_svixSignature {svixId svixTimestamp : String} :
    splitWhitespace (svixSignature hmacSha256 key svixId svixTimestamp body) =
      [svixSignature hmacSha256 key svixId svixTimestamp body] := by
  apply splitWhitespace_of_solid
  · simp [svixSignature]
  · intro c hc
    have := svixSignature_visible c hc
    simp only [isWhitespace, Bool.or_eq_false_iff, Bool.and_eq_false_imp, decide_eq_true_eq,
      decide_eq_false_iff_not]
    omega

theorem signedWith_svixSignature {svixId svixTimestamp : String}
    (hid : FirstText headers "svix-id" svixId)
    (hts : FirstText headers "svix-timestamp" svixTimestamp) :
    SignedWith hmacSha256 key
      (withSignature headers (svixSignature hmacSha256 key svixId svixTimestamp body)) body := by
  refine ⟨svixId, svixTimestamp, _, firstText_of_ne (by decide) hid,
    firstText_of_ne (by decide) hts, firstText_withSignature, ?_⟩
  intro token htoken
  rw [splitWhitespace_svixSignature, List.mem_singleton] at htoken
  exact ⟨_, htoken, decodes_encode _ _⟩

/-- A request that is signed with the key of the secret is accepted. -/
theorem verify_svixSignature {svixId svixTimestamp : String} {n : ℤ}
    (hkey : decodeBase64 (keyText secret) = some key) (htol : 0 < tolerance)
    (hid : FirstText headers "svix-id" svixId)
    (hts : FirstText headers "svix-timestamp" svixTimestamp)
    (hn : parseI64 svixTimestamp = some n) (hage : |unixTimestamp now - n| ≤ tolerance) :
    verifyWebhookSignature hmacSha256 secret tolerance
      (withSignature headers (svixSignature hmacSha256 key svixId svixTimestamp body)) body now =
        .ok () := by
  have htime := verifyTimestamp_eq_ok.mpr ⟨htol, n, hn, hage⟩
  rw [verifyWebhookSignature_eq (firstText_of_ne (by decide) hid)
    (firstText_of_ne (by decide) hts) firstText_withSignature htime
    (decodeBase64_eq_some.mp hkey), if_pos]
  rw [splitWhitespace_svixSignature, List.any_cons, Bool.or_eq_true]
  exact .inl (candidateMatches_eq_true.mpr ⟨_, rfl, decodes_encode _ _⟩)

end

section
variable {digest : Bytes → Bytes} {parsers : EnvironmentParsers} {env : Environment} {c : Config}

/-- The inbound endpoint of a configuration is neither dead nor forgeable. -/
structure InboundSound (hmacSha256 : Bytes → Bytes → Bytes) (c : Config) : Prop where
  key : ∃ key, decodeBase64 (keyText c.resendWebhookSecret) = some key ∧ key ≠ []
  alive : ∀ headers body now svixId svixTimestamp n, FirstText headers "svix-id" svixId →
    FirstText headers "svix-timestamp" svixTimestamp → parseI64 svixTimestamp = some n →
    |unixTimestamp now - n| ≤ c.resendSignatureToleranceSecs → ∃ signature,
      verifyWebhookSignature hmacSha256 c.resendWebhookSecret c.resendSignatureToleranceSecs
        (withSignature headers signature) body now = .ok ()
  unforgeable : ∀ headers body now, SignedWith hmacSha256 [] headers body →
    verifyWebhookSignature hmacSha256 c.resendWebhookSecret c.resendSignatureToleranceSecs
      headers body now ≠ .ok ()

/-- Without its marker, the secret is the canonical spelling of a key that hashes unlike the empty
one. -/
def ProperSecret (digest : Bytes → Bytes) (secret : String) : Prop :=
  ∃ e ∈ Base64.engines, ∃ key, e.encode key = keyText secret ∧
    hmacBlock digest key ≠ hmacBlock digest []

theorem properSecret_iff {secret : String} : ProperSecret digest secret ↔
    ∃ key, decodeBase64 (keyText secret) = some key ∧
      hmacBlock digest key ≠ hmacBlock digest [] := by
  simp only [decodeBase64_eq_some, Decodes, Base64.Engine.decode_eq_some, ProperSecret]
  constructor
  · rintro ⟨e, he, key, henc, hne⟩
    exact ⟨key, ⟨e, he, henc⟩, hne⟩
  · rintro ⟨key, ⟨e, he, henc⟩, hne⟩
    exact ⟨e, he, key, henc, hne⟩

def epochHeaders : HeaderMap := [("svix-id", asBytes "m"), ("svix-timestamp", asBytes "0")]

/-- The inbound endpoint of an accepted environment is sound exactly when the secret is the
canonical spelling of a key that hashes unlike the empty one. -/
theorem inbound_endpoint_sound_iff (h : Config.fromEnv parsers env = .ok c)
    (hfree : CollisionFree digest) : InboundSound (hmac digest) c ↔
      ∃ secret, env "RESEND_WEBHOOK_SECRET" = some secret ∧ ProperSecret digest secret := by
  have hloaded := Config.fromEnv_ok h
  have htol := (validate_eq_ok.mp hloaded.valid).1.resendSignatureToleranceSecs
  simp only [hloaded.resendWebhookSecret, Option.some.injEq, exists_eq_left', properSecret_iff]
  constructor
  · intro hs
    obtain ⟨key, hkey, -⟩ := hs.key
    refine ⟨key, hkey, fun hblock => ?_⟩
    -- a request signed with the empty key would be accepted
    have hid : FirstText epochHeaders "svix-id" "m" := ⟨_, rfl, by decide⟩
    have hts : FirstText epochHeaders "svix-timestamp" "0" := ⟨_, rfl, by decide⟩
    have hsame : svixSignature (hmac digest) key "m" "0" [] =
        svixSignature (hmac digest) [] "m" "0" [] := by
      rw [svixSignature, svixSignature, hmac_congr hblock]
    have hage : |unixTimestamp 0 - 0| ≤ c.resendSignatureToleranceSecs := htol.le
    have hok := @verify_svixSignature (hmac digest) _ _ epochHeaders [] 0 key "m" "0" 0 hkey htol
      hid hts (by decide) hage
    rw [hsame] at hok
    exact hs.unforgeable _ _ _ (signedWith_svixSignature hid hts) hok
  · rintro ⟨key, hkey, hblock⟩
    refine ⟨⟨key, hkey, fun hnil => hblock (by rw [hnil])⟩, ?_, ?_⟩
    · intro headers body now svixId svixTimestamp n hid hts hn hage
      exact ⟨_, verify_svixSignature hkey htol hid hts hn hage⟩
    · rintro headers body now ⟨svixId, svixTimestamp, signature, hid, hts, hsig, htokens⟩ hok
      obtain ⟨signature', hsig', token, htoken, hright⟩ :=
        (verifyWebhookSignature_eq_ok.mp hok).token
      rw [hsig'.unique hsig] at htoken
      obtain ⟨text, heq, hempty⟩ := htokens token htoken
      rw [rightToken_iff hid hts (decodeBase64_eq_some.mp hkey), candidateMatches_eq_true] at hright
      obtain ⟨text', heq', hfull⟩ := hright
      have htext : text' = text := by
        rw [heq', String.append_right_inj] at heq
        exact heq
      rw [htext] at hfull
      exact hblock (hfree key _ (hfull.unique hempty))

end

theorem collisionFree_id : CollisionFree id := by
  intro key message h
  have hlen : (hmacBlock id []).length = 64 := by decide
  simp only [hmac, id] at h
  generalize hmacBlock id [] = zeros at *
  generalize hmacBlock id key = block at *
  have hblock : block.length = zeros.length := by
    have := congrArg List.length h
    simp only [List.length_append, List.length_map] at this
    omega
  have hinj : Function.Injective (fun b : UInt8 => b ^^^ 0x5C) := by
    intro a b hab
    have hback := congrArg (fun b : UInt8 => b ^^^ 0x5C) hab
    simpa only [UInt8.xor_assoc, UInt8.xor_self, UInt8.xor_zero] using hback
  exact List.map_injective_iff.mpr hinj (List.append_inj h (by simpa using hblock)).1

def sampleParsers : EnvironmentParsers where
  socketAddress := fun s =>
    if s = "0.0.0.0:3000" then .ok (.v4 0 3000) else .error "invalid socket address syntax"
  destinations := fun s =>
    if s = "[destinations]" then .ok [⟨"audit", "https://app.example.com/hook", [], [], [], true⟩]
    else .error "expected value at line 1 column 1"
  parseUrl := fun _ => .ok "https"

def sampleEnvironment (secret : String) : Environment := fun key =>
  if key = "DATABASE_URL" then some "postgres://localhost/router"
  else if key = "RESEND_WEBHOOK_SECRET" then some secret
  else if key = "ROUTER_SIGNING_SECRET" then some "0123456789abcdef0123456789abcdef"
  else if key = "DESTINATIONS_JSON" then some "[destinations]"
  else none

theorem exists_of_toBool {ε α : Type} {x : Except ε α} (h : x.toBool = true) :
    ∃ a, x = .ok a := by
  cases x with
  | error e => cases h
  | ok a => exact ⟨a, rfl⟩

theorem inbound_endpoint_sound_iff_sample :
    ∃ c, Config.fromEnv sampleParsers (sampleEnvironment "whsec_c2VjcmV0") = .ok c ∧
      InboundSound (hmac id) c := by
  obtain ⟨c, hc⟩ := exists_of_toBool
    (x := Config.fromEnv sampleParsers (sampleEnvironment "whsec_c2VjcmV0")) (by decide)
  refine ⟨c, hc, (inbound_endpoint_sound_iff hc collisionFree_id).mpr ⟨_, rfl, ?_⟩⟩
  exact ⟨Base64.standard, by simp [Base64.engines], asBytes "secret", by decide, by decide⟩

/-- A blank secret is accepted, and its key is the empty one. -/
theorem inbound_endpoint_unsound : ¬ ∀ (digest : Bytes → Bytes) (parsers : EnvironmentParsers)
    (env : Environment) (c : Config), CollisionFree digest →
      Config.fromEnv parsers env = .ok c → InboundSound (hmac digest) c := by
  intro hall
  obtain ⟨c, hc⟩ := exists_of_toBool
    (x := Config.fromEnv sampleParsers (sampleEnvironment "")) (by decide)
  obtain ⟨key, hkey, hne⟩ :=
    (hall id sampleParsers (sampleEnvironment "") c collisionFree_id hc).key
  have hsecret : some "" = some c.resendWebhookSecret := (Config.fromEnv_ok hc).resendWebhookSecret
  rw [← Option.some.inj hsecret, show decodeBase64 (keyText "") = some [] by decide] at hkey
  exact hne (Option.some.inj hkey).symm

end ResendRouter.Configuration
