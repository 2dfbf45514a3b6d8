import ResendRouter.Database.Headers

/-! # When an inbound signature is accepted

The early exits and the scan over the tokens, as one condition on the request.
Only the right tokens matter to the scan, so their order, their number and the
tokens around them do not.
-/

namespace ResendRouter.Signatures
open Foundation Program

/-- The first value of a header, as a text of visible ASCII characters. -/
def FirstText (headers : HeaderMap) (name text : String) : Prop :=
  ∃ value, headers.get name = some value ∧ toStr value = some text

theorem header_eq_ok {headers : HeaderMap} {name text : String} :
    header headers name = .ok text ↔ FirstText headers name text := by
  rw [header, FirstText]
  cases headers.get name with
  | none => simp
  | some value => cases ht : toStr value <;> simp [ht]

theorem headerToString_eq_some {headers : HeaderMap} {name text : String} :
    Database.headerToString headers name = some text ↔ FirstText headers name text := by
  rw [Database.headerToString, Option.bind_eq_some_iff, FirstText]

theorem verifyTimestamp_eq_ok {timestamp : String} {tolerance : ℤ} {now : Time} :
    verifyTimestamp timestamp tolerance now = .ok () ↔ 0 < tolerance ∧
      ∃ n, parseI64 timestamp = some n ∧ |unixTimestamp now - n| ≤ tolerance := by
  rw [verifyTimestamp]
  split_ifs with htol
  · simp [not_lt.mpr htol]
  · rw [not_le] at htol
    cases hp : parseI64 timestamp with
    | none => simp
    | some n =>
      by_cases hage : |unixTimestamp now - n| > tolerance
      · simp [hage]
      · simp [htol, not_lt.mp hage]

/-- One of the four spellings denotes the bytes. -/
def Decodes (text : String) (bytes : Bytes) : Prop :=
  ∃ e ∈ Base64.engines, e.decode text = some bytes

theorem decodeBase64_eq (text : String) :
    decodeBase64 text = Base64.engines.findSome? (·.decode text) := by
  simp only [decodeBase64, Base64.engines, List.findSome?_cons, List.findSome?_nil]
  cases Base64.standard.decode text <;> cases Base64.standardNoPad.decode text <;>
    cases Base64.urlSafe.decode text <;> cases Base64.urlSafeNoPad.decode text <;> rfl

theorem decodeBase64_eq_some {text : String} {bytes : Bytes} :
    decodeBase64 text = some bytes ↔ Decodes text bytes := by
  rw [decodeBase64_eq, Base64.findSome?_decode_eq_some, Decodes]

theorem Decodes.unique {text : String} {bytes bytes' : Bytes} (h : Decodes text bytes)
    (h' : Decodes text bytes') : bytes = bytes' := by
  rcases h with ⟨e, -, he⟩
  rcases h' with ⟨e', -, he'⟩
  exact Base64.decode_agree he he'

theorem decodes_encode (e : Base64.Engine) (bytes : Bytes) : Decodes (e.encode bytes) bytes :=
  ⟨e, Base64.mem_engines e, Base64.Engine.decode_eq_some.mpr rfl⟩

/-- Whatever was written with one of the four engines is read back, although others are tried
first: engines that accept one text agree on its bytes, so no order of the chain reads another
value. -/
theorem base64_chain :
    (∀ e ∈ Base64.engines, ∀ bytes, decodeBase64 (e.encode bytes) = some bytes) ∧
    (∀ e ∈ Base64.engines, ∀ e' ∈ Base64.engines, ∀ text bytes bytes',
      e.decode text = some bytes → e'.decode text = some bytes' → bytes = bytes') ∧
    ∀ chain : List Base64.Engine, chain.Perm Base64.engines → ∀ text,
      chain.findSome? (·.decode text) = decodeBase64 text := by
  refine ⟨fun e _ bytes => decodeBase64_eq_some.mpr (decodes_encode e bytes), ?_, ?_⟩
  · intro e _ e' _ text bytes bytes' h h'
    exact Base64.decode_agree h h'
  · intro chain hperm text
    rw [decodeBase64_eq, Base64.findSome?_decode_perm hperm]

theorem base64_chain_url_safe :
    decodeBase64 "-_8" = some [251, 255] ∧ Base64.standard.decode "-_8" = none ∧
      Base64.engines.reverse.findSome? (·.decode "-_8") = some [251, 255] ∧
      ∃ bytes bytes', Base64.standard.decode "c2Vj" = some bytes ∧
        Base64.urlSafeNoPad.decode "c2Vj" = some bytes' ∧ bytes = bytes' := by
  have henc : Base64.urlSafeNoPad.encode [251, 255] = "-_8" := by decide
  have hread := base64_chain.1 Base64.urlSafeNoPad (Base64.mem_engines _) [251, 255]
  rw [henc] at hread
  have hstandard : Base64.standard.decode "c2Vj" = some (asBytes "sec") := by decide
  have hurlSafe : Base64.urlSafeNoPad.decode "c2Vj" = some (asBytes "sec") := by decide
  refine ⟨hread, by decide, ?_, asBytes "sec", asBytes "sec", hstandard, hurlSafe, ?_⟩
  · rw [base64_chain.2.2 _ (List.reverse_perm _), hread]
  · exact base64_chain.2.1 Base64.standard (Base64.mem_engines _) Base64.urlSafeNoPad
      (Base64.mem_engines _) "c2Vj" (asBytes "sec") (asBytes "sec") hstandard hurlSafe

theorem stripPrefix_eq_some {pre s rest : String} :
    stripPrefix pre s = some rest ↔ s = pre ++ rest := by
  rw [stripPrefix]
  constructor
  · intro h
    split_ifs at h with hp
    cases h
    obtain ⟨tail, htail⟩ := List.isPrefixOf_iff_prefix.mp hp
    apply String.toList_inj.mp
    rw [String.toList_append, String.toList_ofList, ← htail, List.drop_left]
  · rintro rfl
    rw [String.toList_append, if_pos (List.isPrefixOf_iff_prefix.mpr (List.prefix_append _ _)),
      List.drop_left, String.ofList_toList]

def keyText (secret : String) : String := (stripPrefix "whsec_" secret).getD secret

theorem keyText_eq (secret : String) : secret = "whsec_" ++ keyText secret ∨
    (∀ rest, secret ≠ "whsec_" ++ rest) ∧ keyText secret = secret := by
  cases h : stripPrefix "whsec_" secret with
  | some rest => exact .inl (by rw [keyText, h, Option.getD_some, ← stripPrefix_eq_some, h])
  | none =>
    refine .inr ⟨fun rest heq => ?_, by rw [keyText, h, Option.getD_none]⟩
    rw [stripPrefix_eq_some.mpr heq] at h
    cases h

section
variable (hmacSha256 : Bytes → Bytes → Bytes) (secret : String) (headers : HeaderMap) (body : Bytes)

/-- The token has the version `v1` and denotes the keyed hash of the signed content. -/
def RightToken (token : String) : Prop :=
  ∃ svixId svixTimestamp key text, FirstText headers "svix-id" svixId ∧
    FirstText headers "svix-timestamp" svixTimestamp ∧ Decodes (keyText secret) key ∧
    token = "v1," ++ text ∧ Decodes text (hmacSha256 key (signedContent svixId svixTimestamp body))

/-- What the sender of an acceptable request has to provide. -/
structure ProperlySigned (tolerance : ℤ) (now : Time) : Prop where
  svixId : ∃ text, FirstText headers "svix-id" text
  timestamp : ∃ text n, FirstText headers "svix-timestamp" text ∧ parseI64 text = some n ∧
    |unixTimestamp now - n| ≤ tolerance
  tolerance : 0 < tolerance
  key : ∃ key, Decodes (keyText secret) key
  token : ∃ text, FirstText headers "svix-signature" text ∧
    ∃ token ∈ splitWhitespace text, RightToken hmacSha256 secret headers body token

end

theorem candidateMatches_eq_true {expected : Bytes} {candidate : String} :
    candidateMatches expected candidate = true ↔
      ∃ text, candidate = "v1," ++ text ∧ Decodes text expected := by
  rw [candidateMatches]
  cases h : stripPrefix "v1," candidate with
  | none =>
    simp only [Bool.false_eq_true, false_iff, not_exists, not_and]
    intro text heq
    rw [stripPrefix_eq_some.mpr heq] at h
    cases h
  | some signature =>
    rw [decide_eq_true_eq, decodeBase64_eq_some]
    constructor
    · exact fun hd => ⟨signature, stripPrefix_eq_some.mp h, hd⟩
    · rintro ⟨text, heq, hd⟩
      rw [stripPrefix_eq_some.mpr heq, Option.some.injEq] at h
      rwa [← h]

theorem FirstText.unique {headers : HeaderMap} {name text text' : String}
    (h : FirstText headers name text) (h' : FirstText headers name text') : text = text' := by
  rw [← header_eq_ok] at h h'
  rw [h, Except.ok.injEq] at h'
  exact h'

section
variable {hmacSha256 : Bytes → Bytes → Bytes} {secret : String} {tolerance : ℤ}
  {headers headers' : HeaderMap} {body : Bytes} {now : Time}

/-- The right tokens of a request with the given texts and key. -/
theorem rightToken_iff {svixId svixTimestamp token : String} {key : Bytes}
    (hid : FirstText headers "svix-id" svixId)
    (hts : FirstText headers "svix-timestamp" svixTimestamp) (hkey : Decodes (keyText secret) key) :
    RightToken hmacSha256 secret headers body token ↔
      candidateMatches (hmacSha256 key (signedContent svixId svixTimestamp body)) token = true := by
  rw [candidateMatches_eq_true]
  constructor
  · rintro ⟨svixId', svixTimestamp', key', text, hid', hts', hkey', heq, hd⟩
    rw [hid.unique hid', hts.unique hts', hkey.unique hkey']
    exact ⟨text, heq, hd⟩
  · rintro ⟨text, heq, hd⟩
    exact ⟨svixId, svixTimestamp, key, text, hid, hts, hkey, heq, hd⟩

/-- The verdict once the headers, the timestamp and the key are there. -/
theorem verifyWebhookSignature_eq {svixId svixTimestamp svixSignature : String} {key : Bytes}
    (hid : FirstText headers "svix-id" svixId)
    (hts : FirstText headers "svix-timestamp" svixTimestamp)
    (hsig : FirstText headers "svix-signature" svixSignature)
    (htime : verifyTimestamp svixTimestamp tolerance now = .ok ())
    (hkey : Decodes (keyText secret) key) :
    verifyWebhookSignature hmacSha256 secret tolerance headers body now =
      if (splitWhitespace svixSignature).any
          (candidateMatches (hmacSha256 key (signedContent svixId svixTimestamp body))) then .ok ()
      else .error (.signature "no matching v1 signature") := by
  have hdec := decodeBase64_eq_some.mpr hkey
  rw [keyText] at hdec
  simp only [verifyWebhookSignature, header_eq_ok.mpr hid, header_eq_ok.mpr hts,
    header_eq_ok.mpr hsig, htime, hdec, bind, Except.bind]

theorem verifyWebhookSignature_eq_ok :
    verifyWebhookSignature hmacSha256 secret tolerance headers body now = .ok () ↔
      ProperlySigned hmacSha256 secret headers body tolerance now := by
  constructor
  · intro h
    have hall := h
    obtain ⟨svixId, hid, h⟩ := bind_eq_ok.mp h
    obtain ⟨svixTimestamp, hts, h⟩ := bind_eq_ok.mp h
    obtain ⟨svixSignature, hsig, h⟩ := bind_eq_ok.mp h
    obtain ⟨_, htime, h⟩ := bind_eq_ok.mp h
    rw [header_eq_ok] at hid hts hsig
    obtain ⟨htol, n, hn, hage⟩ := verifyTimestamp_eq_ok.mp htime
    split at h
    case h_1 => cases h
    case h_2 key hkey =>
      have hkey : Decodes (keyText secret) key := decodeBase64_eq_some.mp hkey
      refine ⟨⟨svixId, hid⟩, ⟨svixTimestamp, n, hts, hn, hage⟩, htol, ⟨key, hkey⟩,
        svixSignature, hsig, ?_⟩
      split_ifs at h with hany
      obtain ⟨token, htoken, hm⟩ := List.any_eq_true.mp hany
      exact ⟨token, htoken, (rightToken_iff hid hts hkey).mpr hm⟩
  · rintro ⟨⟨svixId, hid⟩, ⟨svixTimestamp, n, hts, hn, hage⟩, htol, ⟨key, hkey⟩, svixSignature,
      hsig, token, htoken, hright⟩
    have htime := verifyTimestamp_eq_ok.mpr ⟨htol, n, hn, hage⟩
    rw [verifyWebhookSignature_eq hid hts hsig htime hkey, if_pos]
    exact List.any_eq_true.mpr ⟨token, htoken, (rightToken_iff hid hts hkey).mp hright⟩

end

/-- Lists of tokens that differ in their order, in repetitions, and in tokens that are not
right. -/
inductive Rearranged (right : String → Prop) : List String → List String → Prop where
  | reorder {ts us} (h : ts.Perm us) : Rearranged right ts us
  | duplicate {t ts} (h : t ∈ ts) : Rearranged right ts (t :: ts)
  | insert {t ts} (h : ¬ right t) : Rearranged right ts (t :: ts)
  | back {ts us} (h : Rearranged right ts us) : Rearranged right us ts
  | trans {ts us vs} (h : Rearranged right ts us) (h' : Rearranged right us vs) :
      Rearranged right ts vs

theorem Rearranged.exists_iff {right : String → Prop} {ts us : List String}
    (h : Rearranged right ts us) : (∃ t ∈ ts, right t) ↔ ∃ t ∈ us, right t := by
  induction h with
  | reorder h => simp only [h.mem_iff]
  | duplicate h =>
    simp only [List.mem_cons, exists_eq_or_imp]
    exact ⟨.inr, fun hor => hor.elim (fun hr => ⟨_, h, hr⟩) id⟩
  | insert h =>
    simp only [List.mem_cons, exists_eq_or_imp]
    exact ⟨.inr, fun hor => hor.resolve_left h⟩
  | back _ ih => exact ih.symm
  | trans _ _ ih ih' => exact ih.trans ih'

theorem header_congr {headers headers' : HeaderMap} {name : String}
    (h : headers'.get name = headers.get name) : header headers' name = header headers name := by
  rw [header, header, h]

/-- A request is accepted exactly when it is properly signed, and the verdict does not depend on
the order of the tokens, on repetitions, or on tokens that are not right. -/
theorem signature_verdict (hmacSha256 : Bytes → Bytes → Bytes) (secret : String) (tolerance : ℤ)
    (body : Bytes) (now : Time) :
    (∀ headers, verifyWebhookSignature hmacSha256 secret tolerance headers body now = .ok () ↔
      ProperlySigned hmacSha256 secret headers body tolerance now) ∧
    ∀ headers headers' text text', headers'.get "svix-id" = headers.get "svix-id" →
      headers'.get "svix-timestamp" = headers.get "svix-timestamp" →
      FirstText headers "svix-signature" text → FirstText headers' "svix-signature" text' →
      Rearranged (RightToken hmacSha256 secret headers body) (splitWhitespace text)
        (splitWhitespace text') →
      verifyWebhookSignature hmacSha256 secret tolerance headers' body now =
        verifyWebhookSignature hmacSha256 secret tolerance headers body now := by
  refine ⟨fun headers => verifyWebhookSignature_eq_ok, ?_⟩
  intro headers headers' text text' hid hts hsig hsig' hr
  simp only [verifyWebhookSignature, header_congr hid, header_congr hts, header_eq_ok.mpr hsig,
    header_eq_ok.mpr hsig']
  cases hi : header headers "svix-id" with
  | error e => simp only [bind, Except.bind]
  | ok svixId =>
    cases ht : header headers "svix-timestamp" with
    | error e => simp only [bind, Except.bind]
    | ok svixTimestamp =>
      cases hv : verifyTimestamp svixTimestamp tolerance now with
      | error e => simp only [bind, Except.bind, hv]
      | ok u =>
        simp only [bind, Except.bind, hv]
        split
        case h_1 => rfl
        case h_2 key hkey =>
          have hkey : Decodes (keyText secret) key := decodeBase64_eq_some.mp hkey
          have hright : ∀ token, RightToken hmacSha256 secret headers body token ↔
              candidateMatches (hmacSha256 key (signedContent svixId svixTimestamp body)) token =
                true :=
            fun token => rightToken_iff (header_eq_ok.mp hi) (header_eq_ok.mp ht) hkey
          have hany := hr.exists_iff
          simp only [hright, ← List.any_eq_true] at hany
          simp only [hany]

def signedHeaders (svixSignature : String) : HeaderMap :=
  [("svix-id", asBytes "m"), ("svix-timestamp", asBytes "0"),
    ("svix-signature", asBytes svixSignature)]

theorem firstText_signature {text : String} (h : toStr (asBytes text) = some text) :
    FirstText (signedHeaders text) "svix-signature" text :=
  ⟨asBytes text, by simp [signedHeaders, HeaderMap.get], h⟩

theorem not_rightToken {token : String} (h : candidateMatches (asBytes "secret") token = false) :
    ¬ RightToken (fun key _ => key) "whsec_c2VjcmV0" (signedHeaders "v1,c2VjcmV0") [] token := by
  have hid : FirstText (signedHeaders "v1,c2VjcmV0") "svix-id" "m" := ⟨_, rfl, by decide⟩
  have hts : FirstText (signedHeaders "v1,c2VjcmV0") "svix-timestamp" "0" := ⟨_, rfl, by decide⟩
  have hkey : Decodes (keyText "whsec_c2VjcmV0") (asBytes "secret") :=
    decodeBase64_eq_some.mp (by decide)
  rw [rightToken_iff hid hts hkey, h]
  exact Bool.false_ne_true

/-- Tokens of another version and of another key, and a repeated one, change nothing. -/
theorem signature_verdict_rotated :
    verifyWebhookSignature (fun key _ => key) "whsec_c2VjcmV0" 300
        (signedHeaders "v2,AAAA v1,c2VjcmV0 v1,b2xk v1,c2VjcmV0") [] 0 =
      verifyWebhookSignature (fun key _ => key) "whsec_c2VjcmV0" 300
        (signedHeaders "v1,c2VjcmV0") [] 0 := by
  have htokens : splitWhitespace "v2,AAAA v1,c2VjcmV0 v1,b2xk v1,c2VjcmV0" =
      ["v2,AAAA", "v1,c2VjcmV0", "v1,b2xk", "v1,c2VjcmV0"] := by decide
  have htoken : splitWhitespace "v1,c2VjcmV0" = ["v1,c2VjcmV0"] := by decide
  apply (signature_verdict (fun key _ => key) "whsec_c2VjcmV0" 300 [] 0).2
    (signedHeaders "v1,c2VjcmV0") (signedHeaders "v2,AAAA v1,c2VjcmV0 v1,b2xk v1,c2VjcmV0")
    "v1,c2VjcmV0" "v2,AAAA v1,c2VjcmV0 v1,b2xk v1,c2VjcmV0" rfl rfl
    (firstText_signature (by decide)) (firstText_signature (by decide))
  rw [htokens, htoken]
  exact ((Rearranged.insert (not_rightToken (by decide))).trans
    (.duplicate (by decide))).trans (.insert (not_rightToken (by decide)))

end ResendRouter.Signatures
