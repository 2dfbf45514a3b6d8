import ResendRouter.Ingest.ExactlyOnce
import ResendRouter.Signatures.Outbound
import ResendRouter.Signatures.Verification
import ResendRouter.Foundation.JsonText

/-! # What an inbound signature determines

The signed fields are joined by dots, and only the timestamp is free of them by
its syntax. What rules out another split is the body: behind a dot inside an
object text stands no JSON text, so no other request is accepted on the
signature of a genuine one.
-/

namespace ResendRouter.Signatures
open Foundation Program Database Ingest

theorem parseI64_isDecimal {s : String} (h : (parseI64 s).isSome = true) : IsDecimal s := by
  have hdigits : ∀ {ds : List Char} {x : Option ℤ},
      (if (ds.isEmpty || ! ds.all isDigit) = true then none else x).isSome = true →
        ds ≠ [] ∧ ∀ c ∈ ds, isDigit c = true := by
    intro ds x hx
    split at hx
    case isTrue => cases hx
    case isFalse hds => simpa [not_or] using hds
  simp only [parseI64] at h
  split at h
  case h_1 ds hs => exact ⟨ds, .inr (.inl hs), hdigits h⟩
  case h_2 ds hs => exact ⟨ds, .inr (.inr hs), hdigits h⟩
  case h_3 => exact ⟨s.toList, .inl rfl, hdigits h⟩

theorem parseEventForRouting_ok {fromSlice : Bytes → Except String Json} {body : Bytes}
    {event : ResendEventForRouting} (h : parseEventForRouting fromSlice body = .ok event) :
    ∃ value, fromSlice body = .ok value := by
  rw [parseEventForRouting] at h
  split at h
  case h_1 => cases h
  case h_2 value hv => exact ⟨value, hv⟩

variable {svc : Services} {w : Intake svc}

theorem stored_accepted (hw : (intake svc).Reachable System.free w) {e : WebhookEvent}
    (he : e ∈ w.store.tables.webhookEvents) :
    (parseI64 e.sourceSvixTimestamp).isSome = true ∧
      ∃ event, parseEventForRouting svc.fromSlice e.rawBody = .ok event := by
  have hi := intakeInv_of_reachable hw
  obtain ⟨h, hm, q, hq, hing⟩ := hi.events e he
  have hc := (hi.handlers h hm).inserted q hq
  constructor
  · obtain ⟨now, hv⟩ := hc.verified
    obtain ⟨timestamp, n, ht, hp, -⟩ := (verifyWebhookSignature_eq_ok.mp hv).timestamp
    have htext := headerToString_eq_some.mpr ht
    rw [← hc.headers, hing.svixTimestamp, Option.some.injEq] at htext
    rw [htext, hp, Option.isSome_some]
  · rw [hing.body, hc.body]
    exact ⟨q.event, hc.event⟩

/-- Only the genuine split of a genuine content has a decimal timestamp and a JSON body. -/
theorem signedContent_inj {svixId svixTimestamp svixId' svixTimestamp' : String}
    {body body' : Bytes} (hid : '.' ∉ svixId.toList) (hts : '.' ∉ svixTimestamp.toList)
    (hbody : JsonObjectText body) (hts' : (parseI64 svixTimestamp').isSome = true)
    (hbody' : JsonText body')
    (h : signedContent svixId' svixTimestamp' body' = signedContent svixId svixTimestamp body) :
    svixId' = svixId ∧ svixTimestamp' = svixTimestamp ∧ body' = body := by
  have hd : dot ∉ asBytes svixTimestamp := not_mem_asBytes (by decide) (by decide) hts
  have hd' : dot ∉ asBytes svixTimestamp' := (parseI64_isDecimal hts').dotFree
  rcases (joined_eq_iff hd' hd).mp h with ⟨h1, h2, h3⟩ | hs | hs
  · exact ⟨asBytes_injective h1, asBytes_injective h2, h3⟩
  · -- the genuine identifier would contain a dot
    have hdot : dot ∈ asBytes svixId := by
      cases hs with
      | whole ha _ =>
        rw [ha]
        exact List.mem_append_right _ List.mem_cons_self
      | further m ha _ =>
        rw [ha]
        exact List.mem_append_right _ List.mem_cons_self
    exact absurd hdot (not_mem_asBytes (by decide) (by decide) hid)
  · -- the other body would be a suffix of the genuine one, behind a dot
    cases hs with
    | whole _ hy =>
      rw [hy] at hbody
      exact absurd hbody' hbody.not_jsonText_suffix
    | further m _ hy =>
      rw [hy, ← List.cons_append, ← List.append_assoc] at hbody
      exact absurd hbody' hbody.not_jsonText_suffix

/-- A genuine signature cannot be used under another svix-id, and creates at most one event. -/
theorem signature_not_replayable (hjson : ∀ b value, svc.fromSlice b = .ok value → JsonText b)
    {svixId svixTimestamp : String} {body : Bytes} (hid : '.' ∉ svixId.toList)
    (hts : '.' ∉ svixTimestamp.toList) (hbody : JsonObjectText body) :
    (∀ svixId' svixTimestamp' body',
      signedContent svixId' svixTimestamp' body' = signedContent svixId svixTimestamp body →
      (parseI64 svixTimestamp').isSome = true →
      (∃ event, parseEventForRouting svc.fromSlice body' = .ok event) →
      svixId' = svixId ∧ svixTimestamp' = svixTimestamp ∧ body' = body) ∧
    ∀ w, (intake svc).Reachable System.free w →
      ∀ e ∈ w.store.tables.webhookEvents, ∀ e' ∈ w.store.tables.webhookEvents,
        signedContent e.sourceSvixId e.sourceSvixTimestamp e.rawBody =
          signedContent svixId svixTimestamp body →
        signedContent e'.sourceSvixId e'.sourceSvixTimestamp e'.rawBody =
          signedContent svixId svixTimestamp body → e = e' := by
  have hinj : ∀ svixId' svixTimestamp' body',
      signedContent svixId' svixTimestamp' body' = signedContent svixId svixTimestamp body →
      (parseI64 svixTimestamp').isSome = true →
      (∃ event, parseEventForRouting svc.fromSlice body' = .ok event) →
      svixId' = svixId ∧ svixTimestamp' = svixTimestamp ∧ body' = body := by
    intro svixId' svixTimestamp' body' heq hts' ⟨event, he⟩
    obtain ⟨value, hv⟩ := parseEventForRouting_ok he
    exact signedContent_inj hid hts hbody hts' (hjson body' value hv) heq
  refine ⟨hinj, fun w hw e he e' he' heq heq' => ?_⟩
  obtain ⟨htime, hevent⟩ := stored_accepted hw he
  obtain ⟨htime', hevent'⟩ := stored_accepted hw he'
  have hsame := (hinj _ _ _ heq htime hevent).1
  have hsame' := (hinj _ _ _ heq' htime' hevent').1
  exact List.inj_on_of_nodup_map w.store.tables.svixUnique he he' (hsame.trans hsame'.symm)

theorem braces_jsonObjectText : JsonObjectText [0x7B, 0x7D] :=
  ⟨[], [0x7B, 0x7D], [], by simp [JsonText.Ws], JsonText.Derives.emptyObject (l := [])
    (by simp [JsonText.Ws]), by simp [JsonText.Ws], rfl⟩

/-- The two redeliveries of one signed message have created one event. -/
theorem signature_not_replayable_raced :
    ∃ w, (intake sampleServices).Reachable System.free w ∧
      (w.store.tables.webhookEvents.rows.map fun e =>
        signedContent e.sourceSvixId e.sourceSvixTimestamp e.rawBody) =
          [signedContent "m" "0" [0x7B, 0x7D]] ∧
      ∀ e ∈ w.store.tables.webhookEvents, ∀ e' ∈ w.store.tables.webhookEvents,
        signedContent e.sourceSvixId e.sourceSvixTimestamp e.rawBody =
          signedContent "m" "0" [0x7B, 0x7D] →
        signedContent e'.sourceSvixId e'.sourceSvixTimestamp e'.rawBody =
          signedContent "m" "0" [0x7B, 0x7D] → e = e' := by
  have hjson : ∀ b value, sampleServices.fromSlice b = .ok value → JsonText b := by
    intro b value hb
    simp only [sampleServices] at hb
    split_ifs at hb with hbody
    rw [hbody]
    exact braces_jsonObjectText.jsonText
  obtain ⟨w, hw, hp⟩ := System.exists_reachable_of_run (intake sampleServices) System.free raced
    (fun w => (w.store.tables.webhookEvents.rows.map fun e =>
      signedContent e.sourceSvixId e.sourceSvixTimestamp e.rawBody) =
        [signedContent "m" "0" [0x7B, 0x7D]]) (by decide)
  rw [decide_eq_true_eq] at hp
  exact ⟨w, hw, hp, (signature_not_replayable hjson (by decide) (by decide)
    braces_jsonObjectText).2 w hw⟩

end ResendRouter.Signatures
