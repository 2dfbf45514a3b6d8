import ResendRouter.Database.CallSpecs

/-! # Which events can be enqueued

The columns reject a text with U+0000 and a negative count, and nothing else
when the identifiers are fresh. The headers of a request are always admissible.
-/

namespace ResendRouter.Database
open Foundation Program

theorem textOk_iff {s : String} : textOk s = true ↔ '\x00' ∉ s.toList := by
  simp [textOk]

theorem ofNat_ne_zero {b : UInt8} (h : isVisibleAscii b = true) : Char.ofNat b.toNat ≠ '\x00' := by
  have hpos : 0 < b.toNat ∧ b.toNat < 128 := by
    simp only [isVisibleAscii, Bool.or_eq_true, Bool.and_eq_true, decide_eq_true_eq] at h
    rcases h with ⟨h1, h2⟩ | rfl
    · have h1 := UInt8.le_iff_toNat_le.mp h1
      have h2 := UInt8.lt_iff_toNat_lt.mp h2
      simp only [UInt8.reduceToNat] at h1 h2
      omega
    · decide
  intro heq
  have hvalid : Nat.isValidChar b.toNat := .inl (by omega)
  rw [Char.ofNat, dif_pos hvalid] at heq
  have hn : b.toNat = 0 := congrArg Char.toNat heq
  omega

theorem textOk_toStr {value : Bytes} {text : String} (h : toStr value = some text) :
    textOk text = true := by
  simp only [toStr, Option.ite_none_right_eq_some, Option.some.injEq] at h
  obtain ⟨hall, rfl⟩ := h
  rw [textOk_iff, String.toList_ofList, List.mem_map]
  rintro ⟨b, hb, heq⟩
  exact ofNat_ne_zero (List.all_eq_true.mp hall b hb) heq

theorem textOk_headerToString {headers : HeaderMap} {name text : String}
    (h : headerToString headers name = some text) : textOk text = true := by
  obtain ⟨value, -, ht⟩ := Option.bind_eq_some_iff.mp h
  exact textOk_toStr ht

theorem jsonItemsOk_iff {items : List Json} :
    jsonItemsOk items = true ↔ ∀ j ∈ items, jsonOk j = true := by
  induction items with
  | nil => simp [jsonItemsOk]
  | cons j js ih => simp [jsonItemsOk, ih]

theorem jsonEntriesOk_iff {entries : List (String × Json)} : jsonEntriesOk entries = true ↔
    ∀ e ∈ entries, textOk e.1 = true ∧ jsonOk e.2 = true := by
  induction entries with
  | nil => simp [jsonEntriesOk]
  | cons e es ih =>
    rcases e with ⟨k, j⟩
    simp [jsonEntriesOk, ih, and_assoc]

theorem insertHeaderValue_ok {entries : List (String × Json)} {key value : String}
    (h : ∀ e ∈ entries, textOk e.1 = true ∧ jsonOk e.2 = true) (hk : textOk key = true)
    (hv : textOk value = true) :
    ∀ e ∈ insertHeaderValue entries key value, textOk e.1 = true ∧ jsonOk e.2 = true := by
  have hreplace : ∀ j, jsonOk j = true →
      ∀ e ∈ replaceEntry entries key j, textOk e.1 = true ∧ jsonOk e.2 = true := by
    intro j hj e he
    obtain ⟨e₀, he₀, rfl⟩ := List.mem_map.mp he
    split
    · exact ⟨hk, hj⟩
    · exact h e₀ he₀
  simp only [insertHeaderValue]
  split
  case h_1 k values hfind =>
    apply hreplace
    have hold := (h _ (List.mem_of_find?_eq_some hfind)).2
    rw [jsonOk, jsonItemsOk_iff] at hold ⊢
    intro j hj
    rcases List.mem_append.mp hj with hj | hj
    · exact hold j hj
    · rw [List.mem_singleton.mp hj]
      exact hv
  case h_2 k existing _ hfind =>
    apply hreplace
    have hold := (h _ (List.mem_of_find?_eq_some hfind)).2
    rw [jsonOk, jsonItemsOk_iff]
    simp [hold, jsonOk, hv]
  case h_3 =>
    intro e he
    rcases List.mem_append.mp he with he | he
    · exact h e he
    · rw [List.mem_singleton.mp he]
      exact ⟨hk, hv⟩

def isHeaderNameCharacter (c : Char) : Bool :=
  isAsciiAlphanumeric c || "!#$%&'*+-.^_`|~".toList.contains c

def HeaderNames (headers : HeaderMap) : Prop :=
  ∀ h ∈ headers, h.1.toList.all isHeaderNameCharacter = true

instance (headers : HeaderMap) : Decidable (HeaderNames headers) :=
  inferInstanceAs (Decidable (∀ h ∈ headers, h.1.toList.all isHeaderNameCharacter = true))

theorem HeaderNames.textOk {headers : HeaderMap} (hn : HeaderNames headers) :
    ∀ h ∈ headers, textOk (toAsciiLowercase h.1) = true := by
  intro h hh
  rw [textOk_iff, toAsciiLowercase, String.toList_ofList, List.mem_map]
  rintro ⟨c, hc, heq⟩
  have hname := List.all_eq_true.mp (hn h hh) c hc
  rw [(toLower_eq_iff (by decide)).mp heq] at hname
  revert hname
  decide

theorem headersToJson_ok {headers : HeaderMap} (hn : HeaderNames headers) :
    jsonOk (headersToJson headers) = true := by
  rw [headersToJson, jsonOk, jsonEntriesOk_iff]
  have hfold : ∀ (hs : HeaderMap) (entries : List (String × Json)), (∀ h ∈ hs, h ∈ headers) →
      (∀ e ∈ entries, textOk e.1 = true ∧ jsonOk e.2 = true) →
      ∀ e ∈ hs.foldl (fun entries h => insertHeaderValue entries (toAsciiLowercase h.1)
        ((toStr h.2).getD "<non-utf8>")) entries, textOk e.1 = true ∧ jsonOk e.2 = true := by
    intro hs
    induction hs with
    | nil => exact fun _ _ h => h
    | cons h hs ih =>
      intro entries hsub hok
      rw [List.foldl_cons]
      refine ih _ (fun h' hh' => hsub h' (List.mem_cons_of_mem _ hh')) ?_
      refine insertHeaderValue_ok hok (hn.textOk h (hsub h List.mem_cons_self)) ?_
      cases ht : toStr h.2 with
      | none => decide
      | some text => exact textOk_toStr ht
  exact hfold headers [] (fun _ h => h) (by simp)

theorem newWebhookEvent_isOk {id : Uuid} {svixId svixTimestamp : String} {now : Time}
    {eventId eventType : Option String} {body : Bytes} {headers : Json} {count : ℤ} :
    (∃ e, newWebhookEvent id svixId svixTimestamp now eventId eventType body headers count =
      .ok e) ↔ textOk svixId = true ∧ textOk svixTimestamp = true ∧ optionalTextOk eventId = true ∧
        optionalTextOk eventType = true ∧ jsonOk headers = true ∧ timestampOk now = true ∧
          0 ≤ count := by
  simp only [newWebhookEvent]
  split_ifs with ht hr hc
  · simp only [exists_false, false_iff]
    rintro ⟨h1, h2, h3, h4, h5, -⟩
    simp [h1, h2, h3, h4, h5] at ht
  · simpa [hr, hc, and_assoc] using ht
  · simp [hc]
  · simp [hr]

theorem newDeliveryJob_isOk {id eventId : Uuid} {name url : String} {now deadlineAt : Time} :
    (∃ j, newDeliveryJob id eventId name url now deadlineAt = .ok j) ↔
      (textOk name = true ∧ textOk url = true) ∧
        timestampOk now = true ∧ timestampOk deadlineAt = true := by
  simp only [newDeliveryJob]
  split_ifs with ht hd
  · simp only [exists_false, false_iff]
    rintro ⟨⟨h1, h2⟩, -⟩
    simp [h1, h2] at ht
  · simpa [hd] using ht
  · simp [hd]

/-- The identifiers of a call are new, and different from each other. -/
structure FreshIds (t : Tables) (q : Enqueue) : Prop where
  event : ∀ e ∈ t.webhookEvents, e.id ≠ q.eventRowId
  jobs : ∀ j ∈ t.deliveryJobs, ∀ k < q.destinations.length, j.id ≠ q.jobIds k
  distinct : ∀ a < q.destinations.length, ∀ b < q.destinations.length,
    q.jobIds a = q.jobIds b → a = b

variable {t t' : Tables} {q : Enqueue} {deadlineAt : Time}

/-- The loop over the destinations fails only for a text or a date that no column admits. The
induction is on the destinations, whose identifiers are not used yet. -/
theorem insertDeliveryJobs_isOk {i : ℕ} {ds : List DestinationConfig}
    (hev : ∃ e ∈ t.webhookEvents, e.id = q.eventRowId)
    (hjobs : ∀ j ∈ t.deliveryJobs, ∀ k < ds.length, j.id ≠ q.jobIds (i + k))
    (hdistinct : ∀ a < ds.length, ∀ b < ds.length, q.jobIds (i + a) = q.jobIds (i + b) → a = b) :
    (∃ t', q.insertDeliveryJobs deadlineAt t i ds = .ok t') ↔
      ∀ d ∈ ds, (textOk d.name = true ∧ textOk d.url = true) ∧
        timestampOk q.now = true ∧ timestampOk deadlineAt = true := by
  induction ds generalizing t i with
  | nil => simp [Enqueue.insertDeliveryJobs]
  | cons d ds ih =>
    have hrest : ∀ {j : DeliveryJob} {t₁ : Tables}, q.jobRow deadlineAt i d = .ok j →
        t.insertJob j = .ok t₁ → ((∃ t', q.insertDeliveryJobs deadlineAt t₁ (i + 1) ds = .ok t') ↔
          ∀ d ∈ ds, (textOk d.name = true ∧ textOk d.url = true) ∧
            timestampOk q.now = true ∧ timestampOk deadlineAt = true) := by
      intro j t₁ hj ht
      obtain ⟨hrows, hevents, -⟩ := Tables.insertJob_inserted ht
      have hshift : ∀ k, i + 1 + k = i + (k + 1) := fun k => by omega
      apply ih
      · rwa [hevents]
      · intro r hr k hk
        rw [hshift]
        rcases (Table.mem_append_one hrows).mp hr with hr | rfl
        · exact hjobs r hr (k + 1) (Nat.succ_lt_succ hk)
        · rw [(Enqueue.jobRow_ok hj).2]
          intro heq
          have := hdistinct 0 (Nat.succ_pos _) (k + 1) (Nat.succ_lt_succ hk) heq
          omega
      · intro a ha b hb heq
        rw [hshift, hshift] at heq
        have := hdistinct (a + 1) (Nat.succ_lt_succ ha) (b + 1) (Nat.succ_lt_succ hb) heq
        omega
    rw [List.forall_mem_cons]
    constructor
    · rintro ⟨t', h⟩
      obtain ⟨j, hj, h⟩ := bind_eq_ok.mp h
      obtain ⟨t₁, ht, h⟩ := bind_eq_ok.mp h
      exact ⟨newDeliveryJob_isOk.mp ⟨j, hj⟩, (hrest hj ht).mp ⟨t', h⟩⟩
    · rintro ⟨hd, hds⟩
      obtain ⟨j, hj⟩ : ∃ j, q.jobRow deadlineAt i d = .ok j := newDeliveryJob_isOk.mpr hd
      obtain ⟨hf, hid⟩ := Enqueue.jobRow_ok hj
      obtain ⟨t₁, ht⟩ := t.insertJob_ok (by rwa [hf.eventId])
        (fun r hr => hid ▸ hjobs r hr 0 (Nat.succ_pos _))
      obtain ⟨t', h'⟩ := (hrest hj ht).mpr hds
      exact ⟨t', bind_eq_ok.mpr ⟨j, hj, bind_eq_ok.mpr ⟨t₁, ht, h'⟩⟩⟩

/-- The two answers of a call that leaves the event stored. -/
def Stored (r : Reply Failure EnqueueOutcome) (id : Uuid) : Prop :=
  r.result = .ok (.inserted id) ∨ r.result = .ok .duplicate

/-- With fresh identifiers, a call stores its event when the columns admit the values of the
event row, and those of the jobs unless the event is a duplicate. -/
theorem enqueueEvent_stored_iff {svixId svixTimestamp : String}
    (hp : q.prepare = .ok (deadlineAt, svixId, svixTimestamp)) (hfresh : FreshIds t q) :
    Stored (enqueueEvent t q) q.eventRowId ↔
      (∃ e, q.eventRow svixId svixTimestamp = .ok e) ∧
        ((∃ r ∈ t.webhookEvents, r.sourceSvixId = svixId) ∨
          ∀ d ∈ q.destinations, (textOk d.name = true ∧ textOk d.url = true) ∧
            timestampOk q.now = true ∧ timestampOk deadlineAt = true) := by
  simp only [Stored, enqueueEvent, hp]
  cases hrow : q.eventRow svixId svixTimestamp with
  | error e => simp [bind, Except.bind]
  | ok e =>
    obtain ⟨hid, hsvix, -⟩ := newWebhookEvent_ok hrow
    have hrows : (∃ e', Except.ok e = (Except.ok e' : Except DbError WebhookEvent)) := ⟨e, rfl⟩
    simp only [hrows, true_and, bind, Except.bind]
    by_cases hdup : ∃ r ∈ t.webhookEvents, r.sourceSvixId = svixId
    · rw [Tables.insertEvent_duplicate (by rwa [hsvix])]
      simp [hdup]
    · have hk : ∀ r ∈ t.webhookEvents, r.id ≠ e.id ∧ r.sourceSvixId ≠ e.sourceSvixId := by
        rw [hid, hsvix]
        exact fun r hr => ⟨hfresh.event r hr, fun heq => hdup ⟨r, hr, heq⟩⟩
      obtain ⟨t₁, ht⟩ := Tables.insertEvent_ok hk
      obtain ⟨hevents, hjobs, -⟩ := Tables.insertEvent_inserted ht
      have hloop := @insertDeliveryJobs_isOk t₁ q deadlineAt 0 q.destinations
        ⟨e, (Table.mem_append_one hevents).mpr (.inr rfl), hid⟩
        (by simpa [hjobs] using hfresh.jobs) (by simpa using hfresh.distinct)
      simp only [ht, hdup, false_or, ← hloop]
      cases q.insertDeliveryJobs deadlineAt t₁ 0 q.destinations with
      | error e => simp
      | ok t₂ => simp

end ResendRouter.Database
