import ResendRouter.Program.Signing
import ResendRouter.Program.Config

/-! # What an outbound signature determines

The signed fields are joined by dots, and destination names may contain dots.
The fields in front of the name are always determined; the name, the attempt
and the body are, unless one name continues another one by its attempt.
-/

namespace ResendRouter.Signatures
open Foundation Program

def IsDecimal (s : String) : Prop :=
  ∃ ds, (s.toList = ds ∨ s.toList = '-' :: ds ∨ s.toList = '+' :: ds) ∧ ds ≠ [] ∧
    ∀ c ∈ ds, isDigit c = true

def isHexDigit (c : Char) : Bool := isDigit c || ('a' ≤ c && c ≤ 'f') || ('A' ≤ c && c ≤ 'F')

/-- Five groups of 8, 4, 4, 4 and 12 hexadecimal digits, joined by hyphens. -/
def IsHyphenatedUuid (s : String) : Prop :=
  ∃ g₁ g₂ g₃ g₄ g₅ : List Char,
    s.toList = g₁ ++ '-' :: (g₂ ++ '-' :: (g₃ ++ '-' :: (g₄ ++ '-' :: g₅))) ∧
    [g₁, g₂, g₃, g₄, g₅].map List.length = [8, 4, 4, 4, 12] ∧
    ∀ c ∈ g₁ ++ g₂ ++ g₃ ++ g₄ ++ g₅, isHexDigit c = true

/-- The arguments of `sign_delivery` besides its key. -/
structure SignedFields where
  timestamp : String
  deliveryId : String
  eventId : String
  destination : String
  attempt : ℤ
  body : Bytes

def SignedFields.content (f : SignedFields) : Bytes :=
  deliveryContent f.timestamp f.deliveryId f.eventId f.destination f.attempt f.body

structure SignedFields.Admissible (parseUrl : String → Except String String) (f : SignedFields) :
    Prop where
  timestamp : IsDecimal f.timestamp
  deliveryId : IsHyphenatedUuid f.deliveryId
  eventId : IsHyphenatedUuid f.eventId
  destination : ∃ d : DestinationConfig, d.name = f.destination ∧ d.validate parseUrl = .ok ()
  attempt : 1 ≤ f.attempt

variable {parseUrl : String → Except String String} {f g : SignedFields}

theorem IsDecimal.dotFree {s : String} (h : IsDecimal s) : dot ∉ asBytes s := by
  rcases h with ⟨ds, hs, -, hd⟩
  apply not_mem_asBytes (c := '.') (by decide) (by decide)
  have hds : '.' ∉ ds := fun hm => absurd (hd '.' hm) (by decide)
  rcases hs with hs | hs | hs <;> simp [hs, hds]

theorem IsHyphenatedUuid.dotFree {s : String} (h : IsHyphenatedUuid s) : dot ∉ asBytes s := by
  rcases h with ⟨g₁, g₂, g₃, g₄, g₅, hs, -, hx⟩
  apply not_mem_asBytes (c := '.') (by decide) (by decide)
  have hg : '.' ∉ g₁ ++ g₂ ++ g₃ ++ g₄ ++ g₅ := fun hm => absurd (hx '.' hm) (by decide)
  simp only [List.mem_append, not_or] at hg
  simp [hs, hg]

theorem toList_toString_of_nonneg {n : ℤ} (h : 0 ≤ n) :
    (toString n).toList = Nat.toDigits 10 n.toNat := by
  obtain ⟨m, rfl⟩ := Int.eq_ofNat_of_zero_le h
  exact Nat.toList_repr

theorem isDigit_of_mem_toDigits {n : ℕ} {c : Char} (h : c ∈ Nat.toDigits 10 n) :
    isDigit c = true := by
  have hc := Nat.isDigit_of_mem_toDigits (by decide) (by decide) h
  simp only [Char.isDigit, isDigit, Bool.and_eq_true, decide_eq_true_eq] at hc ⊢
  exact hc

theorem isDecimal_toString (n : ℤ) : IsDecimal (toString n) := by
  have hne : ∀ m, Nat.toDigits 10 m ≠ [] := by
    intro m hm
    have hr := Nat.repr_ne_empty (n := m)
    rw [Nat.repr_eq_ofList_toDigits, hm] at hr
    exact hr rfl
  cases n with
  | ofNat m =>
    exact ⟨Nat.toDigits 10 m, .inl Nat.toList_repr, hne m, fun c hc => isDigit_of_mem_toDigits hc⟩
  | negSucc m =>
    refine ⟨Nat.toDigits 10 (m + 1), .inr (.inl ?_), hne _, fun c hc => isDigit_of_mem_toDigits hc⟩
    change ("-" ++ Nat.repr (m + 1)).toList = _
    rw [String.toList_append, Nat.toList_repr]
    rfl

theorem isHexDigit_hexDigit {n : ℕ} (h : n < 16) : isHexDigit (hexDigit n) = true := by
  interval_cases n <;> rfl

theorem isHyphenatedUuid_toText (u : Uuid) : IsHyphenatedUuid u.toText := by
  refine ⟨u.digits.take 8, (u.digits.drop 8).take 4, (u.digits.drop 12).take 4,
    (u.digits.drop 16).take 4, u.digits.drop 20, ?_, ?_, ?_⟩
  · simp [Uuid.toText]
  · simp [Uuid.digits]
  · intro c hc
    have hm : c ∈ u.digits := by
      simp only [List.mem_append] at hc
      rcases hc with (((hc | hc) | hc) | hc) | hc
      · exact List.mem_of_mem_take hc
      · exact List.mem_of_mem_drop (List.mem_of_mem_take hc)
      · exact List.mem_of_mem_drop (List.mem_of_mem_take hc)
      · exact List.mem_of_mem_drop (List.mem_of_mem_take hc)
      · exact List.mem_of_mem_drop hc
    obtain ⟨i, -, rfl⟩ := List.mem_map.mp hm
    exact isHexDigit_hexDigit (Nat.mod_lt _ (by decide))

/-- What `deliver` signs for a configured destination is admissible. -/
theorem admissible_of_deliver {d : DestinationConfig} (hd : d.validate parseUrl = .ok ())
    (now : Time) (deliveryId eventId : Uuid) {attempt : ℤ} (ha : 1 ≤ attempt) (body : Bytes) :
    SignedFields.Admissible parseUrl ⟨toString (unixTimestamp now), deliveryId.toText,
      eventId.toText, d.name, attempt, body⟩ :=
  ⟨isDecimal_toString _, isHyphenatedUuid_toText _, isHyphenatedUuid_toText _, ⟨d, rfl, hd⟩, ha⟩

theorem attempt_dotFree {n : ℤ} (h : 0 ≤ n) : dot ∉ asBytes (toString n) := by
  apply not_mem_asBytes (c := '.') (by decide) (by decide)
  rw [toList_toString_of_nonneg h]
  intro hm
  exact absurd (Nat.isDigit_of_mem_toDigits (by decide) (by decide) hm) (by decide)

theorem toString_inj_of_nonneg {m n : ℤ} (hm : 0 ≤ m) (hn : 0 ≤ n)
    (h : toString m = toString n) : m = n := by
  have hd := congrArg String.toList h
  rw [toList_toString_of_nonneg hm, toList_toString_of_nonneg hn] at hd
  have hv := congrArg (fun l => Nat.ofDigitChars 10 l 0) hd
  simp only [Nat.ofDigitChars_ten_toDigits] at hv
  omega

theorem toList_toString_of_neg {n : ℤ} (h : n < 0) :
    (toString n).toList = '-' :: (toString (-n)).toList := by
  rw [toList_toString_of_nonneg (n := -n) (by omega), Int.toString_eq_repr, Int.repr_eq_if,
    if_neg (by omega), String.toList_append, Nat.toList_repr]
  rfl

theorem toString_ne_of_neg {m n : ℤ} (hm : 0 ≤ m) (hn : n < 0) : toString m ≠ toString n := by
  intro h
  have hsign : '-' ∈ (toString m).toList := by
    rw [h, toList_toString_of_neg hn]
    exact List.mem_cons_self
  rw [toList_toString_of_nonneg hm] at hsign
  exact absurd (isDigit_of_mem_toDigits hsign) (by decide)

theorem toString_int_inj {m n : ℤ} (h : toString m = toString n) : m = n := by
  rcases le_or_gt 0 m with hm | hm <;> rcases le_or_gt 0 n with hn | hn
  · exact toString_inj_of_nonneg hm hn h
  · exact absurd h (toString_ne_of_neg hm hn)
  · exact absurd h.symm (toString_ne_of_neg hn hm)
  · have hd := congrArg String.toList h
    rw [toList_toString_of_neg hm, toList_toString_of_neg hn, List.cons.injEq] at hd
    have := toString_inj_of_nonneg (m := -m) (n := -n) (by omega) (by omega)
      (String.toList_injective hd.2)
    omega

/-- The name of `g` is that of `f`, continued by a dot and the attempt of `f`, and either nothing
or a dot and more; the body of `f` starts with what the name of `g` has left over. -/
def Shadows (f g : SignedFields) : Prop :=
  Swallows dot (asBytes f.destination) (asBytes (toString f.attempt)) f.body
    (asBytes g.destination) (asBytes (toString g.attempt)) g.body

/-- Two deliveries have the same signed content exactly when they are the same delivery, or agree
up to their names and one of the names shadows the other one. -/
theorem content_eq_iff (parseUrl : String → Except String String) {f g : SignedFields}
    (hf : f.Admissible parseUrl) (hg : g.Admissible parseUrl) :
    f.content = g.content ↔ f = g ∨
      f.timestamp = g.timestamp ∧ f.deliveryId = g.deliveryId ∧ f.eventId = g.eventId ∧
        (Shadows f g ∨ Shadows g f) := by
  have hfa : 0 ≤ f.attempt := by
    have := hf.attempt
    omega
  have hga : 0 ≤ g.attempt := by
    have := hg.attempt
    omega
  have hjoin := @joined_eq_iff dot (asBytes f.destination) (asBytes (toString f.attempt)) f.body
    (asBytes g.destination) (asBytes (toString g.attempt)) g.body (attempt_dotFree hfa)
    (attempt_dotFree hga)
  constructor
  · intro h
    obtain ⟨ht, h⟩ := field_inj hf.timestamp.dotFree hg.timestamp.dotFree h
    obtain ⟨hd, h⟩ := field_inj hf.deliveryId.dotFree hg.deliveryId.dotFree h
    obtain ⟨he, h⟩ := field_inj hf.eventId.dotFree hg.eventId.dotFree h
    have ht := asBytes_injective ht
    have hd := asBytes_injective hd
    have he := asBytes_injective he
    rcases hjoin.mp h with ⟨hn, ha, hb⟩ | hs
    · have hn := asBytes_injective hn
      have ha := toString_inj_of_nonneg hfa hga (asBytes_injective ha)
      left
      cases f
      cases g
      simp_all
    · exact .inr ⟨ht, hd, he, hs⟩
  · rintro (rfl | ⟨ht, hd, he, hs⟩)
    · rfl
    · have hrest := hjoin.mpr (.inr hs)
      simp only [SignedFields.content, deliveryContent, ht, hd, he, hrest]

def sampleId : String := "00000000-0000-4000-8000-000000000001"

/-- The first attempt for destination `a`, with the JSON number 2.5 as its body. -/
def sampleFields : SignedFields := ⟨"1700000000", sampleId, sampleId, "a", 1, [0x32, 0x2E, 0x35]⟩

/-- The second attempt for destination `a.1`, with the JSON number 5 as its body. -/
def shadowedFields : SignedFields := ⟨"1700000000", sampleId, sampleId, "a.1", 2, [0x35]⟩

def namedDestination (name : String) : DestinationConfig :=
  ⟨name, "https://example.com", [], [], [], true⟩

theorem sampleId_isHyphenatedUuid : IsHyphenatedUuid sampleId :=
  ⟨"00000000".toList, "0000".toList, "4000".toList, "8000".toList, "000000000001".toList, rfl, rfl,
    List.all_eq_true.mp (by decide)⟩

theorem sampleFields_admissible : sampleFields.Admissible fun _ => .ok "https" :=
  ⟨⟨_, .inl rfl, by decide, List.all_eq_true.mp (by decide)⟩, sampleId_isHyphenatedUuid,
    sampleId_isHyphenatedUuid, ⟨namedDestination "a", rfl, rfl⟩, by decide⟩

theorem shadowedFields_admissible : shadowedFields.Admissible fun _ => .ok "https" :=
  ⟨⟨_, .inl rfl, by decide, List.all_eq_true.mp (by decide)⟩, sampleId_isHyphenatedUuid,
    sampleId_isHyphenatedUuid, ⟨namedDestination "a.1", rfl, rfl⟩, by decide⟩

theorem content_not_injective : ¬ ∀ f g : SignedFields,
    f.Admissible (fun _ => .ok "https") → g.Admissible (fun _ => .ok "https") →
      f.content = g.content → f = g := by
  intro hall
  have heq := hall sampleFields shadowedFields sampleFields_admissible shadowedFields_admissible
    (by decide)
  have hattempt := congrArg SignedFields.attempt heq
  exact absurd hattempt (by decide)

theorem content_eq_iff_shadowed : sampleFields.content = shadowedFields.content ↔
    sampleFields = shadowedFields ∨
      sampleFields.timestamp = shadowedFields.timestamp ∧
      sampleFields.deliveryId = shadowedFields.deliveryId ∧
      sampleFields.eventId = shadowedFields.eventId ∧
        (Shadows sampleFields shadowedFields ∨ Shadows shadowedFields sampleFields) :=
  content_eq_iff _ sampleFields_admissible shadowedFields_admissible

end ResendRouter.Signatures
