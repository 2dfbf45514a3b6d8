import Mathlib.Data.List.Basic
import Mathlib.Tactic.IntervalCases

/-! # Byte strings, UTF-8 and separators

A text is sent and signed as its UTF-8 bytes. An ASCII byte occurs in the
encoding of a text only where the text has that character, so splitting a byte
string at an ASCII separator is splitting the text.
-/

namespace ResendRouter.Foundation

abbrev Bytes := List UInt8

/-- The UTF-8 bytes of a text. -/
def asBytes (s : String) : Bytes := s.toList.flatMap String.utf8EncodeChar

@[simp] theorem asBytes_append (s t : String) : asBytes (s ++ t) = asBytes s ++ asBytes t := by
  simp [asBytes]

theorem asBytes_toByteArray (s : String) : (asBytes s).toByteArray = s.toByteArray := by
  conv_rhs => rw [← String.ofList_toList (s := s), String.toByteArray_ofList]
  rfl

theorem asBytes_injective : Function.Injective asBytes := by
  intro s t h
  rw [← String.toByteArray_inj, ← asBytes_toByteArray, ← asBytes_toByteArray, h]

theorem utf8EncodeChar_of_ge {c : Char} (hc : 128 ≤ c.toNat) :
    ∀ b ∈ String.utf8EncodeChar c, 128 ≤ b.toNat := by
  have hv : ¬ c.val.toNat ≤ 0x7f := by
    change 128 ≤ c.val.toNat at hc
    omega
  unfold String.utf8EncodeChar
  simp only [hv, if_false]
  split_ifs <;>
    simp only [List.mem_cons, List.not_mem_nil, or_false, forall_eq_or_imp, forall_eq,
      UInt8.toNat_ofNat'] <;>
    omega

theorem utf8EncodeChar_of_lt {c : Char} (hc : c.toNat < 128) :
    String.utf8EncodeChar c = [UInt8.ofNat c.toNat] := by
  have hv : c.val.toNat ≤ 0x7f := Nat.lt_succ_iff.mp hc
  unfold String.utf8EncodeChar
  simp only [hv, if_true]
  rfl

theorem toNat_mem_asBytes {s : String} {b : UInt8} (hb : b.toNat < 128) (h : b ∈ asBytes s) :
    ∃ c ∈ s.toList, c.toNat = b.toNat := by
  obtain ⟨c, hc, hbc⟩ := List.mem_flatMap.mp h
  refine ⟨c, hc, ?_⟩
  by_cases ha : c.toNat < 128
  · rw [utf8EncodeChar_of_lt ha, List.mem_singleton] at hbc
    subst hbc
    simp only [UInt8.toNat_ofNat']
    omega
  · have := utf8EncodeChar_of_ge (Nat.le_of_not_lt ha) b hbc
    omega

/-- The first field of a joined byte string is determined when it is free of the separator. -/
theorem field_inj {d : UInt8} {a b x y : Bytes} (ha : d ∉ a) (hb : d ∉ b)
    (h : a ++ d :: x = b ++ d :: y) : a = b ∧ x = y := by
  induction a generalizing b with
  | nil =>
    cases b with
    | nil => exact ⟨rfl, List.cons.inj h |>.2⟩
    | cons e b => exact absurd (List.cons.inj h).1 (fun he => hb (he ▸ List.mem_cons_self))
  | cons e a ih =>
    cases b with
    | nil => exact absurd (List.cons.inj h).1 (fun he => ha (he ▸ List.mem_cons_self))
    | cons e' b =>
      obtain ⟨rfl, hr⟩ := List.cons.inj h
      obtain ⟨rfl, hx⟩ := ih (List.not_mem_of_not_mem_cons ha) (List.not_mem_of_not_mem_cons hb) hr
      exact ⟨rfl, hx⟩

/-- Either a field is free of the separator, or it splits at its first occurrence. -/
theorem field_split (d : UInt8) (a : Bytes) :
    d ∉ a ∨ ∃ x y, a = x ++ d :: y ∧ d ∉ x := by
  by_cases h : d ∈ a
  · obtain ⟨x, y, ha, hx⟩ := List.eq_append_cons_of_mem h
    exact .inr ⟨x, y, ha, hx⟩
  · exact .inl h

/-- An ASCII character that a text does not have is no byte of its encoding. -/
theorem not_mem_asBytes {s : String} {c : Char} {b : UInt8} (hb : b.toNat < 128)
    (hcb : c.toNat = b.toNat) (h : c ∉ s.toList) : b ∉ asBytes s := by
  intro hm
  obtain ⟨c', hc', he⟩ := toNat_mem_asBytes hb hm
  have hcc : c' = c := Char.toNat_inj.mp (he.trans hcb.symm)
  exact h (hcc ▸ hc')

/-- The field `a'` contains the field `a`, the field `x` after it, and nothing or more. -/
inductive Swallows (d : UInt8) (a x y a' x' y' : Bytes) : Prop where
  | whole (ha : a' = a ++ d :: x) (hy : y = x' ++ d :: y')
  | further (m : Bytes) (ha : a' = a ++ d :: (x ++ d :: m)) (hy : y = m ++ d :: (x' ++ d :: y'))

theorem Swallows.joined {d : UInt8} {a x y a' x' y' : Bytes} (h : Swallows d a x y a' x' y') :
    a ++ d :: (x ++ d :: y) = a' ++ d :: (x' ++ d :: y') := by
  cases h with
  | whole ha hy => simp [ha, hy]
  | further m ha hy => simp [ha, hy]

/-- An unrestricted field followed by a field without separator: two such byte strings are equal
when all fields are, or when one of the first fields swallows the second field of the other. -/
theorem joined_eq_iff {d : UInt8} {a x y a' x' y' : Bytes} (hx : d ∉ x) (hx' : d ∉ x') :
    a ++ d :: (x ++ d :: y) = a' ++ d :: (x' ++ d :: y') ↔
      a = a' ∧ x = x' ∧ y = y' ∨ Swallows d a x y a' x' y' ∨ Swallows d a' x' y' a x y := by
  have hlonger : ∀ {a x y a' x' y' c : Bytes}, d ∉ x → d ∉ x' → a' = a ++ c →
      d :: (x ++ d :: y) = c ++ d :: (x' ++ d :: y') →
      a = a' ∧ x = x' ∧ y = y' ∨ Swallows d a x y a' x' y' := by
    intro a x y a' x' y' c hx hx' ha h
    cases c with
    | nil =>
      obtain ⟨hxx, hyy⟩ := field_inj hx hx' (List.cons.inj h).2
      exact .inl ⟨by rw [ha, List.append_nil], hxx, hyy⟩
    | cons e c =>
      obtain rfl : d = e := (List.cons.inj h).1
      have hrest : x ++ d :: y = c ++ d :: (x' ++ d :: y') := (List.cons.inj h).2
      rcases field_split d c with hc | ⟨u, v, rfl, hu⟩
      · obtain ⟨rfl, hy⟩ := field_inj hx hc hrest
        exact .inr (.whole ha hy)
      · rw [List.append_assoc, List.cons_append] at hrest
        obtain ⟨rfl, hy⟩ := field_inj hx hu hrest
        exact .inr (.further v ha hy)
  constructor
  · intro h
    rcases List.append_eq_append_iff.mp h with ⟨c, ha, hc⟩ | ⟨c, ha, hc⟩
    · rcases hlonger hx hx' ha hc with heq | hs
      · exact .inl heq
      · exact .inr (.inl hs)
    · rcases hlonger hx' hx ha hc with ⟨h1, h2, h3⟩ | hs
      · exact .inl ⟨h1.symm, h2.symm, h3.symm⟩
      · exact .inr (.inr hs)
  · rintro (⟨rfl, rfl, rfl⟩ | hs | hs)
    · rfl
    · exact hs.joined
    · exact hs.joined.symm

end ResendRouter.Foundation
