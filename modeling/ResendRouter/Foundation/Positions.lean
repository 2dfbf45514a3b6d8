import Mathlib.Data.List.Nodup
import Mathlib.Data.List.Basic
import Mathlib.Algebra.GroupWithZero.Nat
import Mathlib.Data.Set.Insert

/-! # Positions in a list

An object that is referred to by its position in a list keeps that position
when the list grows at its end, or when an entry is replaced.
-/

namespace ResendRouter.Foundation
variable {α β : Type*} {l m : List α} {a b x : α} {i k : ℕ}

theorem getElem?_set_some (h : l[i]? = some a) :
    (l.set i b)[k]? = some x ↔ k = i ∧ x = b ∨ k ≠ i ∧ l[k]? = some x := by
  rw [List.getElem?_set]
  by_cases hk : i = k
  · subst hk
    simp [(List.getElem?_eq_some_iff.mp h).1, eq_comm]
  · simp [hk, Ne.symm hk]

theorem getElem?_append_some :
    (l ++ m)[k]? = some x ↔ l[k]? = some x ∨ ∃ n, k = l.length + n ∧ m[n]? = some x := by
  rw [List.getElem?_append]
  split
  case isTrue hk =>
    constructor
    · exact .inl
    · rintro (h | ⟨n, rfl, -⟩)
      · exact h
      · omega
  case isFalse hk =>
    have hnone : l[k]? = none := List.getElem?_eq_none (by omega)
    constructor
    · intro h
      exact .inr ⟨k - l.length, by omega, h⟩
    · rintro (h | ⟨n, rfl, h⟩)
      · rw [hnone] at h
        cases h
      · rwa [Nat.add_sub_cancel_left]

theorem lt_length_of_getElem? (h : l[i]? = some a) : i < l.length :=
  (List.getElem?_eq_some_iff.mp h).1

theorem eq_of_getElem? (h : l[i]? = some a) (h' : l[i]? = some b) : b = a :=
  Option.some.inj (h'.symm.trans h)

theorem getElem?_append_old (h : l[k]? = some x) : (l ++ m)[k]? = some x :=
  getElem?_append_some.mpr (.inl h)

theorem mem_iff_eraseIdx (h : l[i]? = some a) : x ∈ l ↔ x = a ∨ x ∈ l.eraseIdx i := by
  rw [List.mem_iff_getElem?, List.mem_eraseIdx_iff_getElem?]
  constructor
  · rintro ⟨k, hk⟩
    by_cases hki : k = i
    · subst hki
      rw [hk, Option.some.injEq] at h
      exact .inl h
    · exact .inr ⟨k, hki, hk⟩
  · rintro (rfl | ⟨k, -, hk⟩)
    · exact ⟨i, h⟩
    · exact ⟨k, hk⟩

theorem mem_set_iff (h : l[i]? = some a) : x ∈ l.set i b ↔ x = b ∨ x ∈ l.eraseIdx i := by
  rw [List.mem_iff_getElem?, List.mem_eraseIdx_iff_getElem?]
  simp only [getElem?_set_some h]
  constructor
  · rintro ⟨k, ⟨-, hx⟩ | hk⟩
    · exact .inl hx
    · exact .inr ⟨k, hk⟩
  · rintro (hx | ⟨k, hk⟩)
    · exact ⟨i, .inl ⟨rfl, hx⟩⟩
    · exact ⟨k, .inr hk⟩

/-- Entries with pairwise distinct keys have one position for each key. -/
theorem position_eq_of_nodup {f : α → β} (hl : (l.map f).Nodup) (hi : l[i]? = some a)
    (hk : l[k]? = some b) (hf : f a = f b) : i = k := by
  have hlt : i < (l.map f).length := by simpa using lt_length_of_getElem? hi
  apply (List.getElem?_inj hlt hl).mp
  rw [List.getElem?_map, List.getElem?_map, hi, hk, Option.map_some, Option.map_some, hf]

/-- Replacing an entry by one with the same image keeps the images. -/
theorem map_set_of_eq (f : α → β) (h : l[i]? = some a) (hf : f b = f a) :
    (l.set i b).map f = l.map f := by
  apply List.ext_getElem?
  intro k
  rw [List.map_set, hf, List.getElem?_set]
  split
  case isTrue hk =>
    subst hk
    obtain ⟨hlt, ha⟩ := List.getElem?_eq_some_iff.mp h
    simp [hlt, ha]
  case isFalse => rfl

theorem sum_map_set_lt (g : α → ℕ) (h : l[i]? = some a) (hlt : g b < g a) :
    ((l.set i b).map g).sum < (l.map g).sum := by
  induction l generalizing i with
  | nil => simp at h
  | cons c l ih =>
    cases i with
    | zero =>
      obtain rfl : c = a := Option.some.inj h
      rw [List.set_cons_zero, List.map_cons, List.map_cons, List.sum_cons, List.sum_cons]
      exact Nat.add_lt_add_right hlt _
    | succ i =>
      rw [List.set_cons_succ, List.map_cons, List.map_cons, List.sum_cons, List.sum_cons]
      exact Nat.add_lt_add_left (ih h) _

/-- No two positions hold the same value. -/
def Exclusive (f : α → Option β) (l : List α) : Prop :=
  ∀ (i k : ℕ) (a b : α), i ≠ k → l[i]? = some a → l[k]? = some b →
    ∀ y, f a = some y → f b ≠ some y

section Exclusive
variable {f : α → Option β} {y : β}

theorem Exclusive.nil : Exclusive f ([] : List α) := by
  intro i k a b _ h
  simp at h

/-- What an entry holds, no other entry holds. -/
theorem Exclusive.others (h : Exclusive f l) (hi : l[i]? = some a) (hy : f a = some y) :
    ∀ c ∈ l.eraseIdx i, f c ≠ some y := by
  intro c hc
  obtain ⟨k, hk, hc⟩ := List.mem_eraseIdx_iff_getElem?.mp hc
  exact h i k a c (Ne.symm hk) hi hc y hy

theorem Exclusive.set (h : Exclusive f l) (hi : l[i]? = some a)
    (hb : ∀ y, f b = some y → ∀ c ∈ l.eraseIdx i, f c ≠ some y) : Exclusive f (l.set i b) := by
  intro k m c d hkm hc hd y hy
  rcases (getElem?_set_some hi).mp hc with ⟨hk, rfl⟩ | ⟨hk, hc'⟩ <;>
    rcases (getElem?_set_some hi).mp hd with ⟨hm, rfl⟩ | ⟨hm, hd'⟩
  · exact absurd (hk.trans hm.symm) hkm
  · exact hb y hy d (List.mem_eraseIdx_iff_getElem?.mpr ⟨m, hm, hd'⟩)
  · intro hy'
    exact hb y hy' c (List.mem_eraseIdx_iff_getElem?.mpr ⟨k, hk, hc'⟩) hy
  · exact h k m c d hkm hc' hd' y hy

/-- An entry that holds nothing may be added. -/
theorem Exclusive.append (h : Exclusive f l) (hb : f b = none) : Exclusive f (l ++ [b]) := by
  have hold : ∀ {k : ℕ} {c : α} {y : β}, (l ++ [b])[k]? = some c → f c = some y →
      l[k]? = some c := by
    intro k c y hc hy
    rcases getElem?_append_some.mp hc with hc | ⟨n, -, hn⟩
    · exact hc
    · rw [List.mem_singleton.mp (List.mem_of_getElem? hn), hb] at hy
      cases hy
  intro k m c d hkm hc hd y hy hy'
  exact h k m c d hkm (hold hc hy) (hold hd hy') y hy hy'

end Exclusive

/-- Everything that some entry stands in the relation to. -/
def collect (R : α → β → Prop) (l : List α) : Set β := { y | ∃ x ∈ l, R x y }

section Collect
variable {R : α → β → Prop} {y : β}

theorem mem_collect : y ∈ collect R l ↔ ∃ x ∈ l, R x y := Iff.rfl

theorem collect_append : collect R (l ++ m) = collect R l ∪ collect R m := by
  ext y
  simp only [mem_collect, List.mem_append, Set.mem_union, or_and_right, exists_or]

/-- An entry may be replaced by one that contributes the same. -/
theorem collect_set_of_iff (h : l[i]? = some a) (hb : ∀ y, R b y ↔ R a y) :
    collect R (l.set i b) = collect R l := by
  ext y
  simp only [mem_collect, mem_set_iff h, mem_iff_eraseIdx h, or_and_right, exists_or,
    exists_eq_left, hb]

theorem collect_set_insert (h : l[i]? = some a) (hb : ∀ z, R b z ↔ z = y ∨ R a z) :
    collect R (l.set i b) = insert y (collect R l) := by
  ext z
  simp only [mem_collect, Set.mem_insert_iff, mem_set_iff h, mem_iff_eraseIdx h, or_and_right,
    exists_or, exists_eq_left, hb, or_assoc]

end Collect

section Count
variable {p : α → Bool} {n : ℕ}

theorem countP_set_of_eq (h : l[i]? = some a) (hp : p b = p a) :
    (l.set i b).countP p = l.countP p := by
  obtain ⟨hlt, ha⟩ := List.getElem?_eq_some_iff.mp h
  rw [List.countP_set hlt, ha, hp]
  cases hpa : p a with
  | false => rfl
  | true =>
    have hpos : 0 < l.countP p := List.countP_pos_iff.mpr ⟨a, List.mem_of_getElem? h, hpa⟩
    simp only [if_true]
    omega

theorem countP_set_succ (h : l[i]? = some a) (ha : p a = false) (hb : p b = true) :
    (l.set i b).countP p = l.countP p + 1 := by
  obtain ⟨hlt, hla⟩ := List.getElem?_eq_some_iff.mp h
  rw [List.countP_set hlt, hla, ha, hb]
  rfl

theorem countP_take_set_of_eq (h : l[i]? = some a) (hp : p b = p a) :
    ((l.set i b).take n).countP p = (l.take n).countP p := by
  rw [List.take_set]
  by_cases hin : i < n
  · exact countP_set_of_eq (by rw [List.getElem?_take_of_lt hin, h]) hp
  · rw [List.set_eq_of_length_le]
    rw [List.length_take]
    omega

/-- Two initial segments have equally many of the entries exactly when none lies in between. -/
theorem countP_take_eq_iff {k : ℕ} (hkn : k ≤ n) :
    (l.take k).countP p = (l.take n).countP p ↔
      ∀ (m : ℕ) (x : α), k ≤ m → m < n → l[m]? = some x → p x = false := by
  obtain ⟨d, rfl⟩ := Nat.exists_eq_add_of_le hkn
  rw [List.take_add, List.countP_append, Nat.left_eq_add, List.countP_eq_zero]
  constructor
  · intro h m x hkm hmn hx
    refine Bool.eq_false_iff.mpr (h x (List.mem_of_getElem? (i := m - k) ?_))
    rw [List.getElem?_take_of_lt (by omega), List.getElem?_drop, Nat.add_sub_cancel' hkm, hx]
  · intro h x hx
    obtain ⟨m, hm⟩ := List.mem_iff_getElem?.mp hx
    have hmd : m < d := by
      have := lt_length_of_getElem? hm
      rw [List.length_take] at this
      omega
    rw [List.getElem?_take_of_lt hmd, List.getElem?_drop] at hm
    exact Bool.eq_false_iff.mp (h (k + m) x (by omega) (by omega) hm)

end Count

end ResendRouter.Foundation
