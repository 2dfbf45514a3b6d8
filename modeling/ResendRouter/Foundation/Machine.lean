import Mathlib.Data.Int.Basic

/-! # Two's complement values inside the integers

Machine integers are unbounded integers, and every operation that can leave
the machine range goes through an explicit wrapping function.
-/

namespace ResendRouter.Foundation

def i32Max : ℤ := 2147483647

def i64Max : ℤ := 9223372036854775807

/-- The value of the low 32 bits read as a signed number: `as i32`, and `+` on `i32`. -/
def wrapI32 (n : ℤ) : ℤ := (n + 2147483648) % 4294967296 - 2147483648

/-- The value of the low 64 bits read as a signed number. -/
def wrapI64 (n : ℤ) : ℤ := (n + 9223372036854775808) % 18446744073709551616 - 9223372036854775808

/-- The sum of two `i64`; `none` is the overflow. -/
def addI64 (a b : ℤ) : Option ℤ :=
  if -9223372036854775808 ≤ a + b ∧ a + b ≤ i64Max then some (a + b) else none

theorem wrapI32_le (n : ℤ) : wrapI32 n ≤ i32Max := by
  unfold wrapI32 i32Max
  omega

theorem wrapI32_of_mem {n : ℤ} (h0 : -2147483648 ≤ n) (h1 : n ≤ i32Max) : wrapI32 n = n := by
  unfold wrapI32
  unfold i32Max at h1
  omega

/-- Past the largest value the sum becomes negative, so no positive value is reached by overflow. -/
theorem wrapI32_succ_pos_iff {n : ℤ} (h0 : 0 ≤ n) (h1 : n ≤ i32Max) :
    0 < wrapI32 (n + 1) ↔ n < i32Max := by
  unfold wrapI32 i32Max at *
  omega

theorem wrapI32_succ {n : ℤ} (h0 : 0 ≤ n) (h1 : n < i32Max) : wrapI32 (n + 1) = n + 1 := by
  unfold wrapI32
  unfold i32Max at h1
  omega

theorem addI64_eq_none {a b : ℤ} (h : i64Max < a + b) : addI64 a b = none := by
  rw [addI64, if_neg]
  exact fun hc => absurd h (Int.not_lt.mpr hc.2)

theorem addI64_eq_some {a b : ℤ} (h0 : -9223372036854775808 ≤ a + b) (h1 : a + b ≤ i64Max) :
    addI64 a b = some (a + b) := by
  rw [addI64, if_pos ⟨h0, h1⟩]

theorem wrapI64_of_mem {n : ℤ} (h0 : -9223372036854775808 ≤ n) (h1 : n ≤ i64Max) :
    wrapI64 n = n := by
  unfold wrapI64
  unfold i64Max at h1
  omega

theorem wrapI64_ge (n : ℤ) : -9223372036854775808 ≤ wrapI64 n := by
  unfold wrapI64
  omega

theorem wrapI64_of_gt {n : ℤ} (h : i64Max < n) (hn : n < 18446744073709551616) :
    wrapI64 n = n - 18446744073709551616 := by
  unfold wrapI64
  unfold i64Max at h
  omega

end ResendRouter.Foundation
