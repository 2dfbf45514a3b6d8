import Mathlib.Data.List.Basic

/-! # Watch channels

The watch channel of tokio, by its documented behaviour. A sender replaces the
value, and a receiver is told that there is a value that it has not seen. Values
are counted, and a receiver remembers the number of the last one that it has
seen.
-/

namespace ResendRouter.Foundation

structure Watch (α : Type*) where
  value : α
  version : ℕ
  /-- No sender is left. -/
  closed : Bool

namespace Watch
variable {α : Type*} {c : Watch α} {v : α} {seen n : ℕ} {P : α → Prop}

def new (v : α) : Watch α := ⟨v, 0, false⟩

def send (c : Watch α) (v : α) : Watch α := { c with value := v, version := c.version + 1 }

def close (c : Watch α) : Watch α := { c with closed := true }

/-- What a receiver is told that waits for a change: the number of the value, or that no sender is
left; `none` while it has to wait. -/
def changed (c : Watch α) (seen : ℕ) : Option (Except Unit ℕ) :=
  if seen ≠ c.version then some (.ok c.version)
  else if c.closed then some (.error ())
  else none

theorem changed_of_lt (h : seen < c.version) : c.changed seen = some (.ok c.version) := by
  rw [changed, if_pos (Nat.ne_of_lt h)]

theorem changed_eq_ok (h : c.changed seen = some (.ok n)) : n = c.version ∧ seen ≠ c.version := by
  simp only [changed] at h
  split at h
  case isTrue hne =>
    cases h
    exact ⟨rfl, hne⟩
  case isFalse =>
    split at h <;> cases h

theorem changed_eq_error (h : c.changed seen = some (.error ())) : c.closed = true := by
  simp only [changed] at h
  split at h
  case isTrue => cases h
  case isFalse =>
    split at h
    case isTrue hclosed => exact hclosed
    case isFalse => cases h

/-- Every value that was sent has the property; the first one need not. -/
def Sent (P : α → Prop) (c : Watch α) : Prop := c.version ≠ 0 → P c.value

theorem sent_new : Sent P (new v) := fun h => absurd rfl h

theorem Sent.send (hv : P v) : Sent P (c.send v) := fun _ => hv

theorem Sent.close (h : Sent P c) : Sent P c.close := h

theorem Sent.of_changed (h : Sent P c) (hseen : seen ≤ c.version)
    (hc : c.changed seen = some (.ok n)) : P c.value := by
  have hne := (changed_eq_ok hc).2
  apply h
  intro hzero
  rw [hzero] at hseen hne
  exact hne (Nat.le_zero.mp hseen)

end Watch
end ResendRouter.Foundation
