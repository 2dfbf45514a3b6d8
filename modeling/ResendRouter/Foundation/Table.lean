import Mathlib.Data.List.Nodup
import Mathlib.Data.List.Perm.Subperm
import Mathlib.Data.List.Basic
import Mathlib.Data.List.Sort

/-! # Tables with a unique key

A table is a list of rows whose keys are pairwise distinct. INSERT fails on a
key that is already taken, UPDATE rewrites the rows that a condition selects
and may not change their keys; so a table with a duplicate key cannot be built.
-/

namespace ResendRouter.Foundation

/-- Rows with pairwise distinct keys, in the order of their insertion. -/
@[ext] structure Table (ρ : Type*) {κ : Type*} (key : ρ → κ) where
  rows : List ρ
  unique : (rows.map key).Nodup

namespace Table
variable {ρ κ : Type*} {key : ρ → κ} {t t' : Table ρ key} {r s : ρ}

instance : Membership ρ (Table ρ key) := ⟨fun t r => r ∈ t.rows⟩

theorem mem_def : r ∈ t ↔ r ∈ t.rows := Iff.rfl

theorem mem_append {rows : List ρ} (h : t'.rows = t.rows ++ rows) : s ∈ t' ↔ s ∈ t ∨ s ∈ rows := by
  rw [mem_def, h, List.mem_append, mem_def]

theorem mem_append_one (h : t'.rows = t.rows ++ [r]) : s ∈ t' ↔ s ∈ t ∨ s = r := by
  rw [mem_append h, List.mem_singleton]

def empty : Table ρ key := ⟨[], List.nodup_nil⟩

@[simp] theorem not_mem_empty : r ∉ (empty : Table ρ key) := List.not_mem_nil

/-- A key names at most one row. -/
theorem eq_of_key_eq (hr : r ∈ t) (hs : s ∈ t) (h : key r = key s) : r = s :=
  List.inj_on_of_nodup_map t.unique hr hs h

variable [DecidableEq κ]

/-- No more rows than keys are selected by their keys. -/
theorem length_filter_contains (t : Table ρ key) (ks : List κ) :
    (t.rows.filter (ks.contains <| key ·)).length ≤ ks.length := by
  rw [← List.length_map key]
  apply List.Subperm.length_le
  apply List.subperm_of_subset ((List.filter_sublist.map key).nodup t.unique)
  intro k hk
  obtain ⟨r, hr, rfl⟩ := List.mem_map.mp hk
  exact List.contains_iff_mem.mp (List.mem_filter.mp hr).2

def find? (t : Table ρ key) (k : κ) : Option ρ := t.rows.find? (fun r => key r = k)

theorem find?_eq_some {k : κ} : t.find? k = some r ↔ r ∈ t ∧ key r = k := by
  constructor
  · intro h
    exact ⟨List.mem_of_find?_eq_some h, by simpa using List.find?_some h⟩
  · rintro ⟨hr, rfl⟩
    cases hf : t.find? (key r) with
    | none => simpa using List.find?_eq_none.mp hf r hr
    | some s =>
      have hk : key s = key r := by simpa using List.find?_some hf
      rw [eq_of_key_eq (List.mem_of_find?_eq_some hf) hr hk]

/-- INSERT: the row is appended unless its key is taken. -/
def insert (t : Table ρ key) (r : ρ) : Option (Table ρ key) :=
  if h : key r ∈ t.rows.map key then none
  else some ⟨t.rows ++ [r], by
    rw [List.map_append, List.nodup_append]
    refine ⟨t.unique, by simp, ?_⟩
    intro a ha b hb
    obtain rfl : b = key r := by simpa using hb
    exact fun hab => h (hab ▸ ha)⟩

theorem insert_eq_none : t.insert r = none ↔ ∃ s ∈ t, key s = key r := by
  unfold insert
  split
  case isTrue h => simpa [mem_def] using h
  case isFalse h => simpa [mem_def] using h

theorem insert_rows (h : t.insert r = some t') : t'.rows = t.rows ++ [r] := by
  unfold insert at h
  split at h
  · cases h
  · cases h; rfl

theorem mem_insert (h : t.insert r = some t') : s ∈ t' ↔ s ∈ t ∨ s = r :=
  mem_append_one (insert_rows h)

theorem key_ne_of_insert (h : t.insert r = some t') (hs : s ∈ t) : key s ≠ key r := by
  intro hk
  rw [insert_eq_none.mpr ⟨s, hs, hk⟩] at h
  cases h

omit [DecidableEq κ] in
/-- UPDATE ... WHERE `p`: the selected rows are rewritten, and keep their keys. -/
def updateWhere (t : Table ρ key) (p : ρ → Bool) (f : ρ → ρ) (hf : ∀ r, key (f r) = key r) :
    Table ρ key where
  rows := t.rows.map (fun r => if p r then f r else r)
  unique := by
    have hk : key ∘ (fun r => if p r then f r else r) = key := by
      funext r
      by_cases hp : p r <;> simp [hp, hf]
    rw [List.map_map, hk]
    exact t.unique

def affected (t : Table ρ key) (p : ρ → Bool) : ℕ := t.rows.countP p

section
omit [DecidableEq κ]
variable {p : ρ → Bool} {f : ρ → ρ} {hf : ∀ r, key (f r) = key r}

theorem mem_updateWhere :
    s ∈ t.updateWhere p f hf ↔ ∃ r ∈ t, s = if p r then f r else r := by
  simp only [mem_def, updateWhere, List.mem_map, eq_comm]

theorem affected_eq_zero : t.affected p = 0 ↔ ∀ r ∈ t, p r = false := by
  simp [affected, mem_def]

theorem updateWhere_of_affected_eq_zero (h : t.affected p = 0) : t.updateWhere p f hf = t := by
  apply Table.ext
  have hid : ∀ r ∈ t.rows, (if p r then f r else r) = r := fun r hr => by
    simp [affected_eq_zero.mp h r hr]
  exact (List.map_congr_left hid).trans (List.map_id' _)

/-- A column that the rewriting keeps is the same list before and after. -/
theorem map_updateWhere {γ : Type*} (g : ρ → γ) (hg : ∀ r, g (f r) = g r) :
    (t.updateWhere p f hf).rows.map g = t.rows.map g := by
  rw [updateWhere, List.map_map]
  apply List.map_congr_left
  intro r _
  by_cases hp : p r <;> simp [hp, hg]

end

end Table

/-- ORDER BY ... LIMIT: where a row is left out, the limit is reached by rows that come no later. -/
theorem rel_of_not_mem_take {ρ : Type*} {r : ρ → ρ → Prop} [DecidableRel r] [Std.Total r]
    [IsTrans ρ r] {l : List ρ} {n : ℕ} {a : ρ} (ha : a ∈ l)
    (hout : a ∉ (l.insertionSort r).take n) :
    ((l.insertionSort r).take n).length = n ∧ ∀ b ∈ (l.insertionSort r).take n, r b a := by
  have hsplit := List.take_append_drop n (l.insertionSort r)
  have hdrop : a ∈ (l.insertionSort r).drop n := by
    have hmem := (List.mem_insertionSort r).mpr ha
    rw [← hsplit] at hmem
    exact (List.mem_append.mp hmem).resolve_left hout
  constructor
  · have hlength := List.length_pos_of_mem hdrop
    rw [List.length_drop] at hlength
    rw [List.length_take]
    omega
  · have hsorted := List.pairwise_insertionSort r l
    rw [← hsplit, List.pairwise_append] at hsorted
    exact fun b hb => hsorted.2.2 b hb a hdrop

end ResendRouter.Foundation
