import ResendRouter.Foundation.Text
import Mathlib.Data.List.TakeWhile

/-! # Trimming lists in layers

Each layer drops the elements of one kind from an end of a list. A core without
elements of any kind stops all of them, and what is dropped around it is a
sequence of blocks of these kinds.
-/

namespace ResendRouter.Foundation.Trim

variable {α : Type*} {p q : α → Bool} {ps : List (α → Bool)} {l r s t core : List α} {a : α}

def both (p : α → Bool) (l : List α) : List α := (l.dropWhile p).rdropWhile p

theorem dropWhile_stop (ha : p a = false) :
    (l ++ a :: r).dropWhile p = l.dropWhile p ++ a :: r := by
  have hstop : ¬ p a = true := by
    rw [ha]
    exact Bool.false_ne_true
  rw [List.dropWhile_append]
  split_ifs with hl
  · rw [List.isEmpty_iff.mp hl, List.dropWhile_cons_of_neg hstop, List.nil_append]
  · rfl

theorem rdropWhile_stop (ha : p a = false) :
    (l ++ a :: r).rdropWhile p = l ++ a :: r.rdropWhile p := by
  have hrev : (l ++ a :: r).reverse = r.reverse ++ a :: l.reverse := by simp
  rw [List.rdropWhile, hrev, dropWhile_stop ha, List.rdropWhile]
  simp

theorem rdropWhile_append_of_pos (hr : ∀ b ∈ r, p b = true) :
    (l ++ r).rdropWhile p = l.rdropWhile p := by
  have hrev : ∀ b ∈ r.reverse, p b = true := by simpa using hr
  rw [List.rdropWhile, List.reverse_append, List.dropWhile_append_of_pos hrev, List.rdropWhile]

theorem both_spec (p : α → Bool) (l : List α) : ∃ left right, l = left ++ (both p l ++ right) ∧
    (∀ b ∈ left, p b = true) ∧ ∀ b ∈ right, p b = true := by
  refine ⟨l.takeWhile p, (l.dropWhile p).rtakeWhile p, ?_, ?_, ?_⟩
  · rw [both, List.rdropWhile_append_rtakeWhile, List.takeWhile_append_dropWhile]
  · intro b hb
    exact List.mem_takeWhile_imp hb
  · intro b hb
    exact List.mem_rtakeWhile_imp hb

theorem rdropWhile_core (hne : core ≠ []) (hcore : ∀ b ∈ core, p b = false) :
    (l ++ (core ++ t)).rdropWhile p = l ++ (core ++ t.rdropWhile p) := by
  have hlast := hcore _ (List.getLast_mem hne)
  have hsplit : ∀ t, l ++ (core ++ t) = (l ++ core.dropLast) ++ core.getLast hne :: t := by
    intro t
    conv_lhs => rw [← List.dropLast_append_getLast hne]
    simp
  rw [hsplit, hsplit, rdropWhile_stop hlast]

theorem both_core (hne : core ≠ []) (hcore : ∀ b ∈ core, p b = false) :
    both p (l ++ (core ++ t)) = l.dropWhile p ++ (core ++ t.rdropWhile p) := by
  have hleft : (l ++ (core ++ t)).dropWhile p = l.dropWhile p ++ (core ++ t) := by
    cases core with
    | nil => exact absurd rfl hne
    | cons b core => exact dropWhile_stop (hcore b List.mem_cons_self)
  rw [both, hleft]
  exact rdropWhile_core hne hcore

theorem rdropWhile_cons (q : α → Bool) (a : α) (l : List α) : (a :: l).rdropWhile q =
    if l.rdropWhile q = [] then [a].rdropWhile q else a :: l.rdropWhile q := by
  have hempty : l.rdropWhile q = [] ↔ (l.reverse.dropWhile q).isEmpty = true := by
    rw [List.rdropWhile, List.reverse_eq_nil_iff, List.isEmpty_iff]
  rw [List.rdropWhile, List.reverse_cons, List.dropWhile_append]
  by_cases hl : (l.reverse.dropWhile q).isEmpty = true
  · rw [if_pos hl, if_pos (hempty.mpr hl)]
    rfl
  · rw [if_neg hl, if_neg (hl ∘ hempty.mp), List.reverse_append]
    rfl

/-- The two ends can be trimmed in either order. -/
theorem rdropWhile_dropWhile (p q : α → Bool) (l : List α) :
    (l.dropWhile p).rdropWhile q = (l.rdropWhile q).dropWhile p := by
  induction l with
  | nil => rfl
  | cons a l ih =>
    by_cases hp : p a = true
    · rw [List.dropWhile_cons_of_pos hp, ih, rdropWhile_cons]
      by_cases hl : l.rdropWhile q = []
      · rw [if_pos hl, hl, List.rdropWhile_singleton]
        split_ifs <;> simp [hp]
      · rw [if_neg hl, List.dropWhile_cons_of_pos hp]
    · rw [List.dropWhile_cons_of_neg hp]
      rcases List.prefix_cons_iff.mp (List.rdropWhile_prefix q (a :: l)) with hnil | ⟨t, ht, -⟩
      · rw [hnil, List.dropWhile_nil]
      · rw [ht, List.dropWhile_cons_of_neg hp]

theorem getLast?_rdropWhile (h : a ∈ (l.rdropWhile p).getLast?) : p a = false := by
  have hne : l.rdropWhile p ≠ [] := by
    intro hnil
    rw [hnil] at h
    cases h
  rw [Option.mem_def, List.getLast?_eq_some_getLast hne, Option.some.injEq] at h
  rw [← h]
  exact Bool.eq_false_iff.mpr (List.rdropWhile_last_not p l hne)

theorem head?_dropWhile (h : a ∈ (l.dropWhile p).head?) : p a = false := by
  have hhead := List.head?_dropWhile_not p l
  rw [Option.mem_def] at h
  rw [h] at hhead
  exact hhead

theorem dropWhile_eq_self : l.dropWhile p = l ↔ ∀ a ∈ l.head?, p a = false := by
  constructor
  · intro h a ha
    rw [← h] at ha
    exact head?_dropWhile ha
  · intro h
    cases l with
    | nil => rfl
    | cons a l =>
      apply List.dropWhile_cons_of_neg
      simp [h a rfl]

theorem rdropWhile_eq_self : l.rdropWhile p = l ↔ ∀ a ∈ l.getLast?, p a = false := by
  constructor
  · intro h a ha
    rw [← h] at ha
    exact getLast?_rdropWhile ha
  · intro h
    rw [List.rdropWhile_eq_self_iff]
    intro hl
    simp [h _ (List.getLast?_eq_some_getLast hl)]

theorem both_eq_self : both p l = l ↔
    (∀ a ∈ l.head?, p a = false) ∧ ∀ a ∈ l.getLast?, p a = false := by
  constructor
  · intro h
    refine ⟨fun a ha => ?_, fun a ha => ?_⟩
    · rw [← h, both, rdropWhile_dropWhile] at ha
      exact head?_dropWhile ha
    · rw [← h, both] at ha
      exact getLast?_rdropWhile ha
  · rintro ⟨hhead, hlast⟩
    rw [both, dropWhile_eq_self.mpr hhead, rdropWhile_eq_self.mpr hlast]

theorem both_of_none (h : ∀ b ∈ l, p b = false) : both p l = l :=
  both_eq_self.mpr ⟨fun b hb => h b (List.mem_of_head? hb),
    fun b hb => h b (List.mem_of_getLast? hb)⟩

theorem both_sublist (p : α → Bool) (l : List α) : (both p l).Sublist l :=
  (List.rdropWhile_prefix p _).sublist.trans (List.dropWhile_suffix p).sublist

theorem getLast?_dropWhile (h : l.dropWhile p ≠ []) : (l.dropWhile p).getLast? = l.getLast? := by
  conv_rhs => rw [← List.takeWhile_append_dropWhile (p := p) (l := l)]
  rw [List.getLast?_append_of_ne_nil _ h]

/-- Some element of the outer kind stands behind everything but a block of the inner kind. -/
def Exposed (outer inner : α → Bool) (l : List α) : Prop :=
  ∃ front a block rest, l = front ++ (a :: block ++ rest) ∧ outer a = true ∧ block ≠ [] ∧
    (∀ b ∈ block, inner b = true) ∧ ∀ b ∈ rest, outer b = true

/-- Trimming the inner kind leaves an element of the outer kind at the end exactly when such an
element was exposed. -/
theorem exposed_iff (hpq : ∀ a, q a = true → p a = false) :
    (∃ a ∈ ((l.rdropWhile p).rdropWhile q).getLast?, p a = true) ↔ Exposed p q l := by
  constructor
  · rintro ⟨a, hlast, ha⟩
    obtain ⟨front, hfront⟩ := List.getLast?_eq_some_iff.mp hlast
    refine ⟨front, a, (l.rdropWhile p).rtakeWhile q, l.rtakeWhile p, ?_, ha, ?_, ?_, ?_⟩
    · conv_lhs => rw [← List.rdropWhile_append_rtakeWhile (p := p) (l := l),
        ← List.rdropWhile_append_rtakeWhile (p := q) (l := l.rdropWhile p), hfront]
      simp
    · intro hnone
      have hsame := List.rdropWhile_append_rtakeWhile (p := q) (l := l.rdropWhile p)
      rw [hnone, List.append_nil] at hsame
      rw [hsame] at hlast
      rw [getLast?_rdropWhile hlast] at ha
      cases ha
    · exact fun b hb => List.mem_rtakeWhile_imp hb
    · exact fun b hb => List.mem_rtakeWhile_imp hb
  · rintro ⟨front, a, block, rest, rfl, ha, hne, hblock, hrest⟩
    have haq : q a = false := by
      by_contra hq
      rw [hpq a (Bool.eq_true_of_not_eq_false hq)] at ha
      cases ha
    have houter : (front ++ (a :: block ++ rest)).rdropWhile p = front ++ a :: block := by
      have hcore := rdropWhile_core (l := front ++ [a]) (t := rest) hne
        fun b hb => hpq b (hblock b hb)
      rw [List.rdropWhile_eq_nil_iff.mpr hrest] at hcore
      simpa using hcore
    have hinner : (front ++ a :: block).rdropWhile q = front ++ [a] := by
      rw [rdropWhile_stop haq, List.rdropWhile_eq_nil_iff.mpr hblock]
    refine ⟨a, ?_, ha⟩
    rw [houter, hinner]
    simp

/-- Blocks of the given kinds, listed from the right end of the list. -/
def Layered : List (α → Bool) → List α → Prop
  | [], t => t = []
  | p :: ps, t => ∃ inner outer, t = inner ++ outer ∧ Layered ps inner ∧ ∀ b ∈ outer, p b = true

def strip : List (α → Bool) → List α → List α
  | [], t => t
  | p :: ps, t => strip ps (t.rdropWhile p)

def trimAll : List (α → Bool) → List α → List α
  | [], t => t
  | p :: ps, t => trimAll ps (both p t)

theorem Layered.nil (ps : List (α → Bool)) : Layered ps [] := by
  induction ps with
  | nil => rfl
  | cons p ps ih => exact ⟨[], [], rfl, ih, by simp⟩

theorem Layered.of_isPrefix (h : Layered ps t) (hs : s <+: t) : Layered ps s := by
  induction ps generalizing s t with
  | nil =>
    rw [Layered] at h
    rw [h, List.prefix_nil] at hs
    exact hs
  | cons p ps ih =>
    obtain ⟨inner, outer, rfl, hin, hout⟩ := h
    rcases hs with ⟨rest, hrest⟩
    rcases List.append_eq_append_iff.mp hrest with ⟨c, hinner, -⟩ | ⟨c, hs, houter⟩
    · exact ⟨s, [], by simp, ih hin ⟨c, hinner.symm⟩, by simp⟩
    · refine ⟨inner, c, hs, hin, fun b hb => hout b ?_⟩
      rw [houter]
      exact List.mem_append_left _ hb

/-- The first layer removes its block, and possibly more. -/
theorem Layered.rdropWhile (h : Layered (p :: ps) t) : Layered ps (t.rdropWhile p) := by
  obtain ⟨inner, outer, rfl, hin, hout⟩ := h
  rw [rdropWhile_append_of_pos hout]
  exact hin.of_isPrefix (List.rdropWhile_prefix _ _)

theorem Layered.strip_eq_nil (h : Layered ps t) : strip ps t = [] := by
  induction ps generalizing t with
  | nil => exact h
  | cons p ps ih => exact ih h.rdropWhile

theorem Layered.append {qs : List (α → Bool)} (h : Layered qs s) (ht : Layered ps t) :
    Layered (ps ++ qs) (s ++ t) := by
  induction ps generalizing t with
  | nil =>
    rw [Layered] at ht
    rw [ht, List.append_nil]
    exact h
  | cons p ps ih =>
    obtain ⟨inner, outer, rfl, hin, hout⟩ := ht
    exact ⟨s ++ inner, outer, (List.append_assoc _ _ _).symm, ih hin, hout⟩

theorem strip_isPrefix (ps : List (α → Bool)) (t : List α) : strip ps t <+: t := by
  induction ps generalizing t with
  | nil => exact List.prefix_refl t
  | cons p ps ih => exact (ih _).trans (List.rdropWhile_prefix _ _)

theorem strip_append (ps qs : List (α → Bool)) (t : List α) :
    strip (ps ++ qs) t = strip qs (strip ps t) := by
  induction ps generalizing t with
  | nil => rfl
  | cons p ps ih => exact ih _

theorem strip_core (hne : core ≠ []) (hcore : ∀ p ∈ ps, ∀ b ∈ core, p b = false) :
    strip ps (l ++ (core ++ t)) = l ++ (core ++ strip ps t) := by
  induction ps generalizing t with
  | nil => rfl
  | cons p ps ih =>
    rw [List.forall_mem_cons] at hcore
    rw [strip, rdropWhile_core hne hcore.1, ih hcore.2, strip]

/-- Around a core the two ends are trimmed apart from each other. -/
theorem trimAll_core (hne : core ≠ []) (hcore : ∀ p ∈ ps, ∀ b ∈ core, p b = false) :
    trimAll ps (l ++ (core ++ t)) = (strip ps l.reverse).reverse ++ (core ++ strip ps t) := by
  induction ps generalizing l t with
  | nil => simp [trimAll, strip]
  | cons p ps ih =>
    rw [List.forall_mem_cons] at hcore
    rw [trimAll, both_core hne hcore.1, ih hcore.2, strip, strip, List.rdropWhile_reverse]

theorem trimAll_spec (ps : List (α → Bool)) (t : List α) : ∃ left right,
    t = left ++ (trimAll ps t ++ right) ∧ Layered ps left.reverse ∧ Layered ps right := by
  induction ps generalizing t with
  | nil => exact ⟨[], [], by simp [trimAll], rfl, rfl⟩
  | cons p ps ih =>
    obtain ⟨outerLeft, outerRight, ht, hleft, hright⟩ := both_spec p t
    obtain ⟨left, right, hb, hl, hr⟩ := ih (both p t)
    refine ⟨outerLeft ++ left, right ++ outerRight, ?_, ?_, ⟨right, outerRight, rfl, hr, hright⟩⟩
    · conv_lhs => rw [ht, hb]
      simp [trimAll]
    · refine ⟨left.reverse, outerLeft.reverse, List.reverse_append, hl, ?_⟩
      simpa using hleft

theorem mem_of_mem_trimAll (h : a ∈ trimAll ps t) : a ∈ t := by
  obtain ⟨left, right, ht, -⟩ := trimAll_spec ps t
  rw [ht]
  exact List.mem_append_right _ (List.mem_append_left _ h)

@[simp] theorem toList_trim (s : String) : (trim s).toList = both isWhitespace s.toList := by
  simp [trim, trimEndWith, trimStartWith, both]

@[simp] theorem toList_trimMatches (c : Char) (s : String) :
    (trimMatches c s).toList = both (· = c) s.toList := by
  simp [trimMatches, trimEndMatches, trimStartMatches, trimEndWith, trimStartWith, both]

@[simp] theorem toList_trimStartMatches (c : Char) (s : String) :
    (trimStartMatches c s).toList = s.toList.dropWhile (· = c) := by
  simp [trimStartMatches, trimStartWith]

@[simp] theorem toList_trimEndMatches (c : Char) (s : String) :
    (trimEndMatches c s).toList = s.toList.rdropWhile (· = c) := by
  simp [trimEndMatches, trimEndWith]

@[simp] theorem toList_toAsciiLowercase (s : String) :
    (toAsciiLowercase s).toList = s.toList.map Char.toLower := by
  simp [toAsciiLowercase]

theorem isBlank_eq_true {s : String} : isBlank s = true ↔ s.toList = [] := by
  simp [isBlank]

theorem dropWhile_ne_of_not_mem {c : Char} {before after : List Char} (h : c ∉ before) :
    (before ++ c :: after).dropWhile (fun x => decide (x ≠ c)) = c :: after := by
  rw [List.dropWhile_append_of_pos, List.dropWhile_cons_of_neg]
  · simp
  · intro b hb
    have hne : b ≠ c := fun heq => h (heq ▸ hb)
    simp [hne]

theorem takeWhile_ne_of_not_mem {c : Char} {before after : List Char} (h : c ∉ before) :
    (before ++ c :: after).takeWhile (fun x => decide (x ≠ c)) = before := by
  rw [List.takeWhile_append_of_pos, List.takeWhile_cons_of_neg, List.append_nil]
  · simp
  · intro b hb
    have hne : b ≠ c := fun heq => h (heq ▸ hb)
    simp [hne]

theorem splitFirst_eq_none {c : Char} {s : String} : splitFirst c s = none ↔ c ∉ s.toList := by
  constructor
  · intro h hc
    obtain ⟨before, after, hs, hb⟩ := List.eq_append_cons_of_mem hc
    rw [splitFirst, hs, dropWhile_ne_of_not_mem hb] at h
    cases h
  · intro h
    have hnil : s.toList.dropWhile (fun x => decide (x ≠ c)) = [] := by
      rw [List.dropWhile_eq_nil_iff]
      intro b hb
      have hne : b ≠ c := fun heq => h (heq ▸ hb)
      simp [hne]
    rw [splitFirst, hnil]

theorem splitFirst_of_first {c : Char} {s : String} {before after : List Char}
    (hs : s.toList = before ++ c :: after) (h : c ∉ before) :
    splitFirst c s = some (.ofList before, .ofList after) := by
  rw [splitFirst, hs, dropWhile_ne_of_not_mem h, takeWhile_ne_of_not_mem h]

theorem afterLast_eq_some {c : Char} {s rest : String} : afterLast c s = some rest ↔
    ∃ front, s.toList = front ++ c :: rest.toList ∧ c ∉ rest.toList := by
  have hlast : ∀ {front after : List Char}, s.toList = front ++ c :: after → c ∉ after →
      afterLast c s = some (.ofList after) := by
    intro front after hs hafter
    have hrev : (front ++ c :: after).reverse = after.reverse ++ c :: front.reverse := by simp
    have hc : c ∈ s.toList := by
      rw [hs]
      exact List.mem_append_right _ List.mem_cons_self
    have htake := @takeWhile_ne_of_not_mem c after.reverse front.reverse (by simpa using hafter)
    rw [afterLast, if_pos hc, hs, hrev, htake, List.reverse_reverse]
  constructor
  · intro h
    have hc : c ∈ s.toList := by
      by_contra hc
      rw [afterLast, if_neg hc] at h
      cases h
    -- the last occurrence is the first one from the right
    obtain ⟨after, front, hs, hafter⟩ := List.eq_append_cons_of_mem (List.mem_reverse.mpr hc)
    rw [List.reverse_eq_iff] at hs
    have hs' : s.toList = front.reverse ++ c :: after.reverse := by simp [hs]
    rw [hlast hs' (by simpa using hafter), Option.some.injEq] at h
    rw [← h]
    exact ⟨front.reverse, by simpa using hs', by simpa using hafter⟩
  · rintro ⟨front, hs, hrest⟩
    rw [hlast hs hrest, String.ofList_toList]

end ResendRouter.Foundation.Trim
