import ResendRouter.Routing.Domains

/-! # When a configured domain is settled

White space is trimmed once, before the leading `@` and the trailing dots are.
What stands behind them comes to an end of the stored domain, which then is not
its own normal form, and no extracted domain is equal to it.
-/

namespace ResendRouter.Routing
open Foundation Trim Program ResendRouter.Configuration

/-- What is kept of an entry, up to the letter case. -/
def entryCore (entry : List Char) : List Char :=
  ((both isWhitespace entry).dropWhile (· = '@')).rdropWhile (· = '.')

theorem normalizeDomain_eq_some {entry domain : String} : normalizeDomain entry = some domain ↔
    domain.toList = (entryCore entry.toList).map Char.toLower ∧ domain.toList ≠ [] := by
  have htext : (toAsciiLowercase (trimEndMatches '.' (trimStartMatches '@' (trim entry)))).toList =
      (entryCore entry.toList).map Char.toLower := by
    rw [toList_toAsciiLowercase, toList_trimEndMatches, toList_trimStartMatches, toList_trim,
      entryCore]
  rw [normalizeDomain]
  generalize toAsciiLowercase (trimEndMatches '.' (trimStartMatches '@' (trim entry))) = text at *
  rw [← htext, String.toList_inj]
  by_cases hblank : isBlank text = true
  · rw [if_pos hblank]
    rw [isBlank_eq_true] at hblank
    simp only [reduceCtorEq, false_iff, not_and, not_not]
    rintro rfl
    exact hblank
  · rw [if_neg hblank, Option.some.injEq]
    rw [isBlank_eq_true] at hblank
    constructor
    · rintro rfl
      exact ⟨rfl, hblank⟩
    · exact fun h => h.1.symm

section
variable {l : List Char} {c : Char}

theorem not_isWhitespace_of_eq {b : Char} (hb : isWhitespace b = false) :
    ∀ c : Char, decide (c = b) = true → isWhitespace c = false := by
  intro c hc
  rw [of_decide_eq_true hc, hb]

theorem entryCore_eq (l : List Char) : entryCore l =
    (((l.rdropWhile isWhitespace).rdropWhile (· = '.')).dropWhile isWhitespace).dropWhile
      (· = '@') := by
  rw [entryCore, both, rdropWhile_dropWhile isWhitespace isWhitespace,
    rdropWhile_dropWhile (fun c => decide (c = '@')), rdropWhile_dropWhile isWhitespace]

theorem reverse_entryCore (l : List Char) : (entryCore l).reverse =
    (((l.reverse.rdropWhile isWhitespace).rdropWhile (· = '@')).dropWhile isWhitespace).dropWhile
      (· = '.') := by
  rw [List.rdropWhile_reverse, List.rdropWhile_reverse, entryCore, both, ← rdropWhile_dropWhile,
    List.rdropWhile, List.reverse_reverse, List.rdropWhile, List.reverse_reverse]

theorem getLast?_entryCore (h : entryCore l ≠ []) : (entryCore l).getLast? =
    ((l.rdropWhile isWhitespace).rdropWhile (· = '.')).getLast? := by
  rw [entryCore_eq] at h ⊢
  rw [getLast?_dropWhile h, getLast?_dropWhile]
  intro hnil
  rw [hnil, List.dropWhile_nil] at h
  exact h rfl

theorem head?_entryCore (h : entryCore l ≠ []) : (entryCore l).head? =
    ((l.reverse.rdropWhile isWhitespace).rdropWhile (· = '@')).getLast? := by
  rw [← List.reverse_ne_nil_iff, reverse_entryCore] at h
  rw [List.head?_eq_getLast?_reverse, reverse_entryCore, getLast?_dropWhile h, getLast?_dropWhile]
  intro hnil
  rw [hnil, List.dropWhile_nil] at h
  exact h rfl

theorem head?_entryCore_ne (hc : c ∈ (entryCore l).head?) : c ≠ '@' := by
  have hne : entryCore l ≠ [] := by
    intro hnil
    rw [hnil] at hc
    cases hc
  rw [head?_entryCore hne] at hc
  simpa using getLast?_rdropWhile hc

theorem getLast?_entryCore_ne (hc : c ∈ (entryCore l).getLast?) : c ≠ '.' := by
  simpa using getLast?_rdropWhile hc

theorem entryCore_sublist (l : List Char) : (entryCore l).Sublist (both isWhitespace l) :=
  (List.rdropWhile_prefix _ _).sublist.trans (List.dropWhile_suffix _).sublist

theorem entryCore_eq_self : entryCore l = l ↔
    (∀ c ∈ l.head?, isWhitespace c = false ∧ c ≠ '@') ∧
      ∀ c ∈ l.getLast?, isWhitespace c = false ∧ c ≠ '.' := by
  constructor
  · intro h
    have hcore := entryCore_sublist l
    rw [h] at hcore
    obtain ⟨hhead, hlast⟩ := both_eq_self.mp ((both_sublist isWhitespace l).antisymm hcore)
    refine ⟨fun c hc => ⟨hhead c hc, ?_⟩, fun c hc => ⟨hlast c hc, ?_⟩⟩
    · rw [← h] at hc
      exact head?_entryCore_ne hc
    · rw [← h] at hc
      exact getLast?_entryCore_ne hc
  · rintro ⟨hhead, hlast⟩
    have hboth : both isWhitespace l = l :=
      both_eq_self.mpr ⟨fun c hc => (hhead c hc).1, fun c hc => (hlast c hc).1⟩
    rw [entryCore, hboth, dropWhile_eq_self.mpr fun c hc => decide_eq_false (hhead c hc).2,
      rdropWhile_eq_self.mpr fun c hc => decide_eq_false (hlast c hc).2]

end

/-- Neither end of the domain is one that the normalization trims. -/
structure Trimmed (domain : String) : Prop where
  start : ∀ c ∈ domain.toList.head?, isWhitespace c = false ∧ c ≠ '@'
  ending : ∀ c ∈ domain.toList.getLast?, isWhitespace c = false ∧ c ≠ '.'

/-- White space stands right behind the leading `@`, or right in front of the trailing dots. -/
def InnerSpace (entry : String) : Prop :=
  Exposed isWhitespace (· = '@') entry.toList.reverse ∨ Exposed isWhitespace (· = '.') entry.toList

theorem normalizeDomain_lowerCase {entry domain : String}
    (h : normalizeDomain entry = some domain) : ∀ c ∈ domain.toList, c.isUpper = false := by
  rw [(normalizeDomain_eq_some.mp h).1]
  intro c hc
  obtain ⟨b, -, rfl⟩ := List.mem_map.mp hc
  exact isUpper_toLower b

/-- A domain in lower case is its own normal form exactly when nothing is trimmed from it. -/
theorem normalizeDomain_eq_self {domain : String} (hne : domain.toList ≠ [])
    (hlower : ∀ c ∈ domain.toList, c.isUpper = false) :
    normalizeDomain domain = some domain ↔ Trimmed domain := by
  have hsub : (entryCore domain.toList).Sublist domain.toList :=
    (entryCore_sublist _).trans (both_sublist _ _)
  have hmap : (entryCore domain.toList).map Char.toLower = entryCore domain.toList := by
    rw [List.map_congr_left fun c hc => toLower_of_not_upper (hlower c (hsub.subset hc))]
    exact List.map_id _
  rw [normalizeDomain_eq_some, hmap, and_iff_left hne, eq_comm, entryCore_eq_self]
  exact ⟨fun h => ⟨h.1, h.2⟩, fun h => ⟨h.start, h.ending⟩⟩

theorem lower_end_iff {o : Option Char} {b : Char} (hb : b.toNat < 65 ∨ 122 < b.toNat)
    (hne : ∀ c ∈ o, c ≠ b) : (∀ c ∈ o.map Char.toLower, isWhitespace c = false ∧ c ≠ b) ↔
      ¬ ∃ c ∈ o, isWhitespace c = true := by
  cases o with
  | none => simp
  | some c =>
    have hc := hne c rfl
    simp [isWhitespace_toLower, toLower_eq_iff hb, hc]

/-- The normal form of an entry is trimmed, up to white space that the entry had further in. -/
theorem trimmed_iff {entry domain : String} (h : normalizeDomain entry = some domain) :
    Trimmed domain ↔ ¬ InnerSpace entry := by
  obtain ⟨hdomain, hne⟩ := normalizeDomain_eq_some.mp h
  have hcore : entryCore entry.toList ≠ [] := by
    intro hnil
    rw [hdomain, hnil] at hne
    exact hne rfl
  have hstart := lower_end_iff (o := (entryCore entry.toList).head?) (b := '@') (by decide)
    fun c hc => head?_entryCore_ne hc
  have hending := lower_end_iff (o := (entryCore entry.toList).getLast?) (b := '.') (by decide)
    fun c hc => getLast?_entryCore_ne hc
  rw [← List.head?_map, ← hdomain, head?_entryCore hcore,
    exposed_iff (not_isWhitespace_of_eq (by decide))] at hstart
  rw [← List.getLast?_map, ← hdomain, getLast?_entryCore hcore,
    exposed_iff (not_isWhitespace_of_eq (by decide))] at hending
  rw [InnerSpace, not_or, ← hstart, ← hending]
  exact ⟨fun ht => ⟨ht.start, ht.ending⟩, fun ht => ⟨ht.1, ht.2⟩⟩

theorem normalizeDomain_fixed_iff {entry domain : String}
    (h : normalizeDomain entry = some domain) :
    normalizeDomain domain = some domain ↔ ¬ InnerSpace entry := by
  rw [normalizeDomain_eq_self (normalizeDomain_eq_some.mp h).2 (normalizeDomain_lowerCase h),
    trimmed_iff h]

/-- The normal form of an entry is a fixed point, with nothing left to trim, exactly when the entry
has no white space behind its leading `@` or in front of its trailing dots; with such a space it is
equal to no extracted domain, although the validation accepts it. -/
theorem normalizeDomain_settled_iff (entry : String) :
    (∀ domain, normalizeDomain entry = some domain →
      (normalizeDomain domain = some domain ∧ Trimmed domain ↔ ¬ InnerSpace entry) ∧
      (InnerSpace entry → ∀ s, extractEmailDomain s ≠ some domain)) ∧
    ∀ destinationName field domains, validateDomains destinationName field domains = .ok () →
      entry ∈ domains → ((∃ domain, normalizeDomain entry = some domain ∧
        normalizeDomain domain = some domain) ↔ ¬ InnerSpace entry) := by
  constructor
  · intro domain h
    constructor
    · rw [normalizeDomain_fixed_iff h, trimmed_iff h, and_self_iff]
    · intro hspace s hs
      have hc := canonical_of_extractEmailDomain hs
      exact (normalizeDomain_fixed_iff h).mp (hc.normalizeDomain_eq hc.spelling_self) hspace
  · intro destinationName field domains hvalid hentry
    have hsome := normalizeDomain_isSome.mpr (validateDomains_eq_ok.mp hvalid entry hentry)
    obtain ⟨domain, hnormal⟩ := Option.isSome_iff_exists.mp hsome
    rw [← normalizeDomain_fixed_iff hnormal]
    constructor
    · rintro ⟨domain', hnormal', hself⟩
      rw [hnormal, Option.some.injEq] at hnormal'
      rwa [hnormal']
    · exact fun hself => ⟨domain, hnormal, hself⟩

/-- A spelling with blanks outside only, and one with a blank behind the `@`. -/
theorem normalizeDomain_settled_iff_spelled : ¬ InnerSpace " @Example.com. " ∧
    (∀ s, extractEmailDomain s ≠ some " example.com") ∧ ¬ InnerSpace "@Example.com" := by
  have hspace : InnerSpace "@ example.com" :=
    .inl ⟨"moc.elpmaxe".toList, ' ', ['@'], [], by decide, by decide, by decide, by simp, by simp⟩
  refine ⟨?_, ?_, ?_⟩
  · exact ((normalizeDomain_settled_iff " @Example.com. ").1 "example.com" (by decide)).1.mp
      ⟨by decide, ⟨by simp [isWhitespace], by simp [isWhitespace]⟩⟩
  · exact ((normalizeDomain_settled_iff "@ example.com").1 " example.com" (by decide)).2 hspace
  · exact ((normalizeDomain_settled_iff "@Example.com").2 "crm" "to_domains" ["@Example.com"]
      (by decide) List.mem_cons_self).mp ⟨"example.com", by decide, by decide⟩

/-- An accepted entry whose stored form starts with a blank: it is normalized to another domain,
and no mail comes from it or goes to it. -/
theorem normalizeDomain_not_settled :
    validateDomains "crm" "to_domains" ["@ example.com"] = .ok () ∧
    normalizeDomain "@ example.com" = some " example.com" ∧
    normalizeDomain " example.com" = some "example.com" ∧
    ∀ s, extractEmailDomain s ≠ some " example.com" := by
  refine ⟨by decide, by decide, by decide, fun s hs => ?_⟩
  have hsolid := (canonical_of_extractEmailDomain hs).solid ' ' (by decide)
  exact absurd hsolid.1 (by decide)

end ResendRouter.Routing
