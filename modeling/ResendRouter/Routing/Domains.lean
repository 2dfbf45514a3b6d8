import ResendRouter.Foundation.Trim
import ResendRouter.Program.Resend
import ResendRouter.Routing.Constraints

/-! # The normal form of a domain

The extraction from a mailbox and the normalization of a configured entry are
two pipelines of trims. Both end in the same canonical form, and every spelling
of a canonical domain is normalized to it.
-/

namespace ResendRouter.Routing
open Foundation Trim Program

theorem isWhitespace_toLower (c : Char) : isWhitespace c.toLower = isWhitespace c := by
  simp only [isWhitespace, toNat_toLower]
  split_ifs with h
  · rw [Bool.eq_iff_iff]
    simp only [Bool.or_eq_true, Bool.and_eq_true, decide_eq_true_eq]
    omega
  · rfl

theorem isUpper_eq_true {c : Char} : c.isUpper = true ↔ 65 ≤ c.toNat ∧ c.toNat ≤ 90 := by
  change decide (c.val ≥ 65 ∧ c.val ≤ 90) = true ↔ _
  rw [decide_eq_true_iff, ge_iff_le, UInt32.le_iff_toNat_le, UInt32.le_iff_toNat_le]
  rfl

theorem isUpper_toLower (c : Char) : c.toLower.isUpper = false := by
  rw [Bool.eq_false_iff, ne_eq, isUpper_eq_true, toNat_toLower]
  split_ifs <;> omega

theorem toLower_of_not_upper {c : Char} (h : c.isUpper = false) : c.toLower = c := by
  rw [Bool.eq_false_iff, ne_eq, isUpper_eq_true] at h
  rw [← Char.toNat_inj, toNat_toLower, if_neg h]

theorem rdropWhile_map_toLower (l : List Char) :
    (l.map Char.toLower).rdropWhile (· = '.') = (l.rdropWhile (· = '.')).map Char.toLower := by
  have hdot : (fun c => decide (c = '.')) ∘ Char.toLower = fun c => decide (c = '.') := by
    funext c
    rw [Function.comp_apply, Bool.eq_iff_iff, decide_eq_true_iff, decide_eq_true_iff]
    exact toLower_eq_iff (by decide)
  rw [List.rdropWhile, ← List.map_reverse, List.dropWhile_map, hdot, List.rdropWhile,
    List.map_reverse]

def closedPart (afterStart : String) : String :=
  match splitFirst '>' afterStart with
  | none => afterStart
  | some (inner, _) => inner

def addressPart (trimmed : String) : String :=
  match splitFirst '<' trimmed with
  | none => trimmed
  | some (_, afterStart) => closedPart afterStart

def domainAfter (rest : String) : Option String :=
  let piece := firstPiece (fun c => c = ',' || isWhitespace c)
    (trimMatches ';' (trimMatches '>' (trim rest)))
  let domain := toAsciiLowercase (trimEndMatches '.' (trim piece))
  if isBlank domain || domain.toList.contains '@' then none else some domain

def domainOf (candidate : String) : Option String :=
  (afterLast '@' (trimMatches '\'' (trimMatches '"' (trim candidate)))).bind domainAfter

section
-- both sides match on these, and their texts must not be evaluated
attribute [local irreducible] splitFirst afterLast trim trimMatches trimEndMatches firstPiece
  toAsciiLowercase isBlank

theorem extractEmailDomain_eq (input : String) : extractEmailDomain input =
    if isBlank (trim input) then none else domainOf (addressPart (trim input)) := by
  simp only [extractEmailDomain, domainOf, addressPart, closedPart]
  generalize afterLast '@' _ = found
  cases found <;> rfl

end

def isSeparator (c : Char) : Bool := c = ',' || isWhitespace c

def quoteLayers : List (Char → Bool) := [isWhitespace, (· = '"'), (· = '\'')]

def decorationLayers : List (Char → Bool) := [isWhitespace, (· = '>'), (· = ';')]

def domainPiece (rest : List Char) : List Char :=
  (trimAll decorationLayers rest).takeWhile fun c => ! isSeparator c

theorem domainPiece_solid {rest : List Char} :
    ∀ c ∈ domainPiece rest, isWhitespace c = false ∧ c ≠ ',' := by
  intro c hc
  have hsep := List.mem_takeWhile_imp hc
  simpa [isSeparator, and_comm] using hsep

theorem domainPiece_subset {rest : List Char} : ∀ c ∈ domainPiece rest, c ∈ rest :=
  fun _ hc => mem_of_mem_trimAll ((List.takeWhile_prefix _).subset hc)

theorem toList_domainPiece (rest : String) : (trim (firstPiece
    (fun c => c = ',' || isWhitespace c) (trimMatches ';' (trimMatches '>' (trim rest))))).toList =
      domainPiece rest.toList := by
  have hfirst : (firstPiece (fun c => c = ',' || isWhitespace c)
      (trimMatches ';' (trimMatches '>' (trim rest)))).toList = domainPiece rest.toList := by
    simp only [firstPiece, String.toList_ofList, toList_trimMatches, toList_trim, domainPiece,
      isSeparator, decorationLayers, trimAll]
  rw [toList_trim, hfirst, both_of_none fun c hc => (domainPiece_solid c hc).1]

theorem domainAfter_eq_some {rest domain : String} (hrest : '@' ∉ rest.toList) :
    domainAfter rest = some domain ↔
      domain.toList = ((domainPiece rest.toList).rdropWhile (· = '.')).map Char.toLower ∧
        domain.toList ≠ [] := by
  have htext : (toAsciiLowercase (trimEndMatches '.' (trim (firstPiece
      (fun c => c = ',' || isWhitespace c)
        (trimMatches ';' (trimMatches '>' (trim rest))))))).toList =
      ((domainPiece rest.toList).rdropWhile (· = '.')).map Char.toLower := by
    rw [toList_toAsciiLowercase, toList_trimEndMatches, toList_domainPiece]
  rw [domainAfter]
  generalize toAsciiLowercase (trimEndMatches '.' (trim (firstPiece
    (fun c => c = ',' || isWhitespace c) (trimMatches ';' (trimMatches '>' (trim rest)))))) = text
    at *
  have hat : '@' ∉ text.toList := by
    rw [htext]
    intro hc
    obtain ⟨b, hb, hbc⟩ := List.mem_map.mp hc
    rw [toLower_eq_iff (by decide)] at hbc
    rw [hbc] at hb
    exact hrest (domainPiece_subset _ ((List.rdropWhile_prefix _ _).subset hb))
  rw [← htext, String.toList_inj]
  by_cases hblank : text.toList = []
  · simp only [isBlank_eq_true.mpr hblank, Bool.true_or, if_true, reduceCtorEq, false_iff, not_and]
    rintro rfl
    exact not_not.mpr hblank
  · have hguard : ¬ (isBlank text || text.toList.contains '@') = true := by
      rw [Bool.or_eq_true, isBlank_eq_true, List.contains_iff_mem, not_or]
      exact ⟨hblank, hat⟩
    rw [if_neg hguard, Option.some.injEq]
    constructor
    · rintro rfl
      exact ⟨rfl, hblank⟩
    · exact fun h => h.1.symm

/-- A domain is extracted exactly from the piece behind the last `@`. -/
theorem domainOf_eq_some {candidate domain : String} : domainOf candidate = some domain ↔
    ∃ front rest, trimAll quoteLayers candidate.toList = front ++ '@' :: rest ∧ '@' ∉ rest ∧
      domain.toList = ((domainPiece rest).rdropWhile (· = '.')).map Char.toLower ∧
      domain.toList ≠ [] := by
  have hcand : (trimMatches '\'' (trimMatches '"' (trim candidate))).toList =
      trimAll quoteLayers candidate.toList := by
    rw [toList_trimMatches, toList_trimMatches, toList_trim, quoteLayers, trimAll, trimAll, trimAll,
      trimAll]
  rw [domainOf, Option.bind_eq_some_iff]
  constructor
  · rintro ⟨rest, hlast, hdomain⟩
    obtain ⟨front, hq, hrest⟩ := afterLast_eq_some.mp hlast
    rw [hcand] at hq
    exact ⟨front, rest.toList, hq, hrest, (domainAfter_eq_some hrest).mp hdomain⟩
  · rintro ⟨front, rest, hq, hrest, hdomain⟩
    rw [← String.toList_ofList (l := rest)] at hq hrest hdomain
    refine ⟨.ofList rest, afterLast_eq_some.mpr ⟨front, ?_, hrest⟩,
      (domainAfter_eq_some hrest).mpr hdomain⟩
    rw [hcand, hq]

/-- What both pipelines produce. -/
structure Canonical (domain : String) : Prop where
  nonempty : domain.toList ≠ []
  solid : ∀ c ∈ domain.toList, isWhitespace c = false ∧ c ≠ ',' ∧ c ≠ '@'
  lowerCase : ∀ c ∈ domain.toList, c.isUpper = false
  ending : domain.toList.getLast? ≠ some '.'

theorem Canonical.rdropWhile {domain : String} (h : Canonical domain) :
    domain.toList.rdropWhile (· = '.') = domain.toList := by
  rw [rdropWhile_eq_self]
  intro c hc
  apply decide_eq_false
  rintro rfl
  exact h.ending hc

theorem Canonical.map_toLower {domain : String} (h : Canonical domain) :
    domain.toList.map Char.toLower = domain.toList := by
  rw [List.map_congr_left fun c hc => toLower_of_not_upper (h.lowerCase c hc)]
  exact List.map_id _

theorem Canonical.rdropWhile_spelled {domain : String} (h : Canonical domain) {spelled : List Char}
    (hs : spelled.map Char.toLower = domain.toList) : spelled.rdropWhile (· = '.') = spelled := by
  apply (List.rdropWhile_prefix _ _).eq_of_length
  have hlower := rdropWhile_map_toLower spelled
  rw [hs, h.rdropWhile, ← hs] at hlower
  simpa using congrArg List.length hlower.symm

theorem canonical_of_domainOf {candidate domain : String}
    (h : domainOf candidate = some domain) : Canonical domain := by
  obtain ⟨front, rest, -, hrest, hdomain, hne⟩ := domainOf_eq_some.mp h
  have hmem : ∀ c ∈ domain.toList, ∃ b ∈ domainPiece rest, b.toLower = c := by
    intro c hc
    rw [hdomain] at hc
    obtain ⟨b, hb, hbc⟩ := List.mem_map.mp hc
    exact ⟨b, (List.rdropWhile_prefix _ _).subset hb, hbc⟩
  refine ⟨hne, fun c hc => ?_, fun c hc => ?_, ?_⟩
  · obtain ⟨b, hb, rfl⟩ := hmem c hc
    obtain ⟨hspace, hcomma⟩ := domainPiece_solid b hb
    rw [isWhitespace_toLower, ne_eq, ne_eq, toLower_eq_iff (by decide), toLower_eq_iff (by decide)]
    exact ⟨hspace, hcomma, fun heq => hrest (heq ▸ domainPiece_subset b hb)⟩
  · obtain ⟨b, -, rfl⟩ := hmem c hc
    exact isUpper_toLower b
  · have hself : domain.toList.rdropWhile (· = '.') = domain.toList := by
      rw [hdomain, rdropWhile_map_toLower, List.rdropWhile_idempotent]
    intro hlast
    have hdot := rdropWhile_eq_self.mp hself '.' hlast
    simp at hdot

theorem canonical_of_extractEmailDomain {s domain : String}
    (h : extractEmailDomain s = some domain) : Canonical domain := by
  rw [extractEmailDomain_eq] at h
  split_ifs at h
  exact canonical_of_domainOf h

/-- A configured spelling of a domain: white space, any number of `@`, the domain in any case, any
number of dots, and white space. -/
def Spelling (entry domain : String) : Prop :=
  ∃ before ats body dots after, entry.toList = before ++ (ats ++ (body ++ dots) ++ after) ∧
    (∀ c ∈ before, isWhitespace c = true) ∧ (∀ c ∈ ats, c = '@') ∧
    body.map Char.toLower = domain.toList ∧ (∀ c ∈ dots, c = '.') ∧
    ∀ c ∈ after, isWhitespace c = true

theorem Canonical.spelling_self {domain : String} (h : Canonical domain) :
    Spelling domain domain :=
  ⟨[], [], domain.toList, [], [], by simp, by simp, by simp, h.map_toLower, by simp, by simp⟩

/-- Every spelling of a canonical domain is normalized to it. -/
theorem Canonical.normalizeDomain_eq {entry domain : String} (h : Canonical domain)
    (hs : Spelling entry domain) : normalizeDomain entry = some domain := by
  obtain ⟨before, ats, body, dots, after, hentry, hbefore, hats, hbody, hdots, hafter⟩ := hs
  have hne : body ≠ [] := by
    rintro rfl
    exact h.nonempty hbody.symm
  have hsolid : ∀ c ∈ body, isWhitespace c = false ∧ c ≠ '@' := by
    intro c hc
    have hlower : c.toLower ∈ domain.toList := hbody ▸ List.mem_map_of_mem hc
    have := h.solid _ hlower
    rw [isWhitespace_toLower, ne_eq, ne_eq, toLower_eq_iff (by decide),
      toLower_eq_iff (by decide)] at this
    exact ⟨this.1, this.2.2⟩
  -- the white space goes first, since nothing between it is white space
  have htrim : (trim entry).toList = ats ++ (body ++ dots) := by
    have hcore : ∀ c ∈ ats ++ (body ++ dots), isWhitespace c = false := by
      simp only [List.mem_append]
      rintro c (hc | hc | hc)
      · rw [hats c hc]
        decide
      · exact (hsolid c hc).1
      · rw [hdots c hc]
        decide
    rw [toList_trim, hentry, both_core (by simp [hne]) hcore,
      List.dropWhile_eq_nil_iff.mpr hbefore, List.rdropWhile_eq_nil_iff.mpr hafter,
      List.append_nil, List.nil_append]
  have hats' : (trimStartMatches '@' (trim entry)).toList = body ++ dots := by
    rw [toList_trimStartMatches, htrim, List.dropWhile_append_of_pos (by simpa using hats)]
    cases body with
    | nil => exact absurd rfl hne
    | cons c body =>
      apply List.dropWhile_cons_of_neg
      simpa using (hsolid c List.mem_cons_self).2
  have htext : toAsciiLowercase (trimEndMatches '.' (trimStartMatches '@' (trim entry))) =
      domain := by
    apply String.toList_inj.mp
    rw [toList_toAsciiLowercase, toList_trimEndMatches, hats',
      rdropWhile_append_of_pos (by simpa using hdots), h.rdropWhile_spelled hbody, hbody]
  have hblank : ¬ isBlank domain = true := by
    rw [isBlank_eq_true]
    exact h.nonempty
  rw [normalizeDomain, htext, if_neg hblank]

def mailData (value : Json) : Json := (value.get? "data").getD .null

def MailFrom (value : Json) (s : String) : Prop :=
  (mailData value).get? "from" = some (.string s)

def MailTo (value : Json) (s : String) : Prop :=
  (mailData value).get? "to" = some (.string s) ∨
    ∃ items, (mailData value).get? "to" = some (.array items) ∧ .string s ∈ items

section
variable {fromSlice : Bytes → Except String Json} {body : Bytes} {value : Json}
  {event : ResendEventForRouting} {s domain : String}

theorem fromDomain_eq (hv : fromSlice body = .ok value)
    (hp : parseEventForRouting fromSlice body = .ok event) (hs : MailFrom value s) :
    event.fromDomain = extractEmailDomain s := by
  rw [parseEventForRouting, hv] at hp
  cases hp
  rw [MailFrom, mailData] at hs
  simp only [hs, Option.bind_some, Json.asStr]

theorem mem_toDomains (hv : fromSlice body = .ok value)
    (hp : parseEventForRouting fromSlice body = .ok event) (hs : MailTo value s)
    (h : extractEmailDomain s = some domain) : domain ∈ event.toDomains := by
  rw [parseEventForRouting, hv] at hp
  cases hp
  simp only [MailTo, mailData] at hs
  rcases hs with hs | ⟨items, hs, hmem⟩
  · simp only [hs, extractDomainsFromValue, h, Option.toList_some, List.mem_singleton]
  · simp only [hs, extractDomainsFromValue, List.mem_filterMap]
    exact ⟨s, ⟨_, hmem, rfl⟩, h⟩

end

/-- An extracted domain is canonical, every spelling of it is normalized to it, and a destination
with such a spelling as its only constraint takes every event from, or to, the mailbox. -/
theorem domain_normal_forms_agree {s domain : String} (h : extractEmailDomain s = some domain) :
    Canonical domain ∧ normalizeDomain domain = some domain ∧
    ∀ entry, Spelling entry domain → normalizeDomain entry = some domain ∧
      ∀ ds, ∀ d ∈ ds, d.eventTypes = [] → ∀ fromSlice body value event,
        fromSlice body = .ok value → parseEventForRouting fromSlice body = .ok event →
          (d.fromDomains = [entry] → d.toDomains = [] → MailFrom value s →
            normalizeDestination d ∈ (RouteMatcher.new ds).matchDestinations event) ∧
          (d.toDomains = [entry] → d.fromDomains = [] → MailTo value s →
            normalizeDestination d ∈ (RouteMatcher.new ds).matchDestinations event) := by
  have hc := canonical_of_extractEmailDomain h
  refine ⟨hc, hc.normalizeDomain_eq hc.spelling_self, fun entry hs => ?_⟩
  have hn := hc.normalizeDomain_eq hs
  refine ⟨hn, fun ds d hd htypes fromSlice body value event hv hp => ?_⟩
  have hmem : ∀ {e : ResendEventForRouting}, destinationMatches (normalizeDestination d) e = true →
      normalizeDestination d ∈ (RouteMatcher.new ds).matchDestinations e :=
    fun hm => List.mem_filter.mpr ⟨List.mem_map_of_mem hd, hm⟩
  constructor
  · intro hfrom hto hmail
    apply hmem
    have hdomain := (fromDomain_eq hv hp hmail).trans h
    simp [destinationMatches, normalizeDestination, htypes, hfrom, hto, hn, hdomain]
  · intro hto hfrom hmail
    apply hmem
    have hdomain := mem_toDomains hv hp hmail h
    simp [destinationMatches, normalizeDestination, htypes, hfrom, hto, hn, hdomain]

theorem domain_normal_forms_agree_mailbox : normalizeDomain "\t@A.Org. " = some "a.org" := by
  have h : extractEmailDomain "Bo <b@A.org>" = some "a.org" := by decide +kernel
  refine ((domain_normal_forms_agree h).2.2 _ ?_).1
  exact ⟨['\t'], ['@'], "A.Org".toList, ['.'], [' '], by decide,
    List.all_eq_true.mp (by decide), by simp, by decide, by simp,
    List.all_eq_true.mp (by decide)⟩

end ResendRouter.Routing
