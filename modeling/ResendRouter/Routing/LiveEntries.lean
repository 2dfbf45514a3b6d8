import ResendRouter.Routing.NormalForms

/-! # The domains that mail can have

The extraction yields some domains and never yields others. A configured entry
is compared with extracted domains only, so an accepted entry outside of that
range is dead, and a destination whose list has no live entry gets nothing.
-/

namespace ResendRouter.Routing
open Foundation Trim Program ResendRouter.Configuration

structure Extractable (domain : String) : Prop where
  canonical : Canonical domain
  /-- Semicolons are trimmed behind the `@`. -/
  start : domain.toList.head? ≠ some ';'
  /-- The brackets delimit the address. -/
  brackets : '<' ∉ domain.toList ∨ '>' ∉ domain.toList

theorem closedPart_no_close (s : String) : '>' ∉ (closedPart s).toList := by
  rw [closedPart]
  cases h : splitFirst '>' s with
  | none => exact splitFirst_eq_none.mp h
  | some parts =>
    have hmem : '>' ∈ s.toList := by
      by_contra hno
      rw [splitFirst_eq_none.mpr hno] at h
      cases h
    obtain ⟨before, after, hs, hb⟩ := List.eq_append_cons_of_mem hmem
    rw [splitFirst_of_first hs hb, Option.some.injEq] at h
    rw [← h, String.toList_ofList]
    exact hb

theorem addressPart_brackets (s : String) :
    '<' ∉ (addressPart s).toList ∨ '>' ∉ (addressPart s).toList := by
  rw [addressPart]
  cases h : splitFirst '<' s with
  | none => exact .inl (splitFirst_eq_none.mp h)
  | some parts => exact .inr (closedPart_no_close parts.2)

theorem head?_domainPiece {rest : List Char} {c : Char} (h : c ∈ (domainPiece rest).head?) :
    c ≠ ';' := by
  have hprefix : domainPiece rest <+:
      (both (· = '>') (both isWhitespace rest)).dropWhile (· = ';') :=
    (List.takeWhile_prefix _).trans (List.rdropWhile_prefix _ _)
  have hhead : c ∈ ((both (· = '>') (both isWhitespace rest)).dropWhile (· = ';')).head? := by
    obtain ⟨tail, ht⟩ := hprefix
    rw [← ht, List.head?_append]
    rw [Option.mem_def] at h ⊢
    rw [h, Option.some_or]
  simpa using head?_dropWhile hhead

/-- The characters of an extracted domain are those of the address, up to their case. -/
theorem mem_of_mem_domainOf {candidate domain : String} {c : Char}
    (h : domainOf candidate = some domain) (hc : c ∈ domain.toList)
    (hcase : c.toNat < 65 ∨ 122 < c.toNat) : c ∈ candidate.toList := by
  obtain ⟨front, rest, hq, -, hdomain, -⟩ := domainOf_eq_some.mp h
  rw [hdomain] at hc
  obtain ⟨b, hb, hbc⟩ := List.mem_map.mp hc
  rw [toLower_eq_iff hcase] at hbc
  subst hbc
  have hrest : b ∈ rest := domainPiece_subset b ((List.rdropWhile_prefix _ _).subset hb)
  have hmem : b ∈ trimAll quoteLayers candidate.toList := by
    rw [hq]
    exact List.mem_append_right _ (List.mem_cons_of_mem _ hrest)
  exact mem_of_mem_trimAll hmem

theorem extractable_of_extractEmailDomain {s domain : String}
    (h : extractEmailDomain s = some domain) : Extractable domain := by
  have hcanonical := canonical_of_extractEmailDomain h
  rw [extractEmailDomain_eq] at h
  split_ifs at h
  refine ⟨hcanonical, fun hstart => ?_, ?_⟩
  · obtain ⟨front, rest, -, -, hdomain, -⟩ := domainOf_eq_some.mp h
    rw [hdomain, List.head?_map, Option.map_eq_some_iff] at hstart
    obtain ⟨c, hc, hcase⟩ := hstart
    rw [toLower_eq_iff (by decide)] at hcase
    obtain ⟨tail, ht⟩ := List.rdropWhile_prefix (fun c => decide (c = '.')) (domainPiece rest)
    have hhead : c ∈ (domainPiece rest).head? := by
      rw [← ht, List.head?_append, hc]
      rfl
    exact head?_domainPiece hhead hcase
  · exact (addressPart_brackets _).imp (fun hno hc => hno (mem_of_mem_domainOf h hc (by decide)))
      fun hno hc => hno (mem_of_mem_domainOf h hc (by decide))

/-- A mailbox at the domain. The semicolon and the comma keep the ends of the domain from being
trimmed, and the opening bracket makes one within the domain an ordinary character. -/
def mailboxAt (domain : String) : String :=
  .ofList ((if domain.toList.contains '<' then ['<'] else []) ++
    ('x' :: '@' :: ';' :: (domain.toList ++ [','])))

theorem trimAll_quoteLayers_address (domain : List Char) :
    trimAll quoteLayers ('x' :: '@' :: ';' :: (domain ++ [','])) =
      'x' :: '@' :: ';' :: (domain ++ [',']) := by
  have hself : ∀ p : Char → Bool, p 'x' = false → p ',' = false →
      both p ('x' :: '@' :: ';' :: (domain ++ [','])) = 'x' :: '@' :: ';' :: (domain ++ [',']) := by
    intro p hx hcomma
    have hlast : ('x' :: '@' :: ';' :: (domain ++ [','])).getLast? = some ',' := by
      rw [show 'x' :: '@' :: ';' :: (domain ++ [',']) = ('x' :: '@' :: ';' :: domain) ++ [','] from
        rfl, List.getLast?_concat]
    apply both_eq_self.mpr
    constructor
    · rintro a ⟨⟩
      exact hx
    · rw [hlast]
      rintro a ⟨⟩
      exact hcomma
  rw [quoteLayers, trimAll, hself _ (by decide) (by decide), trimAll,
    hself _ (by decide) (by decide), trimAll, hself _ (by decide) (by decide), trimAll]

theorem domainPiece_address {domain : String} (h : Extractable domain) :
    domainPiece (';' :: (domain.toList ++ [','])) = domain.toList := by
  have hlast : ∀ l : List Char, (l ++ [',']).getLast? = some ',' := fun l => List.getLast?_concat
  have hself : ∀ p : Char → Bool, p ';' = false → p ',' = false →
      both p (';' :: (domain.toList ++ [','])) = ';' :: (domain.toList ++ [',']) := by
    intro p hsemi hcomma
    apply both_eq_self.mpr
    constructor
    · rintro a ⟨⟩
      exact hsemi
    · rw [← List.cons_append, hlast]
      rintro a ⟨⟩
      exact hcomma
  have hopen : both (· = ';') (';' :: (domain.toList ++ [','])) = domain.toList ++ [','] := by
    have hdrop : (domain.toList ++ [',']).dropWhile (· = ';') = domain.toList ++ [','] := by
      apply dropWhile_eq_self.mpr
      intro a ha
      obtain ⟨c, cs, hd⟩ := List.exists_cons_of_ne_nil h.canonical.nonempty
      have hstart := h.start
      rw [hd] at ha hstart
      cases ha
      simpa using hstart
    rw [both, List.dropWhile_cons_of_pos (by decide), hdrop]
    apply rdropWhile_eq_self.mpr
    rw [hlast]
    rintro a ⟨⟩
    decide
  rw [domainPiece, decorationLayers, trimAll, hself _ (by decide) (by decide), trimAll,
    hself _ (by decide) (by decide), trimAll, hopen, trimAll,
    List.takeWhile_append_of_pos, List.takeWhile_cons_of_neg (by decide), List.append_nil]
  intro c hc
  obtain ⟨hspace, hcomma, -⟩ := h.canonical.solid c hc
  simp [isSeparator, hspace, hcomma]

theorem domainOf_address {domain candidate : String} (h : Extractable domain)
    (hc : candidate.toList = 'x' :: '@' :: ';' :: (domain.toList ++ [','])) :
    domainOf candidate = some domain := by
  apply domainOf_eq_some.mpr
  refine ⟨['x'], ';' :: (domain.toList ++ [',']), ?_, ?_, ?_, h.canonical.nonempty⟩
  · rw [hc, trimAll_quoteLayers_address]
    rfl
  · have hat : '@' ∉ domain.toList := fun hm => (h.canonical.solid _ hm).2.2 rfl
    simp [hat]
  · rw [domainPiece_address h, h.canonical.rdropWhile, h.canonical.map_toLower]

theorem addressPart_mailboxAt {domain : String} (h : Extractable domain) :
    (addressPart (mailboxAt domain)).toList = 'x' :: '@' :: ';' :: (domain.toList ++ [',']) := by
  rw [addressPart, mailboxAt]
  split
  case h_1 hnone =>
    have hno := splitFirst_eq_none.mp hnone
    rw [String.toList_ofList] at hno ⊢
    split_ifs at hno ⊢ with hopen
    · simp at hno
    · rfl
  case h_2 before after hsome =>
    by_cases hopen : domain.toList.contains '<' = true
    · rw [if_pos hopen] at hsome
      have hfirst := @splitFirst_of_first '<'
        (.ofList (['<'] ++ ('x' :: '@' :: ';' :: (domain.toList ++ [','])))) [] _
        String.toList_ofList List.not_mem_nil
      rw [hfirst, Option.some.injEq, Prod.mk.injEq] at hsome
      have hclose : '>' ∉ domain.toList :=
        h.brackets.resolve_left (not_not.mpr (List.contains_iff_mem.mp hopen))
      have hnone : splitFirst '>' after = none := by
        apply splitFirst_eq_none.mpr
        rw [← hsome.2, String.toList_ofList]
        simp [hclose]
      rw [closedPart, hnone, ← hsome.2, String.toList_ofList]
      rfl
    · rw [if_neg hopen] at hsome
      have hno : splitFirst '<' (.ofList ([] ++ ('x' :: '@' :: ';' :: (domain.toList ++ [','])))) =
          none := by
        apply splitFirst_eq_none.mpr
        rw [String.toList_ofList]
        simpa using hopen
      rw [hno] at hsome
      cases hsome

theorem extractEmailDomain_mailboxAt {domain : String} (h : Extractable domain) :
    extractEmailDomain (mailboxAt domain) = some domain := by
  have htrim : trim (mailboxAt domain) = mailboxAt domain := by
    apply String.toList_inj.mp
    rw [toList_trim, mailboxAt, String.toList_ofList]
    apply both_eq_self.mpr
    constructor
    · intro a ha
      split_ifs at ha <;>
      · cases ha
        decide
    · intro a ha
      rw [show ∀ l : List Char, l ++ ('x' :: '@' :: ';' :: (domain.toList ++ [','])) =
        (l ++ ('x' :: '@' :: ';' :: domain.toList)) ++ [','] by simp, List.getLast?_concat] at ha
      cases ha
      decide
  have hblank : ¬ isBlank (mailboxAt domain) = true := by
    rw [isBlank_eq_true, mailboxAt, String.toList_ofList]
    simp
  rw [extractEmailDomain_eq, htrim, if_neg hblank]
  exact domainOf_address h (addressPart_mailboxAt h)

/-- The stored form of the entry is the domain of some mailbox. -/
def isLiveEntry (entry : String) : Bool :=
  (normalizeDomain entry).any fun domain =>
    domain.toList.all (fun c => ! isSeparator c && c != '@') &&
      domain.toList.head?.all (· != ';') &&
      ! (domain.toList.contains '<' && domain.toList.contains '>')

/-- The list is no constraint, or one that some mailbox satisfies. -/
def isLiveList (entries : List String) : Bool := entries.isEmpty || entries.any isLiveEntry

def isLive (d : DestinationConfig) : Bool :=
  d.catchAll || (isLiveList d.fromDomains && isLiveList d.toDomains)

/-- The ends and the case of a stored form are those of an extracted domain in any case. -/
theorem isLiveEntry_eq_true {entry : String} : isLiveEntry entry = true ↔
    ∃ domain, normalizeDomain entry = some domain ∧ Extractable domain := by
  rw [isLiveEntry, Option.any_eq_true]
  apply exists_congr
  intro domain
  apply and_congr_right
  intro hn
  obtain ⟨hdomain, hne⟩ := normalizeDomain_eq_some.mp hn
  simp only [Bool.and_eq_true, List.all_eq_true, Bool.not_eq_true', bne_iff_ne, ne_eq, isSeparator,
    Bool.or_eq_false_iff, decide_eq_false_iff_not, Option.all_eq_true, Bool.and_eq_false_iff,
    List.contains_eq_mem]
  constructor
  · rintro ⟨⟨hsolid, hstart⟩, hbrackets⟩
    refine ⟨⟨hne, fun c hc => ?_, normalizeDomain_lowerCase hn, fun hlast => ?_⟩,
      fun hhead => hstart _ hhead rfl, hbrackets⟩
    · obtain ⟨⟨hcomma, hspace⟩, hat⟩ := hsolid c hc
      exact ⟨hspace, hcomma, hat⟩
    · rw [hdomain, List.getLast?_map, Option.map_eq_some_iff] at hlast
      obtain ⟨c, hc, hcase⟩ := hlast
      exact getLast?_entryCore_ne hc ((toLower_eq_iff (by decide)).mp hcase)
  · rintro ⟨⟨-, hsolid, -, -⟩, hstart, hbrackets⟩
    refine ⟨⟨fun c hc => ?_, fun c hc heq => hstart (heq ▸ hc)⟩, hbrackets⟩
    obtain ⟨hspace, hcomma, hat⟩ := hsolid c hc
    exact ⟨⟨hcomma, hspace⟩, hat⟩

/-- A live list is satisfied by some mailbox. -/
theorem exists_mailbox_of_isLiveList {entries : List String} (h : isLiveList entries = true) :
    ∃ s, entries ≠ [] → ∃ domain, extractEmailDomain s = some domain ∧
      ∃ entry ∈ entries, normalizeDomain entry = some domain := by
  rw [isLiveList, Bool.or_eq_true, List.isEmpty_iff, List.any_eq_true] at h
  rcases h with hnil | ⟨entry, hentry, hlive⟩
  · exact ⟨"", fun hne => absurd hnil hne⟩
  · obtain ⟨domain, hn, he⟩ := isLiveEntry_eq_true.mp hlive
    exact ⟨mailboxAt domain, fun _ =>
      ⟨domain, extractEmailDomain_mailboxAt he, entry, hentry, hn⟩⟩

theorem isLiveList_of_extracted {entries : List String}
    (h : entries ≠ [] → ∃ s domain, extractEmailDomain s = some domain ∧
      ∃ entry ∈ entries, normalizeDomain entry = some domain) : isLiveList entries = true := by
  rw [isLiveList, Bool.or_eq_true, List.isEmpty_iff, List.any_eq_true, or_iff_not_imp_left]
  intro hne
  obtain ⟨s, domain, hs, entry, hentry, hn⟩ := h hne
  exact ⟨entry, hentry,
    isLiveEntry_eq_true.mpr ⟨domain, hn, extractable_of_extractEmailDomain hs⟩⟩

def mailDocument (eventType sender recipient : String) : Json :=
  .object [("type", .string eventType),
    ("data", .object [("from", .string sender), ("to", .string recipient)])]

section
variable {fromSlice : Bytes → Except String Json} {body : Bytes} {event : ResendEventForRouting}
  {domain : String}

theorem fromDomain_extracted (hp : parseEventForRouting fromSlice body = .ok event)
    (h : domain ∈ event.fromDomain) : ∃ s, extractEmailDomain s = some domain := by
  rw [parseEventForRouting] at hp
  split at hp
  case h_1 => cases hp
  case h_2 value hv =>
    cases hp
    obtain ⟨s, -, hs⟩ := Option.bind_eq_some_iff.mp h
    exact ⟨s, hs⟩

theorem toDomains_extracted (hp : parseEventForRouting fromSlice body = .ok event)
    (h : domain ∈ event.toDomains) : ∃ s, extractEmailDomain s = some domain := by
  rw [parseEventForRouting] at hp
  split at hp
  case h_1 => cases hp
  case h_2 value hv =>
    cases hp
    simp only [extractDomainsFromValue] at h
    split at h
    case h_1 address _ => exact ⟨address, Option.mem_toList.mp h⟩
    case h_2 addresses _ =>
      obtain ⟨s, -, hs⟩ := List.mem_filterMap.mp h
      exact ⟨s, hs⟩
    case h_3 => cases h

theorem parse_mailDocument {eventType sender recipient : String}
    (h : fromSlice body = .ok (mailDocument eventType sender recipient)) :
    parseEventForRouting fromSlice body = .ok ⟨none, some eventType, extractEmailDomain sender,
      (extractEmailDomain recipient).toList⟩ := by
  simp [parseEventForRouting, h, mailDocument, Json.get?, Json.asStr, extractDomainsFromValue]

end

theorem mem_matchDestinations {ds : List DestinationConfig} {d : DestinationConfig}
    {event : ResendEventForRouting} (hd : d ∈ ds) :
    normalizeDestination d ∈ (RouteMatcher.new ds).matchDestinations event ↔
      destinationMatches (normalizeDestination d) event = true := by
  have hmem : normalizeDestination d ∈ (RouteMatcher.new ds).destinations :=
    List.mem_map_of_mem hd
  rw [RouteMatcher.matchDestinations, List.mem_filter, and_iff_right hmem]

theorem satisfies_of_fields {d : DestinationConfig} {eventType : String}
    {fromDomain toDomain : Option String}
    (htype : d.eventTypes ≠ [] → eventType ∈ d.eventTypes)
    (hfrom : d.fromDomains ≠ [] → ∃ domain, fromDomain = some domain ∧
      ∃ entry ∈ d.fromDomains, normalizeDomain entry = some domain)
    (hto : d.toDomains ≠ [] → ∃ domain, toDomain = some domain ∧
      ∃ entry ∈ d.toDomains, normalizeDomain entry = some domain) :
    Satisfies d ⟨none, some eventType, fromDomain, toDomain.toList⟩ := by
  refine ⟨fun hne => ⟨eventType, rfl, htype hne⟩, hfrom, fun hne => ?_⟩
  obtain ⟨domain, hdomain, hentry⟩ := hto hne
  exact ⟨domain, Option.mem_toList.mpr hdomain, hentry⟩

/-- The extracted domains are exactly those of the range; an accepted destination with a domain
list without a live entry gets no event of any body, and every other one gets the events of a
document. -/
theorem mail_reaches_live_destinations {parseUrl : String → Except String String}
    {ds : List DestinationConfig} (hvalid : ∀ d ∈ ds, d.validate parseUrl = .ok ()) :
    (∀ domain, (∃ s, extractEmailDomain s = some domain) ↔ Extractable domain) ∧
    ∀ d ∈ ds,
      (isLive d = false → ∀ fromSlice body event, parseEventForRouting fromSlice body = .ok event →
        normalizeDestination d ∉ (RouteMatcher.new ds).matchDestinations event) ∧
      (isLive d = true → ∃ eventType sender recipient, ∀ fromSlice body,
        fromSlice body = .ok (mailDocument eventType sender recipient) →
          ∃ event, parseEventForRouting fromSlice body = .ok event ∧
            normalizeDestination d ∈ (RouteMatcher.new ds).matchDestinations event) := by
  refine ⟨fun domain => ⟨fun ⟨s, hs⟩ => extractable_of_extractEmailDomain hs,
    fun h => ⟨_, extractEmailDomain_mailboxAt h⟩⟩, fun d hd => ?_⟩
  have hv := validate_destination_eq_ok.mp (hvalid d hd)
  have hlive : isLive d = true ↔
      d.catchAll = true ∨ isLiveList d.fromDomains = true ∧ isLiveList d.toDomains = true := by
    rw [isLive, Bool.or_eq_true, Bool.and_eq_true]
  constructor
  · intro hdead fromSlice body event hp hmem
    refine Bool.eq_false_iff.mp hdead (hlive.mpr ?_)
    rw [mem_matchDestinations hd, destinationMatches_normalizeDestination hv] at hmem
    rcases hmem with hcatch | hs
    · exact .inl hcatch
    · refine .inr ⟨isLiveList_of_extracted fun hne => ?_, isLiveList_of_extracted fun hne => ?_⟩
      · obtain ⟨domain, hdomain, hentry⟩ := hs.fromDomain hne
        obtain ⟨s, hs⟩ := fromDomain_extracted hp hdomain
        exact ⟨s, domain, hs, hentry⟩
      · obtain ⟨domain, hdomain, hentry⟩ := hs.toDomain hne
        obtain ⟨s, hs⟩ := toDomains_extracted hp hdomain
        exact ⟨s, domain, hs, hentry⟩
  · intro h
    simp only [mem_matchDestinations hd, destinationMatches_normalizeDestination hv]
    rcases hlive.mp h with hcatch | ⟨hfrom, hto⟩
    · exact ⟨"", "", "", fun fromSlice body hb => ⟨_, parse_mailDocument hb, .inl hcatch⟩⟩
    · obtain ⟨sender, hsender⟩ := exists_mailbox_of_isLiveList hfrom
      obtain ⟨recipient, hrecipient⟩ := exists_mailbox_of_isLiveList hto
      have htype : d.eventTypes ≠ [] → d.eventTypes.headD "" ∈ d.eventTypes := by
        intro hne
        obtain ⟨eventType, rest, htypes⟩ := List.exists_cons_of_ne_nil hne
        rw [htypes]
        exact List.mem_cons_self
      exact ⟨d.eventTypes.headD "", sender, recipient, fun fromSlice body hb =>
        ⟨_, parse_mailDocument hb, .inr (satisfies_of_fields htype hsender hrecipient)⟩⟩

/-- An accepted destination for an address instead of a domain is dead, although another one for
its domain gets mail. -/
theorem mail_reaches_live_destinations_address :
    (∀ fromSlice body event, parseEventForRouting fromSlice body = .ok event →
      normalizeDestination ⟨"crm", "https://crm.example.com", ["ann@x.org"], [], [], false⟩ ∉
        (RouteMatcher.new [⟨"crm", "https://crm.example.com", ["ann@x.org"], [], [], false⟩,
          ⟨"app", "https://app.example.com", ["@X.org."], [], [], false⟩]).matchDestinations
            event) ∧
    ∃ eventType sender recipient, ∀ fromSlice body,
      fromSlice body = .ok (mailDocument eventType sender recipient) →
        ∃ event, parseEventForRouting fromSlice body = .ok event ∧
          normalizeDestination ⟨"app", "https://app.example.com", ["@X.org."], [], [], false⟩ ∈
            (RouteMatcher.new [⟨"crm", "https://crm.example.com", ["ann@x.org"], [], [], false⟩,
              ⟨"app", "https://app.example.com", ["@X.org."], [], [], false⟩]).matchDestinations
                event := by
  have h := (@mail_reaches_live_destinations (fun _ => .ok "https")
    [⟨"crm", "https://crm.example.com", ["ann@x.org"], [], [], false⟩,
      ⟨"app", "https://app.example.com", ["@X.org."], [], [], false⟩] (by decide)).2
  exact ⟨(h _ List.mem_cons_self).1 (by decide),
    (h _ (List.mem_cons_of_mem _ List.mem_cons_self)).2 (by decide)⟩

end ResendRouter.Routing
