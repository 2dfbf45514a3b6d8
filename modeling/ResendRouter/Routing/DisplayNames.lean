import ResendRouter.Routing.Domains

/-! # Display names and the domain of a mailbox

The extraction looks for the first pair of angle brackets, and it does not know
quotes. So a display name with a pair of its own is read in place of the
address, and it decides the domain.
-/

namespace ResendRouter.Routing
open Foundation Trim Program

/-- Behind the last `@` stands the domain in any case and with any number of dots, within blocks
that are trimmed; behind it may also stand a separator and anything. -/
def Names (candidate domain : List Char) : Prop :=
  ∃ front opening spelled dots tail,
    candidate = front ++ '@' :: (opening ++ (spelled ++ dots ++ tail)) ∧
    '@' ∉ opening ++ (spelled ++ dots ++ tail) ∧ Layered decorationLayers opening.reverse ∧
    spelled.map Char.toLower = domain ∧ (∀ c ∈ dots, c = '.') ∧
    (Layered (quoteLayers ++ decorationLayers) tail ∨
      ∃ c rest, tail = c :: rest ∧ isSeparator c = true)

/-- Letters and digits of every script and the usual punctuation of addresses are plain. -/
def isPlain (c : Char) : Bool := ! isWhitespace c && ! "\"'<>@;,".toList.contains c

def isLocalCharacter (c : Char) : Bool := isAsciiAlphanumeric c || "._+-".toList.contains c

def isDomainCharacter (c : Char) : Bool := isAsciiAlphanumeric c || "-.".toList.contains c

theorem isPlain_eq_true {c : Char} : isPlain c = true ↔ isWhitespace c = false ∧ c ≠ '"' ∧
    c ≠ '\'' ∧ c ≠ '<' ∧ c ≠ '>' ∧ c ≠ '@' ∧ c ≠ ';' ∧ c ≠ ',' := by
  simp [isPlain]

theorem isAsciiAlphanumeric_range {c : Char} (h : isAsciiAlphanumeric c = true) :
    48 ≤ c.toNat ∧ c.toNat ≤ 57 ∨ 65 ≤ c.toNat ∧ c.toNat ≤ 90 ∨
      97 ≤ c.toNat ∧ c.toNat ≤ 122 := by
  change (c.isUpper || (decide (97 ≤ c.val) && decide (c.val ≤ 122)) ||
    (decide (48 ≤ c.val) && decide (c.val ≤ 57))) = true at h
  rw [Bool.or_eq_true, Bool.or_eq_true, Bool.and_eq_true, Bool.and_eq_true, isUpper_eq_true] at h
  simp only [decide_eq_true_eq, UInt32.le_iff_toNat_le] at h
  change (_ ∨ 97 ≤ c.toNat ∧ c.toNat ≤ 122) ∨ 48 ≤ c.toNat ∧ c.toNat ≤ 57 at h
  omega

theorem isPlain_of_isLocalCharacter {c : Char} (h : isLocalCharacter c = true) :
    isPlain c = true := by
  rw [isLocalCharacter, Bool.or_eq_true] at h
  rcases h with h | h
  · have hrange := isAsciiAlphanumeric_range h
    have hspace : isWhitespace c = false := by
      simp only [isWhitespace, Bool.or_eq_false_iff, Bool.and_eq_false_iff,
        decide_eq_false_iff_not]
      omega
    rw [isPlain_eq_true]
    refine ⟨hspace, ?_, ?_, ?_, ?_, ?_, ?_, ?_⟩ <;>
      · rintro rfl
        revert hrange
        decide
  · have hc : c = '.' ∨ c = '_' ∨ c = '+' ∨ c = '-' := by simpa using h
    rcases hc with rfl | rfl | rfl | rfl <;> decide

theorem isPlain_of_isDomainCharacter {c : Char} (h : isDomainCharacter c = true) :
    isPlain c = true := by
  apply isPlain_of_isLocalCharacter
  rw [isDomainCharacter, Bool.or_eq_true] at h
  rw [isLocalCharacter, Bool.or_eq_true]
  refine h.imp_right fun h => ?_
  have hc : c = '-' ∨ c = '.' := by simpa using h
  rcases hc with rfl | rfl <;> decide

theorem isPlain_toLower {c : Char} : isPlain c.toLower = true ↔ isPlain c = true := by
  simp only [isPlain_eq_true, isWhitespace_toLower, ne_eq]
  rw [toLower_eq_iff (by decide), toLower_eq_iff (by decide), toLower_eq_iff (by decide),
    toLower_eq_iff (by decide), toLower_eq_iff (by decide), toLower_eq_iff (by decide),
    toLower_eq_iff (by decide)]

theorem not_mem_of_layered {tail : List Char} (h : Layered quoteLayers tail) : '@' ∉ tail := by
  intro hm
  rcases h with ⟨_, w, rfl, ⟨_, q, rfl, ⟨_, a, rfl, hnil, ha⟩, hq⟩, hw⟩
  rw [Layered] at hnil
  simp only [hnil, List.nil_append, List.mem_append] at hm
  rcases hm with (hm | hm) | hm
  · exact absurd (ha _ hm) (by decide)
  · exact absurd (hq _ hm) (by decide)
  · exact absurd (hw _ hm) (by decide)

/-- What is extracted is named: the trims are undone one after the other. -/
theorem names_of_domainOf {candidate domain : String} (h : domainOf candidate = some domain) :
    Names candidate.toList domain.toList := by
  obtain ⟨front, rest, hq, hrest, hdomain, -⟩ := domainOf_eq_some.mp h
  obtain ⟨left, right, hcand, -, hright⟩ := trimAll_spec quoteLayers candidate.toList
  obtain ⟨opening, closing, hsplit, hopening, hclosing⟩ := trimAll_spec decorationLayers rest
  have hpiece := @List.takeWhile_append_dropWhile _ (fun c => ! isSeparator c)
    (trimAll decorationLayers rest)
  have hhead := List.head?_dropWhile_not (fun c => ! isSeparator c) (trimAll decorationLayers rest)
  rw [← domainPiece] at hpiece
  generalize (trimAll decorationLayers rest).dropWhile (fun c => ! isSeparator c) = more at *
  have hdots := @List.rdropWhile_append_rtakeWhile _ (fun c => decide (c = '.')) (domainPiece rest)
  have hdot : ∀ c ∈ (domainPiece rest).rtakeWhile (fun c => decide (c = '.')), c = '.' := by
    intro c hc
    simpa using List.mem_rtakeWhile_imp hc
  generalize (domainPiece rest).rdropWhile (fun c => decide (c = '.')) = spelled at *
  generalize (domainPiece rest).rtakeWhile (fun c => decide (c = '.')) = dots at *
  have hafter : rest ++ right = opening ++ (spelled ++ dots ++ (more ++ (closing ++ right))) := by
    rw [hdots]
    conv_lhs => rw [hsplit, ← hpiece]
    simp
  refine ⟨left ++ front, opening, spelled, dots, more ++ (closing ++ right), ?_, ?_, hopening,
    hdomain.symm, hdot, ?_⟩
  · rw [← hafter, hcand, hq]
    simp
  · rw [← hafter, List.mem_append, not_or]
    exact ⟨hrest, not_mem_of_layered hright⟩
  · cases more with
    | nil => exact .inl (hclosing.append hright)
    | cons c more => exact .inr ⟨c, _, rfl, by simpa using hhead⟩

theorem core_stops {core : List Char} (h : ∀ c ∈ core, isPlain c = true) :
    (∀ p ∈ quoteLayers, ∀ c ∈ core, p c = false) ∧
      ∀ p ∈ decorationLayers, ∀ c ∈ core, p c = false := by
  have hplain : ∀ c ∈ core, _ := fun c hc => isPlain_eq_true.mp (h c hc)
  constructor
  · intro p hp c hc
    have := hplain c hc
    simp only [quoteLayers, List.mem_cons, List.not_mem_nil, or_false] at hp
    rcases hp with rfl | rfl | rfl <;> simp [this]
  · intro p hp c hc
    have := hplain c hc
    simp only [decorationLayers, List.mem_cons, List.not_mem_nil, or_false] at hp
    rcases hp with rfl | rfl | rfl <;> simp [this]

/-- The quotes around an address leave the text behind the `@` up to its tail. -/
theorem trimAll_quoteLayers {front opening core tail : List Char} (hne : core ≠ [])
    (hcore : ∀ c ∈ core, isPlain c = true) :
    trimAll quoteLayers (front ++ '@' :: (opening ++ (core ++ tail))) =
      (strip quoteLayers front.reverse).reverse ++
        '@' :: (opening ++ (core ++ strip quoteLayers tail)) := by
  have hstop : ∀ p ∈ quoteLayers, ∀ c ∈ ['@'], p c = false := by
    simp only [quoteLayers, List.mem_cons, List.not_mem_nil, or_false]
    rintro p (rfl | rfl | rfl) c rfl <;> decide
  have htrim := @trimAll_core _ quoteLayers front (opening ++ (core ++ tail)) ['@'] (by simp) hstop
  simpa only [List.singleton_append, strip_core hne (core_stops hcore).1] using htrim

theorem takeWhile_strip_tail {tail : List Char}
    (htail : Layered (quoteLayers ++ decorationLayers) tail ∨
      ∃ c rest, tail = c :: rest ∧ isSeparator c = true) :
    (strip (quoteLayers ++ decorationLayers) tail).takeWhile (fun c => ! isSeparator c) = [] := by
  rcases htail with htail | ⟨c, rest, htail, hsep⟩
  · rw [htail.strip_eq_nil]
    rfl
  · rcases strip_isPrefix (quoteLayers ++ decorationLayers) tail with ⟨dropped, hdropped⟩
    cases hs : strip (quoteLayers ++ decorationLayers) tail with
    | nil => rfl
    | cons b kept =>
      rw [hs, htail, List.cons_append, List.cons.injEq] at hdropped
      rw [hdropped.1, List.takeWhile_cons_of_neg]
      simp [hsep]

theorem domainPiece_core {opening core tail : List Char} (hne : core ≠ [])
    (hcore : ∀ c ∈ core, isPlain c = true) (hopening : Layered decorationLayers opening.reverse)
    (htail : Layered (quoteLayers ++ decorationLayers) tail ∨
      ∃ c rest, tail = c :: rest ∧ isSeparator c = true) :
    domainPiece (opening ++ (core ++ strip quoteLayers tail)) = core := by
  have htrimmed : trimAll decorationLayers (opening ++ (core ++ strip quoteLayers tail)) =
      core ++ strip (quoteLayers ++ decorationLayers) tail := by
    rw [trimAll_core hne (core_stops hcore).2, hopening.strip_eq_nil, strip_append]
    simp
  rw [domainPiece, htrimmed, List.takeWhile_append_of_pos, takeWhile_strip_tail htail,
    List.append_nil]
  intro c hc
  have := isPlain_eq_true.mp (hcore c hc)
  simp [isSeparator, this]

/-- What is named is extracted, if the domain is a plain one. -/
theorem domainOf_of_names {candidate domain : String} (hd : Canonical domain)
    (hplain : ∀ c ∈ domain.toList, isPlain c = true) (h : Names candidate.toList domain.toList) :
    domainOf candidate = some domain := by
  obtain ⟨front, opening, spelled, dots, tail, hcand, hat, hopening, hspelled, hdots, htail⟩ := h
  have hne : spelled ++ dots ≠ [] := by
    intro hnil
    rw [(List.append_eq_nil_iff.mp hnil).1] at hspelled
    exact hd.nonempty hspelled.symm
  have hcore : ∀ c ∈ spelled ++ dots, isPlain c = true := by
    intro c hc
    rcases List.mem_append.mp hc with hc | hc
    · exact isPlain_toLower.mp (hplain _ (hspelled ▸ List.mem_map_of_mem hc))
    · rw [hdots c hc]
      decide
  have hunquoted := @trimAll_quoteLayers front opening _ tail hne hcore
  rw [← hcand] at hunquoted
  have hrest : '@' ∉ opening ++ (spelled ++ dots ++ strip quoteLayers tail) := by
    intro hm
    apply hat
    simp only [List.mem_append] at hm ⊢
    rcases hm with hm | hm | hm
    · exact .inl hm
    · exact .inr (.inl hm)
    · exact .inr (.inr ((strip_isPrefix _ _).subset hm))
  refine domainOf_eq_some.mpr ⟨_, _, hunquoted, hrest, ?_, hd.nonempty⟩
  rw [domainPiece_core hne hcore hopening htail, rdropWhile_append_of_pos (by simpa using hdots),
    hd.rdropWhile_spelled hspelled, hspelled]

theorem domainOf_iff_names {candidate domain : String} (hd : Canonical domain)
    (hplain : ∀ c ∈ domain.toList, isPlain c = true) :
    domainOf candidate = some domain ↔ Names candidate.toList domain.toList :=
  ⟨names_of_domainOf, domainOf_of_names hd hplain⟩

theorem addressPart_bare {s : String} (h : '<' ∉ s.toList) : addressPart s = s := by
  rw [addressPart, splitFirst_eq_none.mpr h]

theorem addressPart_pair {s : String} {before x after : List Char}
    (hs : s.toList = before ++ '<' :: (x ++ '>' :: after)) (hb : '<' ∉ before) (hx : '>' ∉ x) :
    addressPart s = .ofList x := by
  have hclose : splitFirst '>' (.ofList (x ++ '>' :: after)) = some (.ofList x, .ofList after) :=
    splitFirst_of_first (String.toList_ofList) hx
  rw [addressPart, splitFirst_of_first hs hb]
  change closedPart (.ofList (x ++ '>' :: after)) = _
  rw [closedPart, hclose]

theorem extractEmailDomain_of_ne {s : String} (hne : (trim s).toList ≠ []) :
    extractEmailDomain s = domainOf (addressPart (trim s)) := by
  rw [extractEmailDomain_eq, if_neg]
  rwa [isBlank_eq_true]

theorem extractEmailDomain_pair {s : String} {before x after : List Char}
    (hs : s.toList = before ++ '<' :: (x ++ '>' :: after)) (hbefore : '<' ∉ before)
    (hx : '>' ∉ x) : extractEmailDomain s = domainOf (.ofList x) := by
  have htrim : (trim s).toList = before.dropWhile isWhitespace ++
      '<' :: (x ++ '>' :: after.rdropWhile isWhitespace) := by
    rw [toList_trim, hs, both, dropWhile_stop (by decide), ← List.cons_append, ← List.append_assoc,
      rdropWhile_stop (by decide), List.append_assoc, List.cons_append]
  have hdropped : '<' ∉ before.dropWhile isWhitespace :=
    fun hm => hbefore ((List.dropWhile_suffix _).subset hm)
  rw [extractEmailDomain_of_ne (by simp [htrim]), addressPart_pair htrim hdropped hx]

/-- The first occurrence of a character splits a text in one way. -/
theorem first_unique {c : Char} {before before' after after' : List Char} (hb : c ∉ before)
    (hb' : c ∉ before') (h : before ++ c :: after = before' ++ c :: after') :
    before = before' ∧ after = after' := by
  have htake := congrArg (List.takeWhile fun x => decide (x ≠ c)) h
  have hdrop := congrArg (List.dropWhile fun x => decide (x ≠ c)) h
  rw [takeWhile_ne_of_not_mem hb, takeWhile_ne_of_not_mem hb'] at htake
  rw [dropWhile_ne_of_not_mem hb, dropWhile_ne_of_not_mem hb', List.cons.injEq] at hdrop
  exact ⟨htake, hdrop.2⟩

section
variable {q localPart domain : String}

theorem canonical_toAsciiLowercase (hdomain : ∀ c ∈ domain.toList, isPlain c = true)
    (hne : domain.toList ≠ []) (hend : domain.toList.getLast? ≠ some '.') :
    Canonical (toAsciiLowercase domain) := by
  have hmem : ∀ c ∈ (toAsciiLowercase domain).toList, ∃ b ∈ domain.toList, b.toLower = c := by
    intro c hc
    rw [toList_toAsciiLowercase] at hc
    exact List.mem_map.mp hc
  refine ⟨by simpa using hne, fun c hc => ?_, fun c hc => ?_, ?_⟩
  · obtain ⟨b, hb, rfl⟩ := hmem c hc
    have := isPlain_eq_true.mp (isPlain_toLower.mpr (hdomain b hb))
    simp [this]
  · obtain ⟨b, -, rfl⟩ := hmem c hc
    exact isUpper_toLower b
  · rw [toList_toAsciiLowercase, List.getLast?_map]
    intro hlast
    obtain ⟨b, hb, hdot⟩ := Option.map_eq_some_iff.mp hlast
    rw [toLower_eq_iff (by decide)] at hdot
    exact hend (hdot ▸ hb)

/-- A local part and a domain of plain characters, the domain without a dot at its end. -/
structure PlainMailbox (localPart domain : String) : Prop where
  plainLocal : ∀ c ∈ localPart.toList, isPlain c = true
  plainDomain : ∀ c ∈ domain.toList, isPlain c = true
  nonempty : domain.toList ≠ []
  undotted : domain.toList.getLast? ≠ some '.'

def address (localPart domain : String) : List Char := localPart.toList ++ '@' :: domain.toList

/-- The address between the brackets names the domain, whatever stands before it. -/
theorem PlainMailbox.names_address (h : PlainMailbox localPart domain) (front : List Char) :
    Names (front ++ address localPart domain) (toAsciiLowercase domain).toList := by
  refine ⟨front ++ localPart.toList, [], domain.toList, [], [], by simp [address], ?_,
    Layered.nil _, by simp, by simp, .inl (Layered.nil _)⟩
  intro hat
  have := isPlain_eq_true.mp (h.plainDomain '@' (by simpa using hat))
  simp at this

theorem PlainMailbox.solid (h : PlainMailbox localPart domain) :
    ∀ c ∈ address localPart domain, isWhitespace c = false ∧ c ≠ '<' ∧ c ≠ '>' := by
  intro c hc
  rw [address, List.mem_append, List.mem_cons] at hc
  rcases hc with hc | rfl | hc
  · have := isPlain_eq_true.mp (h.plainLocal c hc)
    simp [this]
  · decide
  · have := isPlain_eq_true.mp (h.plainDomain c hc)
    simp [this]

theorem PlainMailbox.open_not_mem (h : PlainMailbox localPart domain) :
    '<' ∉ address localPart domain :=
  fun hm => (h.solid _ hm).2.1 rfl

theorem PlainMailbox.close_not_mem (h : PlainMailbox localPart domain) :
    '>' ∉ address localPart domain :=
  fun hm => (h.solid _ hm).2.2 rfl

theorem PlainMailbox.domainOf_iff (h : PlainMailbox localPart domain) {s : String} :
    domainOf s = some (toAsciiLowercase domain) ↔
      Names s.toList (toAsciiLowercase domain).toList := by
  apply domainOf_iff_names (canonical_toAsciiLowercase h.plainDomain h.nonempty h.undotted)
  intro c hc
  rw [toList_toAsciiLowercase] at hc
  obtain ⟨b, hb, rfl⟩ := List.mem_map.mp hc
  exact isPlain_toLower.mpr (h.plainDomain b hb)

/-- The three ways of writing the mailbox have the domain, in lower case. -/
structure SameDomain (q localPart domain : String) : Prop where
  bare : extractEmailDomain (localPart ++ "@" ++ domain) = some (toAsciiLowercase domain)
  bracketed : extractEmailDomain ("<" ++ localPart ++ "@" ++ domain ++ ">") =
    some (toAsciiLowercase domain)
  named : extractEmailDomain ("\"" ++ q ++ "\" <" ++ localPart ++ "@" ++ domain ++ ">") =
    some (toAsciiLowercase domain)

/-- When the display name has a pair of angle brackets, the text between names the domain. -/
def Harmless (q domain : String) : Prop :=
  ∀ before x after, q.toList = before ++ '<' :: (x ++ '>' :: after) → '<' ∉ before → '>' ∉ x →
    Names x (toAsciiLowercase domain).toList

theorem PlainMailbox.at_end (h : PlainMailbox localPart domain) {s : String} {front : List Char}
    (hs : s.toList = front ++ address localPart domain) (hfront : '<' ∉ front) :
    extractEmailDomain s = some (toAsciiLowercase domain) := by
  have hcons : address localPart domain ≠ [] := by simp [address]
  have htrim : (trim s).toList = front.dropWhile isWhitespace ++ address localPart domain := by
    have hcore := both_core (l := front) (t := []) hcons fun c hc => (h.solid c hc).1
    rw [List.append_nil, List.rdropWhile_nil, List.append_nil] at hcore
    rw [toList_trim, hs, hcore]
  have hopen : '<' ∉ (trim s).toList := by
    rw [htrim, List.mem_append, not_or]
    exact ⟨fun hm => hfront ((List.dropWhile_suffix _).subset hm), h.open_not_mem⟩
  rw [extractEmailDomain_of_ne (by simp [htrim, hcons]), addressPart_bare hopen, h.domainOf_iff,
    htrim]
  exact h.names_address _

/-- The address in the first pair of brackets decides. -/
theorem PlainMailbox.in_brackets (h : PlainMailbox localPart domain) {s : String}
    {before after : List Char}
    (hs : s.toList = before ++ '<' :: (address localPart domain ++ '>' :: after))
    (hbefore : '<' ∉ before) : extractEmailDomain s = some (toAsciiLowercase domain) := by
  rw [extractEmailDomain_pair hs hbefore h.close_not_mem, h.domainOf_iff, String.toList_ofList]
  exact h.names_address []

theorem PlainMailbox.bare (h : PlainMailbox localPart domain) :
    extractEmailDomain (localPart ++ "@" ++ domain) = some (toAsciiLowercase domain) :=
  @PlainMailbox.at_end _ _ h _ [] (by simp [address]) (by simp)

theorem PlainMailbox.bracketed (h : PlainMailbox localPart domain) :
    extractEmailDomain ("<" ++ localPart ++ "@" ++ domain ++ ">") =
      some (toAsciiLowercase domain) :=
  @PlainMailbox.in_brackets _ _ h _ [] [] (by simp [address]) (by simp)

/-- The first pair of brackets of the display name decides. -/
theorem harmless_iff_pair {before x after : List Char}
    (hsplit : q.toList = before ++ '<' :: (x ++ '>' :: after)) (hbefore : '<' ∉ before)
    (hx : '>' ∉ x) : Harmless q domain ↔ Names x (toAsciiLowercase domain).toList := by
  constructor
  · exact fun h => h before x after hsplit hbefore hx
  · intro hnames before' y after' hsplit' hbefore' hy
    obtain ⟨-, hrest⟩ := first_unique hbefore hbefore' (hsplit.symm.trans hsplit')
    rwa [← (first_unique hx hy hrest).1]

theorem harmless_of_unclosed {before rest : List Char} (hsplit : q.toList = before ++ '<' :: rest)
    (hbefore : '<' ∉ before) (hrest : '>' ∉ rest) : Harmless q domain := by
  intro before' y after' hsplit' hbefore' _
  obtain ⟨-, heq⟩ := first_unique hbefore hbefore' (hsplit.symm.trans hsplit')
  rw [heq] at hrest
  exact absurd (List.mem_append_right _ List.mem_cons_self) hrest

theorem harmless_of_unopened (hq : '<' ∉ q.toList) : Harmless q domain := by
  intro before' y after' hsplit' _ _
  rw [hsplit'] at hq
  exact absurd (List.mem_append_right _ List.mem_cons_self) hq

theorem PlainMailbox.named_iff (h : PlainMailbox localPart domain) :
    extractEmailDomain ("\"" ++ q ++ "\" <" ++ localPart ++ "@" ++ domain ++ ">") =
      some (toAsciiLowercase domain) ↔ Harmless q domain := by
  have hclose := h.close_not_mem
  have hnames := h.names_address
  have hs : ("\"" ++ q ++ "\" <" ++ localPart ++ "@" ++ domain ++ ">").toList =
      '"' :: ((q.toList ++ '"' :: ' ' :: '<' :: address localPart domain) ++ ['>']) := by
    simp [address]
  by_cases hq : '<' ∈ q.toList
  · obtain ⟨before, rest, hsplit, hbefore⟩ := List.eq_append_cons_of_mem hq
    by_cases hr : '>' ∈ rest
    · -- the pair of the display name is the first one
      obtain ⟨x, after, rfl, hx⟩ := List.eq_append_cons_of_mem hr
      have hfirst := @extractEmailDomain_pair _ ('"' :: before) x
        (after ++ '"' :: ' ' :: '<' :: (address localPart domain ++ ['>']))
        (by rw [hs, hsplit]; simp) (by simpa using hbefore) hx
      rw [hfirst, h.domainOf_iff, String.toList_ofList, harmless_iff_pair hsplit hbefore hx]
    · -- the text behind the only bracket ends with the address
      have hfirst := @extractEmailDomain_pair _ ('"' :: before)
        (rest ++ '"' :: ' ' :: '<' :: address localPart domain) []
        (by rw [hs, hsplit]; simp) (by simpa using hbefore) (by simp [hr, hclose])
      rw [hfirst, h.domainOf_iff, String.toList_ofList]
      refine iff_of_true ?_ (harmless_of_unclosed hsplit hbefore hr)
      have := hnames (rest ++ '"' :: ' ' :: ['<'])
      simpa using this
  · have hfirst := @PlainMailbox.in_brackets _ _ h _ ('"' :: (q.toList ++ '"' :: [' '])) []
      (by rw [hs]; simp) (by simp [hq])
    exact iff_of_true hfirst (harmless_of_unopened hq)

/-- The display name leaves the domain alone exactly when it is harmless. -/
theorem display_name_harmless_iff (hlocal : ∀ c ∈ localPart.toList, isPlain c = true)
    (hdomain : ∀ c ∈ domain.toList, isPlain c = true) (hne : domain.toList ≠ [])
    (hend : domain.toList.getLast? ≠ some '.') :
    SameDomain q localPart domain ↔ Harmless q domain := by
  have hmailbox : PlainMailbox localPart domain := ⟨hlocal, hdomain, hne, hend⟩
  rw [← hmailbox.named_iff (q := q)]
  constructor
  · exact fun h => h.named
  · exact fun h => ⟨hmailbox.bare, hmailbox.bracketed, h⟩

end

/-- One angle bracket and an `@` in the display name do no harm. -/
theorem display_name_harmless_iff_bracket : SameDomain "a@b <c" "d" "E.org" := by
  have hlocal : ("d".toList.all isLocalCharacter) = true := by decide
  have hdomain : ("E.org".toList.all isDomainCharacter) = true := by decide
  rw [List.all_eq_true] at hlocal hdomain
  refine (display_name_harmless_iff (fun c hc => isPlain_of_isLocalCharacter (hlocal c hc))
    (fun c hc => isPlain_of_isDomainCharacter (hdomain c hc)) (by decide) (by decide)).mpr ?_
  intro before x after h _ _
  have hmem : '>' ∈ "a@b <c".toList := by
    rw [h]
    simp
  exact absurd hmem (by decide)

/-- A pair of angle brackets in the display name replaces the domain. -/
theorem display_name_not_harmless : ¬ ∀ q localPart domain : String, '"' ∉ q.toList →
    '\\' ∉ q.toList → localPart.toList ≠ [] →
      (∀ c ∈ localPart.toList, isLocalCharacter c = true) →
        (∀ c ∈ domain.toList, isDomainCharacter c = true) → domain.toList ≠ [] →
          domain.toList.getLast? ≠ some '.' → SameDomain q localPart domain := by
  intro hall
  have h := (hall "<b@c.de>" "d" "e.org" (by decide) (by decide) (by decide)
    (List.all_eq_true.mp (by decide)) (List.all_eq_true.mp (by decide)) (by decide)
    (by decide)).named
  revert h
  decide +kernel

end ResendRouter.Routing
