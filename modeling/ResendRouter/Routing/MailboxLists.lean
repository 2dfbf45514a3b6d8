import ResendRouter.Routing.DisplayNames

/-! # Lists of mailboxes

The angle brackets are looked for from the left and the `@` from the right. So
the first mailbox that is written with brackets decides the domain, and the last
one when no mailbox is.
-/

namespace ResendRouter.Routing
open Foundation Trim Program

/-- A mailbox of plain characters, with a display name that may also have blanks. -/
structure Mailbox where
  name : String
  localPart : String
  domain : String
  plainName : ∀ c ∈ name.toList, c = ' ' ∨ isPlain c = true
  plain : PlainMailbox localPart domain

def isNameLetter (c : Char) : Bool := c = ' ' || isAsciiAlphanumeric c

def Mailbox.ofAscii (name localPart domain : String) (hname : name.toList.all isNameLetter = true)
    (hlocal : localPart.toList.all isLocalCharacter = true)
    (hdomain : domain.toList.all isDomainCharacter = true) (hne : domain.toList ≠ [])
    (hend : domain.toList.getLast? ≠ some '.') : Mailbox where
  name := name
  localPart := localPart
  domain := domain
  plainName c hc := by
    have hletter := List.all_eq_true.mp hname c hc
    rw [isNameLetter, Bool.or_eq_true, decide_eq_true_iff] at hletter
    refine hletter.imp_right fun h => isPlain_of_isLocalCharacter ?_
    rw [isLocalCharacter, h, Bool.true_or]
  plain := {
    plainLocal := fun c hc => isPlain_of_isLocalCharacter (List.all_eq_true.mp hlocal c hc)
    plainDomain := fun c hc => isPlain_of_isDomainCharacter (List.all_eq_true.mp hdomain c hc)
    nonempty := hne
    undotted := hend }

/-- A mailbox in one of the two ways of writing it, with its display name or bare. -/
structure Writing where
  mailbox : Mailbox
  named : Bool

def Writing.text (w : Writing) : String :=
  if w.named then w.mailbox.name ++ " <" ++ w.mailbox.localPart ++ "@" ++ w.mailbox.domain ++ ">"
  else w.mailbox.localPart ++ "@" ++ w.mailbox.domain

def listText (ws : List Writing) : String := ", ".intercalate (ws.map Writing.text)

/-- The mailbox that is read: the first one in brackets, or else the last one. -/
def deciding (w : Writing) (ws : List Writing) : Mailbox :=
  (((w :: ws).find? Writing.named).getD ((w :: ws).getLast (List.cons_ne_nil _ _))).mailbox

/-- Before a piece stand only characters of the separator and of earlier pieces, and behind the
last piece stands nothing. -/
theorem intercalate_split (separator piece : String) (pieces more : List String) :
    ∃ front back, (separator.intercalate (pieces ++ piece :: more)).toList =
        front ++ (piece.toList ++ back) ∧
      (∀ c ∈ front, c ∈ separator.toList ∨ ∃ s ∈ pieces, c ∈ s.toList) ∧
      (more = [] → back = []) := by
  induction pieces with
  | nil =>
    cases more with
    | nil => exact ⟨[], [], by simp, by simp, fun _ => rfl⟩
    | cons next more =>
      refine ⟨[], (separator ++ separator.intercalate (next :: more)).toList, ?_, by simp, by simp⟩
      simp [String.intercalate_cons_cons]
  | cons s pieces ih =>
    obtain ⟨front, back, hsplit, hfront, hback⟩ := ih
    refine ⟨s.toList ++ (separator.toList ++ front), back, ?_, ?_, hback⟩
    · rw [List.cons_append, String.intercalate_cons_of_ne_nil (by simp), String.toList_append,
        String.toList_append, hsplit]
      simp
    · intro c hc
      rw [List.mem_append, List.mem_append] at hc
      rcases hc with hc | hc | hc
      · exact .inr ⟨s, List.mem_cons_self, hc⟩
      · exact .inl hc
      · refine (hfront c hc).imp_right ?_
        rintro ⟨t, ht, hct⟩
        exact ⟨t, List.mem_cons_of_mem _ ht, hct⟩

theorem Writing.toList_text_bare {w : Writing} (h : w.named = false) :
    w.text.toList = address w.mailbox.localPart w.mailbox.domain := by
  simp [Writing.text, h, address]

theorem Writing.toList_text_named {w : Writing} (h : w.named = true) :
    w.text.toList = w.mailbox.name.toList ++
      ' ' :: '<' :: (address w.mailbox.localPart w.mailbox.domain ++ ['>']) := by
  simp [Writing.text, h, address]

theorem open_not_mem_bare {ws : List Writing} (h : ∀ w ∈ ws, w.named = false) {front : List Char}
    (hfront : ∀ c ∈ front, c ∈ ", ".toList ∨ ∃ s ∈ ws.map Writing.text, c ∈ s.toList) :
    '<' ∉ front := by
  intro hopen
  rcases hfront '<' hopen with hsep | ⟨s, hs, hopen⟩
  · revert hsep
    decide
  · obtain ⟨w, hw, rfl⟩ := List.mem_map.mp hs
    rw [Writing.toList_text_bare (h w hw)] at hopen
    exact w.mailbox.plain.open_not_mem hopen

theorem listText_named {v : Writing} {before after : List Writing}
    (hbefore : ∀ w ∈ before, w.named = false) (hv : v.named = true) :
    extractEmailDomain (listText (before ++ v :: after)) =
      some (toAsciiLowercase v.mailbox.domain) := by
  obtain ⟨front, back, hsplit, hfront, -⟩ := intercalate_split ", " v.text
    (before.map Writing.text) (after.map Writing.text)
  rw [← List.map_cons, ← List.map_append, ← listText, Writing.toList_text_named hv] at hsplit
  have hs : (listText (before ++ v :: after)).toList =
      (front ++ (v.mailbox.name.toList ++ [' '])) ++
        '<' :: (address v.mailbox.localPart v.mailbox.domain ++ '>' :: back) := by
    rw [hsplit]
    simp
  have hname : '<' ∉ v.mailbox.name.toList := by
    intro hopen
    rcases v.mailbox.plainName '<' hopen with hblank | hplain
    · cases hblank
    · exact absurd hplain (by decide)
  have hopen : '<' ∉ front ++ (v.mailbox.name.toList ++ [' ']) := by
    simp [open_not_mem_bare hbefore hfront, hname]
  exact v.mailbox.plain.in_brackets hs hopen

theorem listText_bare {v : Writing} {before : List Writing}
    (hbefore : ∀ w ∈ before, w.named = false) (hv : v.named = false) :
    extractEmailDomain (listText (before ++ [v])) = some (toAsciiLowercase v.mailbox.domain) := by
  obtain ⟨front, back, hsplit, hfront, hback⟩ := intercalate_split ", " v.text
    (before.map Writing.text) []
  rw [hback rfl, List.append_nil, Writing.toList_text_bare hv] at hsplit
  apply v.mailbox.plain.at_end _ (open_not_mem_bare hbefore hfront)
  rw [listText, List.map_append, List.map_singleton, hsplit]

theorem deciding_named {w v : Writing} {ws before after : List Writing}
    (hsplit : w :: ws = before ++ v :: after) (hbefore : ∀ u ∈ before, u.named = false)
    (hv : v.named = true) : deciding w ws = v.mailbox := by
  have hfind : (w :: ws).find? Writing.named = some v :=
    List.find?_eq_some_iff_append.mpr ⟨hv, before, after, hsplit, by simpa using hbefore⟩
  rw [deciding, hfind, Option.getD_some]

theorem deciding_bare {w : Writing} {ws : List Writing} (h : ∀ u ∈ w :: ws, u.named = false) :
    deciding w ws = ((w :: ws).getLast (List.cons_ne_nil _ _)).mailbox := by
  have hfind : (w :: ws).find? Writing.named = none := by simpa using h
  rw [deciding, hfind, Option.getD_none]

theorem extractEmailDomain_listText (w : Writing) (ws : List Writing) :
    extractEmailDomain (listText (w :: ws)) =
      some (toAsciiLowercase (deciding w ws).domain) := by
  cases hfind : (w :: ws).find? Writing.named with
  | some v =>
    obtain ⟨hv, before, after, hsplit, hall⟩ := List.find?_eq_some_iff_append.mp hfind
    have hbefore : ∀ u ∈ before, u.named = false := by simpa using hall
    rw [deciding_named hsplit hbefore hv, hsplit, listText_named hbefore hv]
  | none =>
    have hall : ∀ u ∈ w :: ws, u.named = false := by simpa using List.find?_eq_none.mp hfind
    have hlast := List.dropLast_append_getLast (List.cons_ne_nil w ws)
    rw [deciding_bare hall]
    conv_lhs => rw [← hlast]
    exact listText_bare (fun u hu => hall u (List.dropLast_subset _ hu))
      (hall _ (List.getLast_mem _))

theorem deciding_mem (w : Writing) (ws : List Writing) :
    deciding w ws ∈ (w :: ws).map Writing.mailbox := by
  rw [deciding]
  cases hfind : (w :: ws).find? Writing.named with
  | some v => exact List.mem_map_of_mem (List.mem_of_find?_eq_some hfind)
  | none => exact List.mem_map_of_mem (List.getLast_mem _)

/-- Every mailbox of a list decides in some way of writing it. -/
theorem exists_deciding {m n : Mailbox} {ms : List Mailbox} (hn : n ∈ ms) :
    ∃ w ws, w.mailbox = m ∧ ws.map Writing.mailbox = ms ∧ deciding w ws = n := by
  obtain ⟨before, after, rfl⟩ := List.append_of_mem hn
  let bare : Mailbox → Writing := fun k => ⟨k, false⟩
  refine ⟨bare m, before.map bare ++ ⟨n, true⟩ :: after.map bare, rfl, ?_, ?_⟩
  · have hbare : Writing.mailbox ∘ bare = id := rfl
    simp [hbare]
  · refine @deciding_named _ _ _ (bare m :: before.map bare) (after.map bare) rfl ?_ rfl
    intro u hu
    rcases List.mem_cons.mp hu with rfl | hu
    · rfl
    · obtain ⟨k, -, rfl⟩ := List.mem_map.mp hu
      rfl

/-- The domain of the first mailbox is extracted exactly when the deciding mailbox has the same one
in lower case; for every way of writing a list, exactly when all of its mailboxes have it. -/
theorem mailbox_list_domain_iff (w : Writing) (ws : List Writing) :
    (extractEmailDomain (listText (w :: ws)) = some (toAsciiLowercase w.mailbox.domain) ↔
      toAsciiLowercase (deciding w ws).domain = toAsciiLowercase w.mailbox.domain) ∧
    ((∀ v vs, v.mailbox = w.mailbox → vs.map Writing.mailbox = ws.map Writing.mailbox →
        extractEmailDomain (listText (v :: vs)) = some (toAsciiLowercase w.mailbox.domain)) ↔
      ∀ m ∈ ws.map Writing.mailbox,
        toAsciiLowercase m.domain = toAsciiLowercase w.mailbox.domain) := by
  constructor
  · rw [extractEmailDomain_listText, Option.some.injEq]
  · constructor
    · intro h m hm
      obtain ⟨v, vs, hv, hvs, hdeciding⟩ := exists_deciding (m := w.mailbox) hm
      have hread := h v vs hv hvs
      rwa [extractEmailDomain_listText, hdeciding, Option.some.injEq] at hread
    · intro h v vs hv hvs
      rw [extractEmailDomain_listText, Option.some.injEq]
      have hmem := deciding_mem v vs
      rw [List.map_cons, List.mem_cons, hv, hvs] at hmem
      rcases hmem with hfirst | hlater
      · rw [hfirst]
      · exact h _ hlater

def ann : Mailbox := .ofAscii "Ann B" "ann" "x.com" (by decide) (by decide) (by decide) (by decide)
  (by decide)

def bob : Mailbox := .ofAscii "Bob" "b.c" "Y.com" (by decide) (by decide) (by decide) (by decide)
  (by decide)

/-- A list whose first mailbox decides, and one of a single domain, written in two ways. -/
theorem mailbox_list_domain_iff_named :
    extractEmailDomain (listText [⟨bob, true⟩, ⟨ann, false⟩]) = some "y.com" ∧
    extractEmailDomain (listText [⟨bob, false⟩, ⟨bob, true⟩]) = some "y.com" := by
  have hlower : toAsciiLowercase bob.domain = "y.com" := by decide
  constructor
  · rw [← hlower]
    exact (mailbox_list_domain_iff ⟨bob, true⟩ [⟨ann, false⟩]).1.mpr rfl
  · rw [← hlower]
    refine (mailbox_list_domain_iff ⟨bob, false⟩ [⟨bob, false⟩]).2.mpr ?_ ⟨bob, false⟩
      [⟨bob, true⟩] rfl rfl
    simp

/-- Written bare, a list of two mailboxes has the domain of the last one; the same list has the
domain of the first one when that is written with its name. -/
theorem mailbox_list_not_first :
    listText [⟨ann, false⟩, ⟨bob, false⟩] = "ann@x.com, b.c@Y.com" ∧
    extractEmailDomain (listText [⟨ann, false⟩, ⟨bob, false⟩]) = some "y.com" ∧
    extractEmailDomain (listText [⟨ann, true⟩, ⟨bob, false⟩]) = some "x.com" ∧
    toAsciiLowercase ann.domain = "x.com" := by
  have hbob : toAsciiLowercase bob.domain = "y.com" := by decide
  have hann : toAsciiLowercase ann.domain = "x.com" := by decide
  refine ⟨rfl, ?_, ?_, hann⟩
  · rw [← hbob]
    exact extractEmailDomain_listText ⟨ann, false⟩ [⟨bob, false⟩]
  · rw [← hann]
    exact extractEmailDomain_listText ⟨ann, true⟩ [⟨bob, false⟩]

end ResendRouter.Routing
