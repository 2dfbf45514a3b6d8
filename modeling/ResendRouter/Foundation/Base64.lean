import ResendRouter.Foundation.Bytes
import Mathlib.Data.List.DropRight
import Mathlib.Data.List.Nodup
import Mathlib.Data.List.GetD

/-! # Base64 with two alphabets and two padding rules

An engine either requires canonical padding or allows none; non-zero trailing
bits are rejected by both.
-/

namespace ResendRouter.Foundation.Base64

structure Engine where
  urlSafe : Bool
  padded : Bool

def standard : Engine := ⟨false, true⟩
def standardNoPad : Engine := ⟨false, false⟩
def urlSafe : Engine := ⟨true, true⟩
def urlSafeNoPad : Engine := ⟨true, false⟩

def engines : List Engine := [standard, standardNoPad, urlSafe, urlSafeNoPad]

def letters : List Char :=
  "ABCDEFGHIJKLMNOPQRSTUVWXYZabcdefghijklmnopqrstuvwxyz0123456789".toList

def Engine.alphabet (e : Engine) : List Char :=
  letters ++ if e.urlSafe then ['-', '_'] else ['+', '/']

def Engine.symbol (e : Engine) (v : ℕ) : Char := e.alphabet.getD v '='

def Engine.value (e : Engine) (c : Char) : Option ℕ := e.alphabet.idxOf? c

/-- Six-bit groups of a byte string, the last one filled up with zero bits. -/
def toGroups : Bytes → List ℕ
  | [] => []
  | [a] => [a.toNat / 4, a.toNat % 4 * 16]
  | [a, b] => [a.toNat / 4, a.toNat % 4 * 16 + b.toNat / 16, b.toNat % 16 * 4]
  | a :: b :: c :: rest =>
    a.toNat / 4 :: (a.toNat % 4 * 16 + b.toNat / 16) :: (b.toNat % 16 * 4 + c.toNat / 64) ::
      c.toNat % 64 :: toGroups rest

/-- The bytes of a list of six-bit groups; leftover bits must be zero. -/
def ofGroups : List ℕ → Option Bytes
  | [] => some []
  | [_] => none
  | [a, b] => if b % 16 = 0 then some [.ofNat (a * 4 + b / 16)] else none
  | [a, b, c] =>
    if c % 4 = 0 then some [.ofNat (a * 4 + b / 16), .ofNat (b % 16 * 16 + c / 4)] else none
  | a :: b :: c :: d :: rest => (ofGroups rest).map fun bytes =>
    .ofNat (a * 4 + b / 16) :: .ofNat (b % 16 * 16 + c / 4) :: .ofNat (c % 4 * 64 + d) :: bytes

def padding (n : ℕ) : ℕ := (4 - n % 4) % 4

def Engine.encode (e : Engine) (bytes : Bytes) : String :=
  let body := (toGroups bytes).map e.symbol
  .ofList (body ++ List.replicate (if e.padded then padding body.length else 0) '=')

def Engine.decode (e : Engine) (s : String) : Option Bytes :=
  let body := s.toList.rdropWhile (· = '=')
  let pads := s.toList.length - body.length
  if pads = if e.padded then padding body.length else 0 then
    (body.mapM e.value).bind ofGroups
  else none

/-- The four engines are all combinations of an alphabet and a padding rule. -/
theorem mem_engines (e : Engine) : e ∈ engines := by
  rcases e with ⟨urlSafe, padded⟩
  cases urlSafe <;> cases padded <;>
    simp [engines, standard, standardNoPad, Base64.urlSafe, urlSafeNoPad]

theorem letters_nodup : letters.Nodup := by decide +kernel

theorem letters_length : letters.length = 62 := by decide +kernel

theorem letters_spec {c : Char} (h : c ∈ letters) :
    32 < c.toNat ∧ c.toNat < 127 ∧ c.isAlphanum = true := by
  have hall : (letters.all fun c => 32 < c.toNat && c.toNat < 127 && c.isAlphanum) = true := by
    decide +kernel
  simpa [and_assoc] using List.all_eq_true.mp hall c h

theorem Engine.mark_spec {e : Engine} {c : Char}
    (h : c ∈ if e.urlSafe then ['-', '_'] else ['+', '/']) :
    32 < c.toNat ∧ c.toNat < 127 ∧ c.isAlphanum = false ∧ c ≠ '=' := by
  split_ifs at h <;>
    · rw [List.mem_pair] at h
      rcases h with rfl | rfl <;> decide

theorem Engine.alphabet_nodup (e : Engine) : e.alphabet.Nodup := by
  rw [Engine.alphabet, List.nodup_append']
  refine ⟨letters_nodup, by cases e.urlSafe <;> decide, ?_⟩
  intro c hl hm
  have hletter := (letters_spec hl).2.2
  rw [(Engine.mark_spec hm).2.2.1] at hletter
  cases hletter

theorem Engine.alphabet_length (e : Engine) : e.alphabet.length = 64 := by
  rw [Engine.alphabet, List.length_append, letters_length]
  cases e.urlSafe <;> rfl

theorem Engine.pad_not_mem (e : Engine) : '=' ∉ e.alphabet := by
  rw [Engine.alphabet, List.mem_append]
  rintro (h | h)
  · exact absurd (letters_spec h).2.2 (by decide)
  · exact (Engine.mark_spec h).2.2.2 rfl

theorem Engine.symbol_eq {e : Engine} {v : ℕ} (h : v < e.alphabet.length) :
    e.symbol v = e.alphabet[v] := by
  rw [Engine.symbol, List.getD_eq_getElem _ _ h]

theorem Engine.value_eq_some {e : Engine} {c : Char} {v : ℕ} :
    e.value c = some v ↔ v < 64 ∧ e.symbol v = c := by
  rw [Engine.value, List.idxOf?_eq_some_iff, ← e.alphabet_length]
  constructor
  · rintro ⟨h, hc, -⟩
    exact ⟨h, (Engine.symbol_eq h).trans hc⟩
  · rintro ⟨h, hc⟩
    rw [Engine.symbol_eq h] at hc
    refine ⟨h, hc, fun j hj he => ?_⟩
    have := (List.Nodup.getElem_inj_iff e.alphabet_nodup).mp (he.trans hc.symm)
    omega

theorem Engine.symbol_ne_pad {e : Engine} {v : ℕ} (h : v < 64) : e.symbol v ≠ '=' := by
  intro heq
  rw [← e.alphabet_length] at h
  rw [Engine.symbol_eq h] at heq
  exact e.pad_not_mem (heq ▸ List.getElem_mem h)

theorem Engine.mapM_value {e : Engine} {body : List Char} {gs : List ℕ} :
    body.mapM e.value = some gs ↔ (∀ g ∈ gs, g < 64) ∧ gs.map e.symbol = body := by
  induction body generalizing gs with
  | nil => cases gs <;> simp
  | cons c body ih =>
    rw [List.mapM_cons]
    constructor
    · intro h
      cases hc : e.value c with
      | none => simp [hc] at h
      | some v =>
        cases hb : body.mapM e.value with
        | none => simp [hc, hb] at h
        | some vs =>
          obtain rfl : v :: vs = gs := by simpa [hc, hb] using h
          obtain ⟨hlt, hmap⟩ := ih.mp hb
          obtain ⟨hv, hsym⟩ := Engine.value_eq_some.mp hc
          simp only [List.forall_mem_cons, List.map_cons, hsym, hmap]
          exact ⟨⟨hv, hlt⟩, trivial⟩
    · rintro ⟨hlt, hmap⟩
      cases gs with
      | nil => cases hmap
      | cons v vs =>
        rw [List.map_cons, List.cons.injEq] at hmap
        rw [List.forall_mem_cons] at hlt
        rw [Engine.value_eq_some.mpr ⟨hlt.1, hmap.1⟩, ih.mpr ⟨hlt.2, hmap.2⟩]
        rfl

theorem toGroups_lt (bytes : Bytes) : ∀ g ∈ toGroups bytes, g < 64 := by
  fun_induction toGroups bytes with
  | case1 => simp
  | case2 a =>
    have := a.toNat_lt
    simp only [List.forall_mem_cons, List.not_mem_nil, false_imp_iff, implies_true, and_true]
    omega
  | case3 a b =>
    have := a.toNat_lt
    have := b.toNat_lt
    simp only [List.forall_mem_cons, List.not_mem_nil, false_imp_iff, implies_true, and_true]
    omega
  | case4 a b c rest ih =>
    have := a.toNat_lt
    have := b.toNat_lt
    have := c.toNat_lt
    simp only [List.forall_mem_cons]
    exact ⟨by omega, by omega, by omega, by omega, ih⟩

theorem ofNat_eq {n : ℕ} {b : UInt8} (h : n = b.toNat) : UInt8.ofNat n = b := by
  rw [h, UInt8.ofNat_toNat]

theorem ofGroups_toGroups (bytes : Bytes) : ofGroups (toGroups bytes) = some bytes := by
  fun_induction toGroups bytes with
  | case1 => rfl
  | case2 a =>
    have := a.toNat_lt
    rw [ofGroups, if_pos (by omega), ofNat_eq (b := a) (by omega)]
  | case3 a b =>
    have := a.toNat_lt
    have := b.toNat_lt
    rw [ofGroups, if_pos (by omega), ofNat_eq (b := a) (by omega), ofNat_eq (b := b) (by omega)]
  | case4 a b c rest ih =>
    have := a.toNat_lt
    have := b.toNat_lt
    have := c.toNat_lt
    rw [ofGroups, ih, Option.map_some, ofNat_eq (b := a) (by omega), ofNat_eq (b := b) (by omega),
      ofNat_eq (b := c) (by omega)]

theorem toGroups_of_ofGroups {gs : List ℕ} {bytes : Bytes} (hlt : ∀ g ∈ gs, g < 64)
    (h : ofGroups gs = some bytes) : toGroups bytes = gs := by
  fun_induction ofGroups gs generalizing bytes with
  | case1 =>
    cases h
    rfl
  | case2 => cases h
  | case3 a b hz =>
    cases h
    have ha := hlt a (by simp)
    have hb := hlt b (by simp)
    simp only [toGroups, UInt8.toNat_ofNat', List.cons.injEq, and_true]
    omega
  | case4 => cases h
  | case5 a b c hz =>
    cases h
    have ha := hlt a (by simp)
    have hb := hlt b (by simp)
    have hc := hlt c (by simp)
    simp only [toGroups, UInt8.toNat_ofNat', List.cons.injEq, and_true]
    omega
  | case6 => cases h
  | case7 a b c d rest ih =>
    obtain ⟨more, hmore, rfl⟩ := Option.map_eq_some_iff.mp h
    have ha := hlt a (by simp)
    have hb := hlt b (by simp)
    have hc := hlt c (by simp)
    have hd := hlt d (by simp)
    rw [toGroups, ih (fun g hg => hlt g (by simp [hg])) hmore]
    simp only [UInt8.toNat_ofNat', List.cons.injEq, and_true]
    omega

theorem rdropWhile_append_replicate {body : List Char} (h : '=' ∉ body) (n : ℕ) :
    (body ++ List.replicate n '=').rdropWhile (· = '=') = body := by
  induction n with
  | zero =>
    rw [List.replicate_zero, List.append_nil, List.rdropWhile_eq_self_iff]
    intro hne heq
    have hlast := List.getLast_mem hne
    rw [of_decide_eq_true heq] at hlast
    exact h hlast
  | succ n ih => rw [List.replicate_succ', ← List.append_assoc, List.rdropWhile_concat_pos _ _ _
      (by simp), ih]

theorem append_replicate_rdropWhile (cs : List Char) :
    cs.rdropWhile (· = '=') ++
      List.replicate (cs.length - (cs.rdropWhile (· = '=')).length) '=' = cs := by
  induction cs using List.reverseRecOn with
  | nil => rfl
  | append_singleton cs c ih =>
    by_cases hc : c = '='
    · have hle := (List.rdropWhile_prefix (· = '=') cs).length_le
      rw [List.rdropWhile_concat_pos _ _ _ (by simp [hc]), List.length_append,
        List.length_singleton, Nat.sub_add_comm hle, List.replicate_succ', ← List.append_assoc, ih,
        hc]
    · rw [List.rdropWhile_concat_neg _ _ _ (by simp [hc])]
      simp

/-- Every text is the canonical spelling of at most one byte string, and only that is decoded. -/
theorem Engine.decode_eq_some {e : Engine} {s : String} {bytes : Bytes} :
    e.decode s = some bytes ↔ e.encode bytes = s := by
  constructor
  · intro h
    simp only [Engine.decode, Option.ite_none_right_eq_some] at h
    obtain ⟨hpads, h⟩ := h
    obtain ⟨gs, hgs, hbytes⟩ := Option.bind_eq_some_iff.mp h
    obtain ⟨hlt, hmap⟩ := Engine.mapM_value.mp hgs
    have hbody := append_replicate_rdropWhile s.toList
    rw [hpads, ← hmap] at hbody
    rw [Engine.encode, toGroups_of_ofGroups hlt hbytes, hbody, String.ofList_toList]
  · rintro rfl
    have hpad : '=' ∉ (toGroups bytes).map e.symbol := by
      intro hm
      obtain ⟨g, hg, heq⟩ := List.mem_map.mp hm
      exact Engine.symbol_ne_pad (toGroups_lt bytes g hg) heq
    have hgs : ((toGroups bytes).map e.symbol).mapM e.value = some (toGroups bytes) :=
      Engine.mapM_value.mpr ⟨toGroups_lt bytes, rfl⟩
    simp only [Engine.decode, Engine.encode, String.toList_ofList,
      rdropWhile_append_replicate hpad, List.length_append, List.length_replicate,
      Nat.add_sub_cancel_left, if_true, hgs, Option.bind_some, ofGroups_toGroups]

theorem Engine.alphabet_visible (e : Engine) : ∀ c ∈ e.alphabet, 32 < c.toNat ∧ c.toNat < 127 := by
  intro c hc
  rw [Engine.alphabet, List.mem_append] at hc
  rcases hc with hc | hc
  · exact ⟨(letters_spec hc).1, (letters_spec hc).2.1⟩
  · exact ⟨(Engine.mark_spec hc).1, (Engine.mark_spec hc).2.1⟩

theorem Engine.encode_visible {e : Engine} {bytes : Bytes} :
    ∀ c ∈ (e.encode bytes).toList, 32 < c.toNat ∧ c.toNat < 127 := by
  intro c hc
  rw [Engine.encode, String.toList_ofList, List.mem_append, List.mem_map] at hc
  rcases hc with ⟨v, hv, rfl⟩ | hc
  · have hlt : v < e.alphabet.length := e.alphabet_length ▸ toGroups_lt bytes v hv
    rw [Engine.symbol_eq hlt]
    exact e.alphabet_visible _ (List.getElem_mem hlt)
  · rw [List.eq_of_mem_replicate hc]
    decide

theorem Engine.symbol_letter {e : Engine} {v : ℕ} (h : v < letters.length) :
    e.symbol v = letters[v] := by
  rw [Engine.symbol, Engine.alphabet, List.getD_append _ _ _ _ h, List.getD_eq_getElem _ _ h]

theorem Engine.symbol_last {e : Engine} {v : ℕ} (hle : letters.length ≤ v) (h : v < 64) :
    e.symbol v = if v = 62 then if e.urlSafe then '-' else '+'
      else if e.urlSafe then '_' else '/' := by
  rw [Engine.symbol, Engine.alphabet, List.getD_append_right _ _ _ _ hle, letters_length]
  rw [letters_length] at hle
  cases e.urlSafe <;> interval_cases v <;> rfl

theorem Engine.symbol_last_not_mem {e : Engine} {v : ℕ} (hle : letters.length ≤ v)
    (h : v < 64) : e.symbol v ∉ letters := by
  rw [Engine.symbol_last hle h]
  split_ifs <;> exact fun h => absurd (letters_spec h).2.2 (by decide)

theorem Engine.symbol_inj {e e' : Engine} {v v' : ℕ} (h : v < 64) (h' : v' < 64)
    (heq : e.symbol v = e'.symbol v') : v = v' := by
  rcases Nat.lt_or_ge v letters.length with hv | hv
  · rcases Nat.lt_or_ge v' letters.length with hv' | hv'
    · rw [Engine.symbol_letter hv, Engine.symbol_letter hv'] at heq
      exact (List.Nodup.getElem_inj_iff letters_nodup).mp heq
    · refine absurd ?_ (e'.symbol_last_not_mem hv' h')
      rw [← heq, Engine.symbol_letter hv]
      exact List.getElem_mem _
  · rcases Nat.lt_or_ge v' letters.length with hv' | hv'
    · refine absurd ?_ (e.symbol_last_not_mem hv h)
      rw [heq, Engine.symbol_letter hv']
      exact List.getElem_mem _
    · rw [Engine.symbol_last hv h, Engine.symbol_last hv' h'] at heq
      rw [letters_length] at hv hv'
      by_contra hne
      have hcases : v = 62 ∧ v' = 63 ∨ v = 63 ∧ v' = 62 := by omega
      rcases hcases with ⟨rfl, rfl⟩ | ⟨rfl, rfl⟩ <;> revert heq <;>
        cases e.urlSafe <;> cases e'.urlSafe <;> decide

/-- Two engines never read different bytes from one text. -/
theorem decode_agree {e e' : Engine} {s : String} {bytes bytes' : Bytes}
    (h : e.decode s = some bytes) (h' : e'.decode s = some bytes') : bytes = bytes' := by
  simp only [Engine.decode, Option.ite_none_right_eq_some] at h h'
  obtain ⟨gs, hgs, hbytes⟩ := Option.bind_eq_some_iff.mp h.2
  obtain ⟨gs', hgs', hbytes'⟩ := Option.bind_eq_some_iff.mp h'.2
  obtain ⟨hlt, hmap⟩ := Engine.mapM_value.mp hgs
  obtain ⟨hlt', hmap'⟩ := Engine.mapM_value.mp hgs'
  have hsame : gs = gs' := by
    have hlen := congrArg List.length (hmap.trans hmap'.symm)
    rw [List.length_map, List.length_map] at hlen
    apply List.ext_getElem hlen
    intro i hi hi'
    apply Engine.symbol_inj (hlt _ (List.getElem_mem hi)) (hlt' _ (List.getElem_mem hi'))
    have hget := List.getElem_of_eq (hmap.trans hmap'.symm) (by rwa [List.length_map])
    rwa [List.getElem_map, List.getElem_map] at hget
  rw [hsame, hbytes', Option.some.injEq] at hbytes
  exact hbytes.symm

/-- The first engine of a chain that accepts a text reads what any other one of it reads. -/
theorem findSome?_decode_eq_some {chain : List Engine} {s : String} {bytes : Bytes} :
    chain.findSome? (·.decode s) = some bytes ↔ ∃ e ∈ chain, e.decode s = some bytes := by
  constructor
  · exact List.exists_of_findSome?_eq_some
  · rintro ⟨e, he, hdec⟩
    have hsome : (chain.findSome? (·.decode s)).isSome = true := by
      rw [List.findSome?_isSome_iff]
      exact ⟨e, he, by rw [hdec, Option.isSome_some]⟩
    obtain ⟨bytes', hfirst⟩ := Option.isSome_iff_exists.mp hsome
    obtain ⟨e', -, hdec'⟩ := List.exists_of_findSome?_eq_some hfirst
    rw [hfirst, decode_agree hdec hdec']

/-- The order of a chain does not matter. -/
theorem findSome?_decode_perm {chain chain' : List Engine} (h : chain.Perm chain') (s : String) :
    chain.findSome? (·.decode s) = chain'.findSome? (·.decode s) := by
  ext bytes
  simp only [findSome?_decode_eq_some, h.mem_iff]

end ResendRouter.Foundation.Base64
