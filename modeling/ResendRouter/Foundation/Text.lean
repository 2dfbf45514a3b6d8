import ResendRouter.Foundation.Bytes
import Mathlib.Data.List.DropRight

/-! # Operations on texts

The string operations of the program as list operations on characters, with the
Unicode notion of white space and the ASCII notion of letter case.
-/

namespace ResendRouter.Foundation

/-- The characters with the Unicode property White_Space. -/
def isWhitespace (c : Char) : Bool :=
  let n := c.toNat
  (9 ≤ n && n ≤ 13) || n = 0x20 || n = 0x85 || n = 0xA0 || n = 0x1680 ||
    (0x2000 ≤ n && n ≤ 0x200A) || n = 0x2028 || n = 0x2029 || n = 0x202F ||
    n = 0x205F || n = 0x3000

def isAsciiAlphanumeric (c : Char) : Bool := c.isAlphanum

def trimStartWith (p : Char → Bool) (s : String) : String := .ofList (s.toList.dropWhile p)

def trimEndWith (p : Char → Bool) (s : String) : String := .ofList (s.toList.rdropWhile p)

def trim (s : String) : String := trimEndWith isWhitespace (trimStartWith isWhitespace s)

def trimStartMatches (c : Char) (s : String) : String := trimStartWith (· = c) s

def trimEndMatches (c : Char) (s : String) : String := trimEndWith (· = c) s

def trimMatches (c : Char) (s : String) : String := trimEndMatches c (trimStartMatches c s)

def toAsciiLowercase (s : String) : String := .ofList (s.toList.map Char.toLower)

def isBlank (s : String) : Bool := s.toList.isEmpty

def stripPrefix (pre s : String) : Option String :=
  if pre.toList.isPrefixOf s.toList then some (.ofList (s.toList.drop pre.toList.length)) else none

def splitFirst (c : Char) (s : String) : Option (String × String) :=
  match s.toList.dropWhile (· ≠ c) with
  | [] => none
  | _ :: after => some (.ofList (s.toList.takeWhile (· ≠ c)), .ofList after)

def afterLast (c : Char) (s : String) : Option String :=
  if c ∈ s.toList then some (.ofList (s.toList.reverse.takeWhile (· ≠ c)).reverse) else none

def firstPiece (p : Char → Bool) (s : String) : String := .ofList (s.toList.takeWhile (! p ·))

def splitWhitespaceList : List Char → List Char → List (List Char)
  | acc, [] => if acc.isEmpty then [] else [acc.reverse]
  | acc, c :: cs =>
    if isWhitespace c then
      if acc.isEmpty then splitWhitespaceList [] cs
      else acc.reverse :: splitWhitespaceList [] cs
    else splitWhitespaceList (c :: acc) cs

def splitWhitespace (s : String) : List String :=
  (splitWhitespaceList [] s.toList).map String.ofList

def isDigit (c : Char) : Bool := '0' ≤ c && c ≤ '9'

def digitsValue : List Char → ℕ → ℕ
  | [], n => n
  | c :: cs, n => digitsValue cs (10 * n + (c.toNat - '0'.toNat))

/-- An optional sign followed by digits, within the range of `i64`. -/
def parseI64 (s : String) : Option ℤ :=
  let (sign, digits) : ℤ × List Char := match s.toList with
    | '-' :: ds => (-1, ds)
    | '+' :: ds => (1, ds)
    | ds => (1, ds)
  if digits.isEmpty || ! digits.all isDigit then none
  else
    let n := sign * digitsValue digits 0
    if -9223372036854775808 ≤ n ∧ n ≤ 9223372036854775807 then some n else none

def isVisibleAscii (b : UInt8) : Bool := (32 ≤ b && b < 127) || b = 9

/-- A header value as a text, when all of its bytes are visible ASCII. -/
def toStr (value : Bytes) : Option String :=
  if value.all isVisibleAscii then some (.ofList (value.map fun b => Char.ofNat b.toNat)) else none

theorem toStr_asBytes {s : String} (h : ∀ c ∈ s.toList, 32 ≤ c.toNat ∧ c.toNat < 127) :
    toStr (asBytes s) = some s := by
  have hbytes : asBytes s = s.toList.map fun c => UInt8.ofNat c.toNat := by
    rw [asBytes, List.flatMap_def, List.map_congr_left fun c hc =>
      utf8EncodeChar_of_lt (show c.toNat < 128 by have := h c hc; omega)]
    induction s.toList with
    | nil => rfl
    | cons c cs ih => simp [ih]
  have hvisible : (asBytes s).all isVisibleAscii = true := by
    rw [hbytes, List.all_map, List.all_eq_true]
    intro c hc
    have := h c hc
    simp only [Function.comp_apply, isVisibleAscii, Bool.or_eq_true, Bool.and_eq_true,
      decide_eq_true_eq, UInt8.le_iff_toNat_le, UInt8.lt_iff_toNat_lt, UInt8.toNat_ofNat',
      UInt8.reduceToNat]
    omega
  have hback : ∀ c ∈ s.toList, Char.ofNat (UInt8.ofNat c.toNat).toNat = c := by
    intro c hc
    have := h c hc
    rw [UInt8.toNat_ofNat', Nat.mod_eq_of_lt (by omega), Char.ofNat_toNat]
  have hmap : (s.toList.map fun c => UInt8.ofNat c.toNat).map (fun b => Char.ofNat b.toNat) =
      s.toList := by
    rw [List.map_map]
    exact (List.map_congr_left hback).trans (List.map_id _)
  rw [toStr, if_pos hvisible, hbytes, hmap, String.ofList_toList]

theorem splitWhitespaceList_of_solid {acc cs : List Char} (hne : acc.reverse ++ cs ≠ [])
    (h : ∀ c ∈ cs, isWhitespace c = false) :
    splitWhitespaceList acc cs = [acc.reverse ++ cs] := by
  induction cs generalizing acc with
  | nil =>
    rw [List.append_nil] at hne ⊢
    rw [splitWhitespaceList, if_neg]
    simpa using hne
  | cons c cs ih =>
    rw [List.forall_mem_cons] at h
    rw [splitWhitespaceList, if_neg (by rw [h.1]; exact Bool.false_ne_true), ih (by simp) h.2]
    simp

theorem splitWhitespace_of_solid {s : String} (hne : s.toList ≠ [])
    (h : ∀ c ∈ s.toList, isWhitespace c = false) : splitWhitespace s = [s] := by
  rw [splitWhitespace, splitWhitespaceList_of_solid hne h]
  simp

theorem toNat_toLower (c : Char) : c.toLower.toNat =
    if 65 ≤ c.toNat ∧ c.toNat ≤ 90 then c.toNat + 32 else c.toNat := by
  unfold Char.toLower
  simp only [ge_iff_le, UInt32.le_iff_toNat_le]
  change (if h : 65 ≤ c.toNat ∧ c.toNat ≤ 90 then _ else _ : Char).toNat = _
  split_ifs with h
  · change (c.val.toNat + 32) % 2 ^ 32 = c.toNat + 32
    have hc : c.val.toNat = c.toNat := rfl
    omega
  · rfl

/-- No other character becomes one outside the letters. -/
theorem toLower_eq_iff {c d : Char} (hd : d.toNat < 65 ∨ 122 < d.toNat) :
    c.toLower = d ↔ c = d := by
  rw [← Char.toNat_inj, ← Char.toNat_inj, toNat_toLower]
  split_ifs <;> omega

end ResendRouter.Foundation
