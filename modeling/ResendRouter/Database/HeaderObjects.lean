import ResendRouter.Database.Headers
import ResendRouter.Foundation.Table
import Mathlib.Data.List.Induction

/-! # What the stored header object holds

Each entry is determined by the values that came under its name: one value is
kept as a string, more of them as the array of all values, in their order. The
loop over the headers changes an entry from the first shape to the second when
a name comes back.
-/

namespace ResendRouter.Database
open Foundation Program

def headerText (value : Bytes) : String := (toStr value).getD "<non-utf8>"

def valuesOf (headers : HeaderMap) (name : String) : List Bytes :=
  (headers.filter (·.1 = name)).map (·.2)

def headerTexts (headers : HeaderMap) (name : String) : List String :=
  (headers.filter fun h => toAsciiLowercase h.1 = name).map fun h => headerText h.2

theorem headerTexts_eq {headers : HeaderMap} (hlower : ∀ h ∈ headers, toAsciiLowercase h.1 = h.1)
    (name : String) : headerTexts headers name = (valuesOf headers name).map headerText := by
  rw [headerTexts, valuesOf, List.map_map]
  congr 1
  apply List.filter_congr
  intro h hh
  rw [hlower h hh]

theorem valuesOf_eq_nil {headers : HeaderMap} {name : String} :
    valuesOf headers name = [] ↔ name ∉ headers.map (·.1) := by
  rw [valuesOf, List.map_eq_nil_iff, List.filter_eq_nil_iff, List.mem_map]
  simp only [decide_eq_true_eq, not_exists, not_and]

theorem headerTexts_concat (headers : HeaderMap) (h : String × Bytes) (name : String) :
    headerTexts (headers ++ [h]) name =
      headerTexts headers name ++ if toAsciiLowercase h.1 = name then [headerText h.2] else [] := by
  by_cases hname : toAsciiLowercase h.1 = name <;> simp [headerTexts, hname]

/-- How the values of one name are stored. -/
def slot : List String → Option Json
  | [] => none
  | [text] => some (.string text)
  | texts => some (.array (texts.map .string))

def grow : Option Json → String → Json
  | none, text => .string text
  | some (.array items), text => .array (items ++ [.string text])
  | some existing, text => .array [existing, .string text]

theorem slot_concat (texts : List String) (text : String) :
    slot (texts ++ [text]) = some (grow (slot texts) text) := by
  cases texts with
  | nil => rfl
  | cons first more => cases more <;> simp [slot, grow]

theorem slot_isSome {texts : List String} : (slot texts).isSome ↔ texts ≠ [] := by
  cases texts with
  | nil => simp [slot]
  | cons first more => cases more <;> simp [slot]

theorem slot_eq_some {texts : List String} {value : Json} : slot texts = some value ↔
    (∃ text, texts = [text] ∧ value = .string text) ∨
      2 ≤ texts.length ∧ value = .array (texts.map .string) := by
  cases texts with
  | nil => simp [slot]
  | cons first more => cases more <;> simp [slot, eq_comm]

abbrev lookup (entries : List (String × Json)) (key : String) : Option Json :=
  (Json.object entries).get? key

theorem lookup_isSome {entries : List (String × Json)} {key : String} :
    (lookup entries key).isSome ↔ key ∈ entries.map (·.1) := by
  simp [lookup, Json.get?]

theorem lookup_cons (e : String × Json) (entries : List (String × Json)) (key : String) :
    lookup (e :: entries) key = if e.1 = key then some e.2 else lookup entries key := by
  by_cases h : e.1 = key <;> simp [lookup, Json.get?, h]

theorem lookup_concat (entries : List (String × Json)) (key name : String) (value : Json) :
    lookup (entries ++ [(key, value)]) name =
      (lookup entries name).or (if key = name then some value else none) := by
  induction entries with
  | nil =>
    rw [List.nil_append, lookup_cons]
    rfl
  | cons e entries ih =>
    rw [List.cons_append, lookup_cons, lookup_cons, ih]
    by_cases h : e.1 = name <;> simp [h]

theorem lookup_replaceEntry (entries : List (String × Json)) (key name : String) (value : Json) :
    lookup (replaceEntry entries key value) name =
      if key = name then (lookup entries key).map fun _ => value else lookup entries name := by
  induction entries with
  | nil => simp [lookup, Json.get?, replaceEntry]
  | cons e entries ih =>
    rw [replaceEntry, List.map_cons, ← replaceEntry, lookup_cons, lookup_cons, lookup_cons, ih]
    by_cases h : e.1 = key
    · by_cases hname : key = name <;> simp [h, hname]
    · by_cases hname : key = name
      · simp [← hname, h]
      · simp [h, hname]

/-- The entry of the key grows by the value, and no other entry changes. -/
theorem lookup_insertHeaderValue (entries : List (String × Json)) (key value name : String) :
    lookup (insertHeaderValue entries key value) name =
      if key = name then some (grow (lookup entries key) value) else lookup entries name := by
  have hlookup : lookup entries key = (entries.find? (·.1 = key)).map (·.2) := rfl
  rw [insertHeaderValue]
  split
  case h_1 k items hfind =>
    rw [lookup_replaceEntry, hlookup, hfind]
    rfl
  case h_2 k existing hother hfind =>
    rw [lookup_replaceEntry, hlookup, hfind]
    cases existing with
    | array items => exact absurd rfl (hother items)
    | _ => rfl
  case h_3 hfind =>
    rw [lookup_concat, hlookup, hfind]
    by_cases h : key = name
    · rw [← h, hlookup, hfind]
      simp [grow]
    · simp [h]

theorem keys_replaceEntry (entries : List (String × Json)) (key : String) (value : Json) :
    (replaceEntry entries key value).map (·.1) = entries.map (·.1) := by
  rw [replaceEntry, List.map_map]
  apply List.map_congr_left
  intro e _
  by_cases h : e.1 = key <;> simp [h]

theorem keys_nodup_insertHeaderValue {entries : List (String × Json)} (key value : String)
    (h : (entries.map (·.1)).Nodup) : ((insertHeaderValue entries key value).map (·.1)).Nodup := by
  rw [insertHeaderValue]
  split
  case h_1 => rwa [keys_replaceEntry]
  case h_2 => rwa [keys_replaceEntry]
  case h_3 hfind =>
    have hfresh : key ∉ entries.map (·.1) := by
      rw [← lookup_isSome, lookup, Json.get?, hfind]
      simp
    rw [List.map_append, List.nodup_append']
    exact ⟨h, List.nodup_singleton _, by simpa using hfresh⟩

/-- The partly built object after some headers. -/
structure Holds (headers : HeaderMap) (entries : List (String × Json)) : Prop where
  unique : (entries.map (·.1)).Nodup
  lookup_eq : ∀ name, lookup entries name = slot (headerTexts headers name)

theorem Holds.insert {headers : HeaderMap} {entries : List (String × Json)}
    (hb : Holds headers entries) (h : String × Bytes) :
    Holds (headers ++ [h])
      (insertHeaderValue entries (toAsciiLowercase h.1) (headerText h.2)) where
  unique := keys_nodup_insertHeaderValue _ _ hb.unique
  lookup_eq name := by
    rw [lookup_insertHeaderValue, headerTexts_concat, hb.lookup_eq, hb.lookup_eq]
    by_cases hname : toAsciiLowercase h.1 = name
    · rw [if_pos hname, if_pos hname, hname, slot_concat]
    · rw [if_neg hname, if_neg hname, List.append_nil]

/-- The entries of the object, in the order in which their names came. -/
def headerEntries (headers : HeaderMap) : List (String × Json) :=
  headers.foldl (fun entries h =>
    insertHeaderValue entries (toAsciiLowercase h.1) (headerText h.2)) []

theorem headersToJson_eq (headers : HeaderMap) :
    headersToJson headers = .object (headerEntries headers) := rfl

theorem holds_headerEntries (headers : HeaderMap) : Holds headers (headerEntries headers) := by
  induction headers using List.reverseRecOn with
  | nil => exact ⟨List.nodup_nil, fun _ => rfl⟩
  | append_singleton headers h ih =>
    rw [headerEntries, List.foldl_append]
    exact ih.insert h

theorem Holds.slot_eq {headers : HeaderMap} {entries : List (String × Json)}
    (hb : Holds headers entries) {e : String × Json} (he : e ∈ entries) :
    slot (headerTexts headers e.1) = some e.2 := by
  let object : Table (String × Json) (·.1) := ⟨entries, hb.unique⟩
  have hfind : object.find? e.1 = some e := Table.find?_eq_some.mpr ⟨he, rfl⟩
  rw [← hb.lookup_eq]
  exact congrArg (Option.map (·.2)) hfind

theorem Holds.mem_keys {headers : HeaderMap} {entries : List (String × Json)}
    (hb : Holds headers entries) {name : String} :
    name ∈ entries.map (·.1) ↔ headerTexts headers name ≠ [] := by
  rw [← lookup_isSome, hb.lookup_eq, slot_isSome]

theorem headerValueFromJson_eq (headers : HeaderMap) (name : String) :
    headerValueFromJson (headersToJson headers) name =
      (headerTexts headers (toAsciiLowercase name)).head? := by
  rw [headerValueFromJson, headersToJson_eq, ← lookup, (holds_headerEntries headers).lookup_eq]
  cases headerTexts headers (toAsciiLowercase name) with
  | nil => rfl
  | cons first more => cases more <;> rfl

/-- The stored object has one entry for each name that occurs: the text of its only value, or the
texts of all its values in their order; and a lookup in any letter case gives the first one. -/
theorem header_object (headers : HeaderMap)
    (hlower : ∀ h ∈ headers, toAsciiLowercase h.1 = h.1) :
    (∃ entries, headersToJson headers = .object entries ∧ (entries.map (·.1)).Nodup ∧
      (∀ name, name ∈ entries.map (·.1) ↔ name ∈ headers.map (·.1)) ∧
      ∀ e ∈ entries,
        (∃ value, valuesOf headers e.1 = [value] ∧ e.2 = .string (headerText value)) ∨
        2 ≤ (valuesOf headers e.1).length ∧
          e.2 = .array ((valuesOf headers e.1).map fun value => .string (headerText value))) ∧
    ∀ name,
      headerValueFromJson (headersToJson headers) name =
        (valuesOf headers (toAsciiLowercase name)).head?.map headerText ∧
      (headerValueFromJson (headersToJson headers) name = none ↔
        toAsciiLowercase name ∉ headers.map (·.1)) := by
  have hb := holds_headerEntries headers
  refine ⟨⟨headerEntries headers, headersToJson_eq headers, hb.unique, ?_, ?_⟩, ?_⟩
  · intro name
    rw [hb.mem_keys, headerTexts_eq hlower, ne_eq, List.map_eq_nil_iff, valuesOf_eq_nil, not_not]
  · intro e he
    have hslot := hb.slot_eq he
    rw [headerTexts_eq hlower, slot_eq_some, List.length_map, List.map_map] at hslot
    rcases hslot with ⟨text, htext, hvalue⟩ | hmany
    · obtain ⟨value, hone, rfl⟩ := List.map_eq_singleton_iff.mp htext
      exact .inl ⟨value, hone, hvalue⟩
    · exact .inr hmany
  · intro name
    have hread : headerValueFromJson (headersToJson headers) name =
        (valuesOf headers (toAsciiLowercase name)).head?.map headerText := by
      rw [headerValueFromJson_eq, headerTexts_eq hlower, List.head?_map]
    refine ⟨hread, ?_⟩
    rw [hread, Option.map_eq_none_iff, List.head?_eq_none_iff, valuesOf_eq_nil]

/-- A name that comes twice with another one in between, the second value not readable. -/
theorem header_object_interleaved :
    let headers : HeaderMap := [("x-tag", asBytes "a"), ("host", asBytes "h"), ("x-tag", [200])]
    headersToJson headers = .object
        [("x-tag", .array [.string "a", .string "<non-utf8>"]), ("host", .string "h")] ∧
      headerValueFromJson (headersToJson headers) "X-Tag" = some "a" ∧
      headerValueFromJson (headersToJson headers) "Date" = none := by
  intro headers
  have hlower : ∀ h ∈ headers, toAsciiLowercase h.1 = h.1 := by decide
  have hread := (header_object headers hlower).2
  refine ⟨?_, (hread "X-Tag").1.trans (by decide), (hread "Date").2.mpr (by decide)⟩
  rfl

end ResendRouter.Database
