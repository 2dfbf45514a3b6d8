import ResendRouter.Foundation.Bytes

/-! # JSON texts

The grammar of RFC 8259 on bytes. Bytes above 0x7F are not checked for UTF-8,
so it admits every JSON text and more. A scanner that only follows the quotes
and the decimal points accepts every text of the grammar; it shows where a dot
can stand, and that no JSON text follows a dot inside an object text.
-/

namespace ResendRouter.Foundation

namespace JsonText

def isWs (b : UInt8) : Bool := b = 0x20 || b = 0x09 || b = 0x0A || b = 0x0D

def isDigitByte (b : UInt8) : Bool := 0x30 ≤ b && b ≤ 0x39

def isHexByte (b : UInt8) : Bool :=
  isDigitByte b || (0x41 ≤ b && b ≤ 0x46) || (0x61 ≤ b && b ≤ 0x66)

def quote : UInt8 := 0x22

def backslash : UInt8 := 0x5C

def point : UInt8 := 0x2E

/-- What may follow a backslash: a quote, a backslash, a slash, or one of the letters bfnrtu. -/
def isEscape (b : UInt8) : Bool :=
  b = quote || b = backslash || b = 0x2F || b = 0x62 || b = 0x66 || b = 0x6E || b = 0x72 ||
    b = 0x74 || b = 0x75

def Ws (l : Bytes) : Prop := ∀ b ∈ l, isWs b = true

def Digits (l : Bytes) : Prop := l ≠ [] ∧ ∀ b ∈ l, isDigitByte b = true

def IntPart (l : Bytes) : Prop := l = [0x30] ∨ Digits l ∧ l.head? ≠ some 0x30

def Fraction (l : Bytes) : Prop := l = [] ∨ ∃ ds, Digits ds ∧ l = point :: ds

def Exponent (l : Bytes) : Prop :=
  l = [] ∨ ∃ e sign ds, (e = 0x65 ∨ e = 0x45) ∧ (sign = [] ∨ sign = [0x2B] ∨ sign = [0x2D]) ∧
    Digits ds ∧ l = e :: (sign ++ ds)

def Number (l : Bytes) : Prop :=
  ∃ sign i f e, (sign = [] ∨ sign = [0x2D]) ∧ IntPart i ∧ Fraction f ∧ Exponent e ∧
    l = sign ++ (i ++ (f ++ e))

inductive Chars : Bytes → Prop where
  | nil : Chars []
  | unescaped {b l} (h0 : 0x20 ≤ b) (hq : b ≠ quote) (hb : b ≠ backslash) (h : Chars l) :
      Chars (b :: l)
  | escaped {b l} (hb : isEscape b = true) (hu : b ≠ 0x75) (h : Chars l) :
      Chars (backslash :: b :: l)
  | unicode {b₁ b₂ b₃ b₄ l} (hx : ∀ b ∈ [b₁, b₂, b₃, b₄], isHexByte b = true) (h : Chars l) :
      Chars (backslash :: 0x75 :: b₁ :: b₂ :: b₃ :: b₄ :: l)

def Str (l : Bytes) : Prop := ∃ cs, Chars cs ∧ l = quote :: (cs ++ [quote])

inductive Nonterminal where
  | value
  | object
  | element
  | elements
  | member
  | members

/-- Derivations of the nonterminals; an element is a value between white space. -/
inductive Derives : Nonterminal → Bytes → Prop where
  | null : Derives .value [0x6E, 0x75, 0x6C, 0x6C]
  | true : Derives .value [0x74, 0x72, 0x75, 0x65]
  | false : Derives .value [0x66, 0x61, 0x6C, 0x73, 0x65]
  | number {l} (h : Number l) : Derives .value l
  | string {l} (h : Str l) : Derives .value l
  | emptyArray {l} (h : Ws l) : Derives .value (0x5B :: (l ++ [0x5D]))
  | array {l} (h : Derives .elements l) : Derives .value (0x5B :: (l ++ [0x5D]))
  | ofObject {l} (h : Derives .object l) : Derives .value l
  | emptyObject {l} (h : Ws l) : Derives .object (0x7B :: (l ++ [0x7D]))
  | object {l} (h : Derives .members l) : Derives .object (0x7B :: (l ++ [0x7D]))
  | element {w l w'} (hw : Ws w) (h : Derives .value l) (hw' : Ws w') :
      Derives .element (w ++ (l ++ w'))
  | lastElement {l} (h : Derives .element l) : Derives .elements l
  | elements {l m} (h : Derives .element l) (hm : Derives .elements m) :
      Derives .elements (l ++ 0x2C :: m)
  | member {w k w' l} (hw : Ws w) (hk : Str k) (hw' : Ws w') (h : Derives .element l) :
      Derives .member (w ++ (k ++ (w' ++ 0x3A :: l)))
  | lastMember {l} (h : Derives .member l) : Derives .members l
  | members {l m} (h : Derives .member l) (hm : Derives .members m) :
      Derives .members (l ++ 0x2C :: m)

/-- Where a scan stands: outside of strings, after a decimal point, inside a string, or after a
backslash inside a string. -/
inductive Mode where
  | outside
  | fraction
  | inside
  | escape
  deriving DecidableEq

def Mode.step : Mode → UInt8 → Option Mode
  | .outside, b =>
    if b = quote then some .inside
    else if b = backslash then none
    else if b = point then some .fraction
    else some .outside
  | .fraction, b => if isDigitByte b then some .outside else none
  | .inside, b =>
    if b = quote then some .outside
    else if b = backslash then some .escape
    else some .inside
  | .escape, b => if isEscape b then some .inside else none

def scan : Mode → Bytes → Option Mode
  | m, [] => some m
  | m, b :: l => (m.step b).bind fun m => scan m l

theorem scan_append (m : Mode) (l l' : Bytes) :
    scan m (l ++ l') = (scan m l).bind fun m => scan m l' := by
  induction l generalizing m with
  | nil => rfl
  | cons b l ih =>
    rw [List.cons_append, scan, scan]
    cases m.step b with
    | none => rfl
    | some m' => exact ih m'

def isPlain (b : UInt8) : Bool := b ≠ quote && b ≠ backslash && b ≠ point

theorem scan_plain {l : Bytes} (h : ∀ b ∈ l, isPlain b = true) :
    scan .outside l = some .outside := by
  induction l with
  | nil => rfl
  | cons b l ih =>
    rw [List.forall_mem_cons] at h
    rcases h with ⟨hb, hl⟩
    simp only [isPlain, Bool.and_eq_true, decide_eq_true_eq] at hb
    simp [scan, Mode.step, hb, ih hl]

theorem isPlain_of_isWs {b : UInt8} (h : isWs b = true) : isPlain b = true := by
  simp only [isWs, Bool.or_eq_true, decide_eq_true_eq] at h
  rcases h with ((rfl | rfl) | rfl) | rfl <;> rfl

theorem isPlain_of_isDigitByte {b : UInt8} (h : isDigitByte b = true) : isPlain b = true := by
  simp only [isPlain, Bool.and_eq_true, decide_eq_true_eq]
  refine ⟨⟨?_, ?_⟩, ?_⟩ <;>
    · rintro rfl
      revert h
      decide

theorem scan_cons_plain {b : UInt8} (hb : isPlain b = true) (l : Bytes) :
    scan .outside (b :: l) = scan .outside l := by
  simp only [isPlain, Bool.and_eq_true, decide_eq_true_eq] at hb
  simp [scan, Mode.step, hb]

theorem scan_ws {l : Bytes} (h : Ws l) : scan .outside l = some .outside :=
  scan_plain fun b hb => isPlain_of_isWs (h b hb)

theorem scan_digits {l : Bytes} (h : Digits l) : scan .outside l = some .outside :=
  scan_plain fun b hb => isPlain_of_isDigitByte (h.2 b hb)

theorem scan_fraction {l : Bytes} (h : Fraction l) : scan .outside l = some .outside := by
  rcases h with rfl | ⟨ds, ⟨hne, hd⟩, rfl⟩
  · rfl
  · cases ds with
    | nil => exact absurd rfl hne
    | cons d ds =>
      rw [List.forall_mem_cons] at hd
      rcases hd with ⟨hd, hds⟩
      change (Mode.step .fraction d).bind (fun m => scan m ds) = _
      rw [Mode.step, if_pos hd]
      exact scan_plain fun b hb => isPlain_of_isDigitByte (hds b hb)

theorem scan_exponent {l : Bytes} (h : Exponent l) : scan .outside l = some .outside := by
  rcases h with rfl | ⟨e, sign, ds, he, hs, hd, rfl⟩
  · rfl
  · have hplain : isPlain e = true := by rcases he with rfl | rfl <;> rfl
    have hsign : scan .outside sign = some .outside := by rcases hs with rfl | rfl | rfl <;> rfl
    rw [scan_cons_plain hplain, scan_append, hsign]
    exact scan_digits hd

theorem scan_number {l : Bytes} (h : Number l) : scan .outside l = some .outside := by
  rcases h with ⟨sign, i, f, e, hs, hi, hf, he, rfl⟩
  have hsign : scan .outside sign = some .outside := by rcases hs with rfl | rfl <;> rfl
  have hint : scan .outside i = some .outside := by
    rcases hi with rfl | ⟨hd, -⟩
    · rfl
    · exact scan_digits hd
  simp only [scan_append, hsign, hint, scan_fraction hf, scan_exponent he, Option.bind_some]

theorem step_inside {b : UInt8} (hq : b ≠ quote) (hb : b ≠ backslash) :
    Mode.step .inside b = some .inside := by
  simp [Mode.step, hq, hb]

theorem step_inside_hex {b : UInt8} (h : isHexByte b = true) :
    Mode.step .inside b = some .inside := by
  apply step_inside <;>
    · rintro rfl
      revert h
      decide

theorem scan_chars {l : Bytes} (h : Chars l) : scan .inside l = some .inside := by
  induction h with
  | nil => rfl
  | unescaped _ hq hb _ ih => rw [scan, step_inside hq hb, Option.bind_some, ih]
  | @escaped b l hb _ _ ih =>
    change (Mode.step .escape b).bind (fun m => scan m l) = _
    rw [Mode.step, if_pos hb, Option.bind_some, ih]
  | @unicode b₁ b₂ b₃ b₄ l hx _ ih =>
    change scan .inside (b₁ :: b₂ :: b₃ :: b₄ :: l) = _
    simp only [scan, step_inside_hex (hx b₁ (by simp)), step_inside_hex (hx b₂ (by simp)),
      step_inside_hex (hx b₃ (by simp)), step_inside_hex (hx b₄ (by simp)), Option.bind_some, ih]

theorem scan_str {l : Bytes} (h : Str l) : scan .outside l = some .outside := by
  rcases h with ⟨cs, hc, rfl⟩
  change scan .inside (cs ++ [quote]) = _
  rw [scan_append, scan_chars hc]
  rfl

theorem scan_bracketed {a b : UInt8} {l : Bytes} (ha : isPlain a = true) (hb : isPlain b = true)
    (h : scan .outside l = some .outside) : scan .outside (a :: (l ++ [b])) = some .outside := by
  rw [scan_cons_plain ha, scan_append, h, Option.bind_some, scan_cons_plain hb, scan]

theorem scan_separated {b : UInt8} {l m : Bytes} (hb : isPlain b = true)
    (hl : scan .outside l = some .outside) (hm : scan .outside m = some .outside) :
    scan .outside (l ++ b :: m) = some .outside := by
  rw [scan_append, hl, Option.bind_some, scan_cons_plain hb, hm]

/-- The induction is on the derivation; strings and numbers are the only places where the
scanner leaves its outside mode. -/
theorem scan_derives {n : Nonterminal} {l : Bytes} (h : Derives n l) :
    scan .outside l = some .outside := by
  induction h with
  | null => rfl
  | true => rfl
  | false => rfl
  | number h => exact scan_number h
  | string h => exact scan_str h
  | emptyArray h => exact scan_bracketed rfl rfl (scan_ws h)
  | array _ ih => exact scan_bracketed rfl rfl ih
  | ofObject _ ih => exact ih
  | emptyObject h => exact scan_bracketed rfl rfl (scan_ws h)
  | object _ ih => exact scan_bracketed rfl rfl ih
  | element hw _ hw' ih => simp only [scan_append, scan_ws hw, scan_ws hw', ih, Option.bind_some]
  | lastElement _ ih => exact ih
  | elements _ _ ih ihm => exact scan_separated rfl ih ihm
  | member hw hk hw' _ ih =>
    rw [scan_append, scan_ws hw, Option.bind_some, scan_append, scan_str hk, Option.bind_some]
    exact scan_separated rfl (scan_ws hw') ih
  | lastMember _ ih => exact ih
  | members _ _ ih ihm => exact scan_separated rfl ih ihm

def Mode.quoted : Mode → Bool
  | .inside => true
  | .escape => true
  | _ => false

theorem step_unquoted {m n : Mode} {b : UInt8} (hm : m.quoted = false) (hn : m.step b = some n) :
    b = quote ∧ n = .inside ∨ b ≠ quote ∧ b ≠ backslash ∧ n.quoted = false := by
  cases m with
  | inside => cases hm
  | escape => cases hm
  | outside =>
    simp only [Mode.step] at hn
    split_ifs at hn with hq hb hp <;> cases hn
    · exact .inl ⟨hq, rfl⟩
    · exact .inr ⟨hq, hb, rfl⟩
    · exact .inr ⟨hq, hb, rfl⟩
  | fraction =>
    simp only [Mode.step] at hn
    split_ifs at hn with hd
    cases hn
    have hp := isPlain_of_isDigitByte hd
    simp only [isPlain, Bool.and_eq_true, decide_eq_true_eq] at hp
    exact .inr ⟨hp.1.1, hp.1.2, rfl⟩

/-- A scan outside of strings and one inside a string disagree on every byte: a quote moves both,
and a backslash stops the one outside. -/
theorem step_opposite {m n n' : Mode} {b : UInt8} (hm : m.quoted = false) (hn : m.step b = some n)
    (hn' : Mode.step .inside b = some n') :
    n.quoted = false ∧ n' = .inside ∨ n = .inside ∧ n'.quoted = false := by
  rcases step_unquoted hm hn with ⟨rfl, rfl⟩ | ⟨hq, hb, hnq⟩
  · cases hn'
    exact .inr ⟨rfl, rfl⟩
  · rw [step_inside hq hb] at hn'
    cases hn'
    exact .inl ⟨hnq, rfl⟩

/-- They also disagree on the whole text. The induction carries both orders of the two scans. -/
theorem scan_opposite {m n n' : Mode} {l : Bytes} (hm : m.quoted = false) (hn : scan m l = some n)
    (hn' : scan .inside l = some n') : n.quoted ≠ n'.quoted := by
  induction l generalizing m n n' with
  | nil =>
    cases hn
    cases hn'
    rw [hm]
    exact Bool.false_ne_true
  | cons b l ih =>
    obtain ⟨k, hk, hn⟩ := Option.bind_eq_some_iff.mp hn
    obtain ⟨k', hk', hn'⟩ := Option.bind_eq_some_iff.mp hn'
    rcases step_opposite hm hk hk' with ⟨hkq, rfl⟩ | ⟨rfl, hkq⟩
    · exact ih hkq hn hn'
    · exact (ih hkq hn' hn).symm

def brace : UInt8 := 0x7D

theorem brace_not_mem_ws {l : Bytes} (h : Ws l) : brace ∉ l :=
  fun hm => absurd (h brace hm) (by decide)

theorem brace_not_mem_digits {l : Bytes} (h : ∀ b ∈ l, isDigitByte b = true) : brace ∉ l :=
  fun hm => absurd (h brace hm) (by decide)

theorem brace_not_mem_number {l : Bytes} (h : Number l) : brace ∉ l := by
  rcases h with ⟨sign, i, f, e, hs, hi, hf, he, rfl⟩
  have hsign : brace ∉ sign := by rcases hs with rfl | rfl <;> decide
  have hint : brace ∉ i := by
    rcases hi with rfl | ⟨hd, -⟩
    · decide
    · exact brace_not_mem_digits hd.2
  have hfrac : brace ∉ f := by
    rcases hf with rfl | ⟨ds, hd, rfl⟩
    · decide
    · rw [List.mem_cons, not_or]
      exact ⟨by decide, brace_not_mem_digits hd.2⟩
  have hexp : brace ∉ e := by
    rcases he with rfl | ⟨c, s, ds, hc, hs, hd, rfl⟩
    · decide
    · simp only [List.mem_cons, List.mem_append, not_or]
      refine ⟨?_, ?_, brace_not_mem_digits hd.2⟩
      · rcases hc with rfl | rfl <;> decide
      · rcases hs with rfl | rfl | rfl <;> decide
  simp [hsign, hint, hfrac, hexp]

theorem brace_not_mem_value {b : UInt8} {l : Bytes} (h : Derives .value l)
    (hl : l.head? = some b) (hb : isDigitByte b = true) : brace ∉ l := by
  have hother : ∀ {c : UInt8} {l : Bytes}, (c :: l).head? = some b → isDigitByte c = false →
      False := by
    intro c l hc hd
    rw [List.head?_cons, Option.some.injEq] at hc
    rw [hc, hb] at hd
    cases hd
  cases h with
  | null => exact (hother hl rfl).elim
  | true => exact (hother hl rfl).elim
  | false => exact (hother hl rfl).elim
  | number h => exact brace_not_mem_number h
  | string h =>
    rcases h with ⟨cs, -, rfl⟩
    exact (hother hl rfl).elim
  | emptyArray _ => exact (hother hl rfl).elim
  | array _ => exact (hother hl rfl).elim
  | ofObject h => cases h <;> exact (hother hl rfl).elim

/-- A text that starts with a digit is a number, and has no closing brace. -/
theorem brace_not_mem_element {b : UInt8} {l : Bytes} (h : Derives .element l)
    (hl : l.head? = some b) (hb : isDigitByte b = true) : brace ∉ l := by
  have hnot : ∀ {w l : Bytes}, Ws w → (w ++ l).head? = some b → w = [] := by
    intro w l hw hl
    cases w with
    | nil => rfl
    | cons c w =>
      rw [List.cons_append, List.head?_cons, Option.some.injEq] at hl
      have hc := hw c List.mem_cons_self
      simp only [hl, isWs, Bool.or_eq_true, decide_eq_true_eq] at hc
      rcases hc with ((hc | hc) | hc) | hc <;>
        · rw [hc] at hb
          cases hb
  cases h with
  | @element w v w' hw hv hw' =>
    obtain rfl := hnot hw hl
    rw [List.nil_append] at hl ⊢
    rw [List.mem_append, not_or]
    refine ⟨?_, brace_not_mem_ws hw'⟩
    cases v with
    | nil => exact List.not_mem_nil
    | cons c v => exact brace_not_mem_value hv hl hb

end JsonText

open JsonText

def JsonText (l : Bytes) : Prop := Derives .element l

/-- A JSON text whose value is an object. -/
def JsonObjectText (l : Bytes) : Prop :=
  ∃ w o w', Ws w ∧ Derives .object o ∧ Ws w' ∧ l = w ++ (o ++ w')

theorem JsonObjectText.jsonText {l : Bytes} (h : JsonObjectText l) : JsonText l := by
  rcases h with ⟨w, o, w', hw, ho, hw', rfl⟩
  exact .element hw (.ofObject ho) hw'

/-- The closing brace of an object comes after every dot. -/
theorem JsonObjectText.brace_mem {x y : Bytes} (h : JsonObjectText (x ++ point :: y)) :
    brace ∈ y := by
  rcases h with ⟨w, o, w', -, ho, hw', heq⟩
  obtain ⟨p, rfl⟩ : ∃ p, o = p ++ [brace] := by
    cases ho with
    | @emptyObject l _ => exact ⟨0x7B :: l, rfl⟩
    | @object l _ => exact ⟨0x7B :: l, rfl⟩
  rw [List.append_assoc, List.singleton_append, ← List.append_assoc] at heq
  rcases List.append_eq_append_iff.mp heq with ⟨z, -, hz⟩ | ⟨z, -, hz⟩
  · cases z with
    | nil => cases (List.cons.inj hz).1
    | cons c z =>
      rw [(List.cons.inj hz).2]
      exact List.mem_append_right _ List.mem_cons_self
  · cases z with
    | nil => cases (List.cons.inj hz).1
    | cons c z =>
      have hmem : point ∈ w' := by
        rw [(List.cons.inj hz).2]
        exact List.mem_append_right _ List.mem_cons_self
      exact absurd (hw' point hmem) (by decide)

/-- No JSON text follows a dot inside an object text. -/
theorem JsonObjectText.not_jsonText_suffix {x y : Bytes} (h : JsonObjectText (x ++ point :: y)) :
    ¬ JsonText y := by
  intro hy
  have hscan := scan_derives hy
  have hx := scan_derives h.jsonText
  rw [scan_append] at hx
  obtain ⟨m, -, hm⟩ := Option.bind_eq_some_iff.mp hx
  obtain ⟨m', hm', hend⟩ := Option.bind_eq_some_iff.mp hm
  cases m with
  | outside =>
    -- the point of a number: a digit follows, and the text would be a number
    cases hm'
    cases y with
    | nil => cases hend
    | cons b y =>
      obtain ⟨k, hk, -⟩ := Option.bind_eq_some_iff.mp hend
      simp only [Mode.step] at hk
      split_ifs at hk with hd
      exact brace_not_mem_element hy rfl hd h.brace_mem
  | inside =>
    -- a dot in a string: the two scans of the rest disagree at its end
    cases hm'
    exact scan_opposite rfl hscan hend rfl
  | fraction => cases hm'
  | escape => cases hm'

end ResendRouter.Foundation
