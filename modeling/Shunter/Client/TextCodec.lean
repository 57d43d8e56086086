import Shunter.Types.UTF8

/-!
# `TextDecoder` and `TextEncoder`

A JavaScript string is the list of its code points; a surrogate that is not part
of a pair is a code point of its own.  The decoder is fatal and does not ignore
the byte order mark: it takes a leading one off.
-/

namespace Shunter.Client

abbrev JSString := List Nat

def runePoint : Bytes → Nat
  | [a] => a.toNat
  | [a, b] => a.toNat % 32 * 64 + b.toNat % 64
  | [a, b, c] => a.toNat % 16 * 4096 + b.toNat % 64 * 64 + c.toNat % 64
  | [a, b, c, d] =>
    a.toNat % 8 * 262144 + b.toNat % 64 * 4096 + c.toNat % 64 * 64 + d.toNat % 64
  | _ => 0

/-- The UTF-8 decoder of the encoding standard, which fails on ill-formed input. -/
def codePoints : Bytes → Option JSString
  | [] => some []
  | a :: rest =>
    if a < 0x80 then (codePoints rest).map (runePoint [a] :: ·)
    else if 0xC2 ≤ a && a ≤ 0xDF then
      match rest with
      | b :: rest =>
        if isContByte b then (codePoints rest).map (runePoint [a, b] :: ·) else none
      | [] => none
    else if 0xE0 ≤ a && a ≤ 0xEF then
      match rest with
      | b :: c :: rest =>
        if acceptSecond3 a b && isContByte c then
          (codePoints rest).map (runePoint [a, b, c] :: ·)
        else none
      | _ => none
    else if 0xF0 ≤ a && a ≤ 0xF4 then
      match rest with
      | b :: c :: d :: rest =>
        if acceptSecond4 a b && isContByte c && isContByte d then
          (codePoints rest).map (runePoint [a, b, c, d] :: ·)
        else none
      | _ => none
    else none

def byteOrderMark : Bytes := [0xEF, 0xBB, 0xBF]

def startsWithMark (raw : Bytes) : Bool := byteOrderMark.isPrefixOf raw

/-- `new TextDecoder("utf-8", fatal).decode(raw)`. -/
def decodeText (raw : Bytes) : Option JSString :=
  codePoints (if startsWithMark raw then raw.drop 3 else raw)

def encodeCodePoint (n : Nat) : Bytes :=
  if n < 0x80 then [.ofNat n]
  else if n < 0x800 then [.ofNat (0xC0 + n / 64), .ofNat (0x80 + n % 64)]
  else if n < 0x10000 then
    [.ofNat (0xE0 + n / 4096), .ofNat (0x80 + n / 64 % 64), .ofNat (0x80 + n % 64)]
  else
    [.ofNat (0xF0 + n / 262144), .ofNat (0x80 + n / 4096 % 64), .ofNat (0x80 + n / 64 % 64),
      .ofNat (0x80 + n % 64)]

def isSurrogate (n : Nat) : Bool := 0xD800 ≤ n && n ≤ 0xDFFF

def isWellFormedUTF16 (value : JSString) : Bool := value.all fun n => !isSurrogate n

/-- `new TextEncoder().encode(value)` of a string without lone surrogates. -/
def encodeText (value : JSString) : Bytes := value.flatMap encodeCodePoint

/-! ## One character -/

theorem codePoints_rune_append {r : Bytes} (h : isRune r = true) (x : Bytes) :
    codePoints (r ++ x) = (codePoints x).map (runePoint r :: ·) := by
  unfold isRune at h
  split at h
  · next a =>
    simp only [decide_eq_true_eq] at h
    rw [List.singleton_append, codePoints.eq_def]
    simp only [h, if_true]
  · next a b =>
    simp only [Bool.and_eq_true, decide_eq_true_eq] at h
    have h₁ : ¬ a < 0x80 := by grind
    simp [codePoints, h, h₁]
  · next a b c =>
    simp only [Bool.and_eq_true, decide_eq_true_eq] at h
    have h₁ : ¬ a < 0x80 := by grind
    have h₂ : ¬ a ≤ 0xDF := by grind
    simp [codePoints, h, h₁, h₂]
  · next a b c d =>
    simp only [Bool.and_eq_true, decide_eq_true_eq] at h
    have h₁ : ¬ a < 0x80 := by grind
    have h₂ : ¬ a ≤ 0xDF := by grind
    have h₃ : ¬ a ≤ 0xEF := by grind
    simp [codePoints, h, h₁, h₂, h₃]
  · cases h

variable {b : UInt8} {s : Bytes}

private theorem ofNat_eq {n : Nat} (h : n = b.toNat) : UInt8.ofNat n = b := by
  rw [h, UInt8.ofNat_toNat]

private theorem contByte_range (h : isContByte b = true) : 0x80 ≤ b.toNat ∧ b.toNat ≤ 0xBF := by
  simpa [isContByte, UInt8.le_iff_toNat_le] using h

private theorem second3_range {a : UInt8} (h : acceptSecond3 a b = true) :
    (0x80 ≤ b.toNat ∧ b.toNat ≤ 0xBF) ∧ (a.toNat = 0xE0 → 0xA0 ≤ b.toNat) ∧
      (a.toNat = 0xED → b.toNat ≤ 0x9F) := by
  simp only [acceptSecond3, isContByte, beq_iff_eq, ← UInt8.toNat_inj] at h
  split_ifs at h <;> simp [UInt8.le_iff_toNat_le] at h <;> simp_all <;> omega

private theorem second4_range {a : UInt8} (h : acceptSecond4 a b = true) :
    (0x80 ≤ b.toNat ∧ b.toNat ≤ 0xBF) ∧ (a.toNat = 0xF0 → 0x90 ≤ b.toNat) ∧
      (a.toNat = 0xF4 → b.toNat ≤ 0x8F) := by
  simp only [acceptSecond4, isContByte, beq_iff_eq, ← UInt8.toNat_inj] at h
  split_ifs at h <;> simp [UInt8.le_iff_toNat_le] at h <;> simp_all <;> omega

theorem runePoint_spec {r : Bytes} (h : isRune r = true) :
    encodeCodePoint (runePoint r) = r ∧ isSurrogate (runePoint r) = false := by
  have houtside : ∀ n, n < 0xD800 ∨ 0xDFFF < n → isSurrogate n = false := by
    intro n hn
    simp only [isSurrogate, Bool.and_eq_false_iff, decide_eq_false_iff_not]
    omega
  unfold isRune at h
  split at h
  · next a =>
    simp only [decide_eq_true_eq, UInt8.lt_iff_toNat_lt] at h
    have ha : a.toNat < 0x80 := h
    refine ⟨?_, houtside _ (.inl (by simp only [runePoint]; omega))⟩
    rw [runePoint, encodeCodePoint, if_pos ha, UInt8.ofNat_toNat]
  · next a b =>
    simp only [Bool.and_eq_true, decide_eq_true_eq, UInt8.le_iff_toNat_le] at h
    obtain ⟨⟨ha, ha'⟩, hb⟩ := h
    obtain ⟨hb, hb'⟩ := contByte_range hb
    have ha : 0xC2 ≤ a.toNat := ha
    have ha' : a.toNat ≤ 0xDF := ha'
    refine ⟨?_, houtside _ (.inl (by simp only [runePoint]; omega))⟩
    rw [runePoint, encodeCodePoint, if_neg (by omega), if_pos (by omega)]
    rw [ofNat_eq (b := a) (by omega), ofNat_eq (b := b) (by omega)]
  · next a b c =>
    simp only [Bool.and_eq_true, decide_eq_true_eq, UInt8.le_iff_toNat_le] at h
    obtain ⟨⟨⟨ha, ha'⟩, hb⟩, hc⟩ := h
    obtain ⟨⟨hb, hb'⟩, hlow, hhigh⟩ := second3_range hb
    obtain ⟨hc, hc'⟩ := contByte_range hc
    have ha : 0xE0 ≤ a.toNat := ha
    have ha' : a.toNat ≤ 0xEF := ha'
    refine ⟨?_, houtside _ (by simp only [runePoint]; omega)⟩
    rw [runePoint, encodeCodePoint, if_neg (by omega), if_neg (by omega), if_pos (by omega)]
    rw [ofNat_eq (b := a) (by omega), ofNat_eq (b := b) (by omega), ofNat_eq (b := c) (by omega)]
  · next a b c d =>
    simp only [Bool.and_eq_true, decide_eq_true_eq, UInt8.le_iff_toNat_le] at h
    obtain ⟨⟨⟨⟨ha, ha'⟩, hb⟩, hc⟩, hd⟩ := h
    obtain ⟨⟨hb, hb'⟩, hlow, hhigh⟩ := second4_range hb
    obtain ⟨hc, hc'⟩ := contByte_range hc
    obtain ⟨hd, hd'⟩ := contByte_range hd
    have ha : 0xF0 ≤ a.toNat := ha
    have ha' : a.toNat ≤ 0xF4 := ha'
    refine ⟨?_, houtside _ (.inr (by simp only [runePoint]; omega))⟩
    rw [runePoint, encodeCodePoint, if_neg (by omega), if_neg (by omega), if_neg (by omega)]
    rw [ofNat_eq (b := a) (by omega), ofNat_eq (b := b) (by omega), ofNat_eq (b := c) (by omega),
      ofNat_eq (b := d) (by omega)]
  · cases h

/-! ## Texts -/

/-- A valid text has code points, none of them a surrogate, and is written back from them. -/
theorem codePoints_of_valid (h : validUTF8 s = true) :
    ∃ value, codePoints s = some value ∧ encodeText value = s ∧
      isWellFormedUTF16 value = true := by
  apply validUTF8_induction (P := fun s => ∃ value, codePoints s = some value ∧
    encodeText value = s ∧ isWellFormedUTF16 value = true) ⟨[], rfl, rfl, rfl⟩ ?_ h
  rintro r x hr - ⟨value, hvalue, htext, hwell⟩
  obtain ⟨hback, hsurrogate⟩ := runePoint_spec hr
  refine ⟨runePoint r :: value, ?_, ?_, ?_⟩
  · rw [codePoints_rune_append hr, hvalue]
    rfl
  · rw [encodeText, List.flatMap_cons, hback]
    exact congrArg (r ++ ·) htext
  · simpa [isWellFormedUTF16, hsurrogate] using hwell

def textPoints (s : Bytes) : JSString := (codePoints s).getD []

theorem encodeText_textPoints (h : validUTF8 s = true) : encodeText (textPoints s) = s := by
  obtain ⟨value, hvalue, htext, -⟩ := codePoints_of_valid h
  simpa [textPoints, hvalue] using htext

theorem textPoints_wellFormed (h : validUTF8 s = true) :
    isWellFormedUTF16 (textPoints s) = true := by
  obtain ⟨value, hvalue, -, hwell⟩ := codePoints_of_valid h
  simpa [textPoints, hvalue] using hwell

private theorem mark_split (h : startsWithMark s = true) : s = byteOrderMark ++ s.drop 3 := by
  obtain ⟨t, rfl⟩ := List.isPrefixOf_iff_prefix.mp h
  rfl

theorem decodeText_of_valid (h : validUTF8 s = true) :
    decodeText s =
      some (if startsWithMark s then textPoints (s.drop 3) else textPoints s) := by
  have hsome : ∀ t, validUTF8 t = true → codePoints t = some (textPoints t) := by
    intro t ht
    obtain ⟨value, hvalue, -, -⟩ := codePoints_of_valid ht
    simp [textPoints, hvalue]
  unfold decodeText
  by_cases hmark : startsWithMark s = true
  · rw [mark_split hmark, validUTF8_rune_append (by decide)] at h
    simp only [hmark, if_true, hsome _ h]
  · rw [if_neg hmark, if_neg hmark, hsome s h]

theorem textPoints_drop_ne (h : validUTF8 s = true) (hmark : startsWithMark s = true) :
    textPoints (s.drop 3) ≠ textPoints s := by
  have hrune : isRune byteOrderMark = true := by decide
  have htail : validUTF8 (s.drop 3) = true := by
    rwa [mark_split hmark, validUTF8_rune_append hrune] at h
  obtain ⟨value, hvalue, -, -⟩ := codePoints_of_valid htail
  have hwhole : textPoints s = runePoint byteOrderMark :: value := by
    rw [textPoints, mark_split hmark, codePoints_rune_append hrune, hvalue]
    rfl
  rw [hwhole, textPoints, hvalue]
  intro heq
  have hlen := congrArg List.length heq
  simp at hlen

end Shunter.Client
