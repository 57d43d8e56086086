import Shunter.Types.JSON

/-!
# Scanners read back what canonical output writes

A scanner that accepts a text takes its own part of it again in front of any
rest that does not prolong that part.
-/

namespace Shunter

/-! ## Strings -/

variable {n fuel : Nat}

theorem hexDigit_hexChar (h : n < 16) : hexDigit (hexChar n) = some n := by
  revert n
  decide

theorem scanHex4_byte (b : UInt8) (x : Bytes) :
    scanHex4 (0x30 :: 0x30 :: hexChar (b.toNat / 16) :: hexChar (b.toNat % 16) :: x) =
      some (b.toNat, x) := by
  have hlt := b.toNat_lt
  have hzero : hexDigit 0x30 = some 0 := by decide
  have hhigh := hexDigit_hexChar (n := b.toNat / 16) (by omega)
  have hlow := hexDigit_hexChar (n := b.toNat % 16) (by omega)
  simp only [scanHex4, hzero, hhigh, hlow]
  congr 2
  omega

theorem scanString_escapeByte (fuel : Nat) (b : UInt8) (x : Bytes) :
    scanString (fuel + 1) (escapeByte b ++ x) =
      (scanString fuel x).map fun p => (b :: p.1, p.2) := by
  fun_cases escapeByte b with
  | case1 h =>
    simp only [Bool.or_eq_true, beq_iff_eq] at h
    rcases h with rfl | rfl <;> simp [scanString, simpleEscape]
  | case7 h₁ h₂ h₃ h₄ h₅ h₆ h =>
    -- the escaped bytes are ASCII, so the number is written back as one byte
    have hlt : b.toNat < 0x80 := by
      simp only [Bool.or_eq_true, decide_eq_true_eq, beq_iff_eq] at h
      rcases h with ((h | rfl) | rfl) | rfl
      · have := UInt8.lt_iff_toNat_lt.mp h
        simp at this
        omega
      all_goals decide
    have hrune : encodeRune b.toNat = [b] := by simp [encodeRune, hlt]
    have hescape : unicodeEscape (0x30 :: 0x30 :: hexChar (b.toNat / 16) ::
        hexChar (b.toNat % 16) :: x) = some ([b], x) := by
      rw [unicodeEscape, scanHex4_byte]
      dsimp only
      rw [if_neg (by omega), hrune]
    simp [scanString, hescape]
  | case8 h₁ h₂ h₃ h₄ h₅ h₆ h₇ =>
    simp only [Bool.or_eq_true, beq_iff_eq, not_or, decide_eq_true_eq] at h₁ h₇
    simp [scanString, h₁, h₇]
  | _ => simp_all [scanString, simpleEscape]

private theorem scanString_separator (fuel : Nat) (c r : UInt8) (x : Bytes)
    (h : (c = 0x38 ∧ r = 0xA8) ∨ (c = 0x39 ∧ r = 0xA9)) :
    scanString (fuel + 1) ([0x5C, 0x75, 0x32, 0x30, 0x32, c] ++ x) =
      (scanString fuel x).map fun p => (0xE2 :: 0x80 :: r :: p.1, p.2) := by
  rcases h with ⟨rfl, rfl⟩ | ⟨rfl, rfl⟩
  · have hescape : unicodeEscape (0x32 :: 0x30 :: 0x32 :: 0x38 :: x) =
        some ([0xE2, 0x80, 0xA8], x) := rfl
    simp [scanString, hescape]
  · have hescape : unicodeEscape (0x32 :: 0x30 :: 0x32 :: 0x39 :: x) =
        some ([0xE2, 0x80, 0xA9], x) := rfl
    simp [scanString, hescape]

theorem scanString_escapeString (s rest : Bytes) (hfuel : s.length < fuel) :
    scanString fuel (escapeString s ++ 0x22 :: rest) = some (s, rest) := by
  induction s using escapeString.induct generalizing fuel with
  | case1 s ih =>
    obtain ⟨fuel, rfl⟩ := Nat.exists_eq_add_of_lt (Nat.zero_lt_of_lt hfuel)
    simp only [List.length_cons] at hfuel
    rw [escapeString, List.append_assoc, Nat.zero_add, scanString_separator fuel 0x38 0xA8 _
      (.inl ⟨rfl, rfl⟩), ih (by omega)]
    rfl
  | case2 s ih =>
    obtain ⟨fuel, rfl⟩ := Nat.exists_eq_add_of_lt (Nat.zero_lt_of_lt hfuel)
    simp only [List.length_cons] at hfuel
    rw [escapeString, List.append_assoc, Nat.zero_add, scanString_separator fuel 0x39 0xA9 _
      (.inr ⟨rfl, rfl⟩), ih (by omega)]
    rfl
  | case3 b s h₁ h₂ ih =>
    obtain ⟨fuel, rfl⟩ := Nat.exists_eq_add_of_lt (Nat.zero_lt_of_lt hfuel)
    simp only [List.length_cons] at hfuel
    rw [escapeString, List.append_assoc, Nat.zero_add, scanString_escapeByte, ih (by omega)]
    · rfl
    · exact h₁
    · exact h₂
  | case4 =>
    obtain ⟨fuel, rfl⟩ := Nat.exists_eq_add_of_lt (Nat.zero_lt_of_lt hfuel)
    simp [escapeString, scanString]

/-! ### Decoded strings are valid -/

/-- A code point that `utf8.AppendRune` encodes as it is. -/
def IsScalar (r : Nat) : Prop := r < 0xD800 ∨ (0xE000 ≤ r ∧ r < 0x110000)

private theorem ofNat_within (lo hi : Nat) (hlo : lo ≤ n) (hn : n ≤ hi) (hhi : hi < 256) :
    (decide (UInt8.ofNat lo ≤ .ofNat n) && decide (UInt8.ofNat n ≤ .ofNat hi)) = true := by
  simp only [UInt8.le_iff_toNat_le, UInt8.toNat_ofNat', Bool.and_eq_true, decide_eq_true_eq]
  omega

private theorem isContByte_ofNat (n : Nat) : isContByte (.ofNat (0x80 + n % 64)) = true :=
  ofNat_within 0x80 0xBF (by omega) (by omega) (by omega)

private theorem of_ofNat_beq (m : Nat) (h : (UInt8.ofNat n == .ofNat m) = true) (hn : n < 256)
    (hm : m < 256) : n = m := by
  rw [beq_iff_eq, ← UInt8.toNat_inj] at h
  simp only [UInt8.toNat_ofNat'] at h
  omega

variable {r : Nat} {x rest s : Bytes} {b : UInt8}

private theorem acceptSecond3_ofNat (h : IsScalar r) (hlo : 0x800 ≤ r) (hhi : r < 0x10000) :
    acceptSecond3 (.ofNat (0xE0 + r / 4096)) (.ofNat (0x80 + r / 64 % 64)) = true := by
  unfold IsScalar at h
  fun_cases acceptSecond3
  · next he =>
    have he := of_ofNat_beq 0xE0 he (by omega) (by omega)
    exact ofNat_within 0xA0 0xBF (by omega) (by omega) (by omega)
  · next he =>
    have he := of_ofNat_beq 0xED he (by omega) (by omega)
    exact ofNat_within 0x80 0x9F (by omega) (by omega) (by omega)
  · exact isContByte_ofNat _

private theorem acceptSecond4_ofNat (hlo : 0x10000 ≤ r) (hhi : r < 0x110000) :
    acceptSecond4 (.ofNat (0xF0 + r / 262144)) (.ofNat (0x80 + r / 4096 % 64)) = true := by
  fun_cases acceptSecond4
  · next he =>
    have he := of_ofNat_beq 0xF0 he (by omega) (by omega)
    exact ofNat_within 0x90 0xBF (by omega) (by omega) (by omega)
  · next he =>
    have he := of_ofNat_beq 0xF4 he (by omega) (by omega)
    exact ofNat_within 0x80 0x8F (by omega) (by omega) (by omega)
  · exact isContByte_ofNat _

theorem isRune_encodeRune (h : IsScalar r) : isRune (encodeRune r) = true := by
  have hmax : r < 0x110000 := by
    unfold IsScalar at h
    omega
  fun_cases encodeRune r
  · next hlt =>
    have hlt' : UInt8.ofNat r < 0x80 := by
      rw [UInt8.lt_iff_toNat_lt]
      simp only [UInt8.toNat_ofNat', Nat.reducePow, UInt8.reduceToNat]
      omega
    simpa [isRune] using hlt'
  · simp only [isRune, isContByte_ofNat, Bool.and_true]
    exact ofNat_within 0xC2 0xDF (by omega) (by omega) (by omega)
  · simp only [isRune, isContByte_ofNat, acceptSecond3_ofNat h (by omega) (by omega),
      Bool.and_true]
    exact ofNat_within 0xE0 0xEF (by omega) (by omega) (by omega)
  · simp only [isRune, isContByte_ofNat, acceptSecond4_ofNat (by omega : 0x10000 ≤ r) hmax,
      Bool.and_true]
    exact ofNat_within 0xF0 0xF4 (by omega) (by omega) (by omega)

theorem isRune_high {r : Bytes} (h : isRune r = true) (hlen : r.length ≠ 1) :
    ∀ b ∈ r, 0x80 ≤ b := by
  unfold isRune at h
  split at h
  · exact absurd rfl hlen
  · next a b =>
    simp only [isContByte, Bool.and_eq_true, decide_eq_true_eq] at h
    grind
  · next a b c =>
    simp only [isContByte, acceptSecond3, Bool.and_eq_true, decide_eq_true_eq] at h
    grind
  · next a b c d =>
    simp only [isContByte, acceptSecond4, Bool.and_eq_true, decide_eq_true_eq] at h
    grind
  · cases h

theorem scanString_high {r : Bytes} (h : ∀ b ∈ r, 0x80 ≤ b)
    (hscan : scanString fuel (r ++ x) = some (s, rest)) :
    ∃ fuel' s', fuel' + r.length = fuel ∧ scanString fuel' x = some (s', rest) ∧
      s = r ++ s' := by
  induction r generalizing fuel s with
  | nil => exact ⟨fuel, s, by simp, hscan, rfl⟩
  | cons b r ih =>
    cases fuel with
    | zero => simp [scanString] at hscan
    | succ fuel =>
      have hb := h b (by simp)
      have hne : (b == 0x22) = false ∧ (b == 0x5C) = false ∧ ¬ b < 0x20 := by grind
      simp only [List.cons_append, scanString, hne, Bool.false_eq_true, if_false,
        Option.map_eq_some_iff, Prod.mk.injEq] at hscan
      obtain ⟨⟨s₁, rest₁⟩, hscan, rfl, rfl⟩ := hscan
      obtain ⟨fuel', s', hfuel, hscan, rfl⟩ := ih (fun b hb => h b (by simp [hb])) hscan
      exact ⟨fuel', s', by simp only [List.length_cons]; omega, hscan, rfl⟩

private theorem hexDigit_spec {c : UInt8} (h : hexDigit c = some n) : c < 0x80 ∧ n < 16 := by
  unfold hexDigit isDecimalDigit at h
  grind [UInt8.le_iff_toNat_le, UInt8.lt_iff_toNat_lt]

theorem scanHex4_ok (h : scanHex4 x = some (r, rest)) :
    r < 0x10000 ∧ rest.length < x.length ∧ validUTF8 x = validUTF8 rest := by
  revert h
  fun_cases scanHex4 x <;> rintro ⟨⟩
  next a b c d na nb nc nd hd hc hb ha =>
    have ha := hexDigit_spec ha
    have hb := hexDigit_spec hb
    have hc := hexDigit_spec hc
    have hd := hexDigit_spec hd
    refine ⟨by omega, by simp only [List.length_cons]; omega, ?_⟩
    rw [validUTF8_ascii_cons ha.1, validUTF8_ascii_cons hb.1, validUTF8_ascii_cons hc.1,
      validUTF8_ascii_cons hd.1]

theorem lowSurrogate_ok (h : lowSurrogate x = some (r, rest)) :
    0xDC00 ≤ r ∧ r < 0xE000 ∧ rest.length < x.length ∧ validUTF8 x = validUTF8 rest := by
  revert h
  fun_cases lowSurrogate x <;> rintro ⟨⟩
  next y hr hhex =>
    obtain ⟨-, hlen, hvalid⟩ := scanHex4_ok hhex
    refine ⟨hr.1, hr.2, by simp only [List.length_cons]; omega, ?_⟩
    rw [validUTF8_ascii_cons (by decide), validUTF8_ascii_cons (by decide), hvalid]

theorem unicodeEscape_ok (h : unicodeEscape x = some (s, rest)) :
    isRune s = true ∧ rest.length < x.length ∧ validUTF8 x = validUTF8 rest := by
  revert h
  fun_cases unicodeEscape x <;> intro h
  · cases h
  · next r y hhex hsur r' z hlow =>
    obtain ⟨rfl, rfl⟩ := Prod.mk.inj (Option.some.inj h)
    obtain ⟨hr, hlen, hvalid⟩ := scanHex4_ok hhex
    obtain ⟨hhigh, hlow⟩ := Option.ite_none_right_eq_some.mp hlow
    obtain ⟨hlo, hhi, hlen', hvalid'⟩ := lowSurrogate_ok hlow
    exact ⟨isRune_encodeRune (.inr (by omega)), by omega, hvalid.trans hvalid'⟩
  · next r y hhex hsur hlow =>
    obtain ⟨rfl, rfl⟩ := Prod.mk.inj (Option.some.inj h)
    exact ⟨isRune_encodeRune (.inr (by omega)), (scanHex4_ok hhex).2⟩
  · next r y hhex hsur =>
    obtain ⟨rfl, rfl⟩ := Prod.mk.inj (Option.some.inj h)
    obtain ⟨hr, hrest⟩ := scanHex4_ok hhex
    exact ⟨isRune_encodeRune (by unfold IsScalar; omega), hrest⟩

theorem simpleEscape_ok {e : UInt8} (h : simpleEscape e = some b) : e < 0x80 ∧ b < 0x80 := by
  unfold simpleEscape at h
  grind

theorem scanEscape_ok {e : UInt8}
    (h : (if e == 0x75 then unicodeEscape x else (simpleEscape e).map fun b => ([b], x)) =
      some (s, rest)) :
    isRune s = true ∧ rest.length ≤ x.length ∧ validUTF8 (e :: x) = validUTF8 rest := by
  split at h
  · next he =>
    rw [beq_iff_eq] at he
    subst he
    obtain ⟨hrune, hlen, hvalid⟩ := unicodeEscape_ok h
    exact ⟨hrune, hlen.le, by rw [validUTF8_ascii_cons (by decide), hvalid]⟩
  · simp only [Option.map_eq_some_iff, Prod.mk.injEq] at h
    obtain ⟨b, hsimple, rfl, rfl⟩ := h
    obtain ⟨he, hb⟩ := simpleEscape_ok hsimple
    exact ⟨by simpa [isRune] using hb, le_rfl, validUTF8_ascii_cons he x⟩

theorem scanString_shorter (h : scanString fuel x = some (s, rest)) : rest.length < x.length := by
  fun_induction scanString fuel x generalizing s with
  | case1 => cases h
  | case2 => cases h
  | case3 fuel c x hc =>
    simp only [Option.some.injEq, Prod.mk.injEq] at h
    simp [h.2]
  | case4 => cases h
  | case5 => cases h
  | case6 fuel c hquote hc e x s₁ x₁ hescape ih =>
    simp only [Option.map_eq_some_iff, Prod.mk.injEq] at h
    obtain ⟨⟨s₂, rest₂⟩, hscan, rfl, rfl⟩ := h
    have hlen := (scanEscape_ok hescape).2.1
    have hrest : rest₂.length < x₁.length := ih hscan
    simp only [List.length_cons]
    omega
  | case7 => cases h
  | case8 fuel c x hquote hc hlow ih =>
    simp only [Option.map_eq_some_iff, Prod.mk.injEq] at h
    obtain ⟨⟨s₂, rest₂⟩, hscan, rfl, rfl⟩ := h
    have hrest : rest₂.length < x.length := ih hscan
    simp only [List.length_cons]
    omega

theorem scanString_valid (hx : validUTF8 x = true) (h : scanString fuel x = some (s, rest)) :
    validUTF8 s = true ∧ validUTF8 rest = true := by
  induction fuel using Nat.strong_induction_on generalizing x s with
  | _ fuel ih =>
    rcases validUTF8_cases hx with rfl | ⟨r, y, hr, rfl, hy⟩
    · cases fuel <;> simp [scanString] at h
    by_cases hlen : r.length = 1
    · obtain ⟨c, rfl⟩ := List.length_eq_one_iff.mp hlen
      cases fuel with
      | zero => simp [scanString] at h
      | succ fuel =>
        simp only [List.singleton_append, scanString] at h
        split at h
        · simp only [Option.some.injEq, Prod.mk.injEq] at h
          obtain ⟨rfl, rfl⟩ := h
          exact ⟨rfl, hy⟩
        split at h
        · split at h
          · cases h
          · next e y =>
            split at h
            · cases h
            · next s₁ x₁ hescape =>
              obtain ⟨hrune, -, hvalid⟩ := scanEscape_ok hescape
              simp only [Option.map_eq_some_iff, Prod.mk.injEq] at h
              obtain ⟨⟨s₂, rest₂⟩, hscan, rfl, rfl⟩ := h
              have hx₁ := hvalid.symm.trans hy
              obtain ⟨hs, hrest⟩ := ih fuel (by omega) hx₁ hscan
              exact ⟨(validUTF8_rune_append hrune _).trans hs, hrest⟩
        split at h
        · cases h
        · simp only [Option.map_eq_some_iff, Prod.mk.injEq] at h
          obtain ⟨⟨s₂, rest₂⟩, hscan, rfl, rfl⟩ := h
          obtain ⟨hs, hrest⟩ := ih fuel (by omega) hy hscan
          exact ⟨(validUTF8_rune_append hr s₂).trans hs, hrest⟩
    · -- the bytes of a longer character are copied one by one
      obtain ⟨fuel', s', hfuel, hscan, rfl⟩ := scanString_high (isRune_high hr hlen) h
      have hpos : 0 < r.length := List.length_pos_of_ne_nil (isRune_ne_nil hr)
      obtain ⟨hs, hrest⟩ := ih fuel' (by omega) hy hscan
      exact ⟨(validUTF8_rune_append hr s').trans hs, hrest⟩

/-! ### Written strings are valid -/

theorem escapeString_cons (h : b ≠ 0xE2) (s : Bytes) :
    escapeString (b :: s) = escapeByte b ++ escapeString s := by
  rw [escapeString]
  · rintro _ rfl
    exact absurd rfl h
  · rintro _ rfl
    exact absurd rfl h

theorem escapeByte_high (h : 0x80 ≤ b) : escapeByte b = [b] := by
  unfold escapeByte
  grind

theorem hexChar_ascii (h : n < 16) : hexChar n < 0x80 := by
  revert n
  decide

theorem escapeByte_ascii (h : b < 0x80) : ∀ c ∈ escapeByte b, c < 0x80 := by
  have hlt := b.toNat_lt
  have hhigh := hexChar_ascii (n := b.toNat / 16) (by omega)
  have hlow := hexChar_ascii (n := b.toNat % 16) (by omega)
  unfold escapeByte
  repeat' split
  all_goals simp [h, hhigh, hlow]

theorem escapeString_high {r : Bytes} (h : ∀ b ∈ r, 0x80 ≤ b ∧ b ≠ 0xE2) (s : Bytes) :
    escapeString (r ++ s) = r ++ escapeString s := by
  induction r with
  | nil => rfl
  | cons b r ih =>
    obtain ⟨⟨hhigh, hb⟩, hr⟩ := List.forall_mem_cons.mp h
    rw [List.cons_append, escapeString_cons hb, escapeByte_high hhigh, ih hr]
    rfl

theorem escapeString_rune {r : Bytes} (h : isRune r = true) :
    ∃ t, validUTF8 t = true ∧ ∀ s, escapeString (r ++ s) = t ++ escapeString s := by
  have hvalid : validUTF8 r = true := by
    rw [← List.append_nil r, validUTF8_rune_append h]
    rfl
  unfold isRune at h
  split at h
  · next a =>
    simp only [decide_eq_true_eq] at h
    exact ⟨escapeByte a, validUTF8_of_ascii (escapeByte_ascii h), escapeString_cons (by grind)⟩
  · next a b =>
    simp only [isContByte, Bool.and_eq_true, decide_eq_true_eq] at h
    exact ⟨[a, b], hvalid, escapeString_high (by grind)⟩
  · next a b c =>
    simp only [isContByte, acceptSecond3, Bool.and_eq_true, decide_eq_true_eq] at h
    by_cases h₁ : a = 0xE2 ∧ b = 0x80 ∧ c = 0xA8
    · obtain ⟨rfl, rfl, rfl⟩ := h₁
      exact ⟨[0x5C, 0x75, 0x32, 0x30, 0x32, 0x38], by decide, fun s => rfl⟩
    by_cases h₂ : a = 0xE2 ∧ b = 0x80 ∧ c = 0xA9
    · obtain ⟨rfl, rfl, rfl⟩ := h₂
      exact ⟨[0x5C, 0x75, 0x32, 0x30, 0x32, 0x39], by decide, fun s => rfl⟩
    refine ⟨[a, b, c], hvalid, fun s => ?_⟩
    have hafter : escapeString ([b, c] ++ s) = [b, c] ++ escapeString s :=
      escapeString_high (by grind) s
    rw [List.cons_append, escapeString, hafter, escapeByte_high (by grind)]
    · rfl
    · rintro s' rfl hs
      simp only [List.cons_append, List.nil_append, List.cons.injEq] at hs
      exact h₁ ⟨rfl, hs.1, hs.2.1⟩
    · rintro s' rfl hs
      simp only [List.cons_append, List.nil_append, List.cons.injEq] at hs
      exact h₂ ⟨rfl, hs.1, hs.2.1⟩
  · next a b c d =>
    simp only [isContByte, acceptSecond4, Bool.and_eq_true, decide_eq_true_eq] at h
    exact ⟨[a, b, c, d], hvalid, escapeString_high (by grind)⟩
  · cases h

theorem validUTF8_escapeString (h : validUTF8 s = true) : validUTF8 (escapeString s) = true := by
  refine validUTF8_induction (P := fun s => validUTF8 (escapeString s) = true) rfl ?_ h
  intro r s hr _ ih
  obtain ⟨t, ht, hescape⟩ := escapeString_rune hr
  rw [hescape, validUTF8_append ht, ih]

theorem length_le_escapeString (s : Bytes) : s.length ≤ (escapeString s).length := by
  induction s using escapeString.induct with
  | case1 s ih =>
    rw [escapeString]
    simp only [List.length_cons, List.length_append]
    omega
  | case2 s ih =>
    rw [escapeString]
    simp only [List.length_cons, List.length_append]
    omega
  | case3 b s h₁ h₂ ih =>
    have hpos : 1 ≤ (escapeByte b).length := by
      unfold escapeByte
      grind
    rw [escapeString]
    · simp only [List.length_cons, List.length_append]
      omega
    · exact h₁
    · exact h₂
  | case4 => simp

end Shunter
