import Mathlib

/-!
# UTF-8 validity of byte strings

`utf8.ValidString`: shortest encodings only, no surrogates, nothing above
U+10FFFF.
-/

namespace Shunter

abbrev Bytes := List UInt8

def isContByte (b : UInt8) : Bool := 0x80 ≤ b && b ≤ 0xBF

def acceptSecond3 (a b : UInt8) : Bool :=
  if a == 0xE0 then 0xA0 ≤ b && b ≤ 0xBF
  else if a == 0xED then 0x80 ≤ b && b ≤ 0x9F
  else isContByte b

def acceptSecond4 (a b : UInt8) : Bool :=
  if a == 0xF0 then 0x90 ≤ b && b ≤ 0xBF
  else if a == 0xF4 then 0x80 ≤ b && b ≤ 0x8F
  else isContByte b

def validUTF8 : Bytes → Bool
  | [] => true
  | a :: rest =>
    if a < 0x80 then validUTF8 rest
    else if 0xC2 ≤ a && a ≤ 0xDF then
      match rest with
      | b :: rest => isContByte b && validUTF8 rest
      | [] => false
    else if 0xE0 ≤ a && a ≤ 0xEF then
      match rest with
      | b :: c :: rest => acceptSecond3 a b && isContByte c && validUTF8 rest
      | _ => false
    else if 0xF0 ≤ a && a ≤ 0xF4 then
      match rest with
      | b :: c :: d :: rest =>
        acceptSecond4 a b && isContByte c && isContByte d && validUTF8 rest
      | _ => false
    else false

example : validUTF8 "naïve €".toUTF8.data.toList = true := by decide

example : validUTF8 [0xC0, 0x80] = false := by decide

/-! ## Runes -/

def isRune : Bytes → Bool
  | [a] => a < 0x80
  | [a, b] => 0xC2 ≤ a && a ≤ 0xDF && isContByte b
  | [a, b, c] => 0xE0 ≤ a && a ≤ 0xEF && acceptSecond3 a b && isContByte c
  | [a, b, c, d] =>
    0xF0 ≤ a && a ≤ 0xF4 && acceptSecond4 a b && isContByte c && isContByte d
  | _ => false

theorem validUTF8_ascii_cons {b : UInt8} (h : b < 0x80) (x : Bytes) :
    validUTF8 (b :: x) = validUTF8 x := by
  rw [validUTF8.eq_def]
  simp only [h, if_true]

theorem validUTF8_rune_append {r : Bytes} (h : isRune r = true) (x : Bytes) :
    validUTF8 (r ++ x) = validUTF8 x := by
  unfold isRune at h
  split at h
  · next a =>
    simp only [decide_eq_true_eq] at h
    exact validUTF8_ascii_cons h x
  · next a b =>
    simp only [Bool.and_eq_true, decide_eq_true_eq] at h
    have h₁ : ¬ a < 0x80 := by grind
    rw [validUTF8.eq_def]
    simp [h, h₁]
  · next a b c =>
    simp only [Bool.and_eq_true, decide_eq_true_eq] at h
    have h₁ : ¬ a < 0x80 := by grind
    have h₂ : ¬ a ≤ 0xDF := by grind
    rw [validUTF8.eq_def]
    simp [h, h₁, h₂]
  · next a b c d =>
    simp only [Bool.and_eq_true, decide_eq_true_eq] at h
    have h₁ : ¬ a < 0x80 := by grind
    have h₂ : ¬ a ≤ 0xDF := by grind
    have h₃ : ¬ a ≤ 0xEF := by grind
    rw [validUTF8.eq_def]
    simp [h, h₁, h₂, h₃]
  · cases h

variable {x : Bytes}

theorem validUTF8_cases (h : validUTF8 x = true) :
    x = [] ∨ ∃ r y, isRune r = true ∧ x = r ++ y ∧ validUTF8 y = true := by
  revert h
  fun_cases validUTF8 x <;> intro h
  · exact .inl rfl
  · next a y ha => exact .inr ⟨[a], y, by simpa [isRune] using ha, rfl, h⟩
  · next a hlow ha b y =>
    rw [Bool.and_eq_true] at h
    exact .inr ⟨[a, b], y, by simp_all [isRune], rfl, h.2⟩
  · cases h
  · next a hlow h₂ ha b c y =>
    rw [Bool.and_eq_true] at h
    exact .inr ⟨[a, b, c], y, by simp_all [isRune], rfl, h.2⟩
  · cases h
  · next a hlow h₂ h₃ ha b c d y =>
    rw [Bool.and_eq_true] at h
    exact .inr ⟨[a, b, c, d], y, by simp_all [isRune], rfl, h.2⟩
  · cases h
  · cases h

theorem isRune_ne_nil {r : Bytes} (h : isRune r = true) : r ≠ [] := by
  rintro rfl
  cases h

theorem validUTF8_induction {P : Bytes → Prop} (nil : P [])
    (rune : ∀ r x, isRune r = true → validUTF8 x = true → P x → P (r ++ x))
    (h : validUTF8 x = true) : P x := by
  induction hn : x.length using Nat.strong_induction_on generalizing x with
  | _ n ih =>
    rcases validUTF8_cases h with rfl | ⟨r, y, hr, rfl, hy⟩
    · exact nil
    · have hlen : 0 < r.length := List.length_pos_of_ne_nil (isRune_ne_nil hr)
      refine rune r y hr hy (ih y.length ?_ hy rfl)
      rw [← hn, List.length_append]
      omega

theorem validUTF8_append {y : Bytes} (hx : validUTF8 x = true) :
    validUTF8 (x ++ y) = validUTF8 y := by
  refine validUTF8_induction (P := fun x => validUTF8 (x ++ y) = validUTF8 y) rfl ?_ hx
  intro r x hr _ ih
  rw [List.append_assoc, validUTF8_rune_append hr, ih]

theorem validUTF8_of_ascii (h : ∀ b ∈ x, b < 0x80) : validUTF8 x = true := by
  induction x with
  | nil => rfl
  | cons b x ih =>
    rw [validUTF8_ascii_cons (h b (by simp))]
    exact ih fun b' hb' => h b' (List.mem_cons_of_mem _ hb')

end Shunter
