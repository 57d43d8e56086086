import Shunter.Types.JSON

/-!
# The grammar of JSON numbers

The number scanner accepts exactly a number in front of the rest of its input,
and reads a number again wherever it is followed by something that cannot
prolong it.
-/

namespace Shunter

/-! ## Grammar -/

structure IsDigits (d : Bytes) : Prop where
  ne_nil : d ≠ []
  digits : ∀ b ∈ d, isDecimalDigit b = true

inductive IsInt : Bytes → Prop where
  | zero : IsInt [0x30]
  | digits {c : UInt8} {d : Bytes} (hne : c ≠ 0x30) (h : ∀ b ∈ c :: d, isDecimalDigit b = true) :
      IsInt (c :: d)

inductive IsFraction : Bytes → Prop where
  | absent : IsFraction []
  | present {d : Bytes} (h : IsDigits d) : IsFraction (0x2E :: d)

inductive IsExponent : Bytes → Prop where
  | absent : IsExponent []
  | present {c : UInt8} {s d : Bytes} (hc : c = 0x65 ∨ c = 0x45)
      (hs : s = [] ∨ s = [0x2B] ∨ s = [0x2D]) (h : IsDigits d) : IsExponent (c :: s ++ d)

inductive IsNumber : Bytes → Prop where
  | mk {s i f e : Bytes} (hs : s = [] ∨ s = [0x2D]) (hi : IsInt i) (hf : IsFraction f)
      (he : IsExponent e) : IsNumber (s ++ i ++ f ++ e)

def HeadIs (p : UInt8 → Prop) (x : Bytes) : Prop := ∀ c ∈ x.head?, p c

@[simp] theorem headIs_nil (p : UInt8 → Prop) : HeadIs p [] := by simp [HeadIs]

@[simp] theorem headIs_cons (p : UInt8 → Prop) (c : UInt8) (x : Bytes) :
    HeadIs p (c :: x) ↔ p c := by simp [HeadIs]

def NumberEnd (x : Bytes) : Prop :=
  HeadIs (fun c => isDecimalDigit c = false ∧ c ≠ 0x2E ∧ c ≠ 0x65 ∧ c ≠ 0x45) x

theorem isDecimalDigit_ascii {c : UInt8} (h : isDecimalDigit c = true) :
    c < 0x80 ∧ c ≠ 0x2D ∧ c ≠ 0x2B ∧ c ≠ 0x2E ∧ c ≠ 0x65 ∧ c ≠ 0x45 := by
  unfold isDecimalDigit at h
  grind

/-! ## What the scanner accepts -/

variable {rest d x n : Bytes}

theorem scanDigits_ok (h : scanDigits x = some (d, rest)) : IsDigits d ∧ x = d ++ rest := by
  unfold scanDigits at h
  split at h
  · cases h
  · next hne =>
    simp only [Option.some.injEq, Prod.mk.injEq] at h
    obtain ⟨rfl, rfl⟩ := h
    exact ⟨⟨hne, fun b hb => List.mem_takeWhile_imp hb⟩,
      (List.takeWhile_append_dropWhile ..).symm⟩

theorem scanSign_ok (x : Bytes) :
    ((scanSign x).1 = [] ∨ (scanSign x).1 = [0x2D]) ∧ x = (scanSign x).1 ++ (scanSign x).2 := by
  unfold scanSign
  split <;> simp

variable {i f e : Bytes}

theorem scanInt_ok (h : scanInt x = some (i, rest)) : IsInt i ∧ x = i ++ rest := by
  revert h
  fun_cases scanInt x <;> rintro ⟨⟩
  · next hc =>
    rw [beq_iff_eq.mp hc]
    exact ⟨.zero, rfl⟩
  · next c x hc hdigit =>
    refine ⟨.digits (by simpa using hc) (List.forall_mem_cons.mpr ⟨hdigit, ?_⟩), ?_⟩
    · exact fun b hb => List.mem_takeWhile_imp hb
    · rw [List.cons_append, List.takeWhile_append_dropWhile]

theorem scanFraction_ok (h : scanFraction x = some (f, rest)) : IsFraction f ∧ x = f ++ rest := by
  unfold scanFraction at h
  split at h
  · next y =>
    simp only [Option.map_eq_some_iff, Prod.mk.injEq] at h
    obtain ⟨⟨d, rest'⟩, hscan, rfl, rfl⟩ := h
    obtain ⟨hd, rfl⟩ := scanDigits_ok hscan
    exact ⟨.present hd, rfl⟩
  · simp only [Option.some.injEq, Prod.mk.injEq] at h
    obtain ⟨rfl, rfl⟩ := h
    exact ⟨.absent, rfl⟩

theorem scanExponentSign_ok (x : Bytes) :
    ((scanExponentSign x).1 = [] ∨ (scanExponentSign x).1 = [0x2B] ∨
      (scanExponentSign x).1 = [0x2D]) ∧
      x = (scanExponentSign x).1 ++ (scanExponentSign x).2 := by
  unfold scanExponentSign
  split
  · simp
  · obtain ⟨hs, hx⟩ := scanSign_ok x
    exact ⟨hs.imp_right .inr, hx⟩

theorem scanExponent_ok (h : scanExponent x = some (e, rest)) : IsExponent e ∧ x = e ++ rest := by
  revert h
  fun_cases scanExponent x
  case case2 c y hc =>
    intro h
    simp only [Option.map_eq_some_iff, Prod.mk.injEq] at h
    obtain ⟨⟨d, rest'⟩, hscan, rfl, rfl⟩ := h
    obtain ⟨hd, hy⟩ := scanDigits_ok hscan
    obtain ⟨hs, hx⟩ := scanExponentSign_ok y
    refine ⟨.present (by simpa using hc) hs hd, ?_⟩
    rw [hy] at hx
    rw [List.cons_append, List.cons_append, List.append_assoc, ← hx]
  all_goals
    rintro ⟨⟩
    exact ⟨.absent, rfl⟩

theorem scanNumber_ok (h : scanNumber x = some (n, rest)) : IsNumber n ∧ x = n ++ rest := by
  obtain ⟨hs, hx⟩ := scanSign_ok x
  revert h
  fun_cases scanNumber x <;> rintro ⟨⟩
  next i x₁ hint f x₂ hfrac e hexp =>
    obtain ⟨hi, hx₁⟩ := scanInt_ok hint
    obtain ⟨hf, hx₂⟩ := scanFraction_ok hfrac
    obtain ⟨he, hx₃⟩ := scanExponent_ok hexp
    refine ⟨.mk hs hi hf he, ?_⟩
    rw [hx₁, hx₂, hx₃] at hx
    simpa only [List.append_assoc] using hx

/-! ## Reading a number again -/

private theorem takeWhile_digits (h : ∀ b ∈ d, isDecimalDigit b = true)
    (hrest : HeadIs (isDecimalDigit · = false) rest) :
    (d ++ rest).takeWhile isDecimalDigit = d ∧ (d ++ rest).dropWhile isDecimalDigit = rest := by
  rw [List.takeWhile_append_of_pos h, List.dropWhile_append_of_pos h]
  cases rest with
  | nil => simp
  | cons c rest =>
    rw [headIs_cons] at hrest
    simp [hrest]

theorem scanDigits_append (h : IsDigits d) (hrest : HeadIs (isDecimalDigit · = false) rest) :
    scanDigits (d ++ rest) = some (d, rest) := by
  obtain ⟨htake, hdrop⟩ := takeWhile_digits h.digits hrest
  rw [scanDigits, htake, hdrop, if_neg h.ne_nil]

theorem IsDigits.head (h : IsDigits d) (rest : Bytes) :
    ∃ c x, d ++ rest = c :: x ∧ isDecimalDigit c = true := by
  cases d with
  | nil => exact absurd rfl h.ne_nil
  | cons c d => exact ⟨c, d ++ rest, rfl, h.digits c (by simp)⟩

theorem scanExponentSign_append {s : Bytes} (hs : s = [] ∨ s = [0x2B] ∨ s = [0x2D])
    (hd : IsDigits d) (rest : Bytes) : scanExponentSign (s ++ (d ++ rest)) = (s, d ++ rest) := by
  rcases hs with rfl | rfl | rfl
  · obtain ⟨c, x, hx, hc⟩ := hd.head rest
    obtain ⟨-, hminus, hplus, -⟩ := isDecimalDigit_ascii hc
    rw [hx, List.nil_append]
    simp [scanExponentSign, scanSign, hminus, hplus]
  · rfl
  · rfl

theorem scanExponent_append (h : IsExponent e) (hrest : NumberEnd rest) :
    scanExponent (e ++ rest) = some (e, rest) := by
  cases h with
  | absent =>
    cases rest with
    | nil => rfl
    | cons c rest =>
      obtain ⟨-, -, hlower, hupper⟩ := (headIs_cons ..).mp hrest
      simp [scanExponent, hlower, hupper]
  | @present c s d hc hs hd =>
    have hdigits : scanDigits (d ++ rest) = some (d, rest) :=
      scanDigits_append hd fun b hb => (hrest b hb).1
    have hsign := scanExponentSign_append hs hd rest
    rw [List.cons_append, List.cons_append, List.append_assoc, scanExponent,
      if_pos (by rcases hc with rfl | rfl <;> rfl), hsign]
    dsimp only
    rw [hdigits]
    rfl

theorem IsExponent.fractionEnd (h : IsExponent e) (hrest : NumberEnd rest) :
    HeadIs (fun c => isDecimalDigit c = false ∧ c ≠ 0x2E) (e ++ rest) := by
  cases h with
  | absent => exact fun c hc => ⟨(hrest c hc).1, (hrest c hc).2.1⟩
  | present hc hs hd =>
    rw [List.cons_append, List.cons_append, headIs_cons]
    rcases hc with rfl | rfl <;> decide

section

variable (h : IsFraction f) (hrest : HeadIs (fun c => isDecimalDigit c = false ∧ c ≠ 0x2E) rest)
include h hrest

theorem scanFraction_append : scanFraction (f ++ rest) = some (f, rest) := by
  cases h with
  | absent =>
    cases rest with
    | nil => rfl
    | cons c rest =>
      obtain ⟨-, hdot⟩ := (headIs_cons ..).mp hrest
      simp [scanFraction, hdot]
  | present hd =>
    have hdigits := scanDigits_append hd fun b hb => (hrest b hb).1
    simp [scanFraction, hdigits]

theorem IsFraction.intEnd : HeadIs (isDecimalDigit · = false) (f ++ rest) := by
  cases h with
  | absent => exact fun c hc => (hrest c hc).1
  | present hd =>
    rw [List.cons_append, headIs_cons]
    decide

end

theorem scanInt_append (h : IsInt i) (hrest : HeadIs (isDecimalDigit · = false) rest) :
    scanInt (i ++ rest) = some (i, rest) := by
  cases h with
  | zero => rfl
  | @digits c d hne h =>
    obtain ⟨htake, hdrop⟩ := takeWhile_digits (fun b hb => h b (List.mem_cons_of_mem _ hb)) hrest
    simp [scanInt, hne, h c, htake, hdrop]

theorem scanSign_append {s : Bytes} (hs : s = [] ∨ s = [0x2D]) (hi : IsInt i) (rest : Bytes) :
    scanSign (s ++ (i ++ rest)) = (s, i ++ rest) := by
  rcases hs with rfl | rfl
  · cases hi with
    | zero => rfl
    | @digits c d hne h =>
      obtain ⟨-, hminus, -⟩ := isDecimalDigit_ascii (h c (by simp))
      simp [scanSign, hminus]
  · rfl

theorem scanNumber_append (h : IsNumber n) (hrest : NumberEnd rest) :
    scanNumber (n ++ rest) = some (n, rest) := by
  cases h with
  | @mk s i f e hs hi hf he =>
    have hexp := scanExponent_append he hrest
    have hfracEnd := he.fractionEnd hrest
    have hfrac := scanFraction_append hf hfracEnd
    have hint := scanInt_append hi (hf.intEnd hfracEnd)
    have hsign := scanSign_append hs hi (f ++ (e ++ rest))
    simp only [List.append_assoc, scanNumber, hsign, hint, hfrac, hexp]

/-! ## Bytes of a number -/

private theorem digits_ascii (h : ∀ b ∈ d, isDecimalDigit b = true) : ∀ b ∈ d, b < 0x80 :=
  fun b hb => (isDecimalDigit_ascii (h b hb)).1

theorem IsNumber.ascii (h : IsNumber n) : ∀ b ∈ n, b < 0x80 := by
  cases h with
  | @mk s i f e hs hi hf he =>
    intro b hb
    simp only [List.mem_append] at hb
    rcases hb with ((hb | hb) | hb) | hb
    · rcases hs with rfl | rfl <;> simp_all
    · cases hi with
      | zero => simp_all
      | digits hne h => exact digits_ascii h b hb
    · cases hf with
      | absent => cases hb
      | present hd =>
        rcases List.mem_cons.mp hb with rfl | hb
        · decide
        · exact digits_ascii hd.digits b hb
    · cases he with
      | absent => cases hb
      | present hc hs hd =>
        simp only [List.cons_append, List.mem_cons, List.mem_append] at hb
        rcases hb with rfl | hb | hb
        · rcases hc with rfl | rfl <;> decide
        · rcases hs with rfl | rfl | rfl <;> simp_all
        · exact digits_ascii hd.digits b hb

theorem IsNumber.head (h : IsNumber n) :
    ∃ c x, n = c :: x ∧ (isDecimalDigit c = true ∨ c = 0x2D) := by
  cases h with
  | @mk s i f e hs hi hf he =>
    rcases hs with rfl | rfl
    · cases hi with
      | zero => exact ⟨0x30, f ++ e, rfl, .inl (by decide)⟩
      | @digits c d hne h => exact ⟨c, d ++ f ++ e, rfl, .inl (h c (by simp))⟩
    · exact ⟨0x2D, i ++ f ++ e, rfl, .inr rfl⟩

end Shunter
