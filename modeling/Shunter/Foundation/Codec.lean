import Mathlib

/-!
# Byte readers

A reader takes a value off the front of its input or fails.  A text is read as
a value when the reader takes exactly that text in front of every rest; this
composes along the sequencing of readers.
-/

namespace Foundation

/-! ## Little-endian numbers -/

/-- The low `n` bytes of `v`, least significant first. -/
def littleEndian : Nat → Nat → List UInt8
  | 0, _ => []
  | n + 1, v => UInt8.ofNat v :: littleEndian n (v / 256)

def littleEndianValue : List UInt8 → Nat
  | [] => 0
  | b :: bs => b.toNat + 256 * littleEndianValue bs

@[simp] theorem length_littleEndian (n v : Nat) : (littleEndian n v).length = n := by
  induction n generalizing v with
  | zero => rfl
  | succ n ih => rw [littleEndian, List.length_cons, ih]

theorem littleEndianValue_littleEndian {n v : Nat} (h : v < 256 ^ n) :
    littleEndianValue (littleEndian n v) = v := by
  induction n generalizing v with
  | zero =>
    rw [pow_zero] at h
    rw [littleEndian, littleEndianValue]
    omega
  | succ n ih =>
    have hdiv : v / 256 < 256 ^ n := by
      rw [pow_succ] at h
      omega
    rw [littleEndian, littleEndianValue, ih hdiv, UInt8.toNat_ofNat']
    omega

theorem littleEndianValue_lt (bs : List UInt8) : littleEndianValue bs < 256 ^ bs.length := by
  induction bs with
  | nil => simp [littleEndianValue]
  | cons b bs ih =>
    have hb := b.toNat_lt
    rw [littleEndianValue, List.length_cons, pow_succ]
    omega

theorem littleEndian_littleEndianValue (bs : List UInt8) :
    littleEndian bs.length (littleEndianValue bs) = bs := by
  induction bs with
  | nil => rfl
  | cons b bs ih =>
    have hb := b.toNat_lt
    have hmod : UInt8.ofNat (b.toNat + 256 * littleEndianValue bs) = b := by
      rw [← UInt8.toNat_inj, UInt8.toNat_ofNat']
      omega
    have hdiv : (b.toNat + 256 * littleEndianValue bs) / 256 = littleEndianValue bs := by
      omega
    rw [List.length_cons, littleEndianValue, littleEndian, hmod, hdiv, ih]

theorem littleEndian_append {n v : Nat} (h : v < 256 ^ n) (m w : Nat) :
    littleEndian (n + m) (v + 256 ^ n * w) = littleEndian n v ++ littleEndian m w := by
  induction n generalizing v with
  | zero =>
    have hv : v = 0 := by simpa using h
    simp [littleEndian, hv]
  | succ n ih =>
    have hdiv : v / 256 < 256 ^ n := by
      rw [pow_succ] at h
      omega
    have hpow : 256 ^ (n + 1) * w = 256 * (256 ^ n * w) := by ring
    have hlow : UInt8.ofNat (v + 256 ^ (n + 1) * w) = UInt8.ofNat v := by
      rw [← UInt8.toNat_inj, UInt8.toNat_ofNat', UInt8.toNat_ofNat']
      omega
    have hhigh : (v + 256 ^ (n + 1) * w) / 256 = v / 256 + 256 ^ n * w := by omega
    rw [Nat.add_right_comm, littleEndian, hlow, hhigh, ih hdiv, littleEndian, List.cons_append]

theorem littleEndian_eq_map (n v : Nat) :
    littleEndian n v = (List.range n).map fun i => UInt8.ofNat (v / 2 ^ (i * 8) % 256) := by
  induction n generalizing v with
  | zero => rfl
  | succ n ih =>
    rw [littleEndian, ih, List.range_succ_eq_map, List.map_cons, List.map_map]
    congr 1
    · rw [← UInt8.toNat_inj, UInt8.toNat_ofNat', UInt8.toNat_ofNat']
      simp
    · apply List.map_congr_left
      intro i _
      have hshift : 2 ^ ((i + 1) * 8) = 256 * 2 ^ (i * 8) := by ring
      simp only [Function.comp, Nat.succ_eq_add_one, hshift, Nat.div_div_eq_div_mul]

/-! ## Fallible computations -/

theorem except_bind_eq_ok {ε α β : Type} {x : Except ε α} {f : α → Except ε β} {b : β} :
    (x >>= f) = .ok b ↔ ∃ a, x = .ok a ∧ f a = .ok b := by
  cases x <;> simp [bind, Except.bind]

theorem except_mapError_eq_ok {ε ε' α : Type*} {x : Except ε α} {f : ε → ε'} {a : α} :
    x.mapError f = .ok a ↔ x = .ok a := by
  cases x <;> simp [Except.mapError]

theorem except_bind_eq_error {ε α β : Type} {x : Except ε α} {f : α → Except ε β} {e : ε} :
    (x >>= f) = .error e ↔ x = .error e ∨ ∃ a, x = .ok a ∧ f a = .error e := by
  cases x <;> simp [bind, Except.bind]

section Outcome

variable {ε ε' α β : Type} {E : ε → Prop} {Q : α → Prop} {x : Except ε α}

/-- What is known of a computation: a property of its errors and one of its results. -/
def Outcome (E : ε → Prop) (Q : α → Prop) : Except ε α → Prop
  | .error e => E e
  | .ok a => Q a

theorem outcome_iff :
    Outcome E Q x ↔ (∀ e, x = .error e → E e) ∧ ∀ a, x = .ok a → Q a := by
  cases x <;> simp [Outcome]

theorem Outcome.bind {R : β → Prop} {f : α → Except ε β} (h : Outcome E Q x)
    (hf : ∀ a, Q a → Outcome E R (f a)) : Outcome E R (x >>= f) := by
  cases x with
  | error e => exact h
  | ok a => exact hf a h

theorem outcome_mapError {E : ε' → Prop} {f : ε → ε'} :
    Outcome E Q (x.mapError f) ↔ Outcome (fun e => E (f e)) Q x := by
  cases x <;> rfl

theorem outcome_map {R : β → Prop} {f : α → β} :
    Outcome E R (x.map f) ↔ Outcome E (fun a => R (f a)) x := by
  cases x <;> rfl

end Outcome

/-! ## Readers -/

/-- A reader of values from a list of bytes, with errors of type `ε`. -/
abbrev Reader (ε α : Type) := StateT (List UInt8) (Except ε) α

namespace Reader

variable {ε α β : Type}

def Reads (r : Reader ε α) (text : List UInt8) (v : α) : Prop :=
  ∀ rest, r (text ++ rest) = .ok (v, rest)

theorem bind_apply (r : Reader ε α) (f : α → Reader ε β) (x : List UInt8) :
    (r >>= f) x =
      match r x with
      | .error e => .error e
      | .ok (v, y) => f v y := by
  change (r x >>= fun p => f p.1 p.2) = _
  cases r x <;> rfl

variable {r : Reader ε α} {f : α → Reader ε β} {x : List UInt8} {v : α}

theorem bind_ok {rest : List UInt8} {w : β} (h : (r >>= f) x = .ok (w, rest)) :
    ∃ v y, r x = .ok (v, y) ∧ f v y = .ok (w, rest) := by
  rw [bind_apply] at h
  cases hr : r x with
  | error e =>
    rw [hr] at h
    cases h
  | ok p =>
    rw [hr] at h
    exact ⟨p.1, p.2, rfl, h⟩

theorem bind_of_ok {y : List UInt8} (h : r x = .ok (v, y)) : (r >>= f) x = f v y := by
  rw [bind_apply, h]

theorem reads_pure (v : α) : Reads (pure v : Reader ε α) [] v := fun _ => rfl

variable {s : List UInt8}

theorem Reads.bind {t : List UInt8} {w : β} (hr : Reads r s v) (hf : Reads (f v) t w) :
    Reads (r >>= f) (s ++ t) w := by
  intro rest
  rw [List.append_assoc, bind_of_ok (hr _), hf rest]

theorem Reads.andThen {w : β} (hr : Reads r s v) (hf : Reads (f v) [] w) :
    Reads (r >>= f) s w := by
  have h := hr.bind hf
  rwa [List.append_nil] at h

theorem Reads.map (hr : Reads r s v) (f : α → β) : Reads (r >>= fun v => pure (f v)) s (f v) :=
  hr.andThen (reads_pure (f v))

theorem Reads.apply (h : Reads r s v) : r s = .ok (v, []) := by
  have := h []
  rwa [List.append_nil] at this

/-! ### Fixed lengths -/

def takeBytes (short : List UInt8 → ε) (n : Nat) : Reader ε (List UInt8) := fun x =>
  if n ≤ x.length then .ok (x.take n, x.drop n) else .error (short x)

variable {n : Nat} {short : List UInt8 → ε}

theorem takeBytes_reads (short : List UInt8 → ε) (h : s.length = n) :
    Reads (takeBytes short n) s s := by
  intro rest
  subst h
  simp [takeBytes]

theorem takeBytes_ok {rest : List UInt8} (h : takeBytes short n x = .ok (s, rest)) :
    x = s ++ rest ∧ s.length = n := by
  unfold takeBytes at h
  split at h
  · cases h
    exact ⟨(List.take_append_drop n x).symm, by simpa⟩
  · cases h

theorem takeBytes_eq_ok {p : List UInt8 × List UInt8} :
    takeBytes short n x = .ok p ↔ x = p.1 ++ p.2 ∧ p.1.length = n := by
  constructor
  · exact takeBytes_ok
  · rintro ⟨rfl, hlen⟩
    exact takeBytes_reads short hlen p.2

theorem takeBytes_eq_error {e : ε} :
    takeBytes short n x = .error e ↔ x.length < n ∧ e = short x := by
  unfold takeBytes
  split
  · simp only [reduceCtorEq, false_iff]
    omega
  · next h => simp [not_le.mp h, eq_comm]

/-! ### Repetition -/

def many (r : Reader ε α) : Nat → Reader ε (List α)
  | 0 => pure []
  | n + 1 => do
    let v ← r
    let vs ← many r n
    pure (v :: vs)

theorem many_reads {text : α → List UInt8} {vs : List α} (h : ∀ v ∈ vs, Reads r (text v) v) :
    Reads (many r vs.length) (vs.flatMap text) vs := by
  induction vs with
  | nil => exact reads_pure []
  | cons v vs ih =>
    have hv := h v (by simp)
    have hvs := ih fun w hw => h w (by simp [hw])
    exact hv.bind (hvs.map _)

end Reader

/-- A length checked against a limit keeps its value in the 32 bits that it is written in. -/
theorem checkedLength_ok {ε : Type} {e : ε} {limit n m : Nat} (hlimit : limit < 2 ^ 32) :
    (if n > limit then Except.error e else .ok (n % 2 ^ 32)) = .ok m ↔ n ≤ limit ∧ m = n := by
  split
  · simp only [reduceCtorEq, false_iff, not_and]
    omega
  · simp only [Except.ok.injEq]
    omega

end Foundation
