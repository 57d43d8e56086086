import Shunter.Foundation.CountedBuckets
import Shunter.Types.ProductValue

/-!
# Counting distinct values and adding them up

The accumulators behind `COUNT(DISTINCT column)` and `SUM(column)`.  A sum of
integers stops with an error as soon as it leaves the range of its result, so
a sum that comes out is the exact one.
-/

namespace Shunter

def newUint64 (n : BitVec 64) : Value := ⟨.uint64, some n⟩

end Shunter

namespace Shunter.Valueagg

open Foundation

/-! ## Distinct values -/

abbrev DistinctSet := DistinctBuckets UInt64 Value

def newDistinctSet : DistinctSet := .empty

def DistinctSet.add (s : DistinctSet) (value : Value) : DistinctSet :=
  DistinctBuckets.add Value.hash64 Value.equal s value

/-- The counter is a `uint64`. -/
def DistinctSet.count (s : DistinctSet) : BitVec 64 := .ofNat 64 s.n

theorem value_classified : CountedBuckets.Classified Value.hash64 Value.equal Value.rank where
  eqv_iff _ _ := Value.equal_iff_rank
  hash_eq _ _ h := Value.hash64_congr h

theorem count_foldl_add (values : List Value) :
    (values.foldl DistinctSet.add newDistinctSet).count =
      .ofNat 64 (values.map Value.rank).toFinset.card :=
  congrArg (BitVec.ofNat 64) (DistinctBuckets.n_foldl value_classified values)

/-! ## Sums -/

inductive SumError where
  | nonSigned (kind : ValueKind)
  | overflowedInt64
  | nonUnsigned (kind : ValueKind)
  | overflowedUint64
  | nonFloat (kind : ValueKind)
  | unsupportedKind (kind : ValueKind)
  | invalidFloat
  deriving DecidableEq, Repr

/-- The float operations that the sum of a float column relies on, on the bits of a `float64`. -/
structure FloatOps where
  add : BitVec 64 → BitVec 64 → BitVec 64
  ofFloat32 : Float32Bits → BitVec 64

def valueAsInt64 : Value → Option (BitVec 64)
  | ⟨.int8, some x⟩ => some (x.signExtend 64)
  | ⟨.int16, some x⟩ => some (x.signExtend 64)
  | ⟨.int32, some x⟩ => some (x.signExtend 64)
  | ⟨.int64, some x⟩ => some x
  | _ => none

def valueAsUint64 : Value → Option (BitVec 64)
  | ⟨.uint8, some x⟩ => some (x.setWidth 64)
  | ⟨.uint16, some x⟩ => some (x.setWidth 64)
  | ⟨.uint32, some x⟩ => some (x.setWidth 64)
  | ⟨.uint64, some x⟩ => some x
  | _ => none

def valueAsFloat64 (floats : FloatOps) : Value → Option (BitVec 64)
  | ⟨.float32, some x⟩ => some (floats.ofFloat32 x)
  | ⟨.float64, some x⟩ => some x.bits
  | _ => none

structure Sum where
  kind : ValueKind
  nullable : Bool
  seen : Bool := false
  i64 : BitVec 64 := 0
  u64 : BitVec 64 := 0
  f64 : BitVec 64 := 0

def newSum (kind : ValueKind) (nullable : Bool) : Sum := { kind, nullable }

/-- The error that the accumulator keeps is the result here: no caller goes on after one. -/
def Sum.add (floats : FloatOps) (a : Sum) (value : Value) : Except SumError Sum :=
  if value.isNull then .ok a
  else
    match a.kind with
    | .int64 =>
      match valueAsInt64 value with
      | none => .error (.nonSigned value.kind)
      | some n =>
        let sum := a.i64 + n
        if (BitVec.slt 0 n && sum.slt a.i64) || (n.slt 0 && a.i64.slt sum) then
          .error .overflowedInt64
        else .ok { a with seen := true, i64 := sum }
    | .uint64 =>
      match valueAsUint64 value with
      | none => .error (.nonUnsigned value.kind)
      | some n =>
        if (BitVec.allOnes 64 - a.u64).ult n then .error .overflowedUint64
        else .ok { a with seen := true, u64 := a.u64 + n }
    | .float64 =>
      match valueAsFloat64 floats value with
      | none => .error (.nonFloat value.kind)
      | some n => .ok { a with seen := true, f64 := floats.add a.f64 n }
    | kind => .error (.unsupportedKind kind)

def Sum.value (a : Sum) : Except SumError Value :=
  if a.nullable && !a.seen then .ok (.newNull a.kind)
  else
    match a.kind with
    | .int64 => .ok ⟨.int64, some a.i64⟩
    | .uint64 => .ok ⟨.uint64, some a.u64⟩
    | .float64 =>
      if h : a.f64.toNat % 2 ^ 63 ≤ 0x7FF0000000000000 then .ok ⟨.float64, some ⟨a.f64, h⟩⟩
      else .error .invalidFloat
    | kind => .error (.unsupportedKind kind)

/-! ## What a sum of integers adds up to -/

def amountOf : Value → Int
  | ⟨.int8, some x⟩ => x.toInt
  | ⟨.int16, some x⟩ => x.toInt
  | ⟨.int32, some x⟩ => x.toInt
  | ⟨.int64, some x⟩ => x.toInt
  | ⟨.uint8, some x⟩ => x.toNat
  | ⟨.uint16, some x⟩ => x.toNat
  | ⟨.uint32, some x⟩ => x.toNat
  | ⟨.uint64, some x⟩ => x.toNat
  | _ => 0

variable {v : Value} {n : BitVec 64}

theorem amountOf_of_isNull (h : v.isNull = true) : amountOf v = 0 := by
  obtain ⟨k, p⟩ := v
  cases p with
  | none => cases k <;> rfl
  | some p => cases h

theorem toInt_of_valueAsInt64 (h : valueAsInt64 v = some n) : n.toInt = amountOf v := by
  obtain ⟨k, _ | p⟩ := v
  · cases k <;> cases h
  · cases k <;> cases h
    · exact BitVec.toInt_signExtend_of_le (by decide)
    · exact BitVec.toInt_signExtend_of_le (by decide)
    · exact BitVec.toInt_signExtend_of_le (by decide)
    · rfl

theorem toNat_of_valueAsUint64 (h : valueAsUint64 v = some n) : (n.toNat : Int) = amountOf v := by
  obtain ⟨k, _ | p⟩ := v
  · cases k <;> cases h
  · cases k <;> cases h
    · exact congrArg _ (BitVec.toNat_setWidth_of_le (by decide))
    · exact congrArg _ (BitVec.toNat_setWidth_of_le (by decide))
    · exact congrArg _ (BitVec.toNat_setWidth_of_le (by decide))
    · rfl

theorem toInt_add_of_check {x : BitVec 64}
    (h : ((BitVec.slt 0 n && (x + n).slt x) || (n.slt 0 && x.slt (x + n))) = false) :
    (x + n).toInt = x.toInt + n.toInt := by
  have hx := BitVec.le_two_mul_toInt (x := x)
  have hx' := BitVec.two_mul_toInt_lt (x := x)
  have hn := BitVec.le_two_mul_toInt (x := n)
  have hn' := BitVec.two_mul_toInt_lt (x := n)
  have hs := BitVec.le_two_mul_toInt (x := x + n)
  have hs' := BitVec.two_mul_toInt_lt (x := x + n)
  have hzero : (0 : BitVec 64).toInt = 0 := rfl
  have hsum : (x + n).toInt = x.toInt + n.toInt ∨ (x + n).toInt = x.toInt + n.toInt - 2 ^ 64 ∨
      (x + n).toInt = x.toInt + n.toInt + 2 ^ 64 := by
    rw [BitVec.toInt_add, Int.bmod_def]
    split <;> omega
  simp only [BitVec.slt_eq_decide, hzero, Bool.or_eq_false_iff, Bool.and_eq_false_iff,
    decide_eq_false_iff_not] at h
  omega

def Sum.amount (a : Sum) : Int := if a.kind = .int64 then a.i64.toInt else a.u64.toNat

def Sum.Integral (a : Sum) : Prop := a.kind = .int64 ∨ a.kind = .uint64

structure Sum.Adds (a a' : Sum) (z : Int) (seen : Bool) : Prop where
  kind : a'.kind = a.kind
  nullable : a'.nullable = a.nullable
  seen : a'.seen = (a.seen || seen)
  amount : a'.amount = a.amount + z

variable {a : Sum}

theorem Sum.add_adds {floats : FloatOps} {a' : Sum} (ha : a.Integral)
    (h : a.add floats v = .ok a') : a.Adds a' (amountOf v) (!v.isNull) := by
  unfold Sum.add at h
  split at h
  · next hnull =>
    cases h
    exact ⟨rfl, rfl, by simp [hnull], by simp [amountOf_of_isNull hnull]⟩
  · next hnull =>
    rcases ha with hkind | hkind <;> simp only [hkind] at h <;> split at h
    · cases h
    · next n hn =>
      split at h
      · cases h
      · next hcheck =>
        cases h
        refine ⟨hkind.symm, rfl, by simp [hnull], ?_⟩
        simp [Sum.amount, hkind, toInt_add_of_check (Bool.not_eq_true _ ▸ hcheck),
          toInt_of_valueAsInt64 hn]
    · cases h
    · next n hn =>
      split at h
      · cases h
      · next hcheck =>
        cases h
        refine ⟨hkind.symm, rfl, by simp [hnull], ?_⟩
        rw [BitVec.ult, decide_eq_true_iff, Nat.not_lt] at hcheck
        have hones : (BitVec.allOnes 64).toNat = 2 ^ 64 - 1 := rfl
        rw [← toNat_of_valueAsUint64 hn]
        simp only [Sum.amount, hkind, reduceCtorEq, if_false]
        bv_omega

theorem Sum.addAll_adds {floats : FloatOps} {values : List Value} {a' : Sum} (ha : a.Integral)
    (h : values.foldlM (Sum.add floats) a = .ok a') :
    a.Adds a' (total amountOf values) (values.any (!·.isNull)) := by
  induction values generalizing a with
  | nil =>
    cases h
    exact ⟨rfl, rfl, by simp, by simp⟩
  | cons v values ih =>
    rw [List.foldlM_cons] at h
    cases hv : a.add floats v with
    | error e =>
      rw [hv] at h
      cases h
    | ok b =>
      rw [hv] at h
      have hfirst := Sum.add_adds ha hv
      have hb : b.Integral := by rwa [Sum.Integral, hfirst.kind]
      have hrest := ih hb h
      refine ⟨?_, ?_, ?_, ?_⟩
      · rw [hrest.kind, hfirst.kind]
      · rw [hrest.nullable, hfirst.nullable]
      · rw [hrest.seen, hfirst.seen, List.any_cons, Bool.or_assoc]
      · rw [hrest.amount, hfirst.amount, total_cons, add_assoc]

def integerValue (kind : ValueKind) (z : Int) : Value :=
  if kind = .int64 then ⟨.int64, some (.ofInt 64 z)⟩ else ⟨.uint64, some (.ofInt 64 z)⟩

def InRange (kind : ValueKind) (z : Int) : Prop :=
  if kind = .int64 then -2 ^ 63 ≤ z ∧ z < 2 ^ 63 else 0 ≤ z ∧ z < 2 ^ 64

theorem Sum.value_eq (ha : a.Integral) :
    a.value = .ok (if a.nullable && !a.seen then .newNull a.kind
      else integerValue a.kind a.amount) := by
  unfold Sum.value
  split
  · rfl
  · rcases ha with hkind | hkind <;> simp [hkind, integerValue, Sum.amount]

theorem Sum.amount_inRange (ha : a.Integral) : InRange a.kind a.amount := by
  rcases ha with hkind | hkind <;> simp only [InRange, Sum.amount, hkind, reduceCtorEq, if_true,
    if_false]
  · have hlow := BitVec.le_two_mul_toInt (x := a.i64)
    have hhigh := BitVec.two_mul_toInt_lt (x := a.i64)
    omega
  · have hhigh := a.u64.isLt
    omega

theorem amountOf_congr {w : Value} (h : v.rank = w.rank) : amountOf v = amountOf w := by
  by_cases hf : v.kind = .float32 ∨ v.kind = .float64
  · have hzero : ∀ v : Value, v.kind = .float32 ∨ v.kind = .float64 → amountOf v = 0 := by
      rintro ⟨k, p⟩ (rfl | rfl) <;> rfl
    rw [hzero v hf, hzero w (Value.kind_eq_of_rank_eq h ▸ hf)]
  · rw [not_or] at hf
    rw [Value.eq_of_rank_eq h hf.1 hf.2]

theorem isNull_congr {w : Value} (h : v.rank = w.rank) : v.isNull = w.isNull := by
  obtain ⟨k, p⟩ := v
  obtain ⟨k', q⟩ := w
  cases p <;> cases q <;> simp_all [Value.rank, Value.isNull]

end Shunter.Valueagg
