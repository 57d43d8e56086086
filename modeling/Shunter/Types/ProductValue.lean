import Shunter.Types.Value

/-!
# Rows

A product value is the list of column values of a row.  Copying a row has no
counterpart here: values are immutable.
-/

namespace Shunter

abbrev RowID := Nat

/-- Transaction identifiers are `uint64`; 0 means that nothing is committed yet. -/
abbrev TxID := Nat

def maxUint64 : Nat := 2 ^ 64 - 1

abbrev ProductValue := List Value

namespace ProductValue

def equal : ProductValue → ProductValue → Bool
  | [], [] => true
  | v :: pv, w :: other => v.equal w && equal pv other
  | _, _ => false

def hashColumn (sum : UInt64) (v : Value) : UInt64 :=
  let sum := fnv64aWriteByte sum (UInt8.ofNat v.kind.toNat)
  match v.payload with
  | none => fnv64aWriteUint32BE (fnv64aWriteByte sum 0) 0
  | some p =>
    p.hashPayload64Into (fnv64aWriteUint32BE (fnv64aWriteByte sum 1) p.payloadLen)

def hash64 (pv : ProductValue) : UInt64 := pv.foldl hashColumn fnv64aOffset

/-- The class of a row under `equal`. -/
def rowClass (pv : ProductValue) : List (List (List Int)) := pv.map Value.rank

variable {r s : ProductValue}

theorem equal_iff : r.equal s = true ↔ r.rowClass = s.rowClass := by
  induction r generalizing s with
  | nil => cases s <;> simp [equal, rowClass]
  | cons v r ih =>
    cases s with
    | nil => simp [equal, rowClass]
    | cons w s =>
      have ih' := ih (s := s)
      simp only [rowClass] at ih'
      simp [equal, rowClass, Value.equal_iff_rank, ih']

theorem equal_refl (r : ProductValue) : r.equal r = true := equal_iff.mpr rfl

theorem hashColumn_congr {v w : Value} (sum : UInt64) (h : v.rank = w.rank) :
    hashColumn sum v = hashColumn sum w := by
  obtain ⟨k, p⟩ := v
  obtain ⟨k', q⟩ := w
  cases Value.kind_eq_of_rank_eq h
  cases p <;> cases q <;> simp [Value.rank] at h
  · rfl
  · simp only [hashColumn, Payload.payloadLen_congr h, Payload.hashPayload64Into_congr _ h]

theorem hash64_congr (h : r.rowClass = s.rowClass) : r.hash64 = s.hash64 := by
  unfold hash64
  generalize fnv64aOffset = sum
  induction r generalizing s sum with
  | nil =>
    cases s with
    | nil => rfl
    | cons w s => simp [rowClass] at h
  | cons v r ih =>
    cases s with
    | nil => simp [rowClass] at h
    | cons w s =>
      simp only [rowClass, List.map_cons, List.cons.injEq] at h
      simp only [List.foldl_cons, hashColumn_congr sum h.1]
      exact ih h.2 _

@[simp] theorem length_rowClass (r : ProductValue) : r.rowClass.length = r.length := by
  simp [rowClass]

theorem length_eq_of_rowClass_eq (h : r.rowClass = s.rowClass) : r.length = s.length := by
  simpa using congrArg List.length h

end ProductValue

end Shunter
