import Shunter.Store.IndexKey
import Shunter.Subscription.CanonicalEncoder

/-!
# One equality of values

`EqualValues`, `Compare`, pruning keys and canonical encodings are written
independently of each other.  Each decides whether two values have the same
rank, so they decide the same relation, and the comparisons of rows that are
built from them agree as well.
-/

namespace Shunter.Subscription

open Foundation

/-- The encoders write each length into 32 bits and panic on a longer item. -/
def lengthsFit : {k : ValueKind} → Payload k → Bool
  | .string, s => s.length < 2 ^ 32
  | .bytes, s => s.length < 2 ^ 32
  | .json, b => b.text.length < 2 ^ 32
  | .arrayString, xs => xs.length < 2 ^ 32 && xs.all fun s => s.length < 2 ^ 32
  | _, _ => true

theorem isSome_writeLen (n : Nat) : (writeLen n).isSome = decide (n < 2 ^ 32) := by
  unfold writeLen
  split <;> simp_all

theorem isSome_writeString (s : Bytes) :
    (writeString s).isSome = decide (s.length < 2 ^ 32) := by
  rw [writeString, isSome_followedBy, isSome_writeLen, Option.isSome_some, Bool.and_true]

theorem isSome_encodeValue (v : Value) :
    (encodeValue v).isSome = v.payload.all lengthsFit := by
  obtain ⟨k, p⟩ := v
  cases p with
  | none => rfl
  | some p =>
    rw [encodeValue, Option.isSome_map, Option.all_some]
    cases k with
    | string | bytes | json => exact isSome_writeString _
    | arrayString =>
      simp only [encodePayload, writeStrings, isSome_followedBy, isSome_writeLen,
        isSome_encodeAll, isSome_writeString, lengthsFit]
    | _ => rfl

theorem isSome_encodeValueKey {v : Value} (h : v.payload.all lengthsFit = true) :
    (encodeValueKey v).isSome := by
  rw [← isSome_encodeValue] at h
  obtain ⟨k, p⟩ := v
  cases p with
  | none => rfl
  | some p =>
    cases k with
    | arrayString =>
      rw [encodeValue, Option.isSome_map] at h
      exact Option.isSome_map.trans h
    | _ => rfl

theorem encodeValue_eq_iff {v w : Value} {ev ew : Bytes} (hv : encodeValue v = some ev)
    (hw : encodeValue w = some ew) : ev = ew ↔ v.rank = w.rank := by
  constructor
  · rintro rfl
    exact encodeValue_prefixFree.cls_eq hv hw
  · intro h
    rw [encodeValue_congr h] at hv
    exact Option.mem_unique hv hw

theorem encodeValueKey_eq_iff {v w : Value} {kv kw : ValueKey} (hv : encodeValueKey v = some kv)
    (hw : encodeValueKey w = some kw) : kv = kw ↔ v.rank = w.rank := by
  constructor
  · rintro rfl
    exact rank_of_encodeValueKey hv hw
  · intro h
    rw [encodeValueKey_congr h] at hv
    exact Option.mem_unique hv hw

theorem isSome_encodeRowKey (row : ProductValue) :
    (encodeRowKey row).isSome =
      (decide (row.length < 2 ^ 32) && row.all fun v => v.payload.all lengthsFit) := by
  simp only [encodeRowKey, isSome_followedBy, isSome_writeLen, isSome_encodeAll,
    isSome_encodeValue]

theorem extractKey_range (row : ProductValue) : extractKey row (List.range row.length) = row := by
  apply List.ext_getElem
  · simp [extractKey]
  · intro i hi hrow
    simp [extractKey, List.getElem?_eq_getElem hrow]

/-- What the five implementations say about two values. -/
structure EqualitiesAgree (v w : Value) : Prop where
  compare : v.equal w = true ↔ v.compare w = .eq
  pruningKey : ∀ kv kw, encodeValueKey v = some kv → encodeValueKey w = some kw →
    (v.equal w = true ↔ kv = kw)
  encoding : ∀ ev ew, encodeValue v = some ev → encodeValue w = some ew →
    (v.equal w = true ↔ ev = ew)
  -- equal values also panic alike
  outcome : v.equal w = true → encodeValueKey v = encodeValueKey w ∧ encodeValue v = encodeValue w
  hash : v.equal w = true → v.hash64 = w.hash64

/-- The comparisons of two rows: column by column, by row key, by the index over all columns. -/
structure RowEqualitiesAgree (r s : ProductValue) : Prop where
  rowKey : ∀ kr ks, encodeRowKey r = some kr → encodeRowKey s = some ks →
    (r.equal s = true ↔ kr = ks)
  indexKey : r.equal s = true ↔ IndexKey.equal (extractKey r (List.range r.length))
    (extractKey s (List.range s.length)) = true
  outcome : r.equal s = true → encodeRowKey r = encodeRowKey s
  hash : r.equal s = true → r.hash64 = s.hash64

theorem equalitiesAgree (v w : Value) : EqualitiesAgree v w where
  compare := by rw [Value.equal_iff_rank, compare_eq_iff_rank Value.compare_eq_rank]
  pruningKey kv kw hv hw := by rw [Value.equal_iff_rank, encodeValueKey_eq_iff hv hw]
  encoding ev ew hv hw := by rw [Value.equal_iff_rank, encodeValue_eq_iff hv hw]
  outcome h := by
    rw [Value.equal_iff_rank] at h
    exact ⟨encodeValueKey_congr h, encodeValue_congr h⟩
  hash h := Value.hash64_congr (Value.equal_iff_rank.mp h)

theorem rowEqualitiesAgree (r s : ProductValue) : RowEqualitiesAgree r s where
  rowKey kr ks hr hs := by rw [ProductValue.equal_iff, encodeRowKey_eq_iff hr hs]
  indexKey := by rw [extractKey_range, extractKey_range, ProductValue.equal_iff, IndexKey.equal_iff]
  outcome h := encodeRowKey_congr (ProductValue.equal_iff.mp h)
  hash h := ProductValue.hash64_congr (ProductValue.equal_iff.mp h)

/-- `Compare` is a total order on the values of one kind, up to `EqualValues`. -/
structure ComparesTotally (k : ValueKind) : Prop where
  total : ∀ v w : Value, v.kind = k → w.kind = k → (v.compare w).isLE ∨ (w.compare v).isLE
  trans : ∀ u v w : Value, u.kind = k → v.kind = k → w.kind = k →
    (u.compare v).isLE → (v.compare w).isLE → (u.compare w).isLE
  antisymm : ∀ v w : Value, v.kind = k → w.kind = k →
    (v.compare w).isLE → (w.compare v).isLE → v.equal w = true

theorem comparesTotally (k : ValueKind) : ComparesTotally k where
  total v w _ _ := by
    have hswap : w.compare v = (v.compare w).swap := Std.OrientedCmp.eq_swap
    cases h : v.compare w <;> simp [hswap, h]
  trans u v w _ _ _ huv hvw := Std.TransCmp.isLE_trans huv hvw
  antisymm v w _ _ hvw hwv := by
    have hswap : w.compare v = (v.compare w).swap := Std.OrientedCmp.eq_swap
    apply (equalitiesAgree v w).compare.mpr
    cases h : v.compare w <;> simp [hswap, h] at hvw hwv ⊢

/--
Every value whose lengths the encoders can write has a pruning key and an
encoding, and on the values of a kind all equalities are the same relation.
-/
theorem value_equalities_coincide (k : ValueKind) :
    (∀ v w : Value, v.kind = k → w.kind = k → EqualitiesAgree v w) ∧ ComparesTotally k ∧
    (∀ kinds : List ValueKind, ∀ r s : ProductValue, r.map Value.kind = kinds →
      s.map Value.kind = kinds → RowEqualitiesAgree r s) ∧
    (∀ v : Value, v.payload.all lengthsFit = true →
      (encodeValueKey v).isSome ∧ (encodeValue v).isSome) ∧
    ∀ row : ProductValue, row.length < 2 ^ 32 → (∀ v ∈ row, v.payload.all lengthsFit = true) →
      (encodeRowKey row).isSome := by
  refine ⟨fun v w _ _ => equalitiesAgree v w, comparesTotally k,
    fun _ r s _ _ => rowEqualitiesAgree r s, fun v h => ?_, fun row hlen h => ?_⟩
  · exact ⟨isSome_encodeValueKey h, (isSome_encodeValue v).trans h⟩
  · rw [isSome_encodeRowKey, Bool.and_eq_true, decide_eq_true_eq, List.all_eq_true]
    exact ⟨hlen, h⟩

def plusZero : Value := ⟨.float64, some ⟨0, Nat.zero_le _⟩⟩

def minusZero : Value := ⟨.float64, some ⟨1 <<< 63, by decide⟩⟩

theorem value_equalities_coincide_zeros :
    plusZero ≠ minusZero ∧ plusZero.compare minusZero = .eq ∧
      encodeValueKey plusZero = encodeValueKey minusZero ∧ plusZero.hash64 = minusZero.hash64 ∧
      (encodeValue plusZero).isSome ∧
      encodeRowKey [plusZero] = encodeRowKey [minusZero] ∧ (encodeRowKey [plusZero]).isSome := by
  obtain ⟨hvalues, horder, hrows, hencoded, hrowKey⟩ := value_equalities_coincide .float64
  have hagree := hvalues plusZero minusZero rfl rfl
  have hequal : plusZero.equal minusZero = true :=
    horder.antisymm _ _ rfl rfl (by decide) (by decide)
  exact ⟨by decide, hagree.compare.mp hequal, (hagree.outcome hequal).1, hagree.hash hequal,
    (hencoded plusZero rfl).2, (hrows [.float64] [plusZero] [minusZero] rfl rfl).outcome (by decide),
    hrowKey [plusZero] (by decide) (by simp [plusZero, lengthsFit])⟩

end Shunter.Subscription
