import Shunter.Foundation.PrefixFree
import Shunter.Types.ProductValue

/-!
# Canonical encodings of values

Keys under which values and rows are counted and looked up.  Numbers are
big-endian.  A length that does not fit into 32 bits makes the encoder panic,
which is `none` here.  Values have the same key exactly when they are equal.
-/

namespace Shunter.Subscription

open Foundation

def writeU32 (v : Nat) : Bytes := bigEndian 4 v

def writeU64 (v : BitVec 64) : Bytes := bigEndian 8 v.toNat

def writeLen (n : Nat) : Option Bytes := if n < 2 ^ 32 then some (writeU32 n) else none

def writeString (s : Bytes) : Option Bytes := followedBy (writeLen s.length) (some s)

def writeStrings (xs : List Bytes) : Option Bytes :=
  followedBy (writeLen xs.length) (encodeAll writeString xs)

abbrev canonicalFloatBits {w inf : Nat} (f : FloatBits w inf) : BitVec w := f.hashBits

/-- What `encodeValue` writes for a value that is not null. -/
def encodePayload : {k : ValueKind} → Payload k → Option Bytes
  | .bool, b => some [if b then 1 else 0]
  | .int8, x => some (writeU64 (x.signExtend 64))
  | .int16, x => some (writeU64 (x.signExtend 64))
  | .int32, x => some (writeU64 (x.signExtend 64))
  | .int64, x => some (writeU64 x)
  | .uint8, x => some (writeU64 (x.setWidth 64))
  | .uint16, x => some (writeU64 (x.setWidth 64))
  | .uint32, x => some (writeU64 (x.setWidth 64))
  | .uint64, x => some (writeU64 x)
  | .float32, x => some (writeU32 (canonicalFloatBits x).toNat)
  | .float64, x => some (writeU64 (canonicalFloatBits x))
  | .string, s => writeString s
  | .bytes, s => writeString s
  | .int128, (hi, lo) => some (writeU64 hi ++ writeU64 lo)
  | .uint128, (hi, lo) => some (writeU64 hi ++ writeU64 lo)
  | .int256, (w₀, w₁, w₂, w₃) => some (writeU64 w₀ ++ writeU64 w₁ ++ writeU64 w₂ ++ writeU64 w₃)
  | .uint256, (w₀, w₁, w₂, w₃) => some (writeU64 w₀ ++ writeU64 w₁ ++ writeU64 w₂ ++ writeU64 w₃)
  | .timestamp, x => some (writeU64 x)
  | .duration, x => some (writeU64 x)
  | .arrayString, xs => writeStrings xs
  | .uuid, u => some u.toList
  | .json, b => writeString b.text

def encodeValue (v : Value) : Option Bytes :=
  match v.payload with
  | none => some [.ofNat v.kind.toNat, 0]
  | some p => (encodePayload p).map ([.ofNat v.kind.toNat, 1] ++ ·)

def encodeRowKey (row : ProductValue) : Option Bytes :=
  followedBy (writeLen row.length) (encodeAll encodeValue row)

/-- The comparable key of a value; a field that the kind does not use is zero. -/
structure ValueKey where
  kind : ValueKind
  null : Bool := false
  i64 : BitVec 64 := 0
  u64 : BitVec 64 := 0
  str : Bytes := []
  bytes : Bytes := []
  hi : BitVec 64 := 0
  lo : BitVec 64 := 0
  w256 : BitVec 64 × BitVec 64 × BitVec 64 × BitVec 64 := (0, 0, 0, 0)
  uuid : List.Vector UInt8 16 := .replicate 16 0
  deriving DecidableEq

def payloadKey : {k : ValueKind} → Payload k → Option ValueKey
  | .bool, b => some { kind := .bool, u64 := if b then 1 else 0 }
  | .int8, x => some { kind := .int8, i64 := x.signExtend 64 }
  | .int16, x => some { kind := .int16, i64 := x.signExtend 64 }
  | .int32, x => some { kind := .int32, i64 := x.signExtend 64 }
  | .int64, x => some { kind := .int64, i64 := x }
  | .uint8, x => some { kind := .uint8, u64 := x.setWidth 64 }
  | .uint16, x => some { kind := .uint16, u64 := x.setWidth 64 }
  | .uint32, x => some { kind := .uint32, u64 := x.setWidth 64 }
  | .uint64, x => some { kind := .uint64, u64 := x }
  | .float32, x => some { kind := .float32, u64 := (canonicalFloatBits x).setWidth 64 }
  | .float64, x => some { kind := .float64, u64 := canonicalFloatBits x }
  | .string, s => some { kind := .string, str := s }
  | .bytes, s => some { kind := .bytes, bytes := s }
  | .int128, (hi, lo) => some { kind := .int128, hi := hi, lo := lo }
  | .uint128, (hi, lo) => some { kind := .uint128, hi := hi, lo := lo }
  | .int256, w => some { kind := .int256, w256 := w }
  | .uint256, w => some { kind := .uint256, w256 := w }
  | .timestamp, x => some { kind := .timestamp, i64 := x }
  | .duration, x => some { kind := .duration, i64 := x }
  | .arrayString, xs => (writeStrings xs).map fun str => { kind := .arrayString, str := str }
  | .uuid, u => some { kind := .uuid, uuid := u }
  | .json, b => some { kind := .json, bytes := b.text }

def encodeValueKey (v : Value) : Option ValueKey :=
  match v.payload with
  | none => some { kind := v.kind, null := true }
  | some p => payloadKey p

/-! ## Texts that end by themselves -/

@[simp] theorem length_bigEndian (n v : Nat) : (bigEndian n v).length = n := by
  simp [bigEndian]

theorem bigEndian_succ (n v : Nat) :
    bigEndian (n + 1) v = bigEndian n (v / 256) ++ [UInt8.ofNat v] := by
  rw [bigEndian, bigEndian, List.range_succ, List.map_append]
  congr 1
  · apply List.map_congr_left
    intro i hi
    rw [List.mem_range] at hi
    have hshift : 8 * (n + 1 - 1 - i) = 8 + 8 * (n - 1 - i) := by omega
    rw [hshift, Nat.shiftRight_add, Nat.shiftRight_eq_div_pow v 8]
  · simp

variable {w : Nat} {key : ValueKey}

theorem bigEndian_inj {n v : Nat} (hv : v < 256 ^ n) (hw : w < 256 ^ n)
    (h : bigEndian n v = bigEndian n w) : v = w := by
  induction n generalizing v w with
  | zero =>
    rw [pow_zero] at hv hw
    omega
  | succ n ih =>
    rw [bigEndian_succ, bigEndian_succ] at h
    obtain ⟨hhigh, hlow⟩ := List.append_inj' h rfl
    have hdiv := ih (v := v / 256) (w := w / 256) (by rw [pow_succ] at hv; omega)
      (by rw [pow_succ] at hw; omega) hhigh
    have hbyte := congrArg UInt8.toNat (List.singleton_inj.mp hlow)
    simp only [UInt8.toNat_ofNat'] at hbyte
    omega

theorem writeLen_prefixFree : PrefixFree writeLen id := by
  intro m n x y s t hx hy h
  unfold writeLen at hx hy
  split at hx
  · next hm =>
    split at hy
    · next hn =>
      cases hx
      cases hy
      have hlen : ∀ v, (writeU32 v).length = 4 := length_bigEndian 4
      obtain ⟨htext, hrest⟩ := List.append_inj h (by rw [hlen, hlen])
      exact ⟨bigEndian_inj (n := 4) hm hn htext, hrest⟩
    · cases hy
  · cases hx

theorem writeString_prefixFree : PrefixFree writeString id := writeLen_prefixFree.measured

theorem writeStrings_prefixFree : PrefixFree writeStrings (List.map id) :=
  writeLen_prefixFree.counted writeString_prefixFree

@[simp] theorem length_writeU64 (v : BitVec 64) : (writeU64 v).length = 8 := length_bigEndian 8 _

theorem writeU64_injective : Function.Injective writeU64 := by
  intro v w h
  apply BitVec.eq_of_toNat_eq
  exact bigEndian_inj (n := 8) v.isLt w.isLt h

theorem writeU32_toNat_injective : Function.Injective fun v : BitVec 32 => writeU32 v.toNat := by
  intro v w h
  apply BitVec.eq_of_toNat_eq
  exact bigEndian_inj (n := 4) v.isLt w.isLt h

theorem signExtend_injective (hw : w ≤ 64) :
    Function.Injective fun x : BitVec w => x.signExtend 64 := by
  intro x y h
  apply BitVec.eq_of_toInt_eq
  have hint := congrArg BitVec.toInt h
  simpa [BitVec.toInt_signExtend_of_le hw] using hint

theorem setWidth_injective (hw : w ≤ 64) :
    Function.Injective fun x : BitVec w => x.setWidth 64 := by
  intro x y h
  apply BitVec.eq_of_toNat_eq
  have hnat := congrArg BitVec.toNat h
  have hpow : 2 ^ w ≤ 2 ^ 64 := Nat.pow_le_pow_right (by decide) hw
  simp only [BitVec.toNat_setWidth] at hnat
  rwa [Nat.mod_eq_of_lt (x.isLt.trans_le hpow), Nat.mod_eq_of_lt (y.isLt.trans_le hpow)] at hnat

theorem hashBits_eq_iff {inf : Nat} {f g : FloatBits w inf} :
    f.hashBits = g.hashBits ↔ f.position = g.position := by
  refine ⟨fun h => ?_, FloatBits.hashBits_congr⟩
  have hzero : ∀ f : FloatBits w inf, f.bits = 0 → f.position = 0 := by
    intro f hf
    simp [FloatBits.position, hf]
  unfold FloatBits.hashBits at h
  split at h <;> split at h
  · next hf hg => rw [hf, hg]
  · next hf hg => exact absurd (hzero g h.symm) hg
  · next hf hg => exact absurd (hzero f h) hf
  · rw [FloatBits.position, FloatBits.position, h]

theorem encodePayload_prefixFree (k : ValueKind) :
    PrefixFree (fun p : Payload k => encodePayload p) fun p => p.rank := by
  -- Texts of one length determine the payload.
  have hfixed : ∀ {k : ValueKind} {text : Payload k → Bytes} (n : Nat),
      (∀ p, (text p).length = n) → Function.Injective text →
      PrefixFree (fun p => some (text p)) fun p : Payload k => p.rank :=
    fun n hlen hinj => prefixFree_of_length hlen fun a b h => by rw [hinj h]
  have hsigned : ∀ {w : Nat}, w ≤ 64 →
      Function.Injective fun x : BitVec w => writeU64 (x.signExtend 64) :=
    fun hw => writeU64_injective.comp (signExtend_injective hw)
  have hunsigned : ∀ {w : Nat}, w ≤ 64 →
      Function.Injective fun x : BitVec w => writeU64 (x.setWidth 64) :=
    fun hw => writeU64_injective.comp (setWidth_injective hw)
  have htext : ∀ {k : ValueKind} {text : Payload k → Bytes}, Function.Injective text →
      PrefixFree (fun p => writeString (text p)) fun p : Payload k => p.rank := by
    intro k text hinj a b x y s t hx hy h
    obtain ⟨htext, hrest⟩ := writeString_prefixFree hx hy h
    exact ⟨by rw [hinj htext], hrest⟩
  cases k with
  | bool => exact hfixed 1 (fun _ => rfl) (by decide)
  | int8 => exact hfixed 8 (fun _ => length_writeU64 _) (hsigned (by decide))
  | int16 => exact hfixed 8 (fun _ => length_writeU64 _) (hsigned (by decide))
  | int32 => exact hfixed 8 (fun _ => length_writeU64 _) (hsigned (by decide))
  | uint8 => exact hfixed 8 (fun _ => length_writeU64 _) (hunsigned (by decide))
  | uint16 => exact hfixed 8 (fun _ => length_writeU64 _) (hunsigned (by decide))
  | uint32 => exact hfixed 8 (fun _ => length_writeU64 _) (hunsigned (by decide))
  | int64 | uint64 | timestamp | duration =>
    exact hfixed 8 (fun _ => length_writeU64 _) writeU64_injective
  | float32 =>
    refine prefixFree_of_length (n := 4) (fun _ => length_bigEndian 4 _) fun a b h => ?_
    have hbits := writeU32_toNat_injective h
    rw [Payload.rank, hashBits_eq_iff.mp hbits, Payload.rank]
  | float64 =>
    refine prefixFree_of_length (n := 8) (fun _ => length_writeU64 _) fun a b h => ?_
    have hbits := writeU64_injective h
    rw [Payload.rank, hashBits_eq_iff.mp hbits, Payload.rank]
  | string | bytes => exact htext Function.injective_id
  | json => exact htext fun _ _ h => JSONText.ext h
  | int128 | uint128 =>
    refine hfixed 16 (fun p => by simp) fun p q h => ?_
    obtain ⟨hhi, hlo⟩ := List.append_inj h (by simp)
    exact Prod.ext (writeU64_injective hhi) (writeU64_injective hlo)
  | int256 | uint256 =>
    refine hfixed 32 (fun p => by simp) fun p q h => ?_
    obtain ⟨h, h₃⟩ := List.append_inj h (by simp)
    obtain ⟨h, h₂⟩ := List.append_inj h (by simp)
    obtain ⟨h₀, h₁⟩ := List.append_inj h (by simp)
    exact Prod.ext (writeU64_injective h₀) (Prod.ext (writeU64_injective h₁)
      (Prod.ext (writeU64_injective h₂) (writeU64_injective h₃)))
  | uuid => exact hfixed 16 (fun p => p.toList_length) List.Vector.toList_injective
  | arrayString =>
    intro a b x y s t hx hy h
    obtain ⟨hmap, hrest⟩ := writeStrings_prefixFree hx hy h
    rw [List.map_id, List.map_id] at hmap
    exact ⟨by rw [hmap], hrest⟩

theorem kind_byte_injective : Function.Injective fun k : ValueKind => UInt8.ofNat k.toNat := by
  intro k k' h
  have hnat := congrArg UInt8.toNat h
  have hk := k.toNat_lt
  have hk' := k'.toNat_lt
  simp only [UInt8.toNat_ofNat'] at hnat
  exact ValueKind.toNat_injective (by omega)

theorem encodeValue_prefixFree : PrefixFree encodeValue Value.rank := by
  rintro ⟨k, p⟩ ⟨k', q⟩ x y s t hx hy h
  cases p with
  | none =>
    cases q with
    | none =>
      simp only [encodeValue, Option.some.injEq] at hx hy
      subst hx hy
      simp only [List.cons_append, List.nil_append, List.cons.injEq] at h
      exact ⟨by rw [Value.rank, kind_byte_injective h.1, Value.rank], h.2.2⟩
    | some q =>
      obtain ⟨y', -, rfl⟩ := Option.map_eq_some_iff.mp hy
      simp only [encodeValue, Option.some.injEq] at hx
      subst hx
      simp at h
  | some p =>
    obtain ⟨x', hx', rfl⟩ := Option.map_eq_some_iff.mp hx
    cases q with
    | none =>
      simp only [encodeValue, Option.some.injEq] at hy
      subst hy
      simp at h
    | some q =>
      obtain ⟨y', hy', rfl⟩ := Option.map_eq_some_iff.mp hy
      simp only [List.cons_append, List.nil_append, List.cons.injEq, true_and] at h
      cases kind_byte_injective h.1
      obtain ⟨hrank, hrest⟩ := encodePayload_prefixFree k hx' hy' h.2
      dsimp only at hrank
      exact ⟨by simp only [Value.rank, hrank], hrest⟩

theorem encodeRowKey_prefixFree : PrefixFree encodeRowKey ProductValue.rowClass :=
  writeLen_prefixFree.counted encodeValue_prefixFree

/-! ## Equal values have one key -/

theorem factorsThrough_rank {γ : Type} {f : Value → γ}
    (h32 : ∀ x y : Float32Bits, x.position = y.position →
      f ⟨.float32, some x⟩ = f ⟨.float32, some y⟩)
    (h64 : ∀ x y : Float64Bits, x.position = y.position →
      f ⟨.float64, some x⟩ = f ⟨.float64, some y⟩) : f.FactorsThrough Value.rank := by
  intro v w h
  obtain ⟨k, p⟩ := v
  obtain ⟨k', q⟩ := w
  cases Value.kind_eq_of_rank_eq h
  by_cases hf : k = .float32 ∨ k = .float64
  · rcases hf with rfl | rfl <;> cases p <;> cases q <;>
      simp [Value.rank, Payload.rank] at h
    · rfl
    · exact h32 _ _ h
    · rfl
    · exact h64 _ _ h
  · rw [not_or] at hf
    rw [Value.eq_of_rank_eq h hf.1 hf.2]

theorem encodeValue_congr : encodeValue.FactorsThrough Value.rank := by
  apply factorsThrough_rank
  · intro x y h
    simp only [encodeValue, encodePayload, canonicalFloatBits, hashBits_eq_iff.mpr h]
  · intro x y h
    simp only [encodeValue, encodePayload, canonicalFloatBits, hashBits_eq_iff.mpr h]

theorem encodeRowKey_congr : encodeRowKey.FactorsThrough ProductValue.rowClass := by
  intro r s h
  have hall : encodeAll encodeValue r = encodeAll encodeValue s := by
    induction r generalizing s with
    | nil => cases s <;> simp [ProductValue.rowClass] at h ⊢
    | cons v r ih =>
      cases s with
      | nil => simp [ProductValue.rowClass] at h
      | cons w s =>
        simp only [ProductValue.rowClass, List.map_cons, List.cons.injEq] at h
        rw [encodeAll, encodeAll, encodeValue_congr h.1, ih h.2]
  rw [encodeRowKey, encodeRowKey, hall, ProductValue.length_eq_of_rowClass_eq h]

theorem encodeRowKey_eq_iff {r s : ProductValue} {key key' : Bytes}
    (hr : encodeRowKey r = some key) (hs : encodeRowKey s = some key') :
    key = key' ↔ r.rowClass = s.rowClass := by
  constructor
  · rintro rfl
    exact encodeRowKey_prefixFree.cls_eq hr hs
  · intro h
    rw [encodeRowKey_congr h, hs, Option.some.injEq] at hr
    exact hr.symm

theorem encodeValueKey_congr : encodeValueKey.FactorsThrough Value.rank := by
  apply factorsThrough_rank
  · intro x y h
    simp only [encodeValueKey, payloadKey, canonicalFloatBits, hashBits_eq_iff.mpr h]
  · intro x y h
    simp only [encodeValueKey, payloadKey, canonicalFloatBits, hashBits_eq_iff.mpr h]

theorem rank_of_payloadKey {k : ValueKind} {p q : Payload k} (hp : payloadKey p = some key)
    (hq : payloadKey q = some key) : p.rank = q.rank := by
  -- Each kind uses one or two fields, which determine the payload.
  have hfield : ∀ {γ : Type} (f : ValueKey → γ),
      (payloadKey p).map f = (payloadKey q).map f := fun f => by rw [hp, hq]
  cases k with
  | arrayString =>
    obtain ⟨x, hx, rfl⟩ := Option.map_eq_some_iff.mp hp
    obtain ⟨y, hy, hkey⟩ := Option.map_eq_some_iff.mp hq
    cases congrArg ValueKey.str hkey
    have hmap := writeStrings_prefixFree.cls_eq hx hy
    rw [List.map_id, List.map_id] at hmap
    rw [hmap]
  | bool =>
    have h := Option.some.inj (hfield ValueKey.u64)
    cases p <;> cases q <;> first | rfl | cases h
  | int8 | int16 | int32 =>
    have h : p.signExtend 64 = q.signExtend 64 := Option.some.inj (hfield ValueKey.i64)
    rw [signExtend_injective (by decide) h]
  | uint8 | uint16 | uint32 =>
    have h : p.setWidth 64 = q.setWidth 64 := Option.some.inj (hfield ValueKey.u64)
    rw [setWidth_injective (by decide) h]
  | int64 | timestamp | duration =>
    have h : p = q := Option.some.inj (hfield ValueKey.i64)
    rw [h]
  | uint64 =>
    have h : p = q := Option.some.inj (hfield ValueKey.u64)
    rw [h]
  | float32 =>
    have h : p.hashBits.setWidth 64 = q.hashBits.setWidth 64 :=
      Option.some.inj (hfield ValueKey.u64)
    rw [Payload.rank, hashBits_eq_iff.mp (setWidth_injective (by decide) h), Payload.rank]
  | float64 =>
    have h := Option.some.inj (hfield ValueKey.u64)
    rw [Payload.rank, hashBits_eq_iff.mp h, Payload.rank]
  | string =>
    have h : p = q := Option.some.inj (hfield ValueKey.str)
    rw [h]
  | bytes =>
    have h : p = q := Option.some.inj (hfield ValueKey.bytes)
    rw [h]
  | json =>
    have h : p = q := JSONText.ext (Option.some.inj (hfield ValueKey.bytes))
    rw [h]
  | int128 | uint128 =>
    have h : p = q :=
      Prod.ext (Option.some.inj (hfield ValueKey.hi)) (Option.some.inj (hfield ValueKey.lo))
    rw [h]
  | int256 | uint256 =>
    have h : p = q := Option.some.inj (hfield ValueKey.w256)
    rw [h]
  | uuid =>
    have h : p = q := Option.some.inj (hfield ValueKey.uuid)
    rw [h]

theorem kind_of_payloadKey {k : ValueKind} {p : Payload k} (h : payloadKey p = some key) :
    key.kind = k ∧ key.null = false := by
  cases k with
  | arrayString =>
    obtain ⟨x, -, rfl⟩ := Option.map_eq_some_iff.mp h
    exact ⟨rfl, rfl⟩
  | _ =>
    cases h
    exact ⟨rfl, rfl⟩

theorem rank_of_encodeValueKey {v w : Value} (hv : encodeValueKey v = some key)
    (hw : encodeValueKey w = some key) : v.rank = w.rank := by
  obtain ⟨k, p⟩ := v
  obtain ⟨k', q⟩ := w
  cases p with
  | none =>
    cases hv
    cases q with
    | none =>
      cases congrArg ValueKey.kind (Option.some.inj hw)
      rfl
    | some q => cases (kind_of_payloadKey hw).2
  | some p =>
    obtain ⟨rfl, hnull⟩ := kind_of_payloadKey hv
    cases q with
    | none =>
      cases hw
      cases hnull
    | some q =>
      cases (kind_of_payloadKey hw).1
      simp only [Value.rank, rank_of_payloadKey hv hw]

end Shunter.Subscription
