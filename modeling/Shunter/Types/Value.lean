import Shunter.Foundation.Compare
import Shunter.Types.JSON

/-!
# Column values

The tagged union of supported column types with its equality, order and hash.
A value is a kind together with a payload of that kind; a missing payload is
the null of the kind.  Go strings and byte slices are both lists of bytes.
Floating point payloads exclude NaN and JSON payloads are canonical, as their
constructors make them.
-/

namespace Shunter

open Foundation

inductive ValueKind where
  | bool | int8 | uint8 | int16 | uint16 | int32 | uint32 | int64 | uint64
  | float32 | float64 | string | bytes | int128 | uint128 | int256 | uint256
  | timestamp | arrayString | uuid | duration | json
  deriving DecidableEq, Repr

namespace ValueKind

def toNat : ValueKind → Nat
  | bool => 0 | int8 => 1 | uint8 => 2 | int16 => 3 | uint16 => 4 | int32 => 5
  | uint32 => 6 | int64 => 7 | uint64 => 8 | float32 => 9 | float64 => 10
  | string => 11 | bytes => 12 | int128 => 13 | uint128 => 14 | int256 => 15
  | uint256 => 16 | timestamp => 17 | arrayString => 18 | uuid => 19
  | duration => 20 | json => 21

theorem toNat_injective : Function.Injective toNat := by
  intro a b h
  cases a <;> cases b <;> first | rfl | simp [toNat] at h

theorem toNat_lt (k : ValueKind) : k.toNat < 22 := by
  cases k <;> simp [toNat]

end ValueKind

/-- IEEE 754 bits of width `w` that are not NaN; `inf` is the pattern of +Inf. -/
structure FloatBits (w inf : Nat) where
  bits : BitVec w
  notNaN : bits.toNat % 2 ^ (w - 1) ≤ inf
  deriving DecidableEq

namespace FloatBits

variable {w inf : Nat}

/-- The position on the number line: the magnitude with its sign, both zeros at 0. -/
def position (f : FloatBits w inf) : Int :=
  if f.bits.toNat < 2 ^ (w - 1) then f.bits.toNat
  else -((f.bits.toNat : Int) - (2 ^ (w - 1) : Nat))

/-- The bits that are hashed: those of +0 for either zero. -/
def hashBits (f : FloatBits w inf) : BitVec w :=
  if f.position = 0 then 0 else f.bits

theorem hashBits_congr {f g : FloatBits w inf} (h : f.position = g.position) :
    f.hashBits = g.hashBits := by
  unfold hashBits
  rw [← h]
  split
  · rfl
  · next hne =>
    -- away from zero the magnitude with its sign determines the bits
    apply BitVec.eq_of_toNat_eq
    simp only [position] at h hne
    generalize 2 ^ (w - 1) = sign at h hne
    split at h <;> split at h <;> simp_all <;> omega

end FloatBits

abbrev Float32Bits := FloatBits 32 0x7F800000

abbrev Float64Bits := FloatBits 64 0x7FF0000000000000

/-- Text that `canonicalizeJSON` produced: JSON values are built by `NewJSON` only. -/
@[ext] structure JSONText where
  text : Bytes
  canonical : canonicalizeJSON text = .ok text
  deriving DecidableEq

/-- The payload of a non-null value; wide integers are words, most significant first. -/
@[reducible] def Payload : ValueKind → Type
  | .bool => Bool
  | .int8 => BitVec 8
  | .uint8 => BitVec 8
  | .int16 => BitVec 16
  | .uint16 => BitVec 16
  | .int32 => BitVec 32
  | .uint32 => BitVec 32
  | .int64 => BitVec 64
  | .uint64 => BitVec 64
  | .float32 => Float32Bits
  | .float64 => Float64Bits
  | .string => Bytes
  | .bytes => Bytes
  | .int128 => BitVec 64 × BitVec 64
  | .uint128 => BitVec 64 × BitVec 64
  | .int256 => BitVec 64 × BitVec 64 × BitVec 64 × BitVec 64
  | .uint256 => BitVec 64 × BitVec 64 × BitVec 64 × BitVec 64
  | .timestamp => BitVec 64
  | .arrayString => List Bytes
  | .uuid => List.Vector UInt8 16
  | .duration => BitVec 64
  | .json => JSONText

instance Payload.decEq : (k : ValueKind) → DecidableEq (Payload k)
  | .bool | .int8 | .uint8 | .int16 | .uint16 | .int32 | .uint32 | .int64
  | .uint64 | .float32 | .float64 | .string | .bytes | .int128 | .uint128
  | .int256 | .uint256 | .timestamp | .arrayString | .uuid | .duration
  | .json => inferInstance

structure Value where
  kind : ValueKind
  payload : Option (Payload kind)
  deriving DecidableEq

namespace Value

def newNull (kind : ValueKind) : Value := ⟨kind, none⟩

def isNull (v : Value) : Bool := v.payload.isNone

end Value

/-! ## Equality and order -/

namespace Payload

/-- Payload equality as `EqualValues` decides it; the two zeros of a float are equal. -/
def equal : {k : ValueKind} → Payload k → Payload k → Bool
  | .float32, a, b => a.position == b.position
  | .float64, a, b => a.position == b.position
  | .bool, a, b | .int8, a, b | .uint8, a, b | .int16, a, b | .uint16, a, b
  | .int32, a, b | .uint32, a, b | .int64, a, b | .uint64, a, b
  | .string, a, b | .bytes, a, b | .int128, a, b | .uint128, a, b
  | .int256, a, b | .uint256, a, b | .timestamp, a, b | .arrayString, a, b
  | .uuid, a, b | .duration, a, b | .json, a, b => a == b

def compare : {k : ValueKind} → Payload k → Payload k → Ordering
  | .bool, a, b => if a == b then .eq else if !a then .lt else .gt
  | .int8, a, b => Ord.compare a.toInt b.toInt
  | .int16, a, b => Ord.compare a.toInt b.toInt
  | .int32, a, b => Ord.compare a.toInt b.toInt
  | .int64, a, b => Ord.compare a.toInt b.toInt
  | .uint8, a, b => Ord.compare a.toNat b.toNat
  | .uint16, a, b => Ord.compare a.toNat b.toNat
  | .uint32, a, b => Ord.compare a.toNat b.toNat
  | .uint64, a, b => Ord.compare a.toNat b.toNat
  | .float32, a, b => Ord.compare a.position b.position
  | .float64, a, b => Ord.compare a.position b.position
  | .string, a, b => Ord.compare a b
  | .bytes, a, b => Ord.compare a b
  | .json, a, b => Ord.compare a.text b.text
  | .int128, (hi, lo), (hi', lo') =>
    (Ord.compare hi.toInt hi'.toInt).then (Ord.compare lo.toNat lo'.toNat)
  | .uint128, (hi, lo), (hi', lo') =>
    (Ord.compare hi.toNat hi'.toNat).then (Ord.compare lo.toNat lo'.toNat)
  | .int256, (a₀, a₁, a₂, a₃), (b₀, b₁, b₂, b₃) =>
    (Ord.compare a₀.toInt b₀.toInt).then
      ((Ord.compare a₁.toNat b₁.toNat).then
        ((Ord.compare a₂.toNat b₂.toNat).then (Ord.compare a₃.toNat b₃.toNat)))
  | .uint256, (a₀, a₁, a₂, a₃), (b₀, b₁, b₂, b₃) =>
    (Ord.compare a₀.toNat b₀.toNat).then
      ((Ord.compare a₁.toNat b₁.toNat).then
        ((Ord.compare a₂.toNat b₂.toNat).then (Ord.compare a₃.toNat b₃.toNat)))
  | .timestamp, a, b => Ord.compare a.toInt b.toInt
  | .duration, a, b => Ord.compare a.toInt b.toInt
  | .arrayString, a, b => Ord.compare a b
  | .uuid, a, b => Ord.compare a.toList b.toList

/--
The rank of a payload: numbers listed so that the lexicographic order of ranks
is the order of payloads of one kind, and equal ranks mean equal payloads.
-/
def rank : {k : ValueKind} → Payload k → List (List Int)
  | .bool, b => [[if b then 1 else 0]]
  | .int8, x => [[x.toInt]]
  | .int16, x => [[x.toInt]]
  | .int32, x => [[x.toInt]]
  | .int64, x => [[x.toInt]]
  | .uint8, x => [[x.toNat]]
  | .uint16, x => [[x.toNat]]
  | .uint32, x => [[x.toNat]]
  | .uint64, x => [[x.toNat]]
  | .float32, x => [[x.position]]
  | .float64, x => [[x.position]]
  | .string, x => [byteRank x]
  | .bytes, x => [byteRank x]
  | .json, x => [byteRank x.text]
  | .int128, (hi, lo) => [[hi.toInt, lo.toNat]]
  | .uint128, (hi, lo) => [[hi.toNat, lo.toNat]]
  | .int256, (a₀, a₁, a₂, a₃) => [[a₀.toInt, a₁.toNat, a₂.toNat, a₃.toNat]]
  | .uint256, (a₀, a₁, a₂, a₃) => [[a₀.toNat, a₁.toNat, a₂.toNat, a₃.toNat]]
  | .timestamp, x => [[x.toInt]]
  | .duration, x => [[x.toInt]]
  | .arrayString, x => x.map byteRank
  | .uuid, x => [byteRank x.toList]
where
  byteRank (x : Bytes) : List Int := x.map fun b => (b.toNat : Int)

private theorem compare_byteRank (a b : Bytes) :
    Ord.compare (rank.byteRank a) (rank.byteRank b) = Ord.compare a b := by
  apply compare_map
  intro x y
  rw [compare_natCast]
  rcases Nat.lt_trichotomy x.toNat y.toNat with h | h | h
  · rw [compare_lt_iff_lt.mpr h, Std.compare_eq_lt.mpr (UInt8.lt_iff_toNat_lt.mpr h)]
  · rw [UInt8.toNat_inj.mp h]
    simp
  · rw [compare_gt_iff_gt.mpr h, Std.compare_eq_gt.mpr (UInt8.lt_iff_toNat_lt.mpr h)]

private theorem byteRank_injective : Function.Injective rank.byteRank := by
  apply List.map_injective_iff.mpr
  intro x y h
  exact UInt8.toNat_inj.mp (by simpa using h)

variable {k : ValueKind}

theorem compare_eq_rank (a b : Payload k) : compare a b = Ord.compare (rank a) (rank b) := by
  cases k <;> simp [compare, rank, compare_natCast, compare_byteRank]
  case bool => cases a <;> cases b <;> rfl
  case arrayString => exact (compare_map compare_byteRank a b).symm

theorem equal_iff_rank (a b : Payload k) : equal a b = true ↔ rank a = rank b := by
  cases k <;>
    simp [equal, rank, BitVec.toInt_inj, BitVec.toNat_inj,
      byteRank_injective.eq_iff, Prod.ext_iff]
  case bool => cases a <;> cases b <;> simp
  case arrayString => exact (List.map_injective_iff.mpr byteRank_injective).eq_iff.symm
  case uuid => exact List.Vector.toList_injective.eq_iff.symm
  case json => exact JSONText.ext_iff

theorem eq_of_rank_eq {a b : Payload k} (hf : k ≠ .float32) (hd : k ≠ .float64)
    (h : rank a = rank b) : a = b := by
  have heq := (equal_iff_rank a b).mpr h
  cases k <;> first | exact absurd rfl hf | exact absurd rfl hd | simpa [equal] using heq

end Payload

namespace Value

/-- `EqualValues`: same kind, both null or both equal. -/
def equal (left right : Value) : Bool :=
  if h : left.kind = right.kind then
    match left.payload, (h ▸ right.payload : Option (Payload left.kind)) with
    | none, none => true
    | some a, some b => a.equal b
    | _, _ => false
  else false

/--
`Value.Compare`: null comes before every other value of its kind.  The source
panics on values of different kinds; here they are ordered by kind, so that
the function is total.
-/
def compare (v other : Value) : Ordering :=
  if h : v.kind = other.kind then
    match v.payload, (h ▸ other.payload : Option (Payload v.kind)) with
    | none, none => .eq
    | none, some _ => .lt
    | some _, none => .gt
    | some a, some b => a.compare b
  else Ord.compare v.kind.toNat other.kind.toNat

/-- The kind, the null marker, then the rank of the payload. -/
def rank (v : Value) : List (List Int) :=
  match v.payload with
  | none => [[(v.kind.toNat : Int), 0]]
  | some p => [(v.kind.toNat : Int), 1] :: p.rank

variable {v w : Value}

theorem kind_eq_of_rank_eq (h : v.rank = w.rank) : v.kind = w.kind := by
  apply ValueKind.toNat_injective
  simp only [rank] at h
  split at h <;> split at h <;> simp_all

theorem eq_of_rank_eq (h : v.rank = w.rank) (hf : v.kind ≠ .float32) (hd : v.kind ≠ .float64) :
    v = w := by
  obtain ⟨k, p⟩ := v
  obtain ⟨k', q⟩ := w
  cases kind_eq_of_rank_eq h
  cases p <;> cases q <;> simp [rank] at h
  · rfl
  · rw [Payload.eq_of_rank_eq hf hd h]

theorem equal_iff_rank : v.equal w = true ↔ v.rank = w.rank := by
  obtain ⟨k, p⟩ := v
  obtain ⟨k', q⟩ := w
  by_cases hk : k = k'
  · subst hk
    cases p <;> cases q <;> simp [equal, rank, Payload.equal_iff_rank]
  · have hne : (⟨k, p⟩ : Value).rank ≠ (⟨k', q⟩ : Value).rank :=
      fun h => hk (kind_eq_of_rank_eq h)
    simp [equal, hk, hne]

theorem compare_eq_rank (v w : Value) :
    v.compare w = Ord.compare v.rank w.rank := by
  obtain ⟨k, p⟩ := v
  obtain ⟨k', q⟩ := w
  by_cases hk : k = k'
  · subst hk
    cases p <;> cases q <;> simp [compare, rank, Payload.compare_eq_rank] <;> rfl
  · have hord : Ord.compare k.toNat k'.toNat ≠ .eq := by
      intro h
      exact hk (ValueKind.toNat_injective (Std.compare_eq_iff_eq.mp h))
    cases p <;> cases q <;> simp [compare, rank, hk, compare_natCast] <;>
      cases h : Ord.compare k.toNat k'.toNat <;> simp_all

instance : Std.TransCmp compare := transCmp_of_rank compare_eq_rank

end Value

/-! ## Hashing -/

def fnv64aOffset : UInt64 := 14695981039346656037

def fnv64aPrime : UInt64 := 1099511628211

def fnv64aWriteByte (sum : UInt64) (b : UInt8) : UInt64 :=
  (sum ^^^ b.toUInt64) * fnv64aPrime

def fnv64aWriteBytes (sum : UInt64) (bs : Bytes) : UInt64 :=
  bs.foldl fnv64aWriteByte sum

def bigEndian (n v : Nat) : Bytes :=
  (List.range n).map fun i => UInt8.ofNat (v >>> (8 * (n - 1 - i)))

def fnv64aWriteUint32BE (sum : UInt64) (v : Nat) : UInt64 :=
  fnv64aWriteBytes sum (bigEndian 4 v)

def fnv64aWriteUint64BE (sum : UInt64) (v : Nat) : UInt64 :=
  fnv64aWriteBytes sum (bigEndian 8 v)

/--
`checkedPayloadLen`: a length as `uint32`.  The source panics on lengths that
do not fit; no run gets past that point, and the model wraps there.
-/
def checkedPayloadLen (n : Nat) : Nat := n % 2 ^ 32

namespace Payload

/-- Small integers are hashed as the 64-bit word that stores them. -/
def hashPayload64Into (sum : UInt64) : {k : ValueKind} → Payload k → UInt64
  | .bool, b => fnv64aWriteByte sum (if b then 1 else 0)
  | .int8, x => fnv64aWriteUint64BE sum (x.signExtend 64).toNat
  | .int16, x => fnv64aWriteUint64BE sum (x.signExtend 64).toNat
  | .int32, x => fnv64aWriteUint64BE sum (x.signExtend 64).toNat
  | .int64, x => fnv64aWriteUint64BE sum x.toNat
  | .uint8, x => fnv64aWriteUint64BE sum x.toNat
  | .uint16, x => fnv64aWriteUint64BE sum x.toNat
  | .uint32, x => fnv64aWriteUint64BE sum x.toNat
  | .uint64, x => fnv64aWriteUint64BE sum x.toNat
  | .float32, x => fnv64aWriteUint32BE sum x.hashBits.toNat
  | .float64, x => fnv64aWriteUint64BE sum x.hashBits.toNat
  | .string, x => fnv64aWriteBytes sum x
  | .bytes, x => fnv64aWriteBytes sum x
  | .json, x => fnv64aWriteBytes sum x.text
  | .int128, (hi, lo) => fnv64aWriteUint64BE (fnv64aWriteUint64BE sum hi.toNat) lo.toNat
  | .uint128, (hi, lo) => fnv64aWriteUint64BE (fnv64aWriteUint64BE sum hi.toNat) lo.toNat
  | .int256, (a, b, c, d) => [a, b, c, d].foldl (fun s w => fnv64aWriteUint64BE s w.toNat) sum
  | .uint256, (a, b, c, d) => [a, b, c, d].foldl (fun s w => fnv64aWriteUint64BE s w.toNat) sum
  | .timestamp, x => fnv64aWriteUint64BE sum x.toNat
  | .duration, x => fnv64aWriteUint64BE sum x.toNat
  | .arrayString, xs =>
    xs.foldl
      (fun s x => fnv64aWriteBytes (fnv64aWriteUint32BE s (checkedPayloadLen x.length)) x)
      (fnv64aWriteUint32BE sum (checkedPayloadLen xs.length))
  | .uuid, x => fnv64aWriteBytes sum x.toList

def payloadLen : {k : ValueKind} → Payload k → Nat
  | .bool, _ => 1
  | .float32, _ => 4
  | .string, x => checkedPayloadLen x.length
  | .bytes, x => checkedPayloadLen x.length
  | .json, x => checkedPayloadLen x.text.length
  | .int128, _ => 16
  | .uint128, _ => 16
  | .int256, _ => 32
  | .uint256, _ => 32
  | .arrayString, xs => (xs.foldl (fun n x => n + (4 + checkedPayloadLen x.length)) 4) % 2 ^ 32
  | .uuid, _ => 16
  | .int8, _ | .int16, _ | .int32, _ | .int64, _ | .uint8, _ | .uint16, _
  | .uint32, _ | .uint64, _ | .float64, _ | .timestamp, _ | .duration, _ => 8

theorem hashPayload64Into_congr {k : ValueKind} {a b : Payload k} (sum : UInt64)
    (h : rank a = rank b) : hashPayload64Into sum a = hashPayload64Into sum b := by
  by_cases hf : k = .float32
  · subst hf
    simp only [rank, List.cons.injEq, and_true] at h
    simp only [hashPayload64Into, FloatBits.hashBits_congr h]
  · by_cases hd : k = .float64
    · subst hd
      simp only [rank, List.cons.injEq, and_true] at h
      simp only [hashPayload64Into, FloatBits.hashBits_congr h]
    · rw [eq_of_rank_eq hf hd h]

theorem payloadLen_congr {k : ValueKind} {a b : Payload k} (h : rank a = rank b) :
    payloadLen a = payloadLen b := by
  by_cases hf : k = .float32
  · subst hf
    rfl
  · by_cases hd : k = .float64
    · subst hd
      rfl
    · rw [eq_of_rank_eq hf hd h]

end Payload

def Value.hash64 (v : Value) : UInt64 :=
  let sum := fnv64aWriteByte fnv64aOffset (UInt8.ofNat v.kind.toNat)
  match v.payload with
  | none => fnv64aWriteByte sum 0
  | some p => p.hashPayload64Into (fnv64aWriteByte sum 1)

theorem Value.hash64_congr {v w : Value} (h : v.rank = w.rank) : v.hash64 = w.hash64 := by
  obtain ⟨k, p⟩ := v
  obtain ⟨k', q⟩ := w
  cases Value.kind_eq_of_rank_eq h
  cases p <;> cases q <;> simp [Value.rank] at h
  · rfl
  · simp only [hash64, Payload.hashPayload64Into_congr _ h]

end Shunter
