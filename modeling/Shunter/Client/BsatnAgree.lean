import Shunter.Client.BsatnCodec

/-!
# The client reads and writes the rows of the server

A value of the server stands for a JavaScript value.  The encoder of the client
writes that value as the server does.  Its decoder returns it too, apart from
texts that start with a byte order mark.
-/

namespace Shunter.Client

open Foundation Reader Bsatn

variable {ω : Type}

/-! ## What a value stands for -/

def canonicalUUID (u : Bytes) : List Char :=
  bytesKey (u.take 4) ++ '-' :: bytesKey ((u.drop 4).take 2) ++ '-' ::
    bytesKey ((u.drop 6).take 2) ++ '-' :: bytesKey ((u.drop 8).take 2) ++ '-' ::
    bytesKey (u.drop 10)

/-- The JavaScript value of a payload, for a given reading of texts.  JSON has none here. -/
def jsPayload (ofText : Bytes → JSString) : {k : ValueKind} → Payload k → JSValue ω
  | .bool, b => .boolean b
  | .int8, x => .number (.ofInt x.toInt)
  | .uint8, x => .number (.ofInt x.toNat)
  | .int16, x => .number (.ofInt x.toInt)
  | .uint16, x => .number (.ofInt x.toNat)
  | .int32, x => .number (.ofInt x.toInt)
  | .uint32, x => .number (.ofInt x.toNat)
  | .int64, x => .bigint x.toInt
  | .uint64, x => .bigint x.toNat
  | .float32, x => .number (JSNumber.float32.read x.bits.toNat)
  | .float64, x => .number (JSNumber.float64.read x.bits.toNat)
  | .string, s => .string (ofText s)
  | .bytes, b => .bytes b
  | .int128, (hi, lo) => .bigint (hi.toInt * 2 ^ 64 + lo.toNat)
  | .uint128, (hi, lo) => .bigint (hi.toNat * 2 ^ 64 + lo.toNat)
  | .int256, (w₀, w₁, w₂, w₃) =>
    .bigint (w₀.toInt * 2 ^ 192 + w₁.toNat * 2 ^ 128 + w₂.toNat * 2 ^ 64 + w₃.toNat)
  | .uint256, (w₀, w₁, w₂, w₃) =>
    .bigint (w₀.toNat * 2 ^ 192 + w₁.toNat * 2 ^ 128 + w₂.toNat * 2 ^ 64 + w₃.toNat)
  | .timestamp, x => .bigint x.toInt
  | .duration, x => .bigint x.toInt
  | .arrayString, xs => .strings (xs.map ofText)
  | .uuid, u => .string (ofChars (canonicalUUID u.toList))
  | .json, _ => .undefined

def jsValue (ofText : Bytes → JSString) (v : Value) : JSValue ω :=
  match v.payload with
  | none => .null
  | some p => jsPayload ofText p

/-- The JavaScript value that denotes a value of the server. -/
def denote (v : Value) : JSValue ω := jsValue textPoints v

def receivedText (s : Bytes) : JSString :=
  if startsWithMark s then textPoints (s.drop 3) else textPoints s

def bsatnColumn (col : ColumnSchema) : BsatnColumn := ⟨col.name, col.type, col.nullable⟩

theorem bsatnTags_eq (k : ValueKind) : bsatnTags k = tag k := by
  cases k <;> rfl

/-! ## Reading numbers -/

variable {n : Nat} {s : Bytes}

theorem assertBsatnAvailable_reads (h : s.length = n) (column : Bytes) :
    Reads (assertBsatnAvailable n column) s s :=
  takeBytes_reads _ h

private theorem toNat_lt_pow (x : BitVec (8 * n)) : x.toNat < 256 ^ n := by
  have hpow : 2 ^ (8 * n) = 256 ^ n := by rw [pow_mul]; norm_num
  exact lt_of_lt_of_eq x.isLt hpow

theorem readUnsigned_reads (x : BitVec (8 * n)) (column : Bytes) :
    Reads (readUnsigned n column) (littleEndian n x.toNat) x.toNat := by
  have hread := (assertBsatnAvailable_reads (length_littleEndian n x.toNat) column).map
    littleEndianValue
  rwa [littleEndianValue_littleEndian (toNat_lt_pow x)] at hread

theorem readSigned_reads (x : BitVec (8 * n)) (column : Bytes) :
    Reads (readSigned n column) (littleEndian n x.toNat) x.toInt := by
  have hread := (assertBsatnAvailable_reads (length_littleEndian n x.toNat) column).map
    fun raw => signedValue n (littleEndianValue raw)
  rwa [littleEndianValue_littleEndian (toNat_lt_pow x), signedValue, BitVec.ofNat_toNat,
    BitVec.setWidth_eq] at hread

private theorem bigUint64At_zero (x : BitVec 64) (b : Bytes) :
    bigUint64At (littleEndian 8 x.toNat ++ b) 0 = x.toNat := by
  have htake : (littleEndian 8 x.toNat ++ b).take 8 = littleEndian 8 x.toNat := by
    rw [List.take_append_of_le_length (by simp), List.take_of_length_le (by simp)]
  rw [bigUint64At, Nat.mul_zero, List.drop_zero, htake,
    littleEndianValue_littleEndian (by have := x.isLt; omega)]

private theorem bigUint64At_succ {a b : Bytes} (ha : a.length = 8) (i : Nat) :
    bigUint64At (a ++ b) (i + 1) = bigUint64At b i := by
  have hdrop : (a ++ b).drop (8 * (i + 1)) = b.drop (8 * i) := by
    rw [List.drop_append, List.drop_eq_nil_of_le (by omega), List.nil_append, ha]
    congr 1
  rw [bigUint64At, bigUint64At, hdrop]

theorem readBsatnWideInt_two_reads (signed : Bool) (hi lo : BitVec 64) (column : Bytes) :
    Reads (readBsatnWideInt 2 signed column)
      (littleEndian 8 lo.toNat ++ littleEndian 8 hi.toNat)
      ((if signed then hi.toInt else hi.toNat) * 2 ^ 64 + lo.toNat) := by
  refine (assertBsatnAvailable_reads (by simp) column).andThen ?_
  have hlow := bigUint64At_zero lo (littleEndian 8 hi.toNat)
  have hhigh : bigUint64At (littleEndian 8 lo.toNat ++ littleEndian 8 hi.toNat) 1 = hi.toNat := by
    rw [bigUint64At_succ (by simp)]
    simpa using bigUint64At_zero hi []
  simp only [hlow, hhigh, signedValue, BitVec.ofNat_toNat, Nat.reduceMul, BitVec.setWidth_eq,
    Nat.add_one_sub_one, List.range_one, List.foldl_cons, List.foldl_nil, Nat.zero_mul, pow_zero,
    mul_one, Nat.one_mul]
  exact reads_pure _

theorem readBsatnWideInt_four_reads (signed : Bool) (w₀ w₁ w₂ w₃ : BitVec 64)
    (column : Bytes) :
    Reads (readBsatnWideInt 4 signed column)
      (littleEndian 8 w₃.toNat ++ (littleEndian 8 w₂.toNat ++
        (littleEndian 8 w₁.toNat ++ littleEndian 8 w₀.toNat)))
      ((if signed then w₀.toInt else w₀.toNat) * 2 ^ 192 + w₁.toNat * 2 ^ 128 +
        w₂.toNat * 2 ^ 64 + w₃.toNat) := by
  refine (assertBsatnAvailable_reads (by simp) column).andThen ?_
  have hw₀ := bigUint64At_zero w₀ []
  rw [List.append_nil] at hw₀
  simp only [bigUint64At_succ (length_littleEndian 8 _), bigUint64At_zero, hw₀, signedValue,
    BitVec.ofNat_toNat, Nat.reduceMul, BitVec.setWidth_eq, Nat.reduceSub, List.range_succ,
    List.range_zero, List.nil_append, List.foldl_append, List.foldl_cons, List.foldl_nil,
    Nat.zero_mul, pow_zero, mul_one, Nat.one_mul]
  have horder (top a b c : Int) : top + c + b + a = top + a + b + c := by ring
  rw [horder]
  exact reads_pure _

/-! ## Reading texts -/

theorem readUint32LE_reads (h : n < 2 ^ 32) (label : Bytes) :
    Reads (readUint32LE label) (littleEndian 4 n) n := by
  have hread := (takeBytes_reads (fun _ => CodecError.malformedFrame label)
    (length_littleEndian 4 n)).map littleEndianValue
  rwa [littleEndianValue_littleEndian (by omega)] at hread

theorem readBytes_reads (h : s.length < 2 ^ 32) (label : Bytes) :
    Reads (readBytes label) (lengthPrefixed s.length s) s :=
  (readUint32LE_reads h _).bind (takeBytes_reads _ rfl)

theorem readBsatnString_reads (hvalid : validUTF8 s = true) (h : s.length < 2 ^ 32)
    (column : Bytes) :
    Reads (readBsatnString column) (lengthPrefixed s.length s) (receivedText s) := by
  refine (readBytes_reads h _).andThen ?_
  rw [decodeText_of_valid hvalid]
  exact reads_pure _

variable {xs : List Bytes}

theorem readBsatnItems_reads (hvalid : ∀ s ∈ xs, validUTF8 s = true)
    (h : ∀ s ∈ xs, s.length < 2 ^ 32) (column : Bytes) (i : Nat) :
    Reads (readBsatnItems column i xs.length) (itemsText xs) (xs.map receivedText) := by
  induction xs generalizing i with
  | nil => exact reads_pure []
  | cons s xs ih =>
    have hs := readBsatnString_reads (hvalid s (by simp)) (h s (by simp))
      (column ++ text ("[" ++ toString i ++ "]"))
    have hxs := ih (fun t ht => hvalid t (by simp [ht])) (fun t ht => h t (by simp [ht])) (i + 1)
    exact hs.bind (hxs.map _)

private theorem length_itemsText (xs : List Bytes) : 4 * xs.length ≤ (itemsText xs).length := by
  induction xs with
  | nil => simp
  | cons s xs ih =>
    rw [itemsText_cons, List.length_append, length_lengthPrefixed, List.length_cons]
    omega

theorem readBsatnStringArray_reads (hcount : xs.length < 2 ^ 32)
    (hvalid : ∀ s ∈ xs, validUTF8 s = true) (h : ∀ s ∈ xs, s.length < 2 ^ 32) (column : Bytes) :
    Reads (readBsatnStringArray column) (littleEndian 4 xs.length ++ itemsText xs)
      (xs.map receivedText) := by
  refine (readUint32LE_reads hcount _).bind ?_
  intro rest
  have hlen := length_itemsText xs
  have hread := readBsatnItems_reads hvalid h column 0 rest
  have hget : (get : JSReader Bytes) (itemsText xs ++ rest) =
      .ok (itemsText xs ++ rest, itemsText xs ++ rest) := rfl
  rw [bind_of_ok hget, if_neg (by rw [List.length_append]; omega), hread]

/-! ## Reading a UUID -/

private theorem length_bytesKey (raw : Bytes) : (bytesKey raw).length = 2 * raw.length := by
  induction raw with
  | nil => rfl
  | cons b raw ih =>
    rw [bytesKey, List.flatMap_cons, List.length_append, ← bytesKey, ih]
    simp [byteHex]
    omega

private theorem bytesKey_append (s t : Bytes) : bytesKey (s ++ t) = bytesKey s ++ bytesKey t :=
  List.flatMap_append

variable {raw u : Bytes}

section

variable (n) (h : n ≤ raw.length)
include h

private theorem bytesKey_split :
    bytesKey raw = bytesKey (raw.take n) ++ bytesKey (raw.drop n) ∧
      (bytesKey (raw.take n)).length = 2 * n := by
  rw [← bytesKey_append, List.take_append_drop, length_bytesKey, List.length_take,
    Nat.min_eq_left h]
  exact ⟨rfl, rfl⟩

private theorem bytesKey_take : (bytesKey raw).take (2 * n) = bytesKey (raw.take n) := by
  obtain ⟨hsplit, hlen⟩ := bytesKey_split n h
  rw [hsplit, List.take_left' hlen]

private theorem bytesKey_drop : (bytesKey raw).drop (2 * n) = bytesKey (raw.drop n) := by
  obtain ⟨hsplit, hlen⟩ := bytesKey_split n h
  rw [hsplit, List.drop_left' hlen]

end

theorem readBsatnUUID_reads (h : u.length = 16) (column : Bytes) :
    Reads (readBsatnUUID column) u (ofChars (canonicalUUID u)) := by
  refine (assertBsatnAvailable_reads h column).andThen ?_
  have htake : ∀ i n, i + n ≤ 16 →
      ((bytesKey u).drop (2 * i)).take (2 * n) = bytesKey ((u.drop i).take n) := by
    intro i n hin
    rw [bytesKey_drop i (by omega), bytesKey_take n (by rw [List.length_drop]; omega)]
  have h₀ : (bytesKey u).take 8 = bytesKey (u.take 4) := bytesKey_take 4 (by omega)
  have h₁ : ((bytesKey u).drop 8).take 4 = bytesKey ((u.drop 4).take 2) := htake 4 2 (by omega)
  have h₂ : ((bytesKey u).drop 12).take 4 = bytesKey ((u.drop 6).take 2) := htake 6 2 (by omega)
  have h₃ : ((bytesKey u).drop 16).take 4 = bytesKey ((u.drop 8).take 2) := htake 8 2 (by omega)
  have h₄ : (bytesKey u).drop 20 = bytesKey (u.drop 10) := bytesKey_drop 10 (by omega)
  simp only [h₀, h₁, h₂, h₃, h₄]
  exact reads_pure _

/-! ## Reading a row -/

variable (json : JSONOps ω)

private theorem lt_of_le_max (h : n ≤ maxValuePayloadBytes) : n < 2 ^ 32 := by
  unfold maxValuePayloadBytes at h
  omega

private theorem array_bounds (hcount : xs.length ≤ maxArrayStringItems)
    (hsize : 4 + (itemsText xs).length ≤ maxValuePayloadBytes) :
    xs.length < 2 ^ 32 ∧ ∀ s ∈ xs, s.length < 2 ^ 32 := by
  constructor
  · unfold maxArrayStringItems at hcount
    omega
  · intro s hs
    have hle := length_le_itemsText hs
    exact lt_of_le_max (by omega)

variable {k : ValueKind} {p : Payload k}

theorem readBsatnPayload_reads (hk : k ≠ .json) (h : PayloadFits p) (column : Bytes) :
    Reads (readBsatnPayload json k column) (payloadText p) (jsPayload receivedText p) := by
  cases k with
  | json => exact absurd rfl hk
  | bool =>
    have hread : Reads (readBool column) (payloadText p) p := by
      have hbyte : Reads (assertBsatnAvailable 1 column) (payloadText p) (payloadText p) :=
        assertBsatnAvailable_reads (n := 1) rfl column
      refine hbyte.andThen ?_
      cases p <;> exact reads_pure _
    exact hread.map _
  | int8 => exact (readSigned_reads (n := 1) p column).map _
  | uint8 => exact (readUnsigned_reads (n := 1) p column).map _
  | int16 => exact (readSigned_reads (n := 2) p column).map _
  | uint16 => exact (readUnsigned_reads (n := 2) p column).map _
  | int32 => exact (readSigned_reads (n := 4) p column).map _
  | uint32 => exact (readUnsigned_reads (n := 4) p column).map _
  | int64 => exact (readSigned_reads (n := 8) p column).map _
  | timestamp => exact (readSigned_reads (n := 8) p column).map _
  | duration => exact (readSigned_reads (n := 8) p column).map _
  | uint64 => exact (readUnsigned_reads (n := 8) p column).map _
  | float32 => exact (readUnsigned_reads (n := 4) p.bits column).map _
  | float64 => exact (readUnsigned_reads (n := 8) p.bits column).map _
  | string => exact (readBsatnString_reads h.1 (lt_of_le_max h.2) column).map _
  | bytes => exact (readBytes_reads (lt_of_le_max h) _).map _
  | int128 => exact (readBsatnWideInt_two_reads true p.1 p.2 column).map _
  | uint128 => exact (readBsatnWideInt_two_reads false p.1 p.2 column).map _
  | int256 =>
    exact (readBsatnWideInt_four_reads true p.1 p.2.1 p.2.2.1 p.2.2.2 column).map _
  | uint256 =>
    exact (readBsatnWideInt_four_reads false p.1 p.2.1 p.2.2.1 p.2.2.2 column).map _
  | arrayString =>
    obtain ⟨hcount, hvalid, hsize⟩ := h
    obtain ⟨hitems, hlen⟩ := array_bounds hcount hsize
    exact (readBsatnStringArray_reads hitems hvalid hlen column).map _
  | uuid => exact (readBsatnUUID_reads p.2 column).map _

theorem readBsatnColumn_reads {col : ColumnSchema} (hjson : col.type ≠ .json) {v : Value}
    (h : ColumnFits col v) :
    Reads (readBsatnColumn json (bsatnColumn col)) (columnText col v)
      (jsValue receivedText v) := by
  obtain ⟨k, p⟩ := v
  obtain ⟨⟨rfl, hnull⟩, hpayload⟩ := h
  have htag : Reads (takeBytes (fun _ => CodecError.truncatedColumn col.name) 1)
      [tag col.type] [tag col.type] := takeBytes_reads _ rfl
  have hpresence (b : UInt8) :
      Reads (takeBytes (fun _ => CodecError.truncatedPresence col.name) 1) [b] [b] :=
    takeBytes_reads _ rfl
  have htags : [tag col.type] = [bsatnTags (bsatnColumn col).kind] := by
    rw [bsatnTags_eq]
    rfl
  cases p with
  | none =>
    have hnullable : (bsatnColumn col).nullable = true := hnull rfl
    refine htag.bind (t := [0]) ?_
    rw [if_neg (not_not_intro htags), if_neg (by simp [hnullable])]
    exact (hpresence 0).andThen (reads_pure _)
  | some p =>
    have hread := readBsatnPayload_reads json hjson (hpayload p rfl) col.name
    cases hnullable : col.nullable with
    | true =>
      have htext : columnText col ⟨col.type, some p⟩ =
          [tag col.type] ++ ([1] ++ payloadText p) := by
        simp [columnText, hnullable]
      rw [htext]
      refine htag.bind ?_
      rw [if_neg (not_not_intro htags), if_neg (by simp [bsatnColumn, hnullable])]
      exact (hpresence 1).bind hread
    | false =>
      have htext : columnText col ⟨col.type, some p⟩ = [tag col.type] ++ payloadText p := by
        simp [columnText, hnullable]
      rw [htext]
      refine htag.bind ?_
      rw [if_neg (not_not_intro htags), if_pos (by simp [bsatnColumn, hnullable])]
      exact hread

variable {columns : List ColumnSchema} {row : ProductValue}

theorem readBsatnColumns_reads (hjson : ∀ col ∈ columns, col.type ≠ .json)
    (h : RowFits columns row) :
    Reads (readBsatnColumns json (columns.map bsatnColumn)) (rowText columns row)
      (row.map (jsValue receivedText)) := by
  induction h with
  | nil => exact reads_pure []
  | cons hv _ ih =>
    have hcol := readBsatnColumn_reads json (hjson _ (by simp)) hv
    have hrest := ih fun col hcol => hjson col (by simp [hcol])
    exact hcol.bind (hrest.map _)

theorem decodeBsatnProduct_received (hjson : ∀ col ∈ columns, col.type ≠ .json)
    (h : RowFits columns row) :
    decodeBsatnProduct json (rowText columns row) (columns.map bsatnColumn) =
      .ok (row.map (jsValue receivedText)) := by
  rw [decodeBsatnProduct, (readBsatnColumns_reads json hjson h).apply]
  rfl

/-! ## Writing numbers -/

-- stated for any number: with `ofInt` in place the kernel would compute with its unit
variable {max min : Int}

private theorem asInteger_of_integer {x : JSNumber} {n : Int} (hx : x.toInteger? = some n)
    (hmin : min ≤ n) (hmax : n ≤ max) (column : BsatnColumn) :
    asInteger (.number x : JSValue ω) column min max = .ok n := by
  simp only [asInteger, hx]
  rw [if_neg (by omega)]

private theorem asBigIntInRange_bigint {n : Int} (hmin : min ≤ n) (hmax : n ≤ max)
    (column : BsatnColumn) (expected : String) :
    asBigIntInRange (.bigint n : JSValue ω) column min max expected = .ok n := by
  change (if n < min ∨ n > max then _ else _) = _
  rw [if_neg (by omega)]

theorem writeInteger_toNat (x : BitVec (8 * n)) :
    writeInteger n x.toNat = littleEndian n x.toNat := by
  have hmod : ((x.toNat : Int) % 2 ^ (8 * n)).toNat = x.toNat := by
    rw [Int.emod_eq_of_lt (by omega) (by exact_mod_cast x.isLt), Int.toNat_natCast]
  rw [writeInteger, hmod]

theorem writeInteger_toInt (x : BitVec (8 * n)) :
    writeInteger n x.toInt = littleEndian n x.toNat := by
  have hmod : x.toInt % 2 ^ (8 * n) = (x.toNat : Int) % 2 ^ (8 * n) := by
    rw [BitVec.toInt_eq_toNat_cond]
    split
    · rfl
    · push_cast
      exact Int.sub_emod_right _ _
  rw [writeInteger, hmod]
  exact writeInteger_toNat x

private theorem encodeWideInteger_ok {n : Int} {byteLength bits : Nat} {signed : Bool}
    (hmin : (if signed then -2 ^ (byteLength * 8 - 1) else 0) ≤ n)
    (hmax : n ≤ if signed then 2 ^ (byteLength * 8 - 1) - 1 else 2 ^ (byteLength * 8) - 1)
    (hbits : (if n < 0 then 2 ^ (byteLength * 8) + n else n) = (bits : Int))
    (column : BsatnColumn) :
    encodeWideInteger (.bigint n : JSValue ω) column byteLength signed =
      .ok (littleEndian byteLength bits) := by
  unfold encodeWideInteger
  dsimp only
  rw [asBigIntInRange_bigint hmin hmax]
  change Except.ok _ = _
  rw [hbits, Int.toNat_natCast, littleEndian_eq_map]

/-! ## Writing texts -/

private theorem encodeLengthPrefixedBytes_eq (h : s.length < 2 ^ 32) :
    encodeLengthPrefixedBytes s = lengthPrefixed s.length s := by
  rw [encodeLengthPrefixedBytes, writeUint32LE, Nat.mod_eq_of_lt h, lengthPrefixed]

private theorem utf8Bytes_textPoints (h : validUTF8 s = true) (label : Bytes) :
    utf8Bytes (textPoints s) label = .ok s := by
  rw [utf8Bytes, if_pos (textPoints_wellFormed h), encodeText_textPoints h]

private theorem mapM_utf8Bytes (h : ∀ s ∈ xs, validUTF8 s = true) (label : Bytes) :
    (xs.map textPoints).mapM (fun item => utf8Bytes item label) = .ok xs := by
  induction xs with
  | nil => rfl
  | cons s xs ih =>
    rw [List.map_cons, List.mapM_cons, utf8Bytes_textPoints (h s (by simp)),
      ih fun t ht => h t (by simp [ht])]
    rfl

theorem encodeStringArray_ok (hcount : xs.length < 2 ^ 32)
    (hvalid : ∀ s ∈ xs, validUTF8 s = true) (h : ∀ s ∈ xs, s.length < 2 ^ 32)
    (column : BsatnColumn) :
    encodeStringArray (.strings (xs.map textPoints) : JSValue ω) column =
      .ok (littleEndian 4 xs.length ++ itemsText xs) := by
  have hitems : xs.flatMap encodeLengthPrefixedBytes = itemsText xs := by
    rw [itemsText, List.flatMap_def, List.flatMap_def]
    exact congrArg List.flatten
      (List.map_congr_left fun s hs => encodeLengthPrefixedBytes_eq (h s hs))
  rw [encodeStringArray, mapM_utf8Bytes hvalid]
  change Except.ok (writeUint32LE xs.length ++ xs.flatMap encodeLengthPrefixedBytes) = _
  rw [hitems, writeUint32LE, Nat.mod_eq_of_lt hcount]

/-! ## Writing a UUID -/

private theorem hexValue?_hexDigit (h : n < 16) :
    hexValue? (hexDigit n).toNat = some n ∧ (hexDigit n).toNat ≠ 45 := by
  interval_cases n <;> decide

def nibbles (raw : Bytes) : List Nat := raw.flatMap fun b => [b.toNat / 16, b.toNat % 16]

private theorem filter_bytesKey (raw : Bytes) :
    (ofChars (bytesKey raw)).filter (· ≠ 45) = ofChars (bytesKey raw) := by
  rw [List.filter_eq_self]
  intro c hc
  simp only [ofChars, bytesKey, List.mem_map, List.mem_flatMap, byteHex, List.mem_cons,
    List.not_mem_nil, or_false] at hc
  obtain ⟨d, ⟨b, -, rfl | rfl⟩, rfl⟩ := hc
  · have hb := b.toNat_lt
    simpa using (hexValue?_hexDigit (n := b.toNat / 16) (by omega)).2
  · simpa using (hexValue?_hexDigit (n := b.toNat % 16) (by omega)).2

private theorem mapM_hexValue? (raw : Bytes) :
    (ofChars (bytesKey raw)).mapM hexValue? = some (nibbles raw) := by
  induction raw with
  | nil => rfl
  | cons b raw ih =>
    have hb := b.toNat_lt
    have hsplit : ofChars (bytesKey (b :: raw)) = (hexDigit (b.toNat / 16)).toNat ::
        (hexDigit (b.toNat % 16)).toNat :: ofChars (bytesKey raw) := rfl
    rw [hsplit, List.mapM_cons, (hexValue?_hexDigit (by omega)).1, List.mapM_cons,
      (hexValue?_hexDigit (by omega)).1, ih]
    rfl

private theorem hexBytes_nibbles (raw : Bytes) : hexBytes (nibbles raw) = raw := by
  induction raw with
  | nil => rfl
  | cons b raw ih =>
    have hb : 16 * (b.toNat / 16) + b.toNat % 16 = b.toNat := by omega
    change UInt8.ofNat (16 * (b.toNat / 16) + b.toNat % 16) :: hexBytes (nibbles raw) = _
    rw [hb, UInt8.ofNat_toNat, ih]

private theorem filter_canonicalUUID :
    (ofChars (canonicalUUID u)).filter (· ≠ 45) = ofChars (bytesKey u) := by
  have hsplit : u = u.take 4 ++ ((u.drop 4).take 2 ++ ((u.drop 6).take 2 ++
      ((u.drop 8).take 2 ++ u.drop 10))) := by
    have hstep (i n : Nat) : (u.drop i).take n ++ u.drop (i + n) = u.drop i := by
      rw [← List.drop_drop, List.take_append_drop]
    rw [hstep 8 2, hstep 6 2, hstep 4 2, List.take_append_drop]
  have hdash : ('-' : Char).toNat = 45 := rfl
  have hkeep (raw : Bytes) := filter_bytesKey raw
  conv_rhs => rw [hsplit]
  simp only [ofChars, canonicalUUID, bytesKey_append, List.map_append, List.map_cons,
    List.filter_append, List.filter_cons, hdash] at hkeep ⊢
  simp only [hkeep]
  simp

theorem encodeUUID_ok (h : u.length = 16) (column : BsatnColumn) :
    encodeUUID (.string (ofChars (canonicalUUID u)) : JSValue ω) column = .ok u := by
  have hlen : (nibbles u).length = 32 := by
    simp [nibbles, List.length_flatMap, h]
  simp only [encodeUUID, asString, bind, Except.bind, filter_canonicalUUID, mapM_hexValue?]
  rw [if_pos hlen, hexBytes_nibbles]

/-! ## Writing a row -/

variable {w : Nat}

private theorem encodeFloat_ok {inf : Nat} (l : JSNumber.FloatLayout)
    (hw : 2 ^ w = 2 * l.signBit) (hsign : 2 ^ (w - 1) = l.signBit)
    (hinf : inf = l.infinityPattern) (x : FloatBits w inf) (column : BsatnColumn) :
    (do .ok (littleEndian n (l.write (← asNumber
      (.number (l.read x.bits.toNat) : JSValue ω) column))) : Except CodecError Bytes) =
      .ok (littleEndian n x.bits.toNat) := by
  have hnan : x.bits.toNat % l.signBit ≤ l.infinityPattern := by
    rw [← hsign, ← hinf]
    exact x.notNaN
  have hread := l.read_ne_nan hnan
  have hwrite := l.write_read (lt_of_lt_of_eq x.bits.isLt hw) hnan
  simp only [asNumber, if_neg hread]
  change Except.ok _ = _
  rw [hwrite]

private theorem encodeInteger_ok (x : BitVec (8 * n)) {y : Int} (hy : y = x.toInt ∨ y = x.toNat)
    (hrange : min ≤ y ∧ y ≤ max) (column : BsatnColumn) :
    (do .ok (writeInteger n (← asInteger
      (.number (.ofInt y) : JSValue ω) column min max)) : Except CodecError Bytes) =
      .ok (littleEndian n x.toNat) := by
  rw [asInteger_of_integer (JSNumber.toInteger?_ofInt y) hrange.1 hrange.2]
  change Except.ok _ = _
  rcases hy with rfl | rfl
  · rw [writeInteger_toInt]
  · rw [writeInteger_toNat]

private theorem encodeBigInt_ok (x : BitVec 64) {y : Int} (hy : y = x.toInt ∨ y = x.toNat)
    (hrange : min ≤ y ∧ y ≤ max) (column : BsatnColumn) (expected : String) :
    (do .ok (writeInteger 8 (← asBigIntInRange
      (.bigint y : JSValue ω) column min max expected)) : Except CodecError Bytes) =
      .ok (littleEndian 8 x.toNat) := by
  rw [asBigIntInRange_bigint hrange.1 hrange.2]
  change Except.ok _ = _
  rcases hy with rfl | rfl
  · rw [writeInteger_toInt (n := 8) x]
  · rw [writeInteger_toNat (n := 8) x]

private theorem toInt_range (x : BitVec w) (hmin : min ≤ -2 ^ (w - 1))
    (hmax : 2 ^ (w - 1) - 1 ≤ max) : min ≤ x.toInt ∧ x.toInt ≤ max := by
  have hlow := BitVec.le_toInt x
  have hhigh := BitVec.toInt_lt (x := x)
  omega

private theorem toNat_range (x : BitVec w) (hmax : 2 ^ w - 1 ≤ max) :
    0 ≤ (x.toNat : Int) ∧ (x.toNat : Int) ≤ max := by
  have hlt : (x.toNat : Int) < 2 ^ w := by exact_mod_cast x.isLt
  omega

private theorem littleEndian_two (hi lo : BitVec 64) :
    littleEndian 16 (lo.toNat + 256 ^ 8 * hi.toNat) =
      littleEndian 8 lo.toNat ++ littleEndian 8 hi.toNat :=
  littleEndian_append (n := 8) (toNat_lt_pow (n := 8) lo) 8 hi.toNat

private theorem littleEndian_four (w₀ w₁ w₂ w₃ : BitVec 64) :
    littleEndian 32 (w₃.toNat + 256 ^ 8 * (w₂.toNat + 256 ^ 8 * (w₁.toNat +
        256 ^ 8 * w₀.toNat))) =
      littleEndian 8 w₃.toNat ++ (littleEndian 8 w₂.toNat ++
        (littleEndian 8 w₁.toNat ++ littleEndian 8 w₀.toNat)) := by
  rw [littleEndian_append (n := 8) (toNat_lt_pow (n := 8) w₃) 24,
    littleEndian_append (n := 8) (toNat_lt_pow (n := 8) w₂) 16, littleEndian_two]

private theorem encodeWide_two (signed : Bool) (hi lo : BitVec 64) (column : BsatnColumn) :
    encodeWideInteger (.bigint ((if signed then hi.toInt else hi.toNat) * 2 ^ 64 + lo.toNat) :
      JSValue ω) column 16 signed =
      .ok (littleEndian 8 lo.toNat ++ littleEndian 8 hi.toNat) := by
  have hlo := lo.isLt
  have hhi := hi.isLt
  have hcond := BitVec.toInt_eq_toNat_cond hi
  rw [← littleEndian_two]
  cases signed
  · apply encodeWideInteger_ok <;> simp <;> omega
  · split at hcond <;> rw [hcond] <;> apply encodeWideInteger_ok <;> simp <;> omega

private theorem encodeWide_four (signed : Bool) (w₀ w₁ w₂ w₃ : BitVec 64)
    (column : BsatnColumn) :
    encodeWideInteger (.bigint ((if signed then w₀.toInt else w₀.toNat) * 2 ^ 192 +
      w₁.toNat * 2 ^ 128 + w₂.toNat * 2 ^ 64 + w₃.toNat) : JSValue ω) column 32 signed =
      .ok (littleEndian 8 w₃.toNat ++ (littleEndian 8 w₂.toNat ++
        (littleEndian 8 w₁.toNat ++ littleEndian 8 w₀.toNat))) := by
  have h₀ := w₀.isLt
  have h₁ := w₁.isLt
  have h₂ := w₂.isLt
  have h₃ := w₃.isLt
  have hcond := BitVec.toInt_eq_toNat_cond w₀
  rw [← littleEndian_four]
  cases signed
  · apply encodeWideInteger_ok <;> simp <;> omega
  · split at hcond <;> rw [hcond] <;> apply encodeWideInteger_ok <;> simp <;> omega

theorem encodeBsatnPayload_denote (hk : k ≠ .json) (h : PayloadFits p) (name : Bytes)
    (nullable : Bool) :
    encodeBsatnPayload json (jsPayload textPoints p) ⟨name, k, nullable⟩ =
      .ok (payloadText p) := by
  cases k with
  | json => exact absurd rfl hk
  | bool => rfl
  | int8 => exact encodeInteger_ok (n := 1) p (.inl rfl) (toInt_range (w := 8) p le_rfl le_rfl) _
  | int16 =>
    exact encodeInteger_ok (n := 2) p (.inl rfl) (toInt_range (w := 16) p le_rfl le_rfl) _
  | int32 =>
    exact encodeInteger_ok (n := 4) p (.inl rfl) (toInt_range (w := 32) p le_rfl le_rfl) _
  | uint8 => exact encodeInteger_ok (n := 1) p (.inr rfl) (toNat_range (w := 8) p le_rfl) _
  | uint16 => exact encodeInteger_ok (n := 2) p (.inr rfl) (toNat_range (w := 16) p le_rfl) _
  | uint32 => exact encodeInteger_ok (n := 4) p (.inr rfl) (toNat_range (w := 32) p le_rfl) _
  | int64 => exact encodeBigInt_ok p (.inl rfl) (toInt_range (w := 64) p le_rfl le_rfl) _ _
  | timestamp => exact encodeBigInt_ok p (.inl rfl) (toInt_range (w := 64) p le_rfl le_rfl) _ _
  | duration => exact encodeBigInt_ok p (.inl rfl) (toInt_range (w := 64) p le_rfl le_rfl) _ _
  | uint64 => exact encodeBigInt_ok p (.inr rfl) (toNat_range (w := 64) p le_rfl) _ _
  | float32 => exact encodeFloat_ok (n := 4) JSNumber.float32 rfl rfl rfl p _
  | float64 => exact encodeFloat_ok (n := 8) JSNumber.float64 rfl rfl rfl p _
  | string =>
    have hwrite := utf8Bytes_textPoints h.1 (bsatnLabel name)
    have hprefix := encodeLengthPrefixedBytes_eq (lt_of_le_max h.2)
    simp only [encodeBsatnPayload, jsPayload, asString]
    change (utf8Bytes (textPoints p) (bsatnLabel name) >>= fun raw =>
      .ok (encodeLengthPrefixedBytes raw)) = _
    rw [hwrite]
    exact congrArg Except.ok hprefix
  | bytes => exact congrArg Except.ok (encodeLengthPrefixedBytes_eq (lt_of_le_max h))
  | int128 => exact encodeWide_two true p.1 p.2 _
  | uint128 => exact encodeWide_two false p.1 p.2 _
  | int256 => exact encodeWide_four true p.1 p.2.1 p.2.2.1 p.2.2.2 _
  | uint256 => exact encodeWide_four false p.1 p.2.1 p.2.2.1 p.2.2.2 _
  | arrayString =>
    obtain ⟨hcount, hvalid, hsize⟩ := h
    obtain ⟨hitems, hlen⟩ := array_bounds hcount hsize
    exact encodeStringArray_ok (ω := ω) hitems hvalid hlen _
  | uuid => exact encodeUUID_ok p.2 _

private theorem isNullish_jsPayload (ofText : Bytes → JSString) (hk : k ≠ .json) (p : Payload k) :
    isNullish (jsPayload ofText p : JSValue ω) = false := by
  cases k <;> first | rfl | exact absurd rfl hk

theorem encodeBsatnColumn_denote {col : ColumnSchema} (hjson : col.type ≠ .json) {v : Value}
    (h : ColumnFits col v) :
    encodeBsatnColumn json (denote v) (bsatnColumn col) = .ok (columnText col v) := by
  obtain ⟨k, p⟩ := v
  obtain ⟨⟨rfl, hnull⟩, hpayload⟩ := h
  cases p with
  | none =>
    have hnullable : (bsatnColumn col).nullable = true := hnull rfl
    rw [encodeBsatnColumn, if_pos hnullable, bsatnTags_eq]
    rfl
  | some p =>
    have hwrite := encodeBsatnPayload_denote json hjson (hpayload p rfl) col.name col.nullable
    have hpresent := isNullish_jsPayload (ω := ω) textPoints hjson p
    simp only [encodeBsatnColumn, bsatnColumn, denote, jsValue, hpresent, hwrite, bsatnTags_eq,
      columnText]
    cases col.nullable <;> rfl

theorem encodeBsatnColumns_denote (hjson : ∀ col ∈ columns, col.type ≠ .json)
    (h : RowFits columns row) :
    encodeBsatnColumns json (row.map denote) (columns.map bsatnColumn) =
      .ok (rowText columns row) := by
  induction h with
  | nil => rfl
  | cons hv _ ih =>
    rw [List.map_cons, List.map_cons, encodeBsatnColumns,
      encodeBsatnColumn_denote json (hjson _ (by simp)) hv,
      ih fun col hcol => hjson col (by simp [hcol])]
    rfl

/-! ## Agreement -/

def payloadTexts : {k : ValueKind} → Payload k → List Bytes
  | .string, s => [s]
  | .arrayString, xs => xs
  | _, _ => []

/-- The strings of a value: itself, or the items of an array. -/
def valueTexts (v : Value) : List Bytes :=
  match v.payload with
  | none => []
  | some p => payloadTexts p

def MarkFree (row : ProductValue) : Prop :=
  ∀ v ∈ row, ∀ s ∈ valueTexts v, startsWithMark s = false

private theorem receivedText_eq_iff (h : validUTF8 s = true) :
    receivedText s = textPoints s ↔ startsWithMark s = false := by
  unfold receivedText
  split
  · next hmark => simp [hmark, textPoints_drop_ne h hmark]
  · next hmark => simpa using hmark

theorem jsPayload_eq_iff (h : PayloadFits p) :
    (jsPayload receivedText p : JSValue ω) = jsPayload textPoints p ↔
      ∀ s ∈ payloadTexts p, startsWithMark s = false := by
  cases k with
  | string => simpa [jsPayload, payloadTexts] using receivedText_eq_iff h.1
  | arrayString =>
    have hitems : p.map receivedText = p.map textPoints ↔
        ∀ s ∈ p, startsWithMark s = false := by
      rw [List.map_inj_left]
      exact forall₂_congr fun s hs => receivedText_eq_iff (h.2.1 s hs)
    simpa [jsPayload, payloadTexts] using hitems
  | _ => simp [jsPayload, payloadTexts]

theorem received_eq_denote_iff (h : RowFits columns row) :
    row.map (jsValue receivedText) = row.map (denote : Value → JSValue ω) ↔ MarkFree row := by
  rw [List.map_inj_left]
  apply forall₂_congr
  intro v hv
  obtain ⟨col, -, hfits⟩ : ∃ col ∈ columns, ColumnFits col v := by
    induction h with
    | nil => cases hv
    | cons hcol _ ih =>
      rcases List.mem_cons.mp hv with rfl | hv
      · exact ⟨_, by simp, hcol⟩
      · obtain ⟨col, hmem, hfits⟩ := ih hv
        exact ⟨col, by simp [hmem], hfits⟩
  obtain ⟨k, p⟩ := v
  cases p with
  | none => simp [denote, jsValue, valueTexts]
  | some p => exact jsPayload_eq_iff (hfits.payload p rfl)

/-- The client decodes a row of the server to the values it denotes, and writes the same bytes
for them, exactly when no string of the row starts with a byte order mark. -/
theorem bsatnProduct_agrees {columns : List ColumnSchema}
    (hjson : ∀ col ∈ columns, col.type ≠ .json) {row : ProductValue} {bytes : Bytes}
    (hrow : appendProductValueForColumns [] row columns = .ok bytes) :
    (decodeBsatnProduct json bytes (columns.map bsatnColumn) = .ok (row.map denote) ∧
      encodeBsatnProduct json (row.map denote) (columns.map bsatnColumn) = .ok bytes) ↔
      MarkFree row := by
  obtain ⟨hfits, hbytes⟩ := appendProductValueForColumns_ok.mp hrow
  rw [List.nil_append] at hbytes
  subst hbytes
  have hlen : ¬ (row.map (denote : Value → JSValue ω)).length ≠
      (columns.map bsatnColumn).length := by
    simpa using hfits.length_eq.symm
  rw [decodeBsatnProduct_received json hjson hfits, encodeBsatnProduct, if_neg hlen,
    encodeBsatnColumns_denote json hjson hfits, Except.ok.injEq, received_eq_denote_iff hfits]
  simp

instance (row : ProductValue) : Decidable (MarkFree row) :=
  inferInstanceAs (Decidable (∀ v ∈ row, ∀ s ∈ valueTexts v, startsWithMark s = false))

def noJSON : JSONOps Empty := ⟨fun _ => none, fun _ => none⟩

def scoreColumns : List ColumnSchema :=
  [⟨0, text "name", .string, false, false⟩, ⟨1, text "score", .float32, true, false⟩]

def scoreRow : ProductValue :=
  [⟨.string, some (text "naïve")⟩, ⟨.float32, some ⟨0xBFC00000#32, by decide⟩⟩]

theorem scoreRow_agrees : ∃ bytes,
    appendProductValueForColumns [] scoreRow scoreColumns = .ok bytes ∧
      decodeBsatnProduct noJSON bytes (scoreColumns.map bsatnColumn) =
        .ok (scoreRow.map denote) ∧
      encodeBsatnProduct noJSON (scoreRow.map denote) (scoreColumns.map bsatnColumn) =
        .ok bytes :=
  ⟨_, rfl, (bsatnProduct_agrees noJSON (by decide) rfl).mpr (by decide)⟩

def markedRow : ProductValue := [⟨.string, some [0xEF, 0xBB, 0xBF, 0x61]⟩]

theorem markedRow_disagrees :
    ¬ ∀ (columns : List ColumnSchema) (row : ProductValue) (bytes : Bytes),
      (∀ col ∈ columns, col.type ≠ .json) →
      appendProductValueForColumns [] row columns = .ok bytes →
      decodeBsatnProduct noJSON bytes (columns.map bsatnColumn) = .ok (row.map denote) ∧
        encodeBsatnProduct noJSON (row.map denote) (columns.map bsatnColumn) = .ok bytes := by
  intro h
  have hread := (h (scoreColumns.take 1) markedRow [11, 4, 0, 0, 0, 0xEF, 0xBB, 0xBF, 0x61]
    (by decide) rfl).1
  have hreceived : decodeBsatnProduct noJSON [11, 4, 0, 0, 0, 0xEF, 0xBB, 0xBF, 0x61]
      ((scoreColumns.take 1).map bsatnColumn) = .ok [.string [0x61]] := rfl
  rw [hreceived] at hread
  revert hread
  decide

end Shunter.Client
