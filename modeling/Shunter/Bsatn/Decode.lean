import Shunter.Bsatn.Encode
import Shunter.Types.JSONCanonical

/-!
# BSATN decoding

The reader is the list of bytes not yet read.  `io.ReadFull` fails with `EOF`
when nothing is left and with `ErrUnexpectedEOF` when too little is left.
-/

namespace Shunter.Bsatn

open Foundation

abbrev RowReader := Reader BsatnError

def shortRead (x : Bytes) : BsatnError := if x = [] then .eof else .unexpectedEOF

def readFull (n : Nat) : RowReader Bytes := Reader.takeBytes shortRead n

def readUint (n : Nat) : RowReader Nat := do
  let buf ← readFull n
  pure (littleEndianValue buf)

def readBits (w : Nat) : RowReader (BitVec w) := do
  let v ← readUint (w / 8)
  pure (BitVec.ofNat w v)

def decodeBoolByte (b : Bytes) : RowReader Bool :=
  if b = [0] then pure false
  else if b = [1] then pure true
  else throw .invalidBool

/-- `NewFloat32` and `NewFloat64` refuse NaN. -/
def newFloat (w inf : Nat) (bits : BitVec w) : RowReader (FloatBits w inf) :=
  if h : bits.toNat % 2 ^ (w - 1) ≤ inf then pure ⟨bits, h⟩ else throw .invalidFloat

/-- A payload that ends early is an unexpected end even if nothing of it is left. -/
def readLengthPrefixedPayload (n : Nat) : RowReader Bytes :=
  if n = 0 then pure []
  else if n > maxValuePayloadBytes then
    throw (.valueTooLarge "payload" (some n) maxValuePayloadBytes)
  else Reader.takeBytes (fun _ => .unexpectedEOF) n

/-- The loop over the items of an array; `remaining` is what is left of its payload limit. -/
def decodeArrayItems : Nat → Nat → RowReader (List Bytes)
  | 0, _ => pure []
  | count + 1, remaining =>
    if remaining < 4 then
      throw (.valueTooLarge "array string payload"
        (some (maxValuePayloadBytes + 4 - remaining)) maxValuePayloadBytes)
    else do
      let n ← readUint 4
      if n > remaining - 4 then
        throw (.valueTooLarge "array string payload"
          (some (maxValuePayloadBytes + n - (remaining - 4))) maxValuePayloadBytes)
      else
        let data ← readLengthPrefixedPayload n
        if validUTF8 data then
          let xs ← decodeArrayItems count (remaining - 4 - n)
          pure (data :: xs)
        else throw (.invalidUTF8 none)

/-- `NewJSON`: the stored text is the canonical one. -/
def newJSON (data : Bytes) : Except JSONError JSONText :=
  match h : canonicalizeJSON data with
  | .error e => .error e
  | .ok text => .ok ⟨text, canonicalizeJSON_idem h⟩

def decodeJSON (data : Bytes) : RowReader JSONText :=
  match newJSON data with
  | .error e => throw (.invalidJSON e)
  | .ok text => pure text

def wideWord (wide : Bytes) (i : Nat) : BitVec 64 :=
  .ofNat 64 (littleEndianValue ((wide.drop (8 * i)).take 8))

/-- The switch of `decodePayload`; columns have known kinds only. -/
def decodePayload : (k : ValueKind) → RowReader (Payload k)
  | .bool => do decodeBoolByte (← readFull 1)
  | .int8 => readBits 8
  | .uint8 => readBits 8
  | .int16 => readBits 16
  | .uint16 => readBits 16
  | .int32 => readBits 32
  | .uint32 => readBits 32
  | .int64 => readBits 64
  | .uint64 => readBits 64
  | .float32 => do newFloat 32 0x7F800000 (← readBits 32)
  | .float64 => do newFloat 64 0x7FF0000000000000 (← readBits 64)
  | .string => do
    let data ← readLengthPrefixedPayload (← readUint 4)
    if validUTF8 data then pure data else throw (.invalidUTF8 none)
  | .bytes => do readLengthPrefixedPayload (← readUint 4)
  | .int128 => do
    let wide ← readFull 16
    pure (wideWord wide 1, wideWord wide 0)
  | .uint128 => do
    let wide ← readFull 16
    pure (wideWord wide 1, wideWord wide 0)
  | .int256 => do
    let wide ← readFull 32
    pure (wideWord wide 3, wideWord wide 2, wideWord wide 1, wideWord wide 0)
  | .uint256 => do
    let wide ← readFull 32
    pure (wideWord wide 3, wideWord wide 2, wideWord wide 1, wideWord wide 0)
  | .timestamp => readBits 64
  | .duration => readBits 64
  | .arrayString => do
    let count ← readUint 4
    if count > maxArrayStringItems then
      throw (.valueTooLarge "array string count" (some count) maxArrayStringItems)
    else decodeArrayItems count (maxValuePayloadBytes - 4)
  | .uuid => do
    let u ← readFull 16
    if h : u.length = 16 then pure ⟨u, h⟩ else throw .unexpectedEOF
  | .json => do decodeJSON (← readLengthPrefixedPayload (← readUint 4))

/-! ## Rows -/

def decodeColumnValue (col : ColumnSchema) : RowReader Value := do
  let got ← readFull 1
  if got ≠ [tag col.type] then
    throw (.typeTagMismatch col.name col.type (got.headD 0))
  else if !col.nullable then
    let p ← decodePayload col.type
    pure ⟨col.type, some p⟩
  else
    let presence ← readFull 1
    if presence = [0] then pure (.newNull col.type)
    else if presence = [1] then
      let p ← decodePayload col.type
      pure ⟨col.type, some p⟩
    else throw .invalidPresence

/-- A row that ends early is reported with the number of columns read. -/
def shortRow (ts : TableSchema) (i : Nat) : BsatnError → BsatnError
  | .eof | .unexpectedEOF => .rowLengthMismatch ts.name ts.columns.length i
  | e => e

def decodeColumns (ts : TableSchema) (i : Nat) : List ColumnSchema → RowReader ProductValue
  | [] => pure []
  | col :: cols => do
    let v ← fun r => (decodeColumnValue col r).mapError (shortRow ts i)
    let pv ← decodeColumns ts (i + 1) cols
    pure (v :: pv)

def decodeProductValueColumns (ts : TableSchema) : RowReader ProductValue :=
  decodeColumns ts 0 ts.columns

def decodeProductValueFromBytes (data : Bytes) (ts : TableSchema) :
    Except BsatnError ProductValue :=
  match decodeProductValueColumns ts data with
  | .error e => .error e
  | .ok (pv, []) => .ok pv
  | .ok (_, _ :: _) =>
    .error (.rowLengthMismatch ts.name ts.columns.length (ts.columns.length + 1))

end Shunter.Bsatn
