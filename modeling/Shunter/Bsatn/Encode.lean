import Shunter.Foundation.Codec
import Shunter.Schema.Types

/-!
# BSATN encoding

A value is a tag byte and a little-endian payload.  A nullable column writes
its tag, then a presence byte, which takes the place of the tag that the value
encoder wrote.
-/

namespace Shunter.Bsatn

open Foundation

/-- The errors of the codec, with the data their messages carry. -/
inductive BsatnError where
  | rowLengthMismatch (table : Bytes) (expected got : Nat)
  | typeTagMismatch (column : Bytes) (expected : ValueKind) (got : UInt8)
  | unknownValueTag (tag : UInt8)
  | nullWithoutSchema (column : Option Bytes)
  | valueTooLarge (label : String) (got : Option Nat) (max : Nat)
  | invalidUTF8 (element : Option Nat)
  | invalidBool
  | invalidPresence
  | invalidFloat
  | invalidJSON (cause : JSONError)
  | eof
  | unexpectedEOF
  deriving DecidableEq

def maxValuePayloadBytes : Nat := 64 * 2 ^ 20

def maxArrayStringItems : Nat := 2 ^ 20

def tag (k : ValueKind) : UInt8 := .ofNat k.toNat

/-! ## Values -/

/-- The lengths are those of slices, so they are never negative. -/
def checkedValuePayloadLen (label : String) (n : Nat) : Except BsatnError Nat :=
  if n > maxValuePayloadBytes then
    .error (.valueTooLarge label (some n) maxValuePayloadBytes)
  else .ok (n % 2 ^ 32)

def checkedArrayStringCount (n : Nat) : Except BsatnError Nat :=
  if n > maxArrayStringItems then
    .error (.valueTooLarge "array string count" (some n) maxArrayStringItems)
  else .ok (n % 2 ^ 32)

def validateUTF8StringArray (xs : List Bytes) : Except BsatnError Unit :=
  match xs.findIdx? fun s => !validUTF8 s with
  | some i => .error (.invalidUTF8 (some i))
  | none => .ok ()

/-- The loop of `validateArrayStringPayloadSize`; `used` counts the bytes so far. -/
def arrayStringPayloadLoop (used : Nat) : List Bytes → Except BsatnError Unit
  | [] => .ok ()
  | s :: xs =>
    if used > maxValuePayloadBytes - 4 ∨ s.length > maxValuePayloadBytes - used - 4 then
      .error (.valueTooLarge "array string payload" none maxValuePayloadBytes)
    else arrayStringPayloadLoop (used + (4 + s.length)) xs

def validateArrayStringPayloadSize (xs : List Bytes) : Except BsatnError Unit :=
  arrayStringPayloadLoop 4 xs

def lengthPrefixed (n : Nat) (s : Bytes) : Bytes := littleEndian 4 n ++ s

/-- The switch of `AppendValue`: the payload that follows the tag. -/
def appendPayload (dst : Bytes) : {k : ValueKind} → Payload k → Except BsatnError Bytes
  | .bool, b => .ok (dst ++ [if b then 1 else 0])
  | .int8, x => .ok (dst ++ littleEndian 1 x.toNat)
  | .uint8, x => .ok (dst ++ littleEndian 1 x.toNat)
  | .int16, x => .ok (dst ++ littleEndian 2 x.toNat)
  | .uint16, x => .ok (dst ++ littleEndian 2 x.toNat)
  | .int32, x => .ok (dst ++ littleEndian 4 x.toNat)
  | .uint32, x => .ok (dst ++ littleEndian 4 x.toNat)
  | .int64, x => .ok (dst ++ littleEndian 8 x.toNat)
  | .uint64, x => .ok (dst ++ littleEndian 8 x.toNat)
  | .float32, x => .ok (dst ++ littleEndian 4 x.bits.toNat)
  | .float64, x => .ok (dst ++ littleEndian 8 x.bits.toNat)
  | .string, s =>
    if validUTF8 s then do
      let n ← checkedValuePayloadLen "string" s.length
      .ok (dst ++ lengthPrefixed n s)
    else .error (.invalidUTF8 none)
  | .bytes, b => do
    let n ← checkedValuePayloadLen "bytes" b.length
    .ok (dst ++ lengthPrefixed n b)
  | .int128, (hi, lo) => .ok (dst ++ (littleEndian 8 lo.toNat ++ littleEndian 8 hi.toNat))
  | .uint128, (hi, lo) => .ok (dst ++ (littleEndian 8 lo.toNat ++ littleEndian 8 hi.toNat))
  | .int256, (w₀, w₁, w₂, w₃) =>
    .ok (dst ++ (littleEndian 8 w₃.toNat ++ (littleEndian 8 w₂.toNat ++
      (littleEndian 8 w₁.toNat ++ littleEndian 8 w₀.toNat))))
  | .uint256, (w₀, w₁, w₂, w₃) =>
    .ok (dst ++ (littleEndian 8 w₃.toNat ++ (littleEndian 8 w₂.toNat ++
      (littleEndian 8 w₁.toNat ++ littleEndian 8 w₀.toNat))))
  | .timestamp, x => .ok (dst ++ littleEndian 8 x.toNat)
  | .duration, x => .ok (dst ++ littleEndian 8 x.toNat)
  | .arrayString, xs => do
    let count ← checkedArrayStringCount xs.length
    validateUTF8StringArray xs
    validateArrayStringPayloadSize xs
    .ok (dst ++ (littleEndian 4 count ++
      xs.flatMap fun s => lengthPrefixed (s.length % 2 ^ 32) s))
  | .uuid, u => .ok (dst ++ u.toList)
  | .json, j => do
    let n ← checkedValuePayloadLen "json" j.text.length
    .ok (dst ++ lengthPrefixed n j.text)

/-- On an error the source truncates `dst` again; here an error carries no slice. -/
def appendValue (dst : Bytes) (v : Value) : Except BsatnError Bytes :=
  match v.payload with
  | none => .error (.nullWithoutSchema none)
  | some p => appendPayload (dst ++ [tag v.kind]) p

/-- `EncodedValueSize` of a value that is not null. -/
def encodedPayloadSize : {k : ValueKind} → Payload k → Nat
  | .bool, _ | .int8, _ | .uint8, _ => 2
  | .int16, _ | .uint16, _ => 3
  | .int32, _ | .uint32, _ | .float32, _ => 5
  | .int64, _ | .uint64, _ | .float64, _ => 9
  | .string, s => 1 + 4 + s.length
  | .bytes, b => 1 + 4 + b.length
  | .int128, _ | .uint128, _ => 17
  | .int256, _ | .uint256, _ => 33
  | .timestamp, _ | .duration, _ => 9
  | .arrayString, xs => xs.foldl (fun n s => n + (4 + s.length)) (1 + 4)
  | .uuid, _ => 17
  | .json, j => 1 + 4 + j.text.length

def encodedValueSize (v : Value) : Nat :=
  match v.payload with
  | none => 0
  | some p => encodedPayloadSize p

/-! ## Rows -/

def appendColumnValue (dst : Bytes) (v : Value) (col : ColumnSchema) :
    Except BsatnError Bytes :=
  if v.kind ≠ col.type then .error (.typeTagMismatch col.name col.type (tag v.kind))
  else if !col.nullable then
    if v.isNull then .error (.nullWithoutSchema (some col.name)) else appendValue dst v
  else
    let dst := dst ++ [tag col.type]
    if v.isNull then .ok (dst ++ [0])
    else do
      let out ← appendValue dst v
      -- the tag written by `appendValue` becomes the presence marker
      .ok (out.set dst.length 1)

def appendColumns (dst : Bytes) : ProductValue → List ColumnSchema → Except BsatnError Bytes
  | v :: pv, col :: cols => do
    let dst ← appendColumnValue dst v col
    appendColumns dst pv cols
  | _, _ => .ok dst

def appendProductValueForColumns (dst : Bytes) (pv : ProductValue)
    (columns : List ColumnSchema) : Except BsatnError Bytes :=
  if pv.length ≠ columns.length then
    .error (.rowLengthMismatch [] columns.length pv.length)
  else appendColumns dst pv columns

def encodedColumnSize (v : Value) (col : ColumnSchema) : Except BsatnError Nat :=
  if v.kind ≠ col.type then .error (.typeTagMismatch col.name col.type (tag v.kind))
  else if col.nullable then .ok (if v.isNull then 2 else encodedValueSize v + 1)
  else if v.isNull then .error (.nullWithoutSchema (some col.name))
  else .ok (encodedValueSize v)

def encodedColumnsSize (n : Nat) : ProductValue → List ColumnSchema → Except BsatnError Nat
  | v :: pv, col :: cols => do
    let size ← encodedColumnSize v col
    encodedColumnsSize (n + size) pv cols
  | _, _ => .ok n

def encodedProductValueSizeForColumns (pv : ProductValue) (columns : List ColumnSchema) :
    Except BsatnError Nat :=
  if pv.length ≠ columns.length then
    .error (.rowLengthMismatch [] columns.length pv.length)
  else encodedColumnsSize 0 pv columns

end Shunter.Bsatn
