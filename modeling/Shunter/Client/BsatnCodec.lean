import Shunter.Client.JSValue
import Shunter.Client.RowCache

/-!
# The row codec of the TypeScript client

The decoder walks over the remaining bytes of the row; the encoder checks each
value against its column.
-/

namespace Shunter.Client

open Foundation Reader

/-- The errors that the codec throws: their codes and the data that goes with them. -/
inductive CodecError where
  | truncatedColumn (column : Bytes)
  | columnTagMismatch (column : Bytes) (expected : ValueKind) (receivedTag : UInt8)
  | truncatedPresence (column : Bytes)
  | invalidPresence (column : Bytes) (presence : UInt8)
  | truncatedPayload (column : Bytes)
  | invalidBool (column : Bytes) (value : UInt8)
  | invalidUTF8 (column : Bytes)
  | arrayCountExceedsRemaining (column : Bytes) (count remainingBytes : Nat)
  | invalidJSON (column : Bytes)
  | trailingBytes (expectedColumns : Nat)
  | valueCountMismatch (expectedColumns receivedValues : Nat)
  | nonNullableNull (column : Bytes)
  | valueTypeMismatch (column : Bytes) (kind : ValueKind) (expected : String)
  | notUTF8 (label : Bytes)
  | malformedFrame (label : Bytes)
  | expectedBinary (label : Bytes)
  deriving DecidableEq

structure BsatnColumn where
  name : Bytes
  kind : ValueKind
  nullable : Bool

def bsatnTags : ValueKind → UInt8
  | .bool => 0 | .int8 => 1 | .uint8 => 2 | .int16 => 3 | .uint16 => 4 | .int32 => 5
  | .uint32 => 6 | .int64 => 7 | .uint64 => 8 | .float32 => 9 | .float64 => 10
  | .string => 11 | .bytes => 12 | .int128 => 13 | .uint128 => 14 | .int256 => 15
  | .uint256 => 16 | .timestamp => 17 | .arrayString => 18 | .uuid => 19
  | .duration => 20 | .json => 21

def text (s : String) : Bytes := s.toUTF8.data.toList

def bsatnLabel (column : Bytes) : Bytes := text "BSATN " ++ column

variable {ω : Type} (json : JSONOps ω)

/-! ## Decoding -/

abbrev JSReader (α : Type) := Reader CodecError α

def assertBsatnAvailable (length : Nat) (column : Bytes) : JSReader Bytes :=
  takeBytes (fun _ => .truncatedPayload column) length

def readUint32LE (label : Bytes) : JSReader Nat := do
  let raw ← takeBytes (fun _ => .malformedFrame label) 4
  pure (littleEndianValue raw)

def readBytes (label : Bytes) : JSReader Bytes := do
  let length ← readUint32LE (label ++ text " length")
  takeBytes (fun _ => .malformedFrame label) length

def readBsatnString (column : Bytes) : JSReader JSString := do
  let raw ← readBytes (bsatnLabel column)
  match decodeText raw with
  | some value => pure value
  | none => throw (.invalidUTF8 column)

def readBsatnItems (column : Bytes) (i : Nat) : Nat → JSReader (List JSString)
  | 0 => pure []
  | n + 1 => do
    let value ← readBsatnString (column ++ text ("[" ++ toString i ++ "]"))
    let values ← readBsatnItems column (i + 1) n
    pure (value :: values)

def readBsatnStringArray (column : Bytes) : JSReader (List JSString) := do
  let count ← readUint32LE (bsatnLabel column ++ text " array count")
  let remaining ← get
  if count > remaining.length / 4 then
    throw (.arrayCountExceedsRemaining column count remaining.length)
  else readBsatnItems column 0 count

def ofChars (cs : List Char) : JSString := cs.map Char.toNat

def readBsatnUUID (column : Bytes) : JSReader JSString := do
  let raw ← assertBsatnAvailable 16 column
  let hex := bytesKey raw
  pure (ofChars (hex.take 8 ++ '-' :: (hex.drop 8).take 4 ++ '-' :: (hex.drop 12).take 4 ++
    '-' :: (hex.drop 16).take 4 ++ '-' :: hex.drop 20))

/-- `getBigUint64` at word `i`. -/
def bigUint64At (raw : Bytes) (i : Nat) : Nat := littleEndianValue ((raw.drop (8 * i)).take 8)

def signedValue (n : Nat) (raw : Nat) : Int := (BitVec.ofNat (8 * n) raw).toInt

def readBsatnWideInt (words : Nat) (signed : Bool) (column : Bytes) : JSReader Int := do
  let raw ← assertBsatnAvailable (words * 8) column
  let top := bigUint64At raw (words - 1)
  let value : Int := (if signed then signedValue 8 top else top) * 2 ^ ((words - 1) * 64)
  pure ((List.range (words - 1)).foldl
    (fun value i => value + bigUint64At raw i * 2 ^ (i * 64)) value)

def readSigned (n : Nat) (column : Bytes) : JSReader Int := do
  let raw ← assertBsatnAvailable n column
  pure (signedValue n (littleEndianValue raw))

def readUnsigned (n : Nat) (column : Bytes) : JSReader Nat := do
  let raw ← assertBsatnAvailable n column
  pure (littleEndianValue raw)

def readBool (column : Bytes) : JSReader Bool := do
  let raw ← assertBsatnAvailable 1 column
  if raw = [0] then pure false
  else if raw = [1] then pure true
  else throw (.invalidBool column (raw.headD 0))

def readBsatnJSON (column : Bytes) : JSReader (JSValue ω) := do
  let rawJSON ← readBsatnString column
  match json.parse rawJSON with
  | some value => pure value
  | none => throw (.invalidJSON column)

def readBsatnPayload (kind : ValueKind) (column : Bytes) : JSReader (JSValue ω) :=
  let int (n : Nat) := do pure (.number (.ofInt (← readSigned n column)))
  let uint (n : Nat) := do pure (.number (.ofInt (← readUnsigned n column)))
  let bigInt64 := do pure (.bigint (← readSigned 8 column))
  let wide (words : Nat) (signed : Bool) := do
    pure (.bigint (← readBsatnWideInt words signed column))
  match kind with
  | .bool => do pure (.boolean (← readBool column))
  | .int8 => int 1
  | .uint8 => uint 1
  | .int16 => int 2
  | .uint16 => uint 2
  | .int32 => int 4
  | .uint32 => uint 4
  | .int64 | .timestamp | .duration => bigInt64
  | .uint64 => do pure (.bigint (← readUnsigned 8 column))
  | .float32 => do pure (.number (JSNumber.float32.read (← readUnsigned 4 column)))
  | .float64 => do pure (.number (JSNumber.float64.read (← readUnsigned 8 column)))
  | .string => do pure (.string (← readBsatnString column))
  | .bytes => do pure (.bytes (← readBytes (bsatnLabel column)))
  | .int128 => wide 2 true
  | .uint128 => wide 2 false
  | .int256 => wide 4 true
  | .uint256 => wide 4 false
  | .arrayString => do pure (.strings (← readBsatnStringArray column))
  | .uuid => do pure (.string (← readBsatnUUID column))
  | .json => readBsatnJSON json column

def readBsatnColumn (column : BsatnColumn) : JSReader (JSValue ω) := do
  let received ← takeBytes (fun _ => .truncatedColumn column.name) 1
  if received ≠ [bsatnTags column.kind] then
    throw (.columnTagMismatch column.name column.kind (received.headD 0))
  else if !column.nullable then readBsatnPayload json column.kind column.name
  else do
    let presence ← takeBytes (fun _ => .truncatedPresence column.name) 1
    if presence = [0] then pure .null
    else if presence = [1] then readBsatnPayload json column.kind column.name
    else throw (.invalidPresence column.name (presence.headD 0))

def readBsatnColumns : List BsatnColumn → JSReader (List (JSValue ω))
  | [] => pure []
  | column :: columns => do
    let value ← readBsatnColumn json column
    let values ← readBsatnColumns columns
    pure (value :: values)

/-- The values that are handed to `buildRow`. -/
def decodeBsatnProduct (row : Bytes) (columns : List BsatnColumn) :
    Except CodecError (List (JSValue ω)) := do
  let (values, rest) ← readBsatnColumns json columns row
  if rest ≠ [] then .error (.trailingBytes columns.length) else .ok values

/-! ## Encoding -/

def invalidBsatnValue {α : Type} (column : BsatnColumn) (expected : String) :
    Except CodecError α :=
  .error (.valueTypeMismatch column.name column.kind expected)

def asInteger (value : JSValue ω) (column : BsatnColumn) (min max : Int) :
    Except CodecError Int :=
  let refuse := invalidBsatnValue column
    ("integer in [" ++ toString min ++ ", " ++ toString max ++ "]")
  match value with
  | .number n =>
    match n.toInteger? with
    | some i => if i < min ∨ i > max then refuse else .ok i
    | none => refuse
  | _ => refuse

def asNumber (value : JSValue ω) (column : BsatnColumn) : Except CodecError JSNumber :=
  match value with
  | .number n => if n = .nan then invalidBsatnValue column "number" else .ok n
  | _ => invalidBsatnValue column "number"

/-- The number that decimal digits spell; none for other text and for no digits. -/
def decimal? (digits : JSString) : Option Nat :=
  if digits ≠ [] ∧ digits.all (fun d => 48 ≤ d && d ≤ 57) then
    some (digits.foldl (fun n d => 10 * n + (d - 48)) 0)
  else none

def maxSafeInteger : Nat := 2 ^ 53 - 1

def asBigInt (value : JSValue ω) (column : BsatnColumn) : Except CodecError Int :=
  let orRefuse : Option Int → Except CodecError Int
    | some n => .ok n
    | none => invalidBsatnValue column "bigint"
  match value with
  | .bigint n => .ok n
  | .number n => orRefuse (n.toInteger?.filter fun i => i.natAbs ≤ maxSafeInteger)
  | .string (45 :: digits) => orRefuse ((decimal? digits).map fun n => -(n : Int))
  | .string digits => orRefuse ((decimal? digits).map Int.ofNat)
  | _ => invalidBsatnValue column "bigint"

def asBigIntInRange (value : JSValue ω) (column : BsatnColumn) (min max : Int)
    (expected : String) : Except CodecError Int := do
  let n ← asBigInt value column
  if n < min ∨ n > max then invalidBsatnValue column expected else .ok n

def asString (value : JSValue ω) (column : BsatnColumn) : Except CodecError JSString :=
  match value with
  | .string s => .ok s
  | _ => invalidBsatnValue column "string"

def utf8Bytes (value : JSString) (label : Bytes) : Except CodecError Bytes :=
  if isWellFormedUTF16 value then .ok (encodeText value) else .error (.notUTF8 label)

/-- `bytes` stands for every binary value: a typed array, a buffer or a view. -/
def binaryBytes (value : JSValue ω) (label : Bytes) : Except CodecError Bytes :=
  match value with
  | .bytes b => .ok b
  | _ => .error (.expectedBinary label)

def writeUint32LE (n : Nat) : Bytes := littleEndian 4 (n % 2 ^ 32)

def encodeLengthPrefixedBytes (bytes : Bytes) : Bytes := writeUint32LE bytes.length ++ bytes

def encodeStringArray (value : JSValue ω) (column : BsatnColumn) : Except CodecError Bytes :=
  match value with
  | .strings items => do
    let encoded ← items.mapM fun item => utf8Bytes item (bsatnLabel column.name)
    .ok (writeUint32LE encoded.length ++ encoded.flatMap encodeLengthPrefixedBytes)
  | _ => invalidBsatnValue column "string[]"

def hexValue? (c : Nat) : Option Nat :=
  if 48 ≤ c ∧ c ≤ 57 then some (c - 48)
  else if 97 ≤ c ∧ c ≤ 102 then some (c - 87)
  else if 65 ≤ c ∧ c ≤ 70 then some (c - 55)
  else none

def hexBytes : List Nat → Bytes
  | high :: low :: digits => .ofNat (16 * high + low) :: hexBytes digits
  | _ => []

def encodeUUID (value : JSValue ω) (column : BsatnColumn) : Except CodecError Bytes := do
  let text ← asString value column
  match (text.filter (· ≠ 45)).mapM hexValue? with
  | some digits =>
    if digits.length = 32 then .ok (hexBytes digits)
    else invalidBsatnValue column "UUID string"
  | none => invalidBsatnValue column "UUID string"

def encodeWideInteger (value : JSValue ω) (column : BsatnColumn) (byteLength : Nat)
    (signed : Bool) : Except CodecError Bytes := do
  let bits := byteLength * 8
  let max : Int := if signed then 2 ^ (bits - 1) - 1 else 2 ^ bits - 1
  let min : Int := if signed then -2 ^ (bits - 1) else 0
  let kind := if signed then "signed" else "unsigned"
  let n ← asBigIntInRange value column min max (toString bits ++ "-bit " ++ kind ++ " integer")
  let n := (if n < 0 then 2 ^ bits + n else n).toNat
  .ok ((List.range byteLength).map fun i => .ofNat (n / 2 ^ (i * 8) % 256))

/-- The `n` bytes that the setters of `DataView` write, lowest first. -/
def writeInteger (n : Nat) (value : Int) : Bytes := littleEndian n (value % 2 ^ (8 * n)).toNat

def encodeBsatnPayload (value : JSValue ω) (column : BsatnColumn) : Except CodecError Bytes :=
  let integer (n : Nat) (min max : Int) := do
    .ok (writeInteger n (← asInteger value column min max))
  let bigInt64 := do
    .ok (writeInteger 8 (← asBigIntInRange value column (-2 ^ 63) (2 ^ 63 - 1)
      "64-bit signed integer"))
  match column.kind with
  | .bool =>
    match value with
    | .boolean b => .ok [if b then 1 else 0]
    | _ => invalidBsatnValue column "boolean"
  | .int8 => integer 1 (-0x80) 0x7f
  | .uint8 => integer 1 0 0xff
  | .int16 => integer 2 (-0x8000) 0x7fff
  | .uint16 => integer 2 0 0xffff
  | .int32 => integer 4 (-0x80000000) 0x7fffffff
  | .uint32 => integer 4 0 0xffffffff
  | .int64 | .timestamp | .duration => bigInt64
  | .uint64 => do
    .ok (writeInteger 8 (← asBigIntInRange value column 0 (2 ^ 64 - 1)
      "64-bit unsigned integer"))
  | .float32 => do .ok (littleEndian 4 (JSNumber.float32.write (← asNumber value column)))
  | .float64 => do .ok (littleEndian 8 (JSNumber.float64.write (← asNumber value column)))
  | .string => do
    let raw ← utf8Bytes (← asString value column) (bsatnLabel column.name)
    .ok (encodeLengthPrefixedBytes raw)
  | .bytes => do .ok (encodeLengthPrefixedBytes (← binaryBytes value (bsatnLabel column.name)))
  | .int128 => encodeWideInteger value column 16 true
  | .uint128 => encodeWideInteger value column 16 false
  | .int256 => encodeWideInteger value column 32 true
  | .uint256 => encodeWideInteger value column 32 false
  | .arrayString => encodeStringArray value column
  | .uuid => encodeUUID value column
  | .json =>
    match json.stringify value with
    | some s => do .ok (encodeLengthPrefixedBytes (← utf8Bytes s (bsatnLabel column.name)))
    | none => invalidBsatnValue column "JSON value"

/-- `value === null || value === undefined`. -/
def isNullish : JSValue ω → Bool
  | .null | .undefined => true
  | _ => false

def encodeBsatnColumn (value : JSValue ω) (column : BsatnColumn) : Except CodecError Bytes :=
  let tag := bsatnTags column.kind
  if column.nullable then
    if isNullish value then .ok [tag, 0]
    else do .ok (tag :: 1 :: (← encodeBsatnPayload json value column))
  else if isNullish value then .error (.nonNullableNull column.name)
  else do .ok (tag :: (← encodeBsatnPayload json value column))

def encodeBsatnColumns : List (JSValue ω) → List BsatnColumn → Except CodecError Bytes
  | value :: values, column :: columns => do
    let chunk ← encodeBsatnColumn json value column
    let chunks ← encodeBsatnColumns values columns
    .ok (chunk ++ chunks)
  | _, _ => .ok []

def encodeBsatnProduct (values : List (JSValue ω)) (columns : List BsatnColumn) :
    Except CodecError Bytes :=
  if values.length ≠ columns.length then
    .error (.valueCountMismatch columns.length values.length)
  else encodeBsatnColumns json values columns

end Shunter.Client
