import Shunter.Bsatn.RowCodec

/-!
# Primitives of the wire format

The fields of a message: numbers, length-prefixed strings and bytes, counted
lists and optional values, each with its writer, its reader and its share of
the size that is computed before a frame is allocated.  A slice beyond the end
of the body is an error of its own here, where the source would panic.
-/

namespace Shunter.Protocol

open Foundation Bsatn

/-- The errors of the wire format, with the data their messages carry. -/
inductive ProtocolError where
  | messageTooLarge (label : String) (length : Nat)
  | sizeOverflows
  | allocationTooLarge (label : String) (size : Nat)
  | outboundMessageLimit (encoded cap : Nat)
  | sqlQueryResultLimit (encoded cap : Nat)
  | rowSizeChanged (before after : Nat)
  | row (cause : BsatnError)
  | invalidString (field : String)
  | nilUpdateStatus
  | invalidCallReducerFlags (flags : UInt8)
  | emptyFrame
  | unknownTag (tag : UInt8)
  | unsupportedTag (tag : UInt8) (version : Nat)
  | uint32Truncated (offset : Nat)
  | uint64Truncated (offset : Nat)
  | stringExceedsRemaining (length remaining : Nat)
  | bytesExceedsRemaining (length remaining : Nat)
  | invalidUTF8 (offset : Nat)
  | fieldTruncated (field : String)
  | tagTruncated (label : String) (offset : Nat)
  | invalidTag (label : String) (tag : UInt8)
  | queryCountExceedsLimit (count limit : Nat)
  | rowListTruncated (got : Nat)
  | countExceedsRemaining (name : String) (count remaining : Nat)
  | rowPrefixTruncated (row : Nat)
  | rowExceedsRemaining (row length remaining : Nat)
  | trailingBytes (name : String) (offset : Nat)
  | outOfRange
  deriving DecidableEq

/-- The lengths are those of slices, so they are never negative. -/
def checkedProtocolLen (label : String) (n : Nat) : Except ProtocolError Nat :=
  if n > 2 ^ 32 - 1 then .error (.messageTooLarge label n) else .ok (n % 2 ^ 32)

def maxProtocolAlloc : Nat := 2 ^ 63 - 1

/-! ## Writing -/

def requireValidWireString (field : String) (s : Bytes) : Except ProtocolError Unit :=
  if validUTF8 s then .ok () else .error (.invalidString field)

def requireValidWireStrings (field : Nat → String) : Nat → List Bytes → Except ProtocolError Unit
  | _, [] => .ok ()
  | i, s :: l => do
    requireValidWireString (field i) s
    requireValidWireStrings field (i + 1) l

def writeUint32 (v : UInt32) : Bytes := littleEndian 4 v.toNat

def writeUint64 (v : UInt64) : Bytes := littleEndian 8 v.toNat

def writeInt64 (v : Int64) : Bytes := writeUint64 v.toUInt64

def writeString (s : Bytes) : Except ProtocolError Bytes := do
  let n ← checkedProtocolLen "string" s.length
  .ok (lengthPrefixed n s)

def writeBytes (b : Bytes) : Except ProtocolError Bytes := do
  let n ← checkedProtocolLen "bytes" b.length
  .ok (lengthPrefixed n b)

def writeItems {α : Type} (write : α → Except ProtocolError Bytes) :
    List α → Except ProtocolError Bytes
  | [] => .ok []
  | a :: l => do
    let item ← write a
    let items ← writeItems write l
    .ok (item ++ items)

def writeCounted {α : Type} (label : String) (write : α → Except ProtocolError Bytes)
    (l : List α) : Except ProtocolError Bytes := do
  let count ← checkedProtocolLen label l.length
  let items ← writeItems write l
  .ok (littleEndian 4 count ++ items)

def writeOptionalUint32 : Option UInt32 → Bytes
  | none => [0]
  | some v => 1 :: writeUint32 v

def writeOptionalString : Option Bytes → Except ProtocolError Bytes
  | none => .ok [0]
  | some s => do
    let text ← writeString s
    .ok (1 :: text)

/-! ## Sizes -/

/-- `protocolSizer`, whose sum is an `int`: an overflow is kept, a length that does not fit
replaces what was there. -/
structure Sizer where
  n : Nat
  err : Option ProtocolError
  bound : n ≤ maxProtocolAlloc

namespace Sizer

def start : Sizer := ⟨0, none, Nat.zero_le _⟩

def add (n : Nat) (s : Sizer) : Sizer :=
  match s.err with
  | some _ => s
  | none =>
    if h : s.n + n ≤ maxProtocolAlloc then ⟨s.n + n, none, h⟩
    else { s with err := some .sizeOverflows }

def addChecked (label : String) (length share : Nat) (s : Sizer) : Sizer :=
  match checkedProtocolLen label length with
  | .error e => { s with err := some e }
  | .ok _ => s.add share

def string (v : Bytes) : Sizer → Sizer := addChecked "string" v.length (4 + v.length)

def bytes (v : Bytes) : Sizer → Sizer := addChecked "bytes" v.length (4 + v.length)

def count (label : String) (n : Nat) : Sizer → Sizer := addChecked label n 4

def optionalString (v : Option Bytes) (s : Sizer) : Sizer :=
  match v with
  | none => s.add 1
  | some v => (s.add 1).string v

def optionalUint32 (v : Option UInt32) (s : Sizer) : Sizer :=
  match v with
  | none => s.add 1
  | some _ => (s.add 1).add 4

def size (s : Sizer) : Except ProtocolError Nat :=
  match s.err with
  | some e => .error e
  | none => .ok s.n

end Sizer

/-! ## Reading -/

/-- A reader of a body of `size` bytes; the offset is the size without what remains. -/
abbrev WireReader (α : Type) := Nat → Reader ProtocolError α

def slice (n : Nat) : Reader ProtocolError (List.Vector UInt8 n) := fun x =>
  if h : n ≤ x.length then .ok (⟨x.take n, by rw [List.length_take]; omega⟩, x.drop n)
  else .error .outOfRange

def readFixed (n : Nat) (short : Bytes → ProtocolError) :
    Reader ProtocolError (List.Vector UInt8 n) := do
  let x ← get
  if x.length < n then throw (short x) else slice n

def readUint32 : WireReader UInt32 := fun size => do
  let raw ← readFixed 4 fun x => .uint32Truncated (size - x.length)
  pure (.ofNat (littleEndianValue raw.toList))

def readUint64 : WireReader UInt64 := fun size => do
  let raw ← readFixed 8 fun x => .uint64Truncated (size - x.length)
  pure (.ofNat (littleEndianValue raw.toList))

def readInt64 : WireReader Int64 := fun size => do
  let v ← readUint64 size
  pure v.toInt64

def readPayload (exceeds : Nat → Nat → ProtocolError) (n : Nat) : Reader ProtocolError Bytes := do
  let x ← get
  if n > x.length then throw (exceeds n x.length)
  else do
    let raw ← slice n
    pure raw.toList

def checkUTF8 (size : Nat) (raw : Bytes) : Reader ProtocolError Bytes := do
  let x ← get
  if validUTF8 raw then pure raw else throw (.invalidUTF8 (size - x.length - raw.length))

def readString : WireReader Bytes := fun size => do
  let n ← readUint32 size
  let raw ← readPayload .stringExceedsRemaining n.toNat
  checkUTF8 size raw

def readBytes : WireReader Bytes := fun size => do
  let n ← readUint32 size
  readPayload .bytesExceedsRemaining n.toNat

/-- The offset is never behind the end of the body, since it stands for the bytes read. -/
def requireCountFitsRemaining (name : String) (count remaining minPerItem : Nat) :
    Except ProtocolError Unit :=
  if count > remaining / minPerItem then .error (.countExceedsRemaining name count remaining)
  else .ok ()

def readItems {α : Type} (name : String) (minPerItem : Nat) (read : Reader ProtocolError α)
    (count : UInt32) : Reader ProtocolError (List α) := do
  let x ← get
  requireCountFitsRemaining name count.toNat x.length minPerItem
  Reader.many read count.toNat

def readByte (short : Bytes → ProtocolError) : Reader ProtocolError UInt8 := do
  let raw ← readFixed 1 short
  pure raw.head

def presenceOfTag (label : String) : UInt8 → Reader ProtocolError Bool
  | 0 => pure false
  | 1 => pure true
  | b => throw (.invalidTag label b)

def readOptionalPresenceTag (label : String) : WireReader Bool := fun size => do
  let tag ← readByte fun x => .tagTruncated label (size - x.length)
  presenceOfTag label tag

def readPresent {α : Type} (read : Reader ProtocolError α) :
    Bool → Reader ProtocolError (Option α)
  | false => pure none
  | true => do
    let v ← read
    pure (some v)

def readOptional {α : Type} (label : String) (read : WireReader α) : WireReader (Option α) :=
  fun size => do
    let present ← readOptionalPresenceTag label size
    readPresent (read size) present

def readOptionalUint32 : WireReader (Option UInt32) := readOptional "optional uint32" readUint32

def readOptionalString : WireReader (Option Bytes) := readOptional "optional string" readString

def requireFullyConsumed (name : String) (size : Nat) (rest : Bytes) : Except ProtocolError Unit :=
  if rest ≠ [] then .error (.trailingBytes name (size - rest.length)) else .ok ()

/-- The shape of every message decoder: the fields, and then nothing more. -/
def decodeBody {α : Type} (name : String) (fields : WireReader α) (body : Bytes) :
    Except ProtocolError α := do
  let (m, rest) ← fields body.length body
  requireFullyConsumed name body.length rest
  .ok m

end Shunter.Protocol
