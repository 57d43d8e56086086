import Shunter.Bsatn.RowCodec
import Shunter.Schema.Builder
import Shunter.Store.Commit

/-!
# The changeset payload of a log record

A version byte and the tables in the order of their identifiers, each with its
inserted and its deleted rows.  The durability worker validates a changeset by
computing its size only; encoding also runs the row encoder.
-/

namespace Shunter

open Foundation Bsatn

inductive ChangesetError where
  | countTooLarge (label : String) (n : Nat)
  | rowTooLarge (size max : Nat)
  | rowTooLong (size : Nat)
  | recordTooLarge (size max : Nat)
  | recordTooLong (size : Nat)
  | allocation (size max : Nat)
  | rowSizeChanged (announced written : Nat)
  | encodeRow (cause : BsatnError)
  | tooShort
  | unsupportedVersion (version : UInt8)
  | countExceedsRemaining (name : String) (count remaining : Nat)
  | truncated
  | duplicateTable (id : TableID)
  | unknownTable (id : TableID)
  | truncatedRowLength (label : String) (table : TableID)
  | truncatedRowData (label : String) (table : TableID)
  | decodedRowTooLarge (label : String) (table : TableID) (size max : Nat)
  | decodeRow (label : String) (table : TableID) (cause : BsatnError)
  | trailingBytes
  deriving DecidableEq

def changesetVersion : UInt8 := 1

def changesetUint32Bytes : Nat := 4

/-! ## Limits -/

def formatMaxRecordPayloadBytes : Nat := 64 * 2 ^ 20

def formatMaxRowBytes : Nat := 8 * 2 ^ 20

/-- The options that the codec reads; zero would switch a limit off. -/
structure CodecLimits where
  maxRowBytes : Nat
  maxRecordPayloadBytes : Nat

/-- The part of `validateCommitLogOptions` that concerns the codec. -/
def CodecLimits.accepted (l : CodecLimits) : Bool :=
  0 < l.maxRecordPayloadBytes && l.maxRecordPayloadBytes ≤ formatMaxRecordPayloadBytes &&
    0 < l.maxRowBytes && l.maxRowBytes ≤ formatMaxRowBytes

def defaultCodecLimits : CodecLimits := ⟨formatMaxRowBytes, formatMaxRecordPayloadBytes⟩

def checkedChangesetCount (label : String) (n : Nat) : Except ChangesetError Nat :=
  if n > 2 ^ 32 - 1 then .error (.countTooLarge label n) else .ok n

def validateRowPayloadLen (rowLen maxRowBytes : Nat) : Except ChangesetError Unit :=
  if rowLen > 2 ^ 32 - 1 then .error (.rowTooLong rowLen)
  else if maxRowBytes > 0 ∧ rowLen > maxRowBytes then .error (.rowTooLarge rowLen maxRowBytes)
  else .ok ()

def validateRecordPayloadLen (payloadLen maxRecordPayloadBytes : Nat) :
    Except ChangesetError Unit :=
  if payloadLen > 2 ^ 32 - 1 then .error (.recordTooLong payloadLen)
  else if maxRecordPayloadBytes > 0 ∧ payloadLen > maxRecordPayloadBytes then
    .error (.recordTooLarge payloadLen maxRecordPayloadBytes)
  else .ok ()

def liftRow {α : Type} : Except BsatnError α → Except ChangesetError α
  | .error e => .error (.encodeRow e)
  | .ok a => .ok a

/-! ## Sizes -/

def encodedRowSize (row : ProductValue) (ts : TableSchema) (maxRowBytes : Nat) :
    Except ChangesetError Nat := do
  let rowLen ← liftRow (encodedProductValueSizeForColumns row ts.columns)
  validateRowPayloadLen rowLen maxRowBytes
  .ok rowLen

def rowsSizeLoop (ts : TableSchema) (maxRowBytes : Nat) :
    Nat → List ProductValue → Except ChangesetError Nat
  | size, [] => .ok size
  | size, row :: rows => do
    let rowLen ← encodedRowSize row ts maxRowBytes
    rowsSizeLoop ts maxRowBytes (size + (4 + rowLen)) rows

def encodedChangesetRowsSize (rows : List ProductValue) (ts : TableSchema) (maxRowBytes : Nat) :
    Except ChangesetError Nat := do
  let _ ← checkedChangesetCount "row count" rows.length
  rowsSizeLoop ts maxRowBytes 4 rows

/-- The sizes stay far below `2 ^ 64`: each round ends with a check against the record limit. -/
def tablesSizeLoop (limits : CodecLimits) :
    Nat → List (TableID × TableChangeset) → Except ChangesetError Nat
  | size, [] => .ok size
  | size, (_, tc) :: entries => do
    let insertSize ← encodedChangesetRowsSize tc.inserts tc.schema limits.maxRowBytes
    let deleteSize ← encodedChangesetRowsSize tc.deletes tc.schema limits.maxRowBytes
    let size := size + 4 + (insertSize + deleteSize)
    validateRecordPayloadLen size limits.maxRecordPayloadBytes
    tablesSizeLoop limits size entries

def encodedChangesetSizeWithLimits (c : Changeset) (limits : CodecLimits) :
    Except ChangesetError Nat := do
  let _ ← checkedChangesetCount "table count" c.tables.toList.length
  let size ← tablesSizeLoop limits (1 + 4) c.tables.toList
  if size > 2 ^ 63 - 1 then .error (.allocation size (2 ^ 63 - 1)) else .ok size

/-- `DurabilityWorker.ValidateChangeset`; no error is the nil of the source. -/
def validateChangeset (limits : CodecLimits) (c : Changeset) : Option ChangesetError :=
  match encodedChangesetSizeWithLimits c limits with
  | .error e => some e
  | .ok _ => none

/-! ## Encoding -/

def appendUint32LE (out : Bytes) (v : Nat) : Bytes := out ++ littleEndian 4 v

def appendRowsLoop (ts : TableSchema) (maxRowBytes : Nat) :
    Bytes → List ProductValue → Except ChangesetError Bytes
  | out, [] => .ok out
  | out, row :: rows => do
    let rowLen ← encodedRowSize row ts maxRowBytes
    let before := appendUint32LE out rowLen
    let out ← liftRow (appendProductValueForColumns before row ts.columns)
    if out.length - before.length ≠ rowLen then
      .error (.rowSizeChanged rowLen (out.length - before.length))
    else appendRowsLoop ts maxRowBytes out rows

def appendChangesetRows (out : Bytes) (rows : List ProductValue) (ts : TableSchema)
    (maxRowBytes : Nat) : Except ChangesetError Bytes := do
  let count ← checkedChangesetCount "row count" rows.length
  appendRowsLoop ts maxRowBytes (appendUint32LE out count) rows

def appendTablesLoop (limits : CodecLimits) :
    Bytes → List (TableID × TableChangeset) → Except ChangesetError Bytes
  | out, [] => .ok out
  | out, (id, tc) :: entries => do
    let out ← appendChangesetRows (appendUint32LE out id) tc.inserts tc.schema
      limits.maxRowBytes
    validateRecordPayloadLen out.length limits.maxRecordPayloadBytes
    let out ← appendChangesetRows out tc.deletes tc.schema limits.maxRowBytes
    validateRecordPayloadLen out.length limits.maxRecordPayloadBytes
    appendTablesLoop limits out entries

/-- The tables are written in the order of their identifiers, which is that of the map. -/
def encodeChangesetWithLimits (c : Changeset) (limits : CodecLimits) :
    Except ChangesetError Bytes := do
  let _ ← encodedChangesetSizeWithLimits c limits
  let tableCount ← checkedChangesetCount "table count" c.tables.toList.length
  appendTablesLoop limits (appendUint32LE [changesetVersion] tableCount) c.tables.toList

/-! ## Decoding -/

abbrev ChangesetReader := Reader ChangesetError

def readUint32 (short : ChangesetError) : ChangesetReader Nat := do
  let buf ← Reader.takeBytes (fun _ => short) 4
  pure (littleEndianValue buf)

def requireChangesetCountFitsRemaining (name : String) (count minItemBytes : Nat) :
    ChangesetReader Unit := fun data =>
  if count * minItemBytes > data.length then
    .error (.countExceedsRemaining name count data.length)
  else .ok ((), data)

/-- The label and the table are those of the error that the caller wraps around. -/
def decodeRow (label : String) (ts : TableSchema) (id : TableID) (maxRowBytes : Nat) :
    ChangesetReader ProductValue := do
  let rowLen ← readUint32 (.truncatedRowLength label id)
  if maxRowBytes > 0 ∧ rowLen > maxRowBytes then
    throw (.decodedRowTooLarge label id rowLen maxRowBytes)
  else
    let rowData ← Reader.takeBytes (fun _ => .truncatedRowData label id) rowLen
    match decodeProductValueFromBytes rowData ts with
    | .error e => throw (.decodeRow label id e)
    | .ok pv => pure pv

def decodeRows (label : String) (ts : TableSchema) (id : TableID) (maxRowBytes : Nat) :
    ChangesetReader (List ProductValue) := do
  let count ← readUint32 .truncated
  requireChangesetCountFitsRemaining (label ++ " count") count changesetUint32Bytes
  Reader.many (decodeRow label ts id maxRowBytes) count

def decodeTableChangeset (reg : SchemaRegistry) (maxRowBytes : Nat)
    (tables : GoMap TableID TableChangeset) : ChangesetReader TableChangeset := do
  let tableID ← readUint32 .truncated
  if tables.contains tableID then throw (.duplicateTable tableID)
  else
    match reg.table tableID with
    | none => throw (.unknownTable tableID)
    | some ts =>
      let inserts ← decodeRows "insert" ts tableID maxRowBytes
      let deletes ← decodeRows "delete" ts tableID maxRowBytes
      pure ⟨tableID, ts.name, ts, inserts, deletes⟩

def decodeTablesLoop (reg : SchemaRegistry) (maxRowBytes : Nat) :
    Nat → GoMap TableID TableChangeset → ChangesetReader (GoMap TableID TableChangeset)
  | 0, tables => pure tables
  | count + 1, tables => do
    let tc ← decodeTableChangeset reg maxRowBytes tables
    decodeTablesLoop reg maxRowBytes count (tables.insert tc.tableID tc)

def decodeTables (reg : SchemaRegistry) (maxRowBytes : Nat) :
    ChangesetReader (GoMap TableID TableChangeset) := do
  let tableCount ← readUint32 .tooShort
  requireChangesetCountFitsRemaining "table count" tableCount changesetUint32Bytes
  decodeTablesLoop reg maxRowBytes tableCount ∅

/-- The transaction is not part of the payload; it stands in the record's header. -/
def decodeChangesetWithMax (data : Bytes) (reg : SchemaRegistry) (maxRowBytes : Nat) :
    Except ChangesetError Changeset :=
  match data with
  | [] => .error .tooShort
  | version :: rest =>
    if data.length < 5 then .error .tooShort
    else if version ≠ changesetVersion then .error (.unsupportedVersion version)
    else
      match decodeTables reg maxRowBytes rest with
      | .error e => .error e
      | .ok (tables, []) => .ok ⟨0, tables⟩
      | .ok (_, _ :: _) => .error .trailingBytes

def decodeChangeset (data : Bytes) (reg : SchemaRegistry) : Except ChangesetError Changeset :=
  decodeChangesetWithMax data reg defaultCodecLimits.maxRowBytes

end Shunter
