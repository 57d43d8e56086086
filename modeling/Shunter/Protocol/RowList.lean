import Shunter.Protocol.Wire

/-!
# Row lists

A row list is a count and the rows, each behind its length.  One writer takes
encoded rows, the other encodes rows on the way and checks the length that was
computed beforehand.
-/

namespace Shunter.Protocol

open Foundation Bsatn

/-! ## Writing -/

def rowListSize (size : Nat) : List Bytes → Except ProtocolError Nat
  | [] => .ok size
  | r :: rows => do
    let _ ← checkedProtocolLen "rowlist row" r.length
    let size := size + (4 + r.length)
    if size > maxProtocolAlloc then .error (.allocationTooLarge "rowlist payload" size)
    else rowListSize size rows

def encodeRowListChecked (rows : List Bytes) : Except ProtocolError Bytes := do
  let count ← checkedProtocolLen "rowlist row count" rows.length
  let _ ← rowListSize 4 rows
  .ok (littleEndian 4 count ++ rows.flatMap fun r => lengthPrefixed (r.length % 2 ^ 32) r)

def checkResultLimit (maxBytes size : Nat) : Except ProtocolError Unit :=
  if 0 < maxBytes ∧ size > maxBytes then .error (.sqlQueryResultLimit size maxBytes) else .ok ()

def productRowSizes (rowSize : ProductValue → Except BsatnError Nat) (maxBytes : Nat) :
    Nat → List ProductValue → Except ProtocolError (List Nat)
  | _, [] => .ok []
  | size, row :: rows => do
    let n ← (rowSize row).mapError .row
    let rowLen ← checkedProtocolLen "product row" n
    let size := size + (4 + n)
    checkResultLimit maxBytes size
    if size > maxProtocolAlloc then .error (.allocationTooLarge "encoded product rows" size)
    else do
      let sizes ← productRowSizes rowSize maxBytes size rows
      .ok (rowLen :: sizes)

def appendProductRows (appendRow : Bytes → ProductValue → Except BsatnError Bytes) :
    Bytes → List ProductValue → List Nat → Except ProtocolError Bytes
  | out, row :: rows, size :: sizes => do
    let out := out ++ littleEndian 4 size
    let next ← (appendRow out row).mapError .row
    if next.length - out.length ≠ size then
      .error (.rowSizeChanged size (next.length - out.length))
    else appendProductRows appendRow next rows sizes
  | out, _, _ => .ok out

def encodeProductRowsWith (rows : List ProductValue)
    (rowSize : ProductValue → Except BsatnError Nat)
    (appendRow : Bytes → ProductValue → Except BsatnError Bytes) (maxBytes : Nat) :
    Except ProtocolError Bytes := do
  let count ← checkedProtocolLen "product row count" rows.length
  checkResultLimit maxBytes 4
  let sizes ← productRowSizes rowSize maxBytes 4 rows
  appendProductRows appendRow (littleEndian 4 count) rows sizes

/-- `bsatn.AppendProductValue`: the values one after the other, with no column list. -/
def appendProductValue (dst : Bytes) : ProductValue → Except BsatnError Bytes
  | [] => .ok dst
  | v :: pv => do
    let dst ← appendValue dst v
    appendProductValue dst pv

def encodedProductValueSize (pv : ProductValue) : Nat :=
  pv.foldl (fun n v => n + encodedValueSize v) 0

def encodeProductRows (rows : List ProductValue) : Except ProtocolError Bytes :=
  encodeProductRowsWith rows (fun row => .ok (encodedProductValueSize row)) appendProductValue 0

def encodeProductRowsForColumns (rows : List ProductValue) (columns : List ColumnSchema) :
    Except ProtocolError Bytes :=
  encodeProductRowsWith rows (fun row => encodedProductValueSizeForColumns row columns)
    (fun out row => appendProductValueForColumns out row columns) 0

/-! ## Reading -/

def skipRow (i n : Nat) : Reader ProtocolError Unit := do
  let x ← get
  if n > x.length then throw (.rowExceedsRemaining i n x.length) else set (x.drop n)

/-- The first pass: every row is there; the result is the number of bytes in them. -/
def scanRowList (i : Nat) : Nat → Nat → Reader ProtocolError Nat
  | 0, totalRowBytes => pure totalRowBytes
  | count + 1, totalRowBytes => do
    let raw ← readFixed 4 fun _ => .rowPrefixTruncated i
    skipRow i (littleEndianValue raw.toList)
    scanRowList (i + 1) count (totalRowBytes + littleEndianValue raw.toList)

def slicePayload (n left : Nat) : Reader ProtocolError Unit :=
  if n > left then throw .outOfRange else pure ()

/-- The second pass: the rows, copied into a payload of which `left` bytes are free. -/
def copyRows : Nat → Nat → Reader ProtocolError (List Bytes)
  | 0, _ => pure []
  | count + 1, left => do
    let raw ← slice 4
    slicePayload (littleEndianValue raw.toList) left
    let row ← slice (littleEndianValue raw.toList)
    let rows ← copyRows count (left - littleEndianValue raw.toList)
    pure (row.toList :: rows)

def requireRowListConsumed (data rest : Bytes) : Except ProtocolError Unit :=
  if rest ≠ [] then .error (.trailingBytes "rowlist" (data.length - rest.length)) else .ok ()

def decodeRowList (data : Bytes) : Except ProtocolError (List Bytes) := do
  let (raw, body) ← readFixed 4 (fun x => .rowListTruncated x.length) data
  requireCountFitsRemaining "rowlist rows" (littleEndianValue raw.toList) body.length 4
  let (totalRowBytes, rest) ← scanRowList 0 (littleEndianValue raw.toList) 0 body
  requireRowListConsumed data rest
  let (rows, _) ← copyRows (littleEndianValue raw.toList) totalRowBytes body
  .ok rows

end Shunter.Protocol
