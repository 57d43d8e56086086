import Shunter.Commitlog.SegmentScan

/-!
# Writing segments

Creating a segment, reopening one for appending, and the plan by which a
recovery decides between the two.  A call that fails returns no directory, and
nothing is said about the file it leaves.
-/

namespace Shunter

open Foundation Reader

structure SegmentWriter where
  startTx : TxID
  size : Nat
  lastTx : TxID
  lastRecordOffset : Nat
  hasLastRecord : Bool
  deriving DecidableEq

namespace LogDir

def setSegment (dir : LogDir) (startTx : TxID) (content : Bytes) : LogDir :=
  { dir with segments := dir.segments.insert startTx content }

def removeSegment (dir : LogDir) (startTx : TxID) : LogDir :=
  { dir with segments := dir.segments.erase startTx }

end LogDir

def createSegment (dir : LogDir) (startTx : TxID) : Except LogError (LogDir × SegmentWriter) :=
  if startTx = 0 then .error (.bootstrapSegment startTx)
  else if dir.segments.contains startTx then .error (.alreadyExists startTx)
  else .ok (dir.setSegment startTx segmentHeader, ⟨startTx, segmentHeaderSize, 0, 0, false⟩)

def segmentSize (records : List Record) : Nat :=
  records.foldl (fun size rec => size + (recordOverhead + rec.payload.length)) segmentHeaderSize

def SegmentWriter.after (startTx : TxID) (s : ScanState) : SegmentWriter :=
  ⟨startTx, segmentSize s.records, s.lastTx,
    if s.recordCount = 0 then 0 else segmentSize s.records.dropLast, decide (0 < s.recordCount)⟩

/-- The end of the loop of `OpenSegmentForAppend`: a damaged tail is cut off. -/
def appendScanFinish (dir : LogDir) (startTx : TxID) (content : Bytes) (s : ScanState)
    (_rest : Bytes) (e : LogError) : Except LogError (LogDir × SegmentWriter) :=
  if e = .eof then .ok (dir, .after startTx s)
  else if s.recordCount = 0 || !isDamagedTailError e then .error e
  else
    .ok (dir.setSegment startTx (content.take (segmentSize s.records)), .after startTx s)

def openSegmentForAppend (dir : LogDir) (startTx : TxID) :
    Except LogError (LogDir × SegmentWriter) :=
  if startTx = 0 then .error (.bootstrapSegment startTx)
  else
    match dir.segments[startTx]? with
    | none => .error (.notExist startTx)
    | some content => do
      let body ← readSegmentHeader content
      consume scanNextRecord (scanStep startTx) (appendScanFinish dir startTx content)
        (.error .outOfFuel) (body.length + 1) .start body

def writeAt (content : Bytes) (off : Nat) (bytes : Bytes) : Bytes :=
  content.take off ++ (bytes ++ content.drop (off + bytes.length))

def SegmentWriter.append (sw : SegmentWriter) (dir : LogDir) (rec : Record) :
    Except LogError (LogDir × SegmentWriter) :=
  if rec.recordType ≠ recordTypeChangeset then .error (.unknownRecordType rec.recordType)
  else if rec.flags ≠ 0 then .error .badFlags
  else if !sw.hasLastRecord && rec.txID != sw.startTx then
    .error (.firstTxID rec.txID sw.startTx)
  else if sw.hasLastRecord && sw.lastTx == maxTxID then
    .error (.appendAfterMaximum rec.txID sw.lastTx)
  else if sw.hasLastRecord && rec.txID != sw.lastTx + 1 then
    .error (.unexpectedTxID rec.txID sw.lastTx)
  else do
    let text ← encodeRecord rec
    let content := (dir.segments[sw.startTx]?).getD []
    .ok (dir.setSegment sw.startTx (writeAt content sw.size text),
      ⟨sw.startTx, sw.size + (recordOverhead + rec.payload.length), rec.txID, sw.size, true⟩)

/-! ## Resuming -/

structure RecoveryResumePlan where
  segmentStartTx : TxID
  nextTxID : TxID
  appendMode : AppendMode
  deriving DecidableEq

def recoveryNextTxID (maxAppliedTxID : TxID) : Except LogError TxID :=
  if maxAppliedTxID = maxTxID then .error (.noNextTxID maxAppliedTxID)
  else .ok (maxAppliedTxID + 1)

def planRecoveryResume (segments : List SegmentInfo) (maxAppliedTxID : TxID) :
    Except LogError RecoveryResumePlan := do
  let nextTxID ← recoveryNextTxID maxAppliedTxID
  match segments.getLast? with
  | none => .ok ⟨nextTxID, nextTxID, .freshNextSegment⟩
  | some last =>
    match last.appendMode with
    | .inPlace => .ok ⟨last.startTx, nextTxID, .inPlace⟩
    | .freshNextSegment => .ok ⟨nextTxID, nextTxID, .freshNextSegment⟩
    | .forbidden => .error (.appendForbidden last.startTx)

/-- Clear the way for a fresh segment: a file without a record may be in its place. -/
def removeFreshSegmentArtifact (dir : LogDir) (startTx : TxID) : Except LogError LogDir :=
  match dir.segments[startTx]? with
  | none => .ok dir
  | some _ => do
    let segment ← scanOneSegment dir startTx true
    if segment.info.startTx ≤ segment.info.lastTx then .error (.alreadyExists startTx)
    else .ok (dir.removeSegment startTx)

def openSegmentForAppendInPlaceResumePlan (dir : LogDir) (plan : RecoveryResumePlan) :
    Except LogError (LogDir × SegmentWriter × TxID) :=
  if plan.segmentStartTx = 0 ∨ plan.nextTxID = 0 then .error .invalidResumePlan
  else
    match dir.segments[plan.segmentStartTx]? with
    | none =>
      if plan.nextTxID ≠ plan.segmentStartTx then .error .invalidResumePlan
      else do
        let (dir, seg) ← createSegment dir plan.segmentStartTx
        .ok (dir, seg, 0)
    | some _ => do
      let (dir, seg) ← openSegmentForAppend dir plan.segmentStartTx
      let expectedNextTxID :=
        if seg.hasLastRecord then (seg.lastTx + 1) % 2 ^ 64 else plan.segmentStartTx
      if plan.nextTxID ≠ expectedNextTxID then .error .invalidResumePlan
      else .ok (dir, seg, seg.lastTx)

/-- The directory, the writer and the durable transaction to go on from. -/
def openSegmentForResumePlan (dir : LogDir) (plan : RecoveryResumePlan) :
    Except LogError (LogDir × SegmentWriter × TxID) :=
  match plan.appendMode with
  | .inPlace => openSegmentForAppendInPlaceResumePlan dir plan
  | .freshNextSegment =>
    if plan.segmentStartTx = 0 ∨ plan.nextTxID = 0 ∨ plan.segmentStartTx ≠ plan.nextTxID then
      .error .invalidResumePlan
    else do
      let dir ← removeFreshSegmentArtifact dir plan.segmentStartTx
      let (dir, seg) ← createSegment dir plan.segmentStartTx
      .ok (dir, seg, plan.nextTxID - 1)
  | .forbidden => .error (.appendForbidden plan.segmentStartTx)

end Shunter
