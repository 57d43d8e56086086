import Shunter.Commitlog.Record

/-!
# Segment files and the recovery scan

A log directory holds segment files, each named by the first transaction it may
hold, and an optional offset index for each of them.  The scan reads every
segment, checks that the transactions are consecutive and decides how writing
goes on.
-/

namespace Shunter

open Foundation Reader

def maxTxID : TxID := 2 ^ 64 - 1

/-! ## Files -/

def segmentMagic : Bytes := [0x53, 0x48, 0x4e, 0x54]

def segmentVersion : UInt8 := 1

def segmentHeaderSize : Nat := 8

def segmentHeader : Bytes := segmentMagic ++ [segmentVersion, 0, 0, 0]

/-- The segments and the offset indexes of a directory, by first transaction. -/
structure LogDir where
  segments : GoMap TxID Bytes
  indexes : GoMap TxID Bytes

def readSegmentHeader (content : Bytes) : Except LogError Bytes :=
  if content = [] then .error .eof
  else if content.length < segmentHeaderSize then .error .unexpectedEOF
  else if content.take 4 ≠ segmentMagic then .error .badMagic
  else if content.getD 4 0 ≠ segmentVersion then .error (.badVersion (content.getD 4 0))
  else if content.getD 5 0 ≠ 0 ∨ content.getD 6 0 ≠ 0 ∨ content.getD 7 0 ≠ 0 then
    .error .badFlags
  else .ok (content.drop segmentHeaderSize)

def openSegment (dir : LogDir) (startTx : TxID) : Except LogError Bytes :=
  match dir.segments[startTx]? with
  | none => .error (.notExist startTx)
  | some content => readSegmentHeader content

/-! ## The scan of one segment -/

inductive AppendMode where
  | inPlace
  | freshNextSegment
  | forbidden
  deriving DecidableEq

structure SegmentInfo where
  startTx : TxID
  lastTx : TxID
  appendMode : AppendMode
  deriving DecidableEq

/-- The result of a scan, with the records that `segmentScanRecordHook` sees. -/
structure ScannedSegment where
  info : SegmentInfo
  records : List Record
  deriving DecidableEq

def nextContiguousRecordTxID (lastTx gotTx segment : TxID) : Except LogError TxID :=
  if lastTx = maxTxID then .error (.afterMaximum gotTx lastTx segment) else .ok (lastTx + 1)

/-- The variables of the loops that check a segment from its start. -/
structure ScanState where
  lastTx : TxID
  recordCount : Nat
  records : List Record

def ScanState.start : ScanState := ⟨0, 0, []⟩

/-- The first record must open the segment, and every other one follow its predecessor. -/
def checkRecordTxID (startTx : TxID) (s : ScanState) (rec : Record) : Except LogError Unit :=
  if s.recordCount = 0 then
    if rec.txID ≠ startTx then .error (.historyGap startTx rec.txID startTx) else .ok ()
  else do
    let expected ← nextContiguousRecordTxID s.lastTx rec.txID startTx
    if rec.txID ≠ expected then .error (.historyGap expected rec.txID startTx) else .ok ()

def ScanState.accept (s : ScanState) (rec : Record) : ScanState :=
  ⟨rec.txID, s.recordCount + 1, s.records ++ [rec]⟩

/-- One round of a loop that checks a segment; `ρ` is the result of the function around it. -/
def scanStep {ρ : Type} (startTx : TxID) (s : ScanState) (rec : Record) :
    Except (Except LogError ρ) ScanState :=
  match checkRecordTxID startTx s rec with
  | .error e => .error (.error e)
  | .ok () => .ok (s.accept rec)

def scanFinish (startTx : TxID) (isLast : Bool) (s : ScanState) (_rest : Bytes) (e : LogError) :
    Except LogError ScannedSegment :=
  let lastTx := if s.recordCount = 0 then startTx - 1 else s.lastTx
  if e = .eof then
    .ok ⟨⟨startTx, lastTx, if isLast then .inPlace else .forbidden⟩, s.records⟩
  else if isDamagedTailError e && (0 < s.recordCount || isLast) then
    .ok ⟨⟨startTx, lastTx, .freshNextSegment⟩, s.records⟩
  else .error e

def scanOneSegment (dir : LogDir) (startTx : TxID) (isLast : Bool) :
    Except LogError ScannedSegment :=
  match openSegment dir startTx with
  | .error e =>
    -- a rollover that stopped before its header was written
    if isLast && e == .eof then .ok ⟨⟨startTx, startTx - 1, .freshNextSegment⟩, []⟩ else .error e
  | .ok body =>
    consume scanNextRecord (scanStep startTx) (scanFinish startTx isLast) (.error .outOfFuel)
      (body.length + 1) .start body

/-! ## The scan of a directory -/

def validateSegmentContinuity : List SegmentInfo → Except LogError Unit
  | prev :: cur :: segments => do
    let expected ← nextContiguousRecordTxID prev.lastTx cur.startTx cur.startTx
    if cur.startTx ≠ expected then .error (.historyGap expected cur.startTx cur.startTx)
    else validateSegmentContinuity (cur :: segments)
  | _ => .ok ()

/-- The loop over the segments; only the last one may end in damage without a record. -/
def scanEachSegment (dir : LogDir) : List TxID → Except LogError (List ScannedSegment)
  | [] => .ok []
  | path :: paths => do
    let segment ← scanOneSegment dir path paths.isEmpty
    let segments ← scanEachSegment dir paths
    .ok (segment :: segments)

def durableHorizon (segments : List SegmentInfo) : TxID :=
  (segments.getLast?.map (·.lastTx)).getD 0

def scanSegmentPaths (dir : LogDir) (paths : List TxID) :
    Except LogError (List ScannedSegment × TxID) := do
  let segments ← scanEachSegment dir paths
  validateSegmentContinuity (segments.map (·.info))
  .ok (segments, durableHorizon (segments.map (·.info)))

def listSegmentPaths (dir : LogDir) : Except LogError (List TxID) :=
  match dir.segments.keys.find? (· == 0) with
  | some path => .error (.bootstrapSegment path)
  | none => .ok dir.segments.keys

def scanSegments (dir : LogDir) : Except LogError (List ScannedSegment × TxID) := do
  let paths ← listSegmentPaths dir
  scanSegmentPaths dir paths

end Shunter
