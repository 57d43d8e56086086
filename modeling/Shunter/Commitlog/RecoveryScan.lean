import Shunter.Commitlog.Replay
import Shunter.Commitlog.Restore
import Shunter.Schema.Reconcile

/-!
# Choosing the base of a recovery

Recovery scans the segments and selects the newest snapshot that the log covers.
Where every segment below a snapshot has a usable offset index, the scan starts
at the indexed record instead of the header.
-/

namespace Shunter

open Foundation Reader

/-! ## Snapshots -/

/-- Why a snapshot directory could not be read; `κ` is the error of the snapshot reader. -/
inductive SnapshotError (κ : Type) where
  | read (cause : κ)
  | txIDMismatch (directory header : TxID)
  deriving DecidableEq

inductive RecoveryError (κ : Type) where
  | log (cause : LogError)
  | snapshot (cause : SnapshotError κ)
  | schemaMismatch (report : SchemaCompatibilityReport)
  | missingBaseSnapshot
  | noData
  | restore (cause : RestoreError)
  | replay (cause : ReplayError ChangesetError StoreError)
  | publish (cause : StoreError)

/-- The completed snapshots of a directory, each with what reading its file gives. -/
structure SnapshotStore (κ : Type) where
  snapshots : GoMap TxID (Except κ SnapshotData)
  /-- The errors about counters, which stop the selection. -/
  isUnsafe : κ → Bool

inductive SnapshotSkip (κ : Type) where
  | pastDurableHorizon (txID : TxID)
  | readFailed (txID : TxID) (cause : SnapshotError κ)
  deriving DecidableEq

section

variable {κ : Type} (store : SnapshotStore κ) (reg : SchemaRegistry)

def listSnapshots : List TxID := store.snapshots.keys.reverse

def readSnapshotWithExpectedTxID (txID : TxID) (file : Except κ SnapshotData) :
    Except (SnapshotError κ) SnapshotData :=
  match file with
  | .error e => .error (.read e)
  | .ok snapshot =>
    if snapshot.txID ≠ txID then .error (.txIDMismatch txID snapshot.txID) else .ok snapshot

def isUnsafeSnapshotSelectionError : SnapshotError κ → Bool
  | .read cause => store.isUnsafe cause
  | .txIDMismatch .. => false

def SnapshotData.snapshotSchema (snapshot : SnapshotData) : SnapshotSchema where
  version :=
    if snapshot.schemaSnapshotVersion = 0 then snapshot.schemaVersion
    else snapshot.schemaSnapshotVersion
  tables := snapshot.schema

def analyzeSnapshotSchema (snapshot : SnapshotData) : SchemaCompatibilityReport :=
  (reconcileRegistryForSnapshotReport reg snapshot.snapshotSchema).2

def compareSnapshotSchema (snapshot : SnapshotData) : Option (RecoveryError κ) :=
  let report := analyzeSnapshotSchema reg snapshot
  if report.compatible then none else some (.schemaMismatch report)

/-- A snapshot, the reason to skip it, or an error that stops the recovery. -/
def readSnapshotCandidate (txID : TxID) :
    Except (RecoveryError κ) (Except (SnapshotSkip κ) SnapshotData) :=
  match store.snapshots[txID]?.map (readSnapshotWithExpectedTxID txID) with
  | none => .error .noData
  | some (.error e) =>
    if isUnsafeSnapshotSelectionError store e then .error (.snapshot e)
    else .ok (.error (.readFailed txID e))
  | some (.ok snapshot) =>
    match compareSnapshotSchema reg snapshot with
    | some e => .error e
    | none => .ok (.ok snapshot)

/-! ## The full scan -/

/-- What the choice of a base returns, with and without an error. -/
structure RecoveryScan (κ : Type) where
  segments : List SegmentInfo
  durableHorizon : TxID
  snapshot : Option SnapshotData
  skipped : List (SnapshotSkip κ)

/-- The loop over the snapshots; `none` if no snapshot was chosen. -/
def selectSnapshotLoop (horizon : TxID) :
    List TxID → List (SnapshotSkip κ) →
      List (SnapshotSkip κ) × Option (Except (RecoveryError κ) SnapshotData)
  | [], skipped => (skipped, none)
  | txID :: ids, skipped =>
    if horizon < txID then
      selectSnapshotLoop horizon ids (skipped ++ [.pastDurableHorizon txID])
    else
      match readSnapshotCandidate store reg txID with
      | .error e => (skipped, some (.error e))
      | .ok (.error skip) => selectSnapshotLoop horizon ids (skipped ++ [skip])
      | .ok (.ok snapshot) => (skipped, some (.ok snapshot))

def selectSnapshotWithReport (dir : LogDir) (horizon : TxID) :
    List (SnapshotSkip κ) × Except (RecoveryError κ) (Option SnapshotData) :=
  match selectSnapshotLoop store reg horizon (listSnapshots store) [] with
  | (skipped, some (.error e)) => (skipped, .error e)
  | (skipped, some (.ok snapshot)) => (skipped, .ok (some snapshot))
  | (skipped, none) =>
    match scanSegments dir with
    | .error e => (skipped, .error (.log e))
    | .ok (segments, _) =>
      match segments with
      | [] => (skipped, .ok none)
      | first :: _ =>
        if first.info.startTx ≤ 1 then (skipped, .ok none)
        else (skipped, .error .missingBaseSnapshot)

def fullRecoveryScan (dir : LogDir) : RecoveryScan κ × Option (RecoveryError κ) :=
  match scanSegments dir with
  | .error e => (⟨[], 0, none, []⟩, some (.log e))
  | .ok (scanned, durableHorizon) =>
    let segments := scanned.map (·.info)
    let snapshotHorizon := if segments = [] then maxTxID else durableHorizon
    match selectSnapshotWithReport store reg dir snapshotHorizon with
    | (skipped, .error e) => (⟨segments, durableHorizon, none, skipped⟩, some e)
    | (skipped, .ok snapshot) => (⟨segments, durableHorizon, snapshot, skipped⟩, none)

end

/-! ## The indexed scan -/

/-- The stricter loop over the entries of an index, `none` for a corrupt one. -/
def recoveryOffsetIndexPrefix (content : Bytes) :
    Nat → Nat → Nat → TxID → Bool → Option Nat
  | 0, _, n, _, _ => some n
  | slots + 1, i, n, last, zeroTail =>
    let (key, val) := offsetIndexEntryAt content i
    if key = 0 ∧ val = 0 then recoveryOffsetIndexPrefix content slots (i + 1) n last true
    else if zeroTail ∨ key = 0 ∨ val < segmentHeaderSize then none
    else if 0 < n ∧ key ≤ last then none
    else recoveryOffsetIndexPrefix content slots (i + 1) (n + 1) key zeroTail

def openRecoveryOffsetIndex (content : Bytes) : Option OffsetIndex :=
  if content.length % offsetIndexEntrySize ≠ 0 then none
  else
    (recoveryOffsetIndexPrefix content (content.length / offsetIndexEntrySize) 0 0 0 false).map
      (⟨content, ·⟩)

def indexedScanStep (segment : TxID) (lastTx : TxID) (rec : Record) :
    Except (Except LogError (Option SegmentInfo)) TxID :=
  match nextContiguousRecordTxID lastTx rec.txID segment with
  | .error e => .error (.error e)
  | .ok expected =>
    if rec.txID ≠ expected then .error (.error (.historyGap expected rec.txID segment))
    else .ok rec.txID

def indexedScanFinish (startTx : TxID) (isLast : Bool) (lastTx : TxID) (_rest : Bytes)
    (e : LogError) : Except LogError (Option SegmentInfo) :=
  if e = .eof then .ok (some ⟨startTx, lastTx, if isLast then .inPlace else .forbidden⟩)
  else if isDamagedTailError e then .ok (some ⟨startTx, lastTx, .freshNextSegment⟩)
  else .error e

/-- The record that the index gives for the target, as far as it can be trusted. -/
def indexedRecord (dir : LogDir) (startTx target : TxID) : Option (Bytes × TxID × Nat) := do
  let content ← dir.segments[startTx]?
  let idx ← dir.indexes[startTx]?
  let idx ← openRecoveryOffsetIndex idx
  let (key, off) ← idx.keyLookup target
  if key < startTx then none
  else if !validIndexedOffset content off key then none
  else some (content, key, off)

/-- `none` sends the caller back to the full scan. -/
def scanOneSegmentFromOffsetIndex (dir : LogDir) (startTx : TxID) (isLast : Bool)
    (target : TxID) : Except LogError (Option SegmentInfo) :=
  match openSegment dir startTx, indexedRecord dir startTx target with
  | .ok _, some (content, key, off) =>
    match scanNextRecord (content.drop off) with
    | .error _ => .ok none
    | .ok (first, rest) =>
      if first.txID ≠ key then .ok none
      else
        consume scanNextRecord (indexedScanStep startTx) (indexedScanFinish startTx isLast)
          (.error .outOfFuel) (rest.length + 1) first.txID rest
  | _, _ => .ok none

def indexedSnapshotBoundaryTarget (snapshotTxID : TxID) : TxID :=
  if snapshotTxID = maxTxID then snapshotTxID else snapshotTxID + 1

def scanOneForSnapshotBoundary (dir : LogDir) (snapshotTxID path : TxID) (isLast : Bool) :
    Except LogError (Option SegmentInfo) :=
  if path ≤ snapshotTxID then
    scanOneSegmentFromOffsetIndex dir path isLast (indexedSnapshotBoundaryTarget snapshotTxID)
  else (scanOneSegment dir path isLast).map fun segment => some segment.info

def scanEachForSnapshotBoundary (dir : LogDir) (snapshotTxID : TxID) :
    List TxID → Except LogError (Option (List SegmentInfo))
  | [] => .ok (some [])
  | path :: paths => do
    match ← scanOneForSnapshotBoundary dir snapshotTxID path paths.isEmpty with
    | none => .ok none
    | some info =>
      let infos? ← scanEachForSnapshotBoundary dir snapshotTxID paths
      .ok (infos?.map (info :: ·))

def scanSegmentPathsForSnapshotBoundary (dir : LogDir) (paths : List TxID) (snapshotTxID : TxID) :
    Except LogError (Option (List SegmentInfo × TxID)) := do
  match ← scanEachForSnapshotBoundary dir snapshotTxID paths with
  | none => .ok none
  | some segments =>
    validateSegmentContinuity segments
    .ok (some (segments, durableHorizon segments))

section

variable {κ : Type} (store : SnapshotStore κ) (reg : SchemaRegistry) (dir : LogDir)

/-- The loop over the snapshots; `none` sends the caller back to the full scan. -/
def indexedSnapshotLoop (paths : List TxID) :
    List TxID → List (SnapshotSkip κ) → Option (RecoveryScan κ × Option (RecoveryError κ))
  | [], _ => none
  | txID :: ids, skipped =>
    match scanSegmentPathsForSnapshotBoundary dir paths txID with
    | .error e => some (⟨[], 0, none, skipped⟩, some (.log e))
    | .ok none => none
    | .ok (some (segments, horizon)) =>
      if horizon < txID then
        indexedSnapshotLoop paths ids (skipped ++ [.pastDurableHorizon txID])
      else
        match readSnapshotCandidate store reg txID with
        | .error e => some (⟨segments, horizon, none, skipped⟩, some e)
        | .ok (.error skip) => indexedSnapshotLoop paths ids (skipped ++ [skip])
        | .ok (.ok snapshot) => some (⟨segments, horizon, some snapshot, skipped⟩, none)

def tryIndexedSnapshotRecoveryScan : Option (RecoveryScan κ × Option (RecoveryError κ)) :=
  match listSnapshots store, listSegmentPaths dir with
  | [], _ => none
  | _, .error _ => none
  | _, .ok [] => none
  | ids, .ok paths => indexedSnapshotLoop store reg dir paths ids []

def scanRecoverySegmentsAndSelectSnapshot : RecoveryScan κ × Option (RecoveryError κ) :=
  match tryIndexedSnapshotRecoveryScan store reg dir with
  | some result => result
  | none => fullRecoveryScan store reg dir

end

end Shunter
