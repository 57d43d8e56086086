import Shunter.Commitlog.Recovery

/-!
# Compaction

After a snapshot the segments that it covers are deleted, each with its offset
index, and then the covered indexes that belong to no segment.  A run is the list
of the files it removes, in their order.
-/

namespace Shunter

open Foundation Reader

/-- The transactions that a segment covers; a segment is named by its first one. -/
structure SegmentRange where
  path : TxID
  minTxID : TxID
  maxTxID : TxID
  active : Bool
  deriving DecidableEq

def segmentCoverage : List SegmentInfo → List SegmentRange
  | [] => []
  | segment :: segments =>
    ⟨segment.startTx, segment.startTx, segment.lastTx, segments.isEmpty⟩ ::
      segmentCoverage segments

def compact (snapshotTxID : TxID) : List SegmentRange → List TxID × List TxID
  | [] => ([], [])
  | segment :: segments =>
    let (deleted, retained) := compact snapshotTxID segments
    if segment.active then (deleted, segment.path :: retained)
    else if snapshotTxID = 0 then (deleted, segment.path :: retained)
    else if segment.maxTxID ≤ snapshotTxID then (segment.path :: deleted, retained)
    else (deleted, segment.path :: retained)

def orphanedCoveredOffsetIndexes (dir : LogDir) (segments : List SegmentInfo)
    (snapshotTxID : TxID) : List TxID :=
  if snapshotTxID = 0 then []
  else
    dir.indexes.keys.filter fun path =>
      path ≤ snapshotTxID && !(segments.map (·.startTx)).contains path

inductive Removal where
  | segment (path : TxID)
  | index (path : TxID)
  deriving DecidableEq

def Removal.apply (dir : LogDir) : Removal → LogDir
  | .segment path => dir.removeSegment path
  | .index path => { dir with indexes := dir.indexes.erase path }

inductive CompactionError where
  | log (cause : LogError)
  | beyondDurableHorizon (snapshotTxID horizon : TxID)
  deriving DecidableEq

def compactionRemovals (dir : LogDir) (snapshotTxID : TxID) :
    Except CompactionError (List Removal) :=
  match scanSegments dir with
  | .error e => .error (.log e)
  | .ok (scanned, durableHorizon) =>
    let segments := scanned.map (·.info)
    if snapshotTxID ≠ 0 ∧ segments ≠ [] ∧ durableHorizon < snapshotTxID then
      .error (.beyondDurableHorizon snapshotTxID durableHorizon)
    else
      let deleted := (compact snapshotTxID (segmentCoverage segments)).1
      .ok (deleted.flatMap (fun path => [.segment path, .index path]) ++
        (orphanedCoveredOffsetIndexes dir segments snapshotTxID).map .index)

def LogDir.remove (dir : LogDir) (removals : List Removal) : LogDir :=
  removals.foldl Removal.apply dir

def validateSnapshotForCompaction {κ : Type} (store : SnapshotStore κ) (txID : TxID)
    (reg : SchemaRegistry) : Option (RecoveryError κ) :=
  match store.snapshots[txID]?.map (readSnapshotWithExpectedTxID txID) with
  | none => some .noData
  | some (.error e) => some (.snapshot e)
  | some (.ok snapshot) => compareSnapshotSchema reg snapshot

end Shunter
