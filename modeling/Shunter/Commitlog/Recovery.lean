import Shunter.Commitlog.RecoveryScan
import Shunter.Commitlog.SegmentWriter

/-!
# Opening a data directory

Recovery restores the selected snapshot into fresh tables, replays the log
behind it and plans how writing goes on.  The report that it fills in on the way
is left out.
-/

namespace Shunter

open Foundation Reader

def reconcileSnapshotRegistry (snapshot : Option SnapshotData) (reg : SchemaRegistry) :
    SchemaRegistry :=
  match snapshot with
  | none => reg
  | some snapshot => (reconcileRegistryForSnapshotReport reg snapshot.snapshotSchema).1

/-- The first segment that reaches past the snapshot must not begin behind a gap. -/
def validateSnapshotLogBoundary (snapshotTxID : TxID) : List SegmentInfo → Option LogError
  | [] => none
  | segment :: segments =>
    if segment.lastTx ≤ snapshotTxID then validateSnapshotLogBoundary snapshotTxID segments
    else if snapshotTxID + 1 < segment.startTx then
      some (.historyGap (snapshotTxID + 1) segment.startTx segment.startTx)
    else none

structure Recovered where
  committed : CommittedState
  maxAppliedTxID : TxID
  plan : RecoveryResumePlan
  registry : SchemaRegistry

section

variable {κ : Type}

/-- The state to replay into and the transaction to replay from. -/
def recoveryBase (scan : RecoveryScan κ) (registry : SchemaRegistry) :
    Except (RecoveryError κ) (CommittedState × TxID) :=
  match scan.snapshot, scan.segments with
  | some snapshot, segments =>
    match restoreSnapshot (.fresh registry) snapshot with
    | (_, some e) => .error (.restore e)
    | (committed, none) =>
      match validateSnapshotLogBoundary snapshot.txID segments with
      | some e => .error (.log e)
      | none => .ok (committed, snapshot.txID)
  | none, [] => .error .noData
  | none, first :: _ =>
    if 1 < first.startTx then .error .missingBaseSnapshot else .ok (.fresh registry, 0)

def replayBatch (dir : LogDir) (segments : List SegmentInfo) (registry : SchemaRegistry)
    (committed : CommittedState) (replayFrom : TxID) :
    Except (RecoveryError κ) (CommittedState × TxID) :=
  match replayLogWithApply (fun payload => decodeChangeset payload registry)
    (RecoveryBatch.apply committed) dir segments replayFrom .new with
  | (_, some e) => .error (.replay e)
  | (replayed, none) =>
    match replayed.target.commit committed with
    | (_, _, some e) => .error (.publish e)
    | (committed, _, none) => .ok (committed, replayed.maxAppliedTxID)

def startsWithEmptyDamagedTail : List SegmentInfo → Bool
  | [] => false
  | first :: _ => isEmptyDamagedTail first

/-- What follows once the segments were scanned and a snapshot was selected. -/
def recoverScanned (reg : SchemaRegistry) (dir : LogDir) (scan : RecoveryScan κ) :
    Except (RecoveryError κ) Recovered :=
  if scan.snapshot.isNone && startsWithEmptyDamagedTail scan.segments then
    .error (.log .truncatedRecord)
  else do
    let registry := reconcileSnapshotRegistry scan.snapshot reg
    let (committed, replayFrom) ← recoveryBase scan registry
    let (committed, maxAppliedTxID) ← replayBatch dir scan.segments registry committed replayFrom
    let maxAppliedTxID := max maxAppliedTxID ((scan.snapshot.map (·.txID)).getD 0)
    match planRecoveryResume scan.segments maxAppliedTxID with
    | .error e => .error (.log e)
    | .ok plan =>
      let committed := { advanceRecoveredSequences committed with committedTxID := maxAppliedTxID }
      .ok ⟨committed, maxAppliedTxID, plan, registry⟩

def openAndRecoverWithRegistryReport (store : SnapshotStore κ) (reg : SchemaRegistry)
    (dir : LogDir) : Except (RecoveryError κ) Recovered :=
  match scanRecoverySegmentsAndSelectSnapshot store reg dir with
  | (_, some e) => .error e
  | (scan, none) => recoverScanned reg dir scan

end

end Shunter
