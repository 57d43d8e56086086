import Shunter.Commitlog.OffsetIndex

/-!
# Replay of the log

The log reader goes through the scanned segments, leaves out what the horizon
covers, and hands every other record to `apply`.  Where the scan found a damaged
tail it stops at the last record that the scan accepted.
-/

namespace Shunter

open Foundation Reader

inductive ReplayError (δ α : Type) where
  | openSegment (segment : TxID) (cause : LogError)
  | readSegment (segment : TxID) (cause : LogError)
  | decodeRecord (txID segment : TxID) (cause : δ)
  | applyRecord (txID segment : TxID) (cause : α)

structure ReplayState (σ : Type) where
  target : σ
  maxAppliedTxID : TxID

def isEmptyDamagedTail (segment : SegmentInfo) : Bool :=
  segment.appendMode == .freshNextSegment && segment.lastTx < segment.startTx

def shouldStopAfterRecord (segment : SegmentInfo) (txID : TxID) : Bool :=
  segment.appendMode == .freshNextSegment && segment.lastTx ≤ txID

/-- The position behind the header, or the one that the offset index leads to. -/
def seekReplayReaderToHorizon (dir : LogDir) (startTx fromTxID : TxID) (body : Bytes) : Bytes :=
  if fromTxID < startTx then body
  else
    match dir.indexes[startTx]? with
    | none => body
    | some idx =>
      match seekToTxID (segmentHeader ++ body) ((fromTxID + 1) % 2 ^ 64)
        (some (openOffsetIndex idx)) with
      | .error _ => body
      | .ok pos => pos

section

variable {σ γ δ α : Type} (decode : Bytes → Except δ γ) (apply : σ → γ → σ × Option α)

/-- One round of the read loop; leaving it without an error is a `break`. -/
def replayStep (segment : SegmentInfo) (fromTxID : TxID) (s : ReplayState σ) (rec : Record) :
    Except (ReplayState σ × Option (ReplayError δ α)) (ReplayState σ) :=
  if rec.txID ≤ fromTxID then
    if shouldStopAfterRecord segment rec.txID then .error (s, none) else .ok s
  else
    match decode rec.payload with
    | .error e => .error (s, some (.decodeRecord rec.txID segment.startTx e))
    | .ok changeset =>
      match apply s.target changeset with
      | (target, some e) =>
        .error ({ s with target }, some (.applyRecord rec.txID segment.startTx e))
      | (target, none) =>
        let s : ReplayState σ := ⟨target, max s.maxAppliedTxID rec.txID⟩
        if shouldStopAfterRecord segment rec.txID then .error (s, none) else .ok s

def replayFinish (segment : SegmentInfo) (s : ReplayState σ) (_rest : Bytes) (e : LogError) :
    ReplayState σ × Option (ReplayError δ α) :=
  if e = .eof then (s, none) else (s, some (.readSegment segment.startTx e))

def replaySegment (dir : LogDir) (fromTxID : TxID) (s : ReplayState σ) (segment : SegmentInfo) :
    ReplayState σ × Option (ReplayError δ α) :=
  if isEmptyDamagedTail segment then (s, none)
  else if segment.lastTx ≤ fromTxID then (s, none)
  else
    match openSegment dir segment.startTx with
    | .error e => (s, some (.openSegment segment.startTx e))
    | .ok body =>
      let pos :=
        if segment.startTx ≤ fromTxID then
          seekReplayReaderToHorizon dir segment.startTx fromTxID body
        else body
      consume (Shunter.decodeRecord formatMaxRecordPayloadBytes)
        (replayStep decode apply segment fromTxID) (replayFinish segment)
        (s, some (.readSegment segment.startTx .outOfFuel)) (body.length + 1) s pos

def replayLogWithApply (dir : LogDir) (segments : List SegmentInfo) (fromTxID : TxID) (target : σ) :
    ReplayState σ × Option (ReplayError δ α) :=
  loop (replaySegment decode apply dir fromTxID) ⟨target, fromTxID⟩ segments

end

end Shunter
