import Shunter.Commitlog.RecoveryScan

/-!
# The indexed scan against the full scan

Where the entries of an index give the offsets of records that the scan accepts,
the scan that starts at an indexed record gives up or has the result of the scan
from the header, and the same snapshot is selected.
-/

namespace Shunter

open Foundation Reader

/-! ## Opened indexes -/

theorem offsetIndexPrefix_le (content : Bytes) (slots i : Nat) (last : TxID) :
    offsetIndexPrefix content slots i last ≤ i + slots := by
  induction slots generalizing i last with
  | zero => exact le_rfl
  | succ slots ih =>
    rw [offsetIndexPrefix]
    dsimp only
    split
    · omega
    · exact (ih _ _).trans (by omega)

theorem openOffsetIndex_numEntries (content : Bytes) :
    (openOffsetIndex content).numEntries ≤
      (openOffsetIndex content).content.length / offsetIndexEntrySize :=
  (offsetIndexPrefix_le content _ 0 0).trans (by rw [Nat.zero_add]; rfl)

theorem recoveryOffsetIndexPrefix_le {content : Bytes} {slots i n m : Nat} {last : TxID}
    {zeroTail : Bool} (h : recoveryOffsetIndexPrefix content slots i n last zeroTail = some m) :
    m ≤ n + slots := by
  revert h
  fun_induction recoveryOffsetIndexPrefix content slots i n last zeroTail with
  | case1 => simp +contextual
  | case2 slots i n last _ _ _ _ _ ih => exact fun h => (ih h).trans (by omega)
  | case5 slots i n last _ _ _ _ _ _ _ ih => exact fun h => (ih h).trans (by omega)
  | _ => rintro ⟨⟩

theorem openRecoveryOffsetIndex_some {content : Bytes} {idx : OffsetIndex}
    (h : openRecoveryOffsetIndex content = some idx) :
    idx.content = content ∧ idx.numEntries ≤ content.length / offsetIndexEntrySize := by
  unfold openRecoveryOffsetIndex at h
  split at h
  · cases h
  · obtain ⟨n, hn, rfl⟩ := Option.map_eq_some_iff.mp h
    exact ⟨rfl, (recoveryOffsetIndexPrefix_le hn).trans (by rw [Nat.zero_add])⟩

/-- The entries of the index of a segment that pass the validation give offsets of the records. -/
def LogDir.PointsAtRecords (dir : LogDir) (startTx : TxID) (records : List Record) : Prop :=
  ∀ content raw idx, dir.segments[startTx]? = some content → dir.indexes[startTx]? = some raw →
    openRecoveryOffsetIndex raw = some idx → ∀ maxKey, idx.PointsAt content records maxKey

/-! ## One segment -/

theorem foldlM_indexedScanStep {segment lastTx : TxID} {records : List Record}
    (hst : ∀ rec ∈ records, rec.Storable) (hcons : Consecutive (lastTx + 1) records) :
    records.foldlM (indexedScanStep segment) lastTx = .ok (lastTx + records.length) := by
  induction records generalizing lastTx with
  | nil => rfl
  | cons rec records ih =>
    obtain ⟨hrec, hst⟩ := List.forall_mem_cons.mp hst
    obtain ⟨htx, hrest⟩ := consecutive_cons.mp hcons
    have hmax : lastTx ≠ maxTxID := by
      have := hrec.txID
      unfold maxTxID
      lia
    have hstep : indexedScanStep segment lastTx rec = .ok (lastTx + 1) := by
      rw [indexedScanStep, nextContiguousRecordTxID_ok.mpr ⟨hmax, rfl⟩]
      simp [htx]
    rw [List.foldlM_cons, hstep]
    refine (ih hst hrest).trans ?_
    rw [List.length_cons]
    congr 1
    lia

theorem indexedScanFinish_ends {startTx lastTx : TxID} {isLast : Bool} {records : List Record}
    {rest : Bytes} {e : LogError} {mode : AppendMode} (h : SegmentEnds isLast records e mode) :
    indexedScanFinish startTx isLast lastTx rest e = .ok (some ⟨startTx, lastTx, mode⟩) := by
  cases h with
  | clean => rfl
  | damaged hdamaged _ =>
    rw [indexedScanFinish, if_neg (by rintro rfl; cases hdamaged), if_pos hdamaged]

variable {dir : LogDir} {startTx horizon : TxID} {content rest : Bytes} {records : List Record}
  {paths : List TxID} {segments : List ScannedSegment}

theorem indexedRecord_some (hfile : dir.segments[startTx]? = some (segmentText records rest))
    (hst : ∀ rec ∈ records, rec.Storable) (hidx : dir.PointsAtRecords startTx records)
    {target key : TxID} {off : Nat}
    (hrecord : indexedRecord dir startTx target = some (content, key, off)) :
    content = segmentText records rest ∧ ∃ before rec after, records = before ++ rec :: after ∧
      off = segmentHeaderSize + (before.flatMap recordText).length ∧ rec.txID = key := by
  simp only [indexedRecord, hfile, Option.bind_eq_bind, Option.bind_some,
    Option.bind_eq_some_iff] at hrecord
  obtain ⟨raw, hraw, idx, hopen, ⟨key', off'⟩, hlookup, hrecord⟩ := hrecord
  dsimp only at hrecord
  split at hrecord
  · cases hrecord
  · split at hrecord
    · cases hrecord
    · next hvalid =>
      cases hrecord
      rw [Bool.not_eq_true', Bool.not_eq_false] at hvalid
      obtain ⟨hkey, i, hi, hentry⟩ := idx.keyLookup_some hlookup
      obtain ⟨before, rec, after, hrecords, hoff⟩ :=
        hidx _ raw idx hfile hraw hopen target i hi key off hentry hkey hvalid
      refine ⟨rfl, before, rec, after, hrecords, hoff, ?_⟩
      rw [hrecords, hoff, validIndexedOffset_segmentText (hst rec (by simp [hrecords])),
        beq_iff_eq] at hvalid
      exact hvalid

theorem ScannedAs.indexedScan {isLast : Bool} {segment : ScannedSegment}
    (h : ScannedAs dir startTx isLast segment)
    (hidx : dir.PointsAtRecords startTx segment.records) (target : TxID) :
    scanOneSegmentFromOffsetIndex dir startTx isLast target = .ok none ∨
      scanOneSegmentFromOffsetIndex dir startTx isLast target = .ok (some segment.info) := by
  unfold scanOneSegmentFromOffsetIndex
  cases h with
  | empty _ hfile _ =>
    rw [openSegment_eof.mpr hfile]
    exact .inl rfl
  | @body body rest e hfile hbody =>
    rw [openSegment_ok.mpr hfile]
    cases hrecord : indexedRecord dir startTx target with
    | none => exact .inl rfl
    | some p =>
      obtain ⟨content, key, off⟩ := p
      have hst := hbody.storable
      have hcons := hbody.consecutive
      obtain ⟨rfl, before, rec, after, hrecords, rfl, hkey⟩ :=
        indexedRecord_some (hfile.trans (by rw [hbody.text, segmentText])) hst hidx hrecord
      rw [hrecords] at hst hcons
      have hrec : rec.Storable := hst rec (by simp)
      have hst' : ∀ r ∈ after, r.Storable := fun r hr => hst r (by simp [hr])
      obtain ⟨htx, hcons⟩ := consecutive_cons.mp (consecutive_append.mp hcons).2
      have hstreams : Streams scanNextRecord (after.flatMap recordText ++ rest) after rest e :=
        ⟨takes_scanNextRecord.mpr ⟨hst', rfl⟩, hbody.streams.stops⟩
      have hlen := scanNextRecord_consumes.length_le hstreams.takes
      right
      dsimp only
      rw [hrecords, drop_segmentText, List.flatMap_cons, List.append_assoc,
        scanNextRecord_ok.mpr ⟨hrec, rfl⟩]
      dsimp only
      rw [if_neg (not_not.mpr hkey), consume_eq hstreams (by omega),
        foldlM_indexedScanStep hst' (htx ▸ hcons)]
      dsimp only
      have hlast : rec.txID + after.length = segment.info.lastTx := by
        rw [hbody.lastTx, hrecords, List.length_append, List.length_cons]
        lia
      rw [indexedScanFinish_ends hbody.ends, hlast, ← hbody.startTx]

/-! ## The whole directory -/

section

variable (h : ScannedAll dir paths segments)
  (hidx : ∀ segment ∈ segments, dir.PointsAtRecords segment.info.startTx segment.records)
  (snapshotTxID : TxID)
include h hidx

theorem ScannedAll.boundary :
    scanEachForSnapshotBoundary dir snapshotTxID paths = .ok none ∨
      scanEachForSnapshotBoundary dir snapshotTxID paths =
        .ok (some (segments.map (·.info))) := by
  induction h with
  | nil => exact .inr rfl
  | @cons path paths segment segments hsegment _ ih =>
    obtain ⟨hfirst, hidx⟩ := List.forall_mem_cons.mp hidx
    rw [hsegment.facts.1] at hfirst
    have hone : scanOneForSnapshotBoundary dir snapshotTxID path paths.isEmpty = .ok none ∨
        scanOneForSnapshotBoundary dir snapshotTxID path paths.isEmpty =
          .ok (some segment.info) := by
      unfold scanOneForSnapshotBoundary
      split
      · exact hsegment.indexedScan hfirst _
      · rw [scanOneSegment_ok.mpr hsegment]
        exact .inr rfl
    rw [scanEachForSnapshotBoundary, List.map_cons]
    rcases hone with hone | hone
    · exact .inl (by rw [hone]; rfl)
    · rcases ih hidx with hrest | hrest
      · exact .inl (by rw [hone, hrest]; rfl)
      · exact .inr (by rw [hone, hrest]; rfl)

theorem ScannedAll.boundaryPaths :
    scanSegmentPathsForSnapshotBoundary dir paths snapshotTxID = .ok none ∨
      scanSegmentPathsForSnapshotBoundary dir paths snapshotTxID =
        (scanSegmentPaths dir paths).map fun p => some (p.1.map (·.info), p.2) := by
  unfold scanSegmentPathsForSnapshotBoundary scanSegmentPaths
  rw [scanEachSegment_ok.mpr h]
  rcases h.boundary hidx snapshotTxID with hcase | hcase
  · exact .inl (by rw [hcase]; rfl)
  · right
    rw [hcase]
    simp only [bind, Except.bind]
    cases validateSegmentContinuity (segments.map (·.info)) <;> rfl

end

section

variable {κ : Type} (store : SnapshotStore κ) (reg : SchemaRegistry)

/-- What the choice of a base returns when it stops at a snapshot or an error. -/
def selectedScan (segments : List SegmentInfo) (horizon : TxID) (skipped : List (SnapshotSkip κ)) :
    Except (RecoveryError κ) SnapshotData → RecoveryScan κ × Option (RecoveryError κ)
  | .error e => (⟨segments, horizon, none, skipped⟩, some e)
  | .ok snapshot => (⟨segments, horizon, some snapshot, skipped⟩, none)

/-- As long as the indexed scan has the result of the full one, the same snapshot is selected. -/
theorem indexedSnapshotLoop_eq
    (hboundary : ∀ txID, scanSegmentPathsForSnapshotBoundary dir paths txID = .ok none ∨
      scanSegmentPathsForSnapshotBoundary dir paths txID =
        .ok (some (segments.map (·.info), horizon)))
    (ids : List TxID) (skipped : List (SnapshotSkip κ)) :
    indexedSnapshotLoop store reg dir paths ids skipped = none ∨
      ∃ skipped' result, selectSnapshotLoop store reg horizon ids skipped = (skipped', some result) ∧
        indexedSnapshotLoop store reg dir paths ids skipped =
          some (selectedScan (segments.map (·.info)) horizon skipped' result) := by
  induction ids generalizing skipped with
  | nil => exact .inl rfl
  | cons txID ids ih =>
    rw [indexedSnapshotLoop, selectSnapshotLoop]
    rcases hboundary txID with hcase | hcase
    · exact .inl (by rw [hcase])
    · rw [hcase]
      dsimp only
      split
      · exact ih _
      · split
        · exact .inr ⟨_, _, rfl, rfl⟩
        · exact ih _
        · exact .inr ⟨_, _, rfl, rfl⟩

theorem fullRecoveryScan_error {e : LogError} (hscan : scanSegments dir = .error e) :
    fullRecoveryScan store reg dir = (⟨[], 0, none, []⟩, some (.log e)) := by
  rw [fullRecoveryScan, hscan]

variable {store reg} in
theorem fullRecoveryScan_selected {skipped : List (SnapshotSkip κ)}
    {result : Except (RecoveryError κ) SnapshotData}
    (hscan : scanSegments dir = .ok (segments, horizon)) (hne : segments ≠ [])
    (hloop : selectSnapshotLoop store reg horizon (listSnapshots store) [] = (skipped, some result)) :
    fullRecoveryScan store reg dir =
      selectedScan (segments.map (·.info)) horizon skipped result := by
  have hinfos : segments.map (·.info) ≠ [] := by simpa using hne
  unfold fullRecoveryScan
  rw [hscan]
  simp only [if_neg hinfos, selectSnapshotWithReport, hloop]
  cases result <;> rfl

theorem scanRecovery_eq_full (hlist : listSegmentPaths dir = .ok paths)
    (hall : ScannedAll dir paths segments)
    (hidx : ∀ segment ∈ segments, dir.PointsAtRecords segment.info.startTx segment.records) :
    scanRecoverySegmentsAndSelectSnapshot store reg dir = fullRecoveryScan store reg dir := by
  have htry : tryIndexedSnapshotRecoveryScan store reg dir = none ∨
      tryIndexedSnapshotRecoveryScan store reg dir = some (fullRecoveryScan store reg dir) := by
    unfold tryIndexedSnapshotRecoveryScan
    rw [hlist]
    split
    · exact .inl rfl
    · exact .inl rfl
    · exact .inl rfl
    · next paths' hne heq hids =>
      cases heq
      have hboundary := hall.boundaryPaths hidx
      have hdir : scanSegments dir = scanSegmentPaths dir paths := by
        rw [scanSegments, hlist]
        rfl
      cases hscan : scanSegmentPaths dir paths with
      | error e =>
        rw [fullRecoveryScan_error store reg (hdir.trans hscan)]
        cases hlistS : listSnapshots store with
        | nil => exact .inl rfl
        | cons txID ids =>
          rw [indexedSnapshotLoop]
          rcases hboundary txID with hcase | hcase
          · exact .inl (by rw [hcase])
          · exact .inr (by rw [hcase, hscan]; rfl)
      | ok p =>
        obtain ⟨scanned, horizon⟩ := p
        rw [hscan] at hboundary
        rcases indexedSnapshotLoop_eq store reg hboundary (listSnapshots store) [] with
          hnone | ⟨skipped, result, hselect, hloop⟩
        · exact .inl hnone
        · right
          have hsegments : scanned ≠ [] := by
            cases (scanSegmentPaths_ok.mp hscan).1 with
            | nil => exact absurd rfl hne
            | cons => simp
          rw [hloop, fullRecoveryScan_selected (hdir.trans hscan) hsegments hselect]
  unfold scanRecoverySegmentsAndSelectSnapshot
  rcases htry with hcase | hcase
  · rw [hcase]
  · rw [hcase]

end

end Shunter
