import Shunter.Commitlog.IndexedScan

/-!
# Offset indexes are advisory

On an undamaged log an index whose entries keep off the inside of the records
never changes the outcome: an entry either leads to the start of a record or is
not used.
-/

namespace Shunter

open Foundation Reader

/-! ## Undamaged segments -/

/-- A header, whole records with consecutive transactions, and zeros. -/
structure UndamagedSegment (startTx : TxID) (content : Bytes) (records : List Record)
    (padding : Bytes) : Prop where
  text : content = segmentText records padding
  storable : ∀ rec ∈ records, rec.Storable
  consecutive : Consecutive startTx records
  zero : allBytesZero padding = true

/-- No entry of the index file has an offset strictly inside a record. -/
def IndexOutsideRecords (idx : Bytes) (records : List Record) : Prop :=
  ∀ i < idx.length / offsetIndexEntrySize, ∀ before rec after, records = before ++ rec :: after →
    ¬ (segmentHeaderSize + (before.flatMap recordText).length < (offsetIndexEntryAt idx i).2 ∧
      (offsetIndexEntryAt idx i).2 <
        segmentHeaderSize + (before.flatMap recordText).length + (recordText rec).length)

/-- Undamaged segments with any indexes that keep off the inside of records. -/
def LogDir.Undamaged (dir : LogDir) : Prop :=
  ∀ startTx content, dir.segments[startTx]? = some content →
    ∃ records padding, UndamagedSegment startTx content records padding ∧
      ∀ idx, dir.indexes[startTx]? = some idx → IndexOutsideRecords idx records

section

variable {startTx : TxID} {content padding : Bytes} {records : List Record}

theorem UndamagedSegment.stops (h : UndamagedSegment startTx content records padding) :
    scanNextRecord padding = .error .eof ∧
      decodeRecord formatMaxRecordPayloadBytes padding = .error .eof :=
  ⟨scanNextRecord_eof.mpr h.zero, decodeRecord_eof h.zero _⟩

theorem offset_cases (start : Nat) {off : Nat} (hstart : start ≤ off)
    (houtside : ∀ before rec after, records = before ++ rec :: after →
      ¬ (start + (before.flatMap recordText).length < off ∧
        off < start + (before.flatMap recordText).length + (recordText rec).length)) :
    (∃ before rec after, records = before ++ rec :: after ∧
      off = start + (before.flatMap recordText).length) ∨
      start + (records.flatMap recordText).length ≤ off := by
  induction records generalizing start with
  | nil => exact .inr (by simpa using hstart)
  | cons rec records ih =>
    rcases hstart.eq_or_lt with heq | hlt
    · exact .inl ⟨[], rec, records, rfl, by simpa using heq.symm⟩
    · have hnot := houtside [] rec records rfl
      rw [List.flatMap_nil, List.length_nil, Nat.add_zero] at hnot
      have hnext : start + (recordText rec).length ≤ off := by omega
      rcases ih (start + (recordText rec).length) hnext (by
        intro before rec' after hrecords
        have := houtside (rec :: before) rec' after (by rw [hrecords, List.cons_append])
        rw [List.flatMap_cons, List.length_append] at this
        omega) with ⟨before, rec', after, hrecords, hoff⟩ | hpast
      · refine .inl ⟨rec :: before, rec', after, by rw [hrecords, List.cons_append], ?_⟩
        rw [List.flatMap_cons, List.length_append]
        omega
      · refine .inr ?_
        rw [List.flatMap_cons, List.length_append]
        omega

theorem UndamagedSegment.validIndexedOffset_padding
    (h : UndamagedSegment startTx content records padding) {off : Nat} (key : TxID)
    (hoff : segmentHeaderSize + (records.flatMap recordText).length ≤ off) :
    validIndexedOffset content off key = false := by
  have hzero : allBytesZero (content.drop off) = true := by
    obtain ⟨n, rfl⟩ := Nat.exists_eq_add_of_le hoff
    have hdrop : (segmentText (records ++ []) padding).drop _ = _ := drop_segmentText records []
    rw [List.append_nil, List.flatMap_nil, List.nil_append, ← h.text] at hdrop
    rw [← List.drop_drop, hdrop]
    have := h.zero
    rw [allBytesZero_split n, Bool.and_eq_true] at this
    exact this.2
  unfold validIndexedOffset
  rw [scanNextRecord_eof.mpr hzero]
  split <;> rfl

theorem UndamagedSegment.pointsAt (h : UndamagedSegment startTx content records padding)
    {idx : OffsetIndex} (hcount : idx.numEntries ≤ idx.content.length / offsetIndexEntrySize)
    (hidx : IndexOutsideRecords idx.content records) (maxKey : TxID) :
    idx.PointsAt content records maxKey := by
  intro i hi key off hentry _ hvalid
  have houtside := hidx i (hi.trans_le hcount)
  rw [hentry] at houtside
  have hheader : segmentHeaderSize ≤ off := by
    by_contra hlt
    rw [validIndexedOffset, if_pos (.inl (not_le.mp hlt))] at hvalid
    cases hvalid
  rcases offset_cases segmentHeaderSize hheader houtside with hboundary | hpast
  · exact hboundary
  · rw [h.validIndexedOffset_padding key hpast] at hvalid
    cases hvalid

end

/-! ## The whole directory -/

section

variable {dir : LogDir} {startTx : TxID} {content padding : Bytes} {records : List Record}

section

variable (h : UndamagedSegment startTx content records padding)
  (hfile : dir.segments[startTx]? = some content)
include h hfile

theorem UndamagedSegment.scannedAs (isLast : Bool) :
    ScannedAs dir startTx isLast
      ⟨⟨startTx, startTx + records.length - 1, if isLast then .inPlace else .forbidden⟩, records⟩ :=
  .body (hfile.trans (congrArg some h.text))
    ⟨⟨takes_scanNextRecord.mpr ⟨h.storable, rfl⟩, h.stops.1⟩, h.consecutive, rfl, rfl, .clean⟩

theorem UndamagedSegment.pointsAtRecords
    (hidx : ∀ idx, dir.indexes[startTx]? = some idx → IndexOutsideRecords idx records) :
    dir.PointsAtRecords startTx records := by
  intro content' raw idx hfile' hraw hopen maxKey
  rw [hfile, Option.some.injEq] at hfile'
  subst hfile'
  obtain ⟨hcontent, hcount⟩ := openRecoveryOffsetIndex_some hopen
  exact h.pointsAt (hcontent ▸ hcount) (hcontent ▸ hidx raw hraw) maxKey

end

theorem LogDir.Undamaged.scannedAll (h : dir.Undamaged) {paths : List TxID}
    (hpaths : ∀ path ∈ paths, path ∈ dir.segments) :
    ∃ segments, ScannedAll dir paths segments ∧
      ∀ segment ∈ segments, dir.PointsAtRecords segment.info.startTx segment.records := by
  induction paths with
  | nil => exact ⟨[], .nil, by simp⟩
  | cons path paths ih =>
    obtain ⟨hpath, hpaths⟩ := List.forall_mem_cons.mp hpaths
    obtain ⟨segments, hall, hidx⟩ := ih hpaths
    obtain ⟨content, hfile⟩ := Option.isSome_iff_exists.mp
      (Std.ExtTreeMap.mem_iff_isSome_getElem?.mp hpath)
    obtain ⟨records, padding, hsegment, houtside⟩ := h path content hfile
    refine ⟨_, .cons (hsegment.scannedAs hfile _) hall, ?_⟩
    exact List.forall_mem_cons.mpr ⟨hsegment.pointsAtRecords hfile houtside, hidx⟩

theorem LogDir.Undamaged.scanRecovery {κ : Type} (store : SnapshotStore κ) (reg : SchemaRegistry)
    (h : dir.Undamaged) :
    scanRecoverySegmentsAndSelectSnapshot store reg dir = fullRecoveryScan store reg dir := by
  cases hlist : listSegmentPaths dir with
  | error e =>
    unfold scanRecoverySegmentsAndSelectSnapshot tryIndexedSnapshotRecoveryScan
    rw [hlist]
    cases listSnapshots store <;> rfl
  | ok paths =>
    obtain ⟨segments, hall, hidx⟩ :=
      h.scannedAll fun path hpath => ((listSegmentPaths_keys hlist).1 path).mpr hpath
    exact scanRecovery_eq_full store reg hlist hall hidx

end

/--
With undamaged segments and indexes that keep off the inside of records, recovery
finds what a full scan finds, and seeking ends where a search from the header does.
-/
theorem offset_indexes_advisory {κ : Type} (store : SnapshotStore κ) (reg : SchemaRegistry)
    {dir : LogDir} (h : dir.Undamaged) :
    scanRecoverySegmentsAndSelectSnapshot store reg dir = fullRecoveryScan store reg dir ∧
      ∀ startTx content records padding idx,
        UndamagedSegment startTx content records padding → IndexOutsideRecords idx records →
        ∀ target,
          seekToTxID content target (some (openOffsetIndex idx)) =
            seekToTxID content target none ∧
          ∀ before rec after, records = before ++ rec :: after →
            (∀ r ∈ before, r.txID < target) → target ≤ rec.txID →
            seekToTxID content target (some (openOffsetIndex idx)) =
              .ok ((rec :: after).flatMap recordText ++ padding) := by
  constructor
  · exact h.scanRecovery store reg
  · intro startTx content records padding idx hsegment hidx target
    have hpoints : ∀ i ∈ some (openOffsetIndex idx),
        i.PointsAt (segmentText records padding) records target := by
      rintro _ ⟨⟩
      rw [← hsegment.text]
      exact hsegment.pointsAt (openOffsetIndex_numEntries idx) hidx target
    have hinc := hsegment.consecutive.pairwise
    rw [hsegment.text]
    refine ⟨seekToTxID_eq_scan hsegment.storable hinc hpoints hsegment.stops.2, ?_⟩
    intro before rec after hrecords hbefore hrec
    rw [seekToTxID_found hsegment.storable hinc hpoints ⟨rec, by simp [hrecords], hrec⟩, hrecords,
      List.dropWhile_append_of_pos (by simpa using hbefore),
      List.dropWhile_cons_of_neg (by simpa using hrec)]

def exampleRecords : List Record := [⟨1, 1, 0, [10]⟩, ⟨2, 1, 0, [20]⟩]

def exampleIndex : Bytes := littleEndian 8 2 ++ littleEndian 8 27

def exampleCleanLog : LogDir where
  segments := (∅ : GoMap TxID Bytes).insert 1 (segmentText exampleRecords [0, 0])
  indexes := (∅ : GoMap TxID Bytes).insert 1 exampleIndex

theorem exampleRecords_undamaged :
    UndamagedSegment 1 (segmentText exampleRecords [0, 0]) exampleRecords [0, 0] where
  text := rfl
  storable := by
    intro rec hrec
    simp only [exampleRecords, List.mem_cons, List.not_mem_nil, or_false] at hrec
    rcases hrec with rfl | rfl <;> exact ⟨by decide, rfl, rfl, by decide⟩
  consecutive := rfl
  zero := by decide

theorem exampleIndex_outside : IndexOutsideRecords exampleIndex exampleRecords := by
  intro i hi before rec after hrecords
  have hcount : exampleIndex.length / offsetIndexEntrySize = 1 := by decide
  have hoff : (offsetIndexEntryAt exampleIndex 0).2 = 27 := by decide
  obtain rfl : i = 0 := by omega
  rw [hoff]
  match before with
  | [] =>
    cases hrecords
    decide
  | [r] =>
    cases hrecords
    decide
  | _ :: _ :: before => simp [exampleRecords] at hrecords

theorem exampleCleanLog_undamaged : exampleCleanLog.Undamaged := by
  intro startTx content hfile
  simp only [exampleCleanLog, get_insert] at hfile
  split at hfile
  · next hstart =>
    subst hstart
    cases hfile
    refine ⟨_, _, exampleRecords_undamaged, fun idx hidx => ?_⟩
    cases (show some exampleIndex = some idx from hidx)
    exact exampleIndex_outside
  · simp at hfile

theorem offset_indexes_advisory_example :
    scanRecoverySegmentsAndSelectSnapshot (κ := Empty) ⟨∅, nofun⟩ ⟨[], 1⟩ exampleCleanLog =
        fullRecoveryScan ⟨∅, nofun⟩ ⟨[], 1⟩ exampleCleanLog ∧
      seekToTxID (segmentText exampleRecords [0, 0]) 2 (some (openOffsetIndex exampleIndex)) =
        .ok (recordText ⟨2, 1, 0, [20]⟩ ++ [0, 0]) := by
  have h := offset_indexes_advisory (κ := Empty) ⟨∅, nofun⟩ ⟨[], 1⟩ exampleCleanLog_undamaged
  refine ⟨h.1, (h.2 1 _ _ _ exampleIndex exampleRecords_undamaged exampleIndex_outside 2).2
    [⟨1, 1, 0, [10]⟩] ⟨2, 1, 0, [20]⟩ [] rfl (by simp) le_rfl⟩

end Shunter
