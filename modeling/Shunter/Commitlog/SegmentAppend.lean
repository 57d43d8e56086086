import Shunter.Commitlog.OffsetIndex
import Shunter.Commitlog.SegmentWriter

/-!
# What the segment writer leaves in the file

A writer stands behind the records of its segment, with nothing but zeros after
them.  Appending keeps this, and a file that is cut at any length holds the
records that are whole in it.
-/

namespace Shunter

open Foundation Reader

namespace LogDir

variable (dir : LogDir) (startTx path : TxID) (content : Bytes)

theorem getElem?_setSegment :
    (dir.setSegment startTx content).segments[path]? =
      if startTx = path then some content else dir.segments[path]? := by
  simp only [setSegment, get_insert]

theorem mem_setSegment :
    path ∈ (dir.setSegment startTx content).segments ↔ startTx = path ∨ path ∈ dir.segments := by
  simp only [setSegment, Std.ExtTreeMap.mem_insert, Std.compare_eq_iff_eq]

theorem getElem?_removeSegment :
    (dir.removeSegment startTx).segments[path]? =
      if startTx = path then none else dir.segments[path]? := by
  simp only [removeSegment, get_erase]

theorem mem_removeSegment :
    path ∈ (dir.removeSegment startTx).segments ↔ startTx ≠ path ∧ path ∈ dir.segments := by
  simp only [removeSegment, Std.ExtTreeMap.mem_erase, ne_eq, Std.compare_eq_iff_eq]

end LogDir

variable {dir : LogDir} {startTx : TxID}

theorem createSegment_ok (hpos : startTx ≠ 0) (hnew : startTx ∉ dir.segments) :
    createSegment dir startTx =
      .ok (dir.setSegment startTx segmentHeader, ⟨startTx, segmentHeaderSize, 0, 0, false⟩) := by
  rw [createSegment, if_neg hpos, if_neg]
  rwa [Std.ExtTreeMap.contains_iff_mem]

theorem segmentSize_eq (records : List Record) :
    segmentSize records = segmentHeaderSize + (records.flatMap recordText).length := by
  have hfold : ∀ n, records.foldl (fun size rec => size + (recordOverhead + rec.payload.length)) n =
      n + (records.flatMap recordText).length := by
    induction records with
    | nil => simp
    | cons rec records ih =>
      intro n
      rw [List.foldl_cons, ih, List.flatMap_cons, List.length_append, length_recordText]
      omega
  exact hfold _

theorem segmentSize_append (records : List Record) (rec : Record) :
    segmentSize (records ++ [rec]) = segmentSize records + (recordOverhead + rec.payload.length) := by
  simp [segmentSize]

def SegmentWriter.behind (startTx : TxID) (records : List Record) : SegmentWriter :=
  .after startTx (.after startTx records)

@[simp] theorem SegmentWriter.startTx_behind (startTx : TxID) (records : List Record) :
    (behind startTx records).startTx = startTx := rfl

@[simp] theorem SegmentWriter.size_behind (startTx : TxID) (records : List Record) :
    (behind startTx records).size = segmentSize records := rfl

theorem SegmentWriter.hasLastRecord_behind (startTx : TxID) (records : List Record) :
    (behind startTx records).hasLastRecord = true ↔ records ≠ [] := by
  simp [behind, after, ScanState.after, List.length_pos_iff]

variable {records : List Record} {rest : Bytes}

theorem SegmentWriter.lastTx_behind (startTx : TxID) (hne : records ≠ []) :
    (behind startTx records).lastTx = startTx + records.length - 1 := by
  simp [behind, after, ScanState.after, hne]

theorem openSegmentForAppend_clean (hpos : startTx ≠ 0)
    (hfile : dir.segments[startTx]? = some (segmentText records rest))
    (hst : ∀ rec ∈ records, rec.Storable) (hcons : Consecutive startTx records)
    (hzero : allBytesZero rest = true) :
    openSegmentForAppend dir startTx = .ok (dir, .behind startTx records) := by
  have hstreams : Streams scanNextRecord (records.flatMap recordText ++ rest) records rest .eof :=
    ⟨takes_scanNextRecord.mpr ⟨hst, rfl⟩, scanNextRecord_eof.mpr hzero⟩
  have hlen := scanNextRecord_consumes.length_le hstreams.takes
  rw [openSegmentForAppend, if_neg hpos, hfile]
  simp only [segmentText, readSegmentHeader_ok.mpr rfl, bind, Except.bind]
  rw [consume_eq hstreams (by omega), (foldlM_scanStep_start hst).mpr ⟨hcons, rfl⟩]
  rfl

/-! ## Appending -/

theorem allBytesZero_drop {p : Bytes} (h : allBytesZero p = true) (n : Nat) :
    allBytesZero (p.drop n) = true := by
  rw [allBytesZero_split n, Bool.and_eq_true] at h
  exact h.2

theorem allBytesZero_take {p : Bytes} (h : allBytesZero p = true) (n : Nat) :
    allBytesZero (p.take n) = true := by
  rw [allBytesZero_split n, Bool.and_eq_true] at h
  exact h.1

theorem writeAt_segmentText (records : List Record) (rest : Bytes) (rec : Record) :
    writeAt (segmentText records rest) (segmentSize records) (recordText rec) =
      segmentText (records ++ [rec]) (rest.drop (recordText rec).length) := by
  have hprefix : segmentText records rest = (segmentHeader ++ records.flatMap recordText) ++ rest := by
    rw [segmentText, List.append_assoc]
  have hlen : (segmentHeader ++ records.flatMap recordText).length = segmentSize records := by
    rw [List.length_append, length_segmentHeader, segmentSize_eq]
  rw [writeAt, hprefix, List.take_left' hlen, ← List.drop_drop, List.drop_left' hlen]
  simp [segmentText]

theorem SegmentWriter.append_behind {rec : Record}
    (hfile : dir.segments[startTx]? = some (segmentText records rest)) (hst : rec.Storable)
    (htx : rec.txID = startTx + records.length) :
    (behind startTx records).append dir rec =
      .ok (dir.setSegment startTx
          (segmentText (records ++ [rec]) (rest.drop (recordText rec).length)),
        behind startTx (records ++ [rec])) := by
  have hlen : ¬ rec.payload.length > 2 ^ 32 - 1 := by
    have := hst.length_lt
    omega
  have htxlt := hst.txID
  have hchecks : ∀ n, (behind startTx records).hasLastRecord = true →
      n = (behind startTx records).lastTx → n ≠ maxTxID ∧ rec.txID = n + 1 := by
    rintro n hlast rfl
    have hne := (hasLastRecord_behind startTx records).mp hlast
    have hpos := List.length_pos_iff.mpr hne
    rw [lastTx_behind startTx hne, maxTxID]
    lia
  have hfirst : (behind startTx records).hasLastRecord = false → rec.txID = startTx := by
    intro hnone
    have : records = [] := by
      by_contra hne
      rw [(hasLastRecord_behind startTx records).mpr hne] at hnone
      cases hnone
    simpa [this] using htx
  have hresult : behind startTx (records ++ [rec]) =
      ⟨startTx, segmentSize records + (recordOverhead + rec.payload.length), rec.txID,
        segmentSize records, true⟩ := by
    rw [behind, after, ScanState.after, segmentSize_append]
    simp [htx]
  unfold append
  rw [if_neg (not_not.mpr hst.recordType), if_neg (not_not.mpr hst.flags)]
  rw [if_neg (by
    cases hlast : (behind startTx records).hasLastRecord with
    | true => simp
    | false => simpa using hfirst hlast)]
  rw [if_neg (by
    cases hlast : (behind startTx records).hasLastRecord with
    | true => simpa using (hchecks _ hlast rfl).1
    | false => simp)]
  rw [if_neg (by
    cases hlast : (behind startTx records).hasLastRecord with
    | true => simpa using (hchecks _ hlast rfl).2
    | false => simp)]
  rw [encodeRecord, if_neg hlen, hresult, ← writeAt_segmentText]
  simp only [bind, Except.bind, startTx_behind, size_behind, hfile, Option.getD_some]

/-! ## Cutting -/

/-- The records that are whole in the first `n` bytes of their texts. -/
def wholeRecords : Nat → List Record → List Record
  | _, [] => []
  | n, rec :: records =>
    if (recordText rec).length ≤ n then
      rec :: wholeRecords (n - (recordText rec).length) records
    else []

theorem wholeRecords_append (n : Nat) (records : List Record) :
    ∃ lost, records = wholeRecords n records ++ lost ∧
      ((wholeRecords n records).flatMap recordText).length ≤ n ∧
      ∀ rec ∈ lost.head?, n < ((wholeRecords n records ++ [rec]).flatMap recordText).length := by
  induction records generalizing n with
  | nil => exact ⟨[], rfl, Nat.zero_le _, by simp⟩
  | cons rec records ih =>
    rw [wholeRecords]
    split
    · next hfits =>
      obtain ⟨lost, hrecords, hle, hlost⟩ := ih (n - (recordText rec).length)
      refine ⟨lost, by rw [List.cons_append, ← hrecords], ?_, ?_⟩
      · rw [List.flatMap_cons, List.length_append]
        omega
      · intro next hnext
        have := hlost next hnext
        rw [List.cons_append, List.flatMap_cons, List.length_append]
        omega
    · next hfits =>
      refine ⟨rec :: records, rfl, Nat.zero_le _, ?_⟩
      rintro _ ⟨⟩
      simpa using hfits

/-- The reader stops here, at the end of the records or at a damaged one. -/
def TornTail (rest : Bytes) : Prop :=
  ∃ e, scanNextRecord rest = .error e ∧ (e = .eof ∨ isDamagedTailError e = true)

theorem tornTail_of_zero (h : allBytesZero rest = true) : TornTail rest :=
  ⟨.eof, scanNextRecord_eof.mpr h, .inl rfl⟩

theorem tornTail_cut {rec : Record} (hst : rec.Storable) {n : Nat}
    (hn : n < (recordText rec).length) : TornTail ((recordText rec).take n) := by
  have hcut := scanNextRecord_cut hst hn
  split at hcut
  · exact ⟨.eof, hcut, .inl rfl⟩
  · exact ⟨.truncatedRecord, hcut, .inr rfl⟩

theorem take_records (hst : ∀ rec ∈ records, rec.Storable) (hzero : allBytesZero rest = true)
    (n : Nat) :
    ∃ tail, (records.flatMap recordText ++ rest).take n =
      (wholeRecords n records).flatMap recordText ++ tail ∧ TornTail tail := by
  induction records generalizing n with
  | nil => exact ⟨rest.take n, rfl, tornTail_of_zero (allBytesZero_take hzero n)⟩
  | cons rec records ih =>
    obtain ⟨hrec, hst⟩ := List.forall_mem_cons.mp hst
    rw [wholeRecords, List.flatMap_cons, List.append_assoc]
    split
    · next hfits =>
      obtain ⟨tail, htake, htorn⟩ := ih hst (n - (recordText rec).length)
      refine ⟨tail, ?_, htorn⟩
      rw [List.take_append, List.take_of_length_le hfits, htake, List.flatMap_cons,
        List.append_assoc]
    · next hfits =>
      have hlt := not_le.mp hfits
      refine ⟨(recordText rec).take n, ?_, tornTail_cut hrec hlt⟩
      rw [List.take_append_of_le_length hlt.le, List.flatMap_nil, List.nil_append]

theorem take_segmentText (hst : ∀ rec ∈ records, rec.Storable)
    (hzero : allBytesZero rest = true) {n : Nat} (hn : segmentHeaderSize ≤ n) :
    ∃ tail, (segmentText records rest).take n =
      segmentText (wholeRecords (n - segmentHeaderSize) records) tail ∧ TornTail tail := by
  obtain ⟨tail, htake, htorn⟩ := take_records hst hzero (n - segmentHeaderSize)
  refine ⟨tail, ?_, htorn⟩
  rw [segmentText, List.take_append, length_segmentHeader, htake,
    List.take_of_length_le (by rwa [length_segmentHeader])]
  rfl

end Shunter
