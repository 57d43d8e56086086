import Shunter.Commitlog.SegmentScan

/-!
# Offset indexes

The sidecar of a segment lists transactions with the byte offsets of their
records.  An entry is used only if a record with its transaction can be read at
its offset.
-/

namespace Shunter

open Foundation Reader

def offsetIndexEntrySize : Nat := 16

/-- An opened index: the bytes of the file and the number of entries that count. -/
structure OffsetIndex where
  content : Bytes
  numEntries : Nat

def offsetIndexEntryAt (content : Bytes) (i : Nat) : TxID × Nat :=
  let entry := (content.drop (i * offsetIndexEntrySize)).take offsetIndexEntrySize
  (littleEndianValue (entry.take 8), littleEndianValue (entry.drop 8))

def offsetIndexPrefix (content : Bytes) : Nat → Nat → TxID → Nat
  | 0, i, _ => i
  | slots + 1, i, last =>
    let (key, val) := offsetIndexEntryAt content i
    if key = 0 ∨ val = 0 ∨ (0 < i ∧ key ≤ last) then i
    else offsetIndexPrefix content slots (i + 1) key

def openOffsetIndex (content : Bytes) : OffsetIndex :=
  ⟨content, offsetIndexPrefix content (content.length / offsetIndexEntrySize) 0 0⟩

def offsetIndexSearch (content : Bytes) (target : TxID) : Nat → Nat → Nat → Nat
  | 0, lo, _ => lo
  | fuel + 1, lo, hi =>
    if lo < hi then
      let mid := (lo + hi) / 2
      if (offsetIndexEntryAt content mid).1 ≤ target then
        offsetIndexSearch content target fuel (mid + 1) hi
      else offsetIndexSearch content target fuel lo mid
    else lo

def OffsetIndex.keyLookup (idx : OffsetIndex) (target : TxID) : Option (TxID × Nat) :=
  match offsetIndexSearch idx.content target idx.numEntries 0 idx.numEntries with
  | 0 => none
  | lo + 1 => some (offsetIndexEntryAt idx.content lo)

/-- Whether a record of the transaction can be read at the offset. -/
def validIndexedOffset (content : Bytes) (off : Nat) (txID : TxID) : Bool :=
  if off < segmentHeaderSize ∨ content.length ≤ off then false
  else
    match scanNextRecord (content.drop off) with
    | .error _ => false
    | .ok (rec, _) => rec.txID == txID

/-! ## Seeking -/

/-- The loop of `SeekToTxID`; a position is given by the bytes that follow it. -/
def seekLoop (target : TxID) : Nat → Bytes → Except LogError Bytes
  | 0, _ => .error .outOfFuel
  | fuel + 1, input =>
    match decodeRecord formatMaxRecordPayloadBytes input with
    | .error .eof => .ok (input.drop recordHeaderSize)
    | .error e => .error e
    | .ok (rec, rest) => if target ≤ rec.txID then .ok input else seekLoop target fuel rest

def seekStart (content : Bytes) (target : TxID) (idx : Option OffsetIndex) : Nat :=
  match idx.bind (·.keyLookup target) with
  | none => segmentHeaderSize
  | some (key, off) => if validIndexedOffset content off key then off else segmentHeaderSize

def seekToTxID (content : Bytes) (target : TxID) (idx : Option OffsetIndex) :
    Except LogError Bytes :=
  seekLoop target (content.length + 1) (content.drop (seekStart content target idx))

/-! ## Lookups -/

theorem offsetIndexSearch_spec (content : Bytes) (target : TxID) {n : Nat} (fuel : Nat) :
    ∀ lo hi, lo ≤ hi → hi ≤ n →
      (∀ i, lo = i + 1 → (offsetIndexEntryAt content i).1 ≤ target) →
      offsetIndexSearch content target fuel lo hi ≤ n ∧
        ∀ i, offsetIndexSearch content target fuel lo hi = i + 1 →
          (offsetIndexEntryAt content i).1 ≤ target := by
  induction fuel with
  | zero => exact fun lo hi hle hn hlo => ⟨hle.trans hn, hlo⟩
  | succ fuel ih =>
    intro lo hi hle hn hlo
    rw [offsetIndexSearch]
    dsimp only
    split
    · next hlt =>
      split
      · next hkey =>
        refine ih _ _ (by omega) hn fun i hi => ?_
        cases hi
        exact hkey
      · exact ih _ _ (by omega) (by omega) hlo
    · exact ⟨hle.trans hn, hlo⟩

variable {target : TxID}

theorem OffsetIndex.keyLookup_some {idx : OffsetIndex} {key : TxID} {off : Nat}
    (h : idx.keyLookup target = some (key, off)) :
    key ≤ target ∧ ∃ i < idx.numEntries, offsetIndexEntryAt idx.content i = (key, off) := by
  have hspec := offsetIndexSearch_spec idx.content target (n := idx.numEntries) idx.numEntries 0
    idx.numEntries (Nat.zero_le _) le_rfl (by simp)
  unfold keyLookup at h
  split at h
  · cases h
  · next lo hlo =>
    rw [hlo] at hspec
    rw [Option.some.injEq] at h
    have hkey := hspec.2 lo rfl
    rw [h] at hkey
    exact ⟨hkey, lo, hspec.1, h⟩

/-! ## What seeking finds -/

theorem seekLoop_dropWhile {records : List Record} (hst : ∀ rec ∈ records, rec.Storable)
    (hex : ∃ rec ∈ records, target ≤ rec.txID) (rest : Bytes) {fuel : Nat}
    (hfuel : records.length ≤ fuel) :
    seekLoop target fuel (records.flatMap recordText ++ rest) =
      .ok ((records.dropWhile (·.txID < target)).flatMap recordText ++ rest) := by
  induction records generalizing fuel with
  | nil => simp at hex
  | cons rec records ih =>
    obtain ⟨hrec, hst⟩ := List.forall_mem_cons.mp hst
    obtain ⟨fuel, rfl⟩ : ∃ n, fuel = n + 1 := ⟨fuel - 1, by simp at hfuel; omega⟩
    rw [List.flatMap_cons, List.append_assoc, seekLoop, decodeRecord_ok.mpr ⟨hrec, rfl⟩]
    dsimp only
    split
    · next hle => rw [List.dropWhile_cons_of_neg (by simpa using hle), List.flatMap_cons,
        List.append_assoc]
    · next hlt =>
      rw [List.dropWhile_cons_of_pos (by simpa using hlt)]
      refine ih hst ?_ (by simpa using hfuel)
      obtain ⟨r, hr, hle⟩ := hex
      rcases List.mem_cons.mp hr with rfl | hr
      · exact absurd hle hlt
      · exact ⟨r, hr, hle⟩

theorem seekLoop_past {records : List Record} (hst : ∀ rec ∈ records, rec.Storable)
    (hall : ∀ rec ∈ records, rec.txID < target) {rest : Bytes} {e : LogError}
    (hstop : decodeRecord formatMaxRecordPayloadBytes rest = .error e) {fuel : Nat}
    (hfuel : records.length < fuel) :
    seekLoop target fuel (records.flatMap recordText ++ rest) = seekLoop target 1 rest := by
  induction records generalizing fuel with
  | nil =>
    obtain ⟨fuel, rfl⟩ : ∃ n, fuel = n + 1 := ⟨fuel - 1, by simp at hfuel; omega⟩
    rw [List.flatMap_nil, List.nil_append, seekLoop, seekLoop, hstop]
    cases e <;> rfl
  | cons rec records ih =>
    obtain ⟨hrec, hst⟩ := List.forall_mem_cons.mp hst
    obtain ⟨hlt, hall⟩ := List.forall_mem_cons.mp hall
    obtain ⟨fuel, rfl⟩ : ∃ n, fuel = n + 1 := ⟨fuel - 1, by simp at hfuel; omega⟩
    rw [List.flatMap_cons, List.append_assoc, seekLoop, decodeRecord_ok.mpr ⟨hrec, rfl⟩]
    dsimp only
    rw [if_neg (not_le.mpr hlt)]
    exact ih hst hall (by simpa using hfuel)

/-- An entry up to `maxKey` that passes the validation gives the offset of one of the records. -/
def OffsetIndex.PointsAt (idx : OffsetIndex) (content : Bytes) (records : List Record)
    (maxKey : TxID) : Prop :=
  ∀ i < idx.numEntries, ∀ key off, offsetIndexEntryAt idx.content i = (key, off) → key ≤ maxKey →
    validIndexedOffset content off key = true → ∃ before rec after,
      records = before ++ rec :: after ∧
        off = segmentHeaderSize + (before.flatMap recordText).length

section

variable {records : List Record} {rest : Bytes}

def segmentText (records : List Record) (rest : Bytes) : Bytes :=
  segmentHeader ++ (records.flatMap recordText ++ rest)

theorem drop_segmentText (before after : List Record) :
    (segmentText (before ++ after) rest).drop
        (segmentHeaderSize + (before.flatMap recordText).length) =
      after.flatMap recordText ++ rest := by
  rw [← List.drop_drop, segmentText, List.drop_left' length_segmentHeader, List.flatMap_append,
    List.append_assoc, List.drop_left]

theorem validIndexedOffset_segmentText {before after : List Record} {rec : Record}
    (hst : rec.Storable) (key : TxID) :
    validIndexedOffset (segmentText (before ++ rec :: after) rest)
      (segmentHeaderSize + (before.flatMap recordText).length) key = (rec.txID == key) := by
  have hdrop : (segmentText (before ++ rec :: after) rest).drop
      (segmentHeaderSize + (before.flatMap recordText).length) =
        recordText rec ++ (after.flatMap recordText ++ rest) := by
    rw [drop_segmentText, List.flatMap_cons, List.append_assoc]
  unfold validIndexedOffset
  rw [if_neg, hdrop, scanNextRecord_ok.mpr ⟨hst, rfl⟩]
  have hlen := congrArg List.length hdrop
  rw [List.length_drop, List.length_append, length_recordText, recordOverhead, recordHeaderSize]
    at hlen
  omega

theorem seekStart_cases (hst : ∀ rec ∈ records, rec.Storable) {idx : Option OffsetIndex}
    (hidx : ∀ i ∈ idx, i.PointsAt (segmentText records rest) records target) :
    ∃ before after, records = before ++ after ∧
      seekStart (segmentText records rest) target idx =
        segmentHeaderSize + (before.flatMap recordText).length ∧
      (before ≠ [] → ∃ rec ∈ after.head?, rec.txID ≤ target) := by
  unfold seekStart
  split
  · exact ⟨[], records, rfl, rfl, by simp⟩
  · next key off hlookup =>
    split
    · next hvalid =>
      obtain ⟨i, hi, hlookup⟩ := Option.bind_eq_some_iff.mp hlookup
      obtain ⟨hkey, j, hj, hentry⟩ := i.keyLookup_some hlookup
      obtain ⟨before, rec, after, hrecords, hoff⟩ :=
        hidx i hi j hj key off hentry hkey hvalid
      refine ⟨before, rec :: after, hrecords, hoff, fun _ => ⟨rec, rfl, ?_⟩⟩
      rw [hrecords, hoff, validIndexedOffset_segmentText (hst rec (by simp [hrecords])),
        beq_iff_eq] at hvalid
      exact hvalid.trans_le hkey
    · exact ⟨[], records, rfl, rfl, by simp⟩

theorem length_records_lt (hst : ∀ rec ∈ records, rec.Storable) :
    records.length < (segmentText records rest).length := by
  have htakes : Takes scanNextRecord (records.flatMap recordText ++ rest) records rest :=
    takes_scanNextRecord.mpr ⟨hst, rfl⟩
  have hlen := scanNextRecord_consumes.length_le htakes
  rw [segmentText, List.length_append, length_segmentHeader, segmentHeaderSize]
  omega

theorem dropWhile_of_head {before after : List Record}
    (hinc : (before ++ after).Pairwise (·.txID < ·.txID))
    (hhead : before ≠ [] → ∃ rec ∈ after.head?, rec.txID ≤ target) :
    (∀ rec ∈ before, rec.txID < target) ∧
      (before ++ after).dropWhile (·.txID < target) = after.dropWhile (·.txID < target) := by
  have hlt : ∀ rec ∈ before, rec.txID < target := by
    intro rec hrec
    obtain ⟨next, hnext, hle⟩ := hhead (List.ne_nil_of_mem hrec)
    have hmem := List.mem_of_mem_head? hnext
    exact ((List.pairwise_append.mp hinc).2.2 rec hrec next hmem).trans_le hle
  refine ⟨hlt, List.dropWhile_append_of_pos ?_⟩
  simpa using hlt

variable {target : TxID} {idx : Option OffsetIndex}

section

variable (hst : ∀ rec ∈ records, rec.Storable) (hinc : records.Pairwise (·.txID < ·.txID))
  (hidx : ∀ i ∈ idx, i.PointsAt (segmentText records rest) records target)
include hst hinc hidx

theorem seekToTxID_found (hex : ∃ rec ∈ records, target ≤ rec.txID) :
    seekToTxID (segmentText records rest) target idx =
      .ok ((records.dropWhile (·.txID < target)).flatMap recordText ++ rest) := by
  obtain ⟨before, after, hrecords, hstart, hhead⟩ := seekStart_cases hst hidx
  rw [seekToTxID, hstart]
  subst hrecords
  obtain ⟨hlt, hdropWhile⟩ := dropWhile_of_head hinc hhead
  rw [drop_segmentText, hdropWhile]
  refine seekLoop_dropWhile (fun r hr => hst r (by simp [hr])) ?_ rest ?_
  · obtain ⟨rec, hrec, hle⟩ := hex
    rcases List.mem_append.mp hrec with hin | hin
    · exact absurd (hlt rec hin) (not_lt.mpr hle)
    · exact ⟨rec, hin, hle⟩
  · have hlen : (before ++ after).length < (segmentText (before ++ after) rest).length :=
      length_records_lt hst
    rw [List.length_append] at hlen
    omega

theorem seekToTxID_eq_scan {e : LogError}
    (hstop : decodeRecord formatMaxRecordPayloadBytes rest = .error e) :
    seekToTxID (segmentText records rest) target idx =
      seekToTxID (segmentText records rest) target none := by
  by_cases hex : ∃ rec ∈ records, target ≤ rec.txID
  · rw [seekToTxID_found hst hinc hidx hex, seekToTxID_found hst hinc (by simp) hex]
  · push Not at hex
    have hpast : ∀ i, (∀ j ∈ i, OffsetIndex.PointsAt j (segmentText records rest) records target) →
        seekToTxID (segmentText records rest) target i = seekLoop target 1 rest := by
      intro i hi
      obtain ⟨before, after, hrecords, hstart, -⟩ := seekStart_cases hst hi
      have hlen : records.length < (segmentText records rest).length := length_records_lt hst
      rw [seekToTxID, hstart]
      subst hrecords
      rw [drop_segmentText]
      refine seekLoop_past (fun r hr => hst r (by simp [hr])) (fun r hr => hex r (by simp [hr]))
        hstop ?_
      rw [List.length_append] at hlen
      omega
    rw [hpast idx hidx, hpast none (by simp)]

end

end

end Shunter
