import Shunter.Commitlog.ChangesetCodec
import Shunter.Foundation.Stream

/-!
# Records of the commit log

A record is a header, the payload and a checksum over both.  The recovery scan
and the log reader have a reader each, with their checks in a different order;
both accept exactly the texts of storable records.
-/

namespace Shunter

open Foundation Reader

/-! ## CRC-32C -/

/-- The Castagnoli polynomial of `hash/crc32`, in reversed bit order. -/
def crc32cPolynomial : UInt32 := 0x82f63b78

def crc32cShift : Nat → UInt32 → UInt32
  | 0, c => c
  | n + 1, c =>
    crc32cShift n (if c &&& 1 = 1 then (c >>> 1) ^^^ crc32cPolynomial else c >>> 1)

def crc32cTable (b : UInt8) : UInt32 := crc32cShift 8 b.toUInt32

def crc32Update (crc : UInt32) (p : Bytes) : UInt32 :=
  ~~~p.foldl (fun c v => crc32cTable (c.toUInt8 ^^^ v) ^^^ (c >>> 8)) (~~~crc)

/-! ## Texts -/

def recordTypeChangeset : UInt8 := 1

def recordHeaderSize : Nat := 14

def recordCRCSize : Nat := 4

def recordOverhead : Nat := recordHeaderSize + recordCRCSize

structure Record where
  txID : TxID
  recordType : UInt8
  flags : UInt8
  payload : Bytes
  deriving DecidableEq

/-- What reading and writing the log can fail with; a segment is named by its first transaction. -/
inductive LogError where
  | eof
  | unexpectedEOF
  | notExist (segment : TxID)
  | alreadyExists (segment : TxID)
  | badMagic
  | badVersion (got : UInt8)
  | badFlags
  | truncatedRecord
  | recordTooLarge (size max : Nat)
  | recordTooLong (size : Nat)
  | checksumMismatch (expected got : Nat) (txID : TxID)
  | unknownRecordType (type : UInt8)
  | historyGap (expected got : TxID) (segment : TxID)
  | afterMaximum (got last : TxID) (segment : TxID)
  | appendAfterMaximum (got last : TxID)
  | bootstrapSegment (segment : TxID)
  | firstTxID (got start : TxID)
  | unexpectedTxID (got last : TxID)
  | noNextTxID (last : TxID)
  | appendForbidden (segment : TxID)
  | invalidResumePlan
  | outOfFuel
  deriving DecidableEq

def recordHeader (rec : Record) : Bytes :=
  littleEndian 8 rec.txID ++ ([rec.recordType, rec.flags] ++ littleEndian 4 rec.payload.length)

def computeRecordCRC (rec : Record) : UInt32 :=
  crc32Update (crc32Update 0 (recordHeader rec)) rec.payload

def recordText (rec : Record) : Bytes :=
  recordHeader rec ++ (rec.payload ++ littleEndian 4 (computeRecordCRC rec).toNat)

def encodeRecord (rec : Record) : Except LogError Bytes :=
  if rec.payload.length > 2 ^ 32 - 1 then .error (.recordTooLong rec.payload.length)
  else .ok (recordText rec)

/-! ## Readers -/

def allBytesZero (p : Bytes) : Bool := p.all (· == 0)

def checkRecord (rec : Record) (expectedCRC : Nat) : Except LogError Record :=
  let actualCRC := (computeRecordCRC rec).toNat
  if expectedCRC ≠ actualCRC then .error (.checksumMismatch expectedCRC actualCRC rec.txID)
  else if rec.recordType ≠ recordTypeChangeset then .error (.unknownRecordType rec.recordType)
  else if rec.flags ≠ 0 then .error .badFlags
  else .ok rec

/-- The end of both record readers: payload, checksum and checks. -/
def readRecordBody (header : Bytes) (dataLen : Nat) : Reader LogError Record := fun input => do
  let (payload, rest) ← takeBytes (fun _ => .truncatedRecord) dataLen input
  let (crcBuf, rest) ← takeBytes (fun _ => .truncatedRecord) recordCRCSize rest
  let record ← checkRecord
    ⟨littleEndianValue (header.take 8), header.getD 8 0, header.getD 9 0, payload⟩
    (littleEndianValue crcBuf)
  .ok (record, rest)

def recordDataLen (header : Bytes) : Nat := littleEndianValue (header.drop 10)

/-- An empty input and one that is all zero where a header should be end the stream. -/
def decodeRecord (maxPayload : Nat) : Reader LogError Record := fun input =>
  if input.length < recordHeaderSize then
    if allBytesZero input then .error .eof else .error .truncatedRecord
  else
    let header := input.take recordHeaderSize
    if allBytesZero header then .error .eof
    else
      let maxPayload := if maxPayload = 0 then formatMaxRecordPayloadBytes else maxPayload
      if recordDataLen header > maxPayload then
        .error (.recordTooLarge (recordDataLen header) maxPayload)
      else readRecordBody header (recordDataLen header) (input.drop recordHeaderSize)

/-- The reader of the scan looks at the length of the file first. -/
def scanNextRecord : Reader LogError Record := fun input =>
  if input.length < recordHeaderSize then
    if allBytesZero input then .error .eof else .error .truncatedRecord
  else
    let header := input.take recordHeaderSize
    let rest := input.drop recordHeaderSize
    if allBytesZero header then
      if allBytesZero rest then .error .eof else .error .truncatedRecord
    else if recordDataLen header + recordCRCSize > rest.length then .error .truncatedRecord
    else if recordDataLen header > formatMaxRecordPayloadBytes then
      .error (.recordTooLarge (recordDataLen header) formatMaxRecordPayloadBytes)
    else readRecordBody header (recordDataLen header) rest

def isDamagedTailError : LogError → Bool
  | .truncatedRecord => true
  | .checksumMismatch .. => true
  | _ => false

/-! ## What is accepted -/

structure Record.Storable (rec : Record) : Prop where
  txID : rec.txID < 2 ^ 64
  recordType : rec.recordType = recordTypeChangeset
  flags : rec.flags = 0
  payload : rec.payload.length ≤ formatMaxRecordPayloadBytes

@[simp] theorem length_recordHeader (rec : Record) : (recordHeader rec).length = recordHeaderSize := by
  simp [recordHeader, recordHeaderSize]

@[simp] theorem length_recordText (rec : Record) :
    (recordText rec).length = recordOverhead + rec.payload.length := by
  simp only [recordText, List.length_append, length_recordHeader, length_littleEndian,
    recordOverhead, recordCRCSize]
  omega

variable {rec : Record}

theorem recordDataLen_recordHeader (h : rec.payload.length < 2 ^ 32) :
    recordDataLen (recordHeader rec) = rec.payload.length := by
  have hdrop : (recordHeader rec).drop 10 = littleEndian 4 rec.payload.length := by
    rw [recordHeader, ← List.append_assoc]
    exact List.drop_left' (by simp)
  rw [recordDataLen, hdrop, littleEndianValue_littleEndian (by omega)]

theorem allBytesZero_recordHeader (h : rec.recordType = recordTypeChangeset) :
    allBytesZero (recordHeader rec) = false := by
  simp [allBytesZero, recordHeader, h, recordTypeChangeset]

theorem checkRecord_ok {rec' : Record} {expectedCRC : Nat} :
    checkRecord rec expectedCRC = .ok rec' ↔ rec' = rec ∧
      expectedCRC = (computeRecordCRC rec).toNat ∧ rec.recordType = recordTypeChangeset ∧
        rec.flags = 0 := by
  unfold checkRecord
  grind

variable {input rest : Bytes} {header : Bytes}

theorem readRecordBody_ok {dataLen : Nat} :
    readRecordBody header dataLen input = .ok (rec, rest) ↔
      rec.txID = littleEndianValue (header.take 8) ∧ rec.recordType = header.getD 8 0 ∧
        rec.flags = header.getD 9 0 ∧ rec.recordType = recordTypeChangeset ∧ rec.flags = 0 ∧
        rec.payload.length = dataLen ∧
        input = rec.payload ++ (littleEndian 4 (computeRecordCRC rec).toNat ++ rest) := by
  simp only [readRecordBody, except_bind_eq_ok, takeBytes_eq_ok, checkRecord_ok, Except.ok.injEq,
    Prod.mk.injEq, Prod.exists]
  constructor
  · rintro ⟨payload, y, ⟨rfl, hlen⟩, crcBuf, z, ⟨rfl, hcrcLen⟩, _, ⟨rfl, hcrc, htype, hflags⟩,
      rfl, rfl⟩
    refine ⟨rfl, rfl, rfl, htype, hflags, hlen, ?_⟩
    rw [← hcrc, ← (show crcBuf.length = 4 from hcrcLen), littleEndian_littleEndianValue]
  · obtain ⟨txID, recordType, flags, payload⟩ := rec
    rintro ⟨rfl, rfl, rfl, htype, hflags, hlen, rfl⟩
    refine ⟨payload, _, ⟨rfl, hlen⟩, _, rest, ⟨rfl, length_littleEndian _ _⟩, _,
      ⟨rfl, ?_, htype, hflags⟩, rfl, rfl⟩
    exact littleEndianValue_littleEndian (UInt32.toNat_lt _)

theorem recordHeader_eq (hlen : header.length = recordHeaderSize)
    (htx : rec.txID = littleEndianValue (header.take 8))
    (hty : rec.recordType = header.getD 8 0) (hfl : rec.flags = header.getD 9 0)
    (hpl : rec.payload.length = recordDataLen header) : recordHeader rec = header := by
  unfold recordHeaderSize at hlen
  have htake : (header.take 8).length = 8 := by simp [hlen]
  have hdrop : (header.drop 10).length = 4 := by simp [hlen]
  have hmid : header.drop 8 = [header.getD 8 0, header.getD 9 0] ++ header.drop 10 := by
    rw [List.drop_eq_getElem_cons (by omega), List.drop_eq_getElem_cons (by omega)]
    simp [List.getD, hlen]
  calc recordHeader rec
      = littleEndian (header.take 8).length (littleEndianValue (header.take 8)) ++
          ([header.getD 8 0, header.getD 9 0] ++
            littleEndian (header.drop 10).length (littleEndianValue (header.drop 10))) := by
        rw [recordHeader, htx, hty, hfl, hpl, recordDataLen, htake, hdrop]
    _ = header.take 8 ++ header.drop 8 := by
        rw [littleEndian_littleEndianValue, littleEndian_littleEndianValue, hmid]
    _ = header := List.take_append_drop 8 header

theorem recordHeader_take (h : rec.txID < 2 ^ 64) :
    littleEndianValue ((recordHeader rec).take 8) = rec.txID := by
  rw [recordHeader, List.take_left' (length_littleEndian _ _),
    littleEndianValue_littleEndian (by omega)]

theorem recordHeader_getD (rec : Record) :
    (recordHeader rec).getD 8 0 = rec.recordType ∧ (recordHeader rec).getD 9 0 = rec.flags := by
  simp [recordHeader]

theorem take_recordText (rec : Record) (rest : Bytes) :
    (recordText rec ++ rest).take recordHeaderSize = recordHeader rec := by
  rw [recordText, List.append_assoc]
  exact List.take_left' (length_recordHeader rec)

theorem drop_recordText (rec : Record) (rest : Bytes) :
    (recordText rec ++ rest).drop recordHeaderSize =
      rec.payload ++ (littleEndian 4 (computeRecordCRC rec).toNat ++ rest) := by
  rw [recordText, List.append_assoc, List.append_assoc]
  exact List.drop_left' (length_recordHeader rec)

theorem readRecordBody_text (hlen : recordHeaderSize ≤ input.length) :
    readRecordBody (input.take recordHeaderSize) (recordDataLen (input.take recordHeaderSize))
        (input.drop recordHeaderSize) = .ok (rec, rest) ↔
      (rec.txID < 2 ^ 64 ∧ rec.recordType = recordTypeChangeset ∧ rec.flags = 0 ∧
        rec.payload.length < 2 ^ 32) ∧ input = recordText rec ++ rest := by
  rw [readRecordBody_ok]
  constructor
  · rintro ⟨htx, hty, hfl, htype, hflags, hpl, hdrop⟩
    have hheader := recordHeader_eq (by simpa using hlen) htx hty hfl hpl
    refine ⟨⟨?_, htype, hflags, ?_⟩, ?_⟩
    · rw [htx]
      refine (littleEndianValue_lt _).trans_le (Nat.pow_le_pow_right (j := 8) (by decide) ?_)
      rw [List.length_take]
      omega
    · rw [hpl]
      refine (littleEndianValue_lt _).trans_le (Nat.pow_le_pow_right (j := 4) (by decide) ?_)
      rw [List.length_drop, List.length_take, recordHeaderSize]
      omega
    · rw [← List.take_append_drop recordHeaderSize input, hdrop, ← hheader, recordText]
      simp
  · rintro ⟨⟨htx, htype, hflags, hpl⟩, rfl⟩
    rw [take_recordText, drop_recordText, recordDataLen_recordHeader hpl, recordHeader_take htx,
      (recordHeader_getD rec).1, (recordHeader_getD rec).2]
    exact ⟨rfl, rfl, rfl, htype, hflags, rfl, rfl⟩

theorem storable_text_iff (hlen : recordHeaderSize ≤ input.length) :
    (rec.Storable ∧ input = recordText rec ++ rest) ↔
      readRecordBody (input.take recordHeaderSize) (recordDataLen (input.take recordHeaderSize))
          (input.drop recordHeaderSize) = .ok (rec, rest) ∧
        recordDataLen (input.take recordHeaderSize) ≤ formatMaxRecordPayloadBytes := by
  rw [readRecordBody_text hlen]
  constructor
  · rintro ⟨⟨htx, hty, hfl, hpl⟩, rfl⟩
    have hmax : rec.payload.length < 2 ^ 32 := hpl.trans_lt (by decide)
    rw [take_recordText, recordDataLen_recordHeader hmax]
    exact ⟨⟨⟨htx, hty, hfl, hmax⟩, rfl⟩, hpl⟩
  · rintro ⟨⟨⟨htx, hty, hfl, hmax⟩, rfl⟩, hpl⟩
    rw [take_recordText, recordDataLen_recordHeader hmax] at hpl
    exact ⟨⟨htx, hty, hfl, hpl⟩, rfl⟩

theorem Record.Storable.length_lt (h : rec.Storable) :
    rec.payload.length < 2 ^ 32 := h.payload.trans_lt (by decide)

theorem le_length_text (rec : Record) (rest : Bytes) :
    ¬ (recordText rec ++ rest).length < recordHeaderSize := by
  rw [List.length_append, length_recordText, recordOverhead]
  omega

theorem scanNextRecord_ok :
    scanNextRecord input = .ok (rec, rest) ↔ rec.Storable ∧ input = recordText rec ++ rest := by
  constructor
  · fun_cases scanNextRecord input
    case case7 hlen _ _ _ _ hmax =>
      exact fun h => (storable_text_iff (not_lt.mp hlen)).mpr ⟨h, not_lt.mp hmax⟩
    all_goals rintro ⟨⟩
  · rintro ⟨hst, rfl⟩
    have hlen := le_length_text rec rest
    obtain ⟨hbody, hmax⟩ := (storable_text_iff (not_lt.mp hlen)).mp ⟨hst, rfl⟩
    unfold scanNextRecord
    rw [if_neg hlen]
    dsimp only
    rw [take_recordText, recordDataLen_recordHeader hst.length_lt] at hbody hmax ⊢
    rw [allBytesZero_recordHeader hst.recordType, if_neg Bool.false_ne_true, if_neg,
      if_neg (not_lt.mpr hmax), hbody]
    rw [drop_recordText, List.length_append, List.length_append, length_littleEndian,
      recordCRCSize]
    omega

theorem decodeRecord_ok :
    decodeRecord formatMaxRecordPayloadBytes input = .ok (rec, rest) ↔
      rec.Storable ∧ input = recordText rec ++ rest := by
  constructor
  · fun_cases decodeRecord formatMaxRecordPayloadBytes input
    case case5 hlen _ _ _ hmax =>
      exact fun h => (storable_text_iff (not_lt.mp hlen)).mpr ⟨h, not_lt.mp hmax⟩
    all_goals rintro ⟨⟩
  · rintro ⟨hst, rfl⟩
    have hlen := le_length_text rec rest
    obtain ⟨hbody, hmax⟩ := (storable_text_iff (not_lt.mp hlen)).mp ⟨hst, rfl⟩
    unfold decodeRecord
    rw [if_neg hlen]
    dsimp only
    rw [take_recordText, recordDataLen_recordHeader hst.length_lt] at hbody hmax ⊢
    rw [allBytesZero_recordHeader hst.recordType, if_neg Bool.false_ne_true, ite_self,
      if_neg (not_lt.mpr hmax), hbody]

theorem decodeRecord_eq_scanNextRecord {p : Record × Bytes} (h : scanNextRecord input = .ok p) :
    decodeRecord formatMaxRecordPayloadBytes input = .ok p :=
  decodeRecord_ok.mpr (scanNextRecord_ok.mp h)

theorem scanNextRecord_consumes : Consumes scanNextRecord := by
  intro input rec rest h
  obtain ⟨-, rfl⟩ := scanNextRecord_ok.mp h
  rw [List.length_append, length_recordText, recordOverhead, recordHeaderSize]
  omega

theorem takes_scanNextRecord {records : List Record} :
    Takes scanNextRecord input records rest ↔
      (∀ rec ∈ records, rec.Storable) ∧ input = records.flatMap recordText ++ rest := by
  induction records generalizing input with
  | nil =>
    constructor
    · rintro ⟨⟩
      simp
    · rintro ⟨-, rfl⟩
      exact .nil _
  | cons rec records ih =>
    rw [List.forall_mem_cons, List.flatMap_cons, List.append_assoc]
    constructor
    · intro h
      cases h with
      | cons hnext htakes =>
        obtain ⟨hst, rfl⟩ := scanNextRecord_ok.mp hnext
        obtain ⟨hall, rfl⟩ := ih.mp htakes
        exact ⟨⟨hst, hall⟩, rfl⟩
    · rintro ⟨⟨hst, hall⟩, rfl⟩
      exact .cons (scanNextRecord_ok.mpr ⟨hst, rfl⟩) (ih.mpr ⟨hall, rfl⟩)

/-! ## Ends of the stream -/

theorem checkRecord_ne_eof {crc : Nat} : checkRecord rec crc ≠ .error .eof := by
  unfold checkRecord
  grind

theorem readRecordBody_ne_eof {dataLen : Nat} :
    readRecordBody header dataLen input ≠ .error .eof := by
  simp [readRecordBody, except_bind_eq_error, takeBytes_eq_error, checkRecord_ne_eof]

theorem allBytesZero_append (p q : Bytes) :
    allBytesZero (p ++ q) = (allBytesZero p && allBytesZero q) := List.all_append

theorem allBytesZero_split (n : Nat) (p : Bytes) :
    allBytesZero p = (allBytesZero (p.take n) && allBytesZero (p.drop n)) := by
  rw [← allBytesZero_append, List.take_append_drop]

theorem scanNextRecord_eof : scanNextRecord input = .error .eof ↔ allBytesZero input = true := by
  unfold scanNextRecord
  split
  · split <;> simp_all
  · rw [allBytesZero_split recordHeaderSize input, Bool.and_eq_true]
    dsimp only
    split
    · split <;> simp_all
    · next hheader =>
      refine iff_of_false ?_ fun h => hheader h.1
      split
      · simp
      · split
        · simp
        · exact readRecordBody_ne_eof

theorem decodeRecord_eof (h : allBytesZero input = true) (maxPayload : Nat) :
    decodeRecord maxPayload input = .error .eof := by
  have hheader := h
  rw [allBytesZero_split recordHeaderSize, Bool.and_eq_true] at hheader
  unfold decodeRecord
  rw [h, if_pos rfl]
  split
  · rfl
  · exact if_pos hheader.1

theorem scanNextRecord_cut (hst : rec.Storable) {n : Nat} (hn : n < (recordText rec).length) :
    scanNextRecord ((recordText rec).take n) =
      if allBytesZero ((recordText rec).take n) then .error .eof else .error .truncatedRecord := by
  have hlen : ((recordText rec).take n).length = n := by simpa using hn.le
  unfold scanNextRecord
  rw [hlen]
  split
  · rfl
  · next hshort =>
    have htake : ((recordText rec).take n).take recordHeaderSize = recordHeader rec := by
      rw [List.take_take, min_eq_left (not_lt.mp hshort)]
      simpa using take_recordText rec []
    have hzero : allBytesZero ((recordText rec).take n) = false := by
      rw [allBytesZero_split recordHeaderSize, htake,
        allBytesZero_recordHeader hst.recordType, Bool.false_and]
    dsimp only
    rw [hzero, htake, allBytesZero_recordHeader hst.recordType, if_neg Bool.false_ne_true,
      if_neg Bool.false_ne_true, recordDataLen_recordHeader hst.length_lt, if_pos]
    rw [length_recordText, recordOverhead] at hn
    rw [List.length_drop, hlen]
    omega

end Shunter
