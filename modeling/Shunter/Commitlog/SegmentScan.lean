import Shunter.Commitlog.Segment

/-!
# What the scan accepts

A scanned segment is a header, the texts of records with consecutive
transaction identifiers and a tail in which the reader stops.  The segments of
a directory follow each other without a gap.
-/

namespace Shunter

open Foundation Reader

/-! ## Headers -/

@[simp] theorem length_segmentHeader : segmentHeader.length = segmentHeaderSize := rfl

variable {content body : Bytes}

private theorem drop_four (hlen : 8 ≤ content.length) :
    content.drop 4 = content.getD 4 0 :: content.getD 5 0 :: content.getD 6 0 ::
      content.getD 7 0 :: content.drop 8 := by
  rw [List.getD_eq_getElem _ _ (by omega), List.getD_eq_getElem _ _ (by omega),
    List.getD_eq_getElem _ _ (by omega), List.getD_eq_getElem _ _ (by omega),
    List.getElem_cons_drop, List.getElem_cons_drop, List.getElem_cons_drop,
    List.getElem_cons_drop]

theorem readSegmentHeader_ok :
    readSegmentHeader content = .ok body ↔ content = segmentHeader ++ body := by
  constructor
  · intro h
    revert h
    fun_cases readSegmentHeader content <;> rintro ⟨⟩
    next _ hlen hmagic hversion hflags =>
      rw [not_not] at hmagic hversion
      simp only [not_or, not_not] at hflags
      have htail := drop_four (not_lt.mp hlen)
      rw [hversion, hflags.1, hflags.2.1, hflags.2.2] at htail
      rw [segmentHeader, ← hmagic, List.append_assoc]
      exact (List.take_append_drop 4 content).symm.trans (by rw [htail]; rfl)
  · rintro rfl
    simp [readSegmentHeader, segmentHeader, segmentMagic, segmentVersion, segmentHeaderSize]

theorem readSegmentHeader_eof : readSegmentHeader content = .error .eof ↔ content = [] := by
  unfold readSegmentHeader
  grind

variable {startTx : TxID}

theorem openSegment_ok {dir : LogDir} :
    openSegment dir startTx = .ok body ↔ dir.segments[startTx]? = some (segmentHeader ++ body) := by
  unfold openSegment
  cases dir.segments[startTx]? with
  | none => simp
  | some content => simp [readSegmentHeader_ok]

theorem openSegment_eof {dir : LogDir} :
    openSegment dir startTx = .error .eof ↔ dir.segments[startTx]? = some [] := by
  unfold openSegment
  cases dir.segments[startTx]? with
  | none => simp
  | some content => simp [readSegmentHeader_eof]

/-! ## Consecutive records -/

/-- The transactions of the records, from `startTx` on without a gap. -/
def Consecutive (startTx : TxID) (records : List Record) : Prop :=
  records.map (·.txID) = List.range' startTx records.length

theorem Consecutive.nil (startTx : TxID) : Consecutive startTx [] := rfl

variable {records : List Record}

theorem consecutive_append {records' : List Record} :
    Consecutive startTx (records ++ records') ↔
      Consecutive startTx records ∧ Consecutive (startTx + records.length) records' := by
  unfold Consecutive
  rw [List.map_append, List.length_append, ← List.range'_append_1]
  constructor
  · exact fun h => List.append_inj h (by simp)
  · rintro ⟨h, h'⟩
    rw [h, h']

variable {rec : Record}

theorem consecutive_cons :
    Consecutive startTx (rec :: records) ↔
      rec.txID = startTx ∧ Consecutive (startTx + 1) records := by
  rw [Consecutive, List.map_cons, List.length_cons, List.range'_succ, List.cons.injEq, Consecutive]

section

variable (h : Consecutive startTx records)
include h

theorem Consecutive.getLast (hne : records ≠ []) :
    (records.getLast hne).txID = startTx + records.length - 1 := by
  have hsplit := h
  rw [← List.dropLast_append_getLast hne, consecutive_append] at hsplit
  have hlast : [(records.getLast hne).txID] = [startTx + records.dropLast.length] := hsplit.2
  have hpos := List.length_pos_iff.mpr hne
  rw [List.cons.injEq, List.length_dropLast] at hlast
  lia

theorem Consecutive.pairwise : records.Pairwise (·.txID < ·.txID) := by
  have hlt := List.pairwise_lt_range' (s := startTx) (n := records.length)
  rw [← (h : records.map _ = _)] at hlt
  exact List.pairwise_map.mp hlt

theorem Consecutive.mem (hrec : rec ∈ records) :
    startTx ≤ rec.txID ∧ rec.txID < startTx + records.length := by
  have hmem : rec.txID ∈ records.map (·.txID) := List.mem_map_of_mem hrec
  rw [(h : records.map _ = _), List.mem_range'_1] at hmem
  exact hmem

end

/-- The state of the loop after records that it accepted. -/
def ScanState.after (startTx : TxID) (records : List Record) : ScanState :=
  ⟨if records = [] then 0 else startTx + records.length - 1, records.length, records⟩

theorem checkRecordTxID_after (startTx : TxID) (records : List Record) (hst : rec.Storable) :
    checkRecordTxID startTx (.after startTx records) rec = .ok () ↔
      rec.txID = startTx + records.length := by
  have htx := hst.txID
  cases records with
  | nil => simp [checkRecordTxID, ScanState.after]
  | cons r records =>
    simp only [checkRecordTxID, ScanState.after, List.length_cons, Nat.succ_ne_zero, if_false,
      nextContiguousRecordTxID, maxTxID, List.cons_ne_nil]
    split
    · simp only [bind, Except.bind, reduceCtorEq, false_iff]
      lia
    · simp only [bind, Except.bind, ite_not]
      split <;> simp <;> lia

theorem ScanState.accept_after (h : rec.txID = startTx + records.length) :
    (ScanState.after startTx records).accept rec = .after startTx (records ++ [rec]) := by
  simp [accept, after, h]

variable {s : ScanState}

section

variable {ρ : Type} {startTx : TxID} {records : List Record}

theorem scanStep_error {w : Except LogError ρ} (h : scanStep startTx s rec = .error w) :
    ∃ e, w = .error e := by
  unfold scanStep at h
  split at h
  · cases h
    exact ⟨_, rfl⟩
  · cases h

theorem foldlM_scanStep_error {w : Except LogError ρ}
    (h : records.foldlM (scanStep startTx) s = .error w) : ∃ e, w = .error e := by
  induction records generalizing s with
  | nil => cases h
  | cons rec records ih =>
    rw [List.foldlM_cons] at h
    rcases except_bind_eq_error.mp h with h | ⟨s', -, h⟩
    · exact scanStep_error h
    · exact ih h

theorem foldlM_scanStep_after (hst : ∀ rec ∈ records, rec.Storable) (done : List Record) :
    records.foldlM (scanStep (ρ := ρ) startTx) (.after startTx done) = .ok s ↔
      records.map (·.txID) = List.range' (startTx + done.length) records.length ∧
        s = .after startTx (done ++ records) := by
  induction records generalizing done with
  | nil => simp [pure, Except.pure, eq_comm]
  | cons rec records ih =>
    obtain ⟨hrec, hst⟩ := List.forall_mem_cons.mp hst
    rw [List.foldlM_cons, except_bind_eq_ok, List.map_cons, List.length_cons, List.range'_succ,
      List.cons.injEq]
    have ih' := ih hst (done ++ [rec])
    rw [List.length_append, List.length_singleton, ← Nat.add_assoc, List.append_assoc,
      List.singleton_append] at ih'
    have hcheck := checkRecordTxID_after startTx done hrec
    constructor
    · rintro ⟨s', hstep, hrest⟩
      unfold scanStep at hstep
      split at hstep
      · cases hstep
      · next hok =>
        have htx := hcheck.mp hok
        cases hstep
        rw [ScanState.accept_after htx, ih'] at hrest
        exact ⟨⟨htx, hrest.1⟩, hrest.2⟩
    · rintro ⟨⟨htx, hmap⟩, hs⟩
      refine ⟨_, ?_, ih'.mpr ⟨hmap, hs⟩⟩
      rw [scanStep, hcheck.mpr htx, ScanState.accept_after htx]

theorem foldlM_scanStep_start (hst : ∀ rec ∈ records, rec.Storable) :
    records.foldlM (scanStep (ρ := ρ) startTx) .start = .ok s ↔
      Consecutive startTx records ∧ s = .after startTx records :=
  foldlM_scanStep_after hst []

end

/-! ## One segment -/

/-- How a segment may end: what the reader stops with, and how writing goes on. -/
inductive SegmentEnds (isLast : Bool) (records : List Record) : LogError → AppendMode → Prop
  | clean : SegmentEnds isLast records .eof (if isLast then .inPlace else .forbidden)
  | damaged {e : LogError} (hdamaged : isDamagedTailError e = true)
      (hallowed : records ≠ [] ∨ isLast = true) : SegmentEnds isLast records e .freshNextSegment

structure ScannedBody (startTx : TxID) (isLast : Bool) (segment : ScannedSegment)
    (body rest : Bytes) (e : LogError) : Prop where
  streams : Streams scanNextRecord body segment.records rest e
  consecutive : Consecutive startTx segment.records
  lastTx : segment.info.lastTx = startTx + segment.records.length - 1
  startTx : segment.info.startTx = startTx
  ends : SegmentEnds isLast segment.records e segment.info.appendMode

section

variable {startTx : TxID} {isLast : Bool} {segment : ScannedSegment} {body rest : Bytes}
  {e : LogError}

section

variable (h : ScannedBody startTx isLast segment body rest e)
include h

theorem ScannedBody.storable : ∀ rec ∈ segment.records, rec.Storable :=
  (takes_scanNextRecord.mp h.streams.takes).1

theorem ScannedBody.text : body = segment.records.flatMap recordText ++ rest :=
  (takes_scanNextRecord.mp h.streams.takes).2

theorem ScannedBody.getLast_txID (hne : segment.records ≠ []) :
    (segment.records.getLast hne).txID = segment.info.lastTx := by
  rw [h.lastTx, h.consecutive.getLast hne]

end

end

variable {segment : ScannedSegment} {isLast : Bool}

theorem scanFinish_ok {rest : Bytes} {e : LogError} :
    scanFinish startTx isLast (.after startTx records) rest e = .ok segment ↔
      ∃ mode, SegmentEnds isLast records e mode ∧
        segment = ⟨⟨startTx, startTx + records.length - 1, mode⟩, records⟩ := by
  have hlast : (if records.length = 0 then startTx - 1
      else if records = [] then 0 else startTx + records.length - 1) =
        startTx + records.length - 1 := by
    cases records <;> simp
  have hcount : (decide (0 < records.length) || isLast) = true ↔
      records ≠ [] ∨ isLast = true := by
    cases records <;> simp
  unfold scanFinish ScanState.after
  simp only [hlast]
  constructor
  · intro h
    split at h
    · next heof =>
      cases h
      subst heof
      exact ⟨_, .clean, rfl⟩
    · split at h
      · next hdamaged =>
        cases h
        rw [Bool.and_eq_true, hcount] at hdamaged
        exact ⟨_, .damaged hdamaged.1 hdamaged.2, rfl⟩
      · cases h
  · rintro ⟨mode, hends, rfl⟩
    cases hends with
    | clean => rw [if_pos rfl]
    | damaged hdamaged hallowed =>
      rw [if_neg (by rintro rfl; cases hdamaged), if_pos]
      rw [Bool.and_eq_true, hcount]
      exact ⟨hdamaged, hallowed⟩

inductive ScannedAs (dir : LogDir) (startTx : TxID) (isLast : Bool) (segment : ScannedSegment) : Prop
  | empty (hlast : isLast = true) (hfile : dir.segments[startTx]? = some [])
      (hsegment : segment = ⟨⟨startTx, startTx - 1, .freshNextSegment⟩, []⟩)
  | body {body rest : Bytes} {e : LogError}
      (hfile : dir.segments[startTx]? = some (segmentHeader ++ body))
      (hbody : ScannedBody startTx isLast segment body rest e)

variable {dir : LogDir}

theorem ScannedAs.facts (h : ScannedAs dir startTx isLast segment) :
    segment.info.startTx = startTx ∧
      segment.info.lastTx = startTx + segment.records.length - 1 ∧
      Consecutive startTx segment.records := by
  rcases h with ⟨-, -, rfl⟩ | ⟨-, hbody⟩
  · exact ⟨rfl, rfl, .nil _⟩
  · exact ⟨hbody.startTx, hbody.lastTx, hbody.consecutive⟩

theorem ScannedAs.mem_le_lastTx (h : ScannedAs dir startTx isLast segment)
    (hrec : rec ∈ segment.records) :
    segment.info.startTx ≤ rec.txID ∧ rec.txID ≤ segment.info.lastTx := by
  obtain ⟨hstart, hlast, hcons⟩ := h.facts
  have := hcons.mem hrec
  lia

theorem scanBody_ok :
    consume scanNextRecord (scanStep startTx) (scanFinish startTx isLast) (.error .outOfFuel)
        (body.length + 1) .start body = .ok segment ↔
      ∃ rest e, ScannedBody startTx isLast segment body rest e := by
  obtain ⟨records, rest, e, hstreams⟩ := scanNextRecord_consumes.exists_streams body
  have hlen := scanNextRecord_consumes.length_le hstreams.takes
  have hst := (takes_scanNextRecord.mp hstreams.takes).1
  rw [consume_eq hstreams (by omega)]
  cases hfold : records.foldlM (scanStep startTx) ScanState.start with
  | error w =>
    obtain ⟨e', rfl⟩ := foldlM_scanStep_error hfold
    simp only [reduceCtorEq, false_iff, not_exists]
    intro rest' e' hbody
    obtain ⟨rfl, -⟩ := hstreams.unique hbody.streams
    rw [(foldlM_scanStep_start hst).mpr ⟨hbody.consecutive, rfl⟩] at hfold
    cases hfold
  | ok s =>
    obtain ⟨hcons, rfl⟩ := (foldlM_scanStep_start hst).mp hfold
    dsimp only
    rw [scanFinish_ok]
    constructor
    · rintro ⟨mode, hends, rfl⟩
      exact ⟨rest, e, hstreams, hcons, rfl, rfl, hends⟩
    · rintro ⟨rest', e', hbody⟩
      obtain ⟨rfl, rfl, rfl⟩ := hstreams.unique hbody.streams
      refine ⟨segment.info.appendMode, hbody.ends, ?_⟩
      rw [← hbody.lastTx, ← hbody.startTx]

theorem scanOneSegment_ok :
    scanOneSegment dir startTx isLast = .ok segment ↔ ScannedAs dir startTx isLast segment := by
  unfold scanOneSegment
  cases hopen : openSegment dir startTx with
  | error e =>
    have hne : ∀ body, dir.segments[startTx]? ≠ some (segmentHeader ++ body) := by
      intro body hfile
      rw [openSegment_ok.mpr hfile] at hopen
      cases hopen
    dsimp only
    constructor
    · intro h
      split at h
      · next hcond =>
        rw [Bool.and_eq_true, beq_iff_eq] at hcond
        obtain ⟨hlast, rfl⟩ := hcond
        cases h
        exact .empty hlast (openSegment_eof.mp hopen) rfl
      · cases h
    · rintro (⟨rfl, hfile, rfl⟩ | ⟨hfile, -⟩)
      · rw [openSegment_eof.mpr hfile, Except.error.injEq] at hopen
        subst hopen
        rfl
      · exact absurd hfile (hne _)
  | ok body =>
    have hfile := openSegment_ok.mp hopen
    dsimp only
    rw [scanBody_ok]
    constructor
    · rintro ⟨rest, e, hbody⟩
      exact .body hfile hbody
    · rintro (⟨-, hempty, -⟩ | ⟨hfile', hbody⟩)
      · rw [hfile] at hempty
        cases hempty
      · rw [hfile, Option.some.injEq] at hfile'
        cases List.append_cancel_left hfile'
        exact ⟨_, _, hbody⟩

/-! ## All segments -/

/-- The scanned segments of a list of files, of which only the last may be incomplete. -/
inductive ScannedAll (dir : LogDir) : List TxID → List ScannedSegment → Prop
  | nil : ScannedAll dir [] []
  | cons {path : TxID} {paths : List TxID} {segment : ScannedSegment}
      {segments : List ScannedSegment} (hsegment : ScannedAs dir path paths.isEmpty segment)
      (hsegments : ScannedAll dir paths segments) :
      ScannedAll dir (path :: paths) (segment :: segments)

variable {paths : List TxID} {segments : List ScannedSegment}

theorem scanEachSegment_ok :
    scanEachSegment dir paths = .ok segments ↔ ScannedAll dir paths segments := by
  induction paths generalizing segments with
  | nil =>
    constructor
    · rintro ⟨⟩
      exact .nil
    · rintro ⟨⟩
      rfl
  | cons path paths ih =>
    simp only [scanEachSegment, except_bind_eq_ok, scanOneSegment_ok, ih]
    constructor
    · rintro ⟨segment, hsegment, segments, hsegments, ⟨⟩⟩
      exact .cons hsegment hsegments
    · intro h
      cases h with
      | cons hsegment hsegments => exact ⟨_, hsegment, _, hsegments, rfl⟩

/-- A segment begins right after the last transaction of its predecessor. -/
def SegmentInfo.FollowedBy (prev cur : SegmentInfo) : Prop :=
  prev.lastTx ≠ maxTxID ∧ cur.startTx = prev.lastTx + 1

theorem nextContiguousRecordTxID_ok {lastTx gotTx segment expected : TxID} :
    nextContiguousRecordTxID lastTx gotTx segment = .ok expected ↔
      lastTx ≠ maxTxID ∧ expected = lastTx + 1 := by
  unfold nextContiguousRecordTxID
  split <;> simp_all [eq_comm]

theorem validateSegmentContinuity_ok {segments : List SegmentInfo} :
    validateSegmentContinuity segments = .ok () ↔
      segments.IsChain SegmentInfo.FollowedBy := by
  induction segments using validateSegmentContinuity.induct with
  | case1 prev cur segments ih =>
    rw [List.isChain_cons_cons, ← ih, validateSegmentContinuity, except_bind_eq_ok]
    simp only [nextContiguousRecordTxID_ok, SegmentInfo.FollowedBy]
    constructor
    · rintro ⟨_, ⟨hmax, rfl⟩, h⟩
      split at h
      · cases h
      · next hstart => exact ⟨⟨hmax, not_not.mp hstart⟩, h⟩
    · rintro ⟨⟨hmax, hstart⟩, h⟩
      exact ⟨_, ⟨hmax, rfl⟩, by rw [if_neg (not_not.mpr hstart), h]⟩
  | case2 segments hshort =>
    match segments with
    | [] => simp [validateSegmentContinuity]
    | [segment] => simp [validateSegmentContinuity]
    | prev :: cur :: segments => exact absurd rfl (hshort prev cur segments)

theorem scanSegmentPaths_ok {horizon : TxID} :
    scanSegmentPaths dir paths = .ok (segments, horizon) ↔
      ScannedAll dir paths segments ∧
        (segments.map (·.info)).IsChain SegmentInfo.FollowedBy ∧
        horizon = durableHorizon (segments.map (·.info)) := by
  simp only [scanSegmentPaths, except_bind_eq_ok, scanEachSegment_ok]
  constructor
  · rintro ⟨_, hall, ⟨⟩, hchain, ⟨⟩⟩
    exact ⟨hall, validateSegmentContinuity_ok.mp hchain, rfl⟩
  · rintro ⟨hall, hchain, rfl⟩
    exact ⟨_, hall, (), validateSegmentContinuity_ok.mpr hchain, rfl⟩

section

variable (h : ScannedAll dir paths segments)
  (hchain : (segments.map (·.info)).IsChain SegmentInfo.FollowedBy)
include h hchain

theorem ScannedAll.ordered :
    (segments.flatMap (·.records)).Pairwise (·.txID < ·.txID) ∧
      ∀ first ∈ segments.head?, ∀ rec ∈ segments.flatMap (·.records),
        first.info.startTx ≤ rec.txID := by
  induction h with
  | nil => simp
  | @cons path paths segment segments hsegment hsegments ih =>
    rw [List.map_cons, List.isChain_cons] at hchain
    obtain ⟨hinc, hfirst⟩ := ih hchain.2
    have hpast : ∀ rec ∈ segments.flatMap (·.records), segment.info.lastTx < rec.txID := by
      intro rec hrec
      cases segments with
      | nil => simp at hrec
      | cons next segments =>
        have hnext := (hchain.1 next.info rfl).2
        have := hfirst next rfl rec hrec
        lia
    have hstart : segment.info.startTx ≤ segment.info.lastTx + 1 := by
      obtain ⟨hstart, hlast, -⟩ := hsegment.facts
      lia
    rw [List.flatMap_cons]
    constructor
    · refine List.pairwise_append.mpr ⟨hsegment.facts.2.2.pairwise, hinc, ?_⟩
      exact fun rec hrec rec' hrec' => (hsegment.mem_le_lastTx hrec).2.trans_lt (hpast rec' hrec')
    · rintro _ ⟨⟩ rec hrec
      rcases List.mem_append.mp hrec with hrec | hrec
      · exact (hsegment.mem_le_lastTx hrec).1
      · exact hstart.trans (hpast rec hrec)

theorem ScannedAll.pairwise : (segments.flatMap (·.records)).Pairwise (·.txID < ·.txID) :=
  (h.ordered hchain).1

end

theorem LogDir.keys_eq (hsorted : paths.Pairwise (· < ·))
    (hmem : ∀ path, path ∈ dir.segments ↔ path ∈ paths) : dir.segments.keys = paths := by
  have hkeys : dir.segments.keys.Pairwise (· < ·) :=
    Std.ExtTreeMap.ordered_keys.imp Nat.compare_eq_lt.mp
  exact hkeys.eq_of_mem_iff hsorted fun path => Std.ExtTreeMap.mem_keys.trans (hmem path)

theorem listSegmentPaths_keys (h : listSegmentPaths dir = .ok paths) :
    (∀ path, path ∈ dir.segments ↔ path ∈ paths) ∧ paths.Pairwise (· < ·) ∧
      ∀ path ∈ paths, 0 < path := by
  unfold listSegmentPaths at h
  split at h
  · cases h
  · next hfind =>
    cases h
    refine ⟨fun path => Std.ExtTreeMap.mem_keys.symm,
      Std.ExtTreeMap.ordered_keys.imp Nat.compare_eq_lt.mp, fun path hpath => ?_⟩
    have hne := List.find?_eq_none.mp hfind path hpath
    rw [beq_iff_eq] at hne
    exact Nat.pos_of_ne_zero hne

theorem listSegmentPaths_of_pos (hpos : ∀ path ∈ dir.segments.keys, 0 < path) :
    listSegmentPaths dir = .ok dir.segments.keys := by
  have hfind : dir.segments.keys.find? (· == 0) = none := by
    rw [List.find?_eq_none]
    intro path hpath
    have := hpos path hpath
    simp only [beq_iff_eq]
    lia
  rw [listSegmentPaths, hfind]

theorem ScannedAll.paths_eq (h : ScannedAll dir paths segments) :
    paths = segments.map (·.info.startTx) := by
  induction h with
  | nil => rfl
  | cons hsegment _ ih => rw [List.map_cons, hsegment.facts.1, ← ih]

theorem scanSegments_facts {horizon : TxID}
    (h : scanSegments dir = .ok (segments, horizon)) :
    listSegmentPaths dir = .ok (segments.map (·.info.startTx)) ∧
      ScannedAll dir (segments.map (·.info.startTx)) segments ∧
      (segments.map (·.info)).IsChain SegmentInfo.FollowedBy ∧
      horizon = durableHorizon (segments.map (·.info)) := by
  obtain ⟨paths, hlist, hscan⟩ := except_bind_eq_ok.mp h
  obtain ⟨hall, hchain, hhorizon⟩ := scanSegmentPaths_ok.mp hscan
  rw [← hall.paths_eq]
  exact ⟨hlist, hall, hchain, hhorizon⟩

end Shunter
