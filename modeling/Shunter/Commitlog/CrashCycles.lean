import Shunter.Commitlog.ReplayScan
import Shunter.Commitlog.SegmentAppend

/-!
# Crash, recover, resume, append

A log is opened with the plan of a recovery, written, and stopped with its last
file cut somewhere, any number of times.  Beside the directory a run keeps the
records that must still be there; every scan finds exactly these.
-/

namespace Shunter

open Foundation Reader

/-! ## Runs -/

/-- The records of the finished segments, and those of the segment written last. -/
structure SurvivingLog where
  closed : List Record
  active : List Record

namespace SurvivingLog

def records (log : SurvivingLog) : List Record := log.closed ++ log.active

def append (log : SurvivingLog) (rec : Record) : SurvivingLog :=
  { log with active := log.active ++ [rec] }

def rotate (log : SurvivingLog) : SurvivingLog := ⟨log.records, []⟩

def resume (log : SurvivingLog) : AppendMode → SurvivingLog
  | .inPlace => log
  | _ => log.rotate

/-- What is left when the last file is cut to `n` bytes. -/
def cut (log : SurvivingLog) (n : Nat) : SurvivingLog :=
  { log with active := wholeRecords (n - segmentHeaderSize) log.active }

end SurvivingLog

def LogDir.cut (dir : LogDir) (startTx : TxID) (n : Nat) : LogDir :=
  dir.setSegment startTx (((dir.segments[startTx]?).getD []).take n)

inductive StartsAt (base : TxID) (dir : LogDir) : SurvivingLog → Prop
  | fresh (hbase : base < 2 ^ 64) (hnone : dir.segments.keys = []) : StartsAt base dir ⟨[], []⟩
  | logged {segments : List ScannedSegment} {last : ScannedSegment} {horizon : TxID}
      (hscan : scanSegments dir = .ok (segments ++ [last], horizon))
      (hfirst : ∀ first ∈ (segments ++ [last]).head?, first.info.startTx = base + 1)
      (hbase : base + 1 < 2 ^ 64) :
      StartsAt base dir ⟨segments.flatMap (·.records), last.records⟩

structure LogPhase where
  dir : LogDir
  writer : Option SegmentWriter

/-- The runs of a log over a base snapshot, with the records that must be there. -/
inductive LogRun (base : TxID) : LogPhase → SurvivingLog → Prop
  | start {dir : LogDir} {log : SurvivingLog} (hstart : StartsAt base dir log) :
      LogRun base ⟨dir, none⟩ log
  | index {dir : LogDir} {writer : Option SegmentWriter} {log : SurvivingLog}
      (hrun : LogRun base ⟨dir, writer⟩ log) (indexes : GoMap TxID Bytes) :
      LogRun base ⟨{ dir with indexes }, writer⟩ log
  | resume {dir dir' : LogDir} {log : SurvivingLog} {segments : List ScannedSegment}
      {horizon durable : TxID} {plan : RecoveryResumePlan} {sw : SegmentWriter}
      (hrun : LogRun base ⟨dir, none⟩ log) (hscan : scanSegments dir = .ok (segments, horizon))
      (hplan : planRecoveryResume (segments.map (·.info)) (max base horizon) = .ok plan)
      (hopen : openSegmentForResumePlan dir plan = .ok (dir', sw, durable)) :
      LogRun base ⟨dir', some sw⟩ (log.resume plan.appendMode)
  | append {dir dir' : LogDir} {log : SurvivingLog} {sw sw' : SegmentWriter} {rec : Record}
      (hrun : LogRun base ⟨dir, some sw⟩ log) (htx : rec.txID < 2 ^ 64)
      (hpayload : rec.payload.length ≤ formatMaxRecordPayloadBytes)
      (happend : sw.append dir rec = .ok (dir', sw')) :
      LogRun base ⟨dir', some sw'⟩ (log.append rec)
  | rotate {dir dir' : LogDir} {log : SurvivingLog} {sw sw' : SegmentWriter}
      (hrun : LogRun base ⟨dir, some sw⟩ log) (hlast : sw.hasLastRecord = true)
      (hmax : sw.lastTx ≠ maxTxID) (hcreate : createSegment dir (sw.lastTx + 1) = .ok (dir', sw')) :
      LogRun base ⟨dir', some sw'⟩ log.rotate
  | stop {dir : LogDir} {log : SurvivingLog} {sw : SegmentWriter} {n : Nat}
      (hrun : LogRun base ⟨dir, some sw⟩ log)
      (hcut : segmentHeaderSize ≤ n ∨ n = 0 ∧ sw.hasLastRecord = false) :
      LogRun base ⟨dir.cut sw.startTx n, none⟩ (log.cut n)

/-! ## Finished segments -/

/-- Finished segments from one first transaction to another, with the records they hold. -/
inductive ClosedSegments (dir : LogDir) : TxID → List TxID → List Record → TxID → Prop
  | nil (start : TxID) : ClosedSegments dir start [] [] start
  | cons {start stop : TxID} {paths : List TxID} {records records' : List Record} {rest : Bytes}
      (hfile : dir.segments[start]? = some (segmentText records rest))
      (hst : ∀ rec ∈ records, rec.Storable) (hcons : Consecutive start records)
      (hne : records ≠ []) (htorn : TornTail rest)
      (htail : ClosedSegments dir (start + records.length) paths records' stop) :
      ClosedSegments dir start (start :: paths) (records ++ records') stop

variable {dir dir' : LogDir} {base start stop : TxID} {log : SurvivingLog} {paths : List TxID}
  {records active : List Record} {rec : Record} {rest content : Bytes} {sw sw' : SegmentWriter}
  {segments : List ScannedSegment} {segment last : ScannedSegment} {isLast : Bool}
  {e : LogError} {mode : AppendMode}

section

variable (h : ClosedSegments dir start paths records stop)
include h

theorem ClosedSegments.consecutive :
    Consecutive start records ∧ stop = start + records.length := by
  induction h with
  | nil => exact ⟨.nil _, rfl⟩
  | cons _ _ hcons _ _ _ ih =>
    refine ⟨consecutive_append.mpr ⟨hcons, ih.1⟩, ?_⟩
    rw [ih.2, List.length_append, Nat.add_assoc]

theorem ClosedSegments.le : start ≤ stop :=
  h.consecutive.2 ▸ Nat.le_add_right _ _

theorem ClosedSegments.mem : ∀ path ∈ paths, start ≤ path ∧ path < stop := by
  induction h with
  | nil => simp
  | @cons start stop paths records records' rest _ _ _ hne _ htail ih =>
    have hpos := List.length_pos_iff.mpr hne
    have hle := htail.le
    rintro path (_ | ⟨_, hpath⟩)
    · lia
    · have := ih path hpath
      lia

theorem ClosedSegments.sorted : (paths ++ [stop]).Pairwise (· < ·) := by
  induction h with
  | nil => simp
  | @cons start stop paths records records' rest _ _ _ hne _ htail ih =>
    refine List.pairwise_cons.mpr ⟨fun path hpath => ?_, ih⟩
    have hpos := List.length_pos_iff.mpr hne
    rcases List.mem_append.mp hpath with hpath | hpath
    · have := htail.mem path hpath
      lia
    · have := htail.le
      rw [List.mem_singleton.mp hpath]
      lia

theorem ClosedSegments.congr
    (hsame : ∀ path < stop, dir'.segments[path]? = dir.segments[path]?) :
    ClosedSegments dir' start paths records stop := by
  induction h with
  | nil => exact .nil _
  | @cons start stop paths records records' rest hfile hst hcons hne htorn htail ih =>
    have hpos := List.length_pos_iff.mpr hne
    have hle := htail.le
    refine .cons ?_ hst hcons hne htorn (ih hsame)
    rw [hsame start (by lia), hfile]

theorem ClosedSegments.snoc
    (hfile : dir.segments[stop]? = some (segmentText active rest))
    (hst : ∀ rec ∈ active, rec.Storable) (hcons : Consecutive stop active) (hne : active ≠ [])
    (htorn : TornTail rest) :
    ClosedSegments dir start (paths ++ [stop]) (records ++ active) (stop + active.length) := by
  induction h with
  | nil =>
    have hone := ClosedSegments.cons hfile hst hcons hne htorn (.nil _)
    rwa [List.append_nil] at hone
  | cons hfile' hst' hcons' hne' htorn' _ ih =>
    rw [List.append_assoc]
    exact .cons hfile' hst' hcons' hne' htorn' (ih hfile hcons)

end

/-! ## Directories that hold a log -/

/-- The files of a directory: finished segments and one last file, which begins at `start`. -/
structure LogDir.Holds (dir : LogDir) (base : TxID) (log : SurvivingLog) (paths : List TxID)
    (start : TxID) : Prop where
  closed : ClosedSegments dir (base + 1) paths log.closed start
  mem : ∀ path, path ∈ dir.segments ↔ path ∈ paths ++ [start]
  storable : ∀ rec ∈ log.active, rec.Storable
  consecutive : Consecutive start log.active
  bound : start < 2 ^ 64

/-- The last file: empty when its header was never written, else records and a torn tail. -/
inductive LastFile : Bytes → List Record → Prop
  | empty : LastFile [] []
  | torn {records : List Record} {rest : Bytes} (htorn : TornTail rest) :
      LastFile (segmentText records rest) records

section

variable (hfile : dir.segments[start]? = some (segmentText records rest))
  (hst : ∀ rec ∈ records, rec.Storable) (hcons : Consecutive start records)
include hfile hst hcons

theorem scannedAs_segmentText (hstop : scanNextRecord rest = .error e)
    (hends : SegmentEnds isLast records e mode) :
    ScannedAs dir start isLast ⟨⟨start, start + records.length - 1, mode⟩, records⟩ :=
  .body hfile ⟨⟨takes_scanNextRecord.mpr ⟨hst, rfl⟩, hstop⟩, hcons, rfl, rfl, hends⟩

theorem scannedAs_closed (hne : records ≠ []) (htorn : TornTail rest) :
    ∃ mode, ScannedAs dir start false ⟨⟨start, start + records.length - 1, mode⟩, records⟩ := by
  obtain ⟨e, hstop, rfl | hdamaged⟩ := htorn
  · exact ⟨_, scannedAs_segmentText hfile hst hcons hstop .clean⟩
  · exact ⟨_, scannedAs_segmentText hfile hst hcons hstop (.damaged hdamaged (.inl hne))⟩

end

theorem ClosedSegments.scanned (h : ClosedSegments dir start paths records stop)
    (hlast : ScannedAs dir stop true last) (hbound : stop < 2 ^ 64) (hpos : 0 < start) :
    ∃ segments, ScannedAll dir (paths ++ [stop]) (segments ++ [last]) ∧
      ((segments ++ [last]).map (·.info)).IsChain SegmentInfo.FollowedBy ∧
      segments.flatMap (·.records) = records ∧
      ∃ first rest, segments ++ [last] = first :: rest ∧ first.info.startTx = start ∧
        (rest = [] ∨ first.records ≠ []) := by
  induction h with
  | nil => exact ⟨[], .cons hlast .nil, by simp, rfl, last, [], rfl, hlast.facts.1, .inl rfl⟩
  | @cons start stop paths records records' rest hfile hst hcons hne htorn htail ih =>
    obtain ⟨segments, hall, hchain, hrecords, first, others, hsplit, hfirst, -⟩ :=
      ih hlast hbound (by lia)
    obtain ⟨mode, hsegment⟩ := scannedAs_closed hfile hst hcons hne htorn
    refine ⟨⟨⟨start, start + records.length - 1, mode⟩, records⟩ :: segments, ?_, ?_, ?_,
      _, _, rfl, rfl, .inr hne⟩
    · refine .cons ?_ hall
      rwa [List.isEmpty_eq_false_iff.mpr (by simp)]
    · rw [hsplit] at hchain
      rw [List.cons_append, hsplit]
      refine .cons_cons ?_ hchain
      have hle := htail.le
      have hlen := List.length_pos_iff.mpr hne
      refine ⟨?_, ?_⟩ <;> simp only [maxTxID] <;> lia
    · rw [List.flatMap_cons, hrecords]

section

variable (h : dir.Holds base log paths start)
include h

theorem LogDir.Holds.start_eq : start = base + 1 + log.closed.length := h.closed.consecutive.2

theorem LogDir.Holds.consecutive_records : Consecutive (base + 1) log.records :=
  consecutive_append.mpr ⟨h.closed.consecutive.1, h.start_eq ▸ h.consecutive⟩

theorem LogDir.Holds.length_records :
    base + log.records.length + 1 = start + log.active.length := by
  rw [h.start_eq, SurvivingLog.records, List.length_append]
  lia

theorem LogDir.Holds.keys : dir.segments.keys = paths ++ [start] :=
  LogDir.keys_eq h.closed.sorted h.mem

theorem LogDir.Holds.pos : ∀ path ∈ paths ++ [start], 0 < path := by
  intro path hpath
  have hle := h.closed.le
  rcases List.mem_append.mp hpath with hpath | hpath
  · have := h.closed.mem path hpath
    lia
  · rw [List.mem_singleton.mp hpath]
    lia

theorem LogDir.Holds.scan (hlast : ScannedAs dir start true last)
    (hactive : last.records = log.active) :
    ∃ segments, scanSegments dir = .ok (segments ++ [last], base + log.records.length) ∧
      (segments ++ [last]).flatMap (·.records) = log.records ∧
      ∃ first rest, segments ++ [last] = first :: rest ∧ first.info.startTx = base + 1 ∧
        (rest = [] ∨ first.records ≠ []) := by
  obtain ⟨segments, hall, hchain, hrecords, hfirst⟩ :=
    h.closed.scanned hlast h.bound (Nat.succ_pos base)
  refine ⟨segments, ?_, by simp [hrecords, hactive, SurvivingLog.records], hfirst⟩
  have hpaths := listSegmentPaths_of_pos (h.keys ▸ h.pos)
  rw [scanSegments, hpaths, h.keys]
  refine scanSegmentPaths_ok.mpr ⟨hall, hchain, ?_⟩
  have hlen := h.length_records
  have hlastTx := hlast.facts.2.1
  rw [hactive] at hlastTx
  simp only [durableHorizon, List.map_append, List.map_cons, List.map_nil,
    List.getLast?_concat, Option.map_some, Option.getD_some, hlastTx]
  lia

end

/-! ## Stopped and open logs -/

/-- A log that is not open: no file at all, or one that may be torn behind finished ones. -/
inductive Stopped (base : TxID) (dir : LogDir) : SurvivingLog → Prop
  | fresh (hbase : base < 2 ^ 64) (hnone : dir.segments.keys = []) : Stopped base dir ⟨[], []⟩
  | files {log : SurvivingLog} {paths : List TxID} {start : TxID} {content : Bytes}
      (hholds : dir.Holds base log paths start) (hfile : dir.segments[start]? = some content)
      (hlast : LastFile content log.active) : Stopped base dir log

/-- An open log: the writer stands behind the records of the last file. -/
structure Writing (base : TxID) (dir : LogDir) (sw : SegmentWriter) (log : SurvivingLog)
    (paths : List TxID) (rest : Bytes) : Prop where
  holds : dir.Holds base log paths sw.startTx
  file : dir.segments[sw.startTx]? = some (segmentText log.active rest)
  zero : allBytesZero rest = true
  writer : sw = .behind sw.startTx log.active

theorem Writing.stopped (h : Writing base dir sw log paths rest) : Stopped base dir log :=
  .files h.holds h.file (.torn (tornTail_of_zero h.zero))

theorem SegmentEnds.stops (h : SegmentEnds isLast records e mode) :
    e = .eof ∨ isDamagedTailError e = true := by
  cases h with
  | clean => exact .inl rfl
  | damaged hdamaged _ => exact .inr hdamaged

theorem ScannedAs.torn (h : ScannedAs dir start isLast segment) :
    (∀ rec ∈ segment.records, rec.Storable) ∧
      ((isLast = true ∧ dir.segments[start]? = some [] ∧ segment.records = []) ∨
        ∃ rest, dir.segments[start]? = some (segmentText segment.records rest) ∧
          TornTail rest) := by
  cases h with
  | empty hlast hfile hsegment =>
    subst hsegment
    exact ⟨by simp, .inl ⟨hlast, hfile, rfl⟩⟩
  | @body body rest e hfile hbody =>
    refine ⟨hbody.storable, .inr ⟨rest, by rw [hfile, hbody.text, segmentText], e,
      hbody.streams.stops, hbody.ends.stops⟩⟩

theorem ScannedAll.closed (h : ScannedAll dir paths (segments ++ [last]))
    (hsorted : paths.Pairwise (· < ·)) (hpos : ∀ path ∈ paths, 0 < path)
    (hchain : ((segments ++ [last]).map (·.info)).IsChain SegmentInfo.FollowedBy)
    (hfirst : ∀ first ∈ (segments ++ [last]).head?, first.info.startTx = start)
    (hbound : start < 2 ^ 64) :
    ∃ paths' stop, paths = paths' ++ [stop] ∧
      ClosedSegments dir start paths' (segments.flatMap (·.records)) stop ∧
      ScannedAs dir stop true last ∧ stop < 2 ^ 64 := by
  induction segments generalizing paths start with
  | nil =>
    cases h with
    | @cons path _ _ _ hsegment hrest =>
      cases hrest
      obtain rfl : path = start := hsegment.facts.1.symm.trans (hfirst last rfl)
      exact ⟨[], path, rfl, .nil _, hsegment, hbound⟩
  | cons segment segments ih =>
    cases h with
    | @cons path paths _ _ hsegment hrest =>
      obtain ⟨hstart, hlastTx, hcons⟩ := hsegment.facts
      obtain rfl : path = start := hstart.symm.trans (hfirst segment rfl)
      change ScannedAll dir paths (segments ++ [last]) at hrest
      obtain ⟨next, hnext⟩ : ∃ next, (segments ++ [last]).head? = some next :=
        Option.isSome_iff_exists.mp (by simp)
      rw [List.cons_append, List.map_cons, List.isChain_cons] at hchain
      obtain ⟨hmax, hfollows⟩ := hchain.1 next.info (by rw [List.head?_map, hnext]; rfl)
      have hpath := hpos path (by simp)
      have hnextTx : next.info.startTx = path + segment.records.length := by lia
      obtain ⟨hlt, hsorted⟩ := List.pairwise_cons.mp hsorted
      -- the next file has another name, so this one holds a record
      have hltNext := hlt next.info.startTx
        (hrest.paths_eq ▸ List.mem_map_of_mem (List.mem_of_mem_head? hnext))
      have hne : segment.records ≠ [] := by
        rintro hnil
        rw [hnil, List.length_nil] at hnextTx
        lia
      obtain ⟨hst, ⟨hlast, -⟩ | ⟨rest, hfile, htorn⟩⟩ := hsegment.torn
      · simp [hrest.paths_eq] at hlast
      · rw [maxTxID] at hmax
        have hlastSt := (hst _ (List.getLast_mem hne)).txID
        rw [hcons.getLast hne] at hlastSt
        have hfirst' : ∀ first ∈ (segments ++ [last]).head?,
            first.info.startTx = path + segment.records.length := by
          rw [hnext]
          rintro _ ⟨⟩
          exact hnextTx
        obtain ⟨paths', stop, hpaths, hclosed, hscanned, hstop⟩ :=
          ih hrest hsorted (fun p hp => hpos p (List.mem_cons_of_mem _ hp)) hchain.2 hfirst'
            (by lia)
        exact ⟨path :: paths', stop, by rw [hpaths, List.cons_append],
          .cons hfile hst hcons hne htorn hclosed, hscanned, hstop⟩

theorem stopped_of_startsAt (h : StartsAt base dir log) : Stopped base dir log := by
  cases h with
  | fresh hbase hnone => exact .fresh hbase hnone
  | @logged segments last horizon hscan hfirst hbase =>
    obtain ⟨hpaths, hall, hchain, -⟩ := scanSegments_facts hscan
    have hkeys := listSegmentPaths_keys hpaths
    obtain ⟨paths', stop, hsplit, hclosed, hlast, hstop⟩ :=
      hall.closed hkeys.2.1 hkeys.2.2 hchain hfirst hbase
    obtain ⟨hst, htorn⟩ := hlast.torn
    have hholds : dir.Holds base ⟨segments.flatMap (·.records), last.records⟩ paths' stop :=
      ⟨hclosed, hsplit ▸ hkeys.1, hst, hlast.facts.2.2, hstop⟩
    rcases htorn with ⟨-, hfile, hnil⟩ | ⟨rest, hfile, htorn⟩
    · exact .files hholds hfile (hnil ▸ .empty)
    · exact .files hholds hfile (.torn htorn)

/-! ## The steps of a run -/

theorem LogDir.Holds.setSegment (h : dir.Holds base log paths start)
    (hst : ∀ rec ∈ active, rec.Storable) (hcons : Consecutive start active) (content : Bytes) :
    (dir.setSegment start content).Holds base { log with active } paths start where
  closed := h.closed.congr fun path hpath => by
    rw [LogDir.getElem?_setSegment, if_neg (Nat.ne_of_gt hpath)]
  mem path := by
    rw [LogDir.mem_setSegment, h.mem, List.mem_append, List.mem_singleton]
    grind
  storable := hst
  consecutive := hcons
  bound := h.bound

theorem writing_created
    (hclosed : ClosedSegments dir (base + 1) paths records stop)
    (hmem : ∀ path, path ∈ dir.segments ↔ path ∈ paths) (hbound : stop < 2 ^ 64) :
    ∃ dir' sw', createSegment dir stop = .ok (dir', sw') ∧ sw'.startTx = stop ∧
      Writing base dir' sw' ⟨records, []⟩ paths [] := by
  have hle := hclosed.le
  have hnew : stop ∉ dir.segments := by
    rw [hmem]
    exact fun hin => Nat.lt_irrefl _ (hclosed.mem stop hin).2
  refine ⟨_, _, createSegment_ok (by lia) hnew, rfl, ⟨?_, ?_, ?_, ?_, hbound⟩, ?_, rfl, rfl⟩
  · refine hclosed.congr fun path hpath => ?_
    rw [LogDir.getElem?_setSegment, if_neg (Nat.ne_of_gt hpath)]
  · intro path
    rw [LogDir.mem_setSegment, hmem, List.mem_append, List.mem_singleton]
    grind
  · simp
  · exact .nil _
  · rw [LogDir.getElem?_setSegment, if_pos rfl]
    rfl

theorem wholeRecords_consecutive (hcons : Consecutive start records) (n : Nat) :
    Consecutive start (wholeRecords n records) := by
  obtain ⟨lost, hrecords, -⟩ := wholeRecords_append n records
  rw [hrecords, consecutive_append] at hcons
  exact hcons.1

theorem mem_of_mem_wholeRecords {n : Nat} (h : rec ∈ wholeRecords n records) : rec ∈ records := by
  obtain ⟨lost, hrecords, -⟩ := wholeRecords_append n records
  rw [hrecords]
  exact List.mem_append_left _ h

section

variable (h : Writing base dir sw log paths rest)
include h

theorem Writing.append
    (hst : rec.Storable) (htx : rec.txID = base + log.records.length + 1) :
    ∃ dir' sw', sw.append dir rec = .ok (dir', sw') ∧
      Writing base dir' sw' (log.append rec) paths (rest.drop (recordText rec).length) := by
  obtain ⟨start, hstart⟩ : ∃ start, start = sw.startTx := ⟨_, rfl⟩
  obtain ⟨hholds, hfile, hzero, hsw⟩ := h
  rw [← hstart] at hholds hfile hsw
  have htx' : rec.txID = start + log.active.length := htx.trans hholds.length_records
  refine ⟨_, _, hsw ▸ SegmentWriter.append_behind hfile hst htx', ?_⟩
  have hcons : Consecutive start (log.active ++ [rec]) :=
    consecutive_append.mpr ⟨hholds.consecutive, consecutive_cons.mpr ⟨htx', .nil _⟩⟩
  have hall : ∀ r ∈ log.active ++ [rec], r.Storable := by
    simpa [or_imp, forall_and] using ⟨hholds.storable, hst⟩
  refine ⟨hholds.setSegment hall hcons _, ?_, allBytesZero_drop hzero _, rfl⟩
  rw [SegmentWriter.startTx_behind, LogDir.getElem?_setSegment, if_pos rfl]
  rfl

theorem Writing.append_txID (happend : sw.append dir rec = .ok (dir', sw')) :
    rec.recordType = recordTypeChangeset ∧ rec.flags = 0 ∧
      rec.txID = base + log.records.length + 1 := by
  have hlast := SegmentWriter.hasLastRecord_behind sw.startTx log.active
  rw [← h.writer] at hlast
  revert happend
  fun_cases SegmentWriter.append sw dir rec
  case case6 htype hflags hfirst _ hnext =>
    refine fun _ => ⟨not_not.mp htype, not_not.mp hflags, ?_⟩
    rw [h.holds.length_records]
    by_cases hne : log.active = []
    · have hfalse : sw.hasLastRecord = false := by simpa [hne] using hlast
      simpa [hfalse, hne] using hfirst
    · have hlastTx := SegmentWriter.lastTx_behind sw.startTx hne
      rw [← h.writer] at hlastTx
      have hpos := List.length_pos_iff.mpr hne
      have htx : rec.txID = sw.lastTx + 1 := by simpa [hlast.mpr hne] using hnext
      lia
  all_goals rintro ⟨⟩

theorem Writing.rotate (hlast : sw.hasLastRecord = true) (hmax : sw.lastTx ≠ maxTxID) :
    ∃ dir' sw', createSegment dir (sw.lastTx + 1) = .ok (dir', sw') ∧
      Writing base dir' sw' log.rotate (paths ++ [sw.startTx]) [] := by
  rw [h.writer, SegmentWriter.hasLastRecord_behind] at hlast
  have hlastTx := SegmentWriter.lastTx_behind sw.startTx hlast
  rw [← h.writer] at hlastTx
  have hpos := List.length_pos_iff.mpr hlast
  have hlt := (h.holds.storable _ (List.getLast_mem hlast)).txID
  rw [h.holds.consecutive.getLast hlast] at hlt
  rw [maxTxID] at hmax
  have hclosed := h.holds.closed.snoc h.file h.holds.storable h.holds.consecutive hlast
    (tornTail_of_zero h.zero)
  have hnext : sw.lastTx + 1 = sw.startTx + log.active.length := by lia
  obtain ⟨dir', sw', hcreate, -, hwriting⟩ := writing_created hclosed h.holds.mem (by lia)
  exact ⟨dir', sw', hnext ▸ hcreate, hwriting⟩

theorem Writing.cut {n : Nat}
    (hcut : segmentHeaderSize ≤ n ∨ n = 0 ∧ sw.hasLastRecord = false) :
    Stopped base (dir.cut sw.startTx n) (log.cut n) := by
  have hholds : (dir.cut sw.startTx n).Holds base (log.cut n) paths sw.startTx :=
    h.holds.setSegment (fun rec hrec => h.holds.storable rec (mem_of_mem_wholeRecords hrec))
      (wholeRecords_consecutive h.holds.consecutive _) _
  have hfile : (dir.cut sw.startTx n).segments[sw.startTx]? =
      some ((segmentText log.active rest).take n) := by
    rw [LogDir.cut, LogDir.getElem?_setSegment, if_pos rfl, h.file, Option.getD_some]
  refine .files hholds hfile ?_
  rcases hcut with hn | ⟨rfl, hnone⟩
  · obtain ⟨tail, htake, htorn⟩ := take_segmentText h.holds.storable h.zero hn
    rw [htake]
    exact .torn htorn
  · -- a file whose header was lost had no record
    have hnil : log.active = [] := by
      by_contra hne
      rw [h.writer, (SegmentWriter.hasLastRecord_behind _ _).mpr hne] at hnone
      cases hnone
    rw [List.take_zero, SurvivingLog.cut, hnil]
    exact .empty

end

/-! ## Resuming -/

theorem LastFile.scanned (h : LastFile content active) (hfile : dir.segments[start]? = some content)
    (hst : ∀ rec ∈ active, rec.Storable) (hcons : Consecutive start active) :
    ∃ mode, ScannedAs dir start true ⟨⟨start, start + active.length - 1, mode⟩, active⟩ ∧
      ((mode = .inPlace ∧ ∃ rest, content = segmentText active rest ∧ allBytesZero rest = true) ∨
        mode = .freshNextSegment) := by
  cases h with
  | empty => exact ⟨_, .empty rfl hfile rfl, .inr rfl⟩
  | @torn _ rest htorn =>
    obtain ⟨e, hstop, rfl | hdamaged⟩ := htorn
    · exact ⟨_, scannedAs_segmentText hfile hst hcons hstop .clean,
        .inl ⟨rfl, rest, rfl, scanNextRecord_eof.mp hstop⟩⟩
    · exact ⟨_, scannedAs_segmentText hfile hst hcons hstop (.damaged hdamaged (.inr rfl)),
        .inr rfl⟩

theorem recoveryNextTxID_ok {maxAppliedTxID : TxID} (h : maxAppliedTxID ≠ maxTxID) :
    recoveryNextTxID maxAppliedTxID = .ok (maxAppliedTxID + 1) := if_neg h

theorem resume_inPlace {nextTxID : TxID} (hholds : dir.Holds base log paths start)
    (hfile : dir.segments[start]? = some (segmentText log.active rest))
    (hzero : allBytesZero rest = true) (hnext : nextTxID = start + log.active.length)
    (hbound : nextTxID < 2 ^ 64) :
    openSegmentForResumePlan dir ⟨start, nextTxID, .inPlace⟩ =
        .ok (dir, .behind start log.active, (SegmentWriter.behind start log.active).lastTx) ∧
      Writing base dir (.behind start log.active) log paths rest := by
  have hpos : 0 < start := hholds.pos start (by simp)
  refine ⟨?_, hholds, hfile, hzero, rfl⟩
  have hopen := openSegmentForAppend_clean hpos.ne' hfile hholds.storable hholds.consecutive hzero
  have hexpected : (if (SegmentWriter.behind start log.active).hasLastRecord then
      ((SegmentWriter.behind start log.active).lastTx + 1) % 2 ^ 64 else start) = nextTxID := by
    by_cases hne : log.active = []
    · rw [if_neg (by rw [SegmentWriter.hasLastRecord_behind, not_not]; exact hne), hnext, hne,
        List.length_nil, Nat.add_zero]
    · have hlen := List.length_pos_iff.mpr hne
      rw [if_pos ((SegmentWriter.hasLastRecord_behind _ _).mpr hne),
        SegmentWriter.lastTx_behind start hne]
      lia
  dsimp only [openSegmentForResumePlan, openSegmentForAppendInPlaceResumePlan]
  rw [if_neg (by lia), hfile, hopen]
  simp only [bind, Except.bind, hexpected, ne_eq, not_true_eq_false, if_false]

/-- A fresh segment behind files that are all finished, in the place of one without a record. -/
theorem resume_fresh (hremove : removeFreshSegmentArtifact dir stop = .ok dir')
    (hclosed : ClosedSegments dir' (base + 1) paths records stop)
    (hmem : ∀ path, path ∈ dir'.segments ↔ path ∈ paths) (hbound : stop < 2 ^ 64) :
    ∃ dir'' sw durable, openSegmentForResumePlan dir ⟨stop, stop, .freshNextSegment⟩ =
        .ok (dir'', sw, durable) ∧ Writing base dir'' sw ⟨records, []⟩ paths [] := by
  have hle := hclosed.le
  obtain ⟨dir'', sw, hcreate, -, hwriting⟩ := writing_created hclosed hmem hbound
  refine ⟨dir'', sw, stop - 1, ?_, hwriting⟩
  dsimp only [openSegmentForResumePlan]
  rw [if_neg (by simp only [ne_eq, not_true_eq_false, or_false]; lia), hremove]
  simp only [bind, Except.bind, hcreate]

end Shunter
