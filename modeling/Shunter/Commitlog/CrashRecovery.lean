import Shunter.Commitlog.CrashCycles

/-!
# What a recovery finds after a crash

After every stop the scan and the replay find the surviving records, and the log
can be opened again unless the last transaction identifier is used up.
-/

namespace Shunter

open Foundation Reader

section

variable {base : TxID} {dir : LogDir} {log : SurvivingLog} {paths : List TxID} {start : TxID}
  {content : Bytes}

theorem LogDir.Holds.removeFreshSegmentArtifact (h : dir.Holds base log paths start)
    (hfile : dir.segments[start]? = some content) (hlast : LastFile content log.active) :
    ∃ dir' paths', removeFreshSegmentArtifact dir (start + log.active.length) = .ok dir' ∧
      ClosedSegments dir' (base + 1) paths' log.records (start + log.active.length) ∧
      ∀ path, path ∈ dir'.segments ↔ path ∈ paths' := by
  have hpos : 0 < start := h.pos start (by simp)
  by_cases hne : log.active = []
  · -- the last file holds no record and is removed
    obtain ⟨mode, hscanned, -⟩ := hlast.scanned hfile h.storable h.consecutive
    refine ⟨dir.removeSegment start, paths, ?_, ?_, fun path => ?_⟩
    · simp only [Shunter.removeFreshSegmentArtifact, hne, List.length_nil, Nat.add_zero, hfile,
        scanOneSegment_ok.mpr hscanned, bind, Except.bind]
      rw [if_neg (by lia)]
    · simp only [SurvivingLog.records, hne, List.append_nil, List.length_nil, Nat.add_zero]
      refine h.closed.congr fun path hpath => ?_
      rw [LogDir.getElem?_removeSegment, if_neg (Nat.ne_of_gt hpath)]
    · rw [LogDir.mem_removeSegment, h.mem, List.mem_append, List.mem_singleton]
      have hlt := fun hin => (h.closed.mem path hin).2
      constructor
      · rintro ⟨hstart, hin | rfl⟩
        · exact hin
        · exact absurd rfl hstart
      · exact fun hin => ⟨Nat.ne_of_gt (hlt hin), .inl hin⟩
  · obtain ⟨rest, rfl, htorn⟩ : ∃ rest, content = segmentText log.active rest ∧ TornTail rest := by
      cases hactive : log.active with
      | nil => exact absurd hactive hne
      | cons rec records =>
        rw [hactive] at hlast
        cases hlast with
        | torn htorn => exact ⟨_, rfl, htorn⟩
    have hclosed := h.closed.snoc hfile h.storable h.consecutive hne htorn
    refine ⟨dir, paths ++ [start], ?_, hclosed, h.mem⟩
    have hnew : start + log.active.length ∉ dir.segments := by
      rw [h.mem]
      exact fun hin => Nat.lt_irrefl _ (hclosed.mem _ hin).2
    rw [Shunter.removeFreshSegmentArtifact, Std.ExtTreeMap.getElem?_eq_none hnew]

theorem Stopped.scan (h : Stopped base dir log) :
    ∃ segments horizon, scanSegments dir = .ok (segments, horizon) ∧
      segments.flatMap (·.records) = log.records ∧ Consecutive (base + 1) log.records ∧
      max base horizon = base + log.records.length ∧
      (dir.segments.keys ≠ [] → horizon = base + log.records.length) ∧
      (log.records ≠ [] → ∃ first rest, segments = first :: rest ∧
        first.info.startTx = base + 1 ∧ first.records ≠ []) := by
  cases h with
  | fresh hbase hnone =>
    refine ⟨[], 0, ?_, rfl, .nil _, by simp [SurvivingLog.records], fun h => absurd hnone h,
      fun h => absurd rfl h⟩
    rw [scanSegments, listSegmentPaths, hnone]
    rfl
  | files hholds hfile hlast =>
    obtain ⟨mode, hscanned, -⟩ := hlast.scanned hfile hholds.storable hholds.consecutive
    obtain ⟨segments, hscan, hrecords, first, rest, hsplit, hfirst, hne⟩ :=
      hholds.scan hscanned rfl
    refine ⟨_, _, hscan, hrecords, hholds.consecutive_records, by simp, fun _ => rfl,
      fun hsome => ⟨first, rest, hsplit, hfirst, ?_⟩⟩
    rcases hne with rfl | hne
    · rwa [← hrecords, hsplit, List.flatMap_singleton] at hsome
    · exact hne

theorem Stopped.lt (h : Stopped base dir log) : base + log.records.length < 2 ^ 64 := by
  cases h with
  | fresh hbase _ => simpa [SurvivingLog.records] using hbase
  | files hholds _ _ =>
    have hlen := hholds.length_records
    have hbound := hholds.bound
    by_cases hne : log.active = []
    · rw [hne, List.length_nil] at hlen
      lia
    · have hst := (hholds.storable _ (List.getLast_mem hne)).txID
      rw [hholds.consecutive.getLast hne] at hst
      lia

theorem Stopped.resume (h : Stopped base dir log) {segments : List ScannedSegment} {horizon : TxID}
    (hscan : scanSegments dir = .ok (segments, horizon))
    (hmax : base + log.records.length ≠ maxTxID) :
    ∃ plan dir' sw durable,
      planRecoveryResume (segments.map (·.info)) (base + log.records.length) = .ok plan ∧
      openSegmentForResumePlan dir plan = .ok (dir', sw, durable) ∧
      ∃ paths rest, Writing base dir' sw (log.resume plan.appendMode) paths rest := by
  have hlt := h.lt
  have hnext := recoveryNextTxID_ok hmax
  rw [maxTxID] at hmax
  cases h with
  | fresh hbase hnone =>
    have hmem : ∀ path, path ∈ dir.segments ↔ path ∈ ([] : List TxID) := fun path => by
      rw [← Std.ExtTreeMap.mem_keys, hnone]
    have hnil : segments = [] := by
      rw [scanSegments, listSegmentPaths, hnone] at hscan
      cases hscan
      rfl
    have hremove : Shunter.removeFreshSegmentArtifact dir (base + 1) = .ok dir := by
      rw [Shunter.removeFreshSegmentArtifact, Std.ExtTreeMap.getElem?_eq_none]
      simp [hmem]
    simp only [SurvivingLog.records, List.append_nil, List.length_nil, Nat.add_zero] at *
    obtain ⟨dir', sw, durable, hopen, hwriting⟩ :=
      resume_fresh hremove (.nil (base + 1)) hmem (by lia)
    refine ⟨⟨base + 1, base + 1, .freshNextSegment⟩, dir', sw, durable, ?_, hopen, [], [],
      hwriting⟩
    rw [planRecoveryResume, hnext, hnil]
    rfl
  | @files _ paths start content hholds hfile hlast =>
    obtain ⟨mode, hscanned, hmode⟩ := hlast.scanned hfile hholds.storable hholds.consecutive
    obtain ⟨segments', hscan', -⟩ := hholds.scan hscanned rfl
    rw [hscan] at hscan'
    cases hscan'
    have hlen := hholds.length_records
    rw [hlen] at hnext
    have hbound : start + log.active.length < 2 ^ 64 := by lia
    rcases hmode with ⟨rfl, rest, rfl, hzero⟩ | rfl
    · obtain ⟨hopen, hwriting⟩ := resume_inPlace hholds hfile hzero rfl hbound
      refine ⟨_, _, _, _, ?_, hopen, paths, rest, hwriting⟩
      simp [planRecoveryResume, hnext, bind, Except.bind]
    · obtain ⟨dir₁, paths₁, hremove, hclosed, hmem⟩ :=
        hholds.removeFreshSegmentArtifact hfile hlast
      obtain ⟨dir', sw, durable, hopen, hwriting⟩ := resume_fresh hremove hclosed hmem hbound
      refine ⟨_, dir', sw, durable, ?_, hopen, paths₁, [], hwriting⟩
      simp [planRecoveryResume, hnext, bind, Except.bind]

end

/-! ## Runs -/

def LogPhase.Sound (base : TxID) (phase : LogPhase) (log : SurvivingLog) : Prop :=
  match phase.writer with
  | none => Stopped base phase.dir log
  | some sw => ∃ paths rest, Writing base phase.dir sw log paths rest

variable {base : TxID} {log : SurvivingLog}

theorem LogPhase.Sound.stopped {phase : LogPhase} (h : phase.Sound base log) :
    Stopped base phase.dir log := by
  obtain ⟨dir, _ | sw⟩ := phase
  · exact h
  · obtain ⟨paths, rest, hwriting⟩ := h
    exact hwriting.stopped

section

variable {base : TxID} {dir : LogDir} {log : SurvivingLog} {paths : List TxID} {start : TxID}

theorem LogDir.Holds.index (h : dir.Holds base log paths start) (indexes : GoMap TxID Bytes) :
    LogDir.Holds { dir with indexes } base log paths start :=
  ⟨h.closed.congr fun _ _ => rfl, h.mem, h.storable, h.consecutive, h.bound⟩

theorem LogPhase.Sound.index {writer : Option SegmentWriter}
    (h : LogPhase.Sound base ⟨dir, writer⟩ log) (indexes : GoMap TxID Bytes) :
    LogPhase.Sound base ⟨{ dir with indexes }, writer⟩ log := by
  cases writer with
  | none =>
    cases h with
    | fresh hbase hnone => exact .fresh hbase hnone
    | files hholds hfile hlast => exact .files (hholds.index indexes) hfile hlast
  | some sw =>
    obtain ⟨paths, rest, hwriting⟩ := h
    exact ⟨paths, rest, hwriting.holds.index indexes, hwriting.file, hwriting.zero,
      hwriting.writer⟩

end

theorem LogRun.sound {phase : LogPhase} (h : LogRun base phase log) : phase.Sound base log := by
  induction h with
  | start hstart => exact stopped_of_startsAt hstart
  | index _ indexes ih => exact ih.index indexes
  | @resume dir _ log _ _ _ _ _ _ hscan hplan hopen ih =>
    obtain ⟨segments, horizon, hscan', -, -, hhorizon, -⟩ := Stopped.scan ih
    rw [hscan] at hscan'
    cases hscan'
    rw [hhorizon] at hplan
    have hmax : base + log.records.length ≠ maxTxID := by
      intro hmax
      rw [hmax] at hplan
      cases hplan
    obtain ⟨plan', dir', sw', durable', hplan', hopen', hwriting⟩ := Stopped.resume ih hscan hmax
    rw [hplan] at hplan'
    cases hplan'
    rw [hopen] at hopen'
    cases hopen'
    exact hwriting
  | append _ htx hpayload happend ih =>
    obtain ⟨paths, rest, hwriting⟩ := ih
    obtain ⟨htype, hflags, hnext⟩ := hwriting.append_txID happend
    obtain ⟨dir', sw', happend', hwriting'⟩ :=
      hwriting.append ⟨htx, htype, hflags, hpayload⟩ hnext
    rw [happend] at happend'
    cases happend'
    exact ⟨_, _, hwriting'⟩
  | rotate _ hlast hmax hcreate ih =>
    obtain ⟨paths, rest, hwriting⟩ := ih
    obtain ⟨dir', sw', hcreate', hwriting'⟩ := hwriting.rotate hlast hmax
    rw [hcreate] at hcreate'
    cases hcreate'
    exact ⟨_, _, hwriting'⟩
  | stop _ hcut ih =>
    obtain ⟨paths, rest, hwriting⟩ := ih
    exact hwriting.cut hcut

/-! ## What is found -/

/-- The scan and the replay find the surviving records, and the log can be opened again. -/
structure LogDir.Recovers (dir : LogDir) (base : TxID) (log : SurvivingLog)
    (segments : List ScannedSegment) (horizon : TxID) : Prop where
  scan : scanSegments dir = .ok (segments, horizon)
  records : segments.flatMap (·.records) = log.records
  consecutive : Consecutive (base + 1) log.records
  horizon_eq : dir.segments.keys ≠ [] → horizon = base + log.records.length
  replay : (∀ segment ∈ segments, dir.Indexed segment) →
    replayLogWithApply (δ := Empty) (α := Empty) (fun payload => .ok payload)
        (fun payloads payload => (payloads ++ [payload], none)) dir (segments.map (·.info)) base [] =
      (⟨log.records.map (·.payload), max base horizon⟩, none)
  resume : base + log.records.length ≠ maxTxID → ∃ plan dir' sw durable,
    planRecoveryResume (segments.map (·.info)) (max base horizon) = .ok plan ∧
      openSegmentForResumePlan dir plan = .ok (dir', sw, durable)

theorem foldl_payloads (records : List Record) (payloads : List Bytes) :
    records.foldl (fun payloads rec => payloads ++ [rec.payload]) payloads =
      payloads ++ records.map (·.payload) := by
  induction records generalizing payloads with
  | nil => simp
  | cons rec records ih => rw [List.foldl_cons, ih, List.map_cons, List.append_assoc,
      List.singleton_append]

theorem Consecutive.foldl_max {records : List Record} (h : Consecutive (base + 1) records) :
    (records.map (·.txID)).foldl max base = base + records.length := by
  induction records generalizing base with
  | nil => rfl
  | cons rec records ih =>
    obtain ⟨htx, hcons⟩ := consecutive_cons.mp h
    rw [List.map_cons, List.foldl_cons, htx, max_eq_right (Nat.le_succ base), ih hcons,
      List.length_cons]
    lia

theorem Consecutive.filter_base {records : List Record} (h : Consecutive (base + 1) records) :
    records.filter (base < ·.txID) = records := by
  rw [List.filter_eq_self]
  exact fun rec hrec => decide_eq_true (h.mem hrec).1

theorem Stopped.recovers {dir : LogDir} (h : Stopped base dir log) :
    ∃ segments horizon, dir.Recovers base log segments horizon := by
  obtain ⟨segments, horizon, hscan, hrecords, hcons, hmax, hhorizon, -⟩ := h.scan
  refine ⟨segments, horizon, hscan, hrecords, hcons, hhorizon, fun hindexed => ?_, fun hne => ?_⟩
  · obtain ⟨-, hall, -⟩ := scanSegments_facts hscan
    rw [replayLogWithApply, replayLog_scanned _ _ hall hindexed, ReplayState.applyAll,
      ReplayState.foldl_applyRecord, hrecords, hcons.filter_base, hcons.foldl_max, hmax,
      foldl_payloads, List.nil_append]
  · obtain ⟨plan, dir', sw, durable, hplan, hopen, -⟩ := h.resume hscan hne
    exact ⟨plan, dir', sw, durable, hmax ▸ hplan, hopen⟩

def createdDir (base : TxID) : LogDir := (LogDir.mk ∅ ∅).setSegment (base + 1) segmentHeader

def tornDir : LogDir :=
  (((createdDir 0).setSegment 1 (segmentText [⟨1, 1, 0, [10]⟩] [])).setSegment 1
    (segmentText [⟨1, 1, 0, [10]⟩, ⟨2, 1, 0, [20]⟩] [])).cut 1 30

theorem createdDir_run : LogRun 0 ⟨createdDir 0, some (.behind 1 [])⟩ ⟨[], []⟩ := by
  have hstart : LogRun 0 ⟨⟨∅, ∅⟩, none⟩ ⟨[], []⟩ := .start (.fresh (by decide) rfl)
  exact @LogRun.resume 0 _ _ _ [] 0 0 ⟨1, 1, .freshNextSegment⟩ _ hstart rfl rfl rfl

theorem tornDir_run : LogRun 0 ⟨tornDir, none⟩ ⟨[], [⟨1, 1, 0, [10]⟩]⟩ := by
  have hfirst := @LogRun.append 0 _ _ _ _ (.behind 1 [⟨1, 1, 0, [10]⟩]) ⟨1, 1, 0, [10]⟩
    createdDir_run (by decide) (by decide) rfl
  have hsecond := @LogRun.append 0 _ _ _ _
    (.behind 1 [⟨1, 1, 0, [10]⟩, ⟨2, 1, 0, [20]⟩]) ⟨2, 1, 0, [20]⟩ hfirst (by decide) (by decide) rfl
  exact @LogRun.stop 0 _ _ _ 30 hsecond (.inl (by decide))

/-- The last transaction identifier, written after a base snapshot right before it. -/
def fullDir : LogDir :=
  ((createdDir (maxTxID - 1)).setSegment maxTxID (segmentText [⟨maxTxID, 1, 0, []⟩] [])).cut
    maxTxID 26

end Shunter
