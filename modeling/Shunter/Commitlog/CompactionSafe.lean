import Shunter.Commitlog.Compaction
import Shunter.Commitlog.IndexedScan

/-!
# Compaction keeps what recovery returns

The removed segments are the first ones and end at or before the snapshot, so
recovery, which starts from that snapshot or a newer one, never looks at them.
It has to find the same segments before and after, with and without the indexes
of the removed ones; for this no index may lead behind a damaged record.
-/

namespace Shunter

open Foundation Reader

/-! ## What is removed -/

theorem LogDir.getElem?_remove (dir : LogDir) (removals : List Removal) (path : TxID) :
    (dir.remove removals).segments[path]? =
        (if Removal.segment path ∈ removals then none else dir.segments[path]?) ∧
      (dir.remove removals).indexes[path]? =
        if Removal.index path ∈ removals then none else dir.indexes[path]? := by
  induction removals generalizing dir with
  | nil => simp [remove]
  | cons r removals ih =>
    obtain ⟨hsegments, hindexes⟩ := ih (r.apply dir)
    rw [remove, List.foldl_cons]
    refine ⟨hsegments.trans ?_, hindexes.trans ?_⟩ <;> cases r <;>
      simp only [Removal.apply, removeSegment, get_erase, List.mem_cons,
        Removal.segment.injEq, Removal.index.injEq, reduceCtorEq, false_or] <;> grind

theorem mem_take_removals (deleted orphans : List TxID) (k : Nat) :
    let removals := deleted.flatMap (fun p => [Removal.segment p, Removal.index p]) ++
      orphans.map Removal.index
    ∃ j, ∀ path, (Removal.segment path ∈ removals.take k ↔ path ∈ deleted.take j) ∧
      (Removal.index path ∈ removals.take k → path ∈ deleted.take j ∨ path ∈ orphans) := by
  dsimp only
  induction deleted generalizing k with
  | nil =>
    refine ⟨0, fun path => ⟨?_, fun h => .inr ?_⟩⟩
    · simp only [List.flatMap_nil, List.nil_append, List.take_zero, List.not_mem_nil, iff_false]
      intro h
      simpa using List.mem_of_mem_take h
    · simpa using List.mem_of_mem_take h
  | cons d deleted ih =>
    match k with
    | 0 => exact ⟨0, by simp⟩
    | 1 => exact ⟨1, by simp⟩
    | k + 2 =>
      obtain ⟨j, hj⟩ := ih k
      refine ⟨j + 1, fun path => ?_⟩
      obtain ⟨hseg, hidx⟩ := hj path
      simp only [List.flatMap_cons, List.cons_append, List.nil_append, List.take_succ_cons,
        List.mem_cons, Removal.segment.injEq, Removal.index.injEq, reduceCtorEq, false_or]
      refine ⟨by rw [hseg], ?_⟩
      rintro (rfl | h)
      · exact .inl (.inl rfl)
      · rcases hidx h with h | h
        · exact .inl (.inr h)
        · exact .inr h

variable {snapshotTxID : TxID}

theorem compact_deleted (hpos : snapshotTxID ≠ 0) {segments : List SegmentInfo}
    (hchain : segments.IsChain SegmentInfo.FollowedBy)
    (hstart : ∀ segment ∈ segments, segment.startTx ≤ segment.lastTx + 1) :
    ∃ removed kept, segments = removed ++ kept ∧ (segments ≠ [] → kept ≠ []) ∧
      (compact snapshotTxID (segmentCoverage segments)).1 = removed.map (·.startTx) ∧
      ∀ segment ∈ removed, segment.lastTx ≤ snapshotTxID := by
  induction segments with
  | nil => exact ⟨[], [], rfl, id, rfl, by simp⟩
  | cons segment segments ih =>
    obtain ⟨hnext, hchain⟩ := List.isChain_cons.mp hchain
    obtain ⟨hfirst, hstart⟩ := List.forall_mem_cons.mp hstart
    obtain ⟨removed, kept, rfl, hkept, hdeleted, hcovered⟩ := ih hchain hstart
    rw [segmentCoverage, compact]
    dsimp only
    by_cases hactive : removed ++ kept = []
    · obtain ⟨rfl, rfl⟩ := List.append_eq_nil_iff.mp hactive
      exact ⟨[], [segment], rfl, by simp, by simpa using hdeleted, by simp⟩
    · have hkept' := hkept hactive
      rw [List.isEmpty_eq_false_iff.mpr hactive, if_neg Bool.false_ne_true]
      -- a later segment ends no earlier, so none is deleted behind one that stays
      have hmono : snapshotTxID < segment.lastTx → removed = [] := by
        intro hlt
        cases removed with
        | nil => rfl
        | cons next removed =>
          have hfollows := (hnext next rfl).2
          have hnextStart := hstart next (by simp)
          have hnextLast := hcovered next (by simp)
          lia
      rw [if_neg hpos]
      split
      · next hle =>
        refine ⟨segment :: removed, kept, rfl, fun _ => hkept', ?_, ?_⟩
        · rw [List.map_cons, ← hdeleted]
        · exact List.forall_mem_cons.mpr ⟨hle, hcovered⟩
      · next hlt =>
        obtain rfl := hmono (not_le.mp hlt)
        exact ⟨[], segment :: kept, rfl, by simp, hdeleted, by simp⟩

/-! ## The scan without the first segments -/

/-- A directory without the first scanned segments; nothing changes about the others. -/
structure LogDir.Pruned (dir dir' : LogDir) (removed kept : List ScannedSegment) : Prop where
  segments : ∀ path, dir'.segments[path]? =
    if path ∈ removed.map (·.info.startTx) then none else dir.segments[path]?
  indexes : ∀ segment ∈ kept,
    dir'.indexes[segment.info.startTx]? = dir.indexes[segment.info.startTx]?

variable {dir dir' : LogDir} {path horizon : TxID} {paths : List TxID} {isLast : Bool}
  {segment : ScannedSegment} {segments removed kept : List ScannedSegment}
  {κ : Type} {store : SnapshotStore κ} {reg : SchemaRegistry}

theorem ScannedAs.congr (h : ScannedAs dir path isLast segment)
    (hsame : dir'.segments[path]? = dir.segments[path]?) :
    ScannedAs dir' path isLast segment := by
  cases h with
  | empty hlast hfile hsegment => exact .empty hlast (hsame.trans hfile) hsegment
  | body hfile hbody => exact .body (hsame.trans hfile) hbody

theorem ScannedAll.congr (h : ScannedAll dir paths segments)
    (hsame : ∀ path ∈ paths, dir'.segments[path]? = dir.segments[path]?) :
    ScannedAll dir' paths segments := by
  induction h with
  | nil => exact .nil
  | cons hsegment _ ih =>
    obtain ⟨hfirst, hsame⟩ := List.forall_mem_cons.mp hsame
    exact .cons (hsegment.congr hfirst) (ih hsame)

theorem ScannedAll.of_append (h : ScannedAll dir paths (removed ++ kept)) :
    ScannedAll dir (kept.map (·.info.startTx)) kept := by
  induction removed generalizing paths with
  | nil =>
    rw [List.nil_append] at h
    rwa [← h.paths_eq]
  | cons segment removed ih =>
    cases h with
    | cons _ hrest => exact ih hrest

theorem LogDir.Pruned.same (h : dir.Pruned dir' removed kept)
    (hsorted : ((removed ++ kept).map (·.info.startTx)).Pairwise (· < ·)) :
    ∀ path ∈ kept.map (·.info.startTx), dir'.segments[path]? = dir.segments[path]? := by
  intro path hpath
  rw [List.map_append, List.pairwise_append] at hsorted
  rw [h.segments, if_neg fun hin => Nat.lt_irrefl _ (hsorted.2.2 path hin path hpath)]

theorem durableHorizon_append {removed kept : List SegmentInfo} (hkept : kept ≠ []) :
    durableHorizon (removed ++ kept) = durableHorizon kept := by
  rw [durableHorizon, durableHorizon, List.getLast?_append_of_ne_nil _ hkept]

theorem LogDir.Pruned.lists (h : dir.Pruned dir' removed kept)
    (hlist : listSegmentPaths dir = .ok ((removed ++ kept).map (·.info.startTx))) :
    listSegmentPaths dir' = .ok (kept.map (·.info.startTx)) := by
  obtain ⟨hmem, hsorted, hpos⟩ := listSegmentPaths_keys hlist
  rw [List.map_append] at hmem hsorted hpos
  obtain ⟨-, hkeptSorted, hlt⟩ := List.pairwise_append.mp hsorted
  have hkeys : dir'.segments.keys = kept.map (·.info.startTx) := by
    refine LogDir.keys_eq hkeptSorted fun path => ?_
    rw [Std.ExtTreeMap.mem_iff_isSome_getElem?, h.segments]
    have hpath := hmem path
    rw [Std.ExtTreeMap.mem_iff_isSome_getElem?, List.mem_append] at hpath
    split
    · next hin =>
      simp only [Option.isSome_none, Bool.false_eq_true, false_iff]
      exact fun hkept => Nat.lt_irrefl _ (hlt path hin path hkept)
    · next hout => rw [hpath, or_iff_right hout]
  rw [← hkeys]
  refine listSegmentPaths_of_pos fun path hpath => ?_
  rw [hkeys] at hpath
  exact hpos path (List.mem_append_right _ hpath)

theorem LogDir.Pruned.scan (h : dir.Pruned dir' removed kept)
    (hscan : scanSegments dir = .ok (removed ++ kept, horizon)) (hkept : removed ≠ [] → kept ≠ []) :
    scanSegments dir' = .ok (kept, horizon) ∧
      listSegmentPaths dir' = .ok (kept.map (·.info.startTx)) ∧
      ScannedAll dir' (kept.map (·.info.startTx)) kept := by
  obtain ⟨hlist, hall, hchain, hhorizon⟩ := scanSegments_facts hscan
  have hlist' := h.lists hlist
  have hall' := hall.of_append.congr (h.same (listSegmentPaths_keys hlist).2.1)
  refine ⟨?_, hlist', hall'⟩
  rw [scanSegments, hlist']
  refine scanSegmentPaths_ok.mpr ⟨hall', ?_, ?_⟩
  · rw [List.map_append] at hchain
    exact hchain.right_of_append
  · rw [hhorizon, List.map_append]
    rcases removed.eq_nil_or_concat with rfl | hne
    · rfl
    · refine durableHorizon_append ?_
      obtain ⟨l, a, rfl⟩ := hne
      simpa using hkept (by simp)

/-! ## Indexes that do not lead behind damage -/

/-- Before an index entry that passes the validation there are only whole records. -/
def LogDir.IndexesReached (dir : LogDir) : Prop :=
  ∀ (path : TxID) (content raw : Bytes), dir.segments[path]? = some content →
    dir.indexes[path]? = some raw →
    ∀ i < raw.length / offsetIndexEntrySize, ∀ key off, offsetIndexEntryAt raw i = (key, off) →
      validIndexedOffset content off key = true →
        ∃ before rest, content = segmentText before rest ∧ (∀ rec ∈ before, rec.Storable) ∧
          off = segmentHeaderSize + (before.flatMap recordText).length

theorem ScannedBody.mem_of_reached {body rest rest' : Bytes} {e : LogError} {before : List Record}
    {p : Record × Bytes} (h : ScannedBody path isLast segment body rest e)
    (hst : ∀ rec ∈ before, rec.Storable) (htext : body = before.flatMap recordText ++ rest')
    (hnext : scanNextRecord rest' = .ok p) :
    ∃ rec after, segment.records = before ++ rec :: after := by
  obtain ⟨items, stop, e', hstreams⟩ := scanNextRecord_consumes.exists_streams rest'
  have htakes : Takes scanNextRecord body before rest' := takes_scanNextRecord.mpr ⟨hst, htext⟩
  obtain ⟨hrecords, -⟩ := h.streams.unique (.of_takes htakes hstreams)
  cases items with
  | nil =>
    obtain ⟨htakes, hstops⟩ := hstreams
    cases htakes
    rw [hnext] at hstops
    cases hstops
  | cons rec after => exact ⟨rec, after, hrecords⟩

theorem ScannedAs.pointsAtRecords (h : ScannedAs dir path isLast segment)
    (hreached : dir.IndexesReached) : dir.PointsAtRecords path segment.records := by
  intro content raw idx hfile hraw hopen maxKey i hi key off hentry _ hvalid
  obtain ⟨hcontent, hcount⟩ := openRecoveryOffsetIndex_some hopen
  rw [hcontent] at hentry
  obtain ⟨before, rest', rfl, hst, rfl⟩ :=
    hreached path content raw hfile hraw i (hi.trans_le hcount) key off hentry hvalid
  unfold validIndexedOffset at hvalid
  split at hvalid
  · cases hvalid
  · have hdrop : (segmentText (before ++ []) rest').drop _ = _ := drop_segmentText before []
    rw [List.append_nil, List.flatMap_nil, List.nil_append] at hdrop
    rw [hdrop] at hvalid
    split at hvalid
    · cases hvalid
    · next rec rest₂ hnext =>
      cases h with
      | empty _ hempty _ =>
        rw [hempty] at hfile
        cases hfile
      | body hbodyFile hbody =>
        rw [hbodyFile, Option.some.injEq] at hfile
        have htext := List.append_cancel_left hfile
        obtain ⟨rec, after, hrecords⟩ := hbody.mem_of_reached hst htext hnext
        exact ⟨before, rec, after, hrecords, rfl⟩

theorem ScannedAll.pointsAtRecords
    (h : ScannedAll dir paths segments) (hreached : dir.IndexesReached) :
    ∀ segment ∈ segments, dir.PointsAtRecords segment.info.startTx segment.records := by
  induction h with
  | nil => simp
  | cons hsegment _ ih =>
    refine List.forall_mem_cons.mpr ⟨?_, ih⟩
    rw [hsegment.facts.1]
    exact hsegment.pointsAtRecords hreached

/-! ## The selected snapshot -/

variable {snapshot : SnapshotData} {txID : TxID}

theorem readSnapshotCandidate_txID
    (h : readSnapshotCandidate store reg txID = .ok (.ok snapshot)) : snapshot.txID = txID := by
  revert h
  fun_cases readSnapshotCandidate store reg txID <;> rintro ⟨⟩
  next hread _ =>
    obtain ⟨file, -, hfile⟩ := Option.map_eq_some_iff.mp hread
    revert hfile
    fun_cases readSnapshotWithExpectedTxID txID file <;> rintro ⟨⟩
    next hne => exact not_not.mp hne

theorem candidate_of_validated (h : validateSnapshotForCompaction store txID reg = none) :
    txID ∈ store.snapshots ∧ ∃ snapshot, readSnapshotCandidate store reg txID = .ok (.ok snapshot) := by
  unfold validateSnapshotForCompaction at h
  split at h
  · cases h
  · cases h
  · next snapshot hread =>
    obtain ⟨file, hfile, -⟩ := Option.map_eq_some_iff.mp hread
    refine ⟨?_, snapshot, ?_⟩
    · rw [Std.ExtTreeMap.mem_iff_isSome_getElem?, hfile]
      rfl
    · rw [readSnapshotCandidate, hread]
      dsimp only
      rw [h]

/-- With a usable snapshot below the horizon the selection ends, at this one or a newer one. -/
theorem selectSnapshotLoop_covered
    (hread : readSnapshotCandidate store reg txID = .ok (.ok snapshot)) (hle : txID ≤ horizon)
    {ids : List TxID} (hsorted : ids.Pairwise (· > ·)) (hmem : txID ∈ ids)
    (skipped : List (SnapshotSkip κ)) :
    ∃ skipped' result, selectSnapshotLoop store reg horizon ids skipped = (skipped', some result) ∧
      ∀ selected, result = .ok selected → txID ≤ selected.txID := by
  induction ids generalizing skipped with
  | nil => cases hmem
  | cons id ids ih =>
    obtain ⟨hnewest, hsorted⟩ := List.pairwise_cons.mp hsorted
    have hid : txID ≤ id := by
      rcases List.mem_cons.mp hmem with rfl | hmem
      · exact le_rfl
      · exact (hnewest txID hmem).le
    have hlater : txID ≠ id → txID ∈ ids := fun hne => (List.mem_cons.mp hmem).resolve_left hne
    rw [selectSnapshotLoop]
    split
    · next hpast => exact ih hsorted (hlater (by lia)) _
    · split
      · exact ⟨_, _, rfl, by simp⟩
      · next skip hskip =>
        refine ih hsorted (hlater ?_) _
        rintro rfl
        rw [hread] at hskip
        cases hskip
      · next selected hselected =>
        refine ⟨_, _, rfl, ?_⟩
        rintro _ ⟨⟩
        rwa [readSnapshotCandidate_txID hselected]

/-! ## Recovery without the first segments -/

theorem LogDir.PointsAtRecords.congr {records : List Record}
    (h : dir.PointsAtRecords path records)
    (hfile : dir'.segments[path]? = dir.segments[path]?)
    (hindex : dir'.indexes[path]? = dir.indexes[path]?) : dir'.PointsAtRecords path records :=
  fun content raw idx hcontent hraw => h content raw idx (hfile ▸ hcontent) (hindex ▸ hraw)

theorem validateSnapshotLogBoundary_append {removed kept : List SegmentInfo}
    (hcovered : ∀ segment ∈ removed, segment.lastTx ≤ snapshotTxID) :
    validateSnapshotLogBoundary snapshotTxID (removed ++ kept) =
      validateSnapshotLogBoundary snapshotTxID kept := by
  induction removed with
  | nil => rfl
  | cons segment removed ih =>
    obtain ⟨hfirst, hcovered⟩ := List.forall_mem_cons.mp hcovered
    rw [List.cons_append, validateSnapshotLogBoundary, if_pos hfirst, ih hcovered]

section

variable {σ γ δ α : Type} (decode : Bytes → Except δ γ) (apply : σ → γ → σ × Option α)
  {fromTxID : TxID}

theorem replaySegment_covered {segment : SegmentInfo} (h : segment.lastTx ≤ fromTxID)
    (s : ReplayState σ) : replaySegment decode apply dir fromTxID s segment = (s, none) := by
  unfold replaySegment
  rw [if_pos h]
  exact ite_self _

theorem replaySegment_congr {segment : SegmentInfo}
    (hfile : dir'.segments[segment.startTx]? = dir.segments[segment.startTx]?)
    (hindex : dir'.indexes[segment.startTx]? = dir.indexes[segment.startTx]?)
    (s : ReplayState σ) :
    replaySegment decode apply dir' fromTxID s segment =
      replaySegment decode apply dir fromTxID s segment := by
  unfold replaySegment openSegment seekReplayReaderToHorizon
  rw [hfile, hindex]

theorem replayLogWithApply_pruned (h : dir.Pruned dir' removed kept)
    (hsame : ∀ path ∈ kept.map (·.info.startTx), dir'.segments[path]? = dir.segments[path]?)
    (hcovered : ∀ segment ∈ removed, segment.info.lastTx ≤ fromTxID) (target : σ) :
    replayLogWithApply decode apply dir' (kept.map (·.info)) fromTxID target =
      replayLogWithApply decode apply dir ((removed ++ kept).map (·.info)) fromTxID target := by
  have hcongr : ∀ info ∈ kept.map (·.info), ∀ s : ReplayState σ,
      replaySegment decode apply dir' fromTxID s info =
        replaySegment decode apply dir fromTxID s info := by
    intro info hinfo s
    obtain ⟨segment, hsegment, rfl⟩ := List.mem_map.mp hinfo
    exact replaySegment_congr decode apply
      (hsame _ (List.mem_map_of_mem hsegment)) (h.indexes segment hsegment) s
  unfold replayLogWithApply
  rw [loop_congr hcongr]
  clear h hsame hcongr
  induction removed with
  | nil => rfl
  | cons segment removed ih =>
    obtain ⟨hfirst, hcovered⟩ := List.forall_mem_cons.mp hcovered
    rw [List.cons_append, List.map_cons,
      loop_cons_ok (replaySegment_covered decode apply hfirst _), ih hcovered]

end

theorem planRecoveryResume_append {removed kept : List SegmentInfo} (hkept : kept ≠ [])
    (maxAppliedTxID : TxID) :
    planRecoveryResume (removed ++ kept) maxAppliedTxID =
      planRecoveryResume kept maxAppliedTxID := by
  rw [planRecoveryResume, planRecoveryResume, List.getLast?_append_of_ne_nil _ hkept]

theorem recoverScanned_pruned {skipped : List (SnapshotSkip κ)}
    (h : dir.Pruned dir' removed kept)
    (hsame : ∀ path ∈ kept.map (·.info.startTx), dir'.segments[path]? = dir.segments[path]?)
    (hcovered : ∀ segment ∈ removed, segment.info.lastTx ≤ snapshot.txID) (hkept : kept ≠ []) :
    recoverScanned reg dir' ⟨kept.map (·.info), horizon, some snapshot, skipped⟩ =
      recoverScanned reg dir
        ⟨(removed ++ kept).map (·.info), horizon, some snapshot, skipped⟩ := by
  have hboundary : validateSnapshotLogBoundary snapshot.txID ((removed ++ kept).map (·.info)) =
      validateSnapshotLogBoundary snapshot.txID (kept.map (·.info)) := by
    rw [List.map_append]
    exact validateSnapshotLogBoundary_append (by simpa using hcovered)
  have hplan : ∀ txID, planRecoveryResume ((removed ++ kept).map (·.info)) txID =
      planRecoveryResume (kept.map (·.info)) txID := by
    rw [List.map_append]
    exact planRecoveryResume_append (by simpa using hkept)
  have hbase : ∀ registry, recoveryBase ⟨kept.map (·.info), horizon, some snapshot, skipped⟩
      registry = recoveryBase ⟨(removed ++ kept).map (·.info), horizon, some snapshot, skipped⟩
        registry := by
    intro registry
    simp only [recoveryBase, hboundary]
  have hfrom : ∀ registry committed replayFrom,
      recoveryBase ⟨(removed ++ kept).map (·.info), horizon, some snapshot, skipped⟩ registry =
        .ok (committed, replayFrom) → replayFrom = snapshot.txID := by
    intro registry committed replayFrom hok
    simp only [recoveryBase] at hok
    split at hok
    · cases hok
    · split at hok <;> cases hok
      rfl
  have hreplay : ∀ registry committed,
      replayBatch (κ := κ) dir' (kept.map (·.info)) registry committed snapshot.txID =
        replayBatch dir ((removed ++ kept).map (·.info)) registry committed snapshot.txID := by
    intro registry committed
    rw [replayBatch, replayBatch, replayLogWithApply_pruned _ _ h hsame hcovered]
  unfold recoverScanned
  dsimp only
  rw [hbase]
  cases hok : recoveryBase ⟨(removed ++ kept).map (·.info), horizon, some snapshot, skipped⟩
    (reconcileSnapshotRegistry (some snapshot) reg) with
  | error e => simp only [Option.isNone_some, Bool.false_and, bind, Except.bind]
  | ok p =>
    obtain ⟨committed, replayFrom⟩ := p
    obtain rfl := hfrom _ _ _ hok
    simp only [Option.isNone_some, Bool.false_and, bind, Except.bind, hreplay, hplan]

/-! ## The removals of a compaction -/

/-- A snapshot that covers the removed segments is selected, or recovery fails before and after. -/
def SelectionCovers (store : SnapshotStore κ) (reg : SchemaRegistry) (horizon : TxID)
    (removed : List ScannedSegment) : Prop :=
  ∃ skipped result,
    selectSnapshotLoop store reg horizon (listSnapshots store) [] = (skipped, some result) ∧
      ∀ selected, result = .ok selected →
        ∀ segment ∈ removed, segment.info.lastTx ≤ selected.txID

theorem openAndRecover_pruned (h : dir.Pruned dir' removed kept)
    (hscan : scanSegments dir = .ok (removed ++ kept, horizon))
    (hreached : dir.IndexesReached) (hkept : kept ≠ [])
    (hcovers : SelectionCovers store reg horizon removed) :
    openAndRecoverWithRegistryReport store reg dir' =
      openAndRecoverWithRegistryReport store reg dir := by
  obtain ⟨hscan', hlist', hall'⟩ := h.scan hscan fun _ => hkept
  obtain ⟨hlist, hall, -⟩ := scanSegments_facts hscan
  have hpoints := hall.pointsAtRecords hreached
  have hsame := h.same (listSegmentPaths_keys hlist).2.1
  have hpoints' : ∀ segment ∈ kept,
      dir'.PointsAtRecords segment.info.startTx segment.records := fun segment hsegment =>
    (hpoints segment (List.mem_append_right _ hsegment)).congr
      (hsame _ (List.mem_map_of_mem hsegment)) (h.indexes segment hsegment)
  obtain ⟨skipped, result, hloop, hcovered⟩ := hcovers
  unfold openAndRecoverWithRegistryReport
  rw [scanRecovery_eq_full store reg hlist hall hpoints,
    scanRecovery_eq_full store reg hlist' hall' hpoints',
    fullRecoveryScan_selected hscan (by simp [hkept]) hloop,
    fullRecoveryScan_selected hscan' hkept hloop]
  cases result with
  | error e => rfl
  | ok snapshot => exact recoverScanned_pruned h hsame (hcovered snapshot rfl) hkept

theorem openAndRecover_noSegments (hscan : scanSegments dir = .ok ([], horizon))
    (hscan' : scanSegments dir' = .ok ([], horizon)) :
    openAndRecoverWithRegistryReport store reg dir' =
      openAndRecoverWithRegistryReport store reg dir := by
  have hfull : ∀ d, scanSegments d = .ok ([], horizon) →
      scanRecoverySegmentsAndSelectSnapshot store reg d = fullRecoveryScan store reg d := by
    intro d hd
    obtain ⟨hlist, hall, -⟩ := scanSegments_facts hd
    exact scanRecovery_eq_full store reg hlist hall (by simp)
  have hsegments : ∀ scan e, fullRecoveryScan store reg dir = (scan, e) → scan.segments = [] := by
    intro scan e hfound
    unfold fullRecoveryScan at hfound
    simp only [hscan, List.map_nil] at hfound
    split at hfound <;> cases hfound <;> rfl
  have hscanEq : fullRecoveryScan store reg dir' = fullRecoveryScan store reg dir := by
    simp only [fullRecoveryScan, selectSnapshotWithReport, hscan, hscan']
  unfold openAndRecoverWithRegistryReport
  rw [hfull dir hscan, hfull dir' hscan', hscanEq]
  cases hfound : fullRecoveryScan store reg dir with
  | mk scan e =>
    cases e with
    | some e => rfl
    | none =>
      have hnil := hsegments scan none hfound
      dsimp only
      unfold recoverScanned replayBatch replayLogWithApply
      simp only [hnil, loop_nil]

theorem ScannedAll.startTx_le
    (h : ScannedAll dir paths segments) :
    ∀ info ∈ segments.map (·.info), info.startTx ≤ info.lastTx + 1 := by
  induction h with
  | nil => simp
  | cons hsegment _ ih =>
    obtain ⟨hstart, hlast, -⟩ := hsegment.facts
    exact List.forall_mem_cons.mpr ⟨by lia, ih⟩

/-- After any number of removals a beginning of the segments is gone, covered by the snapshot. -/
theorem compactionRemovals_pruned {removals : List Removal} (hpos : snapshotTxID ≠ 0)
    (hremovals : compactionRemovals dir snapshotTxID = .ok removals) (k : Nat) :
    ∃ removed kept horizon, scanSegments dir = .ok (removed ++ kept, horizon) ∧
      dir.Pruned (dir.remove (removals.take k)) removed kept ∧
      (removed ++ kept ≠ [] → kept ≠ [] ∧ snapshotTxID ≤ horizon) ∧
      ∀ segment ∈ removed, segment.info.lastTx ≤ snapshotTxID := by
  unfold compactionRemovals at hremovals
  split at hremovals
  · cases hremovals
  · next segments horizon hscan =>
    dsimp only at hremovals
    split at hremovals
    · cases hremovals
    · next hbeyond =>
      obtain ⟨hlist, hall, hchain, -⟩ := scanSegments_facts hscan
      have hsorted := (listSegmentPaths_keys hlist).2.1
      obtain ⟨removed, kept, hinfos, hkept, hdeleted, hcovered⟩ :=
        compact_deleted hpos hchain hall.startTx_le
      rw [hdeleted] at hremovals
      cases hremovals
      obtain ⟨j, hj⟩ := mem_take_removals (removed.map (·.startTx))
        (orphanedCoveredOffsetIndexes dir (segments.map (·.info)) snapshotTxID) k
      -- the removed segments are the first ones, as far as the removals have come
      generalize hn : min j removed.length = n
      have hremoved : removed = (segments.map (·.info)).take removed.length := by
        rw [hinfos, List.take_left' rfl]
      have htake : (removed.map (·.startTx)).take j =
          (segments.take n).map (·.info.startTx) := by
        rw [hremoved, ← hn, List.map_take, List.take_take, List.map_map, List.map_take]
        rfl
      rw [← List.take_append_drop n segments] at hscan hsorted
      refine ⟨segments.take n, segments.drop n, horizon, hscan, ⟨?_, ?_⟩, ?_, ?_⟩
      · intro path
        rw [(dir.getElem?_remove _ path).1, ← htake]
        simp only [(hj path).1]
      · intro segment hsegment
        rw [(dir.getElem?_remove _ _).2, if_neg]
        intro hin
        rcases (hj _).2 hin with hin | hin
        · rw [htake] at hin
          rw [List.map_append, List.pairwise_append] at hsorted
          exact Nat.lt_irrefl _ (hsorted.2.2 _ hin _ (List.mem_map_of_mem hsegment))
        · rw [orphanedCoveredOffsetIndexes, if_neg hpos, List.mem_filter, Bool.and_eq_true,
            Bool.not_eq_true', List.contains_eq_mem, decide_eq_false_iff_not] at hin
          refine hin.2.2 ?_
          rw [List.map_map]
          exact List.mem_map_of_mem (List.mem_of_mem_drop hsegment)
      · rw [List.take_append_drop]
        intro hne
        have hne' : segments.map (·.info) ≠ [] := by simpa using hne
        have hlen := congrArg List.length hinfos
        have hkeptPos := List.length_pos_iff.mpr (hkept hne')
        rw [List.length_map, List.length_append] at hlen
        refine ⟨?_, ?_⟩
        · rw [← List.length_pos_iff, List.length_drop]
          omega
        · by_contra hlt
          exact hbeyond ⟨hpos, hne', not_le.mp hlt⟩
      · intro segment hsegment
        refine hcovered segment.info ?_
        rw [hremoved]
        have hle : n ≤ removed.length := hn ▸ min_le_right _ _
        have hmem := List.take_subset_take_left segments hle hsegment
        rw [← List.map_take]
        exact List.mem_map_of_mem hmem

theorem compact_zero (segments : List SegmentRange) : (compact 0 segments).1 = [] := by
  induction segments with
  | nil => rfl
  | cons segment segments ih =>
    rw [compact]
    dsimp only
    rw [if_pos rfl]
    split <;> exact ih

theorem compactionRemovals_zero {removals : List Removal}
    (h : compactionRemovals dir 0 = .ok removals) : removals = [] := by
  unfold compactionRemovals at h
  split at h
  · cases h
  · dsimp only at h
    rw [if_neg (by simp), compact_zero, orphanedCoveredOffsetIndexes, if_pos rfl] at h
    cases h
    rfl

theorem listSnapshots_sorted (store : SnapshotStore κ) :
    (listSnapshots store).Pairwise (· > ·) := by
  rw [listSnapshots, List.pairwise_reverse]
  exact Std.ExtTreeMap.ordered_keys.imp Nat.compare_eq_lt.mp

def emptySnapshot (txID : TxID) : SnapshotData := ⟨txID, 1, 1, [], ∅, ∅, []⟩

def emptySnapshots (ids : List TxID) : SnapshotStore Empty where
  snapshots := ids.foldl (fun m txID => m.insert txID (.ok (emptySnapshot txID))) ∅
  isUnsafe := nofun

def emptyRecord (txID : TxID) : Record := ⟨txID, 1, 0, [1, 0, 0, 0, 0]⟩

def twoSegments : LogDir where
  segments := ((∅ : GoMap TxID Bytes).insert 1 (segmentText [emptyRecord 1, emptyRecord 2] [])).insert
    3 (segmentText [emptyRecord 3] [])
  indexes := (∅ : GoMap TxID Bytes).insert 1 (littleEndian 8 1 ++ littleEndian 8 8)

theorem twoSegments_reached : twoSegments.IndexesReached := by
  intro path content raw hfile hraw i hi key off hentry _
  simp only [twoSegments, get_insert] at hraw
  split at hraw
  · next hpath =>
    subst hpath
    cases hraw
    obtain rfl : i = 0 := by
      have hlen : (littleEndian 8 1 ++ littleEndian 8 8).length / offsetIndexEntrySize = 1 := by
        decide
      omega
    have hentry' : offsetIndexEntryAt (littleEndian 8 1 ++ littleEndian 8 8) 0 = (1, 8) := by
      decide
    rw [hentry'] at hentry
    cases hentry
    have hcontent : twoSegments.segments[1]? =
        some (segmentText [emptyRecord 1, emptyRecord 2] []) := rfl
    rw [hcontent] at hfile
    cases hfile
    exact ⟨[], _, rfl, by simp, rfl⟩
  · simp at hraw

/--
The second segment is damaged at transaction 6, and its index leads to
transaction 7 behind the damage; writing went on in a third segment.
-/
def behindDamage : LogDir where
  segments := (((∅ : GoMap TxID Bytes).insert 1
    (segmentText [emptyRecord 1, emptyRecord 2, emptyRecord 3] [])).insert 4
      (segmentText [emptyRecord 4, emptyRecord 5]
        ((recordText (emptyRecord 6)).dropLast ++ (255 :: recordText (emptyRecord 7))))).insert 6
        (segmentText [emptyRecord 6, emptyRecord 7, emptyRecord 8] [])
  indexes := ((∅ : GoMap TxID Bytes).insert 4 (littleEndian 8 7 ++ littleEndian 8 77)).insert 6
    (littleEndian 8 6 ++ littleEndian 8 8)

end Shunter
