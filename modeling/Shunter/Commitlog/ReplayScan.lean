import Shunter.Commitlog.Replay

/-!
# The scan and the replay agree

A replay over scanned segments hands over exactly the accepted records behind
the horizon, as long as they are decoded and applied without an error.
-/

namespace Shunter

open Foundation Reader

variable {σ γ δ α : Type}

section

variable (decode : Bytes → Except δ γ) (apply : σ → γ → σ × Option α) (fromTxID : TxID)

/-- The records behind the horizon are decoded and applied one after the other. -/
inductive Replays : ReplayState σ → List Record → ReplayState σ → Prop
  | nil (s : ReplayState σ) : Replays s [] s
  | covered {s s' : ReplayState σ} {rec : Record} {records : List Record}
      (hle : rec.txID ≤ fromTxID) (h : Replays s records s') : Replays s (rec :: records) s'
  | applied {s s' : ReplayState σ} {rec : Record} {records : List Record} {c : γ} {target : σ}
      (hlt : ¬ rec.txID ≤ fromTxID) (hdecode : decode rec.payload = .ok c)
      (happly : apply s.target c = (target, none))
      (h : Replays ⟨target, max s.maxAppliedTxID rec.txID⟩ records s') :
      Replays s (rec :: records) s'

end

variable {decode : Bytes → Except δ γ} {apply : σ → γ → σ × Option α} {fromTxID : TxID}
  {segment : SegmentInfo} {s s' : ReplayState σ} {records : List Record}

theorem replays_append {records' : List Record} :
    Replays decode apply fromTxID s (records ++ records') s' ↔
      ∃ s₁, Replays decode apply fromTxID s records s₁ ∧
        Replays decode apply fromTxID s₁ records' s' := by
  constructor
  · intro h
    induction records generalizing s with
    | nil => exact ⟨s, .nil s, h⟩
    | cons rec records ih =>
      cases h with
      | covered hle h =>
        obtain ⟨s₁, hfirst, hrest⟩ := ih h
        exact ⟨s₁, .covered hle hfirst, hrest⟩
      | applied hlt hdecode happly h =>
        obtain ⟨s₁, hfirst, hrest⟩ := ih h
        exact ⟨s₁, .applied hlt hdecode happly hfirst, hrest⟩
  · rintro ⟨s₁, hfirst, hrest⟩
    induction hfirst with
    | nil => exact hrest
    | covered hle _ ih => exact .covered hle (ih hrest)
    | applied hlt hdecode happly _ ih => exact .applied hlt hdecode happly (ih hrest)

theorem Replays.eq_of_covered (h : Replays decode apply fromTxID s records s')
    (hle : ∀ rec ∈ records, rec.txID ≤ fromTxID) : s' = s := by
  induction h with
  | nil => rfl
  | covered _ _ ih => exact ih (List.forall_mem_cons.mp hle).2
  | applied hlt => exact absurd (hle _ List.mem_cons_self) hlt

theorem Replays.foldlM_replayStep (h : Replays decode apply fromTxID s records s')
    (hgo : ∀ rec ∈ records, shouldStopAfterRecord segment rec.txID = false) :
    records.foldlM (replayStep decode apply segment fromTxID) s = .ok s' := by
  induction h with
  | nil => rfl
  | covered hle _ ih =>
    obtain ⟨hrec, hgo⟩ := List.forall_mem_cons.mp hgo
    rw [List.foldlM_cons, replayStep, if_pos hle, hrec]
    exact ih hgo
  | applied hlt hdecode happly _ ih =>
    obtain ⟨hrec, hgo⟩ := List.forall_mem_cons.mp hgo
    rw [List.foldlM_cons, replayStep, if_neg hlt, hdecode]
    simp only [happly, hrec]
    exact ih hgo

theorem Replays.foldlM_replayStep_stop {last : Record}
    (h : Replays decode apply fromTxID s (records ++ [last]) s')
    (hgo : ∀ rec ∈ records, shouldStopAfterRecord segment rec.txID = false)
    (hlast : shouldStopAfterRecord segment last.txID = true) :
    (records ++ [last]).foldlM (replayStep decode apply segment fromTxID) s = .error (s', none) := by
  obtain ⟨s₁, hfirst, hrest⟩ := replays_append.mp h
  rw [List.foldlM_append, hfirst.foldlM_replayStep hgo]
  simp only [bind, Except.bind, List.foldlM_cons, replayStep, hlast]
  cases hrest with
  | covered hle h =>
    cases h
    rw [if_pos hle]
    rfl
  | applied hlt hdecode happly h =>
    cases h
    rw [if_neg hlt, hdecode]
    simp only [happly]
    rfl

/-! ## One segment -/

/-- The faithful indexes of a directory, for the segments that a scan has accepted. -/
def LogDir.Indexed (dir : LogDir) (segment : ScannedSegment) : Prop :=
  ∀ content idx, dir.segments[segment.info.startTx]? = some content →
    dir.indexes[segment.info.startTx]? = some idx →
    (openOffsetIndex idx).PointsAt content segment.records segment.info.lastTx

theorem OffsetIndex.PointsAt.mono {idx : OffsetIndex} {content : Bytes} {m n : TxID}
    (h : idx.PointsAt content records n) (hmn : m ≤ n) : idx.PointsAt content records m :=
  fun i hi key off hentry hkey => h i hi key off hentry (hkey.trans hmn)

variable {dir : LogDir} {startTx : TxID} {isLast : Bool} {segment : ScannedSegment}
  {body rest : Bytes} {e : LogError} {paths : List TxID} {segments : List ScannedSegment}

theorem seekReplayReaderToHorizon_pos (hindexed : dir.Indexed segment)
    (hfile : dir.segments[startTx]? = some (segmentHeader ++ body))
    (h : ScannedBody startTx isLast segment body rest e) (hhorizon : fromTxID < segment.info.lastTx) :
    ∃ before after, segment.records = before ++ after ∧ (∀ rec ∈ before, rec.txID ≤ fromTxID) ∧
      seekReplayReaderToHorizon dir startTx fromTxID body = after.flatMap recordText ++ rest := by
  have hwhole : ∃ before after, segment.records = before ++ after ∧
      (∀ rec ∈ before, rec.txID ≤ fromTxID) ∧ body = after.flatMap recordText ++ rest :=
    ⟨[], segment.records, rfl, by simp, h.text⟩
  unfold seekReplayReaderToHorizon
  split
  · exact hwhole
  · next hfrom =>
    cases hidx : dir.indexes[startTx]? with
    | none => exact hwhole
    | some idx =>
      have hne : segment.records ≠ [] := by
        intro hnil
        have := h.lastTx
        rw [hnil, List.length_nil] at this
        lia
      have hlast := h.getLast_txID hne
      have htarget : (fromTxID + 1) % 2 ^ 64 = fromTxID + 1 := by
        have := (h.storable _ (List.getLast_mem hne)).txID
        refine Nat.mod_eq_of_lt ?_
        lia
      have hpoints : ∀ i ∈ some (openOffsetIndex idx), i.PointsAt
          (segmentText segment.records rest) segment.records (fromTxID + 1) := by
        rintro _ ⟨⟩
        rw [segmentText, ← h.text]
        rw [← h.startTx] at hfile hidx
        exact (hindexed _ idx hfile hidx).mono hhorizon
      have hseek := seekToTxID_found h.storable h.consecutive.pairwise hpoints
        ⟨_, List.getLast_mem hne, by lia⟩
      rw [segmentText, ← h.text] at hseek
      dsimp only
      rw [htarget, hseek]
      refine ⟨_, _, (List.takeWhile_append_dropWhile (p := (·.txID < fromTxID + 1))).symm, ?_,
        rfl⟩
      intro rec hrec
      have := List.mem_takeWhile_imp hrec
      simp only [decide_eq_true_eq] at this
      lia

theorem replayPosition (hindexed : startTx ≤ fromTxID → dir.Indexed segment)
    (hfile : dir.segments[startTx]? = some (segmentHeader ++ body))
    (h : ScannedBody startTx isLast segment body rest e) (hhorizon : fromTxID < segment.info.lastTx) :
    ∃ before after, segment.records = before ++ after ∧ (∀ rec ∈ before, rec.txID ≤ fromTxID) ∧
      (if startTx ≤ fromTxID then seekReplayReaderToHorizon dir startTx fromTxID body else body) =
        after.flatMap recordText ++ rest := by
  split
  · next hseek => exact seekReplayReaderToHorizon_pos (hindexed hseek) hfile h hhorizon
  · exact ⟨[], segment.records, rfl, by simp, h.text⟩

/-- What is read from a position inside a segment, by the mode in which the scan left it. -/
theorem consume_scanned (h : ScannedBody startTx isLast segment body rest e)
    {before after : List Record} (hrecords : segment.records = before ++ after) {fuel : Nat}
    (hfuel : after.length < fuel) (hafter : after = [] → e = .eof) (outOfFuel)
    (hreplays : Replays decode apply fromTxID s after s') :
    consume (Shunter.decodeRecord formatMaxRecordPayloadBytes)
        (replayStep decode apply segment.info fromTxID)
        (replayFinish segment.info) outOfFuel fuel s (after.flatMap recordText ++ rest) =
      (s', none) := by
  have hst : ∀ rec ∈ after, rec.Storable := fun rec hrec => h.storable rec (by simp [hrecords, hrec])
  have htakes : Takes (Shunter.decodeRecord formatMaxRecordPayloadBytes)
      (after.flatMap recordText ++ rest) after rest :=
    (takes_scanNextRecord.mpr ⟨hst, rfl⟩).imp fun _ _ => decodeRecord_eq_scanNextRecord
  have hends := h.ends
  generalize hmode : segment.info.appendMode = mode at hends
  cases hends with
  | clean =>
    have hstop := decodeRecord_eof (scanNextRecord_eof.mp h.streams.stops)
      formatMaxRecordPayloadBytes
    rw [consume_eq ⟨htakes, hstop⟩ hfuel, hreplays.foldlM_replayStep]
    · rfl
    · intro rec _
      unfold shouldStopAfterRecord
      rw [hmode]
      cases isLast <;> rfl
  | damaged hdamaged =>
    have hne : after ≠ [] := by
      intro hnil
      rw [hafter hnil] at hdamaged
      cases hdamaged
    have hlast : (after.getLast hne).txID = segment.info.lastTx := by
      rw [← h.getLast_txID (by simp [hrecords, hne])]
      simp only [hrecords, List.getLast_append_of_ne_nil _ hne]
    refine consume_of_takes htakes hfuel ?_
    rw [← List.dropLast_append_getLast hne] at hreplays ⊢
    refine hreplays.foldlM_replayStep_stop ?_ ?_
    · intro rec hrec
      have hinc := h.consecutive.pairwise
      rw [hrecords, ← List.dropLast_append_getLast hne] at hinc
      have hlt := (List.pairwise_append.mp (List.pairwise_append.mp hinc).2.1).2.2 rec hrec _
        (List.mem_singleton_self _)
      rw [hlast] at hlt
      simp only [shouldStopAfterRecord, Bool.and_eq_false_imp, decide_eq_false_iff_not, not_le]
      exact fun _ => hlt
    · simp [shouldStopAfterRecord, hmode, hlast]

theorem replaySegment_scanned (h : ScannedAs dir startTx isLast segment)
    (hindexed : startTx ≤ fromTxID → dir.Indexed segment)
    (hreplays : Replays decode apply fromTxID s segment.records s') :
    replaySegment decode apply dir fromTxID s segment.info = (s', none) := by
  obtain ⟨hstart, hlastTx, hcons⟩ := h.facts
  unfold replaySegment
  split
  · next hempty =>
    rw [hreplays.eq_of_covered]
    intro rec hrec
    have := h.mem_le_lastTx hrec
    simp only [isEmptyDamagedTail, Bool.and_eq_true, decide_eq_true_eq] at hempty
    lia
  · next hempty =>
    split
    · next hcovered =>
      rw [hreplays.eq_of_covered fun rec hrec => (h.mem_le_lastTx hrec).2.trans hcovered]
    · next hbehind =>
      cases h with
      | empty _ _ hsegment =>
        subst hsegment
        simp only [isEmptyDamagedTail, beq_self_eq_true, Bool.true_and,
          decide_eq_true_eq] at hempty hbehind
        lia
      | @body body rest e hfile hbody =>
        have hhorizon : fromTxID < segment.info.lastTx := not_le.mp hbehind
        obtain ⟨before, after, hrecords, hbefore, hpos⟩ :=
          replayPosition hindexed hfile hbody hhorizon
        have hlen : after.length < body.length + 1 := by
          have := scanNextRecord_consumes.length_le hbody.streams.takes
          rw [hrecords, List.length_append] at this
          omega
        rw [hstart, openSegment_ok.mpr hfile]
        dsimp only
        obtain ⟨s₁, hfirst, hrest⟩ := replays_append.mp (hrecords ▸ hreplays)
        rw [hfirst.eq_of_covered hbefore] at hrest
        rw [hpos, consume_scanned hbody hrecords hlen _ _ hrest]
        -- a position behind all records only comes with a clean end
        intro hnil
        have hrec : segment.records = [] := by
          by_contra hne
          have hle := hbefore _ (show segment.records.getLast hne ∈ before by
            rw [hnil, List.append_nil] at hrecords
            simp [← hrecords])
          rw [hbody.getLast_txID hne] at hle
          exact absurd hle hbehind
        rw [hrec, List.length_nil] at hlastTx
        have hends := hbody.ends
        generalize hmode : segment.info.appendMode = mode at hends
        cases hends with
        | clean => rfl
        | damaged =>
          simp only [isEmptyDamagedTail, hmode, beq_self_eq_true, Bool.true_and,
            decide_eq_true_eq] at hempty
          lia

/-! ## All segments -/

theorem replayLog_replays (h : ScannedAll dir paths segments)
    (hindexed : ∀ segment ∈ segments, segment.info.startTx ≤ fromTxID → dir.Indexed segment)
    (hreplays : Replays decode apply fromTxID s (segments.flatMap (·.records)) s') :
    loop (replaySegment decode apply dir fromTxID) s (segments.map (·.info)) = (s', none) := by
  induction h generalizing s with
  | nil =>
    cases hreplays
    rfl
  | cons hsegment _ ih =>
    obtain ⟨hfirst, hindexed⟩ := List.forall_mem_cons.mp hindexed
    rw [List.flatMap_cons] at hreplays
    obtain ⟨s₁, hhead, hrest⟩ := replays_append.mp hreplays
    rw [List.map_cons, loop_cons_ok (replaySegment_scanned hsegment (hsegment.facts.1 ▸ hfirst) hhead),
      ih hindexed hrest]

variable (decode : Bytes → γ) (apply : σ → γ → σ)

def ReplayState.applyRecord (s : ReplayState σ) (rec : Record) : ReplayState σ :=
  ⟨apply s.target (decode rec.payload), max s.maxAppliedTxID rec.txID⟩

def ReplayState.applyAll (fromTxID : TxID) (s : ReplayState σ) (records : List Record) :
    ReplayState σ :=
  (records.filter (fromTxID < ·.txID)).foldl (ReplayState.applyRecord decode apply) s

theorem replays_applyAll (records : List Record) (s : ReplayState σ) :
    Replays (δ := δ) (α := α) (fun payload => .ok (decode payload))
      (fun s c => (apply s c, none)) fromTxID s records
      (s.applyAll decode apply fromTxID records) := by
  unfold ReplayState.applyAll
  induction records generalizing s with
  | nil => exact .nil s
  | cons rec records ih =>
    by_cases hle : rec.txID ≤ fromTxID
    · rw [List.filter_cons_of_neg (by simpa using hle)]
      exact .covered hle (ih s)
    · rw [List.filter_cons_of_pos (by simpa using hle)]
      exact .applied hle rfl rfl (ih _)

theorem replayLog_scanned (h : ScannedAll dir paths segments)
    (hindexed : ∀ segment ∈ segments, dir.Indexed segment) (s : ReplayState σ) :
    loop (replaySegment (δ := δ) (α := α) (fun payload => .ok (decode payload))
        (fun s c => (apply s c, none)) dir fromTxID) s (segments.map (·.info)) =
      (s.applyAll decode apply fromTxID (segments.flatMap (·.records)), none) :=
  replayLog_replays h (fun segment hmem _ => hindexed segment hmem) (replays_applyAll decode apply _ s)

theorem ReplayState.foldl_applyRecord (records : List Record) (s : ReplayState σ) :
    records.foldl (ReplayState.applyRecord decode apply) s =
      ⟨records.foldl (fun target rec => apply target (decode rec.payload)) s.target,
        (records.map (·.txID)).foldl max s.maxAppliedTxID⟩ := by
  induction records generalizing s with
  | nil => rfl
  | cons rec records ih => exact ih _

/-- Two segments, a damaged one with an index and one that is padded with zeros. -/
def exampleLog : LogDir where
  segments := ((∅ : GoMap TxID Bytes).insert 1
    (segmentText [⟨1, 1, 0, [10]⟩, ⟨2, 1, 0, [20]⟩] [255])).insert 3
      (segmentText [⟨3, 1, 0, [30]⟩] [0, 0, 0])
  indexes := (∅ : GoMap TxID Bytes).insert 1 (littleEndian 8 1 ++ littleEndian 8 8)

def exampleScan : List ScannedSegment :=
  [⟨⟨1, 2, .freshNextSegment⟩, [⟨1, 1, 0, [10]⟩, ⟨2, 1, 0, [20]⟩]⟩,
    ⟨⟨3, 3, .inPlace⟩, [⟨3, 1, 0, [30]⟩]⟩]

theorem exampleLog_indexed : ∀ segment ∈ exampleScan, exampleLog.Indexed segment := by
  have hnone : exampleLog.indexes[3]? = none := by decide
  have hsome : exampleLog.indexes[1]? = some (littleEndian 8 1 ++ littleEndian 8 8) := by decide
  intro segment hsegment content idx hcontent hidx i hi key off hentry _ _
  simp only [exampleScan, List.mem_cons, List.not_mem_nil, or_false] at hsegment
  rcases hsegment with rfl | rfl
  · rw [show exampleLog.indexes[(1 : TxID)]? = _ from hsome, Option.some.injEq] at hidx
    subst hidx
    obtain rfl : i = 0 := by
      have hone : (openOffsetIndex (littleEndian 8 1 ++ littleEndian 8 8)).numEntries = 1 := by
        decide
      omega
    refine ⟨[], _, _, rfl, ?_⟩
    have hoff : (offsetIndexEntryAt (littleEndian 8 1 ++ littleEndian 8 8) 0).2 = 8 := by decide
    exact (congrArg Prod.snd hentry).symm.trans hoff
  · rw [show exampleLog.indexes[(3 : TxID)]? = _ from hnone] at hidx
    cases hidx

end Shunter
