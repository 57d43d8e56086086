import Shunter.Commitlog.CommitDurable
import Shunter.Commitlog.CrashRecovery
import Shunter.Commitlog.Recovery
import Shunter.Store.LiveReplay

/-!
# Recovery returns the committed state

Transactions commit, their changesets are encoded and appended to the log, and
the process stops anywhere.  A recovery from the log alone returns a state that
agrees with the one after the last commit that survived.
-/

namespace Shunter

open Foundation Reader

variable {κ : Type} (store : SnapshotStore κ) (reg : SchemaRegistry) (limits : CodecLimits)

/-- The states of a database, each with the records of the commits that led to it. -/
inductive History : List Record → CommittedState → Prop
  | fresh : History [] (.fresh reg)
  | commit {records : List Record} {rec : Record} {cs cs' : CommittedState} {script : TxScript}
      {c : Changeset} (h : History records cs) (hrun : script.run cs = .ok (cs', [c]))
      (htx : rec.txID = records.length + 1)
      (hencode : encodeChangesetWithLimits c limits = .ok rec.payload) :
      History (records ++ [rec]) cs'
  | recover {phase : LogPhase} {log : SurvivingLog} {cs : CommittedState} {recovered : Recovered}
      (h : History log.records cs) (hlog : LogRun 0 phase log) (hne : log.records ≠ [])
      (hopen : openAndRecoverWithRegistryReport store reg phase.dir = .ok recovered) :
      History log.records recovered.committed

/-- Replaying the records into fresh tables leads to the state, up to row identifiers. -/
structure ReplaysTo (records : List Record) (cs : CommittedState) : Prop where
  inv : cs.Inv
  schemas : (CommittedState.fresh reg).SameSchemas cs
  replay : ∃ batch : RecoveryBatch,
    Replays (fun payload => decodeChangeset payload reg) (RecoveryBatch.apply (.fresh reg)) 0
      ⟨.new, 0⟩ records ⟨batch, records.length⟩ ∧
    (batch.usable = none ∧ StagedSound (.fresh reg) batch.staged) ∧
    ViewReplayOf cs.table ((CommittedState.fresh reg).overlay batch.staged)

variable {store reg limits} {cs cs' : CommittedState} {records records' : List Record}

theorem History.prefix_history (h : History store reg limits records cs)
    (hpre : records' <+: records) : ∃ cs', History store reg limits records' cs' := by
  induction h with
  | fresh =>
    obtain rfl := List.prefix_nil.mp hpre
    exact ⟨_, .fresh⟩
  | commit h hrun htx hencode ih =>
    rcases List.prefix_concat_iff.mp hpre with rfl | hpre
    · exact ⟨_, h.commit hrun htx hencode⟩
    · exact ih hpre
  | recover _ _ _ _ ih => exact ih hpre

theorem TxScript.run_entries {script : TxScript} {log : List Changeset} (hcs : cs.Inv)
    (hover : cs.All fun tableID table => reg.table tableID = some table.schema)
    (hids : ∀ ts ∈ reg.tables, ts.id < 2 ^ 32) (hrun : script.run cs = .ok (cs', log)) :
    ∀ c ∈ log, ∀ e ∈ c.tables.toList, EntryOf reg e.1 e.2 := by
  revert hrun
  fun_cases TxScript.run cs script <;> rintro ⟨⟩
  · simp
  · next hcommit =>
    rw [List.forall_mem_singleton]
    exact commit_entries hcs hover hids _ _ _ _ (congrArg (·.2.2) hcommit)

theorem CommittedState.SameSchemas.over (h : (CommittedState.fresh reg).SameSchemas cs) :
    cs.All fun tableID table => reg.table tableID = some table.schema := by
  intro tid table htable
  have hsame := h tid
  rw [htable, CommittedState.fresh_table] at hsame
  rw [Option.map_map] at hsame
  exact (hsame.trans (congrFun Option.map_id _)).symm

section

variable (hreg : ∀ ts ∈ reg.tables, ts.PrimaryUnique) (hids : ∀ ts ∈ reg.tables, ts.id < 2 ^ 32)
  (haccepted : limits.accepted = true)
include hreg

theorem replaysTo_fresh : ReplaysTo reg [] (.fresh reg) := by
  have hcs := CommittedState.fresh_inv hreg
  refine ⟨hcs, fun _ => rfl, .new, .nil _, ⟨rfl, .empty _⟩, ?_⟩
  rw [RecoveryBatch.new, overlay_empty]
  exact .refl hcs

include hids haccepted in
theorem ReplaysTo.commit (h : ReplaysTo reg records cs) {script : TxScript} {c : Changeset}
    {rec : Record} (hrun : script.run cs = .ok (cs', [c])) (htx : rec.txID = records.length + 1)
    (hencode : encodeChangesetWithLimits c limits = .ok rec.payload) :
    ReplaysTo reg (records ++ [rec]) cs' := by
  obtain ⟨-, ⟨⟩⟩ | ⟨c, ⟨⟩, hcommit⟩ := script.run_cases h.inv hrun
  obtain ⟨batch, hreplays, hbatch, hsim⟩ := h.replay
  have hnodup := nodup_fst_toList c.tables
  have hreplayer := RecoveryBatch.replayer_recoveryBatch (CommittedState.fresh_inv hreg)
  obtain ⟨batch', happly⟩ := hreplayer.run batch _ hbatch hnodup (hsim.applicable hcommit)
  obtain ⟨hbatch', happlied⟩ := hreplayer.applied batch _ batch' hbatch hnodup happly
  refine ⟨hcommit.inv h.inv, fun tid => (hcommit.sameSchemas tid).trans (h.schemas tid), batch',
    replays_append.mpr ⟨_, hreplays, ?_⟩, hbatch', hsim.step h.inv hcommit happlied⟩
  have hentries := script.run_entries h.inv h.schemas.over hids hrun c (by simp)
  refine .applied (by lia) (encoded_recovers haccepted hentries hencode) happly ?_
  rw [htx, max_eq_right (Nat.le_succ _), List.length_append]
  exact .nil _

/-- What opening a directory returns: the replayed state and a plan, unless there is none. -/
theorem ReplaysTo.opens {phase : LogPhase} {log : SurvivingLog} (h : ReplaysTo reg log.records cs)
    (hlog : LogRun 0 phase log) (hne : log.records ≠ []) (hstore : store.snapshots = ∅) :
    ∃ segments horizon committed, scanSegments phase.dir = .ok (segments, horizon) ∧
      ReplaysTo reg log.records committed ∧ ViewReplayOf cs.table committed.table ∧
      openAndRecoverWithRegistryReport store reg phase.dir =
        match planRecoveryResume (segments.map (·.info)) log.records.length with
        | .error e => .error (.log e)
        | .ok plan => .ok ⟨committed, log.records.length, plan, reg⟩ := by
  have hcs := CommittedState.fresh_inv hreg
  obtain ⟨batch, hreplays, ⟨husable, hstaged⟩, hsim⟩ := h.replay
  obtain ⟨segments, horizon, hscan, hrecords, -, -, -, hfirst⟩ := hlog.sound.stopped.scan
  obtain ⟨first, rest, rfl, hstart, hsome⟩ := hfirst hne
  obtain ⟨hlist, hall, -⟩ := scanSegments_facts hscan
  obtain ⟨hinv, hschemas⟩ := hstaged.publish_inv hcs
  obtain ⟨-, -, htables⟩ := (CommittedState.fresh reg).publish_ok batch.staged fun _ => hstaged.known
  have hview : ((CommittedState.fresh reg).publish batch.staged).1.table = _ := funext htables
  have hreplay := replayLog_replays hall (fun segment hmem hle => absurd hle (Nat.not_le.mpr
    ((listSegmentPaths_keys hlist).2.2 _ (List.mem_map_of_mem hmem)))) (hrecords ▸ hreplays)
  rw [hrecords] at hreplay
  refine ⟨_, _, { ((CommittedState.fresh reg).publish batch.staged).1 with
    committedTxID := log.records.length }, hscan, ?_, ?_, ?_⟩
  · exact ⟨hinv, hschemas, batch, hreplays, ⟨husable, hstaged⟩, hview ▸ .refl hinv⟩
  · exact (hview ▸ hsim : ViewReplayOf cs.table ((CommittedState.fresh reg).publish batch.staged).1.table)
  · have hbase : scanRecoverySegmentsAndSelectSnapshot store reg phase.dir =
        (⟨(first :: rest).map (·.info), horizon, none, []⟩, none) := by
      have hnone : listSnapshots store = [] := by
        rw [listSnapshots, hstore]
        rfl
      simp [scanRecoverySegmentsAndSelectSnapshot, tryIndexedSnapshotRecoveryScan, hnone,
        fullRecoveryScan, hscan, selectSnapshotWithReport, selectSnapshotLoop, hstart]
    have hdamaged : isEmptyDamagedTail first.info = false := by
      have hlen := List.length_pos_iff.mpr hsome
      cases hall with
      | cons hsegment _ =>
        have hlast := hsegment.facts.2.1
        simp only [isEmptyDamagedTail, Bool.and_eq_false_imp, decide_eq_false_iff_not]
        lia
    have hbatch : replayBatch (κ := κ) phase.dir ((first :: rest).map (·.info)) reg (.fresh reg) 0 =
        .ok (((CommittedState.fresh reg).publish batch.staged).1, log.records.length) := by
      simp only [replayBatch, replayLogWithApply, hreplay, RecoveryBatch.commit_ok husable hstaged]
    rw [openAndRecoverWithRegistryReport, hbase]
    simp only [recoverScanned, List.map_cons, startsWithEmptyDamagedTail, hdamaged, recoveryBase,
      hstart, reconcileSnapshotRegistry] at hbatch ⊢
    cases hplan : planRecoveryResume (first.info :: rest.map (·.info)) log.records.length <;>
      simp [hbatch, hplan, advanceRecoveredSequences_eq hinv, bind, Except.bind]

include hids haccepted in
theorem History.replaysTo (h : History store reg limits records cs)
    (hstore : store.snapshots = ∅) : ReplaysTo reg records cs := by
  induction h with
  | fresh => exact replaysTo_fresh hreg
  | commit _ hrun htx hencode ih => exact ih.commit hreg hids haccepted hrun htx hencode
  | recover _ hlog hne hopen ih =>
    obtain ⟨segments, horizon, committed, -, hcommitted, -, hopens⟩ :=
      ih.opens hreg hlog hne hstore
    rw [hopens] at hopen
    split at hopen <;> cases hopen
    exact hcommitted

end

def postRecord : Record := ⟨1, recordTypeChangeset, 0, changesetText (postChangeset [[97]])⟩

end Shunter
