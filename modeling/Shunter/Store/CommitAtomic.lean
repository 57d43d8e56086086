import Shunter.Store.CommitApply
import Shunter.Store.MapModel

/-!
# Commit is all or nothing

Whatever its buffers hold, a transaction either commits completely or leaves
the committed state as it was.  The counters of a transaction are set by its
own calls only, so they always belong to tables of the state; this holds
without any assumption on the buffers or caches.
-/

namespace Shunter

open Foundation

namespace Transaction

/-! ## Calls set counters of known tables only -/

@[grind cases, grind intro]
structure SameCounters (t t' : Transaction) : Prop where
  txNextRowIDs : t'.txNextRowIDs = t.txNextRowIDs
  txSequences : t'.txSequences = t.txSequences

variable {cs : CommittedState} {t t' t'' : Transaction} {tableID : TableID} {table : Table}
  {row : ProductValue} {rid : RowID}

theorem SameCounters.known (h : SameCounters t t') (hk : t.CountersKnown cs) :
    t'.CountersKnown cs :=
  ⟨by rw [h.txNextRowIDs]; exact hk.nextRowID, by rw [h.txSequences]; exact hk.sequence⟩

section Frame

variable (t : Transaction) (tableID : TableID) (table : Table) (row : ProductValue)

theorem checkTxUnique_counters (ord : Nat) (idx : Index) (key : IndexKey) :
    SameCounters t (t.checkTxUnique tableID table ord idx key).1 := by
  unfold checkTxUnique ensureTxUniqueIndex
  split
  next heq =>
    split at heq <;> cases heq <;> split <;> exact ⟨rfl, rfl⟩

theorem checkTxUniques_counters (check : Index → IndexKey → Option StoreError)
    (l : List (Nat × Index)) : SameCounters t (t.checkTxUniques tableID table row check l).1 := by
  fun_induction checkTxUniques t tableID table row check l <;>
    grind [checkTxUnique_counters]

theorem hasTxDuplicateRow_counters : SameCounters t (t.hasTxDuplicateRow tableID row).1 := by
  unfold hasTxDuplicateRow ensureTxRowIndex
  split
  next heq => split at heq <;> cases heq <;> exact ⟨rfl, rfl⟩

theorem checkTxInsertConflicts_counters :
    SameCounters t (t.checkTxInsertConflicts tableID table row).1 := by
  fun_cases checkTxInsertConflicts t tableID table row <;>
    grind [checkTxUniques_counters, hasTxDuplicateRow_counters]

theorem tryUndeleteRowIDs_counters (l : List RowID) :
    SameCounters t (t.tryUndeleteRowIDs tableID table row l).1 := by
  fun_induction tryUndeleteRowIDs t tableID table row l <;>
    grind [checkTxInsertConflicts_counters]

theorem tryUndelete_counters : SameCounters t (t.tryUndelete tableID table row).1 := by
  fun_cases tryUndelete t tableID table row <;> grind [tryUndeleteRowIDs_counters]

theorem checkInsertConstraints_counters :
    SameCounters t (t.checkInsertConstraints tableID table row).1 := by
  fun_cases checkInsertConstraints t tableID table row <;>
    grind [checkTxUniques_counters, hasTxDuplicateRow_counters]

theorem addInsert_counters (rowID : RowID) :
    SameCounters t (t.addInsert tableID rowID row table) := by
  have hcore := trackTxInsert_core { t with tx := t.tx.addInsert tableID rowID row } tableID
    rowID row table
  exact ⟨hcore.txNextRowIDs, hcore.txSequences⟩

theorem removeInsert_counters (rowID : RowID) :
    SameCounters t (t.removeInsert tableID rowID table) := by
  unfold removeInsert
  dsimp only
  split
  · next row _ =>
    have hcore := untrackTxInsert_core t tableID rowID row table
    exact ⟨hcore.txNextRowIDs, hcore.txSequences⟩
  · exact ⟨rfl, rfl⟩

end Frame

section

variable (hk : t.CountersKnown cs)
include hk

theorem finishInsert_known (htable : cs.table tableID = some table) (value : Option Nat) :
    (t.finishInsert tableID table row value).1.CountersKnown cs := by
  have hself : ∀ {ν : Type} {m : GoMap TableID ν} {v : ν},
      (∀ (tid : TableID) (w : ν), m[tid]? = some w → cs.table tid ≠ none) →
      ∀ (tid : TableID) (w : ν), (m.insert tableID v)[tid]? = some w → cs.table tid ≠ none := by
    intro ν m v hm tid w hw
    simp only [get_insert] at hw
    split at hw
    · next heq => simp [← heq, htable]
    · exact hm tid w hw
  simp only [finishInsert, allocRowIDForInsert]
  cases checkRowIDValueAvailable (t.nextRowID tableID table) with
  | some e => exact hk
  | none =>
    refine (addInsert_counters _ _ _ _ _).known ?_
    cases value with
    | none => exact ⟨hself hk.nextRowID, hk.sequence⟩
    | some v =>
      simp only [Option.elim_some, advanceTxSequencePastValue]
      split
      · exact ⟨hself hk.nextRowID, hself hk.sequence⟩
      · exact ⟨hself hk.nextRowID, hk.sequence⟩

theorem insert_known (tableID : TableID) (row : ProductValue) :
    (t.insert cs tableID row).1.CountersKnown cs := by
  fun_cases insert cs t tableID row <;>
    grind [SameCounters.known, tryUndelete_counters, checkInsertConstraints_counters,
      finishInsert_known]

theorem delete_known (tableID : TableID) (rowID : RowID) :
    (t.delete cs tableID rowID).1.CountersKnown cs := by
  fun_cases delete cs t tableID rowID
  case case3 table _ _ => exact (removeInsert_counters t tableID table rowID).known hk
  all_goals exact ⟨hk.nextRowID, hk.sequence⟩

theorem restoreDeleted_known (tableID : TableID) (rowID : RowID) (old : Option ProductValue) :
    (restoreDeleted cs t tableID rowID old).CountersKnown cs := by
  unfold restoreDeleted
  split
  · exact ⟨hk.nextRowID, hk.sequence⟩
  · split
    · exact (addInsert_counters t tableID _ _ rowID).known hk
    · exact ⟨hk.nextRowID, hk.sequence⟩

theorem update_known (tableID : TableID) (rowID : RowID) (newRow : ProductValue) :
    (t.update cs tableID rowID newRow).1.CountersKnown cs := by
  fun_cases update cs t tableID rowID newRow <;>
    grind [delete_known, insert_known, restoreDeleted_known]

theorem run_known (op : TxOp) : (op.run cs t).1.CountersKnown cs := by
  cases op with
  | insert tableID row => exact insert_known hk tableID row
  | delete tableID rowID =>
    have hdel := delete_known hk tableID rowID
    simp only [TxOp.run]
    generalize t.delete cs tableID rowID = res at *
    obtain ⟨t₁, _ | e⟩ := res <;> exact hdel
  | update tableID rowID newRow => exact update_known hk tableID rowID newRow

end

/--
The transactions over a state, whatever their buffers: calls in any order, and
buffers replaced by anything in between.
-/
inductive Reach (cs : CommittedState) : Transaction → Prop
  | new : Reach cs .new
  | call (op : TxOp) {t : Transaction} (h : Reach cs t) : Reach cs (op.run cs t).1
  | buffers (tx : TxState) {t : Transaction} (h : Reach cs t) : Reach cs { t with tx := tx }
  | sealed {t : Transaction} (h : Reach cs t) : Reach cs t.doSeal
  | rolledBack {t : Transaction} (h : Reach cs t) : Reach cs (rollback t)

theorem Reach.known (h : Reach cs t) : t.CountersKnown cs := by
  induction h with
  | new => exact ⟨by simp [Transaction.new], by simp [Transaction.new]⟩
  | call op _ ih => exact run_known ih op
  | buffers tx _ ih => exact ⟨ih.nextRowID, ih.sequence⟩
  | sealed _ ih =>
    unfold doSeal
    split
    · exact ⟨ih.nextRowID, ih.sequence⟩
    · exact ih
  | rolledBack _ ih => exact ⟨ih.nextRowID, ih.sequence⟩

end Transaction

/-! ## The commit -/

/-- What a commit can do: fail and change nothing, or write everything. -/
inductive CommitOutcome (cs : CommittedState) (tx : Transaction) (horizon : TxID)
    (res : CommittedState × Transaction × Except StoreError Changeset) : Prop
  | failed (e : StoreError) (hres : res = (cs, tx, .error e))
  | written (c : Changeset) (hprep : ∃ c', prepareChangeset cs tx.tx = .ok c' ∧
        c = { c' with txID := c.txID })
      (hready : CommitReady cs tx.tx) (hcommit : Committed cs res.1 tx)
      (hhorizon : res.1.committedTxID = horizon)
      (hres : res.2 = ({ tx with state := .committed }, .ok c))

theorem commitWithValidation_cases {cs : CommittedState} {tx : Transaction}
    (hcs : ∀ tableID table, cs.table tableID = some table → table.Inv)
    (hknown : tx.CountersKnown cs) (txID : TxID) (advanceHorizon : Bool)
    (validate : Changeset → Option StoreError) :
    CommitOutcome cs tx (if advanceHorizon then txID else cs.committedTxID)
      (commitWithValidation cs tx txID advanceHorizon validate) := by
  generalize hhor : (if advanceHorizon then txID else cs.committedTxID) = horizon
  have hready : revalidateCommit cs tx.tx = none → CommitReady cs tx.tx :=
    commitReady_of_revalidateCommit fun tid table htable => (hcs tid table htable).indexed
  fun_cases commitWithValidation cs tx txID advanceHorizon validate
  case case7 hrev c hc _ _ _ happly _ _ _ =>
    obtain ⟨-, hcommit, hsame⟩ := applyCommit_ok hcs (hready hrev) hknown
    rw [happly] at hcommit hsame
    refine .written _ ⟨c, hc, ?_⟩ (hready hrev) ?_ ?_ rfl
    · cases advanceHorizon <;> rfl
    · cases advanceHorizon <;> exact ⟨hcommit.tables, hcommit.unknown⟩
    · cases advanceHorizon
      · exact hsame.trans hhor
      · exact hhor
  case case6 hrev _ _ _ _ _ _ happly _ _ =>
    have hok := (applyCommit_ok hcs (hready hrev) hknown).1
    rw [happly] at hok
    cases hok
  all_goals exact .failed _ rfl

/--
Commit is all or nothing for arbitrary buffers: an error leaves the whole state
as it was, and success stores exactly the rows the buffers let through.
-/
theorem commit_all_or_nothing {cs : CommittedState} {tx : Transaction}
    (hcs : ∀ tableID table, cs.table tableID = some table → table.Inv)
    (htx : Transaction.Reach cs tx) (txID : TxID) (validate : Changeset → Option StoreError) :
    ((∃ e, (commitWithValidationAtTxID cs tx txID validate).2.2 = .error e ∧
        (commitWithValidationAtTxID cs tx txID validate).1 = cs) ∨
      (∃ c, (commitWithValidationAtTxID cs tx txID validate).2.2 = .ok c ∧
        (commitWithValidationAtTxID cs tx txID validate).1.committedTxID = txID ∧
        (∀ tableID, cs.table tableID = none →
          (commitWithValidationAtTxID cs tx txID validate).1.table tableID = none) ∧
        ∀ tableID table, cs.table tableID = some table →
          ∃ table', (commitWithValidationAtTxID cs tx txID validate).1.table tableID =
              some table' ∧ table'.schema = table.schema ∧
            (table.schema.isEvent = false → ∀ rid : RowID, table'.rows[rid]? =
              ((tx.tx.tableInserts tableID)[rid]?).or
                (if tx.tx.isDeleted tableID rid then none else table.rows[rid]?)))) ∧
    (revalidateCommit cs tx.tx = none → (applyCommit cs tx).2 = none) := by
  constructor
  · rcases commitWithValidation_cases hcs htx.known txID true validate with
      ⟨e, hres⟩ | ⟨c, -, -, hcommit, hhorizon, hres⟩
    · left
      refine ⟨e, ?_⟩
      unfold commitWithValidationAtTxID
      rw [hres]
      exact ⟨rfl, rfl⟩
    · right
      refine ⟨c, congrArg Prod.snd hres, hhorizon, hcommit.unknown, ?_⟩
      intro tableID table htable
      obtain ⟨table', htable', htc⟩ := hcommit.tables tableID table htable
      refine ⟨table', htable', htc.schema, fun hev rid => ?_⟩
      rw [htc.rows hev rid, visible]
      cases (tx.tx.tableInserts tableID)[rid]? <;> rfl
  · intro hrev
    exact (applyCommit_ok hcs (commitReady_of_revalidateCommit
      (fun tid table htable => (hcs tid table htable).indexed) hrev) htx.known).1

/-- Buffers filled by hand: a row under an identifier no allocator handed out. -/
def handFilledTx : Transaction :=
  { Transaction.new with
    tx := TxState.new.addInsert 0 7 [⟨.uint64, some (5 : BitVec 64)⟩] }

theorem commit_all_or_nothing_handFilled :
    revalidateCommit (.fresh exampleRegistry) handFilledTx.tx = none ∧
      (applyCommit (.fresh exampleRegistry) handFilledTx).2 = none := by
  have hrev : revalidateCommit (.fresh exampleRegistry) handFilledTx.tx = none := by
    decide +kernel
  have hcs := CommittedState.fresh_inv (buildEngine_primaryUnique exampleRegistry_built)
  exact ⟨hrev, (commit_all_or_nothing (fun tid table htable => (hcs tid table htable).1)
    (.buffers _ .new) 1 fun _ => none).2 hrev⟩

end Shunter
