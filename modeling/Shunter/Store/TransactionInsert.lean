import Shunter.Store.AutoIncrement
import Shunter.Store.StateView
import Shunter.Store.TransactionCaches

/-!
# What an insertion can do

The rows a transaction sees never conflict, no pending insert equals a
committed row, deletes name stored rows, and the provisional counters stay
ahead of everything the transaction has handed out.  Under this invariant
`insert_cases` says once what an insertion can do: fail and leave the buffers
alone, undelete a committed row, or record a new one.
-/

namespace Shunter

open Foundation

/-- Every table of the state satisfies the representation and counter invariants. -/
def CommittedState.Inv (cs : CommittedState) : Prop :=
  ∀ tableID table, cs.table tableID = some table → table.Inv ∧ table.Counted

def visible (table : Table) (ins : GoMap RowID ProductValue) (dels : GoMap RowID Unit)
    (rid : RowID) : Option ProductValue :=
  match ins[rid]? with
  | some r => some r
  | none => if dels.contains rid then none else table.rows[rid]?

/-- The invariant of the buffers and counters of one table. -/
structure TableTx (table : Table) (ins : GoMap RowID ProductValue) (dels : GoMap RowID Unit)
    (next : RowID) (seq : Nat) : Prop where
  deletes_stored : ∀ rid : RowID, dels.contains rid = true → ∃ row, table.rows[rid]? = some row
  valid : ∀ (rid : RowID) (r : ProductValue), ins[rid]? = some r →
    validateRow table.schema r = none
  range : ∀ (rid : RowID) (r : ProductValue), ins[rid]? = some r → table.nextID ≤ rid ∧ rid < next
  next_ge : table.nextID ≤ next
  next_le : next ≤ maxUint64
  conflictFree : ∀ (rid rid' : RowID) (r r' : ProductValue), visible table ins dels rid = some r →
    visible table ins dels rid' = some r' → table.schema.Conflicts r r' → rid = rid'
  fresh : ∀ (rid rid' : RowID) (r r' : ProductValue), ins[rid]? = some r →
    table.rows[rid']? = some r' → r.rowClass ≠ r'.rowClass
  seq_range : ∀ s, table.sequence = some s → s ≤ seq ∧ seq ≤ maxUint64
  seq_above : table.sequence ≠ none → ∀ (rid : RowID) (r : ProductValue) v, ins[rid]? = some r →
    table.schema.autoValue r = some v → SequenceAbove seq v

structure TxInv (cs : CommittedState) (t : Transaction) : Prop where
  cache : Transaction.CacheInv cs t
  tables : ∀ tableID table, cs.table tableID = some table →
    TableTx table (t.tx.tableInserts tableID) (t.tx.tableDeletes tableID)
      (t.nextRowID tableID table) (t.nextSequenceValue tableID table)
  unknown : ∀ tableID, cs.table tableID = none →
    t.tx.tableInserts tableID = ∅ ∧ t.tx.tableDeletes tableID = ∅ ∧
      t.txNextRowIDs[tableID]? = none ∧ t.txSequences[tableID]? = none

variable {cs : CommittedState} {t t' : Transaction} {tableID tableID' : TableID} {table : Table}
  {row : ProductValue}

theorem StateView.getRow_eq_visible (htable : cs.table tableID = some table) (tx : TxState)
    (rid : RowID) :
    StateView.getRow cs tx tableID rid =
      visible table (tx.tableInserts tableID) (tx.tableDeletes tableID) rid := by
  simp only [StateView.getRow, htable]
  rfl

theorem TableTx.disjoint {ins : GoMap RowID ProductValue} {dels : GoMap RowID Unit} {next : RowID}
    {seq : Nat} (h : TableTx table ins dels next seq) (hcount : table.Counted) (rid : RowID)
    (r : ProductValue) (hr : ins[rid]? = some r) : table.rows[rid]? = none := by
  cases hget : table.rows[rid]? with
  | none => rfl
  | some r' =>
    have h₁ := (h.range rid r hr).1
    have h₂ := (hcount.rowID_lt rid r' hget).2
    exact absurd h₁ (not_le.mpr h₂)

namespace Transaction

theorem CacheInv.of_tx {tx : TxState} (h : CacheInv cs t)
    (hins : ∀ tid, tx.tableInserts tid = t.tx.tableInserts tid) :
    CacheInv cs { t with tx := tx } := by
  constructor
  · intro tid tbl htbl o i hi entries hentries
    rw [hins tid]
    exact h.unique tid tbl htbl o i hi entries hentries
  · intro tid entries hentries
    rw [hins tid]
    exact h.rows tid entries hentries

theorem SameCore.with_tx (h : SameCore t t') (tx : TxState) :
    SameCore { t with tx := tx } { t' with tx := tx } :=
  ⟨rfl, h.state, h.txNextRowIDs, h.txSequences⟩

/-! ## Undeleting a committed row -/

def DeletedEqual (t : Transaction) (tableID : TableID) (table : Table) (row : ProductValue)
    (rid : RowID) : Prop :=
  t.tx.isDeleted tableID rid = true ∧ ∃ r, table.rows[rid]? = some r ∧ r.equal row = true

/-- What an attempt to undelete can do once a deleted equal row is found. -/
def UndeleteOutcome (cs : CommittedState) (t : Transaction) (tableID : TableID) (table : Table)
    (row : ProductValue) (rid : RowID)
    (res : Transaction × Except StoreError (Option RowID)) : Prop :=
  (t.PendingRow tableID (fun r => table.schema.Conflicts r row) ∧
    CacheStep cs t res.1 ∧ ∃ e, res.2 = .error e) ∨
  (¬ t.PendingRow tableID (fun r => table.schema.Conflicts r row) ∧
    CacheStep cs { t with tx := t.tx.cancelDelete tableID rid } res.1 ∧ res.2 = .ok (some rid))

theorem tryUndeleteRowIDs_cases (row : ProductValue) (h : CacheInv cs t)
    (htable : cs.table tableID = some table) (hind : table.Indexed) (l : List RowID) :
    ((∀ rid ∈ l, ¬ t.DeletedEqual tableID table row rid) ∧
      t.tryUndeleteRowIDs tableID table row l = (t, .ok none)) ∨
    (∃ rid ∈ l, t.DeletedEqual tableID table row rid ∧
      UndeleteOutcome cs t tableID table row rid (t.tryUndeleteRowIDs tableID table row l)) := by
  induction l with
  | nil => exact .inl ⟨by simp, rfl⟩
  | cons rid l ih =>
    -- a row that does not qualify leaves the decision to the rest of the list
    have hskip : ¬ t.DeletedEqual tableID table row rid →
        t.tryUndeleteRowIDs tableID table row (rid :: l) =
          t.tryUndeleteRowIDs tableID table row l := by
      intro hno
      simp only [tryUndeleteRowIDs]
      split
      · rfl
      · next hdel =>
        split
        · rfl
        · next r hr =>
          split
          · next heq => exact absurd ⟨by simpa using hdel, r, hr, heq⟩ hno
          · rfl
    by_cases hq : t.DeletedEqual tableID table row rid
    · right
      refine ⟨rid, by simp, hq, ?_⟩
      obtain ⟨hdel, r, hr, heq⟩ := hq
      have hview : table.rowView rid = some r := hr
      obtain ⟨hstep, hiff⟩ := checkTxInsertConflicts_spec row h htable hind
      simp only [tryUndeleteRowIDs, hdel, hview, heq, Bool.not_true, Bool.false_eq_true,
        if_false, if_true]
      generalize t.checkTxInsertConflicts tableID table row = res at *
      obtain ⟨t₁, err⟩ := res
      cases err with
      | some e => exact .inl ⟨hiff.mp (by simp), hstep, e, rfl⟩
      | none =>
        refine .inr ⟨mt hiff.mpr (by simp), ⟨?_, ?_⟩, rfl⟩
        · have htx : t₁.tx = t.tx := hstep.core.tx
          dsimp only
          rw [htx]
          exact hstep.core.with_tx _
        · exact hstep.cache.of_tx fun tid => by simp
    · rw [hskip hq]
      rcases ih with ⟨hnone, heq⟩ | ⟨rid', hmem, hrest⟩
      · left
        refine ⟨?_, heq⟩
        intro rid' hmem
        rcases List.mem_cons.mp hmem with rfl | hmem
        · exact hq
        · exact hnone rid' hmem
      · exact .inr ⟨rid', List.mem_cons_of_mem _ hmem, hrest⟩

theorem tryUndelete_cases (row : ProductValue) (h : CacheInv cs t)
    (htable : cs.table tableID = some table) (hind : table.Indexed) :
    ((∀ rid, ¬ t.DeletedEqual tableID table row rid) ∧
      t.tryUndelete tableID table row = (t, .ok none)) ∨
    (∃ rid, t.DeletedEqual tableID table row rid ∧
      UndeleteOutcome cs t tableID table row rid (t.tryUndelete tableID table row)) := by
  cases hp : table.primaryIndex with
  | none =>
    have hprim : table.schema.primaryIndex = none := by
      rw [← hind.primaryIndex_eq, hp]
      rfl
    cases hh : table.rowHashIndex with
    | none =>
      have := hind.hash_none_iff.mp hh
      simp [hprim] at this
    | some hashes =>
      have heq : t.tryUndelete tableID table row =
          t.tryUndeleteRowIDs tableID table row (hashes.bucket row.hash64) := by
        simp [tryUndelete, hp, hh]
      rw [heq]
      rcases tryUndeleteRowIDs_cases row h htable hind (hashes.bucket row.hash64) with
        ⟨hnone, hres⟩ | ⟨rid, -, hdel, hout⟩
      · refine .inl ⟨?_, hres⟩
        intro rid hdel
        refine hnone rid ?_ hdel
        obtain ⟨_, r, hr, hequal⟩ := hdel
        rw [HashMirrors.mem_bucket_iff (hind.hash_mirrors hashes hh)]
        exact ⟨r, hr, ProductValue.hash64_congr (ProductValue.equal_iff.mp hequal)⟩
      · exact .inr ⟨rid, hdel, hout⟩
  | some pk =>
    have hpk : pk ∈ table.indexes := List.mem_of_find?_eq_some hp
    have hprim : table.schema.primaryIndex.isSome := by
      rw [← hind.primaryIndex_eq, hp]
      rfl
    have hh := hind.hash_none_iff.mpr hprim
    have heq : t.tryUndelete tableID table row =
        t.tryUndeleteRowIDs tableID table row (pk.btree.seek (pk.extractKey row)) := by
      simp only [tryUndelete, hp, hh]
      generalize t.tryUndeleteRowIDs tableID table row _ = res
      obtain ⟨t₁, _ | (_ | rid)⟩ := res <;> rfl
    rw [heq]
    rcases tryUndeleteRowIDs_cases row h htable hind (pk.btree.seek (pk.extractKey row)) with
      ⟨hnone, hres⟩ | ⟨rid, -, hdel, hout⟩
    · refine .inl ⟨?_, hres⟩
      intro rid hdel
      refine hnone rid ?_ hdel
      obtain ⟨_, r, hr, hequal⟩ := hdel
      refine ((hind.mirrors pk hpk).mem_rowIDs _ _).mpr ⟨r, hr, ?_⟩
      exact IndexKey.compare_eq_iff.mpr (extractKey_congr (ProductValue.equal_iff.mp hequal) _)
    · exact .inr ⟨rid, hdel, hout⟩

/-! ## The constraint checks of an insertion -/

def VisibleConflict (t : Transaction) (tableID : TableID) (table : Table) (row : ProductValue) :
    Prop :=
  ∃ rid r, visible table (t.tx.tableInserts tableID) (t.tx.tableDeletes tableID) rid = some r ∧
    table.schema.Conflicts r row

def CommittedRow (t : Transaction) (tableID : TableID) (table : Table)
    (P : ProductValue → Prop) : Prop :=
  ∃ (rid : RowID) (r : ProductValue), table.rows[rid]? = some r ∧
    t.tx.isDeleted tableID rid = false ∧ P r

theorem visibleConflict_iff
    (hdisj : ∀ (rid : RowID) (r : ProductValue), (t.tx.tableInserts tableID)[rid]? = some r →
      table.rows[rid]? = none) :
    t.VisibleConflict tableID table row ↔
      t.PendingRow tableID (fun r => table.schema.Conflicts r row) ∨
      t.CommittedRow tableID table fun r => table.schema.Conflicts r row := by
  constructor
  · rintro ⟨rid, r, hvis, hconf⟩
    unfold visible at hvis
    split at hvis
    · next r' hr' =>
      cases hvis
      exact .inl ⟨rid, r, hr', hconf⟩
    · split at hvis
      · cases hvis
      · next hdel => exact .inr ⟨rid, r, hvis, Bool.eq_false_iff.mpr hdel, hconf⟩
  · rintro (⟨rid, r, hr, hconf⟩ | ⟨rid, r, hr, hdel, hconf⟩)
    · exact ⟨rid, r, by simp [visible, hr], hconf⟩
    · refine ⟨rid, r, ?_, hconf⟩
      have hins : (t.tx.tableInserts tableID)[rid]? = none := by
        cases hget : (t.tx.tableInserts tableID)[rid]? with
        | none => rfl
        | some r' => simp [hdisj rid r' hget] at hr
      have hdel' : (t.tx.tableDeletes tableID).contains rid = false := hdel
      simp [visible, hins, hdel', hr]

theorem checkCommittedUnique_iff (hind : table.Indexed) {idx : Index} (hidx : idx ∈ table.indexes) :
    t.checkCommittedUnique tableID table idx (idx.extractKey row) ≠ none ↔
      t.CommittedRow tableID table fun r => TableSchema.SameKey idx.schema r row := by
  unfold checkCommittedUnique CommittedRow
  split
  · next hall =>
    simp only [ne_eq, not_true, false_iff]
    rintro ⟨rid, r, hr, hdel, hk⟩
    have hmem := ((hind.mirrors idx hidx).mem_rowIDs (idx.extractKey row) rid).mpr ⟨r, hr, hk⟩
    have := List.all_eq_true.mp hall rid hmem
    simp [hdel] at this
  · next hall =>
    simp only [ne_eq, reduceCtorEq, not_false_iff, true_iff]
    simp only [List.all_eq_true, not_forall] at hall
    obtain ⟨rid, hmem, hdel⟩ := hall
    obtain ⟨r, hr, hk⟩ := ((hind.mirrors idx hidx).mem_rowIDs _ _).mp hmem
    exact ⟨rid, r, hr, by simpa using hdel, hk⟩

theorem hasCommittedDuplicate_iff (hind : table.Indexed) {hashes : BucketMap UInt64 RowID}
    (hh : table.rowHashIndex = some hashes) :
    t.hasCommittedDuplicate tableID table hashes row = true ↔
      t.CommittedRow tableID table fun r => r.equal row = true := by
  have hmir := hind.hash_mirrors hashes hh
  simp only [hasCommittedDuplicate, CommittedRow, List.any_eq_true, Bool.and_eq_true,
    Bool.not_eq_true', HashMirrors.mem_bucket_iff hmir, Table.rowView]
  constructor
  · rintro ⟨rid, ⟨r, hr, -⟩, hdel, heq⟩
    exact ⟨rid, r, hr, hdel, by simpa [hr] using heq⟩
  · rintro ⟨rid, r, hr, hdel, heq⟩
    refine ⟨rid, ⟨r, hr, ?_⟩, hdel, by simpa [hr] using heq⟩
    exact ProductValue.hash64_congr (ProductValue.equal_iff.mp heq)

theorem committedConflict_iff (hind : table.Indexed) :
    t.CommittedRow tableID table (fun r => table.schema.Conflicts r row) ↔
      (∃ p ∈ indexOrdinals table, p.2.schema.unique = true ∧
        t.CommittedRow tableID table fun r => TableSchema.SameKey p.2.schema r row) ∨
      (table.rowHashIndex ≠ none ∧
        t.CommittedRow tableID table fun r => r.equal row = true) := by
  simpa only [CommittedRow, and_assoc] using @exists_conflict_iff table row hind
    fun rid r => table.rows[rid]? = some r ∧ t.tx.isDeleted tableID rid = false

theorem checkInsertConstraints_spec (row : ProductValue) (h : CacheInv cs t)
    (htable : cs.table tableID = some table) (hinv : table.Inv) :
    CacheStep cs t (t.checkInsertConstraints tableID table row).1 ∧
    ((t.checkInsertConstraints tableID table row).2 ≠ none ↔
      t.PendingRow tableID (fun r => table.schema.Conflicts r row) ∨
      t.CommittedRow tableID table fun r => table.schema.Conflicts r row) := by
  have hind := hinv.indexed
  -- an event table stores nothing, so skipping its committed checks skips nothing
  have hevent : table.schema.isEvent = true → ∀ P, ¬ t.CommittedRow tableID table P := by
    rintro hev P ⟨rid, r, hr, -⟩
    simp [hinv.rowsOK.event_empty hev rid] at hr
  rw [pendingConflict_iff hind, committedConflict_iff hind]
  have hcheck : ∀ p ∈ indexOrdinals table,
      ((if table.schema.isEvent then none
        else t.checkCommittedUnique tableID table p.2 (p.2.extractKey row)) ≠ none ↔
        t.CommittedRow tableID table fun r => TableSchema.SameKey p.2.schema r row) := by
    intro p hp
    have hidx := List.mem_iff_getElem?.mpr ⟨p.1, mem_indexOrdinals.mp hp⟩
    split
    · next hev => simp [hevent hev]
    · exact checkCommittedUnique_iff hind hidx
  obtain ⟨hstep, hiff⟩ := checkTxUniques_spec row
    (fun idx key => if table.schema.isEvent then none
      else t.checkCommittedUnique tableID table idx key) h htable
    (l := indexOrdinals table) fun p hp => mem_indexOrdinals.mp hp
  have hiff' := hiff.trans (exists_congr fun p => and_congr_right fun hp =>
    and_congr_right fun _ => or_congr_left (hcheck p hp))
  unfold checkInsertConstraints
  dsimp only
  generalize t.checkTxUniques tableID table row _ (indexOrdinals table) = res at *
  obtain ⟨t₁, err⟩ := res
  cases err with
  | some e =>
    obtain ⟨p, hp, hu, hor⟩ := hiff'.mp (by simp)
    refine ⟨hstep, ?_⟩
    simp only [ne_eq, reduceCtorEq, not_false_iff, true_iff]
    rcases hor with hcom | hpend
    · exact .inr (.inl ⟨p, hp, hu, hcom⟩)
    · exact .inl (.inl ⟨p, hp, hu, hpend⟩)
  | none =>
    have hfree := mt hiff'.mpr (by simp)
    have hpend : ¬ ∃ p ∈ indexOrdinals table, p.2.schema.unique = true ∧
        t.PendingRow tableID fun r => TableSchema.SameKey p.2.schema r row :=
      fun ⟨p, hp, hu, hr⟩ => hfree ⟨p, hp, hu, .inr hr⟩
    have hcom : ¬ ∃ p ∈ indexOrdinals table, p.2.schema.unique = true ∧
        t.CommittedRow tableID table fun r => TableSchema.SameKey p.2.schema r row :=
      fun ⟨p, hp, hu, hr⟩ => hfree ⟨p, hp, hu, .inl hr⟩
    cases hh : table.rowHashIndex with
    | none => exact ⟨hstep, by simp [hpend, hcom]⟩
    | some hashes =>
      have htx : t₁.tx = t.tx := hstep.core.tx
      have hdupEq : t₁.hasCommittedDuplicate tableID table hashes row =
          t.hasCommittedDuplicate tableID table hashes row := by
        simp only [hasCommittedDuplicate, htx]
      have hdup : (!table.schema.isEvent &&
          t₁.hasCommittedDuplicate tableID table hashes row) = true ↔
          t.CommittedRow tableID table fun r => r.equal row = true := by
        rw [hdupEq, Bool.and_eq_true, hasCommittedDuplicate_iff hind hh]
        cases hev : table.schema.isEvent with
        | false => simp
        | true => simp [hevent hev]
      dsimp only
      split
      · next hhit => exact ⟨hstep, by simp [hdup.mp hhit]⟩
      · next hmiss =>
        obtain ⟨hstep', hiff''⟩ := hasTxDuplicateRow_spec hstep.cache tableID row
        generalize t₁.hasTxDuplicateRow tableID row = res at *
        obtain ⟨t₂, dup⟩ := res
        rw [hstep.core.pendingRow] at hiff''
        have hmiss' := mt hdup.mpr hmiss
        cases dup with
        | true => exact ⟨hstep.trans hstep', by simp [hiff''.mp rfl]⟩
        | false =>
          refine ⟨hstep.trans hstep', ?_⟩
          simp [hpend, hcom, hmiss', ← hiff'']

/-! ## What an insertion can do -/

/-- The condition under which `Insert` succeeds. -/
structure Insertable (cs : CommittedState) (t : Transaction) (tableID : TableID) (table : Table)
    (row : ProductValue) : Prop where
  usable : t.checkUsable = none
  found : cs.table tableID = some table
  valid : validateRow table.schema row = none
  sequence : table.schema.autoValue row = some 0 →
    table.schema.SequenceAvailable (t.nextSequenceValue tableID table)
  noConflict : ¬ t.VisibleConflict tableID table
    (table.schema.assign (t.nextSequenceValue tableID table) row)
  rowID : checkRowIDValueAvailable (t.nextRowID tableID table) = none ∨
    ∃ rid, t.DeletedEqual tableID table
      (table.schema.assign (t.nextSequenceValue tableID table) row) rid

theorem checkRowIDValueAvailable_eq_none {next : RowID} :
    checkRowIDValueAvailable next = none ↔ next ≠ 0 ∧ next ≠ maxUint64 := by
  simp [checkRowIDValueAvailable]

/-- The sequence counter after a row with autoincrement value `value` has been stored. -/
def sequenceAfter (seq : Nat) (value : Option Nat) : Nat :=
  match value with
  | some v =>
    if seq ≠ 0 ∧ nextAutoIncrementSequenceValue v > seq then nextAutoIncrementSequenceValue v
    else seq
  | none => seq

def sequencesAfter (t : Transaction) (tableID : TableID) (table : Table) (value : Option Nat) :
    GoMap TableID Nat :=
  if sequenceAfter (t.nextSequenceValue tableID table) value =
      t.nextSequenceValue tableID table then t.txSequences
  else t.txSequences.insert tableID
    (sequenceAfter (t.nextSequenceValue tableID table) value)

theorem advanceTxSequencePastValue_eq (t : Transaction) (tableID : TableID) (table : Table)
    (value : Nat) :
    t.advanceTxSequencePastValue tableID table value =
      { t with txSequences := t.sequencesAfter tableID table (some value) } := by
  unfold advanceTxSequencePastValue sequencesAfter sequenceAfter
  dsimp only
  split
  · next h =>
    rw [if_neg (by omega)]
    rfl
  · simp

theorem SameCore.nextRowID (h : SameCore t t') (tableID : TableID) (table : Table) :
    t'.nextRowID tableID table = t.nextRowID tableID table := by
  simp only [Transaction.nextRowID, h.txNextRowIDs]

theorem SameCore.nextSequenceValue (h : SameCore t t') (tableID : TableID) (table : Table) :
    t'.nextSequenceValue tableID table = t.nextSequenceValue tableID table := by
  simp only [Transaction.nextSequenceValue, h.txSequences]

theorem SameCore.sequencesAfter (h : SameCore t t') (tableID : TableID) (table : Table)
    (value : Option Nat) :
    t'.sequencesAfter tableID table value = t.sequencesAfter tableID table value := by
  unfold Transaction.sequencesAfter
  rw [h.nextSequenceValue, h.txSequences]

def afterInsert (t : Transaction) (tableID : TableID) (table : Table) (row : ProductValue) :
    Transaction :=
  { t with
    tx := t.tx.addInsert tableID (t.nextRowID tableID table) row
    txNextRowIDs := t.txNextRowIDs.insert tableID (t.nextRowID tableID table + 1)
    txSequences := t.sequencesAfter tableID table (table.schema.autoValue row) }

theorem SameCore.afterInsert (h : SameCore t t') (tableID : TableID) (table : Table)
    (row : ProductValue) :
    SameCore (t.afterInsert tableID table row) (t'.afterInsert tableID table row) where
  tx := by simp only [Transaction.afterInsert, h.nextRowID, h.tx]
  state := h.state
  txNextRowIDs := by simp only [Transaction.afterInsert, h.nextRowID, h.txNextRowIDs]
  txSequences := h.sequencesAfter _ _ _

theorem finishInsert_ok (row : ProductValue) (h : CacheInv cs t)
    (htable : cs.table tableID = some table)
    (hav : checkRowIDValueAvailable (t.nextRowID tableID table) = none)
    (hlt : t.nextRowID tableID table ≤ maxUint64)
    (hid : (t.tx.tableInserts tableID)[t.nextRowID tableID table]? = none) :
    (t.finishInsert tableID table row (table.schema.autoValue row)).2 =
      .ok (t.nextRowID tableID table) ∧
    CacheStep cs (t.afterInsert tableID table row)
      (t.finishInsert tableID table row (table.schema.autoValue row)).1 := by
  have hnext : (t.nextRowID tableID table + 1) % 2 ^ 64 = t.nextRowID tableID table + 1 := by
    apply Nat.mod_eq_of_lt
    have hne := (checkRowIDValueAvailable_eq_none.mp hav).2
    simp only [maxUint64] at hne hlt
    lia
  simp only [finishInsert, allocRowIDForInsert, hav, hnext]
  refine ⟨trivial, ?_⟩
  -- the caches read the inserts only, which the counters do not touch
  have hadvance : (table.schema.autoValue row).elim
      (t.setNextRowID tableID (t.nextRowID tableID table + 1))
      ((t.setNextRowID tableID (t.nextRowID tableID table + 1)).advanceTxSequencePastValue
        tableID table) =
      { t with
        txNextRowIDs := t.txNextRowIDs.insert tableID (t.nextRowID tableID table + 1)
        txSequences := t.sequencesAfter tableID table (table.schema.autoValue row) } := by
    cases table.schema.autoValue row with
    | none => simp [sequencesAfter, sequenceAfter, setNextRowID]
    | some v => exact advanceTxSequencePastValue_eq _ _ _ _
  rw [hadvance]
  have hcache : CacheInv cs { t with
      txNextRowIDs := t.txNextRowIDs.insert tableID (t.nextRowID tableID table + 1)
      txSequences := t.sequencesAfter tableID table (table.schema.autoValue row) } :=
    ⟨h.unique, h.rows⟩
  exact addInsert_spec row hcache htable hid

/-- `insert` either fails and changes caches only, or undeletes, or records a new row. -/
inductive InsertOutcome (cs : CommittedState) (t : Transaction) (tableID : TableID)
    (row : ProductValue) (res : Transaction × Except StoreError RowID) : Prop
  | failed (e : StoreError) (herr : res.2 = .error e)
      (hno : ∀ table, ¬ Insertable cs t tableID table row) (hstep : CacheStep cs t res.1)
  | undeleted (table : Table) (rid : RowID) (hins : Insertable cs t tableID table row)
      (hdel : t.DeletedEqual tableID table
        (table.schema.assign (t.nextSequenceValue tableID table) row) rid)
      (hevent : table.schema.isEvent = false) (hok : res.2 = .ok rid)
      (hstep : CacheStep cs { t with tx := t.tx.cancelDelete tableID rid } res.1)
  | recorded (table : Table) (hins : Insertable cs t tableID table row)
      (hnone : ∀ rid, ¬ t.DeletedEqual tableID table
        (table.schema.assign (t.nextSequenceValue tableID table) row) rid)
      (hav : checkRowIDValueAvailable (t.nextRowID tableID table) = none)
      (hok : res.2 = .ok (t.nextRowID tableID table))
      (hstep : CacheStep cs (t.afterInsert tableID table
        (table.schema.assign (t.nextSequenceValue tableID table) row)) res.1)

/-- An event table stores nothing, so it has nothing to undelete. -/
theorem attemptUndelete_cases (row : ProductValue) (h : CacheInv cs t)
    (htable : cs.table tableID = some table) (hinv : table.Inv)
    {und : Transaction × Except StoreError (Option RowID)}
    (hund : (if table.schema.isEvent then (t, .ok none) else t.tryUndelete tableID table row) =
      und) :
    ((∀ rid, ¬ t.DeletedEqual tableID table row rid) ∧ und = (t, .ok none)) ∨
    (∃ rid, table.schema.isEvent = false ∧ t.DeletedEqual tableID table row rid ∧
      UndeleteOutcome cs t tableID table row rid und) := by
  subst hund
  split
  · next hev =>
    refine .inl ⟨?_, rfl⟩
    rintro rid ⟨-, r, hr, -⟩
    simp [hinv.rowsOK.event_empty hev rid] at hr
  · next hev =>
    rcases tryUndelete_cases row h htable hinv.indexed with hleft | ⟨rid, hdel, hout⟩
    · exact .inl hleft
    · exact .inr ⟨rid, Bool.eq_false_iff.mpr hev, hdel, hout⟩

theorem insert_cases (hcs : cs.Inv) (h : TxInv cs t) (tableID : TableID) (row : ProductValue) :
    InsertOutcome cs t tableID row (t.insert cs tableID row) := by
  unfold insert
  cases husable : t.checkUsable with
  | some e => exact .failed e rfl (fun _ hi => by simpa [husable] using hi.usable) (.refl h.cache)
  | none =>
  cases htable : cs.table tableID with
  | none =>
    exact .failed _ rfl (fun _ hi => by simpa [htable] using hi.found) (.refl h.cache)
  | some table =>
  have hfailed : ∀ {t' : Transaction} {e}, ¬ Insertable cs t tableID table row →
      CacheStep cs t t' → InsertOutcome cs t tableID row (t', .error e) := by
    intro t' e hno hstep
    refine .failed e rfl (fun tbl hi => ?_) hstep
    obtain rfl := Option.mem_unique htable hi.found
    exact hno hi
  obtain ⟨hinv, hcount⟩ := hcs tableID table htable
  have htx := h.tables tableID table htable
  have hdisj := TableTx.disjoint htx hcount
  dsimp only
  cases hvalid : validateRow table.schema row with
  | some e => exact hfailed (fun hi => by simpa [hvalid] using hi.valid) (.refl h.cache)
  | none =>
  dsimp only
  by_cases hseq : table.schema.autoValue row = some 0 →
      table.schema.SequenceAvailable (t.nextSequenceValue tableID table)
  · rw [applyAutoIncrement_ok hinv.indexed hvalid hseq]
    generalize hassign : table.schema.assign (t.nextSequenceValue tableID table) row = row' at *
    dsimp only
    generalize hund : (if table.schema.isEvent = true then (t, Except.ok none)
      else t.tryUndelete tableID table row') = und
    rcases attemptUndelete_cases row' h.cache htable hinv hund with
      ⟨hnone, rfl⟩ | ⟨rid, hev, hdel, hout⟩
    · dsimp only
      obtain ⟨hstep, hiff⟩ := checkInsertConstraints_spec row' h.cache htable hinv
      rw [← visibleConflict_iff hdisj] at hiff
      by_cases hav : checkRowIDValueAvailable (t.nextRowID tableID table) = none
      · have hrid : checkRowIDAvailable table = none := by
          have h₁ := hcount.nextID_pos
          have h₂ := htx.next_ge
          have h₃ := htx.next_le
          have h₄ := checkRowIDValueAvailable_eq_none.mp hav
          exact checkRowIDValueAvailable_eq_none.mpr (by lia)
        rw [hrid]
        dsimp only
        generalize t.checkInsertConstraints tableID table row' = res at *
        obtain ⟨t₁, err⟩ := res
        cases err with
        | some e => exact hfailed (fun hi => hi.noConflict (hassign ▸ hiff.mp (by simp))) hstep
        | none =>
          have hnoconf := mt hiff.mpr (by simp)
          have hcore : SameCore t t₁ := hstep.core
          have hnext := hcore.nextRowID tableID table
          have hid : (t₁.tx.tableInserts tableID)[t₁.nextRowID tableID table]? = none := by
            rw [hnext, hcore.tx]
            cases hget : (t.tx.tableInserts tableID)[t.nextRowID tableID table]? with
            | none => rfl
            | some r => exact absurd (htx.range _ r hget).2 (lt_irrefl _)
          obtain ⟨hok, hfin⟩ := finishInsert_ok row' hstep.cache htable (hnext ▸ hav)
            (hnext ▸ htx.next_le) hid
          refine .recorded table ⟨husable, htable, hvalid, hseq, hassign ▸ hnoconf, .inl hav⟩
            (hassign ▸ hnone) hav (by rw [hok, hnext]) ?_
          rw [hassign]
          exact ⟨(hcore.afterInsert tableID table row').trans hfin.core, hfin.cache⟩
      · -- no row identifier is left
        have hno : ¬ Insertable cs t tableID table row := by
          intro hi
          rcases hi.rowID with hr | ⟨rid, hr⟩
          · exact hav hr
          · exact hnone rid (hassign ▸ hr)
        cases hrid : checkRowIDAvailable table with
        | some e => exact hfailed hno (.refl h.cache)
        | none =>
          dsimp only
          generalize t.checkInsertConstraints tableID table row' = res at *
          obtain ⟨t₁, err⟩ := res
          cases err with
          | some e => exact hfailed hno hstep
          | none =>
            have hnext : t₁.nextRowID tableID table = t.nextRowID tableID table :=
              hstep.core.nextRowID tableID table
            obtain ⟨e, he⟩ := Option.ne_none_iff_exists'.mp hav
            have hfin : t₁.finishInsert tableID table row' (table.schema.autoValue row') =
                (t₁, .error e) := by
              simp only [finishInsert, allocRowIDForInsert, hnext, he]
            dsimp only
            rw [hfin]
            exact hfailed hno hstep
    · obtain ⟨t₁, res⟩ := und
      rcases hout with ⟨hpend, hstep, e, rfl⟩ | ⟨hpend, hstep, rfl⟩
      · have hconf := (visibleConflict_iff hdisj).mpr (.inl hpend)
        exact hfailed (fun hi => hi.noConflict (hassign ▸ hconf)) hstep
      · refine .undeleted table rid
          ⟨husable, htable, hvalid, hseq, ?_, .inr ⟨rid, hassign ▸ hdel⟩⟩
          (hassign ▸ hdel) hev rfl hstep
        rw [hassign, visibleConflict_iff hdisj, not_or]
        refine ⟨hpend, ?_⟩
        -- the deleted row is the only committed row that conflicts with its equal
        rintro ⟨rid', r', hr', hdel', hconf⟩
        obtain ⟨hdelrid, r, hr, hequal⟩ := hdel
        have hclass := ProductValue.equal_iff.mp hequal
        have hconf' := (TableSchema.conflicts_congr rfl hclass.symm).mp hconf
        have hsame := hinv.rowsOK.conflictFree rid' rid r' r hr' hr hconf'
        subst hsame
        simp [hdelrid] at hdel'
  · have hzero : table.schema.autoValue row = some 0 ∧
        ¬ table.schema.SequenceAvailable (t.nextSequenceValue tableID table) := by
      simpa using hseq
    obtain ⟨e, he⟩ := applyAutoIncrement_error hinv.indexed hzero.1 hzero.2
    rw [he]
    exact hfailed (fun hi => hzero.2 (hi.sequence hzero.1)) (.refl h.cache)

end Transaction

end Shunter
