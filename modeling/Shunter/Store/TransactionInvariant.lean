import Shunter.Store.TransactionInsert

/-!
# What a transaction preserves

Each buffer change a transaction can make keeps the invariant of its table:
recording a row, undeleting a committed row, dropping a pending row and
deleting a committed row.  Every call is one of these, two of them in a row,
or leaves the buffers as they were, and so the invariant holds after any
sequence of calls.
-/

namespace Shunter

open Foundation

variable {cs : CommittedState} {t t' : Transaction} {tableID tableID' : TableID} {table : Table}
  {row : ProductValue} {ins : GoMap RowID ProductValue} {dels : GoMap RowID Unit} {next : RowID}
  {seq : Nat} {rid rid' : RowID}

/-! ## Visible rows after a buffer change -/

theorem visible_record (rid rid' : RowID) :
    visible table (ins.insert rid row) dels rid' =
      if rid = rid' then some row else visible table ins dels rid' := by
  simp only [visible, get_insert]
  split
  · next h =>
    split at h <;> simp_all
  · next h =>
    split at h
    · cases h
    · next hne => simp [hne, h]

theorem visible_dropInsert (hstored : table.rows[rid]? = none) (rid' : RowID) :
    visible table (ins.erase rid) dels rid' =
      if rid = rid' then none else visible table ins dels rid' := by
  simp only [visible, get_erase]
  by_cases h : rid = rid'
  · subst h
    simp [hstored]
  · simp [h]

theorem visible_delete (hins : ins[rid]? = none) (rid' : RowID) :
    visible table ins (dels.insert rid ()) rid' =
      if rid = rid' then none else visible table ins dels rid' := by
  by_cases h : rid = rid'
  · subst h
    simp [visible, hins]
  · simp [visible, Std.ExtTreeMap.contains_insert, h]

theorem visible_undelete (hins : ins[rid]? = none) (rid' : RowID) :
    visible table ins (dels.erase rid) rid' =
      if rid = rid' then table.rows[rid]? else visible table ins dels rid' := by
  by_cases h : rid = rid'
  · subst h
    simp [visible, hins]
  · simp [visible, Std.ExtTreeMap.contains_erase, h]

theorem visible_empty (table : Table) (rid : RowID) :
    visible table ∅ ∅ rid = table.rows[rid]? := by
  simp [visible]

/-! ## Buffer changes keep the invariant of a table -/

namespace TableTx

theorem new (hinv : table.Inv) (hcount : table.Counted) :
    TableTx table ∅ ∅ table.nextID (table.sequence.getD 0) where
  deletes_stored := by simp
  valid := by simp
  range := by simp
  next_ge := le_rfl
  next_le := hcount.nextID_le
  conflictFree := by
    intro rid rid' r r' hr hr' hconf
    rw [visible_empty] at hr hr'
    exact hinv.rowsOK.conflictFree rid rid' r r' hr hr' hconf
  fresh := by simp
  seq_range := by
    intro s hs
    simpa [hs] using (hcount.sequence_range s hs).2
  seq_above := by simp

theorem sequenceAfter_bounds {value : Option Nat} (hseq : seq ≤ maxUint64)
    (hvalue : ∀ v, value = some v → v ≤ maxUint64) :
    seq ≤ Transaction.sequenceAfter seq value ∧
      Transaction.sequenceAfter seq value ≤ maxUint64 := by
  cases value with
  | none => exact ⟨le_rfl, hseq⟩
  | some v =>
    have hv := hvalue v rfl
    unfold Transaction.sequenceAfter nextAutoIncrementSequenceValue
    dsimp only
    split <;> split <;> omega

theorem sequenceAfter_above {v : Nat} (hpos : seq ≠ 0) (hseq : seq ≤ maxUint64)
    (hv : v ≤ maxUint64) : SequenceAbove (Transaction.sequenceAfter seq (some v)) v := by
  unfold SequenceAbove Transaction.sequenceAfter nextAutoIncrementSequenceValue
  dsimp only
  split <;> split <;> omega

variable (h : TableTx table ins dels next seq)

include h

variable {ins' : GoMap RowID ProductValue}

theorem conflictFree_of_subset {dels' : GoMap RowID Unit}
    (hsub : ∀ (rid : RowID) (r : ProductValue), visible table ins' dels' rid = some r →
      visible table ins dels rid = some r) :
    ∀ (rid rid' : RowID) (r r' : ProductValue), visible table ins' dels' rid = some r →
      visible table ins' dels' rid' = some r' → table.schema.Conflicts r r' → rid = rid' :=
  fun rid rid' r r' hr hr' => h.conflictFree rid rid' r r' (hsub rid r hr) (hsub rid' r' hr')

theorem conflictFree_of_added {dels' : GoMap RowID Unit}
    (hvis : ∀ rid', visible table ins' dels' rid' =
      if rid = rid' then some row else visible table ins dels rid')
    (hfree : ∀ (rid : RowID) (r : ProductValue), visible table ins dels rid = some r →
      ¬ table.schema.Conflicts r row) :
    ∀ (rid rid' : RowID) (r r' : ProductValue), visible table ins' dels' rid = some r →
      visible table ins' dels' rid' = some r' → table.schema.Conflicts r r' → rid = rid' := by
  intro rid₁ rid₂ r₁ r₂ hr₁ hr₂ hconf
  rw [hvis] at hr₁ hr₂
  split at hr₁ <;> split at hr₂
  · next h₁ h₂ => exact h₁.symm.trans h₂
  · cases hr₁
    exact absurd hconf.symm (hfree rid₂ r₂ hr₂)
  · cases hr₂
    exact absurd hconf (hfree rid₁ r₁ hr₁)
  · exact h.conflictFree rid₁ rid₂ r₁ r₂ hr₁ hr₂ hconf

variable (hcount : table.Counted)

include hcount

theorem insert_none_of_stored (hr : table.rows[rid]? = some row) : ins[rid]? = none := by
  cases hins : ins[rid]? with
  | none => rfl
  | some r' => simp [h.disjoint hcount rid r' hins] at hr

theorem sequence_pos (hseq : table.sequence ≠ none) : seq ≠ 0 := by
  obtain ⟨s, hs⟩ := Option.ne_none_iff_exists'.mp hseq
  have h₁ := (hcount.sequence_range s hs).1
  have h₂ := (h.seq_range s hs).1
  omega

theorem undelete (hr : table.rows[rid]? = some row)
    (hfree : ∀ (rid' : RowID) (r' : ProductValue), visible table ins dels rid' = some r' →
      ¬ table.schema.Conflicts r' row) :
    TableTx table ins (dels.erase rid) next seq :=
  { h with
    deletes_stored := by
      intro rid' hrid'
      rw [Std.ExtTreeMap.contains_erase, Bool.and_eq_true] at hrid'
      exact h.deletes_stored rid' hrid'.2
    conflictFree := h.conflictFree_of_added
      (hr ▸ visible_undelete (h.insert_none_of_stored hcount hr)) hfree }

theorem dropInsert (hr : ins[rid]? = some row) :
    TableTx table (ins.erase rid) dels next seq := by
  have hsub : ∀ (rid' : RowID) (r' : ProductValue), (ins.erase rid)[rid']? = some r' →
      ins[rid']? = some r' := by
    intro rid' r' hr'
    rw [Std.ExtTreeMap.getElem?_erase] at hr'
    split at hr'
    · cases hr'
    · exact hr'
  exact { h with
    conflictFree := by
      refine h.conflictFree_of_subset fun rid' r' hr' => ?_
      rw [visible_dropInsert (h.disjoint hcount rid row hr)] at hr'
      exact (Option.ite_none_left_eq_some.mp hr').2
    valid := fun rid' r' hr' => h.valid rid' r' (hsub rid' r' hr')
    range := fun rid' r' hr' => h.range rid' r' (hsub rid' r' hr')
    fresh := fun rid₁ rid₂ r₁ r₂ hr₁ => h.fresh rid₁ rid₂ r₁ r₂ (hsub rid₁ r₁ hr₁)
    seq_above := fun hs rid' r' v hr' => h.seq_above hs rid' r' v (hsub rid' r' hr') }

theorem deleteStored (hr : table.rows[rid]? = some row) :
    TableTx table ins (dels.insert rid ()) next seq :=
  { h with
    deletes_stored := by
      intro rid' hrid'
      rw [Std.ExtTreeMap.contains_insert, Bool.or_eq_true, beq_iff_eq,
        Std.compare_eq_iff_eq] at hrid'
      rcases hrid' with rfl | hrid'
      · exact ⟨row, hr⟩
      · exact h.deletes_stored rid' hrid'
    conflictFree := by
      refine h.conflictFree_of_subset fun rid' r' hr' => ?_
      rw [visible_delete (h.insert_none_of_stored hcount hr)] at hr'
      exact (Option.ite_none_left_eq_some.mp hr').2 }

theorem record (hinv : table.Inv) (hvalid : validateRow table.schema row = none)
    (hfree : ∀ (rid : RowID) (r : ProductValue), visible table ins dels rid = some r →
      ¬ table.schema.Conflicts r row)
    (hdel : ∀ (rid : RowID) (r : ProductValue), dels.contains rid = true →
      table.rows[rid]? = some r → r.equal row = false)
    (hnext : next ≠ maxUint64) :
    TableTx table (ins.insert next row) dels (next + 1)
      (Transaction.sequenceAfter seq (table.schema.autoValue row)) := by
  have hget : ∀ (rid : RowID) (r : ProductValue), (ins.insert next row)[rid]? = some r →
      (rid = next ∧ r = row) ∨ ins[rid]? = some r := by
    intro rid r hr
    simp only [get_insert] at hr
    split at hr
    · next heq => exact .inl ⟨heq.symm, (Option.some.inj hr).symm⟩
    · exact .inr hr
  have hvalue : ∀ v, table.schema.autoValue row = some v → v ≤ maxUint64 :=
    fun v hv => TableSchema.autoValue_le hv
  have hle : next < maxUint64 := lt_of_le_of_ne h.next_le hnext
  constructor
  case deletes_stored => exact h.deletes_stored
  case valid =>
    intro rid r hr
    rcases hget rid r hr with ⟨-, rfl⟩ | hr
    · exact hvalid
    · exact h.valid rid r hr
  case range =>
    intro rid r hr
    rcases hget rid r hr with ⟨rfl, -⟩ | hr
    · exact ⟨h.next_ge, Nat.lt_succ_self _⟩
    · have hrange := h.range rid r hr
      exact ⟨hrange.1, Nat.lt_succ_of_lt hrange.2⟩
  case next_ge => exact Nat.le_succ_of_le h.next_ge
  case next_le => exact hle
  case conflictFree => exact h.conflictFree_of_added (visible_record next) hfree
  case fresh =>
    intro rid₁ rid₂ r₁ r₂ hr₁ hr₂ hclass
    rcases hget rid₁ r₁ hr₁ with ⟨-, rfl⟩ | hr₁
    · -- an equal committed row is either deleted here or visible
      cases hd : dels.contains rid₂ with
      | true =>
        have hne := hdel rid₂ r₂ hd hr₂
        rw [ProductValue.equal_iff.mpr hclass.symm] at hne
        cases hne
      | false =>
        have hvis : visible table ins dels rid₂ = some r₂ := by
          simp [visible, h.insert_none_of_stored hcount hr₂, hd, hr₂]
        exact hfree rid₂ r₂ hvis
          (TableSchema.conflicts_of_equal hinv.indexed.primaryUnique hclass.symm)
    · exact h.fresh rid₁ rid₂ r₁ r₂ hr₁ hr₂ hclass
  case seq_range =>
    intro s hs
    have hrange := h.seq_range s hs
    have hbounds := sequenceAfter_bounds hrange.2 hvalue
    exact ⟨hrange.1.trans hbounds.1, hbounds.2⟩
  case seq_above =>
    intro hs rid r v hr hv
    obtain ⟨s, hs'⟩ := Option.ne_none_iff_exists'.mp hs
    have hrange := h.seq_range s hs'
    have hbounds := sequenceAfter_bounds hrange.2 hvalue
    rcases hget rid r hr with ⟨-, rfl⟩ | hr
    · rw [hv]
      exact sequenceAfter_above (h.sequence_pos hcount hs) hrange.2 (hvalue v hv)
    · exact (h.seq_above hs rid r v hr hv).mono hbounds.1 hbounds.2

end TableTx

/-! ## Calls keep the invariant of the transaction -/

/-- The transactions have the same buffers, counters and state, table by table. -/
structure Transaction.SameView (t t' : Transaction) : Prop where
  inserts : ∀ tableID, t'.tx.tableInserts tableID = t.tx.tableInserts tableID
  deletes : ∀ tableID, t'.tx.tableDeletes tableID = t.tx.tableDeletes tableID
  state : t'.state = t.state
  txNextRowIDs : t'.txNextRowIDs = t.txNextRowIDs
  txSequences : t'.txSequences = t.txSequences

theorem Transaction.SameCore.sameView (h : t.SameCore t') : t.SameView t' :=
  ⟨fun _ => by rw [h.tx], fun _ => by rw [h.tx], h.state, h.txNextRowIDs, h.txSequences⟩

namespace TxInv

theorem new (hcs : cs.Inv) : TxInv cs .new where
  cache := Transaction.new_cacheInv cs
  tables := by
    intro tableID table htable
    obtain ⟨hinv, hcount⟩ := hcs tableID table htable
    simpa [Transaction.new, Transaction.nextRowID, Transaction.nextSequenceValue] using
      TableTx.new hinv hcount
  unknown := by simp [Transaction.new]

theorem of_sameView (h : TxInv cs t) (hview : t.SameView t')
    (hcache : Transaction.CacheInv cs t') : TxInv cs t' where
  cache := hcache
  tables := by
    intro tableID table htable
    simp only [hview.inserts, hview.deletes, Transaction.nextRowID, hview.txNextRowIDs,
      Transaction.nextSequenceValue, hview.txSequences]
    exact h.tables tableID table htable
  unknown := by
    simp only [hview.inserts, hview.deletes, hview.txNextRowIDs, hview.txSequences]
    exact h.unknown

theorem of_cacheStep (h : TxInv cs t) (hstep : Transaction.CacheStep cs t t') : TxInv cs t' :=
  h.of_sameView hstep.core.sameView hstep.cache

theorem of_table (h : TxInv cs t) (htable : cs.table tableID = some table)
    (hcache : Transaction.CacheInv cs t')
    (hself : TableTx table (t'.tx.tableInserts tableID) (t'.tx.tableDeletes tableID)
      (t'.nextRowID tableID table) (t'.nextSequenceValue tableID table))
    (hother : ∀ tid, tid ≠ tableID →
      t'.tx.tableInserts tid = t.tx.tableInserts tid ∧
      t'.tx.tableDeletes tid = t.tx.tableDeletes tid ∧
      t'.txNextRowIDs[tid]? = t.txNextRowIDs[tid]? ∧
      t'.txSequences[tid]? = t.txSequences[tid]?) : TxInv cs t' where
  cache := hcache
  tables := by
    intro tid tbl htbl
    by_cases hid : tid = tableID
    · subst hid
      obtain rfl := Option.mem_unique htable htbl
      exact hself
    · obtain ⟨h₁, h₂, h₃, h₄⟩ := hother tid hid
      simp only [h₁, h₂, Transaction.nextRowID, h₃, Transaction.nextSequenceValue, h₄]
      exact h.tables tid tbl htbl
  unknown := by
    intro tid htid
    have hid : tid ≠ tableID := by
      rintro rfl
      rw [htable] at htid
      cases htid
    obtain ⟨h₁, h₂, h₃, h₄⟩ := hother tid hid
    rw [h₁, h₂, h₃, h₄]
    exact h.unknown tid htid

theorem of_tx {tx : TxState} (h : TxInv cs t) (htable : cs.table tableID = some table)
    (hself : TableTx table (tx.tableInserts tableID) (tx.tableDeletes tableID)
      (t.nextRowID tableID table) (t.nextSequenceValue tableID table))
    (hother : ∀ tid, tid ≠ tableID → tx.tableInserts tid = t.tx.tableInserts tid ∧
      tx.tableDeletes tid = t.tx.tableDeletes tid)
    (hstep : Transaction.CacheStep cs { t with tx := tx } t') : TxInv cs t' := by
  have hview := hstep.core.sameView
  refine h.of_table htable hstep.cache ?_ fun tid htid => ?_
  · rw [hview.inserts, hview.deletes, hstep.core.nextRowID, hstep.core.nextSequenceValue]
    exact hself
  · rw [hview.inserts, hview.deletes, hview.txNextRowIDs, hview.txSequences]
    exact ⟨(hother tid htid).1, (hother tid htid).2, rfl, rfl⟩

end TxInv

namespace Transaction

theorem insert_erase_of_present {ν : Type} {m : GoMap RowID ν} {v : ν} (hid : m[rid]? = some v) :
    (m.erase rid).insert rid v = m := by
  apply Std.ExtTreeMap.ext_getElem?
  intro k
  simp only [get_insert, get_erase]
  split
  · next h => rw [← h, hid]
  · rfl

theorem nextSequenceValue_afterInsert :
    (t.afterInsert tableID table row).nextSequenceValue tableID table =
      sequenceAfter (t.nextSequenceValue tableID table) (table.schema.autoValue row) := by
  change (t.sequencesAfter tableID table (table.schema.autoValue row))[tableID]?.getD _ = _
  unfold sequencesAfter
  split
  · next h => exact h.symm
  · simp

theorem nextRowID_afterInsert :
    (t.afterInsert tableID table row).nextRowID tableID table =
      t.nextRowID tableID table + 1 := by
  simp [afterInsert, nextRowID]

theorem txSequences_afterInsert_of_ne (h : tableID' ≠ tableID) :
    (t.afterInsert tableID table row).txSequences[tableID']? = t.txSequences[tableID']? := by
  simp only [afterInsert, sequencesAfter]
  split
  · rfl
  · simp [Std.ExtTreeMap.getElem?_insert, Ne.symm h]

theorem insert_inv (hcs : cs.Inv) (h : TxInv cs t) (tableID : TableID) (row : ProductValue) :
    TxInv cs (t.insert cs tableID row).1 := by
  rcases insert_cases hcs h tableID row with
    ⟨e, -, -, hstep⟩ | ⟨table, rid, hins, hdel, -, -, hstep⟩ | ⟨table, hins, hnone, hav, -, hstep⟩
  · exact h.of_cacheStep hstep
  · obtain ⟨hinv, hcount⟩ := hcs tableID table hins.found
    obtain ⟨-, r, hr, hequal⟩ := hdel
    refine h.of_tx hins.found ?_ ?_ hstep
    · have hself := (h.tables tableID table hins.found).undelete hcount hr (by
        intro rid' r' hvis hconf
        refine hins.noConflict ⟨rid', r', hvis, ?_⟩
        exact (TableSchema.conflicts_congr rfl (ProductValue.equal_iff.mp hequal)).mp hconf)
      simpa [TxState.tableDeletes_cancelDelete] using hself
    · intro tid htid
      simp [TxState.tableDeletes_cancelDelete, Ne.symm htid]
  · obtain ⟨hinv, hcount⟩ := hcs tableID table hins.found
    have htx := h.tables tableID table hins.found
    have hvalid := TableSchema.validateRow_assign (t.nextSequenceValue tableID table) hins.valid
    have hfree := hins.noConflict
    generalize table.schema.assign (t.nextSequenceValue tableID table) row = row' at *
    -- the state after the call is the recorded one up to caches
    have hview := hstep.core.sameView
    refine h.of_table hins.found hstep.cache ?_ ?_
    · have hself := htx.record hcount hinv hvalid
        (fun rid r hvis hconf => hfree ⟨rid, r, hvis, hconf⟩)
        (fun rid r hd hr => by
          have := hnone rid
          simpa [DeletedEqual, TxState.isDeleted, hd, hr] using this)
        (checkRowIDValueAvailable_eq_none.mp hav).2
      rw [hview.inserts, hview.deletes, hstep.core.nextRowID, hstep.core.nextSequenceValue,
        nextRowID_afterInsert, nextSequenceValue_afterInsert]
      simpa [afterInsert, TxState.tableInserts_addInsert] using hself
    · intro tid htid
      rw [hview.inserts, hview.deletes, hview.txNextRowIDs, hview.txSequences,
        txSequences_afterInsert_of_ne htid]
      simp [afterInsert, TxState.tableInserts_addInsert, Std.ExtTreeMap.getElem?_insert,
        Ne.symm htid]

/-! ### Delete -/

/-- `delete` fails, drops a pending row, or marks a committed row. -/
inductive DeleteOutcome (cs : CommittedState) (t : Transaction) (tableID : TableID)
    (rowID : RowID) (res : Transaction × Option StoreError) : Prop
  | failed (e : StoreError) (herr : res.2 = some e) (hsame : res.1 = t)
      (hno : t.checkUsable = none → StateView.getRow cs t.tx tableID rowID = none)
  | dropped (table : Table) (row : ProductValue) (husable : t.checkUsable = none)
      (htable : cs.table tableID = some table)
      (hrow : (t.tx.tableInserts tableID)[rowID]? = some row) (hok : res.2 = none)
      (hstep : CacheStep cs { t with tx := t.tx.removeInsert tableID rowID } res.1)
  | marked (table : Table) (row : ProductValue) (husable : t.checkUsable = none)
      (htable : cs.table tableID = some table)
      (hins : (t.tx.tableInserts tableID)[rowID]? = none)
      (hrow : table.rows[rowID]? = some row)
      (hdel : (t.tx.tableDeletes tableID)[rowID]? = none) (hok : res.2 = none)
      (hsame : res.1 = { t with tx := t.tx.addDelete tableID rowID })

theorem delete_cases (h : TxInv cs t) (tableID : TableID) (rowID : RowID) :
    DeleteOutcome cs t tableID rowID (t.delete cs tableID rowID) := by
  have hget : ∀ table, cs.table tableID = some table → ¬ t.tx.isInserted tableID rowID = true →
      (t.tx.tableInserts tableID)[rowID]? = none ∧ StateView.getRow cs t.tx tableID rowID =
        if t.tx.isDeleted tableID rowID then none else table.rows[rowID]? := by
    intro table htable hins
    rw [TxState.isInserted, Std.ExtTreeMap.contains_eq_isSome_getElem?] at hins
    have hins : (t.tx.tableInserts tableID)[rowID]? = none := by simpa using hins
    exact ⟨hins, by simp [StateView.getRow, TxState.insert, hins, htable, Table.rowView]⟩
  fun_cases delete cs t tableID rowID with
  | case1 e husable => exact .failed e rfl rfl (by simp [husable])
  | case2 husable htable =>
    refine .failed _ rfl rfl fun _ => ?_
    obtain ⟨hins, hdels, -⟩ := h.unknown tableID htable
    simp [StateView.getRow, TxState.insert, hins, htable]
  | case3 husable table htable hins =>
    obtain ⟨row, hrow⟩ := Option.isSome_iff_exists.mp
      (Std.ExtTreeMap.contains_eq_isSome_getElem?.symm.trans hins)
    exact .dropped table row husable htable hrow rfl (removeInsert_spec h.cache htable hrow)
  | case4 husable table htable hins hnone =>
    refine .failed _ rfl rfl fun _ => ?_
    have hnone' : table.rows[rowID]? = none := Option.isNone_iff_eq_none.mp hnone
    rw [(hget table htable hins).2, hnone', ite_self]
  | case5 husable table htable hins hsome hdel =>
    exact .failed _ rfl rfl fun _ => by rw [(hget table htable hins).2, if_pos hdel]
  | case6 husable table htable hins hsome hdel =>
    obtain ⟨row, hrow⟩ := Option.ne_none_iff_exists'.mp
      (mt Option.isNone_iff_eq_none.mpr hsome)
    refine .marked table row husable htable (hget table htable hins).1 hrow ?_ rfl rfl
    rw [TxState.isDeleted, Std.ExtTreeMap.contains_eq_isSome_getElem?] at hdel
    simpa using hdel

theorem delete_inv (hcs : cs.Inv) (h : TxInv cs t) (tableID : TableID) (rowID : RowID) :
    TxInv cs (t.delete cs tableID rowID).1 := by
  rcases delete_cases h tableID rowID with
    ⟨e, -, hsame, -⟩ | ⟨table, row, -, htable, hrow, -, hstep⟩ |
    ⟨table, row, -, htable, hins, hrow, -, -, hsame⟩
  · rwa [hsame]
  · refine h.of_tx htable ?_ ?_ hstep
    · have hself := (h.tables tableID table htable).dropInsert (hcs tableID table htable).2 hrow
      simpa [TxState.tableInserts_removeInsert] using hself
    · intro tid htid
      simp [TxState.tableInserts_removeInsert, Ne.symm htid]
  · rw [hsame]
    refine h.of_tx htable ?_ ?_ (.refl (h.cache.of_tx fun _ => rfl))
    · have hself := (h.tables tableID table htable).deleteStored (hcs tableID table htable).2 hrow
      simpa [TxState.tableDeletes_addDelete] using hself
    · intro tid htid
      simp [TxState.tableDeletes_addDelete, Ne.symm htid]

/-! ### Update -/

theorem restore_dropped (htable : cs.table tableID = some table)
    (hrow : (t.tx.tableInserts tableID)[rid]? = some row)
    (hstep : CacheStep cs { t with tx := t.tx.removeInsert tableID rid } t') :
    SameView t (restoreDeleted cs t' tableID rid (some row)) ∧
      CacheInv cs (restoreDeleted cs t' tableID rid (some row)) := by
  have hid : (t'.tx.tableInserts tableID)[rid]? = none := by
    rw [hstep.core.tx, TxState.tableInserts_removeInsert]
    simp
  have hadd := addInsert_spec row hstep.cache htable hid
  have hcore := hadd.core
  simp only [restoreDeleted, htable]
  refine ⟨⟨?_, ?_, ?_, ?_, ?_⟩, hadd.cache⟩
  · intro tid
    rw [hcore.tx, TxState.tableInserts_addInsert, hstep.core.tx,
      TxState.tableInserts_removeInsert]
    split
    · next heq =>
      subst heq
      exact insert_erase_of_present hrow
    · rfl
  · intro tid
    rw [hcore.tx, TxState.tableDeletes_addInsert, hstep.core.tx]
    rfl
  · rw [hcore.state]
    exact hstep.core.state
  · rw [hcore.txNextRowIDs]
    exact hstep.core.txNextRowIDs
  · rw [hcore.txSequences]
    exact hstep.core.txSequences

theorem restore_marked (hdel : (t.tx.tableDeletes tableID)[rid]? = none)
    (hstep : CacheStep cs { t with tx := t.tx.addDelete tableID rid } t') :
    SameView t (restoreDeleted cs t' tableID rid none) ∧
      CacheInv cs (restoreDeleted cs t' tableID rid none) := by
  refine ⟨⟨?_, ?_, hstep.core.state, hstep.core.txNextRowIDs, hstep.core.txSequences⟩,
    hstep.cache.of_tx fun tid => rfl⟩
  · intro tid
    simp only [restoreDeleted, TxState.tableInserts_cancelDelete, hstep.core.tx]
    rfl
  · intro tid
    simp only [restoreDeleted, TxState.tableDeletes_cancelDelete, hstep.core.tx,
      TxState.tableDeletes_addDelete]
    split
    · next heq =>
      subst heq
      exact erase_insert_of_absent hdel
    · rfl

/-- A successful update is a delete followed by an insert; a failed one restores the buffers. -/
inductive UpdateOutcome (cs : CommittedState) (t : Transaction) (tableID : TableID)
    (rowID : RowID) (newRow : ProductValue) (res : Transaction × Except StoreError RowID) : Prop
  | failed (e : StoreError) (herr : res.2 = .error e) (hview : SameView t res.1)
      (hcache : CacheInv cs res.1)
      (hno : (t.delete cs tableID rowID).2 ≠ none ∨
        ∃ e', ((t.delete cs tableID rowID).1.insert cs tableID newRow).2 = .error e')
  | replaced (newID : RowID) (hdel : (t.delete cs tableID rowID).2 = none)
      (hins : ((t.delete cs tableID rowID).1.insert cs tableID newRow).2 = .ok newID)
      (hres : res = (t.delete cs tableID rowID).1.insert cs tableID newRow)

theorem update_cases (hcs : cs.Inv) (h : TxInv cs t) (tableID : TableID) (rowID : RowID)
    (newRow : ProductValue) :
    UpdateOutcome cs t tableID rowID newRow (t.update cs tableID rowID newRow) := by
  have hdel := delete_cases h tableID rowID
  fun_cases update cs t tableID rowID newRow with
  | case1 e husable =>
    exact .failed e rfl (SameCore.refl t).sameView h.cache (.inl (by simp [delete, husable]))
  | case2 husable missing e hmissing =>
    refine .failed e rfl (SameCore.refl t).sameView h.cache (.inl ?_)
    -- what `Update` looks for is what `Delete` looks for
    fun_cases delete cs t tableID rowID <;> simp_all [missing]
  | case3 husable missing hmissing t₁ e hd =>
    rw [hd] at hdel
    rcases hdel with ⟨e', -, hsame, -⟩ | ⟨_, _, _, _, _, hok, _⟩ | ⟨_, _, _, _, _, _, _, hok, _⟩
    · cases hsame
      exact .failed e rfl (SameCore.refl _).sameView h.cache (.inl (by simp [hd]))
    · cases hok
    · cases hok
  | case4 husable missing hmissing t₁ hd t₂ newID hi =>
    exact .replaced newID (by rw [hd]) (by rw [hd, hi]) (by rw [hd, hi])
  | case5 husable oldTxRow missing hmissing t₁ hd t₂ e hi =>
    have hno : ∃ e', ((t.delete cs tableID rowID).1.insert cs tableID newRow).2 =
        .error e' := ⟨e, by rw [hd, hi]⟩
    have hins := insert_cases hcs (delete_inv hcs h tableID rowID) tableID newRow
    rw [hd] at hins hdel
    rw [hi] at hins
    have hstep : CacheStep cs t₁ t₂ := by
      rcases hins with ⟨_, _, _, hstep⟩ | ⟨_, _, _, _, _, hok, _⟩ | ⟨_, _, _, _, hok, _⟩
      · exact hstep
      · cases hok
      · cases hok
    rcases hdel with ⟨_, herr, _⟩ | ⟨table, row, _, htable, hrow, _, hdrop⟩ |
      ⟨table, row, _, htable, hpend, _, hunmarked, _, hsame⟩
    · cases herr
    · have hold : oldTxRow = some row := hrow
      have hres := restore_dropped htable hrow (hdrop.trans hstep)
      rw [hold]
      exact .failed e rfl hres.1 hres.2 (.inr hno)
    · have hold : oldTxRow = none := hpend
      cases hsame
      have hres := restore_marked hunmarked hstep
      rw [hold]
      exact .failed e rfl hres.1 hres.2 (.inr hno)

theorem update_inv (hcs : cs.Inv) (h : TxInv cs t) (tableID : TableID) (rowID : RowID)
    (newRow : ProductValue) : TxInv cs (t.update cs tableID rowID newRow).1 := by
  rcases update_cases hcs h tableID rowID newRow with ⟨e, -, hview, hcache, -⟩ | ⟨_, -, -, hres⟩
  · exact h.of_sameView hview hcache
  · rw [hres]
    exact insert_inv hcs (delete_inv hcs h tableID rowID) tableID newRow

end Transaction

end Shunter
