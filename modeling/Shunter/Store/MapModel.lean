import Shunter.Store.Fresh
import Shunter.Store.TransactionReads

/-!
# A transaction refines a map of rows

The abstract model of a transaction keeps one map from row identifiers to rows
per table, initially the committed rows, and the next sequence values.  Delete
removes an entry, insert adds a row under the identifier the transaction
returned, update does both.  Rows are compared by `ProductValue.equal`: an
insert that undeletes a committed row keeps the stored representation of it.
-/

namespace Shunter

open Foundation

/-! ## Calls -/

inductive TxOp where
  | insert (tableID : TableID) (row : ProductValue)
  | delete (tableID : TableID) (rowID : RowID)
  | update (tableID : TableID) (rowID : RowID) (newRow : ProductValue)

/-- What a call returns; `Delete` returns no row identifier. -/
abbrev TxResult := Except StoreError (Option RowID)

def TxOp.run (cs : CommittedState) (t : Transaction) : TxOp → Transaction × TxResult
  | .insert tableID row =>
    match t.insert cs tableID row with
    | (t, res) => (t, res.map some)
  | .delete tableID rowID =>
    match t.delete cs tableID rowID with
    | (t, none) => (t, .ok none)
    | (t, some e) => (t, .error e)
  | .update tableID rowID newRow =>
    match t.update cs tableID rowID newRow with
    | (t, res) => (t, res.map some)

def Transaction.runOps (cs : CommittedState) (t : Transaction) :
    List TxOp → Transaction × List TxResult
  | [] => (t, [])
  | op :: ops =>
    match op.run cs t with
    | (t, res) =>
      match t.runOps cs ops with
      | (t, results) => (t, res :: results)

/-! ## The model -/

structure MapModel where
  rows : TableID → RowID → Option ProductValue
  nextSequence : TableID → Nat

namespace MapModel

def init (cs : CommittedState) : MapModel where
  rows tableID rid := (cs.table tableID).bind fun table => table.rows[rid]?
  nextSequence tableID := ((cs.table tableID).bind (·.sequence)).getD 0

def delete (m : MapModel) (tableID : TableID) (rid : RowID) : MapModel :=
  { m with
    rows := fun tid rid' => if tableID = tid ∧ rid = rid' then none else m.rows tid rid' }

def insert (m : MapModel) (ts : TableSchema) (tableID : TableID) (row : ProductValue)
    (rid : RowID) : MapModel :=
  let row := ts.assign (m.nextSequence tableID) row
  { rows := fun tid rid' => if tableID = tid ∧ rid = rid' then some row else m.rows tid rid'
    nextSequence := fun tid =>
      if tableID = tid then
        Transaction.sequenceAfter (m.nextSequence tableID) (ts.autoValue row)
      else m.nextSequence tid }

/-- One call, given what it returned; a failed call changes nothing. -/
def step (cs : CommittedState) (m : MapModel) : TxOp × TxResult → MapModel
  | (.insert tableID row, .ok (some rid)) =>
    ((cs.table tableID).map fun table => m.insert table.schema tableID row rid).getD m
  | (.delete tableID rid, .ok _) => m.delete tableID rid
  | (.update tableID rid newRow, .ok (some newID)) =>
    ((cs.table tableID).map fun table =>
      (m.delete tableID rid).insert table.schema tableID newRow newID).getD m
  | _ => m

def runOps (cs : CommittedState) (m : MapModel) (calls : List (TxOp × TxResult)) : MapModel :=
  calls.foldl (step cs) m

/-- The list shows each row of the model that has property `P` once, and nothing else. -/
structure Shows (m : MapModel) (tableID : TableID) (P : ProductValue → Prop)
    (l : List (RowID × ProductValue)) : Prop where
  nodup : (l.map Prod.fst).Nodup
  sound : ∀ rid r, (rid, r) ∈ l → ∃ r', m.rows tableID rid = some r' ∧ r.equal r' = true ∧ P r'
  complete : ∀ rid r', m.rows tableID rid = some r' → P r' →
    ∃ r, (rid, r) ∈ l ∧ r.equal r' = true

/-- The condition for inserting a row, in terms of the rows of the model. -/
structure Accepts (cs : CommittedState) (m : MapModel) (next : RowID) (tableID : TableID)
    (table : Table) (row : ProductValue) : Prop where
  found : cs.table tableID = some table
  valid : validateRow table.schema row = none
  sequence : table.schema.autoValue row = some 0 →
    table.schema.SequenceAvailable (m.nextSequence tableID)
  noDuplicate : table.schema.primaryIndex = none → ∀ rid r, m.rows tableID rid = some r →
    r.equal (table.schema.assign (m.nextSequence tableID) row) = false
  noCollision : ∀ is ∈ table.schema.indexes, is.unique = true →
    ∀ rid r, m.rows tableID rid = some r →
    (extractKey r is.columns).equal
      (extractKey (table.schema.assign (m.nextSequence tableID) row) is.columns) = false
  rowID : (next ≠ 0 ∧ next ≠ maxUint64) ∨
    ∃ rid r, table.rows[rid]? = some r ∧ m.rows tableID rid = none ∧
      r.equal (table.schema.assign (m.nextSequence tableID) row) = true

end MapModel

/-- The transaction shows the rows of the model and accepts what the model allows. -/
structure Transaction.Agrees (cs : CommittedState) (t : Transaction) (m : MapModel) : Prop where
  getRow_none : ∀ tableID rid, t.getRow cs tableID rid = none ↔ m.rows tableID rid = none
  getRow_some : ∀ tableID rid r r', t.getRow cs tableID rid = some r →
    m.rows tableID rid = some r' → r.equal r' = true
  scanTable : ∀ tableID, m.Shows tableID (fun _ => True) (t.scanTable cs tableID)
  seekIndex : ∀ tableID indexID key,
    match StateView.lookupIndex cs tableID indexID with
    | none => t.seekIndex cs tableID indexID key = []
    | some (_, idx) =>
      m.Shows tableID (fun r => (idx.extractKey r).equal key = true)
        (t.seekIndex cs tableID indexID key)
  seekIndexRange : ∀ tableID indexID lower upper,
    match StateView.lookupIndex cs tableID indexID with
    | none => t.seekIndexRange cs tableID indexID lower upper = []
    | some (_, idx) =>
      m.Shows tableID
        (fun r => matchesLowerBound (idx.extractKey r) lower = true ∧
          matchesUpperBound (idx.extractKey r) upper = true)
        (t.seekIndexRange cs tableID indexID lower upper)
  insert_ok : ∀ tableID row, (∃ rid, (t.insert cs tableID row).2 = .ok rid) ↔
    ∃ table, m.Accepts cs (t.nextRowID tableID table) tableID table row
  insert_new : ∀ tableID row rid, (t.insert cs tableID row).2 = .ok rid →
    m.rows tableID rid = none
  delete_ok : ∀ tableID rid, (t.delete cs tableID rid).2 = none ↔ m.rows tableID rid ≠ none
  update_ok : ∀ tableID rid row, (∃ newID, (t.update cs tableID rid row).2 = .ok newID) ↔
    m.rows tableID rid ≠ none ∧ ∃ table,
      (m.delete tableID rid).Accepts cs (t.nextRowID tableID table) tableID table row
  failed : ∀ (op : TxOp) e, (op.run cs t).2 = .error e →
    t.SameView (op.run cs t).1 ∧
      ∀ tableID rid, (op.run cs t).1.getRow cs tableID rid = t.getRow cs tableID rid

/-! ## The refinement relation -/

/-- Visible rows are the model's up to representation, and the sequences agree. -/
structure Refines (cs : CommittedState) (t : Transaction) (m : MapModel) : Prop where
  inv : TxInv cs t
  usable : t.checkUsable = none
  rows : ∀ tableID rid, (StateView.getRow cs t.tx tableID rid).map ProductValue.rowClass =
    (m.rows tableID rid).map ProductValue.rowClass
  sequence : ∀ tableID table, cs.table tableID = some table →
    m.nextSequence tableID = t.nextSequenceValue tableID table

namespace Refines

variable {cs : CommittedState} {t t' : Transaction} {m : MapModel} {tableID : TableID}
  {table : Table} {rid : RowID} {r r' row : ProductValue}

theorem init (hcs : cs.Inv) : Refines cs .new (MapModel.init cs) where
  inv := .new hcs
  usable := rfl
  rows := by
    intro tableID rid
    cases htable : cs.table tableID with
    | none => simp [StateView.getRow_unknown (TxInv.new hcs) htable, MapModel.init, htable]
    | some table =>
      rw [StateView.getRow_eq_visible htable]
      simp [MapModel.init, htable, Transaction.new, visible_empty]
  sequence := by
    intro tableID table htable
    simp [MapModel.init, htable, Transaction.nextSequenceValue, Transaction.new]

theorem checkUsable_congr (hstate : t'.state = t.state) : t'.checkUsable = t.checkUsable := by
  simp only [Transaction.checkUsable, hstate]

theorem getRow_of_ne {tid : TableID} (hins : t'.tx.tableInserts tid = t.tx.tableInserts tid)
    (hdels : t'.tx.tableDeletes tid = t.tx.tableDeletes tid) (rid : RowID) :
    StateView.getRow cs t'.tx tid rid = StateView.getRow cs t.tx tid rid := by
  unfold StateView.getRow TxState.insert TxState.isDeleted
  rw [hins, hdels]

theorem sequenceAfter_stored (hcs : cs.Inv) (h : TxInv cs t)
    (htable : cs.table tableID = some table) (hr : table.rows[rid]? = some r)
    (hclass : r.rowClass = row.rowClass) :
    Transaction.sequenceAfter (t.nextSequenceValue tableID table)
      (table.schema.autoValue row) = t.nextSequenceValue tableID table := by
  obtain ⟨hinv, hcount⟩ := hcs tableID table htable
  cases hval : table.schema.autoValue row with
  | none => rfl
  | some v =>
    obtain ⟨c, -, hc, -⟩ := TableSchema.autoValue_eq_some hval
    have hsome := hinv.indexed.sequence_isSome
    rw [hc] at hsome
    obtain ⟨s, hs⟩ := Option.isSome_iff_exists.mp (hsome.trans rfl)
    have hrange := (h.tables tableID table htable).seq_range s hs
    have hval' : table.schema.autoValue r = some v := by
      rw [TableSchema.autoValue_congr _ hclass, hval]
    have habove := ((hcount.sequence_above s hs rid r v hr hval').mono hrange.1 hrange.2)
    rw [sequenceAbove_iff hrange.2] at habove
    simp only [Transaction.sequenceAfter]
    rw [if_neg (by omega)]

theorem nextRowID_delete (h : TxInv cs t) (tableID : TableID) (rid : RowID) (table : Table) :
    (t.delete cs tableID rid).1.nextRowID tableID table = t.nextRowID tableID table := by
  rcases Transaction.delete_cases h tableID rid with
    ⟨_, _, hsame, _⟩ | ⟨_, _, _, _, _, _, hstep⟩ | ⟨_, _, _, _, _, _, _, _, hsame⟩
  · rw [hsame]
  · exact hstep.core.nextRowID tableID table
  · rw [hsame]
    rfl

variable (h : Refines cs t m)

include h

theorem none_iff :
    StateView.getRow cs t.tx tableID rid = none ↔ m.rows tableID rid = none := by
  rw [← Option.map_eq_none_iff (f := ProductValue.rowClass), h.rows, Option.map_eq_none_iff]

theorem class_eq (hr : StateView.getRow cs t.tx tableID rid = some r)
    (hr' : m.rows tableID rid = some r') : r.rowClass = r'.rowClass := by
  have hrow := h.rows tableID rid
  rw [hr, hr'] at hrow
  exact Option.some.inj hrow

theorem exists_model (hr : StateView.getRow cs t.tx tableID rid = some r) :
    ∃ r', m.rows tableID rid = some r' ∧ r.rowClass = r'.rowClass := by
  obtain ⟨r', hr'⟩ := Option.ne_none_iff_exists'.mp
    (mt h.none_iff.mpr (Option.ne_none_iff_exists'.mpr ⟨r, hr⟩))
  exact ⟨r', hr', h.class_eq hr hr'⟩

theorem exists_visible (hr' : m.rows tableID rid = some r') :
    ∃ r, StateView.getRow cs t.tx tableID rid = some r ∧ r.rowClass = r'.rowClass := by
  obtain ⟨r, hr⟩ := Option.ne_none_iff_exists'.mp
    (mt h.none_iff.mp (Option.ne_none_iff_exists'.mpr ⟨r', hr'⟩))
  exact ⟨r, hr, h.class_eq hr hr'⟩

theorem shows {P : ProductValue → Prop}
    {l : List (RowID × ProductValue)} (hnodup : (l.map Prod.fst).Nodup)
    (hmem : ∀ rid r, (rid, r) ∈ l ↔ StateView.getRow cs t.tx tableID rid = some r ∧ P r)
    (hP : ∀ r r' : ProductValue, r.rowClass = r'.rowClass → (P r ↔ P r')) :
    m.Shows tableID P l where
  nodup := hnodup
  sound := by
    intro rid r hr
    obtain ⟨hvis, hp⟩ := (hmem rid r).mp hr
    obtain ⟨r', hr', hclass⟩ := h.exists_model hvis
    exact ⟨r', hr', ProductValue.equal_iff.mpr hclass, (hP r r' hclass).mp hp⟩
  complete := by
    intro rid r' hr' hp
    obtain ⟨r, hvis, hclass⟩ := h.exists_visible hr'
    exact ⟨r, (hmem rid r).mpr ⟨hvis, (hP r r' hclass).mpr hp⟩, ProductValue.equal_iff.mpr hclass⟩

theorem getRow_eq :
    t.getRow cs tableID rid = StateView.getRow cs t.tx tableID rid := by
  simp [Transaction.getRow, h.usable]

theorem visibleConflict_iff (htable : cs.table tableID = some table) :
    t.VisibleConflict tableID table row ↔
      ∃ rid r, m.rows tableID rid = some r ∧ table.schema.Conflicts r row := by
  unfold Transaction.VisibleConflict
  simp only [← StateView.getRow_eq_visible htable]
  constructor
  · rintro ⟨rid, r, hr, hconf⟩
    obtain ⟨r', hr', hclass⟩ := h.exists_model hr
    exact ⟨rid, r', hr', (TableSchema.conflicts_congr hclass rfl).mp hconf⟩
  · rintro ⟨rid, r', hr', hconf⟩
    obtain ⟨r, hr, hclass⟩ := h.exists_visible hr'
    exact ⟨rid, r, hr, (TableSchema.conflicts_congr hclass rfl).mpr hconf⟩

theorem of_sameView (hinv : TxInv cs t') (hview : t.SameView t') :
    Refines cs t' m where
  inv := hinv
  usable := (checkUsable_congr hview.state).trans h.usable
  rows := by
    intro tableID rid
    rw [getRow_of_ne (hview.inserts tableID) (hview.deletes tableID)]
    exact h.rows tableID rid
  sequence := by
    intro tableID table htable
    rw [h.sequence tableID table htable]
    simp only [Transaction.nextSequenceValue, hview.txSequences]

/-- A call that changes one row of the model, and nothing else that is visible. -/
private theorem of_changed {m' : MapModel} {new : Option ProductValue} (hinv : TxInv cs t')
    (hstate : t'.state = t.state)
    (hrows : ∀ tid rid', m'.rows tid rid' =
      if tableID = tid ∧ rid = rid' then new else m.rows tid rid')
    (hself : ∀ rid', (StateView.getRow cs t'.tx tableID rid').map ProductValue.rowClass =
      if rid = rid' then new.map ProductValue.rowClass
      else (StateView.getRow cs t.tx tableID rid').map ProductValue.rowClass)
    (hother : ∀ tid, tid ≠ tableID → t'.tx.tableInserts tid = t.tx.tableInserts tid ∧
      t'.tx.tableDeletes tid = t.tx.tableDeletes tid)
    (hseq : ∀ tid tbl, cs.table tid = some tbl →
      m'.nextSequence tid = t'.nextSequenceValue tid tbl) : Refines cs t' m' where
  inv := hinv
  usable := (checkUsable_congr hstate).trans h.usable
  rows := by
    intro tid rid'
    rw [hrows]
    by_cases htid : tableID = tid
    · subst htid
      rw [hself]
      simp only [true_and]
      split
      · rfl
      · exact h.rows tableID rid'
    · simp only [htid, false_and, if_false]
      rw [← h.rows tid rid',
        getRow_of_ne (hother tid (Ne.symm htid)).1 (hother tid (Ne.symm htid)).2]
  sequence := hseq

variable (hcs : cs.Inv)

include hcs

theorem deleted_iff (htable : cs.table tableID = some table)
    (hr : table.rows[rid]? = some r) :
    t.tx.isDeleted tableID rid = true ↔ m.rows tableID rid = none := by
  have hins := (h.inv.tables tableID table htable).insert_none_of_stored
    (hcs tableID table htable).2 hr
  rw [← h.none_iff, StateView.getRow_eq_visible htable]
  simp only [visible, hins, hr]
  change t.tx.isDeleted tableID rid = true ↔
    (if t.tx.isDeleted tableID rid = true then none else some r) = none
  cases t.tx.isDeleted tableID rid <;> simp

theorem accepts_iff :
    Transaction.Insertable cs t tableID table row ↔
      m.Accepts cs (t.nextRowID tableID table) tableID table row := by
  have hkey : ∀ (is : IndexSchema) (r s : ProductValue),
      TableSchema.SameKey is r s ↔
        (extractKey r is.columns).equal (extractKey s is.columns) = true := by
    intro is r s
    rw [TableSchema.SameKey, IndexKey.compare_eq_iff, IndexKey.equal_iff]
  constructor
  · intro hi
    have hconf := hi.noConflict
    have hrow := hi.rowID
    rw [h.visibleConflict_iff hi.found] at hconf
    rw [Transaction.checkRowIDValueAvailable_eq_none] at hrow
    rw [← h.sequence tableID table hi.found] at hconf hrow
    refine ⟨hi.found, hi.valid, ?_, ?_, ?_, hrow.imp_right ?_⟩
    · rw [h.sequence tableID table hi.found]
      exact hi.sequence
    · intro hp rid r hr
      rw [Bool.eq_false_iff]
      exact fun heq => hconf ⟨rid, r, hr, .inr ⟨hp, heq⟩⟩
    · intro is his hu rid r hr
      rw [Bool.eq_false_iff]
      exact fun heq => hconf ⟨rid, r, hr, .inl ⟨is, his, hu, (hkey is _ _).mpr heq⟩⟩
    · rintro ⟨rid, hdel, r, hr, heq⟩
      exact ⟨rid, r, hr, (h.deleted_iff hcs hi.found hr).mp hdel, heq⟩
  · intro ha
    have hseq := h.sequence tableID table ha.found
    refine ⟨h.usable, ha.found, ha.valid, hseq ▸ ha.sequence, ?_, ?_⟩
    · rw [h.visibleConflict_iff ha.found, ← hseq]
      rintro ⟨rid, r, hr, ⟨is, his, hu, hk⟩ | ⟨hp, heq⟩⟩
      · have hno := ha.noCollision is his hu rid r hr
        rw [(hkey is _ _).mp hk] at hno
        cases hno
      · have hno := ha.noDuplicate hp rid r hr
        rw [heq] at hno
        cases hno
    · rw [Transaction.checkRowIDValueAvailable_eq_none, ← hseq]
      refine ha.rowID.imp_right ?_
      rintro ⟨rid, r, hr, hdel, heq⟩
      exact ⟨rid, (h.deleted_iff hcs ha.found hr).mpr hdel, r, hr, heq⟩

/-! ### Calls keep the relation -/

theorem insert_step (hok : (t.insert cs tableID row).2 = .ok rid) :
    ∃ table, cs.table tableID = some table ∧
      Refines cs (t.insert cs tableID row).1 (m.insert table.schema tableID row rid) := by
  have hinv := Transaction.insert_inv hcs h.inv tableID row
  rcases Transaction.insert_cases hcs h.inv tableID row with
    ⟨e, herr, -, -⟩ | ⟨table, rid', hins, hdel, -, hok', hstep⟩ |
    ⟨table, hins, -, -, hok', hstep⟩
  · rw [hok] at herr
    cases herr
  · rw [hok, Except.ok.injEq] at hok'
    subst hok'
    have hseq := h.sequence tableID table hins.found
    obtain ⟨-, r, hr, hequal⟩ := hdel
    have hclass := ProductValue.equal_iff.mp hequal
    have hview := hstep.core.sameView
    have hpend := (h.inv.tables tableID table hins.found).insert_none_of_stored
      (hcs tableID table hins.found).2 hr
    refine ⟨table, hins.found, h.of_changed hinv hview.state (fun _ _ => rfl) ?_ ?_ ?_⟩
    · intro rid'
      rw [StateView.getRow_eq_visible hins.found, hview.inserts, hview.deletes,
        StateView.getRow_eq_visible hins.found]
      simp only [TxState.tableInserts_cancelDelete, TxState.tableDeletes_cancelDelete, if_true]
      rw [visible_undelete hpend, hr, hseq]
      split
      · exact congrArg some hclass
      · rfl
    · intro tid htid
      refine ⟨hview.inserts tid, (hview.deletes tid).trans ?_⟩
      simp [TxState.tableDeletes_cancelDelete, htid.symm]
    · intro tid tbl htbl
      rw [hstep.core.nextSequenceValue]
      change _ = t.nextSequenceValue tid tbl
      rw [← h.sequence tid tbl htbl]
      simp only [MapModel.insert]
      split
      · next heq =>
        rw [← heq, hseq]
        exact sequenceAfter_stored hcs h.inv hins.found hr hclass
      · rfl
  · rw [hok, Except.ok.injEq] at hok'
    subst hok'
    have hseq := h.sequence tableID table hins.found
    have hview := hstep.core.sameView
    refine ⟨table, hins.found, h.of_changed hinv hview.state (fun _ _ => rfl) ?_ ?_ ?_⟩
    · intro rid'
      rw [StateView.getRow_eq_visible hins.found, hview.inserts, hview.deletes,
        StateView.getRow_eq_visible hins.found]
      simp only [Transaction.afterInsert, TxState.tableInserts_addInsert,
        TxState.tableDeletes_addInsert, if_true]
      rw [visible_record, hseq]
      split <;> rfl
    · intro tid htid
      refine ⟨(hview.inserts tid).trans ?_, hview.deletes tid⟩
      simp [Transaction.afterInsert, TxState.tableInserts_addInsert, htid.symm]
    · intro tid tbl htbl
      rw [hstep.core.nextSequenceValue]
      by_cases htid : tableID = tid
      · subst htid
        obtain rfl := Option.mem_unique hins.found htbl
        rw [Transaction.nextSequenceValue_afterInsert]
        simp only [MapModel.insert, if_true, hseq]
      · simp only [MapModel.insert, htid, if_false, h.sequence tid tbl htbl,
          Transaction.nextSequenceValue, Transaction.txSequences_afterInsert_of_ne (Ne.symm htid)]

theorem delete_step
    (hok : (t.delete cs tableID rid).2 = none) :
    Refines cs (t.delete cs tableID rid).1 (m.delete tableID rid) ∧ m.rows tableID rid ≠ none := by
  have hinv := Transaction.delete_inv hcs h.inv tableID rid
  rcases Transaction.delete_cases h.inv tableID rid with
    ⟨e, herr, -, -⟩ | ⟨table, row, -, htable, hrow, -, hstep⟩ |
    ⟨table, row, -, htable, hins, hrow, hdel, -, hsame⟩
  · rw [hok] at herr
    cases herr
  · have hview := hstep.core.sameView
    have hstored := (h.inv.tables tableID table htable).disjoint (hcs tableID table htable).2
      rid row hrow
    refine ⟨h.of_changed hinv hview.state (fun _ _ => rfl) ?_ ?_ ?_, ?_⟩
    · intro rid'
      rw [StateView.getRow_eq_visible htable, hview.inserts, hview.deletes,
        StateView.getRow_eq_visible htable]
      simp only [TxState.tableInserts_removeInsert, TxState.tableDeletes_removeInsert, if_true]
      rw [visible_dropInsert hstored rid']
      split <;> rfl
    · intro tid htid
      refine ⟨(hview.inserts tid).trans ?_, hview.deletes tid⟩
      simp [TxState.tableInserts_removeInsert, Ne.symm htid]
    · intro tid tbl htbl
      rw [hstep.core.nextSequenceValue]
      exact h.sequence tid tbl htbl
    · rw [ne_eq, ← h.none_iff, StateView.getRow_eq_visible htable]
      simp [visible, hrow]
  · rw [hsame] at hinv ⊢
    refine ⟨h.of_changed hinv rfl (fun _ _ => rfl) ?_ ?_ h.sequence, ?_⟩
    · intro rid'
      rw [StateView.getRow_eq_visible htable, StateView.getRow_eq_visible htable]
      simp only [TxState.tableDeletes_addDelete, TxState.tableInserts_addDelete, if_true]
      rw [visible_delete hins rid']
      split <;> rfl
    · intro tid htid
      simp [TxState.tableDeletes_addDelete, Ne.symm htid]
    · rw [ne_eq, ← h.deleted_iff hcs htable hrow, TxState.isDeleted,
        Std.ExtTreeMap.contains_eq_isSome_getElem?, hdel]
      simp

theorem delete_ok_iff :
    (t.delete cs tableID rid).2 = none ↔ m.rows tableID rid ≠ none := by
  refine ⟨fun hok => (h.delete_step hcs hok).2, fun hrow => ?_⟩
  rcases Transaction.delete_cases h.inv tableID rid with
    ⟨e, -, -, hno⟩ | ⟨_, _, _, _, _, hok, _⟩ | ⟨_, _, _, _, _, _, _, hok, _⟩
  · exact absurd (h.none_iff.mp (hno h.usable)) hrow
  · exact hok
  · exact hok

theorem insert_ok_iff :
    (∃ rid, (t.insert cs tableID row).2 = .ok rid) ↔
      ∃ table, m.Accepts cs (t.nextRowID tableID table) tableID table row := by
  simp only [← h.accepts_iff hcs]
  rcases Transaction.insert_cases hcs h.inv tableID row with
    ⟨e, herr, hno, -⟩ | ⟨table, rid, hins, -, -, hok, -⟩ | ⟨table, hins, -, -, hok, -⟩
  · simp [herr, hno]
  · exact ⟨fun _ => ⟨table, hins⟩, fun _ => ⟨rid, hok⟩⟩
  · exact ⟨fun _ => ⟨table, hins⟩, fun _ => ⟨_, hok⟩⟩

theorem insert_new
    (hok : (t.insert cs tableID row).2 = .ok rid) : m.rows tableID rid = none := by
  rcases Transaction.insert_cases hcs h.inv tableID row with
    ⟨e, herr, -, -⟩ | ⟨table, rid', hins, ⟨hdel, r, hr, -⟩, -, hok', -⟩ |
    ⟨table, hins, -, -, hok', -⟩
  · rw [hok] at herr
    cases herr
  · rw [hok, Except.ok.injEq] at hok'
    subst hok'
    exact (h.deleted_iff hcs hins.found hr).mp hdel
  · rw [hok, Except.ok.injEq] at hok'
    subst hok'
    obtain ⟨-, hcount⟩ := hcs tableID table hins.found
    have htx := h.inv.tables tableID table hins.found
    -- identifiers in use lie below the next one
    cases hget : StateView.getRow cs t.tx tableID (t.nextRowID tableID table) with
    | none => exact h.none_iff.mp hget
    | some r =>
      rcases (StateView.getRow_eq_some_iff hcs h.inv hins.found).mp hget with ⟨-, hr⟩ | hr
      · exact absurd (lt_of_lt_of_le (hcount.rowID_lt _ r hr).2 htx.next_ge) (lt_irrefl _)
      · exact absurd (htx.range _ r hr).2 (lt_irrefl _)

theorem update_ok_iff :
    (∃ newID, (t.update cs tableID rid row).2 = .ok newID) ↔
      m.rows tableID rid ≠ none ∧ ∃ table,
        (m.delete tableID rid).Accepts cs (t.nextRowID tableID table) tableID table row := by
  simp only [← h.delete_ok_iff hcs, ← nextRowID_delete h.inv tableID rid]
  rcases Transaction.update_cases hcs h.inv tableID rid row with
    ⟨e, herr, -, -, hno⟩ | ⟨newID, hdel, hins, hres⟩
  · simp only [herr, reduceCtorEq, exists_false, false_iff, not_and]
    intro hdel
    rw [← (h.delete_step hcs hdel).1.insert_ok_iff hcs]
    rcases hno with hno | ⟨e', he'⟩
    · exact absurd hdel hno
    · simp [he']
  · rw [hres]
    exact ⟨fun _ => ⟨hdel, ((h.delete_step hcs hdel).1.insert_ok_iff hcs).mp ⟨newID, hins⟩⟩,
      fun _ => ⟨newID, hins⟩⟩

theorem failed_unchanged (op : TxOp) {e : StoreError}
    (herr : (op.run cs t).2 = .error e) :
    t.SameView (op.run cs t).1 ∧ TxInv cs (op.run cs t).1 := by
  cases op with
  | insert tableID row =>
    have hinv := Transaction.insert_inv hcs h.inv tableID row
    refine ⟨?_, hinv⟩
    have herr' : (t.insert cs tableID row).2.map some = .error e := herr
    rcases Transaction.insert_cases hcs h.inv tableID row with
      ⟨_, _, _, hstep⟩ | ⟨_, _, _, _, _, hok, _⟩ | ⟨_, _, _, _, hok, _⟩
    · exact hstep.core.sameView
    · rw [hok] at herr'
      cases herr'
    · rw [hok] at herr'
      cases herr'
  | delete tableID rid =>
    have hinv := Transaction.delete_inv hcs h.inv tableID rid
    have hcases := Transaction.delete_cases h.inv tableID rid
    simp only [TxOp.run] at herr ⊢
    generalize t.delete cs tableID rid = res at *
    obtain ⟨t₁, err⟩ := res
    cases err with
    | none => cases herr
    | some e' =>
      rcases hcases with ⟨_, _, hsame, _⟩ | ⟨_, _, _, _, _, hok, _⟩ |
        ⟨_, _, _, _, _, _, _, hok, _⟩
      · simp only at hsame
        subst hsame
        exact ⟨(Transaction.SameCore.refl t₁).sameView, hinv⟩
      · cases hok
      · cases hok
  | update tableID rid row =>
    refine ⟨?_, Transaction.update_inv hcs h.inv tableID rid row⟩
    have herr' : (t.update cs tableID rid row).2.map some = .error e := herr
    rcases Transaction.update_cases hcs h.inv tableID rid row with
      ⟨_, _, hview, _, _⟩ | ⟨newID, _, hins, hres⟩
    · exact hview
    · rw [hres, hins] at herr'
      cases herr'

theorem step (op : TxOp) :
    Refines cs (op.run cs t).1 (m.step cs (op, (op.run cs t).2)) := by
  cases hres : (op.run cs t).2 with
  | error e =>
    obtain ⟨hview, hinv⟩ := h.failed_unchanged hcs op hres
    have hsame : m.step cs (op, .error e) = m := by cases op <;> rfl
    rw [hsame]
    exact h.of_sameView hinv hview
  | ok result =>
    cases op with
    | insert tableID row =>
      have hres' : (t.insert cs tableID row).2.map some = .ok result := hres
      cases hins : (t.insert cs tableID row).2 with
      | error e => simp [hins, Except.map] at hres'
      | ok rid =>
        obtain ⟨table, htable, hnext⟩ := h.insert_step hcs hins
        rw [hins] at hres'
        cases hres'
        simpa [MapModel.step, TxOp.run, htable] using hnext
    | delete tableID rid =>
      have hdel : (t.delete cs tableID rid).2 = none := by
        simp only [TxOp.run] at hres
        split at hres
        · next heq => rw [heq]
        · cases hres
      have hnext := (h.delete_step hcs hdel).1
      rcases hd : t.delete cs tableID rid with ⟨t₁, err⟩
      rw [hd] at hdel hnext
      simp only at hdel
      subst hdel
      simpa [TxOp.run, hd, MapModel.step] using hnext
    | update tableID rid row =>
      have hres' : (t.update cs tableID rid row).2.map some = .ok result := hres
      rcases Transaction.update_cases hcs h.inv tableID rid row with
        ⟨e, herr, -, -, -⟩ | ⟨newID, hdel, hins, hup⟩
      · simp [herr, Except.map] at hres'
      · obtain ⟨table, htable, hnext⟩ := (h.delete_step hcs hdel).1.insert_step hcs hins
        rw [hup, hins] at hres'
        cases hres'
        rw [← hup] at hnext
        simpa [MapModel.step, TxOp.run, htable] using hnext

theorem runOps (ops : List TxOp) :
    Refines cs (t.runOps cs ops).1 (m.runOps cs (ops.zip (t.runOps cs ops).2)) := by
  induction ops generalizing t m with
  | nil => exact h
  | cons op ops ih => exact ih (h.step hcs op)

/-! ### Reads -/

variable {indexID : IndexID} {idx : Index}

section

variable (hidx : StateView.lookupIndex cs tableID indexID = some (table, idx))
include hidx

theorem shows_index {committedIDs : Index → List RowID} {txMatch : Index → ProductValue → Bool}
    {P : ProductValue → Prop}
    (hcommitted : ∀ rid, rid ∈ committedIDs idx ↔ ∃ r, table.rows[rid]? = some r ∧ P r)
    (hnodup : (committedIDs idx).Nodup) (hmatch : ∀ r, txMatch idx r = true ↔ P r)
    (hP : ∀ r r' : ProductValue, r.rowClass = r'.rowClass → (P r ↔ P r')) :
    m.Shows tableID P (Transaction.rowsOf cs t tableID
      (StateView.seekIndexRows cs t.tx tableID indexID committedIDs txMatch)) := by
  refine h.shows
    (Transaction.rowsOf_nodup (StateView.seekIndexRows_nodup hcs h.inv txMatch hidx hnodup)) ?_ hP
  intro rid r
  rw [Transaction.mem_rowsOf, StateView.mem_seekIndexRows hcs h.inv hidx hcommitted hmatch]
  constructor
  · rintro ⟨⟨r', hr', hp⟩, hr⟩
    rw [hr, Option.some.injEq] at hr'
    subst hr'
    exact ⟨hr, hp⟩
  · rintro ⟨hr, hp⟩
    exact ⟨⟨r, hr, hp⟩, hr⟩

theorem shows_seekIndex (key : IndexKey) :
    m.Shows tableID (fun r => (idx.extractKey r).equal key = true)
      (t.seekIndex cs tableID indexID key) := by
  have hmir := StateView.mirrors_of_lookupIndex hcs hidx
  simp only [Transaction.seekIndex, h.usable, StateView.seekIndex]
  refine h.shows_index hcs hidx ?_ ?_ (fun _ => Iff.rfl) ?_
  · intro rid
    simp only [IndexKey.equal_iff, ← IndexKey.compare_eq_iff]
    exact hmir.mem_rowIDs key rid
  · exact (BTreeIndex.rowIDs_increasing hmir.inv key).imp ne_of_lt
  · intro r r' hclass
    simp only [IndexKey.equal_iff, Index.extractKey, extractKey_congr hclass]

theorem shows_seekIndexRange (lower upper : Bound) :
    m.Shows tableID
      (fun r => matchesLowerBound (idx.extractKey r) lower = true ∧
        matchesUpperBound (idx.extractKey r) upper = true)
      (t.seekIndexRange cs tableID indexID lower upper) := by
  have hmir := StateView.mirrors_of_lookupIndex hcs hidx
  simp only [Transaction.seekIndexRange, h.usable, StateView.seekIndexBounds]
  refine h.shows_index hcs hidx ?_ ?_ (fun _ => by simp) ?_
  · exact fun rid => hmir.mem_collectBounds
  · exact hmir.mappings_nodup.sublist (BTreeIndex.collectBounds_sublist hmir.inv lower upper)
  · intro r r' hclass
    have hkey : (idx.extractKey r).compare (idx.extractKey r') = .eq :=
      IndexKey.compare_eq_iff.mpr (extractKey_congr hclass _)
    rw [matchesLowerBound_congr hkey, matchesUpperBound_congr hkey]

end

theorem agrees : Transaction.Agrees cs t m where
  getRow_none := by
    intro tableID rid
    rw [h.getRow_eq, h.none_iff]
  getRow_some := by
    intro tableID rid r r' hr hr'
    rw [h.getRow_eq] at hr
    exact ProductValue.equal_iff.mpr (h.class_eq hr hr')
  scanTable := by
    intro tableID
    simp only [Transaction.scanTable, h.usable]
    refine h.shows (StateView.scanTable_nodup hcs h.inv tableID) ?_ (fun _ _ _ => Iff.rfl)
    intro rid r
    rw [StateView.mem_scanTable hcs h.inv, and_true]
  seekIndex := by
    intro tableID indexID key
    split
    · next hidx =>
      simp [Transaction.seekIndex, h.usable, StateView.seekIndex, StateView.seekIndexRows,
        hidx, Transaction.rowsOf]
    · next table idx hidx => exact h.shows_seekIndex hcs hidx key
  seekIndexRange := by
    intro tableID indexID lower upper
    split
    · next hidx =>
      simp [Transaction.seekIndexRange, h.usable, StateView.seekIndexBounds,
        StateView.seekIndexRows, hidx, Transaction.rowsOf]
    · next table idx hidx => exact h.shows_seekIndexRange hcs hidx lower upper
  insert_ok := fun _ _ => h.insert_ok_iff hcs
  insert_new := fun _ _ _ => h.insert_new hcs
  delete_ok := fun _ _ => h.delete_ok_iff hcs
  update_ok := fun _ _ _ => h.update_ok_iff hcs
  failed := by
    intro op e herr
    obtain ⟨hview, hinv⟩ := h.failed_unchanged hcs op herr
    refine ⟨hview, fun tableID rid => ?_⟩
    rw [h.getRow_eq, (h.of_sameView hinv hview).getRow_eq]
    exact getRow_of_ne (hview.inserts tableID) (hview.deletes tableID) rid

end Refines

/-- After any calls on one transaction it agrees with the model run on the same calls. -/
theorem transaction_refines_map {cs : CommittedState} (hcs : cs.Inv) (ops : List TxOp) :
    Transaction.Agrees cs (Transaction.new.runOps cs ops).1
      ((MapModel.init cs).runOps cs (ops.zip (Transaction.new.runOps cs ops).2)) :=
  ((Refines.init hcs).runOps hcs ops).agrees hcs

def exampleOps : List TxOp :=
  [.insert 0 [⟨.uint64, some (0 : BitVec 64)⟩], .insert 0 [⟨.uint64, some (0 : BitVec 64)⟩],
    .delete 0 1]

theorem transaction_refines_map_example :
    (CommittedState.fresh exampleRegistry).Inv ∧
      Transaction.Agrees (.fresh exampleRegistry)
        (Transaction.new.runOps (.fresh exampleRegistry) exampleOps).1
        ((MapModel.init (.fresh exampleRegistry)).runOps (.fresh exampleRegistry)
          (exampleOps.zip (Transaction.new.runOps (.fresh exampleRegistry) exampleOps).2)) := by
  have hcs := CommittedState.fresh_inv (buildEngine_primaryUnique exampleRegistry_built)
  exact ⟨hcs, transaction_refines_map hcs exampleOps⟩

end Shunter
