import Shunter.Store.CommitReady

/-!
# Writing a commit cannot fail

For buffers that passed revalidation every loop of `applyCommit` runs to its
end, and the rows stored afterwards are the rows the buffers let through.
-/

namespace Shunter

open Foundation

variable {cs cs' : CommittedState} {tableID tableID' : TableID} {table table' : Table}
  {ins : GoMap RowID ProductValue} {dels : GoMap RowID Unit}

namespace CommittedState

theorem table_setTable :
    (cs.setTable tableID table).table tableID' =
      if tableID = tableID' then some table else cs.table tableID' := by
  simp only [setTable, CommittedState.table, get_insert]

theorem withTable_ok {f : Table → Table × Option StoreError}
    (htable : cs.table tableID = some table) (hok : (f table).2 = none) :
    cs.withTable tableID f = (cs.setTable tableID (f table).1, none) := by
  simp only [withTable, htable, ← hok]

/-- The state after a pass: every table with an entry is changed by its function. -/
structure Passed {ν : Type} (m : GoMap TableID ν) (f : ν → Table → Table × Option StoreError)
    (cs cs' : CommittedState) : Prop where
  entry : ∀ (tableID : TableID) (v : ν) (table : Table), m[tableID]? = some v →
    cs.table tableID = some table → cs'.table tableID = some (f v table).1
  other : ∀ tableID : TableID, m[tableID]? = none → cs'.table tableID = cs.table tableID
  known : ∀ (tableID : TableID) (v : ν), m[tableID]? = some v → cs.table tableID ≠ none
  horizon : cs'.committedTxID = cs.committedTxID

theorem forTables_ok {ν : Type} (cs : CommittedState) (m : GoMap TableID ν)
    (f : ν → Table → Table × Option StoreError)
    (h : ∀ (tableID : TableID) (v : ν), m[tableID]? = some v →
      ∃ table, cs.table tableID = some table ∧ (f v table).2 = none) :
    (cs.forTables m f).2 = none ∧ Passed m f cs (cs.forTables m f).1 := by
  -- the tables still to come are untouched, since each table has one entry
  obtain ⟨s, hrun, hvisited, hother, hhor⟩ := loop_entries_total
    (fun cs (p : TableID × ν) => cs.withTable p.1 (f p.2)) m
    (fun visited s => (∀ tid ∈ visited, ∀ v table, m[tid]? = some v → cs.table tid = some table →
        s.table tid = some (f v table).1) ∧
      (∀ tid ∉ visited, s.table tid = cs.table tid) ∧ s.committedTxID = cs.committedTxID)
    (by
      rintro visited tid v s hv hnew ⟨hdone, hrest, hhor⟩
      obtain ⟨table, htable, hok⟩ := h tid v hv
      refine ⟨_, withTable_ok ((hrest tid hnew).trans htable) hok, ?_, ?_, hhor⟩
      · intro tid' hin v' table' hv' htable'
        rw [table_setTable]
        rcases eq_or_ne tid tid' with rfl | hne
        · obtain rfl := Option.mem_unique hv hv'
          obtain rfl := Option.mem_unique htable htable'
          rw [if_pos rfl]
        · rw [if_neg hne]
          exact hdone tid' (hin.resolve_left hne.symm) v' table' hv' htable'
      · intro tid' hout
        rw [table_setTable, if_neg fun heq => hout (.inl heq.symm)]
        exact hrest tid' fun hin => hout (.inr hin))
    (s := cs) ⟨by simp, by simp, rfl⟩
  have heq : cs.forTables m f = (s, none) := hrun
  rw [heq]
  refine ⟨rfl, ⟨?_, ?_, ?_, hhor⟩⟩
  · exact fun tid v table hv => hvisited tid (by grind) v table hv
  · exact fun tid hnone => hother tid (by grind)
  · intro tid v hv
    obtain ⟨table, htable, -⟩ := h tid v hv
    simp [htable]

theorem Passed.table_eq {ν : Type} {m : GoMap TableID ν}
    {f : ν → Table → Table × Option StoreError} (h : Passed m f cs cs')
    (htable : cs.table tableID = some table) :
    cs'.table tableID = some ((m[tableID]?).elim table fun v => (f v table).1) := by
  cases hv : m[tableID]? with
  | none => rw [h.other tableID hv, htable, Option.elim_none]
  | some v => rw [h.entry tableID v table hv htable, Option.elim_some]

theorem Passed.unknown {ν : Type} {m : GoMap TableID ν}
    {f : ν → Table → Table × Option StoreError} (h : Passed m f cs cs')
    (htable : cs.table tableID = none) : cs'.table tableID = none := by
  cases hv : m[tableID]? with
  | none => rw [h.other tableID hv, htable]
  | some v => exact absurd htable (h.known tableID v hv)

end CommittedState

/-! ## The loops over the rows of a table -/

structure SameMeta (table table' : Table) : Prop where
  schema : table'.schema = table.schema
  nextID : table'.nextID = table.nextID
  sequence : table'.sequence = table.sequence

theorem SameMeta.refl (table : Table) : SameMeta table table := ⟨rfl, rfl, rfl⟩

theorem SameMeta.trans {table'' : Table} (h : SameMeta table table') (h' : SameMeta table' table'') :
    SameMeta table table'' :=
  ⟨h'.schema.trans h.schema, h'.nextID.trans h.nextID, h'.sequence.trans h.sequence⟩

theorem deleteRow_sameMeta (table : Table) (id : RowID) : SameMeta table (table.deleteRow id).1 :=
  ⟨Table.deleteRow_schema, Table.deleteRow_nextID, Table.deleteRow_sequence⟩

theorem insertRow_sameMeta (table : Table) (id : RowID) (row : ProductValue) :
    SameMeta table (table.insertRow id row).1 :=
  ⟨Table.insertRow_schema, Table.insertRow_nextID, Table.insertRow_sequence⟩

theorem deleteRows_ok (hind : table.Indexed)
    (hstored : ∀ rid : RowID, dels.contains rid = true → ∃ r, table.rows[rid]? = some r) :
    (table.deleteRows dels).2 = none ∧ (table.deleteRows dels).1.Indexed ∧
      SameMeta table (table.deleteRows dels).1 ∧
      ∀ rid : RowID, (table.deleteRows dels).1.rows[rid]? =
        if dels.contains rid then none else table.rows[rid]? := by
  have hnodup : dels.keys.Nodup := Std.ExtTreeMap.nodup_keys
  obtain ⟨s, hrun, hind', hmeta, hrows⟩ : ∃ s, table.deleteRows dels = (s, none) ∧ s.Indexed ∧
      SameMeta table s ∧
        ∀ rid : RowID, s.rows[rid]? = if rid ∈ dels.keys then none else table.rows[rid]? := by
    refine loop_total _ (fun done s => s.Indexed ∧ SameMeta table s ∧
      ∀ rid : RowID, s.rows[rid]? = if rid ∈ done then none else table.rows[rid]?) dels.keys ?_
      ⟨hind, .refl table, by simp⟩
    rintro done rid rest s hl ⟨hind, hmeta, hrows⟩
    have hkey : rid ∉ done := by
      rw [hl] at hnodup
      exact fun hin => (List.nodup_append.mp hnodup).2.2 rid hin rid (by simp) rfl
    obtain ⟨r, hr⟩ := hstored rid (Std.ExtTreeMap.mem_keys.mp (by simp [hl]))
    have hr' : s.rows[rid]? = some r := by rw [hrows, if_neg hkey, hr]
    obtain ⟨hsome, hrows', hind'⟩ := Table.deleteRow_some hind hr'
    have hstep : s.deleteRow rid = ((s.deleteRow rid).1, some r) := Prod.ext rfl hsome
    refine ⟨_, by rw [hstep], hind', hmeta.trans (deleteRow_sameMeta s rid), fun rid' => ?_⟩
    rw [hrows', Std.ExtTreeMap.getElem?_erase]
    rcases eq_or_ne rid rid' with rfl | hne
    · simp
    · simp [hne, hne.symm, hrows]
  rw [hrun]
  refine ⟨rfl, hind', hmeta, fun rid => ?_⟩
  rw [hrows rid]
  simp only [Std.ExtTreeMap.mem_keys, Std.ExtTreeMap.contains_iff_mem]

theorem insertRows_ok (ins : GoMap RowID ProductValue) (hind : table.Indexed)
    (hevent : table.schema.isEvent = false)
    (hfree : ∀ (rid : RowID) (r : ProductValue), ins[rid]? = some r → table.rows[rid]? = none)
    (hstored : ∀ (rid rid' : RowID) (r r' : ProductValue), ins[rid]? = some r →
      table.rows[rid']? = some r' → ¬ table.schema.Conflicts r' r)
    (hpending : ∀ (rid rid' : RowID) (r r' : ProductValue), ins[rid]? = some r →
      ins[rid']? = some r' → table.schema.Conflicts r r' → rid = rid') :
    (table.insertRows ins).2 = none ∧ (table.insertRows ins).1.Indexed ∧
      SameMeta table (table.insertRows ins).1 ∧
      ∀ rid : RowID, (table.insertRows ins).1.rows[rid]? = (ins[rid]?).or table.rows[rid]? := by
  obtain ⟨s, hrun, hind', hmeta, hrows⟩ := loop_entries_total
    (fun (table : Table) (p : RowID × ProductValue) => table.insertRow p.1 p.2) ins
    (fun visited s => s.Indexed ∧ SameMeta table s ∧
      ∀ rid, (rid ∈ visited → s.rows[rid]? = ins[rid]?) ∧
        (rid ∉ visited → s.rows[rid]? = table.rows[rid]?))
    (by
      rintro visited rid r s hr hnew ⟨hind, hmeta, hrows⟩
      have hid : s.rows[rid]? = none := by rw [(hrows rid).2 hnew, hfree rid r hr]
      have hno : ¬ s.HasConflict r := by
        rintro ⟨rid', r', hr', hconf⟩
        rw [hmeta.schema] at hconf
        by_cases hin : rid' ∈ visited
        · rw [(hrows rid').1 hin] at hr'
          exact hnew (hpending rid' rid r' r hr' hr hconf ▸ hin)
        · rw [(hrows rid').2 hin] at hr'
          exact hstored rid rid' r r' hr hr' hconf
      obtain ⟨hnone, hrows', hind'⟩ := Table.insertRow_ok hind hid hno
      refine ⟨_, Prod.ext rfl hnone, hind', hmeta.trans (insertRow_sameMeta s rid r), ?_⟩
      intro rid'
      rw [hrows', Std.ExtTreeMap.getElem?_insert]
      rcases eq_or_ne rid rid' with rfl | hne
      · simp [hr]
      · simpa [hne, hne.symm] using hrows rid')
    (s := table) ⟨hind, .refl table, by simp⟩
  have heq : table.insertRows ins = (s, none) := by
    simp only [Table.insertRows, hevent, Bool.false_eq_true, if_false]
    exact hrun
  rw [heq]
  refine ⟨rfl, hind', hmeta, fun rid => ?_⟩
  cases hget : ins[rid]? with
  | none => rw [(hrows rid).2 (fun h => h hget), Option.none_or]
  | some r => rw [(hrows rid).1 (Option.ne_none_iff_exists'.mpr ⟨r, hget⟩), hget, Option.some_or]

theorem deleteRows_empty (table : Table) (hdels : ∀ rid : RowID, dels.contains rid = false) :
    table.deleteRows dels = (table, none) := by
  have hkeys : dels.keys = [] := by
    rw [List.eq_nil_iff_forall_not_mem]
    intro rid hrid
    have := hdels rid
    rw [Std.ExtTreeMap.contains_iff_mem.mpr (Std.ExtTreeMap.mem_keys.mp hrid)] at this
    cases this
  simp [Table.deleteRows, hkeys]

/-! ## The whole commit -/

structure TableCommitted (table table' : Table) (ins : GoMap RowID ProductValue)
    (dels : GoMap RowID Unit) (next : Option RowID) (seq : Option Nat) : Prop where
  schema : table'.schema = table.schema
  indexed : table'.Indexed
  event : table.schema.isEvent = true → table' = table
  rows : table.schema.isEvent = false →
    ∀ rid : RowID, table'.rows[rid]? = visible table ins dels rid
  nextID : table.schema.isEvent = false → table'.nextID = next.getD table.nextID
  sequence : table.schema.isEvent = false →
    table'.sequence = table.sequence.map fun s => seq.getD s

structure Committed (cs cs' : CommittedState) (tx : Transaction) : Prop where
  tables : ∀ tableID table, cs.table tableID = some table →
    ∃ table', cs'.table tableID = some table' ∧
      TableCommitted table table' (tx.tx.tableInserts tableID) (tx.tx.tableDeletes tableID)
        tx.txNextRowIDs[tableID]? tx.txSequences[tableID]?
  unknown : ∀ tableID, cs.table tableID = none → cs'.table tableID = none

/-- The counters of a transaction belong to tables of the state. -/
structure Transaction.CountersKnown (cs : CommittedState) (t : Transaction) : Prop where
  nextRowID : ∀ (tableID : TableID) (next : RowID), t.txNextRowIDs[tableID]? = some next →
    cs.table tableID ≠ none
  sequence : ∀ (tableID : TableID) (next : Nat), t.txSequences[tableID]? = some next →
    cs.table tableID ≠ none

structure TableDeleted (table table₁ : Table) (dels : GoMap RowID Unit) : Prop where
  indexed : table₁.Indexed
  sameMeta : SameMeta table table₁
  event : table.schema.isEvent = true → table₁ = table
  rows : ∀ rid : RowID, table₁.rows[rid]? = if dels.contains rid then none else table.rows[rid]?

theorem tableDeleted_of_deleteRows (hinv : table.Inv)
    (hstored : ∀ rid : RowID, dels.contains rid = true → ∃ r, table.rows[rid]? = some r) :
    TableDeleted table (table.deleteRows dels).1 dels := by
  obtain ⟨-, hind, hmeta, hrows⟩ := deleteRows_ok hinv.indexed hstored
  refine ⟨hind, hmeta, fun hev => ?_, hrows⟩
  -- an event table stores no rows, so nothing can be deleted from it
  rw [deleteRows_empty table fun rid => ?_]
  rw [Bool.eq_false_iff]
  intro hrid
  obtain ⟨r, hr⟩ := hstored rid hrid
  rw [hinv.rowsOK.event_empty hev rid] at hr
  cases hr

theorem tableDeleted_none (hinv : table.Inv) : TableDeleted table table ∅ :=
  ⟨hinv.indexed, .refl table, fun _ => rfl, by simp⟩

structure TableWritten (table table₂ : Table) (ins : GoMap RowID ProductValue)
    (dels : GoMap RowID Unit) : Prop where
  indexed : table₂.Indexed
  sameMeta : SameMeta table table₂
  event : table.schema.isEvent = true → table₂ = table
  rows : table.schema.isEvent = false →
    ∀ rid : RowID, table₂.rows[rid]? = visible table ins dels rid

theorem insertRows_written {txState : TxState} {table₁ : Table}
    (hdel : TableDeleted table table₁ (txState.tableDeletes tableID))
    (hready : InsertsReady txState tableID table ins) :
    (table₁.insertRows ins).2 = none ∧
      TableWritten table (table₁.insertRows ins).1 ins (txState.tableDeletes tableID) := by
  cases hev : table.schema.isEvent with
  | true =>
    have hrun : table₁.insertRows ins = (table₁, none) := by
      simp [Table.insertRows, hdel.sameMeta.schema, hev]
    rw [hrun]
    exact ⟨rfl, hdel.indexed, hdel.sameMeta, hdel.event, fun hev' => by simp [hev] at hev'⟩
  | false =>
    have hschema := hdel.sameMeta.schema
    obtain ⟨hok, hind, hmeta, hrows⟩ := insertRows_ok ins hdel.indexed
      (by rw [hschema, hev])
      (by
        intro rid r hr
        rw [hdel.rows]
        split
        · rfl
        · next hnot => exact hready.free hev rid r hr (Bool.eq_false_iff.mpr hnot))
      (by
        intro rid rid' r r' hr hr'
        rw [hdel.rows] at hr'
        rw [hschema]
        split at hr'
        · cases hr'
        · next hnot =>
          exact hready.committed hev rid rid' r r' hr hr' (Bool.eq_false_iff.mpr hnot))
      (by
        rw [hschema]
        exact hready.pending)
    refine ⟨hok, hind, hdel.sameMeta.trans hmeta, fun hev' => by simp [hev] at hev', ?_⟩
    intro _ rid
    rw [hrows, hdel.rows, visible]
    cases ins[rid]? <;> rfl

theorem tableWritten_none {table₁ : Table} (hdel : TableDeleted table table₁ dels) :
    TableWritten table table₁ ∅ dels := by
  refine ⟨hdel.indexed, hdel.sameMeta, hdel.event, fun _ rid => ?_⟩
  rw [hdel.rows]
  simp [visible]

theorem TableWritten.counters {table₂ : Table} (h : TableWritten table table₂ ins dels)
    (next : Option RowID) (seq : Option Nat) :
    TableCommitted table
      (seq.elim (next.elim table₂ fun v => (table₂.commitNextID v).1)
        fun v => ((next.elim table₂ fun v => (table₂.commitNextID v).1).commitSequence v).1)
      ins dels next seq := by
  generalize hfinal : Option.elim seq _ _ = final
  have hschema := h.sameMeta.schema
  have hnext := h.sameMeta.nextID
  have hseq := h.sameMeta.sequence
  cases hev : table.schema.isEvent with
  | true =>
    have heq := h.event hev
    subst heq
    have hsame : final = table₂ := by
      rw [← hfinal]
      cases next <;> cases seq <;> simp [Table.commitNextID, Table.commitSequence, hev]
    rw [hsame]
    exact ⟨rfl, h.indexed, fun _ => rfl, fun h' => by simp [hev] at h',
      fun h' => by simp [hev] at h', fun h' => by simp [hev] at h'⟩
  | false =>
    have hev₂ : table₂.schema.isEvent = false := by rw [hschema, hev]
    have hsame : final = { table₂ with
        nextID := next.getD table₂.nextID
        sequence := table₂.sequence.map fun s => seq.getD s } := by
      rw [← hfinal]
      cases next <;> cases seq <;>
        simp [Table.commitNextID, Table.commitSequence, Table.setNextID,
          Table.setSequenceValue, hev₂]
    rw [hsame]
    exact ⟨hschema, h.indexed.withCounters _ (by simp), fun h' => by simp [hev] at h',
      fun h' => h.rows hev, fun _ => by rw [hnext], fun _ => by rw [hseq]⟩

theorem applyCommit_ok {tx : Transaction}
    (hcs : ∀ tableID table, cs.table tableID = some table → table.Inv)
    (hready : CommitReady cs tx.tx) (hknown : tx.CountersKnown cs) :
    (applyCommit cs tx).2 = none ∧ Committed cs (applyCommit cs tx).1 tx ∧
      (applyCommit cs tx).1.committedTxID = cs.committedTxID := by
  obtain ⟨hok₁, hpass₁⟩ := cs.forTables_ok tx.tx.deletes Table.deleteRows (by
    intro tid dels hdels
    obtain ⟨table, htable, hstored⟩ := hready.deletes tid dels hdels
    exact ⟨table, htable, (deleteRows_ok (hcs tid table htable).indexed hstored).1⟩)
  unfold applyCommit
  rw [andThen_ok hok₁]
  generalize (cs.forTables tx.tx.deletes Table.deleteRows).1 = cs₁ at *
  have hdeleted : ∀ tid table, cs.table tid = some table →
      ∃ table₁, cs₁.table tid = some table₁ ∧
        TableDeleted table table₁ (tx.tx.tableDeletes tid) := by
    intro tid table htable
    refine ⟨_, hpass₁.table_eq htable, ?_⟩
    unfold TxState.tableDeletes
    cases hdels : tx.tx.deletes[tid]? with
    | none => exact tableDeleted_none (hcs tid table htable)
    | some dels =>
      obtain ⟨table', htable', hstored⟩ := hready.deletes tid dels hdels
      obtain rfl := Option.mem_unique htable htable'
      exact tableDeleted_of_deleteRows (hcs tid table htable) hstored
  obtain ⟨hok₂, hpass₂⟩ := cs₁.forTables_ok tx.tx.inserts Table.insertRows (by
    intro tid ins hins
    obtain ⟨table, htable, hins'⟩ := hready.inserts tid ins hins
    obtain ⟨table₁, htable₁, hdel⟩ := hdeleted tid table htable
    exact ⟨table₁, htable₁, (insertRows_written hdel hins').1⟩)
  rw [andThen_ok hok₂]
  generalize (cs₁.forTables tx.tx.inserts Table.insertRows).1 = cs₂ at *
  have hwritten : ∀ tid table, cs.table tid = some table →
      ∃ table₂, cs₂.table tid = some table₂ ∧
        TableWritten table table₂ (tx.tx.tableInserts tid) (tx.tx.tableDeletes tid) := by
    intro tid table htable
    obtain ⟨table₁, htable₁, hdel⟩ := hdeleted tid table htable
    refine ⟨_, hpass₂.table_eq htable₁, ?_⟩
    unfold TxState.tableInserts
    cases hins : tx.tx.inserts[tid]? with
    | none => exact tableWritten_none hdel
    | some ins =>
      obtain ⟨table', htable', hins'⟩ := hready.inserts tid ins hins
      obtain rfl := Option.mem_unique htable htable'
      exact (insertRows_written hdel hins').2
  -- the counters never fail once the tables are known
  have hfound : ∀ tid, cs.table tid ≠ none → ∃ table₂, cs₂.table tid = some table₂ := by
    intro tid hne
    obtain ⟨table, htable⟩ := Option.ne_none_iff_exists'.mp hne
    obtain ⟨table₂, htable₂, -⟩ := hwritten tid table htable
    exact ⟨table₂, htable₂⟩
  obtain ⟨hok₃, hpass₃⟩ := cs₂.forTables_ok tx.txNextRowIDs Table.commitNextID (by
    intro tid next hnext
    obtain ⟨table₂, htable₂⟩ := hfound tid (hknown.nextRowID tid next hnext)
    exact ⟨table₂, htable₂, rfl⟩)
  rw [andThen_ok hok₃]
  generalize (cs₂.forTables tx.txNextRowIDs Table.commitNextID).1 = cs₃ at *
  obtain ⟨hok₄, hpass₄⟩ := cs₃.forTables_ok tx.txSequences Table.commitSequence (by
    intro tid next hnext
    obtain ⟨table₂, htable₂⟩ := hfound tid (hknown.sequence tid next hnext)
    exact ⟨_, hpass₃.table_eq htable₂, rfl⟩)
  refine ⟨hok₄, ⟨?_, ?_⟩, ?_⟩
  · intro tid table htable
    obtain ⟨table₂, htable₂, hw⟩ := hwritten tid table htable
    exact ⟨_, hpass₄.table_eq (hpass₃.table_eq htable₂), hw.counters _ _⟩
  · intro tid hnone
    exact hpass₄.unknown (hpass₃.unknown (hpass₂.unknown (hpass₁.unknown hnone)))
  · rw [hpass₄.horizon, hpass₃.horizon, hpass₂.horizon, hpass₁.horizon]

end Shunter
