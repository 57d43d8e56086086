import Shunter.Store.CommitAtomic

/-!
# The changeset of a commit

The prepared changeset lists, for every table with buffered changes, the
deleted rows as they were stored and the inserted rows.  For a transaction that
was filled by its own calls it is the exact net effect of the commit.
-/

namespace Shunter

open Foundation

structure PreparedTable (tableID : TableID) (table : Table) (tc : TableChangeset)
    (ins : GoMap RowID ProductValue) (dels : GoMap RowID Unit) : Prop where
  tableID : tc.tableID = tableID
  tableName : tc.tableName = table.schema.name
  schema : tc.schema = table.schema
  inserts : tc.inserts = ins.toList.map Prod.snd
  deletes : tc.deletes.map some = dels.keys.map fun rid => table.rows[rid]?

structure Prepared (cs : CommittedState) (txState : TxState) (c : Changeset) : Prop where
  entry : ∀ (tableID : TableID) (tc : TableChangeset), c.tables[tableID]? = some tc →
    ∃ table, cs.table tableID = some table ∧
      PreparedTable tableID table tc (txState.tableInserts tableID)
        (txState.tableDeletes tableID)
  missing : ∀ tableID : TableID, c.tables[tableID]? = none →
    txState.deletes[tableID]? = none ∧ txState.inserts[tableID]? = none

variable {cs : CommittedState} {txState : TxState} {tableID : TableID} {table : Table}
  {dels : GoMap RowID Unit} {ins : GoMap RowID ProductValue}

theorem deletedRows_ok (rids : List RowID)
    (h : ∀ rid ∈ rids, ∃ r, table.rows[rid]? = some r) :
    ∃ rows, deletedRows table rids = .ok rows ∧
      rows.map some = rids.map fun rid => table.rows[rid]? := by
  induction rids with
  | nil => exact ⟨[], rfl, rfl⟩
  | cons rid rids ih =>
    obtain ⟨r, hr⟩ := h rid (by simp)
    obtain ⟨rows, hrows, hmap⟩ := ih fun rid' hrid' => h rid' (List.mem_cons_of_mem _ hrid')
    refine ⟨r :: rows, ?_, by simp [hr, hmap]⟩
    simp [deletedRows, Table.rowView, hr, hrows]

/-- A changeset after a pass: each table with an entry has its changes added. -/
structure Changeset.Extended {ν : Type} (cs : CommittedState) (m : GoMap TableID ν)
    (Q : ν → Table → TableChangeset → TableChangeset → Prop) (c₀ c : Changeset) : Prop where
  txID : c.txID = c₀.txID
  entry : ∀ (tableID : TableID) (v : ν), m[tableID]? = some v → ∃ table tc,
    cs.table tableID = some table ∧ c.tables[tableID]? = some tc ∧
      Q v table (c₀.ensureTableChangeset tableID table.schema) tc
  other : ∀ tableID : TableID, m[tableID]? = none → c.tables[tableID]? = c₀.tables[tableID]?

theorem Changeset.extended_of_loop {ν : Type} (cs : CommittedState) (m : GoMap TableID ν)
    (Q : ν → Table → TableChangeset → TableChangeset → Prop)
    (body : Changeset → TableID × ν → Changeset × Option StoreError) (c₀ : Changeset)
    (hbody : ∀ c (tid : TableID) (v : ν), m[tid]? = some v → ∃ table tc,
      cs.table tid = some table ∧ body c (tid, v) = (c.setTable tid tc, none) ∧
        Q v table (c.ensureTableChangeset tid table.schema) tc) :
    ∃ c, loop body c₀ m.toList = (c, none) ∧ Extended cs m Q c₀ c := by
  obtain ⟨c, hrun, htx, hentry, hother⟩ := loop_entries_total body m
    (fun visited c => c.txID = c₀.txID ∧
      (∀ tid ∈ visited, ∀ v, m[tid]? = some v → ∃ table tc, cs.table tid = some table ∧
        c.tables[tid]? = some tc ∧ Q v table (c₀.ensureTableChangeset tid table.schema) tc) ∧
      ∀ tid ∉ visited, c.tables[tid]? = c₀.tables[tid]?)
    (by
      rintro visited tid v c hv hnew ⟨htx, hentry, hother⟩
      obtain ⟨table, tc, htable, hrun, hQ⟩ := hbody c tid v hv
      have hensure : c.ensureTableChangeset tid table.schema =
          c₀.ensureTableChangeset tid table.schema := by
        simp only [ensureTableChangeset, hother tid hnew]
      have hget : ∀ tid', (c.setTable tid tc).tables[tid']? =
          if tid = tid' then some tc else c.tables[tid']? := by
        simp [setTable, Std.ExtTreeMap.getElem?_insert]
      refine ⟨_, hrun, htx, ?_, ?_⟩
      · intro tid' hin v' hv'
        rcases eq_or_ne tid tid' with rfl | hne
        · obtain rfl := Option.mem_unique hv hv'
          exact ⟨table, tc, htable, by simp [hget], hensure ▸ hQ⟩
        · rw [hget, if_neg hne]
          exact hentry tid' (hin.resolve_left hne.symm) v' hv'
      · grind)
    (s := c₀) ⟨rfl, by simp, by simp⟩
  exact ⟨c, hrun, htx, fun tid v hv => hentry tid (by grind) v hv,
    fun tid hnone => hother tid (by grind)⟩

theorem prepareChangeset_ok (hready : CommitReady cs txState) :
    ∃ c, prepareChangeset cs txState = .ok c ∧ Prepared cs txState c := by
  obtain ⟨c₁, hloop₁, h₁⟩ := Changeset.extended_of_loop cs txState.deletes
    (fun dels table old tc => ∃ rows,
      tc = { old with deletes := old.deletes ++ rows } ∧
        rows.map some = dels.keys.map fun rid => table.rows[rid]?)
    (prepareDeletes cs) ⟨0, ∅⟩ (by
      intro c tid dels hdels
      obtain ⟨table, htable, hstored⟩ := hready.deletes tid dels hdels
      obtain ⟨rows, hrows, hmap⟩ := deletedRows_ok dels.keys fun rid hrid =>
        hstored rid (Std.ExtTreeMap.contains_iff_mem.mpr (Std.ExtTreeMap.mem_keys.mp hrid))
      exact ⟨table, _, htable, by simp [prepareDeletes, htable, hrows], rows, rfl, hmap⟩)
  obtain ⟨c₂, hloop₂, h₂⟩ := Changeset.extended_of_loop cs txState.inserts
    (fun ins _ old tc => tc = { old with inserts := old.inserts ++ ins.toList.map Prod.snd })
    (prepareInserts cs) c₁ (by
      intro c tid ins hins
      obtain ⟨table, htable, -⟩ := hready.inserts tid ins hins
      exact ⟨table, _, htable, by simp [prepareInserts, htable], rfl⟩)
  -- before the inserts, an entry holds the deletes of its table
  have hdeleted : ∀ tid dels, txState.deletes[tid]? = some dels → ∃ table tc,
      cs.table tid = some table ∧ c₁.tables[tid]? = some tc ∧
        PreparedTable tid table tc ∅ dels := by
    intro tid dels hdels
    obtain ⟨table, tc, htable, htc, rows, rfl, hmap⟩ := h₁.entry tid dels hdels
    refine ⟨table, _, htable, htc, ⟨?_, ?_, ?_, ?_, ?_⟩⟩ <;>
      simp [Changeset.ensureTableChangeset, hmap]
  have hensure : ∀ tid table, cs.table tid = some table →
      PreparedTable tid table (c₁.ensureTableChangeset tid table.schema) ∅
        (txState.tableDeletes tid) := by
    intro tid table htable
    unfold Changeset.ensureTableChangeset TxState.tableDeletes
    cases hdels : txState.deletes[tid]? with
    | none =>
      rw [h₁.other tid hdels]
      exact ⟨rfl, rfl, rfl, by simp, by simp⟩
    | some dels =>
      obtain ⟨table', tc, htable', htc, hprep⟩ := hdeleted tid dels hdels
      obtain rfl := Option.mem_unique htable htable'
      rw [htc]
      exact hprep
  refine ⟨c₂, by simp [prepareChangeset, hloop₁, andThen, hloop₂], ?_, ?_⟩
  · intro tid tc htc
    unfold TxState.tableInserts
    cases hins : txState.inserts[tid]? with
    | some ins =>
      obtain ⟨table, tc', htable, htc', rfl⟩ := h₂.entry tid ins hins
      have hprep := hensure tid table htable
      obtain rfl := Option.mem_unique htc htc'
      refine ⟨table, htable, hprep.tableID, hprep.tableName, hprep.schema, ?_, hprep.deletes⟩
      simp [hprep.inserts]
    | none =>
      rw [h₂.other tid hins] at htc
      unfold TxState.tableDeletes
      cases hdels : txState.deletes[tid]? with
      | none =>
        rw [h₁.other tid hdels] at htc
        simp at htc
      | some dels =>
        obtain ⟨table, tc', htable, htc', hprep⟩ := hdeleted tid dels hdels
        obtain rfl := Option.mem_unique htc htc'
        exact ⟨table, htable, hprep⟩
  · intro tid hnone
    cases hins : txState.inserts[tid]? with
    | some ins =>
      obtain ⟨_, _, _, htc, _⟩ := h₂.entry tid ins hins
      rw [hnone] at htc
      cases htc
    | none =>
      rw [h₂.other tid hins] at hnone
      cases hdels : txState.deletes[tid]? with
      | some dels =>
        obtain ⟨_, _, _, htc, _⟩ := h₁.entry tid dels hdels
        rw [hnone] at htc
        cases htc
      | none => exact ⟨rfl, rfl⟩

theorem prepared_of_prepareChangeset (hready : CommitReady cs txState) {c c' : Changeset}
    (hprep : prepareChangeset cs txState = .ok c') (hc : c = { c' with txID := c.txID }) :
    Prepared cs txState c := by
  obtain ⟨c₁, hprep₁, h₁⟩ := prepareChangeset_ok hready
  rw [hprep₁, Except.ok.injEq] at hprep
  subst hprep
  have htables : c.tables = c₁.tables := by rw [hc]
  exact ⟨by rw [htables]; exact h₁.entry, by rw [htables]; exact h₁.missing⟩

/-! ## The net effect -/

namespace Changeset

def insertsOf (c : Changeset) (tableID : TableID) : List ProductValue :=
  (c.tables[tableID]?.map (·.inserts)).getD []

def deletesOf (c : Changeset) (tableID : TableID) : List ProductValue :=
  (c.tables[tableID]?.map (·.deletes)).getD []

end Changeset

def Table.Stores (t : Table) (r : ProductValue) : Prop := ∃ rid : RowID, t.rows[rid]? = some r

def Table.SameRows (t t' : Table) : Prop :=
  (∀ r, t.Stores r → ∃ r', t'.Stores r' ∧ r.equal r' = true) ∧
    ∀ r', t'.Stores r' → ∃ r, t.Stores r ∧ r.equal r' = true

/-- Deletes and inserts are the exact difference of two row sets. -/
structure NetEffect (table table' : Table) (inserts deletes : List ProductValue) : Prop where
  deletes_stored : ∀ r ∈ deletes, table.Stores r
  deletes_once : deletes.Pairwise fun r r' => r.equal r' = false
  inserts_not_deleted : ∀ r ∈ inserts, ∀ r' ∈ deletes, r.equal r' = false
  inserts_not_staying : ∀ r ∈ inserts, ∀ r', table.Stores r' → r' ∉ deletes → r.equal r' = false
  inserts_distinct : inserts.Pairwise fun r r' => r.equal r' = false
  rows_after : ∀ r, table'.Stores r ↔ (table.Stores r ∧ r ∉ deletes) ∨ r ∈ inserts
  restored : table.SameRows table' → inserts = [] ∧ deletes = []

variable {tc : TableChangeset} {table' : Table} {next : RowID} {seq : Nat} {r : ProductValue}

theorem PreparedTable.mem_deletes (h : PreparedTable tableID table tc ins dels) :
    r ∈ tc.deletes ↔ ∃ rid : RowID, dels.contains rid = true ∧ table.rows[rid]? = some r := by
  have hmem : r ∈ tc.deletes ↔ some r ∈ tc.deletes.map some := by simp
  rw [hmem, h.deletes, List.mem_map]
  simp only [Std.ExtTreeMap.mem_keys, Std.ExtTreeMap.contains_iff_mem]

theorem PreparedTable.mem_inserts (h : PreparedTable tableID table tc ins dels) :
    r ∈ tc.inserts ↔ ∃ rid : RowID, ins[rid]? = some r := by
  rw [h.inserts, List.mem_map]
  constructor
  · rintro ⟨⟨rid, r'⟩, hmem, rfl⟩
    exact ⟨rid, Std.ExtTreeMap.mem_toList_iff_getElem?_eq_some.mp hmem⟩
  · rintro ⟨rid, hr⟩
    exact ⟨(rid, r), Std.ExtTreeMap.mem_toList_iff_getElem?_eq_some.mpr hr, rfl⟩

private theorem not_equal_of {r' : ProductValue} (h : r.rowClass ≠ r'.rowClass) :
    r.equal r' = false := by
  rw [Bool.eq_false_iff]
  exact fun heq => h (ProductValue.equal_iff.mp heq)

section

variable (h : PreparedTable tableID table tc ins dels) (hinv : table.Inv)
include h hinv

theorem PreparedTable.deletes_pairwise : tc.deletes.Pairwise fun r r' => r.equal r' = false := by
  have hmap : (tc.deletes.map some).Pairwise fun a b : Option ProductValue =>
      ∀ x y, a = some x → b = some y → x.equal y = false := by
    rw [h.deletes, List.pairwise_map]
    refine (Std.ExtTreeMap.nodup_keys (t := dels)).imp ?_
    intro rid rid' hne x y hx hy
    exact not_equal_of fun hclass => hne (hinv.rowID_unique hx hy hclass)
  exact (List.pairwise_map.mp hmap).imp fun hxy => hxy _ _ rfl rfl

theorem PreparedTable.inserts_pairwise (htx : TableTx table ins dels next seq) :
    tc.inserts.Pairwise fun r r' => r.equal r' = false := by
  rw [h.inserts, List.pairwise_map]
  refine List.Pairwise.imp_of_mem ?_ (List.pairwise_map.mp (nodup_fst_toList ins))
  intro e e' he he' hne
  have hr := Std.ExtTreeMap.mem_toList_iff_getElem?_eq_some.mp he
  have hr' := Std.ExtTreeMap.mem_toList_iff_getElem?_eq_some.mp he'
  refine not_equal_of fun hclass => hne ?_
  exact htx.conflictFree e.1 e'.1 e.2 e'.2 (by simp [visible, hr]) (by simp [visible, hr'])
    (TableSchema.conflicts_of_equal hinv.indexed.primaryUnique hclass)

theorem PreparedTable.mem_deletes_iff {rid : RowID} (hr : table.rows[rid]? = some r) :
    r ∈ tc.deletes ↔ dels.contains rid = true := by
  rw [h.mem_deletes]
  constructor
  · rintro ⟨rid', hdel, hr'⟩
    rwa [hinv.rowID_unique hr hr' rfl]
  · exact fun hdel => ⟨rid, hdel, hr⟩

end

theorem netEffect_of_prepared {nextID : Option RowID} {seqVal : Option Nat} (hinv : table.Inv)
    (hcount : table.Counted) (htx : TableTx table ins dels next seq)
    (hprep : PreparedTable tableID table tc ins dels)
    (hcommit : TableCommitted table table' ins dels nextID seqVal)
    (hevent : table.schema.isEvent = false) :
    NetEffect table table' tc.inserts tc.deletes := by
  have hfresh : ∀ r ∈ tc.inserts, ∀ r', table.Stores r' → r.rowClass ≠ r'.rowClass := by
    rintro r hr r' ⟨rid', hr'⟩
    obtain ⟨rid, hr⟩ := hprep.mem_inserts.mp hr
    exact htx.fresh rid rid' r r' hr hr'
  have hstored : ∀ r ∈ tc.deletes, table.Stores r := by
    intro r hr
    obtain ⟨rid, -, hr⟩ := hprep.mem_deletes.mp hr
    exact ⟨rid, hr⟩
  have hafter : ∀ r, table'.Stores r ↔ (table.Stores r ∧ r ∉ tc.deletes) ∨ r ∈ tc.inserts := by
    intro r
    constructor
    · rintro ⟨rid, hr⟩
      rw [hcommit.rows hevent, visible] at hr
      split at hr
      · next r' hr' =>
        cases hr
        exact .inr (hprep.mem_inserts.mpr ⟨rid, hr'⟩)
      · split at hr
        · cases hr
        · next hdel =>
          exact .inl ⟨⟨rid, hr⟩, fun hin => hdel ((hprep.mem_deletes_iff hinv hr).mp hin)⟩
    · rintro (⟨⟨rid, hr⟩, hdel⟩ | hin)
      · refine ⟨rid, ?_⟩
        have hnot : dels.contains rid = false := by
          rw [Bool.eq_false_iff]
          exact fun h => hdel ((hprep.mem_deletes_iff hinv hr).mpr h)
        rw [hcommit.rows hevent, visible, htx.insert_none_of_stored hcount hr]
        simp [hnot, hr]
      · obtain ⟨rid, hr⟩ := hprep.mem_inserts.mp hin
        exact ⟨rid, by simp [hcommit.rows hevent, visible, hr]⟩
  refine ⟨hstored, hprep.deletes_pairwise hinv, ?_, ?_, hprep.inserts_pairwise hinv htx, hafter,
    ?_⟩
  · exact fun r hr r' hr' => not_equal_of (hfresh r hr r' (hstored r' hr'))
  · exact fun r hr r' hr' _ => not_equal_of (hfresh r hr r' hr')
  · rintro ⟨hkept, hno⟩
    constructor
    · rw [List.eq_nil_iff_forall_not_mem]
      intro r hr
      obtain ⟨r₀, hr₀, heq⟩ := hno r ((hafter r).mpr (.inr hr))
      exact hfresh r hr r₀ hr₀ (ProductValue.equal_iff.mp heq).symm
    · rw [List.eq_nil_iff_forall_not_mem]
      intro r hr
      -- a deleted row would have to come back as another stored row or as an insert
      obtain ⟨r', hr', heq⟩ := hkept r (hstored r hr)
      have hclass := ProductValue.equal_iff.mp heq
      rcases (hafter r').mp hr' with ⟨⟨rid', hr'⟩, hdel⟩ | hin
      · obtain ⟨rid, hrid⟩ := hstored r hr
        have hsame := hinv.rowID_unique hrid hr' hclass
        subst hsame
        rw [hrid, Option.some.injEq] at hr'
        exact hdel (hr' ▸ hr)
      · exact hfresh r' hin r (hstored r hr) hclass.symm

theorem TxInv.countersKnown {t : Transaction} (h : TxInv cs t) : t.CountersKnown cs := by
  constructor
  · intro tid next hnext hnone
    simp [(h.unknown tid hnone).2.2.1] at hnext
  · intro tid next hnext hnone
    simp [(h.unknown tid hnone).2.2.2] at hnext

theorem Prepared.tableChanges {c : Changeset} (h : Prepared cs txState c)
    (htable : cs.table tableID = some table) :
    ∃ tc, PreparedTable tableID table tc (txState.tableInserts tableID)
        (txState.tableDeletes tableID) ∧
      c.insertsOf tableID = tc.inserts ∧ c.deletesOf tableID = tc.deletes := by
  unfold Changeset.insertsOf Changeset.deletesOf
  cases htc : c.tables[tableID]? with
  | some tc =>
    obtain ⟨table', htable', hprep⟩ := h.entry tableID tc htc
    obtain rfl := Option.mem_unique htable htable'
    exact ⟨tc, hprep, rfl, rfl⟩
  | none =>
    obtain ⟨hdels, hins⟩ := h.missing tableID htc
    refine ⟨⟨tableID, table.schema.name, table.schema, [], []⟩, ?_, rfl, rfl⟩
    refine ⟨rfl, rfl, rfl, ?_, ?_⟩ <;>
      simp [TxState.tableInserts, TxState.tableDeletes, hdels, hins]

/-- The changeset of a successful commit is the exact net effect on every stored table. -/
theorem changeset_is_net_effect {cs : CommittedState} (hcs : cs.Inv) (ops : List TxOp)
    (txID : TxID) (advanceHorizon : Bool) (validate : Changeset → Option StoreError)
    {c : Changeset}
    (hok : (commitWithValidation cs (Transaction.new.runOps cs ops).1 txID advanceHorizon
      validate).2.2 = .ok c) :
    (∀ tableID table, cs.table tableID = some table → table.schema.isEvent = false →
      ∃ table', (commitWithValidation cs (Transaction.new.runOps cs ops).1 txID advanceHorizon
          validate).1.table tableID = some table' ∧
        NetEffect table table' (c.insertsOf tableID) (c.deletesOf tableID)) ∧
    ((∀ tableID table table', cs.table tableID = some table →
        (commitWithValidation cs (Transaction.new.runOps cs ops).1 txID advanceHorizon
          validate).1.table tableID = some table' →
        (table.schema.isEvent = false → table.SameRows table') ∧
        (table.schema.isEvent = true → c.insertsOf tableID = [])) →
      c.isEmpty = true) := by
  have htx := ((Refines.init hcs).runOps hcs ops).inv
  generalize (Transaction.new.runOps cs ops).1 = t at *
  rcases commitWithValidation_cases (fun tid table htable => (hcs tid table htable).1)
    htx.countersKnown txID advanceHorizon validate with
    ⟨e, hres⟩ | ⟨c', ⟨c₀, hprep, hc'⟩, hready, hcommit, -, hres⟩
  · rw [hres] at hok
    cases hok
  · rw [hres] at hok
    cases hok
    have hprepared := prepared_of_prepareChangeset hready hprep hc'
    generalize hstate : (commitWithValidation cs t txID advanceHorizon validate).1 = cs' at *
    have heffect : ∀ tid table, cs.table tid = some table → table.schema.isEvent = false →
        ∃ table', cs'.table tid = some table' ∧
          NetEffect table table' (c.insertsOf tid) (c.deletesOf tid) := by
      intro tid table htable hevent
      obtain ⟨hinv, hcount⟩ := hcs tid table htable
      obtain ⟨table', htable', htc⟩ := hcommit.tables tid table htable
      obtain ⟨tc, hptable, hins, hdels⟩ := hprepared.tableChanges htable
      rw [hins, hdels]
      exact ⟨table', htable', netEffect_of_prepared hinv hcount (htx.tables tid table htable)
        hptable htc hevent⟩
    refine ⟨heffect, fun hrestored => ?_⟩
    simp only [Changeset.isEmpty, List.all_eq_true, Bool.and_eq_true, List.isEmpty_iff]
    rintro ⟨tid, tc⟩ hmem
    have htc := Std.ExtTreeMap.mem_toList_iff_getElem?_eq_some.mp hmem
    have hins : c.insertsOf tid = tc.inserts := by simp [Changeset.insertsOf, htc]
    have hdels : c.deletesOf tid = tc.deletes := by simp [Changeset.deletesOf, htc]
    obtain ⟨table, htable, hptable⟩ := hprepared.entry tid tc htc
    rw [← hins, ← hdels]
    cases hevent : table.schema.isEvent with
    | false =>
      obtain ⟨table', htable', hnet⟩ := heffect tid table htable hevent
      exact hnet.restored ((hrestored tid table table' htable htable').1 hevent)
    | true =>
      -- nothing is stored in an event table, so nothing was deleted from it
      obtain ⟨table', htable', -⟩ := hcommit.tables tid table htable
      refine ⟨(hrestored tid table table' htable htable').2 hevent, ?_⟩
      rw [hdels, List.eq_nil_iff_forall_not_mem]
      intro r hr
      obtain ⟨rid, -, hrow⟩ := hptable.mem_deletes.mp hr
      rw [(hcs tid table htable).1.rowsOK.event_empty hevent rid] at hrow
      cases hrow

theorem changeset_is_net_effect_example :
    ∃ c, (commitWithValidation (.fresh exampleRegistry)
        (Transaction.new.runOps (.fresh exampleRegistry) exampleOps).1 1 true
        fun _ => none).2.2 = .ok c ∧
      ∀ tableID table, (CommittedState.fresh exampleRegistry).table tableID = some table →
        table.schema.isEvent = false →
        ∃ table', (commitWithValidation (.fresh exampleRegistry)
            (Transaction.new.runOps (.fresh exampleRegistry) exampleOps).1 1 true
            fun _ => none).1.table tableID = some table' ∧
          NetEffect table table' (c.insertsOf tableID) (c.deletesOf tableID) := by
  have hcs := CommittedState.fresh_inv (buildEngine_primaryUnique exampleRegistry_built)
  have hok : (commitWithValidation (.fresh exampleRegistry)
      (Transaction.new.runOps (.fresh exampleRegistry) exampleOps).1 1 true
      fun _ => none).2.2.toOption.isSome = true := by
    decide +kernel
  cases hres : (commitWithValidation (.fresh exampleRegistry)
      (Transaction.new.runOps (.fresh exampleRegistry) exampleOps).1 1 true
      fun _ => none).2.2 with
  | error e =>
    rw [hres] at hok
    cases hok
  | ok c => exact ⟨c, rfl, (changeset_is_net_effect hcs exampleOps 1 true _ hres).1⟩

end Shunter
