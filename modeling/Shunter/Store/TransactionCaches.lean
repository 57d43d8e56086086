import Shunter.Store.Transaction

/-!
# The caches of a transaction mirror its inserts

The uniqueness checks of a transaction read lazily built hash caches.  Here the
caches are shown to hold one entry per pending insert, through every operation
that builds or updates them, so that each check decides the property it is
named after.
-/

namespace Shunter

open Foundation

namespace Transaction

structure SameCore (t t' : Transaction) : Prop where
  tx : t'.tx = t.tx
  state : t'.state = t.state
  txNextRowIDs : t'.txNextRowIDs = t.txNextRowIDs
  txSequences : t'.txSequences = t.txSequences

theorem SameCore.refl (t : Transaction) : SameCore t t := ⟨rfl, rfl, rfl, rfl⟩

theorem SameCore.trans {t t' t'' : Transaction} (h : SameCore t t') (h' : SameCore t' t'') :
    SameCore t t'' :=
  ⟨h'.tx.trans h.tx, h'.state.trans h.state, h'.txNextRowIDs.trans h.txNextRowIDs,
    h'.txSequences.trans h.txSequences⟩

abbrev UniqueMirrors (idx : Index) (entries : BucketMap UInt64 TxUniqueEntry)
    (inserts : GoMap RowID ProductValue) : Prop :=
  entries.Mirrors inserts (fun id row => ⟨id, idx.extractKey row⟩)
    fun row => (idx.extractKey row).hash64

abbrev RowMirrors (entries : BucketMap UInt64 TxRowEntry)
    (inserts : GoMap RowID ProductValue) : Prop :=
  entries.Mirrors inserts TxRowEntry.mk ProductValue.hash64

/-- Every cache that exists mirrors the pending inserts of its table. -/
structure CacheInv (cs : CommittedState) (t : Transaction) : Prop where
  unique : ∀ tableID table, cs.table tableID = some table →
    ∀ (ord : Nat) (idx : Index), table.indexes[ord]? = some idx →
    ∀ entries, (t.tableUniqueIndexes tableID)[ord]? = some entries →
      UniqueMirrors idx entries (t.tx.tableInserts tableID)
  rows : ∀ (tableID : TableID) (entries : BucketMap UInt64 TxRowEntry),
    t.txRowIndexes[tableID]? = some entries → RowMirrors entries (t.tx.tableInserts tableID)

structure CacheStep (cs : CommittedState) (t t' : Transaction) : Prop where
  core : SameCore t t'
  cache : CacheInv cs t'

variable {cs : CommittedState} {t t' : Transaction} {tableID tableID' : TableID} {table : Table}
  {row : ProductValue} {ord ord' : Nat} {idx : Index}

theorem CacheStep.refl (h : CacheInv cs t) : CacheStep cs t t := ⟨.refl t, h⟩

theorem CacheStep.trans {t'' : Transaction} (h : CacheStep cs t t') (h' : CacheStep cs t' t'') :
    CacheStep cs t t'' :=
  ⟨h.core.trans h'.core, h'.cache⟩

theorem new_cacheInv (cs : CommittedState) : CacheInv cs new := by
  constructor
  · intro tableID table _ ord idx _ entries h
    simp [new, tableUniqueIndexes] at h
  · intro tableID entries h
    simp [new] at h

theorem getElem?_setUniqueIndex {entries : BucketMap UInt64 TxUniqueEntry} :
    ((t.setUniqueIndex tableID ord entries).tableUniqueIndexes tableID')[ord']? =
      if tableID = tableID' ∧ ord = ord' then some entries
      else (t.tableUniqueIndexes tableID')[ord']? := by
  simp only [setUniqueIndex, tableUniqueIndexes, get_insert]
  by_cases htable : tableID = tableID'
  · subst htable
    by_cases hord : ord = ord'
    · simp [hord]
    · simp [hord, Std.ExtTreeMap.getElem?_insert]
  · simp [htable]

theorem mem_indexOrdinals : (ord, idx) ∈ indexOrdinals table ↔ table.indexes[ord]? = some idx := by
  simp only [indexOrdinals, List.mem_map, Prod.mk.injEq, Prod.exists]
  constructor
  · rintro ⟨i, o, hmem, rfl, rfl⟩
    exact List.mem_zipIdx_iff_getElem?.mp hmem
  · intro h
    exact ⟨idx, ord, List.mem_zipIdx_iff_getElem?.mpr h, rfl, rfl⟩

theorem indexOrdinals_nodup (table : Table) : ((indexOrdinals table).map Prod.fst).Nodup := by
  have hfst : (indexOrdinals table).map Prod.fst = table.indexes.zipIdx.map Prod.snd := by
    rw [indexOrdinals, List.map_map]
    rfl
  rw [hfst, List.zipIdx_map_snd]
  exact List.nodup_range'

/-! ## Building a cache -/

theorem ensureTxUniqueIndex_spec (h : CacheInv cs t) (htable : cs.table tableID = some table)
    (hidx : table.indexes[ord]? = some idx) :
    CacheStep cs t (t.ensureTxUniqueIndex tableID ord idx).1 ∧
    UniqueMirrors idx (t.ensureTxUniqueIndex tableID ord idx).2 (t.tx.tableInserts tableID) := by
  unfold ensureTxUniqueIndex
  cases hget : (t.tableUniqueIndexes tableID)[ord]? with
  | some entries => exact ⟨.refl h, h.unique tableID table htable ord idx hidx entries hget⟩
  | none =>
    have hmir := BucketMap.mirrors_foldl_push (t.tx.tableInserts tableID)
      (fun id row => (⟨id, idx.extractKey row⟩ : TxUniqueEntry))
      (fun row => (idx.extractKey row).hash64) TxUniqueEntry.rowID fun _ _ => rfl
    refine ⟨⟨⟨rfl, rfl, rfl, rfl⟩, ?_, h.rows⟩, hmir⟩
    intro tid tbl htbl o i hi entries hentries
    rw [getElem?_setUniqueIndex] at hentries
    split at hentries
    · next heq =>
      obtain ⟨rfl, rfl⟩ := heq
      rw [htable] at htbl
      cases htbl
      rw [hidx] at hi
      cases hi
      cases hentries
      exact hmir
    · exact h.unique tid tbl htbl o i hi entries hentries

theorem ensureTxRowIndex_spec (h : CacheInv cs t) (tableID : TableID) :
    CacheStep cs t (t.ensureTxRowIndex tableID).1 ∧
    RowMirrors (t.ensureTxRowIndex tableID).2 (t.tx.tableInserts tableID) := by
  unfold ensureTxRowIndex
  cases hget : t.txRowIndexes[tableID]? with
  | some entries => exact ⟨.refl h, h.rows tableID entries hget⟩
  | none =>
    have hmir := BucketMap.mirrors_foldl_push (t.tx.tableInserts tableID) TxRowEntry.mk
      ProductValue.hash64 TxRowEntry.rowID fun _ _ => rfl
    refine ⟨⟨⟨rfl, rfl, rfl, rfl⟩, h.unique, ?_⟩, hmir⟩
    intro tid entries hentries
    simp only [get_insert] at hentries
    split at hentries
    · next heq =>
      subst heq
      cases hentries
      exact hmir
    · exact h.rows tid entries hentries

/-! ## Updating the caches -/

section Unique

variable (change : Index → BucketMap UInt64 TxUniqueEntry → BucketMap UInt64 TxUniqueEntry)
  (t : Transaction) {l : List (Nat × Index)}

theorem updateUniqueIndexes_core (tableID : TableID) (l : List (Nat × Index)) :
    SameCore t (updateUniqueIndexes tableID change t l) ∧
    (updateUniqueIndexes tableID change t l).txRowIndexes = t.txRowIndexes := by
  induction l generalizing t with
  | nil => exact ⟨.refl t, rfl⟩
  | cons p l ih =>
    simp only [updateUniqueIndexes]
    split
    · exact ih t
    · next entries _ =>
      have hset : SameCore t (t.setUniqueIndex tableID p.1 (change p.2 entries)) :=
        ⟨rfl, rfl, rfl, rfl⟩
      obtain ⟨hcore, hrows⟩ := ih (t.setUniqueIndex tableID p.1 (change p.2 entries))
      exact ⟨hset.trans hcore, hrows⟩

theorem updateUniqueIndexes_other (h : tableID ≠ tableID' ∨ ord ∉ l.map Prod.fst) :
    ((updateUniqueIndexes tableID change t l).tableUniqueIndexes tableID')[ord]? =
      (t.tableUniqueIndexes tableID')[ord]? := by
  induction l generalizing t with
  | nil => rfl
  | cons p l ih =>
    have hl : tableID ≠ tableID' ∨ ord ∉ l.map Prod.fst :=
      h.imp id fun hp hmem => hp (List.mem_cons_of_mem _ hmem)
    simp only [updateUniqueIndexes]
    split
    · exact ih t hl
    · rw [ih _ hl, getElem?_setUniqueIndex, if_neg]
      rintro ⟨htable, hord⟩
      rcases h with h | h
      · exact h htable
      · exact h (by simp [hord])

theorem updateUniqueIndexes_mem (hnodup : (l.map Prod.fst).Nodup) (h : (ord, idx) ∈ l) :
    ((updateUniqueIndexes tableID change t l).tableUniqueIndexes tableID)[ord]? =
      ((t.tableUniqueIndexes tableID)[ord]?).map (change idx) := by
  induction l generalizing t with
  | nil => cases h
  | cons p l ih =>
    simp only [List.map_cons, List.nodup_cons] at hnodup
    simp only [updateUniqueIndexes]
    rcases List.mem_cons.mp h with rfl | h
    · -- the head is the position itself, and the tail does not come back to it
      split
      · next hnone =>
        rw [updateUniqueIndexes_other change t (.inr hnodup.1), hnone]
        rfl
      · next entries hsome =>
        rw [updateUniqueIndexes_other change _ (.inr hnodup.1), getElem?_setUniqueIndex, hsome]
        simp
    · have hne : p.1 ≠ ord := by
        rintro rfl
        exact hnodup.1 (List.mem_map.mpr ⟨_, h, rfl⟩)
      split
      · exact ih t hnodup.2 h
      · rw [ih _ hnodup.2 h, getElem?_setUniqueIndex, if_neg fun hc => hne hc.2]

end Unique

theorem getElem?_updateRowIndex
    (change : BucketMap UInt64 TxRowEntry → BucketMap UInt64 TxRowEntry) :
    (updateRowIndex tableID change t).txRowIndexes[tableID']? =
      if tableID = tableID' then (t.txRowIndexes[tableID']?).map change
      else t.txRowIndexes[tableID']? := by
  unfold updateRowIndex
  cases hget : t.txRowIndexes[tableID]? with
  | none =>
    dsimp only
    split
    · next heq =>
      subst heq
      simp [hget]
    · rfl
  | some entries =>
    simp only [get_insert]
    split
    · next heq =>
      subst heq
      simp [hget]
    · rfl

theorem updateRowIndex_core (tableID : TableID)
    (change : BucketMap UInt64 TxRowEntry → BucketMap UInt64 TxRowEntry) (t : Transaction) :
    SameCore t (updateRowIndex tableID change t) ∧
    (updateRowIndex tableID change t).txUniqueIndexes = t.txUniqueIndexes := by
  unfold updateRowIndex
  split <;> exact ⟨⟨rfl, rfl, rfl, rfl⟩, rfl⟩

theorem trackTxInsert_core (t : Transaction) (tableID : TableID) (id : RowID)
    (row : ProductValue) (table : Table) : SameCore t (t.trackTxInsert tableID id row table) :=
  (updateUniqueIndexes_core _ t tableID _).1.trans (updateRowIndex_core tableID _ _).1

theorem untrackTxInsert_core (t : Transaction) (tableID : TableID) (id : RowID)
    (row : ProductValue) (table : Table) : SameCore t (t.untrackTxInsert tableID id row table) :=
  (updateUniqueIndexes_core _ t tableID _).1.trans (updateRowIndex_core tableID _ _).1

/--
Changing the inserts of one table and every cache of it in step keeps the
caches in order.  The caches of `u`, which are those of `t`, are changed to
those of `t'`.
-/
private theorem cacheInv_update
    {uniqueChange : Index → BucketMap UInt64 TxUniqueEntry → BucketMap UInt64 TxUniqueEntry}
    {rowChange : BucketMap UInt64 TxRowEntry → BucketMap UInt64 TxRowEntry}
    {u u' : Transaction} (h : CacheInv cs t) (htable : cs.table tableID = some table)
    (hunique : u.txUniqueIndexes = t.txUniqueIndexes) (hrow : u.txRowIndexes = t.txRowIndexes)
    (hu' : updateRowIndex tableID rowChange
      (updateUniqueIndexes tableID uniqueChange u (indexOrdinals table)) = u')
    (hunique' : t'.txUniqueIndexes = u'.txUniqueIndexes)
    (hrow' : t'.txRowIndexes = u'.txRowIndexes)
    (hother : ∀ tid, tableID ≠ tid → t'.tx.tableInserts tid = t.tx.tableInserts tid)
    (huniqueChange : ∀ idx entries,
      UniqueMirrors idx entries (t.tx.tableInserts tableID) →
      UniqueMirrors idx (uniqueChange idx entries) (t'.tx.tableInserts tableID))
    (hrowChange : ∀ entries, RowMirrors entries (t.tx.tableInserts tableID) →
      RowMirrors (rowChange entries) (t'.tx.tableInserts tableID)) :
    CacheInv cs t' := by
  subst hu'
  obtain ⟨-, hrows₁⟩ := updateUniqueIndexes_core uniqueChange u tableID (indexOrdinals table)
  generalize hu₁ : updateUniqueIndexes tableID uniqueChange u (indexOrdinals table) = u₁ at *
  obtain ⟨-, hunique₂⟩ := updateRowIndex_core tableID rowChange u₁
  have hold : ∀ tid, u.tableUniqueIndexes tid = t.tableUniqueIndexes tid := by
    intro tid
    simp only [tableUniqueIndexes, hunique]
  constructor
  · intro tid tbl htbl o i hi entries hentries
    have hread : (u₁.tableUniqueIndexes tid)[o]? = some entries := by
      simpa only [tableUniqueIndexes, hunique', hunique₂] using hentries
    by_cases htid : tableID = tid
    · subst htid
      rw [htable] at htbl
      cases htbl
      rw [← hu₁, updateUniqueIndexes_mem uniqueChange u (indexOrdinals_nodup table)
        (mem_indexOrdinals.mpr hi), hold] at hread
      obtain ⟨old, hget, rfl⟩ := Option.map_eq_some_iff.mp hread
      exact huniqueChange i old (h.unique tableID table htable o i hi old hget)
    · rw [← hu₁, updateUniqueIndexes_other uniqueChange u (.inl htid), hold] at hread
      rw [hother tid htid]
      exact h.unique tid tbl htbl o i hi entries hread
  · intro tid entries hentries
    rw [hrow', getElem?_updateRowIndex, hrows₁, hrow] at hentries
    by_cases htid : tableID = tid
    · subst htid
      rw [if_pos rfl] at hentries
      obtain ⟨old, hget, rfl⟩ := Option.map_eq_some_iff.mp hentries
      exact hrowChange old (h.rows tableID old hget)
    · rw [if_neg htid] at hentries
      rw [hother tid htid]
      exact h.rows tid entries hentries

theorem addInsert_spec (row : ProductValue) (h : CacheInv cs t)
    (htable : cs.table tableID = some table) {id : RowID}
    (hid : (t.tx.tableInserts tableID)[id]? = none) :
    CacheStep cs { t with tx := t.tx.addInsert tableID id row }
      (t.addInsert tableID id row table) := by
  have hcore : SameCore { t with tx := t.tx.addInsert tableID id row }
      (t.addInsert tableID id row table) := trackTxInsert_core _ tableID id row table
  have hself : (t.addInsert tableID id row table).tx.tableInserts tableID =
      (t.tx.tableInserts tableID).insert id row := by
    rw [hcore.tx, TxState.tableInserts_addInsert, if_pos rfl]
  refine ⟨hcore, cacheInv_update h htable (u := { t with tx := t.tx.addInsert tableID id row })
    rfl rfl rfl rfl rfl ?_ ?_ ?_⟩
  · intro tid htid
    rw [hcore.tx, TxState.tableInserts_addInsert, if_neg htid]
  · intro idx entries hmir
    rw [hself]
    exact hmir.push TxUniqueEntry.rowID (fun _ _ => rfl) hid
  · intro entries hmir
    rw [hself]
    exact hmir.push TxRowEntry.rowID (fun _ _ => rfl) hid

theorem removeInsert_spec (h : CacheInv cs t) (htable : cs.table tableID = some table)
    {id : RowID} (hid : (t.tx.tableInserts tableID)[id]? = some row) :
    CacheStep cs { t with tx := t.tx.removeInsert tableID id }
      (t.removeInsert tableID id table) := by
  have hread : t.tx.insert tableID id = some row := hid
  have huntrack := untrackTxInsert_core t tableID id row table
  have heq : t.removeInsert tableID id table =
      { t.untrackTxInsert tableID id row table with tx := t.tx.removeInsert tableID id } := by
    unfold removeInsert
    rw [hread]
    simp only [huntrack.tx]
  have hself : (t.tx.removeInsert tableID id).tableInserts tableID =
      (t.tx.tableInserts tableID).erase id := by
    rw [TxState.tableInserts_removeInsert, if_pos rfl]
  rw [heq]
  refine ⟨⟨rfl, huntrack.state, huntrack.txNextRowIDs, huntrack.txSequences⟩,
    cacheInv_update h htable (u := t) rfl rfl rfl rfl rfl ?_ ?_ ?_⟩
  · intro tid htid
    simp only
    rw [TxState.tableInserts_removeInsert, if_neg htid]
  · intro idx entries hmir
    simp only
    rw [hself]
    exact hmir.dropFirst TxUniqueEntry.rowID (fun _ _ => rfl) hid
  · intro entries hmir
    simp only
    rw [hself]
    exact hmir.dropFirst TxRowEntry.rowID (fun _ _ => rfl) hid

/-! ## The checks -/

def PendingRow (t : Transaction) (tableID : TableID) (P : ProductValue → Prop) : Prop :=
  ∃ (id : RowID) (r : ProductValue), (t.tx.tableInserts tableID)[id]? = some r ∧ P r

theorem SameCore.pendingRow (h : SameCore t t') {P : ProductValue → Prop} :
    t'.PendingRow tableID P ↔ t.PendingRow tableID P := by
  simp only [PendingRow, h.tx]

theorem checkTxUnique_spec (row : ProductValue) (h : CacheInv cs t)
    (htable : cs.table tableID = some table)
    (hidx : table.indexes[ord]? = some idx) :
    CacheStep cs t (t.checkTxUnique tableID table ord idx (idx.extractKey row)).1 ∧
    ((t.checkTxUnique tableID table ord idx (idx.extractKey row)).2 ≠ none ↔
      t.PendingRow tableID fun r => TableSchema.SameKey idx.schema r row) := by
  obtain ⟨hstep, hmir⟩ := ensureTxUniqueIndex_spec h htable hidx
  unfold checkTxUnique
  generalize t.ensureTxUniqueIndex tableID ord idx = res at *
  obtain ⟨t₁, entries⟩ := res
  have hany : ((entries.bucket (idx.extractKey row).hash64).any
      fun entry => (idx.extractKey row).equal entry.key) = true ↔
      t.PendingRow tableID fun r => TableSchema.SameKey idx.schema r row := by
    simp only [List.any_eq_true, hmir.mem_bucket, PendingRow, IndexKey.equal_iff,
      TableSchema.SameKey, IndexKey.compare_eq_iff]
    constructor
    · rintro ⟨-, ⟨id, r, hr, rfl, -⟩, heq⟩
      exact ⟨id, r, hr, heq.symm⟩
    · rintro ⟨id, r, hr, heq⟩
      exact ⟨_, ⟨id, r, hr, rfl, ProductValue.hash64_congr heq⟩, heq.symm⟩
  dsimp only
  split
  · next hhit => exact ⟨hstep, by simp [hany.mp hhit]⟩
  · next hmiss => exact ⟨hstep, by simp [← hany, hmiss]⟩

theorem hasTxDuplicateRow_spec (h : CacheInv cs t) (tableID : TableID) (row : ProductValue) :
    CacheStep cs t (t.hasTxDuplicateRow tableID row).1 ∧
    ((t.hasTxDuplicateRow tableID row).2 = true ↔
      t.PendingRow tableID fun r => r.equal row = true) := by
  obtain ⟨hstep, hmir⟩ := ensureTxRowIndex_spec h tableID
  unfold hasTxDuplicateRow
  generalize t.ensureTxRowIndex tableID = res at *
  obtain ⟨t₁, entries⟩ := res
  refine ⟨hstep, ?_⟩
  simp only [List.any_eq_true, hmir.mem_bucket, PendingRow]
  constructor
  · rintro ⟨-, ⟨id, r, hr, rfl, -⟩, heq⟩
    exact ⟨id, r, hr, heq⟩
  · rintro ⟨id, r, hr, heq⟩
    exact ⟨_, ⟨id, r, hr, rfl, ProductValue.hash64_congr (ProductValue.equal_iff.mp heq)⟩, heq⟩

theorem checkTxUniques_spec (row : ProductValue) (check : Index → IndexKey → Option StoreError)
    (h : CacheInv cs t) (htable : cs.table tableID = some table) {l : List (Nat × Index)}
    (hl : ∀ p ∈ l, table.indexes[p.1]? = some p.2) :
    CacheStep cs t (t.checkTxUniques tableID table row check l).1 ∧
    ((t.checkTxUniques tableID table row check l).2 ≠ none ↔
      ∃ p ∈ l, p.2.schema.unique = true ∧
        (check p.2 (p.2.extractKey row) ≠ none ∨
          t.PendingRow tableID fun r => TableSchema.SameKey p.2.schema r row)) := by
  induction l generalizing t with
  | nil => exact ⟨.refl h, by simp [checkTxUniques]⟩
  | cons p l ih =>
    obtain ⟨ord, idx⟩ := p
    have hl' : ∀ p ∈ l, table.indexes[p.1]? = some p.2 :=
      fun p hp => hl p (List.mem_cons_of_mem _ hp)
    simp only [checkTxUniques]
    by_cases hu : idx.schema.unique = true
    · simp only [hu, Bool.not_true, Bool.false_eq_true, if_false]
      cases hcheck : check idx (idx.extractKey row) with
      | some e => exact ⟨.refl h, by simp [hu, hcheck]⟩
      | none =>
        obtain ⟨hstep, hiff⟩ := checkTxUnique_spec row h htable
          (hl (ord, idx) (by simp))
        generalize t.checkTxUnique tableID table ord idx (idx.extractKey row) = res at *
        obtain ⟨t₁, err⟩ := res
        cases err with
        | some e => exact ⟨hstep, by simp [hu, hiff.mp (by simp)]⟩
        | none =>
          have hfree : ¬ t.PendingRow tableID
              fun r => TableSchema.SameKey idx.schema r row := by
            rw [← hiff]
            simp
          obtain ⟨hstep', hiff'⟩ := ih hstep.cache hl'
          refine ⟨hstep.trans hstep', ?_⟩
          simp only [hiff', hstep.core.pendingRow, List.mem_cons, exists_eq_or_imp, hu,
            hcheck, hfree, ne_eq, not_true, or_self, and_false, false_or]
    · obtain ⟨hstep, hiff⟩ := ih h hl'
      rw [Bool.not_eq_true] at hu
      simp only [hu, Bool.not_false, if_true]
      refine ⟨hstep, ?_⟩
      simp [hiff, hu]

theorem conflicts_iff_indexes (hind : table.Indexed) {r : ProductValue} :
    table.schema.Conflicts r row ↔
      (∃ p ∈ indexOrdinals table, p.2.schema.unique = true ∧
        TableSchema.SameKey p.2.schema r row) ∨
      (table.rowHashIndex ≠ none ∧ r.equal row = true) := by
  have hhash : table.rowHashIndex ≠ none ↔ table.schema.primaryIndex = none := by
    rw [ne_eq, hind.hash_none_iff]
    simp
  rw [hhash, TableSchema.Conflicts]
  refine or_congr_left ⟨?_, ?_⟩
  · rintro ⟨is, his, hu, hk⟩
    obtain ⟨idx, hidx, rfl⟩ := hind.exists_index his
    obtain ⟨ord, hord⟩ := List.mem_iff_getElem?.mp hidx
    exact ⟨(ord, idx), mem_indexOrdinals.mpr hord, hu, hk⟩
  · rintro ⟨⟨ord, idx⟩, hmem, hu, hk⟩
    have hidx := List.mem_iff_getElem?.mpr ⟨ord, mem_indexOrdinals.mp hmem⟩
    exact ⟨idx.schema, hind.index_schema_mem hidx, hu, hk⟩

theorem exists_conflict_iff (hind : table.Indexed) {Q : RowID → ProductValue → Prop} :
    (∃ id r, Q id r ∧ table.schema.Conflicts r row) ↔
      (∃ p ∈ indexOrdinals table, p.2.schema.unique = true ∧
        ∃ id r, Q id r ∧ TableSchema.SameKey p.2.schema r row) ∨
      (table.rowHashIndex ≠ none ∧ ∃ id r, Q id r ∧ r.equal row = true) := by
  simp only [conflicts_iff_indexes hind]
  constructor
  · rintro ⟨id, r, hr, ⟨p, hmem, hu, hk⟩ | ⟨hp, heq⟩⟩
    · exact .inl ⟨p, hmem, hu, id, r, hr, hk⟩
    · exact .inr ⟨hp, id, r, hr, heq⟩
  · rintro (⟨p, hmem, hu, id, r, hr, hk⟩ | ⟨hp, id, r, hr, heq⟩)
    · exact ⟨id, r, hr, .inl ⟨p, hmem, hu, hk⟩⟩
    · exact ⟨id, r, hr, .inr ⟨hp, heq⟩⟩

theorem pendingConflict_iff (hind : table.Indexed) :
    t.PendingRow tableID (fun r => table.schema.Conflicts r row) ↔
      (∃ p ∈ indexOrdinals table, p.2.schema.unique = true ∧
        t.PendingRow tableID fun r => TableSchema.SameKey p.2.schema r row) ∨
      (table.rowHashIndex ≠ none ∧ t.PendingRow tableID fun r => r.equal row = true) :=
  exists_conflict_iff hind

theorem checkTxInsertConflicts_spec (row : ProductValue) (h : CacheInv cs t)
    (htable : cs.table tableID = some table) (hind : table.Indexed) :
    CacheStep cs t (t.checkTxInsertConflicts tableID table row).1 ∧
    ((t.checkTxInsertConflicts tableID table row).2 ≠ none ↔
      t.PendingRow tableID fun r => table.schema.Conflicts r row) := by
  rw [pendingConflict_iff hind]
  obtain ⟨hstep, hiff⟩ := checkTxUniques_spec row (fun _ _ => none) h htable
    (l := indexOrdinals table) fun p hp => mem_indexOrdinals.mp hp
  simp only [ne_eq, not_true, false_or] at hiff
  unfold checkTxInsertConflicts
  generalize t.checkTxUniques tableID table row (fun _ _ => none) (indexOrdinals table) = res at *
  obtain ⟨t₁, err⟩ := res
  cases err with
  | some e => exact ⟨hstep, by simp [hiff.mp (by simp)]⟩
  | none =>
    have hfree := mt hiff.mpr (by simp)
    cases hh : table.rowHashIndex with
    | none => exact ⟨hstep, by simpa using hfree⟩
    | some hashes =>
      obtain ⟨hstep', hiff'⟩ := hasTxDuplicateRow_spec hstep.cache tableID row
      dsimp only
      generalize t₁.hasTxDuplicateRow tableID row = res at *
      obtain ⟨t₂, dup⟩ := res
      rw [hstep.core.pendingRow] at hiff'
      cases dup with
      | true => exact ⟨hstep.trans hstep', by simp [hiff'.mp rfl]⟩
      | false =>
        refine ⟨hstep.trans hstep', ?_⟩
        simp [hfree, ← hiff']

end Transaction

end Shunter
