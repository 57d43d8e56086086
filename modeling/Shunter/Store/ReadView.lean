import Shunter.Commitlog.StateRuns

/-!
# Reads of a committed snapshot

What a reader of the committed state sees: the rows of a table, and the rows
that an index finds.  An index finds exactly the rows that a scan would select.
-/

namespace Shunter

namespace CommittedState

variable (cs : CommittedState)

def tableScan (tableID : TableID) : List (RowID × ProductValue) :=
  match cs.table tableID with
  | none => []
  | some table => table.scan

def indexSeek (tableID : TableID) (indexID : IndexID) (key : IndexKey) : List RowID :=
  match StateView.lookupIndex cs tableID indexID with
  | none => []
  | some (_, idx) => idx.btree.seek key

def getRow (tableID : TableID) (rowID : RowID) : Option ProductValue :=
  match cs.table tableID with
  | none => none
  | some table => table.rowView rowID

def rowCount (tableID : TableID) : Nat :=
  match cs.table tableID with
  | none => 0
  | some table => table.rows.size

def indexRange (tableID : TableID) (indexID : IndexID) (lower upper : Bound) :
    List ProductValue :=
  match StateView.lookupIndex cs tableID indexID with
  | none => []
  | some (table, idx) => (idx.btree.collectBounds lower upper).filterMap table.rowView

def tableRows (tableID : TableID) : List ProductValue := (cs.tableScan tableID).map Prod.snd

def seekRows (tableID : TableID) (indexID : IndexID) (key : IndexKey) : List ProductValue :=
  (cs.indexSeek tableID indexID key).filterMap (cs.getRow tableID)

variable {cs} {tableID : TableID}

theorem length_tableRows : (cs.tableRows tableID).length = cs.rowCount tableID := by
  unfold tableRows tableScan rowCount
  split
  · rfl
  · rw [List.length_map, Table.scan, Std.ExtTreeMap.length_toList]

end CommittedState

/-- Row identifiers that a property of the rows selects give the rows that a scan selects. -/
theorem Table.rows_of_ids {table : Table} {ids : List RowID} {p : ProductValue → Bool}
    (hnodup : ids.Nodup)
    (hids : ∀ rid, rid ∈ ids ↔ ∃ row, table.rows[rid]? = some row ∧ p row = true) :
    (ids.filterMap table.rowView).Perm ((table.scan.map Prod.snd).filter p) := by
  have hpairs : (ids.filterMap fun rid => (table.rowView rid).map fun row => (rid, row)).Perm
      (table.scan.filter fun e => p e.2) := by
    rw [List.perm_ext_iff_of_nodup]
    · rintro ⟨rid, row⟩
      simp only [List.mem_filterMap, List.mem_filter, hids, Table.scan, Table.rowView,
        Std.ExtTreeMap.mem_toList_iff_getElem?_eq_some, Option.map_eq_some_iff, Prod.mk.injEq]
      constructor
      · rintro ⟨_, ⟨row', hrow', hp⟩, row, hrow, rfl, rfl⟩
        rw [hrow, Option.some.injEq] at hrow'
        exact ⟨hrow, hrow' ▸ hp⟩
      · rintro ⟨hrow, hp⟩
        exact ⟨rid, ⟨row, hrow, hp⟩, row, hrow, rfl, rfl⟩
    · apply hnodup.filterMap
      intro rid rid' e he he'
      obtain ⟨_, _, rfl⟩ := Option.map_eq_some_iff.mp he
      obtain ⟨_, _, heq⟩ := Option.map_eq_some_iff.mp he'
      exact (congrArg Prod.fst heq).symm
    · apply List.Nodup.filter
      apply List.Nodup.of_map Prod.fst
      rw [Table.scan, Std.ExtTreeMap.map_fst_toList_eq_keys]
      exact Std.ExtTreeMap.nodup_keys
  have hsnd := hpairs.map Prod.snd
  rw [List.map_filterMap] at hsnd
  rw [List.filter_map]
  simpa [Function.comp_def] using hsnd

namespace CommittedState

variable {cs : CommittedState} {tableID : TableID} {table : Table}

theorem seekRows_perm (hcs : cs.Inv) {indexID : IndexID} {idx : Index}
    (hidx : StateView.lookupIndex cs tableID indexID = some (table, idx)) (key : IndexKey) :
    (cs.seekRows tableID indexID key).Perm
      ((cs.tableRows tableID).filter fun row => (idx.extractKey row).equal key) := by
  have htable := (StateView.of_lookupIndex hidx).1
  have hmirrors := StateView.mirrors_of_lookupIndex hcs hidx
  have hids : ∀ rid, rid ∈ idx.btree.rowIDs key ↔
      ∃ row, table.rows[rid]? = some row ∧ (idx.extractKey row).equal key = true := by
    simp [hmirrors.mem_rowIDs, IndexKey.equal]
  have hrows := Table.rows_of_ids (hmirrors.rowIDs_nodup key) hids
  have hget : cs.getRow tableID = table.rowView := by
    funext rid
    rw [getRow, htable]
  simpa [seekRows, indexSeek, BTreeIndex.seek, hidx, hget, tableRows, tableScan, htable] using hrows

theorem indexRange_perm (hcs : cs.Inv) {indexID : IndexID} {idx : Index}
    (hidx : StateView.lookupIndex cs tableID indexID = some (table, idx)) (lower upper : Bound) :
    (cs.indexRange tableID indexID lower upper).Perm
      ((cs.tableRows tableID).filter fun row =>
        matchesLowerBound (idx.extractKey row) lower &&
          matchesUpperBound (idx.extractKey row) upper) := by
  have htable := (StateView.of_lookupIndex hidx).1
  have hmirrors := StateView.mirrors_of_lookupIndex hcs hidx
  have hids : ∀ rid, rid ∈ idx.btree.collectBounds lower upper ↔
      ∃ row, table.rows[rid]? = some row ∧ (matchesLowerBound (idx.extractKey row) lower &&
        matchesUpperBound (idx.extractKey row) upper) = true := by
    simp only [hmirrors.mem_collectBounds, Bool.and_eq_true, implies_true]
  have hnodup := hmirrors.mappings_nodup.sublist
    (BTreeIndex.collectBounds_sublist hmirrors.inv lower upper)
  have hrows := Table.rows_of_ids hnodup hids
  simpa [indexRange, hidx, tableRows, tableScan, htable] using hrows

theorem mem_tableRows (htable : cs.table tableID = some table) {row : ProductValue} :
    row ∈ cs.tableRows tableID ↔ table.Stores row := by
  simp [tableRows, tableScan, htable, Table.scan, Table.Stores,
    Std.ExtTreeMap.mem_toList_iff_getElem?_eq_some]

theorem tableRows_unknown (htable : cs.table tableID = none) : cs.tableRows tableID = [] := by
  simp [tableRows, tableScan, htable]

section

variable (hcs : cs.Inv)
include hcs

theorem length_of_mem_tableRows (htable : cs.table tableID = some table) {row : ProductValue}
    (hrow : row ∈ cs.tableRows tableID) : row.length = table.schema.columns.length := by
  obtain ⟨rid, hrow⟩ := (mem_tableRows htable).mp hrow
  exact length_of_validateRow ((hcs tableID table htable).1.rowsOK.valid rid row hrow)

theorem tableRows_pairwise (tableID : TableID) :
    (cs.tableRows tableID).Pairwise fun r s => r.rowClass ≠ s.rowClass := by
  unfold tableRows tableScan
  split
  · exact .nil
  · next table htable =>
    have hinv := (hcs tableID table htable).1
    rw [List.pairwise_map]
    have hkeys : table.scan.Pairwise fun e e' => e.1 ≠ e'.1 :=
      Std.ExtTreeMap.distinct_keys_toList.imp fun h heq => h (Std.compare_eq_iff_eq.mpr heq)
    refine hkeys.imp_of_mem fun he he' hne heq => hne ?_
    rw [Table.scan, Std.ExtTreeMap.mem_toList_iff_getElem?_eq_some] at he he'
    exact hinv.rowsOK.conflictFree _ _ _ _ he he'
      (TableSchema.conflicts_of_equal hinv.indexed.primaryUnique heq)

theorem tableRows_nodup (tableID : TableID) : (cs.tableRows tableID).Nodup :=
  (tableRows_pairwise hcs tableID).imp fun h heq => h (by rw [heq])

/-- Row identifiers are below the next one, so there are at most that many rows. -/
theorem rowCount_le_nextID (htable : cs.table tableID = some table) :
    cs.rowCount tableID ≤ table.nextID := by
  have hcounted := (hcs tableID table htable).2
  have hsub : table.rows.keys ⊆ List.range table.nextID := by
    intro rid hrid
    rw [Std.ExtTreeMap.mem_keys, ← Std.ExtTreeMap.isSome_getElem?_iff_mem] at hrid
    obtain ⟨row, hrow⟩ := Option.isSome_iff_exists.mp hrid
    exact List.mem_range.mpr (hcounted.rowID_lt rid row hrow).2
  have hlen := (List.subperm_of_subset Std.ExtTreeMap.nodup_keys hsub).length_le
  rw [Std.ExtTreeMap.length_keys, List.length_range] at hlen
  simpa [rowCount, htable] using hlen

theorem nextID_lt (htable : cs.table tableID = some table) : (table.nextID : Nat) < 2 ^ 64 :=
  Nat.lt_succ_of_le (hcs tableID table htable).2.nextID_le

theorem rowCount_lt (tableID : TableID) : cs.rowCount tableID < 2 ^ 64 := by
  cases htable : cs.table tableID with
  | none =>
    simp [rowCount, htable]
  | some table => exact (rowCount_le_nextID hcs htable).trans_lt (nextID_lt hcs htable)

end

end CommittedState

def CommittedState.stayingRows (cs : CommittedState) (c : Changeset) (tableID : TableID) :
    List ProductValue :=
  (cs.tableRows tableID).filter (· ∉ c.deletesOf tableID)

section

variable {cs cs' : CommittedState} {c : Changeset} (h : StateCommitted cs cs' c) {tableID : TableID}
include h

theorem StateCommitted.tables_unknown (htable : cs.table tableID = none) :
    c.tables[tableID]? = none := by
  cases htc : c.tables[tableID]? with
  | none => rfl
  | some tc => exact absurd htable (h.known tableID tc htc)

section

variable (hcs : cs.Inv)
  (hstored : ∀ table, cs.table tableID = some table → table.schema.isEvent = false)
include hcs hstored

theorem StateCommitted.tableRows :
    (cs.tableRows tableID).Perm (cs.stayingRows c tableID ++ c.deletesOf tableID) ∧
      (cs'.tableRows tableID).Perm (cs.stayingRows c tableID ++ c.insertsOf tableID) := by
  cases htable : cs.table tableID with
  | none =>
    have hnone := h.tables_unknown htable
    simp [CommittedState.stayingRows, CommittedState.tableRows_unknown htable,
      Changeset.insertsOf, Changeset.deletesOf, hnone,
      CommittedState.tableRows_unknown (h.unknown tableID htable)]
  | some table =>
    obtain ⟨table', htable', hlive⟩ := h.stored tableID table htable (hstored table htable)
    have hnet := hlive.net
    have hdistinct : ∀ {rows : List ProductValue},
        rows.Pairwise (fun r r' => r.equal r' = false) → rows.Nodup := by
      refine fun hrows => hrows.imp fun {r r'} hne heq => ?_
      rw [heq, ProductValue.equal_iff.mpr rfl] at hne
      cases hne
    have hstay : ∀ r, r ∈ cs.stayingRows c tableID ↔
        table.Stores r ∧ r ∉ c.deletesOf tableID := by
      intro r
      rw [CommittedState.stayingRows, List.mem_filter, CommittedState.mem_tableRows htable,
        decide_eq_true_iff]
    have hnodup : (cs.stayingRows c tableID).Nodup :=
      (CommittedState.tableRows_nodup hcs tableID).filter _
    constructor
    · rw [List.perm_ext_iff_of_nodup (CommittedState.tableRows_nodup hcs tableID)]
      · intro r
        rw [List.mem_append, hstay, CommittedState.mem_tableRows htable]
        have hdel := hnet.deletes_stored r
        tauto
      · refine hnodup.append (hdistinct hnet.deletes_once) fun r hr hr' => ?_
        exact ((hstay r).mp hr).2 hr'
    · rw [List.perm_ext_iff_of_nodup (CommittedState.tableRows_nodup (h.inv hcs) tableID)]
      · intro r
        rw [List.mem_append, hstay, CommittedState.mem_tableRows htable', hnet.rows_after]
      · refine hnodup.append (hdistinct hnet.inserts_distinct) fun r hr hr' => ?_
        obtain ⟨hr, hkept⟩ := (hstay r).mp hr
        have hne := hnet.inserts_not_staying r hr' r hr hkept
        rw [ProductValue.equal_iff.mpr rfl] at hne
        cases hne

theorem StateCommitted.rowCount_add_lt :
    cs.rowCount tableID + (c.insertsOf tableID).length < 2 ^ 64 := by
  cases htable : cs.table tableID with
  | none =>
    have hnone := h.tables_unknown htable
    simp [CommittedState.rowCount, htable, Changeset.insertsOf, hnone]
  | some table =>
    obtain ⟨table', htable', hlive⟩ := h.stored tableID table htable (hstored table htable)
    calc cs.rowCount tableID + (c.insertsOf tableID).length
        ≤ table.nextID + (c.insertsOf tableID).length :=
          Nat.add_le_add_right (CommittedState.rowCount_le_nextID hcs htable) _
      _ ≤ table'.nextID := hlive.room
      _ < 2 ^ 64 := CommittedState.nextID_lt (h.inv hcs) htable'

end

end

/-- In every state a run reaches, an index finds the rows that a scan of the table selects. -/
theorem index_reads_agree_in_every_run {reg : SchemaRegistry}
    (hreg : ∀ ts ∈ reg.tables, ts.PrimaryUnique) (steps : List (EngineStep reg))
    {cs : CommittedState} (hrun : ((Engine.start reg).run steps).state = cs) {tableID : TableID}
    {indexID : IndexID} {table : Table} {idx : Index}
    (hidx : StateView.lookupIndex cs tableID indexID = some (table, idx)) :
    (∀ lower upper, (cs.indexRange tableID indexID lower upper).Perm
      ((cs.tableRows tableID).filter fun row => matchesLowerBound (idx.extractKey row) lower &&
        matchesUpperBound (idx.extractKey row) upper)) ∧
    ∀ key, (cs.seekRows tableID indexID key).Perm
      ((cs.tableRows tableID).filter fun row => (idx.extractKey row).equal key) := by
  have hcs : cs.Inv := hrun ▸ (Engine.run_inv hreg (Engine.start_inv hreg) steps).state
  exact ⟨CommittedState.indexRange_perm hcs hidx, CommittedState.seekRows_perm hcs hidx⟩

def exampleState : CommittedState := ((Engine.start exampleRegistry).run exampleSteps).state

theorem index_reads_agree_in_every_run_example :
    ∃ table idx, StateView.lookupIndex exampleState 0 0 = some (table, idx) ∧
      ∀ key, (exampleState.seekRows 0 0 key).Perm
        ((exampleState.tableRows 0).filter fun row => (idx.extractKey row).equal key) := by
  have hsome : (StateView.lookupIndex exampleState 0 0).isSome = true := by decide +kernel
  obtain ⟨⟨table, idx⟩, hidx⟩ := Option.isSome_iff_exists.mp hsome
  exact ⟨table, idx, hidx, (index_reads_agree_in_every_run
    (buildEngine_primaryUnique exampleRegistry_built) exampleSteps rfl hidx).2⟩

end Shunter
