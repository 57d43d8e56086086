import Shunter.Store.TransactionInvariant

/-!
# Reads agree with the visible rows

Scans and index reads of a view are the rows `getRow` shows, each once, and
restricted to the keys asked for.
-/

namespace Shunter

open Foundation

namespace BTreeIndex

theorem collectBounds_sublist {b : BTreeIndex} (h : b.Inv) (low high : Bound) :
    (b.collectBounds low high).Sublist ((Foundation.mappings b.entries).map Prod.snd) := by
  have hvalues : (Foundation.mappings b.entries).map Prod.snd = b.entries.flatMap (·.values) := by
    simp [Foundation.mappings, List.map_flatMap, Function.comp_def]
  rw [collectBounds_eq h, hvalues]
  exact List.filter_sublist.flatMap _

end BTreeIndex

theorem Index.Mirrors.mem_collectBounds {idx : Index} {rows : GoMap RowID ProductValue}
    (h : idx.Mirrors rows) {lower upper : Bound} {rid : RowID} :
    rid ∈ idx.btree.collectBounds lower upper ↔
      ∃ row, rows[rid]? = some row ∧ matchesLowerBound (idx.extractKey row) lower = true ∧
        matchesUpperBound (idx.extractKey row) upper = true := by
  rw [BTreeIndex.mem_collectBounds h.inv]
  simp only [h.mem_rowIDs]
  constructor
  · rintro ⟨key, ⟨row, hrow, hkey⟩, hlower, hupper⟩
    rw [← matchesLowerBound_congr hkey] at hlower
    rw [← matchesUpperBound_congr hkey] at hupper
    exact ⟨row, hrow, hlower, hupper⟩
  · rintro ⟨row, hrow, hlower, hupper⟩
    exact ⟨idx.extractKey row, ⟨row, hrow, Std.ReflCmp.compare_self⟩, hlower, hupper⟩

namespace StateView

variable {cs : CommittedState} {t : Transaction} {tableID : TableID} {table : Table} {idx : Index}
  {indexID : IndexID}

theorem of_lookupIndex (hidx : lookupIndex cs tableID indexID = some (table, idx)) :
    cs.table tableID = some table ∧ idx ∈ table.indexes := by
  unfold lookupIndex at hidx
  split at hidx
  · cases hidx
  · next tbl htbl =>
    obtain ⟨i, hi, heq⟩ := Option.map_eq_some_iff.mp hidx
    cases heq
    exact ⟨htbl, List.mem_of_find?_eq_some hi⟩

theorem mirrors_of_lookupIndex (hcs : cs.Inv)
    (hidx : lookupIndex cs tableID indexID = some (table, idx)) : idx.Mirrors table.rows := by
  obtain ⟨htable, hmem⟩ := of_lookupIndex hidx
  exact (hcs tableID table htable).1.indexed.mirrors idx hmem

theorem getRow_unknown (h : TxInv cs t) (htable : cs.table tableID = none) (rid : RowID) :
    getRow cs t.tx tableID rid = none := by
  obtain ⟨hins, -⟩ := h.unknown tableID htable
  simp [getRow, TxState.insert, hins, htable]

variable {rid : RowID} {committedIDs : Index → List RowID}

section

variable (hcs : cs.Inv) (h : TxInv cs t)
include hcs h

theorem getRow_eq_some_iff (htable : cs.table tableID = some table) {r : ProductValue} :
    getRow cs t.tx tableID rid = some r ↔
      (t.tx.isDeleted tableID rid = false ∧ table.rows[rid]? = some r) ∨
        (t.tx.tableInserts tableID)[rid]? = some r := by
  have hcount := (hcs tableID table htable).2
  have htx := h.tables tableID table htable
  rw [getRow_eq_visible htable]
  unfold visible
  cases hins : (t.tx.tableInserts tableID)[rid]? with
  | some r' => simp [htx.disjoint hcount rid r' hins]
  | none =>
    change (if t.tx.isDeleted tableID rid = true then none else table.rows[rid]?) = some r ↔ _
    cases t.tx.isDeleted tableID rid <;> simp

theorem mem_scanTable {r : ProductValue} :
    (rid, r) ∈ scanTable cs t.tx tableID ↔ getRow cs t.tx tableID rid = some r := by
  cases htable : cs.table tableID with
  | none =>
    obtain ⟨hins, -⟩ := h.unknown tableID htable
    simp [scanTable, htable, hins, getRow_unknown h htable]
  | some table =>
    rw [getRow_eq_some_iff hcs h htable]
    simp only [scanTable, htable, List.mem_append, List.mem_filter, Table.scan,
      Std.ExtTreeMap.mem_toList_iff_getElem?_eq_some, Bool.not_eq_true']
    tauto

theorem scanTable_nodup (tableID : TableID) :
    ((scanTable cs t.tx tableID).map Prod.fst).Nodup := by
  have hkeys : ∀ m : GoMap RowID ProductValue, (m.toList.map Prod.fst).Nodup := by
    intro m
    rw [Std.ExtTreeMap.map_fst_toList_eq_keys]
    exact Std.ExtTreeMap.nodup_keys
  cases htable : cs.table tableID with
  | none =>
    simp only [scanTable, htable, List.nil_append]
    exact hkeys _
  | some table =>
    have hcount := (hcs tableID table htable).2
    have htx := h.tables tableID table htable
    simp only [scanTable, htable, List.map_append]
    refine List.nodup_append.mpr ⟨?_, hkeys _, ?_⟩
    · exact (hkeys table.rows).sublist (List.filter_sublist.map Prod.fst)
    · rintro a ha b hb rfl
      obtain ⟨⟨rid, r⟩, hr, rfl⟩ := List.mem_map.mp ha
      obtain ⟨⟨rid', r'⟩, hr', heq⟩ := List.mem_map.mp hb
      simp only at heq
      subst heq
      have hrow := Std.ExtTreeMap.mem_toList_iff_getElem?_eq_some.mp (List.mem_filter.mp hr).1
      have hrow' := Std.ExtTreeMap.mem_toList_iff_getElem?_eq_some.mp hr'
      rw [htx.disjoint hcount rid' r' hrow'] at hrow
      cases hrow

/--
An index read is correct when the committed part and the match on pending rows
select by the same property `P` of a row.
-/
theorem mem_seekIndexRows {txMatch : Index → ProductValue → Bool} {P : ProductValue → Prop}
    (hidx : lookupIndex cs tableID indexID = some (table, idx))
    (hcommitted : ∀ rid, rid ∈ committedIDs idx ↔ ∃ r, table.rows[rid]? = some r ∧ P r)
    (hmatch : ∀ r, txMatch idx r = true ↔ P r) :
    rid ∈ seekIndexRows cs t.tx tableID indexID committedIDs txMatch ↔
      ∃ r, getRow cs t.tx tableID rid = some r ∧ P r := by
  have htable := (of_lookupIndex hidx).1
  simp only [getRow_eq_some_iff hcs h htable, seekIndexRows, hidx, List.mem_append,
    List.mem_filter, List.mem_map, hcommitted, hmatch, Bool.and_eq_true, Bool.not_eq_true',
    Std.ExtTreeMap.mem_toList_iff_getElem?_eq_some, Prod.exists, Table.rowView]
  constructor
  · rintro (⟨⟨r, hr, hp⟩, hdel, -⟩ | ⟨rid', r, ⟨hr, hp⟩, rfl⟩)
    · exact ⟨r, .inl ⟨hdel, hr⟩, hp⟩
    · exact ⟨r, .inr hr, hp⟩
  · rintro ⟨r, ⟨hdel, hr⟩ | hr, hp⟩
    · exact .inl ⟨⟨r, hr, hp⟩, hdel, by simp [hr]⟩
    · exact .inr ⟨rid, r, ⟨hr, hp⟩, rfl⟩

theorem seekIndexRows_nodup (txMatch : Index → ProductValue → Bool)
    (hidx : lookupIndex cs tableID indexID = some (table, idx))
    (hnodup : (committedIDs idx).Nodup) :
    (seekIndexRows cs t.tx tableID indexID committedIDs txMatch).Nodup := by
  have htable := (of_lookupIndex hidx).1
  have hcount := (hcs tableID table htable).2
  have htx := h.tables tableID table htable
  simp only [seekIndexRows, hidx]
  refine List.nodup_append.mpr ⟨hnodup.filter _, ?_, ?_⟩
  · refine List.Nodup.sublist (List.filter_sublist.map Prod.fst) ?_
    rw [Std.ExtTreeMap.map_fst_toList_eq_keys]
    exact Std.ExtTreeMap.nodup_keys
  · rintro a ha b hb rfl
    have hstored := (Bool.and_eq_true_iff.mp (List.mem_filter.mp ha).2).2
    obtain ⟨⟨rid, r⟩, hr, rfl⟩ := List.mem_map.mp hb
    have hr' := Std.ExtTreeMap.mem_toList_iff_getElem?_eq_some.mp (List.mem_filter.mp hr).1
    simp [Table.rowView, htx.disjoint hcount rid r hr'] at hstored

end

end StateView

namespace Transaction

variable {cs : CommittedState} {t : Transaction} {tableID : TableID}

theorem mem_rowsOf {rids : List RowID} {rid : RowID} {r : ProductValue} :
    (rid, r) ∈ rowsOf cs t tableID rids ↔
      rid ∈ rids ∧ StateView.getRow cs t.tx tableID rid = some r := by
  simp only [rowsOf, List.mem_filterMap, Option.map_eq_some_iff, Prod.mk.injEq]
  constructor
  · rintro ⟨rid', hmem, r', hr', rfl, rfl⟩
    exact ⟨hmem, hr'⟩
  · rintro ⟨hmem, hr⟩
    exact ⟨rid, hmem, r, hr, rfl, rfl⟩

theorem rowsOf_nodup {rids : List RowID} (h : rids.Nodup) :
    ((rowsOf cs t tableID rids).map Prod.fst).Nodup := by
  refine h.sublist ?_
  induction rids with
  | nil => exact .slnil
  | cons rid rids ih =>
    have htail := ih h.tail
    simp only [rowsOf, List.filterMap_cons] at htail ⊢
    cases StateView.getRow cs t.tx tableID rid with
    | none => exact htail.cons _
    | some r => exact htail.cons_cons _

end Transaction

end Shunter
