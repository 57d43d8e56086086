import Shunter.Store.Table

/-!
# The representation invariant of a table

The indexes and the hash index of a table mirror its rows, and no two stored
rows conflict.  Two rows conflict when they have the same key in a unique
index or, in a table without primary key, when they are equal.
-/

namespace Shunter

open Foundation

/-! ## Conflicting rows -/

namespace TableSchema

/-- The part of a well-formed schema that storage relies on. -/
def PrimaryUnique (ts : TableSchema) : Prop :=
  ∀ is ∈ ts.indexes, is.primary = true → is.unique = true

def SameKey (is : IndexSchema) (r s : ProductValue) : Prop :=
  (extractKey r is.columns).compare (extractKey s is.columns) = .eq

def Conflicts (ts : TableSchema) (r s : ProductValue) : Prop :=
  (∃ is ∈ ts.indexes, is.unique = true ∧ SameKey is r s) ∨
    (ts.primaryIndex = none ∧ r.equal s = true)

variable {ts : TableSchema} {r r' s s' : ProductValue}

theorem sameKey_congr {is : IndexSchema} (hr : r.rowClass = r'.rowClass)
    (hs : s.rowClass = s'.rowClass) : SameKey is r s ↔ SameKey is r' s' := by
  simp only [SameKey, IndexKey.compare_eq_iff, extractKey_congr hr, extractKey_congr hs]

theorem SameKey.symm {is : IndexSchema} (h : SameKey is r s) : SameKey is s r :=
  Std.OrientedCmp.eq_symm h

theorem Conflicts.symm (h : ts.Conflicts r s) : ts.Conflicts s r := by
  rcases h with ⟨is, his, hu, hk⟩ | ⟨hp, heq⟩
  · exact .inl ⟨is, his, hu, hk.symm⟩
  · exact .inr ⟨hp, by rw [ProductValue.equal_iff] at *; exact heq.symm⟩

theorem conflicts_congr (hr : r.rowClass = r'.rowClass) (hs : s.rowClass = s'.rowClass) :
    ts.Conflicts r s ↔ ts.Conflicts r' s' := by
  simp only [Conflicts, sameKey_congr hr hs, ProductValue.equal_iff, hr, hs]

theorem conflicts_of_equal (hts : ts.PrimaryUnique) (h : r.rowClass = s.rowClass) :
    ts.Conflicts r s := by
  cases hp : ts.primaryIndex with
  | none => exact .inr ⟨hp, ProductValue.equal_iff.mpr h⟩
  | some is =>
    have hmem := List.mem_of_find?_eq_some hp
    have hprim : is.primary = true := by simpa using List.find?_some hp
    refine .inl ⟨is, hmem, hts is hmem hprim, ?_⟩
    rw [SameKey, IndexKey.compare_eq_iff, extractKey_congr h]

end TableSchema

/-! ## Mirrors of the rows -/

/-- The B-tree of the index maps exactly the keys of the rows to their identifiers. -/
structure Index.Mirrors (idx : Index) (rows : GoMap RowID ProductValue) : Prop where
  inv : idx.btree.Inv
  mem_rowIDs : ∀ key rid, rid ∈ idx.btree.rowIDs key ↔
    ∃ row, rows[rid]? = some row ∧ (idx.extractKey row).compare key = .eq

variable {idx : Index}

theorem Index.Mirrors.row_of_mapping {rows : GoMap RowID ProductValue} (h : idx.Mirrors rows)
    {key : IndexKey} {rid : RowID} (hmem : (key, rid) ∈ mappings idx.btree.entries) :
    ∃ row, rows[rid]? = some row ∧ (idx.extractKey row).compare key = .eq := by
  rw [← h.mem_rowIDs, BTreeIndex.rowIDs_eq_lookup h.inv]
  exact mem_lookup_of_mem_mappings h.inv.wellFormed.sorted hmem

theorem Index.Mirrors.mappings_nodup {rows : GoMap RowID ProductValue} (h : idx.Mirrors rows) :
    ((mappings idx.btree.entries).map Prod.snd).Nodup := by
  refine mappings_values_nodup h.inv.wellFormed ?_
  intro key key' rid hmem hmem'
  obtain ⟨row, hrow, hk⟩ := h.row_of_mapping hmem
  obtain ⟨row', hrow', hk'⟩ := h.row_of_mapping hmem'
  rw [hrow, Option.some.injEq] at hrow'
  subst hrow'
  exact Std.TransCmp.eq_trans (Std.OrientedCmp.eq_symm hk) hk'

/-- The hash index lists each row identifier once, in the bucket of its row's hash. -/
abbrev HashMirrors (hashes : BucketMap UInt64 RowID) (rows : GoMap RowID ProductValue) : Prop :=
  hashes.Mirrors rows (fun id _ => id) ProductValue.hash64

theorem HashMirrors.mem_bucket_iff {hashes : BucketMap UInt64 RowID}
    {rows : GoMap RowID ProductValue} (h : HashMirrors hashes rows) (k : UInt64) (rid : RowID) :
    rid ∈ hashes.bucket k ↔ ∃ row : ProductValue, rows[rid]? = some row ∧ row.hash64 = k := by
  rw [h.mem_bucket]
  constructor
  · rintro ⟨id, row, hr, rfl, hk⟩
    exact ⟨row, hr, hk⟩
  · rintro ⟨row, hr, hk⟩
    exact ⟨rid, row, hr, rfl, hk⟩

variable {rows : GoMap RowID ProductValue} {id : RowID} {row : ProductValue}

theorem Index.new_mirrors (is : IndexSchema) : (Index.new is).Mirrors ∅ :=
  ⟨BTreeIndex.new_inv, by simp [Index.new]⟩

theorem Index.Mirrors.insertRow (h : idx.Mirrors rows) (hid : rows[id]? = none) :
    (idx.insertRow id row).Mirrors (rows.insert id row) := by
  refine ⟨BTreeIndex.insert_inv h.inv _ _, ?_⟩
  intro key rid
  change rid ∈ (idx.btree.insert (idx.extractKey row) id).rowIDs key ↔
    ∃ r, (rows.insert id row)[rid]? = some r ∧ (idx.extractKey r).compare key = .eq
  rw [BTreeIndex.mem_rowIDs_insert h.inv, h.mem_rowIDs]
  simp only [get_insert]
  by_cases hrid : id = rid
  · subst hrid
    simp [hid]
  · simp [hrid, Ne.symm hrid]

theorem Index.Mirrors.removeRow (h : idx.Mirrors rows) (hrow : rows[id]? = some row) :
    (idx.removeRow id row).Mirrors (rows.erase id) := by
  refine ⟨BTreeIndex.remove_inv h.inv _ _, ?_⟩
  intro key rid
  change rid ∈ (idx.btree.remove (idx.extractKey row) id).rowIDs key ↔
    ∃ r, (rows.erase id)[rid]? = some r ∧ (idx.extractKey r).compare key = .eq
  rw [BTreeIndex.mem_rowIDs_remove h.inv, h.mem_rowIDs]
  simp only [get_erase]
  by_cases hrid : id = rid
  · subst hrid
    simp [hrow]
  · simp [hrid, Ne.symm hrid]

theorem erase_insert_of_absent {ν : Type} {m : GoMap RowID ν} {v : ν} (hid : m[id]? = none) :
    (m.insert id v).erase id = m := by
  apply Std.ExtTreeMap.ext_getElem?
  intro k
  simp only [get_erase, get_insert]
  split
  · next h => rw [← h, hid]
  · rfl

theorem Index.Mirrors.insertRow_removeRow (h : idx.Mirrors rows) (hid : rows[id]? = none) :
    ((idx.insertRow id row).removeRow id row).Mirrors rows := by
  have hstored : (rows.insert id row)[id]? = some row := by simp
  have hboth := (h.insertRow hid).removeRow hstored
  rwa [erase_insert_of_absent hid] at hboth

/-! ## The table invariant -/

namespace Table

/-- Indexes and hash index mirror the rows, and the counters have the schema's shape. -/
structure Indexed (t : Table) : Prop where
  primaryUnique : t.schema.PrimaryUnique
  indexes_schema : t.indexes.map (·.schema) = t.schema.indexes
  mirrors : ∀ idx ∈ t.indexes, idx.Mirrors t.rows
  hash_none_iff : t.rowHashIndex = none ↔ t.schema.primaryIndex.isSome
  hash_mirrors : ∀ hashes, t.rowHashIndex = some hashes → HashMirrors hashes t.rows
  sequenceCol_eq : t.sequenceCol = t.schema.autoIncrementCol
  sequence_isSome : t.sequence.isSome = t.schema.autoIncrementCol.isSome

/-- Stored rows are valid, do not conflict, and event tables store nothing. -/
structure RowsOK (t : Table) : Prop where
  valid : ∀ (rid : RowID) (row : ProductValue), t.rows[rid]? = some row →
    validateRow t.schema row = none
  conflictFree : ∀ (rid rid' : RowID) (row row' : ProductValue), t.rows[rid]? = some row →
    t.rows[rid']? = some row' → t.schema.Conflicts row row' → rid = rid'
  event_empty : t.schema.isEvent = true → ∀ rid : RowID, t.rows[rid]? = none

structure Inv (t : Table) : Prop where
  indexed : t.Indexed
  rowsOK : t.RowsOK

variable {t : Table} {id : RowID} {row : ProductValue}

section

variable (h : t.Indexed)
include h

theorem Indexed.index_schema_mem (hidx : idx ∈ t.indexes) : idx.schema ∈ t.schema.indexes := by
  rw [← h.indexes_schema]
  exact List.mem_map_of_mem hidx

theorem Indexed.exists_index {is : IndexSchema} (his : is ∈ t.schema.indexes) :
    ∃ idx ∈ t.indexes, idx.schema = is := by
  rw [← h.indexes_schema] at his
  exact List.mem_map.mp his

theorem Indexed.primaryIndex_eq : t.primaryIndex.map (·.schema) = t.schema.primaryIndex := by
  rw [TableSchema.primaryIndex, ← h.indexes_schema, List.find?_map]
  rfl

theorem Indexed.rowIDs_ne_nil_iff (hidx : idx ∈ t.indexes) :
    (idx.btree.rowIDs (idx.extractKey row)).length ≠ 0 ↔
      ∃ (rid : RowID) (r : ProductValue), t.rows[rid]? = some r ∧
        TableSchema.SameKey idx.schema r row := by
  rw [ne_eq, List.length_eq_zero_iff, List.eq_nil_iff_forall_not_mem]
  simp only [not_forall, not_not, (h.mirrors idx hidx).mem_rowIDs]
  rfl

theorem bucketHasRow_iff {hashes : BucketMap UInt64 RowID} (hh : t.rowHashIndex = some hashes) :
    t.bucketHasRow (hashes.bucket row.hash64) row = true ↔
      ∃ (rid : RowID) (r : ProductValue), t.rows[rid]? = some r ∧ r.equal row = true := by
  have hmir := h.hash_mirrors hashes hh
  simp only [bucketHasRow, List.any_eq_true]
  constructor
  · rintro ⟨rid, hrid, heq⟩
    obtain ⟨r, hr, -⟩ := (HashMirrors.mem_bucket_iff hmir _ _).mp hrid
    exact ⟨rid, r, hr, by simpa [hr] using heq⟩
  · rintro ⟨rid, r, hr, heq⟩
    refine ⟨rid, (HashMirrors.mem_bucket_iff hmir _ _).mpr ⟨r, hr, ?_⟩, by simpa [hr] using heq⟩
    exact ProductValue.hash64_congr (ProductValue.equal_iff.mp heq)

end

/-! ### Insertion into the indexes -/

theorem insertIntoIndexes_cases (ts : TableSchema) (id : RowID) (row : ProductValue)
    (done rest : List Index) :
    ((∀ idx ∈ rest, idx.schema.unique = true →
        (idx.btree.rowIDs (idx.extractKey row)).length = 0) ∧
      insertIntoIndexes ts id row done rest =
        (done ++ rest.map (·.insertRow id row), none)) ∨
    (∃ idx ∈ rest, idx.schema.unique = true ∧
      (idx.btree.rowIDs (idx.extractKey row)).length ≠ 0 ∧
      ∃ mid tail, rest = mid ++ tail ∧
        insertIntoIndexes ts id row done rest =
          ((done ++ mid.map (·.insertRow id row)).map (·.removeRow id row) ++ tail,
            some (uniqueViolationError ts idx.schema (idx.extractKey row)))) := by
  induction rest generalizing done with
  | nil => exact .inl ⟨by simp, by simp [insertIntoIndexes]⟩
  | cons idx rest ih =>
    by_cases hhit : idx.schema.unique = true ∧
        (idx.btree.rowIDs (idx.extractKey row)).length ≠ 0
    · refine .inr ⟨idx, by simp, hhit.1, hhit.2, [], idx :: rest, rfl, ?_⟩
      simp only [insertIntoIndexes]
      rw [if_pos hhit]
      simp
    · simp only [insertIntoIndexes]
      rw [if_neg hhit]
      rcases ih (done ++ [idx.insertRow id row]) with ⟨hfree, heq⟩ | ⟨idx', hmem, hu, hne, mid, tail, hsplit, heq⟩
      · left
        refine ⟨?_, by rw [heq]; simp⟩
        intro idx' hmem hu
        rcases List.mem_cons.mp hmem with rfl | hmem
        · by_contra hne
          exact hhit ⟨hu, hne⟩
        · exact hfree idx' hmem hu
      · right
        refine ⟨idx', List.mem_cons_of_mem _ hmem, hu, hne, idx :: mid, tail, by simp [hsplit], ?_⟩
        rw [heq]
        simp

/-! ### Inserting and deleting rows -/

theorem insertRow_frame (t : Table) (id : RowID) (row : ProductValue) :
    ∃ rows indexes hashes, (t.insertRow id row).1 =
      { t with rows := rows, indexes := indexes, rowHashIndex := hashes } := by
  unfold insertRow removeFromIndexes
  split
  · exact ⟨_, _, _, rfl⟩
  · split
    · exact ⟨_, _, _, rfl⟩
    · dsimp only
      split
      · exact ⟨_, _, _, rfl⟩
      · split <;> exact ⟨_, _, _, rfl⟩

@[simp] theorem insertRow_schema : (t.insertRow id row).1.schema = t.schema := by
  obtain ⟨_, _, _, h⟩ := insertRow_frame t id row
  rw [h]

@[simp] theorem insertRow_nextID : (t.insertRow id row).1.nextID = t.nextID := by
  obtain ⟨_, _, _, h⟩ := insertRow_frame t id row
  rw [h]

@[simp] theorem insertRow_sequence : (t.insertRow id row).1.sequence = t.sequence := by
  obtain ⟨_, _, _, h⟩ := insertRow_frame t id row
  rw [h]

theorem deleteRow_frame (t : Table) (id : RowID) :
    ∃ rows indexes hashes, (t.deleteRow id).1 =
      { t with rows := rows, indexes := indexes, rowHashIndex := hashes } := by
  unfold deleteRow removeFromIndexes
  split <;> exact ⟨_, _, _, rfl⟩

@[simp] theorem deleteRow_schema : (t.deleteRow id).1.schema = t.schema := by
  obtain ⟨_, _, _, h⟩ := deleteRow_frame t id
  rw [h]

@[simp] theorem deleteRow_nextID : (t.deleteRow id).1.nextID = t.nextID := by
  obtain ⟨_, _, _, h⟩ := deleteRow_frame t id
  rw [h]

@[simp] theorem deleteRow_sequence : (t.deleteRow id).1.sequence = t.sequence := by
  obtain ⟨_, _, _, h⟩ := deleteRow_frame t id
  rw [h]

def HasConflict (t : Table) (row : ProductValue) : Prop :=
  ∃ (rid : RowID) (r : ProductValue), t.rows[rid]? = some r ∧ t.schema.Conflicts r row

theorem Indexed.hasConflict_iff (h : t.Indexed) :
    t.HasConflict row ↔
      (∃ idx ∈ t.indexes, idx.schema.unique = true ∧
        (idx.btree.rowIDs (idx.extractKey row)).length ≠ 0) ∨
      (∃ hashes, t.rowHashIndex = some hashes ∧
        t.bucketHasRow (hashes.bucket row.hash64) row = true) := by
  constructor
  · rintro ⟨rid, r, hr, ⟨is, his, hu, hk⟩ | ⟨hp, heq⟩⟩
    · obtain ⟨idx, hidx, rfl⟩ := h.exists_index his
      exact .inl ⟨idx, hidx, hu, (h.rowIDs_ne_nil_iff hidx).mpr ⟨rid, r, hr, hk⟩⟩
    · cases hh : t.rowHashIndex with
      | none =>
        have := h.hash_none_iff.mp hh
        simp [hp] at this
      | some hashes =>
        exact .inr ⟨hashes, rfl, (bucketHasRow_iff h hh).mpr ⟨rid, r, hr, heq⟩⟩
  · rintro (⟨idx, hidx, hu, hne⟩ | ⟨hashes, hh, hhas⟩)
    · obtain ⟨rid, r, hr, hk⟩ := (h.rowIDs_ne_nil_iff hidx).mp hne
      exact ⟨rid, r, hr, .inl ⟨idx.schema, h.index_schema_mem hidx, hu, hk⟩⟩
    · obtain ⟨rid, r, hr, heq⟩ := (bucketHasRow_iff h hh).mp hhas
      refine ⟨rid, r, hr, .inr ⟨?_, heq⟩⟩
      by_contra hp
      have := h.hash_none_iff.mpr (Option.isSome_iff_ne_none.mpr hp)
      simp [hh] at this

theorem insertRow_ok (h : t.Indexed) (hid : t.rows[id]? = none) (hno : ¬ t.HasConflict row) :
    (t.insertRow id row).2 = none ∧
    (t.insertRow id row).1.rows = t.rows.insert id row ∧
    (t.insertRow id row).1.Indexed := by
  rw [h.hasConflict_iff, not_or] at hno
  have hcontains : t.rows.contains id = false := by
    rw [Std.ExtTreeMap.contains_eq_isSome_getElem?, hid, Option.isSome_none]
  have hins : insertIntoIndexes t.schema id row [] t.indexes =
      (t.indexes.map (·.insertRow id row), none) := by
    rcases insertIntoIndexes_cases t.schema id row [] t.indexes with ⟨-, heq⟩ | ⟨idx, hidx, hu, hne, -⟩
    · simpa using heq
    · exact absurd ⟨idx, hidx, hu, hne⟩ hno.1
  have hschemas : (t.indexes.map (·.insertRow id row)).map (·.schema) = t.schema.indexes := by
    rw [← h.indexes_schema, List.map_map]
    rfl
  have hmirrors : ∀ idx ∈ t.indexes.map (·.insertRow id row),
      idx.Mirrors (t.rows.insert id row) := by
    intro idx hidx
    obtain ⟨idx', hidx', rfl⟩ := List.mem_map.mp hidx
    exact (h.mirrors idx' hidx').insertRow hid
  cases hh : t.rowHashIndex with
  | none =>
    have heq : t.insertRow id row =
        ({ t with
          rows := t.rows.insert id row
          indexes := t.indexes.map (·.insertRow id row) }, none) := by
      simp [insertRow, hcontains, hins, hh]
    rw [heq]
    exact ⟨rfl, rfl, h.primaryUnique, hschemas, hmirrors, h.hash_none_iff,
      by simp [hh], h.sequenceCol_eq, h.sequence_isSome⟩
  | some hashes =>
    have hbucket : t.bucketHasRow (hashes.bucket row.hash64) row = false := by
      by_contra hhas
      exact hno.2 ⟨hashes, hh, by simpa using hhas⟩
    have heq : t.insertRow id row =
        ({ t with
          rows := t.rows.insert id row
          indexes := t.indexes.map (·.insertRow id row)
          rowHashIndex := some (hashes.push row.hash64 id) }, none) := by
      have hbucket' := hbucket
      unfold bucketHasRow at hbucket'
      simp [insertRow, hcontains, hins, hh, bucketHasRow, hbucket']
    rw [heq]
    refine ⟨rfl, rfl, h.primaryUnique, hschemas, hmirrors, ?_, ?_, h.sequenceCol_eq,
      h.sequence_isSome⟩
    · have := h.hash_none_iff
      simpa [hh] using this
    · rintro hashes' ⟨⟩
      exact (h.hash_mirrors hashes hh).push (fun rid => rid) (fun _ _ => rfl) hid

theorem insertRow_error (h : t.Indexed) (hbad : t.rows[id]? ≠ none ∨ t.HasConflict row) :
    (∃ e, (t.insertRow id row).2 = some e) ∧
    (t.insertRow id row).1.rows = t.rows ∧
    (t.insertRow id row).1.Indexed := by
  by_cases hid : t.rows[id]? = none
  · have hconf := (hbad.resolve_left (by simpa using hid))
    have hcontains : t.rows.contains id = false := by
      rw [Std.ExtTreeMap.contains_eq_isSome_getElem?, hid, Option.isSome_none]
    rcases insertIntoIndexes_cases t.schema id row [] t.indexes with
      ⟨hfree, heq⟩ | ⟨idx, hidx, hu, hne, mid, tail, hsplit, heq⟩
    · -- no unique index objects, so the hash index finds an equal row
      rcases h.hasConflict_iff.mp hconf with ⟨idx, hidx, hu, hne⟩ | ⟨hashes, hh, hhas⟩
      · exact absurd (hfree idx hidx hu) hne
      · have hrun : t.insertRow id row =
            ({ t with
              indexes := (t.indexes.map (·.insertRow id row)).map (·.removeRow id row) },
              some .duplicateRow) := by
          unfold bucketHasRow at hhas
          simp only [List.nil_append] at heq
          simp [insertRow, hcontains, heq, hh, bucketHasRow, hhas, removeFromIndexes]
        rw [hrun]
        refine ⟨⟨_, rfl⟩, rfl, h.primaryUnique, ?_, ?_, h.hash_none_iff, h.hash_mirrors,
          h.sequenceCol_eq, h.sequence_isSome⟩
        · rw [← h.indexes_schema, List.map_map, List.map_map]
          rfl
        · intro idx hidx
          simp only [List.map_map, List.mem_map] at hidx
          obtain ⟨idx', hidx', rfl⟩ := hidx
          exact (h.mirrors idx' hidx').insertRow_removeRow hid
    · have hrun : t.insertRow id row =
          ({ t with
            indexes := (mid.map (·.insertRow id row)).map (·.removeRow id row) ++ tail },
            some (uniqueViolationError t.schema idx.schema (idx.extractKey row))) := by
        simp only [List.nil_append] at heq
        simp [insertRow, hcontains, heq]
      rw [hrun]
      refine ⟨⟨_, rfl⟩, rfl, h.primaryUnique, ?_, ?_, h.hash_none_iff, h.hash_mirrors,
        h.sequenceCol_eq, h.sequence_isSome⟩
      · rw [← h.indexes_schema, hsplit, List.map_append, List.map_append, List.map_map,
          List.map_map]
        rfl
      · intro idx hidx
        simp only [List.map_map, List.mem_append, List.mem_map] at hidx
        rcases hidx with ⟨idx', hidx', rfl⟩ | hidx
        · exact (h.mirrors idx' (by simp [hsplit, hidx'])).insertRow_removeRow hid
        · exact h.mirrors idx (by simp [hsplit, hidx])
  · have hcontains : t.rows.contains id = true := by
      rw [Std.ExtTreeMap.contains_eq_isSome_getElem?]
      exact Option.isSome_iff_ne_none.mpr hid
    have hrun : t.insertRow id row = (t, some (.duplicateRowID id)) := by
      simp [insertRow, hcontains]
    rw [hrun]
    exact ⟨⟨_, rfl⟩, rfl, h⟩

theorem deleteRow_none (hid : t.rows[id]? = none) : t.deleteRow id = (t, none) := by
  simp [deleteRow, hid]

theorem deleteRow_some (h : t.Indexed) (hid : t.rows[id]? = some row) :
    (t.deleteRow id).2 = some row ∧
    (t.deleteRow id).1.rows = t.rows.erase id ∧
    (t.deleteRow id).1.Indexed := by
  simp only [deleteRow, hid, removeFromIndexes]
  refine ⟨trivial, trivial, h.primaryUnique, ?_, ?_, ?_, ?_, h.sequenceCol_eq, h.sequence_isSome⟩
  · rw [← h.indexes_schema, List.map_map]
    rfl
  · intro idx hidx
    obtain ⟨idx', hidx', rfl⟩ := List.mem_map.mp hidx
    exact (h.mirrors idx' hidx').removeRow hid
  · rw [Option.map_eq_none_iff]
    exact h.hash_none_iff
  · intro hashes' hh'
    obtain ⟨hashes, hh, rfl⟩ := Option.map_eq_some_iff.mp hh'
    exact (h.hash_mirrors hashes hh).dropFirst (fun rid => rid) (fun _ _ => rfl) hid

/-! ### Stored rows -/

theorem Indexed.withCounters (h : t.Indexed) (nextID : RowID) {seq : Option Nat}
    (hseq : seq.isSome = t.sequence.isSome) :
    Indexed { t with nextID := nextID, sequence := seq } :=
  { h with sequence_isSome := hseq.trans h.sequence_isSome }

theorem RowsOK.of_insert (h : t.RowsOK) {t' : Table} (hschema : t'.schema = t.schema)
    (hrows : t'.rows = t.rows.insert id row) (hvalid : validateRow t.schema row = none)
    (hevent : t.schema.isEvent = false) (hno : ¬ t.HasConflict row) : t'.RowsOK := by
  have hstored : ∀ (rid : RowID) (r : ProductValue), t'.rows[rid]? = some r →
      (rid = id ∧ r = row) ∨ t.rows[rid]? = some r := by
    intro rid r hr
    rw [hrows, Std.ExtTreeMap.getElem?_insert] at hr
    split at hr
    · next heq =>
      cases hr
      exact .inl ⟨(Std.compare_eq_iff_eq.mp heq).symm, rfl⟩
    · exact .inr hr
  refine ⟨?_, ?_, ?_⟩
  · intro rid r hr
    rw [hschema]
    rcases hstored rid r hr with ⟨-, rfl⟩ | hr
    · exact hvalid
    · exact h.valid rid r hr
  · intro rid rid' r r' hr hr' hconf
    rw [hschema] at hconf
    rcases hstored rid r hr with ⟨rfl, rfl⟩ | hr
    · rcases hstored rid' r' hr' with ⟨rfl, -⟩ | hr'
      · rfl
      · exact absurd ⟨rid', r', hr', hconf.symm⟩ hno
    · rcases hstored rid' r' hr' with ⟨rfl, rfl⟩ | hr'
      · exact absurd ⟨rid, r, hr, hconf⟩ hno
      · exact h.conflictFree rid rid' r r' hr hr' hconf
  · intro hev
    rw [hschema, hevent] at hev
    cases hev

theorem RowsOK.of_subset (h : t.RowsOK) {t' : Table} (hschema : t'.schema = t.schema)
    (hrows : ∀ (rid : RowID) (r : ProductValue), t'.rows[rid]? = some r → t.rows[rid]? = some r) :
    t'.RowsOK := by
  refine ⟨?_, ?_, ?_⟩
  · intro rid r hr
    rw [hschema]
    exact h.valid rid r (hrows rid r hr)
  · intro rid rid' r r' hr hr' hconf
    rw [hschema] at hconf
    exact h.conflictFree rid rid' r r' (hrows rid r hr) (hrows rid' r' hr') hconf
  · intro hev rid
    rw [hschema] at hev
    cases hr : t'.rows[rid]? with
    | none => rfl
    | some r => exact absurd (hrows rid r hr) (by simp [h.event_empty hev rid])

theorem deleteRow_inv (h : t.Inv) (id : RowID) : (t.deleteRow id).1.Inv := by
  cases hid : t.rows[id]? with
  | none => rwa [deleteRow_none hid]
  | some row =>
    obtain ⟨-, hrows, hindexed⟩ := deleteRow_some h.indexed hid
    refine ⟨hindexed, h.rowsOK.of_subset deleteRow_schema ?_⟩
    intro rid r hr
    rw [hrows, Std.ExtTreeMap.getElem?_erase] at hr
    split at hr
    · cases hr
    · exact hr

theorem newTable_inv {ts : TableSchema} (hts : ts.PrimaryUnique) : (newTable ts).Inv := by
  refine ⟨⟨hts, ?_, ?_, ?_, ?_, rfl, by simp [newTable]⟩, by simp [newTable], by simp [newTable],
    by simp [newTable]⟩
  · simp only [newTable, List.map_map]
    exact List.map_id' _
  · intro idx hidx
    obtain ⟨is, -, rfl⟩ := List.mem_map.mp hidx
    exact Index.new_mirrors is
  · simp only [newTable]
    split <;> simp_all
  · intro hashes hh
    simp only [newTable] at hh
    split at hh
    · cases hh
    · cases hh
      exact .empty

theorem Inv.rowID_unique (h : t.Inv) {rid rid' : RowID} {r r' : ProductValue}
    (hr : t.rows[rid]? = some r) (hr' : t.rows[rid']? = some r')
    (heq : r.rowClass = r'.rowClass) : rid = rid' :=
  h.rowsOK.conflictFree rid rid' r r' hr hr'
    (TableSchema.conflicts_of_equal h.indexed.primaryUnique heq)

end Table

/-! ## Counters -/

/-- The number an autoincrement column of the row holds, if it is not negative. -/
def TableSchema.autoValue (ts : TableSchema) (row : ProductValue) : Option Nat :=
  match ts.autoIncrementCol with
  | none => none
  | some c =>
    match ts.columns[c]? with
    | none => none
    | some col => valueAsUint64 (row.getD c ⟨.bool, some false⟩) col.type

/-- `nextAutoIncrementSequenceValue` saturates at the largest `uint64`. -/
def nextAutoIncrementSequenceValue (observed : Nat) : Nat :=
  if observed = maxUint64 then observed else observed + 1

/-- The counter is past the value, or has reached the largest `uint64` with it. -/
def SequenceAbove (next value : Nat) : Prop :=
  value < next ∨ (value = next ∧ next = maxUint64)

theorem sequenceAbove_iff {next value : Nat} (hn : next ≤ maxUint64) :
    SequenceAbove next value ↔ nextAutoIncrementSequenceValue value ≤ next := by
  unfold SequenceAbove nextAutoIncrementSequenceValue
  split <;> omega

theorem SequenceAbove.mono {next next' value : Nat} (h : SequenceAbove next value)
    (hle : next ≤ next') (hn : next' ≤ maxUint64) : SequenceAbove next' value := by
  unfold SequenceAbove at *
  omega

theorem valueAsUint64_le {v : Value} {kind : ValueKind} {n : Nat}
    (h : valueAsUint64 v kind = some n) : n ≤ maxUint64 := by
  have hsigned : ∀ {w : Nat} (x : BitVec w), w ≤ 64 →
      valueAsUint64.signed x = some n → n ≤ maxUint64 := by
    intro w x hw hx
    unfold valueAsUint64.signed at hx
    split at hx
    · cases hx
    · have hlt : x.toInt < 2 ^ 64 := by
        have h₁ := x.isLt
        have h₂ : (2 : Nat) ^ w ≤ 2 ^ 64 := Nat.pow_le_pow_right (by decide) hw
        have h₃ : x.toInt ≤ x.toNat := by
          rw [BitVec.toInt_eq_toNat_cond]
          split <;> omega
        omega
      simp only [Option.some.injEq] at hx
      simp only [maxUint64]
      omega
  have hunsigned : ∀ {w : Nat} (x : BitVec w), w ≤ 64 → x.toNat ≤ maxUint64 := by
    intro w x hw
    have h₁ := x.isLt
    have h₂ : (2 : Nat) ^ w ≤ 2 ^ 64 := Nat.pow_le_pow_right (by decide) hw
    simp only [maxUint64]
    omega
  unfold valueAsUint64 at h
  split at h
  all_goals first
    | exact hsigned _ (by decide) h
    | (cases h; exact hunsigned _ (by decide))
    | cases h

namespace TableSchema

theorem autoValue_congr (ts : TableSchema) {r s : ProductValue} (h : r.rowClass = s.rowClass) :
    ts.autoValue r = ts.autoValue s := by
  unfold autoValue
  split
  · rfl
  · next c _ =>
    split
    · rfl
    · apply valueAsUint64_congr
      have hkey := extractKey_congr h [c]
      simpa [extractKey, ProductValue.rowClass] using hkey

theorem autoValue_le {ts : TableSchema} {n : Nat} (h : ts.autoValue row = some n) :
    n ≤ maxUint64 := by
  revert h
  fun_cases autoValue ts row
  case case3 => exact valueAsUint64_le
  all_goals rintro ⟨⟩

end TableSchema

/-- Row identifiers lie below the allocator and the sequence is past every stored value. -/
structure Table.Counted (t : Table) : Prop where
  nextID_pos : 1 ≤ t.nextID
  nextID_le : t.nextID ≤ maxUint64
  rowID_lt : ∀ (rid : RowID) (row : ProductValue), t.rows[rid]? = some row →
    1 ≤ rid ∧ rid < t.nextID
  sequence_range : ∀ next, t.sequence = some next → 1 ≤ next ∧ next ≤ maxUint64
  sequence_above : ∀ next, t.sequence = some next → ∀ (rid : RowID) (row : ProductValue) v,
    t.rows[rid]? = some row → t.schema.autoValue row = some v → SequenceAbove next v

theorem newTable_counted (ts : TableSchema) : (newTable ts).Counted where
  nextID_pos := by simp [newTable]
  nextID_le := by simp [newTable, maxUint64]
  rowID_lt := by simp [newTable]
  sequence_range := by
    intro next hnext
    simp only [newTable, Option.map_eq_some_iff] at hnext
    obtain ⟨c, -, rfl⟩ := hnext
    simp [maxUint64]
  sequence_above := by simp [newTable]

end Shunter
