import Shunter.Store.Commit
import Shunter.Store.TransactionInsert

/-!
# What revalidation establishes

Buffers that pass `revalidateCommit` can be written: deletes name stored rows,
and the inserted rows are valid, have free identifiers and conflict neither
with the committed rows that stay nor with each other.
-/

namespace Shunter

open Foundation

theorem firstError_eq_none {α : Type} {check : α → Option StoreError} {l : List α} :
    firstError check l = none ↔ ∀ a ∈ l, check a = none := by
  induction l with
  | nil => simp [firstError]
  | cons a l ih =>
    simp only [firstError, List.forall_mem_cons]
    cases hcheck : check a with
    | some e => simp
    | none => simpa using ih

/-- The inserts of one table can be written after the deletes. -/
structure InsertsReady (txState : TxState) (tableID : TableID) (table : Table)
    (ins : GoMap RowID ProductValue) : Prop where
  valid : ∀ (rid : RowID) (r : ProductValue), ins[rid]? = some r →
    validateRow table.schema r = none
  free : table.schema.isEvent = false → ∀ (rid : RowID) (r : ProductValue),
    ins[rid]? = some r → txState.isDeleted tableID rid = false → table.rows[rid]? = none
  committed : table.schema.isEvent = false → ∀ (rid rid' : RowID) (r r' : ProductValue),
    ins[rid]? = some r → table.rows[rid']? = some r' →
    txState.isDeleted tableID rid' = false → ¬ table.schema.Conflicts r' r
  pending : ∀ (rid rid' : RowID) (r r' : ProductValue), ins[rid]? = some r →
    ins[rid']? = some r' → table.schema.Conflicts r r' → rid = rid'

structure CommitReady (cs : CommittedState) (txState : TxState) : Prop where
  deletes : ∀ (tableID : TableID) (dels : GoMap RowID Unit),
    txState.deletes[tableID]? = some dels →
    ∃ table, cs.table tableID = some table ∧
      ∀ rid : RowID, dels.contains rid = true → ∃ r, table.rows[rid]? = some r
  inserts : ∀ (tableID : TableID) (ins : GoMap RowID ProductValue),
    txState.inserts[tableID]? = some ins →
    ∃ table, cs.table tableID = some table ∧ InsertsReady txState tableID table ins

variable {cs : CommittedState} {txState : TxState} {tableID : TableID} {table : Table}
  {row : ProductValue} {rid : RowID} {p p' : Pending}

theorem deletes_of_revalidateDeletes (h : revalidateDeletes cs txState = none)
    (dels : GoMap RowID Unit) (hdels : txState.deletes[tableID]? = some dels) :
    ∃ table, cs.table tableID = some table ∧
      ∀ rid : RowID, dels.contains rid = true → ∃ r, table.rows[rid]? = some r := by
  have hcheck := firstError_eq_none.mp h (tableID, dels)
    (Std.ExtTreeMap.mem_toList_iff_getElem?_eq_some.mpr hdels)
  dsimp only at hcheck
  split at hcheck
  · cases hcheck
  · next table htable =>
    refine ⟨table, htable, fun rid hrid => ?_⟩
    have hrow := firstError_eq_none.mp hcheck rid (Std.ExtTreeMap.mem_keys.mpr hrid)
    split at hrow
    · cases hrow
    · next hstored =>
      exact Option.ne_none_iff_exists'.mp (mt Option.isNone_iff_eq_none.mpr hstored)

theorem free_of_revalidateInsertRowID (h : revalidateInsertRowID tableID table rid txState = none)
    (hevent : table.schema.isEvent = false) (hdel : txState.isDeleted tableID rid = false) :
    table.rows[rid]? = none := by
  simp only [revalidateInsertRowID, hevent, hdel, Bool.false_eq_true, if_false] at h
  split at h
  · cases h
  · next hstored => simpa [Table.rowView] using hstored

theorem noConflict_of_revalidateCommitted (hind : table.Indexed)
    (h : revalidateInsertAgainstCommitted tableID table row txState = none)
    (hevent : table.schema.isEvent = false) {r : ProductValue} (hr : table.rows[rid]? = some r)
    (hdel : txState.isDeleted tableID rid = false) : ¬ table.schema.Conflicts r row := by
  simp only [revalidateInsertAgainstCommitted, hevent, Bool.false_eq_true, if_false] at h
  split at h
  · cases h
  · next hindexes =>
    rintro (⟨is, his, hu, hk⟩ | ⟨hp, heq⟩)
    · obtain ⟨idx, hidx, rfl⟩ := hind.exists_index his
      have hcheck := firstError_eq_none.mp hindexes idx hidx
      have hmem := ((hind.mirrors idx hidx).mem_rowIDs (idx.extractKey row) rid).mpr ⟨r, hr, hk⟩
      have hany : ((idx.btree.rowIDs (idx.extractKey row)).any
          fun rid => !txState.isDeleted tableID rid) = true :=
        List.any_eq_true.mpr ⟨rid, hmem, by simp [hdel]⟩
      simp [hu, hany] at hcheck
    · cases hh : table.rowHashIndex with
      | none =>
        have := hind.hash_none_iff.mp hh
        simp [hp] at this
      | some hashes =>
        have hmem := (HashMirrors.mem_bucket_iff (hind.hash_mirrors hashes hh) row.hash64
          rid).mpr ⟨r, hr, ProductValue.hash64_congr (ProductValue.equal_iff.mp heq)⟩
        have hany : ((hashes.bucket row.hash64).any fun rid =>
            !txState.isDeleted tableID rid &&
              ((table.rowView rid).map fun existing => existing.equal row).getD false) =
            true :=
          List.any_eq_true.mpr ⟨rid, hmem, by simp [hdel, Table.rowView, hr, heq]⟩
        simp [hh, hany] at h

/-! ## The rows already seen -/

/-- The row was entered into the buckets that later rows are checked against. -/
structure Pending.Seen (p : Pending) (tableID : TableID) (table : Table) (r : ProductValue) :
    Prop where
  unique : ∀ i ∈ Transaction.indexOrdinals table, i.2.schema.unique = true →
    i.2.extractKey r ∈ (p.uniqueBuckets tableID i.1).bucket (i.2.extractKey r).hash64
  rows : table.rowHashIndex ≠ none → r ∈ (p.rowBuckets tableID).bucket r.hash64

structure Pending.Le (p p' : Pending) : Prop where
  unique : ∀ tableID ord h key, key ∈ (p.uniqueBuckets tableID ord).bucket h →
    key ∈ (p'.uniqueBuckets tableID ord).bucket h
  rows : ∀ tableID h r, r ∈ (p.rowBuckets tableID).bucket h →
    r ∈ (p'.rowBuckets tableID).bucket h

theorem Pending.Le.refl (p : Pending) : p.Le p := ⟨fun _ _ _ _ h => h, fun _ _ _ h => h⟩

theorem Pending.Le.trans {p'' : Pending} (h : p.Le p') (h' : p'.Le p'') : p.Le p'' :=
  ⟨fun tid ord hash key hk => h'.unique tid ord hash key (h.unique tid ord hash key hk),
    fun tid hash r hr => h'.rows tid hash r (h.rows tid hash r hr)⟩

theorem Pending.Seen.mono {r : ProductValue} (h : p.Seen tableID table r) (hle : p.Le p') :
    p'.Seen tableID table r :=
  ⟨fun i hi hu => hle.unique _ _ _ _ (h.unique i hi hu), fun hh => hle.rows _ _ _ (h.rows hh)⟩

variable {ord : Nat} {key : IndexKey}

theorem Pending.uniqueBuckets_pushUnique {tid : TableID} {ord' : Nat} :
    (p.pushUnique tableID ord key).uniqueBuckets tid ord' =
      if tableID = tid ∧ ord = ord' then (p.uniqueBuckets tableID ord).push key.hash64 key
      else p.uniqueBuckets tid ord' := by
  simp only [pushUnique, uniqueBuckets, get_insert]
  by_cases ht : tableID = tid
  · subst ht
    simp only [if_true, Option.getD_some, get_insert,
      true_and]
    split <;> rfl
  · simp [ht]

theorem Pending.le_pushUnique : p.Le (p.pushUnique tableID ord key) := by
  refine ⟨fun tid ord' h k hk => ?_, fun _ _ _ hr => hr⟩
  rw [uniqueBuckets_pushUnique]
  split
  · next heq =>
    rw [BucketMap.bucket_push]
    obtain ⟨rfl, rfl⟩ := heq
    split
    · exact List.mem_append_left _ (by simp_all)
    · exact hk
  · exact hk

theorem Pending.le_pushRow : p.Le (p.pushRow tableID row) := by
  refine ⟨fun _ _ _ _ hk => hk, fun tid h r hr => ?_⟩
  simp only [pushRow, rowBuckets, get_insert] at hr ⊢
  split
  · next heq =>
    subst heq
    rw [Option.getD_some, BucketMap.bucket_push]
    split
    · exact List.mem_append_left _ (by simp_all)
    · exact hr
  · exact hr

theorem Pending.mem_pushUnique :
    key ∈ ((p.pushUnique tableID ord key).uniqueBuckets tableID ord).bucket key.hash64 := by
  rw [uniqueBuckets_pushUnique, if_pos ⟨rfl, rfl⟩, BucketMap.bucket_push, if_pos rfl]
  simp

theorem Pending.mem_pushRow :
    row ∈ ((p.pushRow tableID row).rowBuckets tableID).bucket row.hash64 := by
  simp [pushRow, rowBuckets, BucketMap.bucket_push]

theorem revalidatePendingUnique_spec {i : Nat × Index}
    (h : revalidatePendingUnique tableID table row p i = (p', none)) :
    p.Le p' ∧ (i.2.schema.unique = true →
      i.2.extractKey row ∈ (p'.uniqueBuckets tableID i.1).bucket (i.2.extractKey row).hash64 ∧
      ∀ key ∈ (p.uniqueBuckets tableID i.1).bucket (i.2.extractKey row).hash64,
        (i.2.extractKey row).equal key = false) := by
  revert h
  fun_cases revalidatePendingUnique tableID table row p i <;> rintro ⟨⟩
  · next hu => exact ⟨.refl p, fun hu' => by simp [hu'] at hu⟩
  · next hany =>
    refine ⟨Pending.le_pushUnique, fun _ => ⟨Pending.mem_pushUnique, fun key hkey => ?_⟩⟩
    rw [Bool.eq_false_iff]
    exact fun heq => hany (List.any_eq_true.mpr ⟨key, hkey, heq⟩)

theorem revalidateUniques_spec (l : List (Nat × Index))
    (h : loop (revalidatePendingUnique tableID table row) p l = (p', none)) :
    p.Le p' ∧ ∀ i ∈ l, i.2.schema.unique = true →
      i.2.extractKey row ∈ (p'.uniqueBuckets tableID i.1).bucket (i.2.extractKey row).hash64 ∧
      ∀ key ∈ (p.uniqueBuckets tableID i.1).bucket (i.2.extractKey row).hash64,
        (i.2.extractKey row).equal key = false := by
  refine loop_ok_inv (fun done q => p.Le q ∧ ∀ i ∈ done, i.2.schema.unique = true →
    i.2.extractKey row ∈ (q.uniqueBuckets tableID i.1).bucket (i.2.extractKey row).hash64 ∧
    ∀ key ∈ (p.uniqueBuckets tableID i.1).bucket (i.2.extractKey row).hash64,
      (i.2.extractKey row).equal key = false) ?_ ⟨.refl p, by simp⟩ h
  rintro done i rest q q' _ ⟨hle, hdone⟩ hstep
  obtain ⟨hle', hself⟩ := revalidatePendingUnique_spec hstep
  refine ⟨hle.trans hle', fun j hj hu => ?_⟩
  rcases List.mem_append.mp hj with hj | hj
  · exact ⟨hle'.unique _ _ _ _ (hdone j hj hu).1, (hdone j hj hu).2⟩
  · obtain rfl := List.mem_singleton.mp hj
    exact ⟨(hself hu).1, fun key hkey => (hself hu).2 key (hle.unique _ _ _ _ hkey)⟩

theorem revalidatePending_spec (hind : table.Indexed)
    (h : revalidateInsertAgainstPending tableID table row p = (p', none)) :
    p.Le p' ∧ p'.Seen tableID table row ∧
      ∀ r, p.Seen tableID table r → ¬ table.schema.Conflicts r row := by
  unfold revalidateInsertAgainstPending at h
  obtain ⟨hloop, hrows⟩ := andThen_eq_none (congrArg Prod.snd h)
  rw [andThen_ok hloop] at h
  generalize hq : loop (revalidatePendingUnique tableID table row) p
    (Transaction.indexOrdinals table) = q at *
  obtain ⟨q, err⟩ := q
  simp only at hloop
  subst hloop
  obtain ⟨hle, huniq⟩ := revalidateUniques_spec _ hq
  have hsame : ∀ r, p.Seen tableID table r → ∀ is ∈ table.schema.indexes, is.unique = true →
      ¬ TableSchema.SameKey is r row := by
    intro r hseen is his hu hk
    obtain ⟨idx, hidx, rfl⟩ := hind.exists_index his
    obtain ⟨ord, hord⟩ := List.mem_iff_getElem?.mp hidx
    have hi := Transaction.mem_indexOrdinals.mpr hord
    have hclass := IndexKey.compare_eq_iff.mp hk
    have hmem := hseen.unique (ord, idx) hi hu
    have hhash : (idx.extractKey r).hash64 = (idx.extractKey row).hash64 :=
      ProductValue.hash64_congr hclass
    rw [hhash] at hmem
    have hne := (huniq (ord, idx) hi hu).2 _ hmem
    exact Bool.false_ne_true (hne.symm.trans (IndexKey.equal_iff.mpr hclass.symm))
  cases hh : table.rowHashIndex with
  | none =>
    simp only [hh] at h
    cases h
    refine ⟨hle, ⟨fun i hi hu => (huniq i hi hu).1, fun hne => absurd hh hne⟩, ?_⟩
    rintro r hseen (⟨is, his, hu, hk⟩ | ⟨hp, -⟩)
    · exact hsame r hseen is his hu hk
    · have := hind.hash_none_iff.mp hh
      simp [hp] at this
  | some hashes =>
    simp only [hh] at h
    split at h
    · cases h
    · next hany =>
      cases h
      refine ⟨hle.trans Pending.le_pushRow,
        ⟨fun i hi hu => Pending.le_pushRow.unique _ _ _ _ (huniq i hi hu).1,
          fun _ => Pending.mem_pushRow⟩, ?_⟩
      rintro r hseen (⟨is, his, hu, hk⟩ | ⟨-, heq⟩)
      · exact hsame r hseen is his hu hk
      · have hmem := hle.rows _ _ _ (hseen.rows (by simp [hh]))
        rw [ProductValue.hash64_congr (ProductValue.equal_iff.mp heq)] at hmem
        exact hany (List.any_eq_true.mpr ⟨r, hmem, heq⟩)

theorem revalidateInsert_ok {ins : RowID × ProductValue}
    (h : revalidateInsert txState tableID table p ins = (p', none)) :
    validateRow table.schema ins.2 = none ∧
    revalidateInsertRowID tableID table ins.1 txState = none ∧
    revalidateInsertAgainstCommitted tableID table ins.2 txState = none ∧
    revalidateInsertAgainstPending tableID table ins.2 p = (p', none) := by
  revert h
  fun_cases revalidateInsert txState tableID table p ins
  case case4 hvalid hid hcom => exact fun h => ⟨hvalid, hid, hcom, h⟩
  all_goals rintro ⟨⟩

theorem insertsReady_of_loop (hind : table.Indexed) {ins : GoMap RowID ProductValue}
    (h : loop (revalidateInsert txState tableID table) p ins.toList = (p', none)) :
    InsertsReady txState tableID table ins := by
  have hinv := loop_ok_inv
    (fun done q => (∀ e ∈ done, validateRow table.schema e.2 = none ∧
        revalidateInsertRowID tableID table e.1 txState = none ∧
        revalidateInsertAgainstCommitted tableID table e.2 txState = none ∧
        q.Seen tableID table e.2) ∧
      done.Pairwise fun a b => ¬ table.schema.Conflicts a.2 b.2)
    (by
      intro done e rest q q' _ ⟨hdone, hpair⟩ hstep
      obtain ⟨hvalid, hid, hcom, hpend⟩ := revalidateInsert_ok hstep
      obtain ⟨hle, hseen, hfree⟩ := revalidatePending_spec hind hpend
      refine ⟨fun e' he' => ?_, ?_⟩
      · rcases List.mem_append.mp he' with he' | he'
        · obtain ⟨h₁, h₂, h₃, h₄⟩ := hdone e' he'
          exact ⟨h₁, h₂, h₃, h₄.mono hle⟩
        · rw [List.mem_singleton.mp he']
          exact ⟨hvalid, hid, hcom, hseen⟩
      · refine List.pairwise_append.mpr ⟨hpair, List.pairwise_singleton _ _, ?_⟩
        intro a ha b hb
        rw [List.mem_singleton.mp hb]
        exact hfree a.2 (hdone a ha).2.2.2)
    ⟨by simp, .nil⟩ h
  obtain ⟨hall, hpair⟩ := hinv
  have hmem : ∀ (rid : RowID) (r : ProductValue), ins[rid]? = some r → (rid, r) ∈ ins.toList :=
    fun rid r hr => Std.ExtTreeMap.mem_toList_iff_getElem?_eq_some.mpr hr
  constructor
  · exact fun rid r hr => (hall _ (hmem rid r hr)).1
  · exact fun hev rid r hr hdel =>
      free_of_revalidateInsertRowID (hall _ (hmem rid r hr)).2.1 hev hdel
  · exact fun hev rid rid' r r' hr hr' hdel =>
      noConflict_of_revalidateCommitted hind (hall _ (hmem rid r hr)).2.2.1 hev hr' hdel
  · intro rid rid' r r' hr hr' hconf
    by_contra hne
    have hsymm : Std.Symm fun a b : RowID × ProductValue => ¬ table.schema.Conflicts a.2 b.2 :=
      ⟨fun a b hab hba => hab hba.symm⟩
    exact hpair.forall (hmem rid r hr) (hmem rid' r' hr')
      (fun heq => hne (congrArg Prod.fst heq)) hconf

theorem commitReady_of_revalidateCommit
    (hcs : ∀ tableID table, cs.table tableID = some table → table.Indexed)
    (h : revalidateCommit cs txState = none) : CommitReady cs txState := by
  unfold revalidateCommit at h
  split at h
  · cases h
  · next hdels =>
    refine ⟨fun _ => deletes_of_revalidateDeletes hdels, ?_⟩
    have hloop : revalidateInserts cs txState = ((revalidateInserts cs txState).1, none) :=
      Prod.ext rfl h
    have hall := loop_ok_inv
      (fun done _ => ∀ e ∈ done, ∃ table, cs.table e.1 = some table ∧
        InsertsReady txState e.1 table e.2)
      (by
        intro done e rest q q' _ hdone hstep e' he'
        rcases List.mem_append.mp he' with he' | he'
        · exact hdone e' he'
        · rw [List.mem_singleton.mp he']
          split at hstep
          · cases hstep
          · next table htable =>
            exact ⟨table, htable, insertsReady_of_loop (hcs e.1 table htable) hstep⟩)
      (by simp) hloop
    intro tableID ins hins
    exact hall (tableID, ins) (Std.ExtTreeMap.mem_toList_iff_getElem?_eq_some.mpr hins)

end Shunter
