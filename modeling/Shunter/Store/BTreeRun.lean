import Shunter.Store.BTreeIndex

/-!
# Runs of the paged index

After any calls of `Insert` and `Remove` the index holds the pairs that were
inserted and not removed since.  Keys that compare equal are one key, so the
pairs are kept with the classes of their keys.
-/

namespace Shunter.BTreeIndex

open Foundation ProductValue

inductive IndexOp where
  | insert (key : IndexKey) (rowID : RowID)
  | remove (key : IndexKey) (rowID : RowID)

def IndexOp.apply (b : BTreeIndex) : IndexOp → BTreeIndex
  | .insert key rowID => b.insert key rowID
  | .remove key rowID => b.remove key rowID

abbrev KeyedRowID := List (List (List Int)) × RowID

def IndexOp.applyLive (live : Finset KeyedRowID) : IndexOp → Finset KeyedRowID
  | .insert key rowID => Insert.insert (rowClass key, rowID) live
  | .remove key rowID => live.erase (rowClass key, rowID)

def run (ops : List IndexOp) : BTreeIndex := ops.foldl IndexOp.apply new

/-- The pairs that were inserted and not removed since. -/
def liveAfter (ops : List IndexOp) : Finset KeyedRowID := ops.foldl IndexOp.applyLive ∅

/-- `slices.BinarySearchFunc` as it searches. -/
def binarySearchFunc {α : Type} (l : List α) (cmp : α → Ordering) : Nat × Bool :=
  let i := halve (fun i => l[i]?.any fun x => cmp x == .lt) 0 l.length
  (i, (l[i]?.map fun x => cmp x == .eq).getD false)

/-! ## What the index holds -/

variable {b : BTreeIndex}

def keyedRowIDs (b : BTreeIndex) : List KeyedRowID :=
  (Foundation.mappings b.entries).map fun p => (rowClass p.1, p.2)

theorem mem_keyedRowIDs (h : b.Inv) {p : KeyedRowID} :
    p ∈ b.keyedRowIDs ↔ ∃ key, rowClass key = p.1 ∧ p.2 ∈ b.rowIDs key := by
  rw [keyedRowIDs, List.mem_map]
  constructor
  · rintro ⟨⟨key, rowID⟩, hmem, rfl⟩
    refine ⟨key, rfl, ?_⟩
    rw [rowIDs_eq_lookup h]
    exact mem_lookup_of_mem_mappings h.wellFormed.sorted hmem
  · rintro ⟨key, hkey, hmem⟩
    rw [rowIDs_eq_lookup h] at hmem
    obtain ⟨k, hk, hmem⟩ := exists_mapping_of_mem_lookup hmem
    refine ⟨(k, p.2), hmem, ?_⟩
    rw [IndexKey.compare_eq_iff.mp hk, hkey]

variable {key : IndexKey} {rowID : RowID}

theorem mem_rowIDs_congr (h : b.Inv) {k : IndexKey} (hk : rowClass k = rowClass key) :
    rowID ∈ b.rowIDs k ↔ rowID ∈ b.rowIDs key := by
  simp only [rowIDs_eq_lookup h, mem_lookup_iff h.wellFormed.sorted, IndexKey.compare_eq_iff, hk]

theorem mem_keyedRowIDs_class (h : b.Inv) :
    (rowClass key, rowID) ∈ b.keyedRowIDs ↔ rowID ∈ b.rowIDs key := by
  rw [mem_keyedRowIDs h]
  constructor
  · rintro ⟨k, hk, hmem⟩
    exact (mem_rowIDs_congr h hk).mp hmem
  · exact fun hmem => ⟨key, rfl, hmem⟩

theorem nodup_keyedRowIDs (h : b.Inv) : b.keyedRowIDs.Nodup := by
  rw [keyedRowIDs, List.Nodup, List.pairwise_map]
  refine (mappings_increasing h.wellFormed).imp ?_
  rintro ⟨k, r⟩ ⟨k', r'⟩ hlt heq
  obtain ⟨hk, rfl⟩ := Prod.mk.inj heq
  simp [IndexKey.compare_eq_iff.mpr hk] at hlt

structure Holds (b : BTreeIndex) (live : Finset KeyedRowID) : Prop where
  inv : b.Inv
  mem : ∀ p, p ∈ b.keyedRowIDs ↔ p ∈ live

theorem Holds.apply {live : Finset KeyedRowID} (h : b.Holds live) (op : IndexOp) :
    (op.apply b).Holds (op.applyLive live) := by
  cases op with
  | insert key rowID =>
    have hinv := insert_inv h.inv key rowID
    refine ⟨hinv, fun p => ?_⟩
    rw [IndexOp.applyLive, Finset.mem_insert, ← h.mem]
    change p ∈ (b.insert key rowID).keyedRowIDs ↔ _
    rw [mem_keyedRowIDs hinv, mem_keyedRowIDs h.inv]
    simp only [mem_rowIDs_insert h.inv, IndexKey.compare_eq_iff, and_or_left, exists_or,
      Prod.ext_iff]
    refine or_congr ⟨?_, fun hp => ⟨key, hp.1.symm, rfl, hp.2⟩⟩ Iff.rfl
    rintro ⟨k, hk, hkey, hrow⟩
    exact ⟨(hkey.trans hk).symm, hrow⟩
  | remove key rowID =>
    have hinv := remove_inv h.inv key rowID
    refine ⟨hinv, fun p => ?_⟩
    rw [IndexOp.applyLive, Finset.mem_erase, ← h.mem]
    change p ∈ (b.remove key rowID).keyedRowIDs ↔ _
    rw [mem_keyedRowIDs hinv, mem_keyedRowIDs h.inv]
    simp only [mem_rowIDs_remove h.inv, IndexKey.compare_eq_iff, ne_eq, Prod.ext_iff]
    constructor
    · rintro ⟨k, hk, hmem, hnot⟩
      exact ⟨fun hp => hnot ⟨(hk.trans hp.1).symm, hp.2⟩, k, hk, hmem⟩
    · rintro ⟨hnot, k, hk, hmem⟩
      exact ⟨k, hk, hmem, fun hp => hnot ⟨(hp.1.trans hk).symm, hp.2⟩⟩

theorem run_holds (ops : List IndexOp) : (run ops).Holds (liveAfter ops) := by
  induction ops using List.reverseRecOn with
  | nil => exact ⟨new_inv, by simp [run, liveAfter, keyedRowIDs, new, entries, Foundation.mappings]⟩
  | append_singleton ops op ih =>
    rw [run, liveAfter, List.foldl_append, List.foldl_append]
    exact ih.apply op

/-! ## Searches -/

theorem binarySearchFunc_eq {α : Type} {l : List α} {cmp : α → Ordering}
    (h : l.Pairwise fun x y => cmp y = .lt → cmp x = .lt) :
    binarySearchFunc l cmp = binarySearch l cmp := by
  have hidx : halve (fun i => l[i]?.any fun x => cmp x == .lt) 0 l.length =
      l.findIdx fun x => cmp x != .lt :=
    halve_eq_findIdx (by simpa using h)
  simp only [binarySearchFunc, binarySearch, hidx]

theorem pages_split (h : b.Inv) (key : IndexKey) :
    b.pages.Pairwise fun p q => compareLastKey q key = .lt → compareLastKey p key = .lt := by
  obtain ⟨hpages, hacross⟩ := List.pairwise_flatten.mp h.wellFormed.sorted
  refine hacross.imp_of_mem fun {p q} hp hq hpq hlt => ?_
  obtain ⟨e, he⟩ := List.exists_mem_of_ne_nil q (h.pages_nonempty q hq)
  have hkey := lt_of_compareLastKey_lt (hpages q hq) hlt e he
  unfold compareLastKey
  split
  · next last hlast =>
    exact Std.TransCmp.lt_trans (hpq last (List.mem_of_getLast? hlast) e he) hkey
  · rfl

/-- Every binary search that the operations make finds the position at which they go on. -/
structure SearchesFind (b : BTreeIndex) : Prop where
  pages : ∀ key, binarySearchFunc b.pages (compareLastKey · key) =
    binarySearch b.pages (compareLastKey · key)
  entries : ∀ p ∈ b.pages, ∀ key, binarySearchFunc p (·.key.compare key) =
    binarySearch p (·.key.compare key)
  rowIDs : ∀ p ∈ b.pages, ∀ e ∈ p, ∀ rowID,
    (binarySearchFunc e.values (Ord.compare · rowID)).1 =
      e.values.findIdx fun id => decide (rowID ≤ id)

theorem Inv.searchesFind (h : b.Inv) : b.SearchesFind where
  pages key := binarySearchFunc_eq (pages_split h key)
  entries p hp key := by
    apply binarySearchFunc_eq
    exact (h.page_sorted hp).imp fun hlt hkey => Std.TransCmp.lt_trans hlt hkey
  rowIDs p hp e he rowID := by
    have hinc := h.wellFormed.increasing e (List.mem_flatten_of_mem hp he)
    rw [binarySearchFunc_eq (hinc.imp fun hlt hid => ?_), binarySearch]
    · apply congrArg fun p => e.values.findIdx p
      funext id
      rw [Bool.eq_iff_iff]
      simp [Nat.compare_eq_lt]
    · rw [Nat.compare_eq_lt] at hid ⊢
      exact hlt.trans hid

/-! ## Ranges -/

theorem mem_filter_mappings (h : b.Inv) {low high : Bound} :
    (∃ k, k.compare key = .eq ∧
        (k, rowID) ∈ Foundation.mappings (b.entries.filter (inBounds low high))) ↔
      rowID ∈ b.rowIDs key ∧ matchesLowerBound key low = true ∧
        matchesUpperBound key high = true := by
  simp only [rowIDs_eq_lookup h, mem_lookup_iff h.wellFormed.sorted, mem_mappings,
    List.mem_filter, inBounds, Bool.and_eq_true]
  constructor
  · rintro ⟨k, hk, e, ⟨he, hlow, hhigh⟩, rfl, hmem⟩
    rw [matchesLowerBound_congr hk] at hlow
    rw [matchesUpperBound_congr hk] at hhigh
    exact ⟨⟨e, he, hk, hmem⟩, hlow, hhigh⟩
  · rintro ⟨⟨e, he, hk, hmem⟩, hlow, hhigh⟩
    rw [← matchesLowerBound_congr hk] at hlow
    rw [← matchesUpperBound_congr hk] at hhigh
    exact ⟨e.key, hk, e, ⟨he, hlow, hhigh⟩, rfl, hmem⟩

theorem collectBounds_mappings (h : b.Inv) (low high : Bound) :
    b.collectBounds low high =
      (Foundation.mappings (b.entries.filter (inBounds low high))).map Prod.snd := by
  simp [collectBounds_eq h, Foundation.mappings, List.map_flatMap, Function.comp_def]

/-- In every run the paged index is the sorted multimap of the live pairs. -/
theorem index_refines_multimap (ops : List IndexOp) :
    (∀ p ∈ (run ops).pages, p ≠ [] ∧ p.length ≤ 64) ∧
    ((run ops).pages.flatten.Pairwise fun e f => e.key.compare f.key = .lt) ∧
    (∀ p ∈ (run ops).pages, ∀ e ∈ p, e.values.Pairwise (· < ·)) ∧
    (run ops).SearchesFind ∧
    (run ops).len = (liveAfter ops).card ∧
    (∀ key, ((run ops).seek key).Pairwise (· < ·) ∧
      ∀ rowID, rowID ∈ (run ops).seek key ↔ (rowClass key, rowID) ∈ liveAfter ops) ∧
    ∀ low high, ∃ found : List (IndexKey × RowID),
      (run ops).collectBounds low high = found.map Prod.snd ∧
      (found.Pairwise fun p q =>
        p.1.compare q.1 = .lt ∨ p.1.compare q.1 = .eq ∧ p.2 < q.2) ∧
      ∀ key rowID, (∃ k, k.compare key = .eq ∧ (k, rowID) ∈ found) ↔
        (rowClass key, rowID) ∈ liveAfter ops ∧
          matchesLowerBound key low = true ∧ matchesUpperBound key high = true := by
  obtain ⟨hinv, hmem⟩ := run_holds ops
  have hlive : ∀ key rowID, rowID ∈ (run ops).rowIDs key ↔
      (rowClass key, rowID) ∈ liveAfter ops :=
    fun key rowID => (mem_keyedRowIDs_class hinv).symm.trans (hmem _)
  refine ⟨fun p hp => ⟨hinv.pages_nonempty p hp, hinv.pages_bounded p hp⟩,
    hinv.wellFormed.sorted, fun p hp e he => ?_, hinv.searchesFind, ?_,
    fun key => ⟨rowIDs_increasing hinv key, hlive key⟩, fun low high => ?_⟩
  · exact hinv.wellFormed.increasing e (List.mem_flatten_of_mem hp he)
  · have hset : (run ops).keyedRowIDs.toFinset = liveAfter ops := by
      ext p
      rw [List.mem_toFinset, hmem]
    rw [← hset, List.toFinset_card_of_nodup (nodup_keyedRowIDs hinv), keyedRowIDs,
      List.length_map, length_mappings, len, hinv.mappings_eq]
  · refine ⟨_, collectBounds_mappings hinv low high, ?_, fun key rowID => ?_⟩
    · have hsub : ((run ops).entries.filter (inBounds low high)).Sublist (run ops).entries := List.filter_sublist
      exact List.Pairwise.sublist (hsub.flatMap _) (mappings_increasing hinv.wellFormed)
    · rw [mem_filter_mappings hinv, hlive]

end Shunter.BTreeIndex
