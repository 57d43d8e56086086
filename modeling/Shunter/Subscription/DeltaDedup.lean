import Shunter.Foundation.CountedBuckets
import Shunter.Types.ProductValue

/-!
# Reconciled deltas

Bags of rows, kept by their hashes, and how the rows that a commit adds to a
result are cancelled against those it takes away.
-/

namespace Shunter.Subscription

open Foundation Foundation.CountedBuckets

/-- The rows with their multiplicities, up to `Equal`. -/
def rowBag (rows : List ProductValue) : Multiset (List (List (List Int))) :=
  bag ProductValue.rowClass rows

@[simp] theorem rowBag_nil : rowBag [] = 0 := rfl

@[simp] theorem rowBag_append (rows rows' : List ProductValue) :
    rowBag (rows ++ rows') = rowBag rows + rowBag rows' := bag_append _ rows rows'

theorem count_rowBag_cons (row b : ProductValue) (rows : List ProductValue) :
    (rowBag (row :: rows)).count b.rowClass =
      (rowBag rows).count b.rowClass + if row.rowClass = b.rowClass then 1 else 0 := by
  simp only [rowBag, bag_cons, Multiset.count_cons, eq_comm]

/-- Added and removed rows that lead from one bag of rows to another, with no row in both. -/
structure ExactDelta (before after inserts deletes : List ProductValue) : Prop where
  balance : rowBag before + rowBag inserts = rowBag after + rowBag deletes
  disjoint : ∀ r ∈ inserts, ∀ s ∈ deletes, r.equal s = false

/-- Of two lists, one that counts each row as often as a first number exceeds a second, and one
that counts the opposite, no row is in both. -/
theorem disjoint_of_counts {m n : ProductValue → Nat} {inserts deletes : List ProductValue}
    (h : ∀ b : ProductValue, (rowBag inserts).count b.rowClass = m b - n b ∧
      (rowBag deletes).count b.rowClass = n b - m b) :
    ∀ r ∈ inserts, ∀ s ∈ deletes, r.equal s = false := by
  intro r hr s hs
  rw [Bool.eq_false_iff, Ne, ProductValue.equal_iff]
  intro hrs
  have hins := Multiset.count_pos.mpr ((mem_bag ProductValue.rowClass).mpr ⟨r, hr, rfl⟩)
  have hdel := Multiset.count_pos.mpr ((mem_bag ProductValue.rowClass).mpr ⟨s, hs, rfl⟩)
  rw [← hrs] at hdel
  rw [← rowBag] at hins hdel
  have hcount := h r
  omega

theorem exactDelta_of_counts {before after inserts deletes : List ProductValue}
    (h : ∀ b : ProductValue,
      (rowBag inserts).count b.rowClass =
          (rowBag after).count b.rowClass - (rowBag before).count b.rowClass ∧
        (rowBag deletes).count b.rowClass =
          (rowBag before).count b.rowClass - (rowBag after).count b.rowClass) :
    ExactDelta before after inserts deletes := by
  refine ⟨?_, disjoint_of_counts h⟩
  rw [← rowBag_append, ← rowBag_append]
  apply bag_ext
  intro b
  obtain ⟨hins, hdel⟩ := h b
  change (rowBag _).count _ = (rowBag _).count _
  rw [rowBag_append, rowBag_append, Multiset.count_add, Multiset.count_add, hins, hdel]
  omega

/-! ## Row counts -/

abbrev RowCounts := CountedBuckets UInt64 ProductValue

theorem row_classified :
    Classified ProductValue.hash64 ProductValue.equal ProductValue.rowClass :=
  ⟨fun _ _ => ProductValue.equal_iff, fun _ _ => ProductValue.hash64_congr⟩

/-- The counts and, in `order`, where each row has been put. -/
structure OrderedCounts where
  rows : RowCounts
  order : List (UInt64 × Nat)

def incrementRowBag (c : OrderedCounts) (row : ProductValue) : OrderedCounts :=
  let (rows, added) := increment ProductValue.hash64 ProductValue.equal c.rows row
  ⟨rows, c.order ++ added.toList⟩

def decrementRowCount (counts : RowCounts) (row : ProductValue) : Option RowCounts :=
  decrement ProductValue.hash64 ProductValue.equal counts row

def countRows (rows : List ProductValue) : RowCounts :=
  countAll ProductValue.hash64 ProductValue.equal rows

def appendReconciledRows (c : OrderedCounts) : List ProductValue := emitted c.rows c.order

structure DedupState where
  insertRows : OrderedCounts
  deleteRows : OrderedCounts

/-- A removed row cancels an added one, if there is one left. -/
def DedupState.remove (st : DedupState) (row : ProductValue) : DedupState :=
  match decrementRowCount st.insertRows.rows row with
  | some rows => { st with insertRows := { st.insertRows with rows := rows } }
  | none => { st with deleteRows := incrementRowBag st.deleteRows row }

def reconcileJoinDelta (insertFragments deleteFragments : List (List ProductValue)) :
    List ProductValue × List ProductValue :=
  let added := insertFragments.flatten.foldl incrementRowBag ⟨∅, []⟩
  let st := deleteFragments.flatten.foldl DedupState.remove ⟨added, ⟨∅, []⟩⟩
  (appendReconciledRows st.insertRows, appendReconciledRows st.deleteRows)

/-- The rows of `current` without those of `inserted`. -/
def subtractProjectedRowsByKey (current inserted : List ProductValue) : List ProductValue :=
  dropHeld ProductValue.hash64 ProductValue.equal (countRows inserted) current

/-! ## What is left -/

namespace OrderedCounts

def held (c : OrderedCounts) (row : ProductValue) : Nat :=
  CountedBuckets.held ProductValue.hash64 ProductValue.equal c.rows row

def Lists (c : OrderedCounts) : Prop := CountedBuckets.Lists ProductValue.hash64 c.rows c.order

theorem held_increment (c : OrderedCounts) (row b : ProductValue) :
    (incrementRowBag c row).held b = c.held b + if row.rowClass = b.rowClass then 1 else 0 :=
  CountedBuckets.held_increment row_classified

variable {c : OrderedCounts}

theorem Lists.increment (h : c.Lists) (row : ProductValue) : (incrementRowBag c row).Lists :=
  CountedBuckets.Lists.increment h row

theorem Lists.count (h : c.Lists) (b : ProductValue) :
    (rowBag (appendReconciledRows c)).count b.rowClass = c.held b :=
  count_emitted row_classified h

theorem foldl_increment (h : c.Lists) (rows : List ProductValue) :
    (rows.foldl incrementRowBag c).Lists ∧
      ∀ b, (rows.foldl incrementRowBag c).held b = c.held b + (rowBag rows).count b.rowClass := by
  induction rows generalizing c with
  | nil => simp [h]
  | cons row rows ih =>
    obtain ⟨hlists, hheld⟩ := ih (h.increment row)
    refine ⟨hlists, fun b => ?_⟩
    rw [List.foldl_cons, hheld, held_increment, count_rowBag_cons]
    omega

end OrderedCounts

namespace DedupState

variable {st : DedupState}

def Lists (st : DedupState) : Prop := st.insertRows.Lists ∧ st.deleteRows.Lists

theorem Lists.remove (h : st.Lists) (row : ProductValue) : (st.remove row).Lists := by
  unfold DedupState.remove
  split
  · next rows hrows => exact ⟨h.1.decrement hrows, h.2⟩
  · exact ⟨h.1, h.2.increment row⟩

/-- A removed row either uses up one of the added rows or is kept, and it is only kept when
no added row is left. -/
theorem remove_held (row b : ProductValue) :
    (st.remove row).insertRows.held b =
        st.insertRows.held b - (if row.rowClass = b.rowClass then 1 else 0) ∧
      (st.remove row).deleteRows.held b =
        st.deleteRows.held b + ((if row.rowClass = b.rowClass then 1 else 0) -
          st.insertRows.held b) := by
  unfold DedupState.remove
  split
  · next rows hrows =>
    have hheld := held_decrement (b := b) row_classified hrows
    change st.insertRows.held b = OrderedCounts.held { st.insertRows with rows := rows } b + _
      at hheld
    dsimp only
    by_cases hrow : row.rowClass = b.rowClass
    · simp only [hrow, if_true] at hheld ⊢
      omega
    · simp only [hrow, if_false] at hheld ⊢
      omega
  · next hnone =>
    have hzero : st.insertRows.held row = 0 := decrement_eq_none.mp hnone
    rw [OrderedCounts.held_increment]
    by_cases hrow : row.rowClass = b.rowClass
    · have hsame : st.insertRows.held b = st.insertRows.held row :=
        held_congr row_classified hrow.symm
      simp [hrow, hsame, hzero]
    · simp [hrow]

theorem foldl_remove (h : st.Lists) (rows : List ProductValue) :
    (rows.foldl DedupState.remove st).Lists ∧ ∀ b,
      (rows.foldl DedupState.remove st).insertRows.held b =
          st.insertRows.held b - (rowBag rows).count b.rowClass ∧
        (rows.foldl DedupState.remove st).deleteRows.held b =
          st.deleteRows.held b + ((rowBag rows).count b.rowClass - st.insertRows.held b) := by
  induction rows generalizing st with
  | nil => simp [h]
  | cons row rows ih =>
    obtain ⟨hlists, hheld⟩ := ih (h.remove row)
    refine ⟨hlists, fun b => ?_⟩
    obtain ⟨hins, hdel⟩ := hheld b
    obtain ⟨hins', hdel'⟩ := st.remove_held row b
    rw [List.foldl_cons, hins, hdel, hins', hdel', count_rowBag_cons]
    constructor <;> split <;> omega

end DedupState

section Reconcile

variable (ins dels : List (List ProductValue))

theorem count_reconcileJoinDelta (b : ProductValue) :
    (rowBag (reconcileJoinDelta ins dels).1).count b.rowClass =
        (rowBag ins.flatten).count b.rowClass - (rowBag dels.flatten).count b.rowClass ∧
      (rowBag (reconcileJoinDelta ins dels).2).count b.rowClass =
        (rowBag dels.flatten).count b.rowClass - (rowBag ins.flatten).count b.rowClass := by
  have hempty : OrderedCounts.Lists ⟨∅, []⟩ := CountedBuckets.Lists.empty
  have hzero : ∀ b, OrderedCounts.held ⟨∅, []⟩ b = 0 := held_empty _ _
  obtain ⟨hadded, hheld⟩ := OrderedCounts.foldl_increment hempty ins.flatten
  have hstart : DedupState.Lists ⟨_, ⟨∅, []⟩⟩ := ⟨hadded, hempty⟩
  obtain ⟨hlists, hleft⟩ := DedupState.foldl_remove hstart dels.flatten
  obtain ⟨hins, hdel⟩ := hleft b
  rw [reconcileJoinDelta, hlists.1.count, hlists.2.count, hins, hdel]
  simp [hheld, hzero]

theorem reconcileJoinDelta_balance :
    rowBag (reconcileJoinDelta ins dels).1 + rowBag dels.flatten =
      rowBag ins.flatten + rowBag (reconcileJoinDelta ins dels).2 := by
  rw [← rowBag_append, ← rowBag_append]
  apply bag_ext
  intro b
  obtain ⟨hins, hdel⟩ := count_reconcileJoinDelta ins dels b
  change (rowBag _).count _ = (rowBag _).count _
  rw [rowBag_append, rowBag_append, Multiset.count_add, Multiset.count_add, hins, hdel]
  omega

variable {ins dels}

theorem reconcileJoinDelta_disjoint :
    ∀ r ∈ (reconcileJoinDelta ins dels).1, ∀ s ∈ (reconcileJoinDelta ins dels).2,
      r.equal s = false :=
  disjoint_of_counts (count_reconcileJoinDelta ins dels)

theorem reconcileJoinDelta_exact_iff {before after : List ProductValue} :
    ExactDelta before after (reconcileJoinDelta ins dels).1 (reconcileJoinDelta ins dels).2 ↔
      rowBag before + rowBag ins.flatten = rowBag after + rowBag dels.flatten := by
  have hrec := reconcileJoinDelta_balance ins dels
  constructor
  · intro h
    apply add_right_cancel (b := rowBag (reconcileJoinDelta ins dels).2)
    rw [add_assoc, ← hrec, ← add_assoc, h.balance]
    abel
  · intro h
    refine ⟨?_, reconcileJoinDelta_disjoint⟩
    apply add_right_cancel (b := rowBag dels.flatten)
    rw [add_assoc, hrec, ← add_assoc, h]
    abel

end Reconcile

theorem rowBag_subtractProjectedRowsByKey {current inserted rest : List ProductValue}
    (h : rowBag current = rowBag rest + rowBag inserted) :
    rowBag (subtractProjectedRowsByKey current inserted) = rowBag rest :=
  bag_dropHeld row_classified h

theorem mem_of_mem_subtractProjectedRowsByKey {current inserted : List ProductValue}
    {row : ProductValue} (h : row ∈ subtractProjectedRowsByKey current inserted) :
    row ∈ current :=
  mem_of_mem_dropHeld h

end Shunter.Subscription
