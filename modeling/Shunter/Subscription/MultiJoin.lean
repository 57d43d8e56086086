import Shunter.Foundation.TupleWalk
import Shunter.Subscription.DeltaDedup
import Shunter.Subscription.Predicate

/-!
# Joins of several relations

A nested loop over the rows of all relations, which checks the equality
conditions as soon as both their rows are there and the filter at the end.  It
visits the tuples that satisfy all conditions and the filter.
-/

namespace Shunter.Subscription

open Foundation

def multiJoinConditionColumnValue (tuple : List ProductValue) (ref : MultiJoinColumnRef) :
    Option Value := do
  let row ← tuple[ref.relation]?
  rowValue row ref.column

def multiJoinConditionValuesEqual (tuple : List ProductValue) (left right : MultiJoinColumnRef) :
    Bool :=
  (multiJoinConditionColumnValue tuple left).any fun l =>
    (multiJoinConditionColumnValue tuple right).any fun r => l.equal r

def multiJoinConditionsMatchPrefix (conditions : List MultiJoinCondition)
    (tuple : List ProductValue) (depth : Nat) : Bool :=
  conditions.all fun condition =>
    depth < condition.left.relation || depth < condition.right.relation ||
      multiJoinConditionValuesEqual tuple condition.left condition.right

def MultiJoin.keeps (p : MultiJoin) (tuple : List ProductValue) : Bool :=
  tuple = [] || multiJoinConditionsMatchPrefix p.conditions tuple (tuple.length - 1)

def visitMultiJoinTuples (p : MultiJoin) (rowsByRelation : List (List ProductValue)) :
    List (List ProductValue) :=
  if p.relations.length ≤ p.projectedRelation ∨ rowsByRelation.length < p.relations.length then []
  else
    (walk p.keeps ((rowsByRelation.take p.relations.length).map fun rows _ => rows) []).filter
      (matchMultiJoinTuple p.filter p.relations)

def collectMultiJoinProjectedRows (p : MultiJoin) (rowsByRelation : List (List ProductValue))
    (projection : List ProjectionColumn) : List ProductValue :=
  (visitMultiJoinTuples p rowsByRelation).map
    (projectMultiJoinTuple · p.relations p.projectedRelation projection)

/-! ## The tuples of a join -/

/-- All conditions and the filter hold.  A condition on a relation that the join does not have,
which validation rejects, is never checked. -/
def MultiJoin.accepts (p : MultiJoin) (tuple : List ProductValue) : Bool :=
  (p.conditions.all fun condition =>
    tuple.length ≤ condition.left.relation || tuple.length ≤ condition.right.relation ||
      multiJoinConditionValuesEqual tuple condition.left condition.right) &&
    matchMultiJoinTuple p.filter p.relations tuple

def MultiJoin.projectedRows (p : MultiJoin) (projection : List ProjectionColumn)
    (rows : TableID → List ProductValue) : List ProductValue :=
  ((tuples (p.relations.map fun rel => rows rel.table)).filter p.accepts).map
    (projectMultiJoinTuple · p.relations p.projectedRelation projection)

namespace MultiJoin

variable {p : MultiJoin} {projection : List ProjectionColumn}

theorem keeps_eq (p : MultiJoin) (tuple : List ProductValue) :
    p.keeps tuple = p.conditions.all fun condition =>
      tuple.length ≤ condition.left.relation || tuple.length ≤ condition.right.relation ||
        multiJoinConditionValuesEqual tuple condition.left condition.right := by
  cases tuple with
  | nil => simp [keeps]
  | cons row tuple =>
    simp [keeps, multiJoinConditionsMatchPrefix]

theorem multiJoinConditionColumnValue_append {tuple : List ProductValue}
    {ref : MultiJoinColumnRef} (h : ref.relation < tuple.length) (row : ProductValue) :
    multiJoinConditionColumnValue (tuple ++ [row]) ref = multiJoinConditionColumnValue tuple ref := by
  rw [multiJoinConditionColumnValue, multiJoinConditionColumnValue, List.getElem?_append_left h]

theorem keeps_mono (p : MultiJoin) (tuple : List ProductValue) (row : ProductValue)
    (h : p.keeps (tuple ++ [row]) = true) : p.keeps tuple = true := by
  rw [keeps_eq, List.all_eq_true] at h ⊢
  intro condition hmem
  have hcond := h condition hmem
  simp only [List.length_append, List.length_singleton, Bool.or_eq_true, decide_eq_true_iff]
    at hcond ⊢
  by_cases hleft : tuple.length ≤ condition.left.relation
  · exact .inl (.inl hleft)
  by_cases hright : tuple.length ≤ condition.right.relation
  · exact .inl (.inr hright)
  rcases hcond with (hcond | hcond) | hcond
  · omega
  · omega
  · rw [multiJoinConditionValuesEqual, multiJoinConditionColumnValue_append (by omega),
      multiJoinConditionColumnValue_append (by omega)] at hcond
    exact .inr hcond

variable {rowsByRelation : List (List ProductValue)}

theorem visitMultiJoinTuples_perm (hprojected : p.projectedRelation < p.relations.length)
    (hlen : rowsByRelation.length = p.relations.length) :
    (visitMultiJoinTuples p rowsByRelation).Perm ((tuples rowsByRelation).filter p.accepts) := by
  have hwalk := walk_perm p.keeps_mono (t := [])
    (candidates_all p.keeps 0 rowsByRelation) (by simp [keeps])
  have haccepts : p.accepts = fun tuple =>
      p.keeps tuple && matchMultiJoinTuple p.filter p.relations tuple := by
    funext tuple
    rw [accepts, keeps_eq]
  rw [visitMultiJoinTuples, if_neg (by omega), ← hlen, List.take_length, haccepts]
  simpa [List.filter_filter, Bool.and_comm] using hwalk.filter _

def weight (p : MultiJoin) (projection : List ProjectionColumn) (tuple : List ProductValue) :
    Multiset (List (List (List Int))) :=
  if p.accepts tuple then
    {(projectMultiJoinTuple tuple p.relations p.projectedRelation projection).rowClass}
  else 0

theorem rowBag_projected (p : MultiJoin) (projection : List ProjectionColumn)
    (ts : List (List ProductValue)) :
    rowBag ((ts.filter p.accepts).map
      (projectMultiJoinTuple · p.relations p.projectedRelation projection)) =
      total (p.weight projection) ts := by
  induction ts with
  | nil => rfl
  | cons tuple ts ih =>
    rw [total_cons, ← ih, weight]
    cases haccepts : p.accepts tuple <;> simp [haccepts, rowBag]

theorem rowBag_collectMultiJoinProjectedRows
    (hprojected : p.projectedRelation < p.relations.length)
    (hlen : rowsByRelation.length = p.relations.length) :
    rowBag (collectMultiJoinProjectedRows p rowsByRelation projection) =
      total (p.weight projection) (tuples rowsByRelation) := by
  rw [← rowBag_projected]
  exact bag_perm _ ((visitMultiJoinTuples_perm hprojected hlen).map _)

/-! ## Only the classes matter -/

section Congr

variable {tuple tuple' : List ProductValue}
  (h : tuple.map ProductValue.rowClass = tuple'.map ProductValue.rowClass)
include h

theorem rank_of_multiJoinConditionColumnValue (ref : MultiJoinColumnRef) :
    (multiJoinConditionColumnValue tuple ref).map Value.rank =
      (multiJoinConditionColumnValue tuple' ref).map Value.rank := by
  have hrow := congrArg (·[ref.relation]?) h
  simp only [List.getElem?_map] at hrow
  unfold multiJoinConditionColumnValue
  cases hl : tuple[ref.relation]? <;> cases hr : tuple'[ref.relation]? <;> simp [hl, hr] at hrow ⊢
  exact rank_of_rowValue hrow ref.column

theorem multiJoinConditionValuesEqual_congr (left right : MultiJoinColumnRef) :
    multiJoinConditionValuesEqual tuple left right =
      multiJoinConditionValuesEqual tuple' left right := by
  have hleft := rank_of_multiJoinConditionColumnValue h left
  have hright := rank_of_multiJoinConditionColumnValue h right
  unfold multiJoinConditionValuesEqual
  cases hl : multiJoinConditionColumnValue tuple left <;>
    cases hl' : multiJoinConditionColumnValue tuple' left <;>
    cases hr : multiJoinConditionColumnValue tuple right <;>
    cases hr' : multiJoinConditionColumnValue tuple' right <;>
    simp [hl, hl', hr, hr'] at hleft hright ⊢
  exact equal_congr hleft hright

theorem accepts_congr (p : MultiJoin) : p.accepts tuple = p.accepts tuple' := by
  have hlen := congrArg List.length h
  simp only [List.length_map] at hlen
  simp only [accepts, hlen, multiJoinConditionValuesEqual_congr h, matchMultiJoinTuple_congr _ _ h]

theorem rowClass_projectMultiJoinTuple (p : MultiJoin) (projection : List ProjectionColumn) :
    (projectMultiJoinTuple tuple p.relations p.projectedRelation projection).rowClass =
      (projectMultiJoinTuple tuple' p.relations p.projectedRelation projection).rowClass := by
  have hrow : ∀ i : Nat, tuple[i]?.map ProductValue.rowClass =
      tuple'[i]?.map ProductValue.rowClass := by
    intro i
    simpa using congrArg (·[i]?) h
  unfold projectMultiJoinTuple
  split
  · have hprojected := hrow p.projectedRelation
    cases hl : tuple[p.projectedRelation]? <;> cases hr : tuple'[p.projectedRelation]? <;>
      simp [hl, hr] at hprojected ⊢
    exact hprojected
  · rw [ProductValue.rowClass, ProductValue.rowClass, List.map_filterMap, List.map_filterMap]
    congr 1
    funext col
    cases multiJoinProjectionRelation p.relations col with
    | none => rfl
    | some i =>
      have hi := hrow i
      cases hl : tuple[i]? <;> cases hr : tuple'[i]? <;> simp [hl, hr] at hi ⊢
      exact rank_of_rowValue hi col.column

end Congr

theorem weight_congr (p : MultiJoin) (projection : List ProjectionColumn) :
    TupleCongr ProductValue.rowClass (p.weight projection) := by
  intro tuple tuple' h
  rw [weight, weight, accepts_congr h p, rowClass_projectMultiJoinTuple h p projection]

end MultiJoin

end Shunter.Subscription
