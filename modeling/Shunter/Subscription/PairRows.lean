import Shunter.Subscription.DeltaDedup

/-!
# Rows of selected pairs

A join of two sides selects pairs of rows and emits one row of each pair.  As
a bag, the result is linear in either side.
-/

namespace Shunter.Subscription

open Foundation

/-- Which pairs are selected, and which side is emitted.  Only the classes of the rows matter. -/
structure PairSelection where
  accepts : ProductValue → ProductValue → Bool
  projectRight : Bool
  congr : ∀ l l' r r', l.rowClass = l'.rowClass → r.rowClass = r'.rowClass →
    accepts l r = accepts l' r'

namespace PairSelection

variable (s : PairSelection)

def emitted (l r : ProductValue) : ProductValue := if s.projectRight then r else l

def rows (left right : List ProductValue) : List ProductValue :=
  ((left ×ˢ right).filter fun lr => s.accepts lr.1 lr.2).map fun lr => s.emitted lr.1 lr.2

def weight (l r : ProductValue) : Multiset (List (List (List Int))) :=
  if s.accepts l r then {(s.emitted l r).rowClass} else 0

def pairs (left right : List ProductValue) : Multiset (List (List (List Int))) :=
  total (fun l => total (s.weight l) right) left

theorem weight_congr {l l' r r' : ProductValue} (hl : l.rowClass = l'.rowClass)
    (hr : r.rowClass = r'.rowClass) : s.weight l r = s.weight l' r' := by
  have hemitted : (s.emitted l r).rowClass = (s.emitted l' r').rowClass := by
    unfold emitted
    split <;> assumption
  rw [weight, weight, s.congr l l' r r' hl hr, hemitted]

theorem rowBag_filter_map (l : ProductValue) (right : List ProductValue) :
    rowBag ((right.filter (s.accepts l)).map (s.emitted l)) = total (s.weight l) right := by
  induction right with
  | nil => rfl
  | cons r right ih =>
    rw [total_cons, ← ih, weight]
    cases haccepts : s.accepts l r <;> simp [haccepts, rowBag]

theorem rows_eq_flatMap (left right : List ProductValue) :
    s.rows left right = left.flatMap fun l =>
      (right.filter (s.accepts l)).map (s.emitted l) := by
  rw [rows]
  induction left with
  | nil => rfl
  | cons l left ih =>
    rw [List.flatMap_cons, ← ih, List.product_cons, List.filter_append, List.map_append,
      List.filter_map, List.map_map]
    rfl

theorem rowBag_rows (left right : List ProductValue) :
    rowBag (s.rows left right) = s.pairs left right := by
  rw [rows_eq_flatMap, rowBag, bag_flatMap, pairs]
  exact total_congr fun l _ => s.rowBag_filter_map l right

def matched (left right : List ProductValue) : List (ProductValue × ProductValue) :=
  (left ×ˢ right).filter fun lr => s.accepts lr.1 lr.2

theorem matched_eq_flatMap (left right : List ProductValue) :
    s.matched left right = left.flatMap fun l => (right.filter (s.accepts l)).map (l, ·) := by
  rw [matched]
  induction left with
  | nil => rfl
  | cons l left ih =>
    rw [List.flatMap_cons, ← ih, List.product_cons, List.filter_append, List.filter_map]
    rfl

theorem bag_matched {κ : Type*} (f : ProductValue × ProductValue → κ)
    (left right : List ProductValue) :
    bag f (s.matched left right) =
      total (fun l => total (fun r => if s.accepts l r then {f (l, r)} else 0) right) left := by
  rw [matched_eq_flatMap, bag_flatMap]
  apply total_congr
  intro l _
  rw [bag_map, bag_filter]
  rfl

theorem bag_matched_congr {κ : Type*} {f : ProductValue × ProductValue → κ}
    (hf : ∀ l l' r r' : ProductValue, l.rowClass = l'.rowClass → r.rowClass = r'.rowClass →
      f (l, r) = f (l', r')) {left left' right right' : List ProductValue}
    (hl : rowBag left = rowBag left') (hr : rowBag right = rowBag right') :
    bag f (s.matched left right) = bag f (s.matched left' right') := by
  rw [bag_matched, bag_matched]
  apply total_pairs_congr _ _ hl hr
  · intro r l l' h
    simp only [s.congr l l' r r h rfl, hf l l' r r h rfl]
  · intro l r r' h
    simp only [s.congr l l r r' rfl h, hf l l r r' rfl h]

section Linear

variable {s} {l l' r r' : List ProductValue}

theorem pairs_congr (hl : rowBag l = rowBag l') (hr : rowBag r = rowBag r') :
    s.pairs l r = s.pairs l' r' := by
  have hleft : ∀ b, (fun a => s.weight a b).FactorsThrough ProductValue.rowClass :=
    fun b a a' h => s.weight_congr h rfl
  have hright : ∀ a, (s.weight a).FactorsThrough ProductValue.rowClass :=
    fun a b b' h => s.weight_congr rfl h
  exact total_pairs_congr hleft hright hl hr

@[simp] theorem pairs_append_left : s.pairs (l ++ l') r = s.pairs l r + s.pairs l' r :=
  total_append _ l l'

@[simp] theorem pairs_append_right : s.pairs l (r ++ r') = s.pairs l r + s.pairs l r' := by
  simp only [pairs, total_append, total_add]

@[simp] theorem pairs_nil_left : s.pairs [] r = 0 := rfl

@[simp] theorem pairs_nil_right : s.pairs l [] = 0 := total_zero l

end Linear

/-! ## Multiplicities -/

def projectedSide (left right : List ProductValue) : List ProductValue :=
  if s.projectRight then right else left

def otherSide (left right : List ProductValue) : List ProductValue :=
  if s.projectRight then left else right

variable (l r : List ProductValue)

theorem total_indicator (k : List (List (List Int))) :
    total (fun a => total (fun b => if (s.emitted a b).rowClass = k then 1 else 0) r) l =
      (s.otherSide l r).length * (rowBag (s.projectedSide l r)).count k := by
  unfold otherSide projectedSide rowBag emitted
  cases s.projectRight
  · simp only [Bool.false_eq_true, if_false]
    rw [count_bag_eq_total, ← total_mul]
    exact total_congr fun a _ => total_const _ r
  · simp only [if_true]
    rw [count_bag_eq_total, total_const]

theorem count_pairs_le (k : List (List (List Int))) :
    (s.pairs l r).count k ≤ (s.otherSide l r).length * (rowBag (s.projectedSide l r)).count k := by
  have hweight : ∀ a b, (s.weight a b).count k ≤ if (s.emitted a b).rowClass = k then 1 else 0 := by
    intro a b
    unfold weight
    split
    · rw [Multiset.count_singleton]
      simp only [eq_comm, le_refl]
    · simp
  rw [pairs, count_total, ← total_indicator]
  apply total_mono
  intro a
  rw [count_total]
  exact total_mono (hweight a) r

theorem count_pairs_of_all (h : ∀ a b, s.accepts a b = true) (k : List (List (List Int))) :
    (s.pairs l r).count k = (s.otherSide l r).length * (rowBag (s.projectedSide l r)).count k := by
  rw [pairs, count_total, ← total_indicator]
  apply total_congr
  intro a _
  rw [count_total]
  apply total_congr
  intro b _
  rw [weight, if_pos (h a b), Multiset.count_singleton]
  simp only [eq_comm]

end PairSelection

end Shunter.Subscription
