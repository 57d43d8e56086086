import Shunter.Subscription.ResultRows

/-!
# Predicates of live queries

Predicates and how they are evaluated: on one row, on a pair of joined rows and
on a tuple of rows.  All three only look at the classes of the values.
-/

namespace Shunter.Subscription

/-- One end of a range; an unbounded end ignores the rest. -/
structure RangeBound where
  value : Value
  inclusive : Bool
  unbounded : Bool
  deriving DecidableEq

structure MultiJoinColumnRef where
  relation : Nat
  table : TableID
  column : Nat
  aliasTag : Nat
  deriving DecidableEq

structure MultiJoinCondition where
  left : MultiJoinColumnRef
  right : MultiJoinColumnRef
  deriving DecidableEq

/-- `missing` is the nil predicate, which stands for no filter. -/
inductive Predicate where
  | missing
  | colEq (table : TableID) (column aliasTag : Nat) (value : Value)
  | colNe (table : TableID) (column aliasTag : Nat) (value : Value)
  | colRange (table : TableID) (column aliasTag : Nat) (lower upper : RangeBound)
  | colEqCol (leftTable : TableID) (leftColumn leftAlias : Nat)
      (rightTable : TableID) (rightColumn rightAlias : Nat)
  | and (left right : Predicate)
  | or (left right : Predicate)
  | allRows (table : TableID)
  | noRows (table : TableID)
  | join (left right : TableID) (leftCol rightCol leftAlias rightAlias : Nat)
      (projectRight : Bool) (filter : Predicate)
  | crossJoin (left right : TableID) (leftAlias rightAlias : Nat) (projectRight : Bool)
      (filter : Predicate)
  | multiJoin (relations : List MultiJoinRelation) (conditions : List MultiJoinCondition)
      (projectedRelation : Nat) (filter : Predicate)
  deriving DecidableEq

structure Join where
  left : TableID
  right : TableID
  leftCol : Nat
  rightCol : Nat
  leftAlias : Nat
  rightAlias : Nat
  projectRight : Bool
  filter : Predicate

structure CrossJoin where
  left : TableID
  right : TableID
  leftAlias : Nat
  rightAlias : Nat
  projectRight : Bool
  filter : Predicate

structure MultiJoin where
  relations : List MultiJoinRelation
  conditions : List MultiJoinCondition
  projectedRelation : Nat
  filter : Predicate

def Join.projectedTable (p : Join) : TableID := if p.projectRight then p.right else p.left

def CrossJoin.projectedTable (p : CrossJoin) : TableID :=
  if p.projectRight then p.right else p.left

def MultiJoin.projectedTable (p : MultiJoin) : TableID :=
  (p.relations[p.projectedRelation]?.map (·.table)).getD 0

/-! ## Evaluation -/

def rowValue (row : ProductValue) (col : Nat) : Option Value := row[col]?

def matchBounds (v : Value) (lower upper : RangeBound) : Bool :=
  (lower.unbounded || lower.value.kind = v.kind) &&
    (upper.unbounded || upper.value.kind = v.kind) &&
    (lower.unbounded ||
      if lower.inclusive then (v.compare lower.value).isGE else (v.compare lower.value).isGT) &&
    (upper.unbounded ||
      if upper.inclusive then (v.compare upper.value).isLE else (v.compare upper.value).isLT)

/-- The comparison of a leaf with the value of its column, if the row has one. -/
def matchColumn (row : ProductValue) (col : Nat) (test : Value → Bool) : Bool :=
  (rowValue row col).any test

def matchColumns (left : ProductValue) (leftCol : Nat) (right : ProductValue) (rightCol : Nat) :
    Bool :=
  matchColumn left leftCol fun l => matchColumn right rightCol fun r => l.equal r

def matchRowSide (table : TableID) (sideAlias : Nat) (row : ProductValue) : Predicate → Bool
  | .missing => true
  | .colEq t col a v => t ≠ table || a ≠ sideAlias || matchColumn row col fun w => w.equal v
  | .colNe t col a v => t ≠ table || a ≠ sideAlias || matchColumn row col fun w => !w.equal v
  | .colRange t col a lower upper =>
    t ≠ table || a ≠ sideAlias || matchColumn row col fun w => matchBounds w lower upper
  | .colEqCol lt lc la rt rc ra =>
    -- Only a comparison within the row is decided here.
    !(lt = table && la = sideAlias) || !(rt = table && ra = sideAlias) ||
      matchColumns row lc row rc
  | .and left right => matchRowSide table sideAlias row left && matchRowSide table sideAlias row right
  | .or left right => matchRowSide table sideAlias row left || matchRowSide table sideAlias row right
  | .allRows _ => true
  | .noRows _ => false
  | .join .. => true
  | .crossJoin .. => true
  | .multiJoin .. => true

def matchRow (pred : Predicate) (table : TableID) (row : ProductValue) : Bool :=
  matchRowSide table 0 row pred

/-- Evaluation over several rows; `find` gives the row that a leaf refers to. -/
def matchRows (find : TableID → Nat → Option ProductValue) : Predicate → Bool
  | .missing => true
  | .colEq t col a v => (find t a).any fun row => matchColumn row col fun w => w.equal v
  | .colNe t col a v => (find t a).any fun row => matchColumn row col fun w => !w.equal v
  | .colRange t col a lower upper =>
    (find t a).any fun row => matchColumn row col fun w => matchBounds w lower upper
  | .colEqCol lt lc la rt rc ra =>
    (find lt la).any fun left => (find rt ra).any fun right => matchColumns left lc right rc
  | .and left right => matchRows find left && matchRows find right
  | .or left right => matchRows find left || matchRows find right
  | .allRows _ => true
  | .noRows _ => false
  | .join .. => true
  | .crossJoin .. => true
  | .multiJoin .. => true

def joinPredicateRow (leftTable : TableID) (leftAlias : Nat) (leftRow : ProductValue)
    (rightTable : TableID) (rightAlias : Nat) (rightRow : ProductValue)
    (table : TableID) (aliasTag : Nat) : Option ProductValue :=
  if leftTable = rightTable then
    if table ≠ leftTable then none
    else if aliasTag = leftAlias then some leftRow
    else if aliasTag = rightAlias then some rightRow
    else none
  else if table = leftTable then some leftRow
  else if table = rightTable then some rightRow
  else none

def matchJoinPair (pred : Predicate) (leftTable : TableID) (leftAlias : Nat)
    (leftRow : ProductValue) (rightTable : TableID) (rightAlias : Nat) (rightRow : ProductValue) :
    Bool :=
  matchRows (joinPredicateRow leftTable leftAlias leftRow rightTable rightAlias rightRow) pred

/-- The relation of a leaf: the only one over its table, or else the one with its alias. -/
def multiJoinPredicateRelation (relations : List MultiJoinRelation) (table : TableID)
    (aliasTag : Nat) : Option Nat :=
  if (relations.filter fun rel => rel.table = table).length = 1 then
    relations.findIdx? fun rel => rel.table = table
  else relations.findIdx? fun rel => rel.table = table ∧ rel.aliasTag = aliasTag

def multiJoinPredicateRow (relations : List MultiJoinRelation) (tuple : List ProductValue)
    (table : TableID) (aliasTag : Nat) : Option ProductValue := do
  let relation ← multiJoinPredicateRelation relations table aliasTag
  tuple[relation]?

def matchMultiJoinTuple (pred : Predicate) (relations : List MultiJoinRelation)
    (tuple : List ProductValue) : Bool :=
  matchRows (multiJoinPredicateRow relations tuple) pred

/-! ## Only the classes matter -/

section Congr

variable {r r' s s' : ProductValue}

theorem rank_of_rowValue (h : r.rowClass = r'.rowClass) (col : Nat) :
    (rowValue r col).map Value.rank = (rowValue r' col).map Value.rank := by
  have hget := congrArg (fun cs : List (List (List Int)) => cs[col]?) h
  simpa [ProductValue.rowClass, rowValue] using hget

theorem matchColumn_congr {test : Value → Bool} (htest : test.FactorsThrough Value.rank)
    (h : r.rowClass = r'.rowClass) (col : Nat) :
    matchColumn r col test = matchColumn r' col test := by
  have hrank := rank_of_rowValue h col
  unfold matchColumn
  cases hv : rowValue r col <;> cases hw : rowValue r' col <;> simp [hv, hw] at hrank ⊢
  exact htest hrank

theorem equal_congr {v v' w w' : Value} (hv : v.rank = v'.rank) (hw : w.rank = w'.rank) :
    v.equal w = v'.equal w' := by
  rw [Bool.eq_iff_iff, Value.equal_iff_rank, Value.equal_iff_rank, hv, hw]

theorem compare_congr {v v' : Value} (h : v.rank = v'.rank) (w : Value) :
    v.compare w = v'.compare w := by
  rw [Value.compare_eq_rank, Value.compare_eq_rank, h]

theorem matchBounds_congr (lower upper : RangeBound) :
    (fun v => matchBounds v lower upper).FactorsThrough Value.rank := by
  intro v w h
  simp only [matchBounds, compare_congr h, Value.kind_eq_of_rank_eq h]

theorem matchColumns_congr (hr : r.rowClass = r'.rowClass) (hs : s.rowClass = s'.rowClass)
    (leftCol rightCol : Nat) :
    matchColumns r leftCol s rightCol = matchColumns r' leftCol s' rightCol := by
  have hright : ∀ v : Value, matchColumn s rightCol (fun w => v.equal w) =
      matchColumn s' rightCol fun w => v.equal w :=
    fun v => matchColumn_congr (fun _ _ h => equal_congr rfl h) hs rightCol
  simp only [matchColumns, hright]
  apply matchColumn_congr _ hr
  intro v v' hv
  simp only [equal_congr hv rfl]

theorem matchRow_congr (pred : Predicate) (table : TableID) (h : r.rowClass = r'.rowClass) :
    matchRow pred table r = matchRow pred table r' := by
  unfold matchRow
  induction pred with
  | missing => rfl
  | colEq t col a v =>
    simp only [matchRowSide, matchColumn_congr (fun v v' hv => equal_congr hv rfl) h]
  | colNe t col a v =>
    simp only [matchRowSide, matchColumn_congr (fun v v' hv =>
      congrArg (! ·) (equal_congr hv rfl)) h]
  | colRange t col a lower upper =>
    simp only [matchRowSide, matchColumn_congr (matchBounds_congr lower upper) h]
  | colEqCol lt lc la rt rc ra => simp only [matchRowSide, matchColumns_congr h h]
  | and left right ihl ihr => rw [matchRowSide, matchRowSide, ihl, ihr]
  | or left right ihl ihr => rw [matchRowSide, matchRowSide, ihl, ihr]
  | allRows t => rfl
  | noRows t => rfl
  | join => rfl
  | crossJoin => rfl
  | multiJoin => rfl

theorem matchRows_congr {find find' : TableID → Nat → Option ProductValue}
    (h : ∀ t a, (find t a).map ProductValue.rowClass = (find' t a).map ProductValue.rowClass)
    (pred : Predicate) : matchRows find pred = matchRows find' pred := by
  -- A test of the row behind a leaf.
  have hleaf : ∀ (test : ProductValue → Bool), test.FactorsThrough ProductValue.rowClass →
      ∀ t a, (find t a).any test = (find' t a).any test := by
    intro test htest t a
    have hrow := h t a
    cases hl : find t a <;> cases hr : find' t a <;> simp [hl, hr] at hrow ⊢
    exact htest hrow
  induction pred with
  | colEq t col a v =>
    exact hleaf _ (fun _ _ h => matchColumn_congr (fun _ _ hv => equal_congr hv rfl) h col) t a
  | colNe t col a v =>
    refine hleaf _ (fun _ _ h => matchColumn_congr (fun _ _ hv => ?_) h col) t a
    rw [equal_congr hv rfl]
  | colRange t col a lower upper =>
    exact hleaf _ (fun _ _ h => matchColumn_congr (matchBounds_congr lower upper) h col) t a
  | colEqCol lt lc la rt rc ra =>
    have hright : ∀ left, (find rt ra).any (fun right => matchColumns left lc right rc) =
        (find' rt ra).any fun right => matchColumns left lc right rc :=
      fun left => hleaf _ (fun _ _ h => matchColumns_congr rfl h lc rc) rt ra
    simp only [matchRows, hright]
    apply hleaf
    intro l l' hl
    simp only [matchColumns_congr hl rfl]
  | and left right ihl ihr => simp only [matchRows, ihl, ihr]
  | or left right ihl ihr => simp only [matchRows, ihl, ihr]
  | missing | allRows | noRows | join | crossJoin | multiJoin => rfl

theorem matchJoinPair_congr (pred : Predicate) (lt : TableID) (la : Nat) (rt : TableID) (ra : Nat)
    (hr : r.rowClass = r'.rowClass) (hs : s.rowClass = s'.rowClass) :
    matchJoinPair pred lt la r rt ra s = matchJoinPair pred lt la r' rt ra s' := by
  apply matchRows_congr
  intro t a
  unfold joinPredicateRow
  split_ifs <;> simp [hr, hs]

theorem matchMultiJoinTuple_congr (pred : Predicate) (relations : List MultiJoinRelation)
    {tuple tuple' : List ProductValue}
    (h : tuple.map ProductValue.rowClass = tuple'.map ProductValue.rowClass) :
    matchMultiJoinTuple pred relations tuple = matchMultiJoinTuple pred relations tuple' := by
  apply matchRows_congr
  intro t a
  unfold multiJoinPredicateRow
  cases multiJoinPredicateRelation relations t a with
  | none => rfl
  | some i => simpa using congrArg (·[i]?) h

end Congr

end Shunter.Subscription
