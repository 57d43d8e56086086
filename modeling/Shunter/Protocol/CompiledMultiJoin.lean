import Shunter.Subscription.Aggregate

/-!
# Compiled joins of several relations

The compiler numbers the relations of a join and keeps its filter as a tree over
relation numbers.  One-off queries evaluate that tree as it is; for a live query
it is translated into a predicate whose leaves name a table and an alias, and
the visibility of each relation becomes part of it.
-/

namespace Shunter.Protocol

open Subscription

structure CompiledSQLColumnRef where
  table : TableID
  column : Nat
  aliasTag : Nat
  deriving DecidableEq

structure CompiledSQLMultiColumnRef where
  column : CompiledSQLColumnRef
  relation : Nat
  deriving DecidableEq

structure CompiledSQLMultiJoinCondition where
  left : CompiledSQLMultiColumnRef
  right : CompiledSQLMultiColumnRef

/-- The operator of a comparison: `=` may be empty, `!=` may be `<>`. -/
inductive ComparisonOp where
  | eq
  | ne
  | gt
  | ge
  | lt
  | le
  | unsupported
  deriving DecidableEq

/-- `missing` is the nil tree, which stands for no filter. -/
inductive CompiledSQLMultiPredicate where
  | missing
  | always
  | never
  | comparison (column : CompiledSQLMultiColumnRef) (op : ComparisonOp) (value : Value)
  | columnComparison (left right : CompiledSQLMultiColumnRef)
  | and (left right : CompiledSQLMultiPredicate)
  | or (left right : CompiledSQLMultiPredicate)

structure CompiledSQLMultiJoinRelation where
  table : TableID
  aliasTag : Nat
  visibility : Predicate

structure CompiledSQLMultiJoin where
  relations : List CompiledSQLMultiJoinRelation
  conditions : List CompiledSQLMultiJoinCondition
  filter : CompiledSQLMultiPredicate
  projectedRelation : Nat

def multiJoinRelationIndex (relations : List CompiledSQLMultiJoinRelation) (table : TableID)
    (aliasTag : Nat) : Option Nat :=
  relations.findIdx? fun rel => rel.table = table && rel.aliasTag = aliasTag

/-! ## Evaluation of the compiled filter -/

def multiJoinColumnValue (tuple : List ProductValue) (ref : CompiledSQLMultiColumnRef) :
    Option Value := do
  let row ← tuple[ref.relation]?
  row[ref.column.column]?

def multiJoinColumnValuesEqual (tuple : List ProductValue)
    (left right : CompiledSQLMultiColumnRef) : Bool :=
  (multiJoinColumnValue tuple left).any fun l =>
    (multiJoinColumnValue tuple right).any fun r => l.equal r

def compareOneOffMultiJoinValue (left : Value) (op : ComparisonOp) (right : Value) : Bool :=
  match op with
  | .eq => left.equal right
  | .ne => !left.equal right
  | .gt => (left.compare right).isGT
  | .ge => (left.compare right).isGE
  | .lt => (left.compare right).isLT
  | .le => (left.compare right).isLE
  | .unsupported => false

def matchCompiledSQLMultiPredicate (tuple : List ProductValue) : CompiledSQLMultiPredicate → Bool
  | .missing => true
  | .always => true
  | .never => false
  | .comparison column op value =>
    (multiJoinColumnValue tuple column).any fun v => compareOneOffMultiJoinValue v op value
  | .columnComparison left right => multiJoinColumnValuesEqual tuple left right
  | .and left right =>
    matchCompiledSQLMultiPredicate tuple left && matchCompiledSQLMultiPredicate tuple right
  | .or left right =>
    matchCompiledSQLMultiPredicate tuple left || matchCompiledSQLMultiPredicate tuple right

/-! ## Translation into a live predicate -/

def andSubscriptionPredicates (left right : Predicate) : Predicate :=
  if left = .missing then right else if right = .missing then left else .and left right

def orSubscriptionPredicates (left right : Predicate) : Predicate :=
  if left = .missing then right else if right = .missing then left else .or left right

def unboundedEnd : RangeBound := ⟨⟨.bool, some false⟩, false, true⟩

/-- `none` is the error for an operator that is not supported. -/
def normalizePredicate (table : TableID) (column aliasTag : Nat) (op : ComparisonOp)
    (value : Value) : Option Predicate :=
  match op with
  | .eq => some (.colEq table column aliasTag value)
  | .ne => some (.colNe table column aliasTag value)
  | .gt => some (.colRange table column aliasTag ⟨value, false, false⟩ unboundedEnd)
  | .ge => some (.colRange table column aliasTag ⟨value, true, false⟩ unboundedEnd)
  | .lt => some (.colRange table column aliasTag unboundedEnd ⟨value, false, false⟩)
  | .le => some (.colRange table column aliasTag unboundedEnd ⟨value, true, false⟩)
  | .unsupported => none

def compiledMultiPredicateToSubscription (noRowsTable : TableID) :
    CompiledSQLMultiPredicate → Option Predicate
  | .missing => some .missing
  | .always => some .missing
  | .never => some (.noRows noRowsTable)
  | .comparison ref op value =>
    normalizePredicate ref.column.table ref.column.column ref.column.aliasTag op value
  | .columnComparison left right =>
    some (.colEqCol left.column.table left.column.column left.column.aliasTag
      right.column.table right.column.column right.column.aliasTag)
  | .and left right => do
    let l ← compiledMultiPredicateToSubscription noRowsTable left
    let r ← compiledMultiPredicateToSubscription noRowsTable right
    some (andSubscriptionPredicates l r)
  | .or left right => do
    let l ← compiledMultiPredicateToSubscription noRowsTable left
    let r ← compiledMultiPredicateToSubscription noRowsTable right
    if l = .missing ∨ r = .missing then some .missing else some (orSubscriptionPredicates l r)

def subscriptionMultiJoinColumnRef (ref : CompiledSQLMultiColumnRef) : MultiJoinColumnRef :=
  ⟨ref.relation, ref.column.table, ref.column.column, ref.column.aliasTag⟩

def CompiledSQLMultiJoin.subscriptionRelations (multi : CompiledSQLMultiJoin) :
    List MultiJoinRelation :=
  multi.relations.map fun rel => ⟨rel.table, rel.aliasTag⟩

def subscriptionMultiJoinPredicate (multi : CompiledSQLMultiJoin) : Option MultiJoin := do
  let projectedTable := (multi.relations[multi.projectedRelation]?.map (·.table)).getD 0
  let filter ← compiledMultiPredicateToSubscription projectedTable multi.filter
  some {
    relations := multi.subscriptionRelations
    conditions := multi.conditions.map fun condition =>
      ⟨subscriptionMultiJoinColumnRef condition.left,
        subscriptionMultiJoinColumnRef condition.right⟩
    projectedRelation := multi.projectedRelation
    filter := multi.relations.foldl (fun filter rel =>
      andSubscriptionPredicates filter rel.visibility) filter }

/-! ## What the compiler promises

A column reference carries the first relation with its table and its alias.  A
literal has the kind of the column it is compared with.  The leaves of a
visibility filter have been tagged with the relation they restrict.
-/

def CompiledSQLMultiColumnRef.Resolved (relations : List CompiledSQLMultiJoinRelation)
    (ref : CompiledSQLMultiColumnRef) : Prop :=
  multiJoinRelationIndex relations ref.column.table ref.column.aliasTag = some ref.relation

def columnKind (cs : CommittedState) (table : TableID) (column : Nat) : Option ValueKind := do
  let t ← cs.table table
  let col ← t.schema.columns[column]?
  some col.type

def CompiledSQLMultiPredicate.Compiled (cs : CommittedState)
    (relations : List CompiledSQLMultiJoinRelation) : CompiledSQLMultiPredicate → Prop
  | .missing | .always | .never => True
  | .comparison ref op value => ref.Resolved relations ∧ op ≠ .unsupported ∧
      columnKind cs ref.column.table ref.column.column = some value.kind
  | .columnComparison left right => left.Resolved relations ∧ right.Resolved relations
  | .and left right | .or left right => left.Compiled cs relations ∧ right.Compiled cs relations

def LeavesOn (table : TableID) (aliasTag : Nat) : Predicate → Prop
  | .colEq t _ a _ | .colNe t _ a _ | .colRange t _ a _ _ => t = table ∧ a = aliasTag
  | .colEqCol lt _ la rt _ ra => (lt = table ∧ la = aliasTag) ∧ rt = table ∧ ra = aliasTag
  | .and left right | .or left right =>
    LeavesOn table aliasTag left ∧ LeavesOn table aliasTag right
  | .missing | .allRows _ | .noRows _ | .join .. | .crossJoin .. | .multiJoin .. => True

structure CompiledSQLMultiJoin.Compiled (cs : CommittedState) (multi : CompiledSQLMultiJoin) :
    Prop where
  projected : multi.projectedRelation < multi.relations.length
  distinct : ∀ i rel, multi.relations[i]? = some rel →
    multiJoinRelationIndex multi.relations rel.table rel.aliasTag = some i
  conditions : ∀ condition ∈ multi.conditions,
    condition.left.Resolved multi.relations ∧ condition.right.Resolved multi.relations
  filter : multi.filter.Compiled cs multi.relations
  visibility : ∀ rel ∈ multi.relations, LeavesOn rel.table rel.aliasTag rel.visibility

def retagVisibilityPredicate (table : TableID) (aliasTag : Nat) : Predicate → Predicate
  | .colEq t col a v => .colEq t col (if t = table then aliasTag else a) v
  | .colNe t col a v => .colNe t col (if t = table then aliasTag else a) v
  | .colRange t col a lower upper => .colRange t col (if t = table then aliasTag else a) lower upper
  | .colEqCol lt lc la rt rc ra =>
    .colEqCol lt lc (if lt = table then aliasTag else la) rt rc
      (if rt = table then aliasTag else ra)
  | .and left right => .and (retagVisibilityPredicate table aliasTag left)
      (retagVisibilityPredicate table aliasTag right)
  | .or left right => .or (retagVisibilityPredicate table aliasTag left)
      (retagVisibilityPredicate table aliasTag right)
  | pred => pred

/-- The loop of `visibilityPredicateForRelation` over the compiled filters of the table. -/
def visibilityPredicateForRelation (table : TableID) (aliasTag : Nat) (filters : List Predicate) :
    Predicate :=
  filters.foldl (fun out pred =>
    orSubscriptionPredicates out (retagVisibilityPredicate table aliasTag pred)) .missing

/-! ## The translation keeps the meaning -/

variable {table : TableID} {aliasTag : Nat} {i : Nat}

section Meaning

variable {cs : CommittedState} {relations : List CompiledSQLMultiJoinRelation}
  {tuple : List ProductValue}

theorem findIdx?_of_unique {α : Type*} {p q : α → Bool} (hqp : ∀ a, q a = true → p a = true)
    {l : List α} (h : (l.filter p).length = 1) (hq : l.findIdx? q = some i) :
    l.findIdx? p = some i := by
  induction l generalizing i with
  | nil => simp at hq
  | cons a l ih =>
    rw [List.findIdx?_cons] at hq ⊢
    cases hp : p a with
    | true =>
      have hrest : l.filter p = [] := by simpa [hp] using h
      have hnone : l.findIdx? q = none := by
        rw [List.findIdx?_eq_none_iff]
        intro b hb
        by_contra hqb
        have := List.filter_eq_nil_iff.mp hrest b hb
        exact this (hqp b (by simpa using hqb))
      cases hqa : q a <;> simp [hqa, hnone] at hq ⊢
      exact hq
    | false =>
      have hqa : q a = false := by
        by_contra hqa
        rw [hqp a (by simpa using hqa)] at hp
        cases hp
      obtain ⟨j, hj, rfl⟩ : ∃ j, l.findIdx? q = some j ∧ j + 1 = i := by
        simpa [hqa] using hq
      simp [ih (by simpa [hp] using h) hj]

theorem multiJoinPredicateRelation_of_index
    (h : multiJoinRelationIndex relations table aliasTag = some i) :
    multiJoinPredicateRelation (relations.map fun rel => ⟨rel.table, rel.aliasTag⟩) table
      aliasTag = some i := by
  have hpair : (relations.map fun rel => (⟨rel.table, rel.aliasTag⟩ : MultiJoinRelation)).findIdx?
      (fun rel => decide (rel.table = table ∧ rel.aliasTag = aliasTag)) = some i := by
    rw [List.findIdx?_map, ← h, multiJoinRelationIndex]
    congr 1
    funext rel
    simp
  unfold multiJoinPredicateRelation
  split
  · next hone =>
    apply findIdx?_of_unique _ hone hpair
    simp +contextual
  · exact hpair

/-- The relation of a row as the live predicate finds it. -/
def liveRow (relations : List CompiledSQLMultiJoinRelation) (tuple : List ProductValue) :
    TableID → Nat → Option ProductValue :=
  multiJoinPredicateRow (relations.map fun rel => ⟨rel.table, rel.aliasTag⟩) tuple

theorem liveRow_of_index (h : multiJoinRelationIndex relations table aliasTag = some i) :
    liveRow relations tuple table aliasTag = tuple[i]? := by
  simp [liveRow, multiJoinPredicateRow, multiJoinPredicateRelation_of_index h]

theorem any_liveRow {ref : CompiledSQLMultiColumnRef} (h : ref.Resolved relations)
    (test : Value → Bool) :
    ((liveRow relations tuple ref.column.table ref.column.aliasTag).any fun row =>
      matchColumn row ref.column.column test) = (multiJoinColumnValue tuple ref).any test := by
  rw [liveRow_of_index h, multiJoinColumnValue]
  cases tuple[ref.relation]? <;> rfl

section

variable (find : TableID → Nat → Option ProductValue)

@[simp] theorem matchRows_andSubscriptionPredicates (left right : Predicate) :
    matchRows find (andSubscriptionPredicates left right) =
      (matchRows find left && matchRows find right) := by
  unfold andSubscriptionPredicates
  split_ifs with hl hr
  · simp [hl, matchRows]
  · simp [hr, matchRows]
  · rfl

theorem matchRows_foldl_visibility (rels : List CompiledSQLMultiJoinRelation)
    (filter : Predicate) :
    matchRows find (rels.foldl (fun filter rel =>
      andSubscriptionPredicates filter rel.visibility) filter) =
      (matchRows find filter && rels.all fun rel => matchRows find rel.visibility) := by
  induction rels generalizing filter with
  | nil => simp
  | cons rel rels ih => rw [List.foldl_cons, ih]; simp [Bool.and_assoc]

theorem normalizePredicate_sound {column : Nat} {op : ComparisonOp} {value : Value}
    {sub : Predicate} (h : normalizePredicate table column aliasTag op value = some sub)
    (hkind : ∀ row v, find table aliasTag = some row → row[column]? = some v → v.kind = value.kind) :
    matchRows find sub = (find table aliasTag).any fun row =>
      matchColumn row column fun v => compareOneOffMultiJoinValue v op value := by
  cases hrow : find table aliasTag with
  | none => cases op <;> cases h <;> simp [matchRows, hrow]
  | some row =>
    cases hv : row[column]? with
    | none => cases op <;> cases h <;> simp [matchRows, hrow, matchColumn, rowValue, hv]
    | some v =>
      have hk := hkind row v hrow hv
      cases op <;> cases h <;>
        simp [matchRows, hrow, matchColumn, rowValue, hv, compareOneOffMultiJoinValue,
          matchBounds, unboundedEnd, hk]

end

theorem compiledMultiPredicateToSubscription_sound (tuple : List ProductValue) (noRowsTable : TableID)
    {pred : CompiledSQLMultiPredicate} (hcomp : pred.Compiled cs relations)
    (hkind : ∀ table aliasTag column row v k, liveRow relations tuple table aliasTag = some row →
      row[column]? = some v → columnKind cs table column = some k → v.kind = k) :
    ∃ sub, compiledMultiPredicateToSubscription noRowsTable pred = some sub ∧
      matchRows (liveRow relations tuple) sub = matchCompiledSQLMultiPredicate tuple pred := by
  induction pred with
  | missing => exact ⟨_, rfl, rfl⟩
  | always => exact ⟨_, rfl, rfl⟩
  | never => exact ⟨_, rfl, rfl⟩
  | comparison ref op value =>
    obtain ⟨hres, hop, hk⟩ := hcomp
    obtain ⟨sub, hsub⟩ : ∃ sub, normalizePredicate ref.column.table ref.column.column
        ref.column.aliasTag op value = some sub := by
      cases op <;> simp [normalizePredicate] at hop ⊢
    refine ⟨sub, hsub, ?_⟩
    rw [normalizePredicate_sound _ hsub fun row v hrow hv =>
      hkind _ _ _ row v _ hrow hv hk, any_liveRow hres]
    rfl
  | columnComparison left right =>
    refine ⟨_, rfl, ?_⟩
    rw [matchRows, liveRow_of_index hcomp.1, liveRow_of_index hcomp.2,
      matchCompiledSQLMultiPredicate, multiJoinColumnValuesEqual, multiJoinColumnValue,
      multiJoinColumnValue]
    cases hl : tuple[left.relation]? with
    | none => rfl
    | some l =>
      cases hr : tuple[right.relation]? with
      | none => simp
      | some r => rfl
  | and left right ihl ihr =>
    obtain ⟨l, hl, hlm⟩ := ihl hcomp.1
    obtain ⟨r, hr, hrm⟩ := ihr hcomp.2
    refine ⟨andSubscriptionPredicates l r, ?_, ?_⟩
    · simp [compiledMultiPredicateToSubscription, hl, hr]
    · rw [matchRows_andSubscriptionPredicates, hlm, hrm, matchCompiledSQLMultiPredicate]
  | or left right ihl ihr =>
    obtain ⟨l, hl, hlm⟩ := ihl hcomp.1
    obtain ⟨r, hr, hrm⟩ := ihr hcomp.2
    rw [matchCompiledSQLMultiPredicate, ← hlm, ← hrm]
    -- A side without a filter makes the whole disjunction true.
    by_cases hmissing : l = .missing ∨ r = .missing
    · refine ⟨.missing, ?_, ?_⟩
      · simp [compiledMultiPredicateToSubscription, hl, hr, hmissing]
      · rcases hmissing with rfl | rfl <;> simp [matchRows]
    · refine ⟨orSubscriptionPredicates l r, ?_, ?_⟩
      · simp [compiledMultiPredicateToSubscription, hl, hr, hmissing]
      · rw [not_or] at hmissing
        simp [orSubscriptionPredicates, hmissing, matchRows]

theorem matchRows_eq_matchRowSide {find : TableID → Nat → Option ProductValue}
    {row : ProductValue} (hrow : find table aliasTag = some row) {pred : Predicate}
    (h : LeavesOn table aliasTag pred) :
    matchRows find pred = matchRowSide table aliasTag row pred := by
  induction pred with
  | colEq t col a v => obtain ⟨rfl, rfl⟩ := h; simp [matchRows, matchRowSide, hrow]
  | colNe t col a v => obtain ⟨rfl, rfl⟩ := h; simp [matchRows, matchRowSide, hrow]
  | colRange t col a lower upper =>
    obtain ⟨rfl, rfl⟩ := h
    simp [matchRows, matchRowSide, hrow]
  | colEqCol lt lc la rt rc ra =>
    obtain ⟨⟨rfl, rfl⟩, rfl, rfl⟩ := h
    simp [matchRows, matchRowSide, hrow]
  | and left right ihl ihr => rw [matchRows, matchRowSide, ihl h.1, ihr h.2]
  | or left right ihl ihr => rw [matchRows, matchRowSide, ihl h.1, ihr h.2]
  | missing | allRows | noRows | join | crossJoin | multiJoin => rfl

end Meaning

end Shunter.Protocol
