import Shunter.Subscription.CrossJoinDelta
import Shunter.Subscription.JoinDelta
import Shunter.Subscription.MultiJoinDelta
import Shunter.Subscription.Valueagg

/-!
# Live aggregates

A live aggregate shows one row with one value.  After a commit the value is
computed twice, from the rows after the commit and from the rows that were
there before it, and the subscriber gets both when they differ.
-/

namespace Shunter.Subscription

open Foundation Valueagg

inductive AggregateFunc where
  | count
  | sum
  deriving DecidableEq, Repr

structure AggregateColumn where
  table : TableID
  column : Nat
  aliasTag : Nat

structure Aggregate where
  func : AggregateFunc
  argument : Option AggregateColumn
  distinct : Bool
  resultKind : ValueKind
  resultNullable : Bool

inductive AggregateError where
  | sum (e : SumError)
  | joinIndexUnresolved
  deriving DecidableEq, Repr

/-! ## Tables of a predicate -/

def appendUniqueTables (out tables : List TableID) : List TableID :=
  tables.foldl (fun out t => if out.contains t then out else out ++ [t]) out

def Predicate.tables : Predicate → List TableID
  | .missing => []
  | .colEq t .. => [t]
  | .colNe t .. => [t]
  | .colRange t .. => [t]
  | .colEqCol l _ _ r _ _ => if l = r then [l] else [l, r]
  | .and left right => appendUniqueTables (appendUniqueTables [] left.tables) right.tables
  | .or left right => appendUniqueTables (appendUniqueTables [] left.tables) right.tables
  | .allRows t => [t]
  | .noRows t => [t]
  | .join l r .. => if l = r then [l] else [l, r]
  | .crossJoin l r .. => if l = r then [l] else [l, r]
  | .multiJoin relations .. => appendUniqueTables [] (relations.map (·.table))

def singlePredicateTable (pred : Predicate) : Option TableID :=
  match pred.tables with
  | [table] => some table
  | _ => none

/-- The four shapes that the type switches on the predicate tell apart. -/
inductive AggregateSource where
  | rows (table : TableID) (pred : Predicate)
  | join (p : Join)
  | cross (p : CrossJoin)
  | multi (p : MultiJoin)

def aggregateSource : Predicate → Option AggregateSource
  | .join l r lc rc la ra pr f => some (.join ⟨l, r, lc, rc, la, ra, pr, f⟩)
  | .crossJoin l r la ra pr f => some (.cross ⟨l, r, la, ra, pr, f⟩)
  | .multiJoin rels conds proj f => some (.multi ⟨rels, conds, proj, f⟩)
  | pred => (singlePredicateTable pred).map (.rows · pred)

/-! ## One table -/

section Rows

variable (table : TableID) (pred : Predicate) (agg : Aggregate)

def aggregateRowContributes (row : ProductValue) : Bool :=
  matchRow pred table row &&
    match agg.argument with
    | none => true
    | some arg =>
      arg.table = table && arg.aliasTag = 0 && (rowValue row arg.column).any (!·.isNull)

def aggregateArgumentValue (row : ProductValue) : Option Value :=
  match agg.argument with
  | none => none
  | some arg =>
    if matchRow pred table row && arg.table = table && arg.aliasTag = 0 then
      rowValue row arg.column
    else none

def countAggregateRows (rows : List ProductValue) : BitVec 64 :=
  rows.foldl (fun count row => if aggregateRowContributes table pred agg row then count + 1
    else count) 0

def distinctCountAggregateRows (rows : List ProductValue) : BitVec 64 :=
  (rows.foldl (fun (seen : DistinctSet) row =>
    match aggregateArgumentValue table pred agg row with
    | none => seen
    | some value => if value.isNull then seen else seen.add value) newDistinctSet).count

def sumAggregateRows (floats : FloatOps) (rows : List ProductValue) :
    Except SumError Valueagg.Sum :=
  rows.foldlM (fun acc row =>
    match aggregateArgumentValue table pred agg row with
    | none => .ok acc
    | some value => acc.add floats value) (newSum agg.resultKind agg.resultNullable)

def aggregateRowsValue (floats : FloatOps) (rows : List ProductValue) :
    Except AggregateError Value :=
  match agg.func with
  | .count =>
    if agg.distinct then .ok (newUint64 (distinctCountAggregateRows table pred agg rows))
    else .ok (newUint64 (countAggregateRows table pred agg rows))
  | .sum => do
    let acc ← (sumAggregateRows table pred agg floats rows).mapError .sum
    acc.value.mapError .sum

/-- The rows inserted by the commit are taken off the count after it. -/
def countAggregateBeforeValue (dv : DeltaView) (after : BitVec 64) : BitVec 64 :=
  let inserted := countAggregateRows table pred agg (dv.inserts table)
  let before := after + countAggregateRows table pred agg (dv.deletes table)
  if before.ult inserted then 0 else before - inserted

end Rows

/-! ## Pairs and tuples -/

structure JoinAggregateAccumulator where
  count : BitVec 64
  distinct : DistinctSet
  sum : Valueagg.Sum

section Accumulator

variable (agg : Aggregate) (floats : FloatOps)

def newJoinAggregateAccumulator : JoinAggregateAccumulator :=
  ⟨0, newDistinctSet, newSum agg.resultKind agg.resultNullable⟩

def JoinAggregateAccumulator.addArgumentValue (a : JoinAggregateAccumulator)
    (value : Option Value) : Except AggregateError JoinAggregateAccumulator :=
  match agg.func with
  | .count =>
    if agg.argument.isNone then .ok { a with count := a.count + 1 }
    else
      match value with
      | none => .ok a
      | some v =>
        if v.isNull then .ok a
        else if agg.distinct then .ok { a with distinct := a.distinct.add v }
        else .ok { a with count := a.count + 1 }
  | .sum =>
    match value with
    | none => .ok a
    | some v => ((a.sum.add floats v).mapError .sum).map fun sum => { a with sum }

def JoinAggregateAccumulator.value (a : JoinAggregateAccumulator) : Except AggregateError Value :=
  match agg.func with
  | .count => .ok (newUint64 (if agg.distinct then a.distinct.count else a.count))
  | .sum => a.sum.value.mapError .sum

/-- An accumulator goes over the arguments of all matches. -/
def accumulate (args : List (Option Value)) : Except AggregateError Value := do
  let acc ← args.foldlM (JoinAggregateAccumulator.addArgumentValue agg floats)
    (newJoinAggregateAccumulator agg)
  acc.value agg

end Accumulator

def relationPairAggregateArgumentValue (left right : TableID) (leftAlias rightAlias : Nat)
    (arg : AggregateColumn) (leftRow rightRow : ProductValue) : Option Value :=
  if left = right then
    if arg.table = left ∧ arg.aliasTag = leftAlias then rowValue leftRow arg.column
    else if arg.table = right ∧ arg.aliasTag = rightAlias then rowValue rightRow arg.column
    else none
  else if arg.table = left then rowValue leftRow arg.column
  else if arg.table = right then rowValue rightRow arg.column
  else none

def multiJoinAggregateArgumentValue (relations : List MultiJoinRelation) (arg : AggregateColumn)
    (tuple : List ProductValue) : Option Value := do
  let relation ← relations.findIdx? fun rel => rel.table = arg.table && rel.aliasTag = arg.aliasTag
  let row ← tuple[relation]?
  rowValue row arg.column

def Join.argument (p : Join) (agg : Aggregate) (l r : ProductValue) : Option Value :=
  agg.argument.bind fun arg =>
    relationPairAggregateArgumentValue p.left p.right p.leftAlias p.rightAlias arg l r

def CrossJoin.argument (p : CrossJoin) (agg : Aggregate) (l r : ProductValue) : Option Value :=
  agg.argument.bind fun arg =>
    relationPairAggregateArgumentValue p.left p.right p.leftAlias p.rightAlias arg l r

def MultiJoin.argument (p : MultiJoin) (agg : Aggregate) (tuple : List ProductValue) :
    Option Value :=
  agg.argument.bind fun arg => multiJoinAggregateArgumentValue p.relations arg tuple

def joinRowPairs (p : Join) (leftRows rightRows : List ProductValue) :
    List (ProductValue × ProductValue) :=
  leftRows.flatMap fun l =>
    match rowValue l p.leftCol with
    | none => []
    | some value =>
      (rightRows.filter fun r =>
        matchColumn r p.rightCol (fun w => value.equal w) && p.pairMatches l r).map (l, ·)

def crossJoinRowPairs (p : CrossJoin) (leftRows rightRows : List ProductValue) :
    List (ProductValue × ProductValue) :=
  leftRows.flatMap fun l => (rightRows.filter (p.matchesPair l)).map (l, ·)

def visitJoinCommittedPairsWithProbeIndex (view : CommittedState) (p : Join) (drive : JoinDrive)
    (probeIdx : IndexID) : List (ProductValue × ProductValue) :=
  (view.tableRows drive.driveTable).flatMap fun row =>
    match rowValue row drive.driveCol with
    | none => []
    | some value =>
      ((view.seekRows drive.probeTable probeIdx [value]).filter fun probe =>
        matchColumn probe drive.probeCol fun w => value.equal w).filterMap fun probe =>
          if drive.driveIsLeft then if p.pairMatches row probe then some (row, probe) else none
          else if p.pairMatches probe row then some (probe, row) else none

def visitJoinCommittedPairs (view : CommittedState) (p : Join) (resolver : IndexResolver) :
    Except AggregateError (List (ProductValue × ProductValue)) :=
  match resolver p.right p.rightCol with
  | some idx => .ok (visitJoinCommittedPairsWithProbeIndex view p p.fromLeft idx)
  | none =>
    match resolver p.left p.leftCol with
    | some idx => .ok (visitJoinCommittedPairsWithProbeIndex view p p.fromRight idx)
    | none => .error .joinIndexUnresolved

section Values

variable (agg : Aggregate) (floats : FloatOps)

def aggregateJoinRowsValue (p : Join) (leftRows rightRows : List ProductValue) :
    Except AggregateError Value :=
  accumulate agg floats
    ((joinRowPairs p leftRows rightRows).map fun pair => p.argument agg pair.1 pair.2)

def aggregateCrossJoinRowsValue (p : CrossJoin) (leftRows rightRows : List ProductValue) :
    Except AggregateError Value :=
  accumulate agg floats
    ((crossJoinRowPairs p leftRows rightRows).map fun pair => p.argument agg pair.1 pair.2)

def aggregateMultiJoinRowsValue (p : MultiJoin) (rowsByRelation : List (List ProductValue)) :
    Except AggregateError Value :=
  accumulate agg floats ((visitMultiJoinTuples p rowsByRelation).map (p.argument agg))

def aggregateJoinCommittedValue (view : CommittedState) (p : Join) (resolver : IndexResolver) :
    Except AggregateError Value := do
  let pairs ← visitJoinCommittedPairs view p resolver
  accumulate agg floats (pairs.map fun pair => p.argument agg pair.1 pair.2)

def aggregateCommittedValue (view : CommittedState) (resolver : IndexResolver) :
    AggregateSource → Except AggregateError Value
  | .join p => aggregateJoinCommittedValue agg floats view p resolver
  | .cross p =>
    aggregateCrossJoinRowsValue agg floats p (view.tableRows p.left) (view.tableRows p.right)
  | .multi p =>
    aggregateMultiJoinRowsValue agg floats p (p.relations.map fun rel => view.tableRows rel.table)
  | .rows table pred => aggregateRowsValue table pred agg floats (view.tableRows table)

/-- The rows of an event table after a commit are only in the view of the commit. -/
def aggregateAfterValue (dv : DeltaView) (pred : Predicate) (resolver : IndexResolver)
    (source : AggregateSource) : Except AggregateError Value :=
  if pred.tables.any dv.events then
    match source with
    | .join p =>
      aggregateJoinRowsValue agg floats p (dv.tableRowsAfter p.left) (dv.tableRowsAfter p.right)
    | .cross p =>
      aggregateCrossJoinRowsValue agg floats p (dv.tableRowsAfter p.left)
        (dv.tableRowsAfter p.right)
    | .multi p => aggregateMultiJoinRowsValue agg floats p (multiJoinRowsByRelationAfter dv p)
    | .rows table pred => aggregateRowsValue table pred agg floats (dv.tableRowsAfter table)
  else aggregateCommittedValue agg floats dv.committed resolver source

/-- `AsUint64`; any other value makes the source panic. -/
def asUint64 : Value → BitVec 64
  | ⟨.uint64, some n⟩ => n
  | _ => 0

def aggregateBeforeValue (dv : DeltaView) (after : Value) :
    AggregateSource → Except AggregateError Value
  | .join p =>
    aggregateJoinRowsValue agg floats p (dv.projectedRowsBefore p.left)
      (dv.projectedRowsBefore p.right)
  | .cross p =>
    aggregateCrossJoinRowsValue agg floats p (dv.projectedRowsBefore p.left)
      (dv.projectedRowsBefore p.right)
  | .multi p => aggregateMultiJoinRowsValue agg floats p (multiJoinRowsByRelationBefore dv p)
  | .rows table pred =>
    if agg.func = .count ∧ agg.distinct = false then
      .ok (newUint64 (countAggregateBeforeValue table pred agg dv (asUint64 after)))
    else aggregateRowsValue table pred agg floats (dv.projectedRowsBefore table)

structure AggregateUpdate where
  inserts : List ProductValue
  deletes : List ProductValue
  deriving DecidableEq

def evalAggregateQuery (dv : DeltaView) (pred : Predicate) (resolver : IndexResolver) :
    Except AggregateError (Option AggregateUpdate) :=
  match aggregateSource pred with
  | none => .ok none
  | some source => do
    let after ← aggregateAfterValue agg floats dv pred resolver source
    let before ← aggregateBeforeValue agg floats dv after source
    if before.equal after then .ok none else .ok (some ⟨[[after]], [[before]]⟩)

def initialAggregateRows (view : CommittedState) (pred : Predicate) (resolver : IndexResolver) :
    Except AggregateError (List ProductValue) :=
  match aggregateSource pred with
  | none => .ok []
  | some source => do
    let value ← aggregateCommittedValue agg floats view resolver source
    .ok [[value]]

end Values

end Shunter.Subscription
