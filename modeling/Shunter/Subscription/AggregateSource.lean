import Shunter.Subscription.AggregateResult

/-!
# The matches behind an aggregate

The arguments of all matches of a query in a state, and that every way in
which the source visits the matches gives the aggregate of these arguments.
-/

namespace Shunter.Subscription

open Foundation Valueagg

def argumentClass : Option Value → Option (List (List Int)) := Option.map Value.rank

theorem argumentClass_cases {a b : Option Value} (h : argumentClass a = argumentClass b) :
    (a = none ∧ b = none) ∨ ∃ v w, a = some v ∧ b = some w ∧ v.rank = w.rank := by
  cases a <;> cases b <;> simp_all [argumentClass]

section Congr

variable {args args' : List (Option Value)}

theorem bag_present (h : bag argumentClass args = bag argumentClass args') :
    bag Value.rank (present args) = bag Value.rank (present args') := by
  rw [present, present, bag_filterMap, bag_filterMap]
  refine total_of_bag_eq (fun a b hab => ?_) h
  rcases argumentClass_cases hab with ⟨rfl, rfl⟩ | ⟨v, w, rfl, rfl, hrank⟩
  · rfl
  · cases hnull : w.isNull <;> simp [Option.filter, isNull_congr hrank, hnull, hrank]

theorem Aggregate.result_congr (agg : Aggregate)
    (h : bag argumentClass args = bag argumentClass args') :
    agg.result args = agg.result args' := by
  have hpresent := bag_present h
  have hranks : ((present args).map Value.rank).Perm ((present args').map Value.rank) :=
    Multiset.coe_eq_coe.mp hpresent
  have hcount : args.countP agg.contributes = args'.countP agg.contributes := by
    rw [countP_eq_total, countP_eq_total]
    refine total_of_bag_eq (fun a b hab => ?_) h
    have hcontributes : agg.contributes a = agg.contributes b := by
      rcases argumentClass_cases hab with ⟨rfl, rfl⟩ | ⟨v, w, rfl, rfl, hrank⟩
      · rfl
      · simp [Aggregate.contributes, isNull_congr hrank]
    simp only [hcontributes]
  have hempty : (present args).isEmpty = (present args').isEmpty := by
    have hlen := hranks.length_eq
    rw [List.length_map, List.length_map] at hlen
    rw [Bool.eq_iff_iff, List.isEmpty_iff_length_eq_zero, List.isEmpty_iff_length_eq_zero, hlen]
  have hamount : total amountOf (present args) = total amountOf (present args') :=
    total_of_bag_eq (fun _ _ hrank => amountOf_congr hrank) hpresent
  unfold Aggregate.result Aggregate.count Aggregate.sum
  rw [hcount, hempty, hamount, List.toFinset_eq_of_perm _ _ hranks]

theorem Aggregate.Gives.congr {agg : Aggregate} {v : Value} (hv : agg.Gives args v)
    (h : bag argumentClass args = bag argumentClass args') : agg.Gives args' v where
  value := hv.value.trans (agg.result_congr h)
  inRange hsum := by
    have hamount : total amountOf (present args) = total amountOf (present args') :=
      total_of_bag_eq (fun _ _ hrank => amountOf_congr hrank) (bag_present h)
    exact hamount ▸ hv.inRange hsum

end Congr

/-! ## Pairs -/

section Pairs

theorem joinRowPairs_eq (p : Join) (left right : List ProductValue) :
    joinRowPairs p left right = p.selection.matched left right := by
  rw [PairSelection.matched_eq_flatMap, joinRowPairs]
  congr 1
  funext l
  cases hvalue : rowValue l p.leftCol with
  | none =>
    simp [Join.selection, Join.accepts, matchColumns, matchColumn, hvalue]
  | some value =>
    have haccepts : p.selection.accepts l = fun r =>
        matchColumn r p.rightCol (fun w => value.equal w) && p.pairMatches l r := by
      funext r
      simp [Join.selection, Join.accepts, matchColumns, matchColumn, hvalue]
    rw [haccepts]

theorem crossJoinRowPairs_eq (p : CrossJoin) (left right : List ProductValue) :
    crossJoinRowPairs p left right = p.selection.matched left right := by
  rw [PairSelection.matched_eq_flatMap, crossJoinRowPairs]
  rfl

variable {view : CommittedState} {p : Join} {resolver : IndexResolver}

def orderedPair (driveIsLeft : Bool) (row probe : ProductValue) : ProductValue × ProductValue :=
  if driveIsLeft then (row, probe) else (probe, row)

theorem bag_visitJoinCommittedPairsWithProbeIndex (hview : view.Inv)
    (hres : Resolves resolver view) {side : Bool} {probeIdx : IndexID}
    (hidx : resolver (p.drive side).probeTable (p.drive side).probeCol = some probeIdx) :
    bag id (visitJoinCommittedPairsWithProbeIndex view p (p.drive side) probeIdx) =
      total (fun row => total (fun probe => if p.accepts.uncurry (orderedPair side row probe)
          then {orderedPair side row probe} else 0)
        (view.tableRows (p.drive side).probeTable)) (view.tableRows (p.drive side).driveTable) := by
  -- Acceptance in the terms of the loop: equal columns first, then the filter.
  have haccepts : ∀ row probe : ProductValue, p.accepts.uncurry (orderedPair side row probe) =
      (matchColumns row (p.drive side).driveCol probe (p.drive side).probeCol &&
        p.pairMatches.uncurry (orderedPair side row probe)) := by
    intro row probe
    cases side with
    | true => rfl
    | false =>
      rw [Function.uncurry, Join.accepts, matchColumns_comm]
      rfl
  rw [visitJoinCommittedPairsWithProbeIndex, bag_flatMap]
  apply total_congr
  intro row _
  cases hvalue : rowValue row (p.drive side).driveCol with
  | none =>
    symm
    refine (total_congr fun probe _ => ?_).trans (total_zero _)
    simp [haccepts, matchColumns, matchColumn, hvalue]
  | some value =>
    have hseek := seekRows_of_resolves hview hres hidx value
    have hcols : ∀ probe, matchColumns row (p.drive side).driveCol probe (p.drive side).probeCol =
        matchColumn probe (p.drive side).probeCol fun w => value.equal w := by
      intro probe
      simp [matchColumns, matchColumn, hvalue]
    have hloop : ∀ probe : ProductValue,
        (if (p.drive side).driveIsLeft then
          if p.pairMatches row probe then some (row, probe) else none
        else if p.pairMatches probe row then some (probe, row) else none) =
        if p.pairMatches.uncurry (orderedPair side row probe)
        then some (orderedPair side row probe) else none := by
      intro probe
      cases side <;> rfl
    simp only [hloop]
    rw [bag_perm id ((hseek.filter _).filterMap _), List.filter_filter, bag_filterMap_filter]
    apply total_congr
    intro probe _
    rw [haccepts, hcols, Bool.and_self]
    cases hmatch : matchColumn probe (p.drive side).probeCol fun w => value.equal w <;>
      cases hpair : p.pairMatches.uncurry (orderedPair side row probe) <;> simp

theorem visitJoinCommittedPairs_perm (hview : view.Inv) (hres : Resolves resolver view)
    {pairs : List (ProductValue × ProductValue)}
    (h : visitJoinCommittedPairs view p resolver = .ok pairs) :
    pairs.Perm (p.selection.matched (view.tableRows p.left) (view.tableRows p.right)) := by
  have hbag : bag id pairs =
      bag id (p.selection.matched (view.tableRows p.left) (view.tableRows p.right)) := by
    rw [PairSelection.bag_matched]
    unfold visitJoinCommittedPairs at h
    split at h
    · next idx hidx =>
      rw [← Except.ok.inj h]
      have hidx' : resolver (p.drive true).probeTable (p.drive true).probeCol = some idx := hidx
      exact bag_visitJoinCommittedPairsWithProbeIndex hview hres hidx'
    · split at h
      · next idx hidx =>
        rw [← Except.ok.inj h, total_comm]
        have hidx' : resolver (p.drive false).probeTable (p.drive false).probeCol = some idx :=
          hidx
        exact bag_visitJoinCommittedPairsWithProbeIndex hview hres hidx'
      · cases h
  simpa [bag] using hbag

end Pairs

/-! ## All matches -/

namespace AggregateSource

def arguments (agg : Aggregate) (rows : TableID → List ProductValue) :
    AggregateSource → List (Option Value)
  | .rows table pred => rowArguments table pred agg (rows table)
  | .join p =>
    (p.selection.matched (rows p.left) (rows p.right)).map fun lr => p.argument agg lr.1 lr.2
  | .cross p =>
    (p.selection.matched (rows p.left) (rows p.right)).map fun lr => p.argument agg lr.1 lr.2
  | .multi p =>
    ((tuples (p.relations.map fun rel => rows rel.table)).filter p.accepts).map (p.argument agg)

def tables : AggregateSource → List TableID
  | .rows table _ => [table]
  | .join p => [p.left, p.right]
  | .cross p => [p.left, p.right]
  | .multi p => p.relations.map (·.table)

/-- Validation rejects a projected relation that the join does not have. -/
def Valid : AggregateSource → Prop
  | .multi p => p.projectedRelation < p.relations.length
  | _ => True

variable {agg : Aggregate} {source : AggregateSource} {rows rows' : TableID → List ProductValue}

theorem arguments_none (source : AggregateSource) (hnone : agg.argument = none) :
    ∀ arg ∈ source.arguments agg rows, arg = none := by
  cases source with
  | rows table pred => exact rowArguments_none hnone _
  | join p => simp [arguments, Join.argument, hnone]
  | cross p => simp [arguments, CrossJoin.argument, hnone]
  | multi p =>
    intro arg hmem
    obtain ⟨tuple, -, rfl⟩ := List.mem_map.mp hmem
    simp [MultiJoin.argument, hnone]

theorem argumentClass_pair (left right : TableID) (leftAlias rightAlias : Nat)
    (arg : AggregateColumn) {l l' r r' : ProductValue} (hl : l.rowClass = l'.rowClass)
    (hr : r.rowClass = r'.rowClass) :
    argumentClass (relationPairAggregateArgumentValue left right leftAlias rightAlias arg l r) =
      argumentClass
        (relationPairAggregateArgumentValue left right leftAlias rightAlias arg l' r') := by
  have hleft := rank_of_rowValue hl arg.column
  have hright := rank_of_rowValue hr arg.column
  unfold relationPairAggregateArgumentValue
  repeat' split
  all_goals first | exact hleft | exact hright | rfl

theorem argumentClass_tuple (relations : List MultiJoinRelation) (arg : AggregateColumn)
    {tuple tuple' : List ProductValue}
    (h : tuple.map ProductValue.rowClass = tuple'.map ProductValue.rowClass) :
    argumentClass (multiJoinAggregateArgumentValue relations arg tuple) =
      argumentClass (multiJoinAggregateArgumentValue relations arg tuple') := by
  unfold multiJoinAggregateArgumentValue
  cases relations.findIdx? fun rel => rel.table = arg.table && rel.aliasTag = arg.aliasTag with
  | none => rfl
  | some i =>
    have hrow := congrArg (·[i]?) h
    simp only [List.getElem?_map] at hrow
    cases ht : tuple[i]? <;> cases ht' : tuple'[i]? <;> simp [ht, ht'] at hrow
    · simp [ht, ht']
    · simpa [argumentClass, ht, ht'] using rank_of_rowValue hrow arg.column

theorem argumentClass_bind {f g : AggregateColumn → Option Value}
    (h : ∀ arg, argumentClass (f arg) = argumentClass (g arg)) (argument : Option AggregateColumn) :
    argumentClass (argument.bind f) = argumentClass (argument.bind g) := by
  cases argument with
  | none => rfl
  | some arg => exact h arg

theorem bag_arguments_congr (h : ∀ t ∈ source.tables, rowBag (rows t) = rowBag (rows' t)) :
    bag argumentClass (source.arguments agg rows) =
      bag argumentClass (source.arguments agg rows') := by
  cases source with
  | rows table pred =>
    have hsum : ∀ rows : List ProductValue, bag argumentClass (rowArguments table pred agg rows) =
        total (fun row => if matchRow pred table row then
          {argumentClass (agg.argument.bind fun arg =>
            if arg.table = table ∧ arg.aliasTag = 0 then rowValue row arg.column else none)}
          else 0) rows := by
      intro rows
      rw [rowArguments, bag_map, bag_filter]
      rfl
    simp only [arguments, hsum]
    refine total_of_bag_eq (fun r r' hr => ?_) (h table List.mem_cons_self)
    have hclass : argumentClass (agg.argument.bind fun arg =>
        if arg.table = table ∧ arg.aliasTag = 0 then rowValue r arg.column else none) =
        argumentClass (agg.argument.bind fun arg =>
          if arg.table = table ∧ arg.aliasTag = 0 then rowValue r' arg.column else none) := by
      refine argumentClass_bind (fun arg => ?_) _
      split
      · exact rank_of_rowValue hr arg.column
      · rfl
    simp only [matchRow_congr pred table hr, hclass]
  | join p | cross p =>
    simp only [arguments, bag_map]
    apply PairSelection.bag_matched_congr _ _ (h _ (by simp [tables])) (h _ (by simp [tables]))
    intro l l' r r' hl hr
    exact argumentClass_bind (fun arg => argumentClass_pair _ _ _ _ arg hl hr) _
  | multi p =>
    have hrows : ∀ rel ∈ p.relations, rowBag (rows rel.table) = rowBag (rows' rel.table) :=
      fun rel hrel => h _ (List.mem_map_of_mem hrel)
    simp only [arguments, bag_map, bag_filter]
    refine total_tuples_congr (fun t t' ht => ?_) (sameRows_map hrows)
    have hclass : argumentClass (p.argument agg t) = argumentClass (p.argument agg t') :=
      argumentClass_bind (fun arg => argumentClass_tuple p.relations arg ht) agg.argument
    simp only [p.accepts_congr ht, Function.comp_apply, hclass]

end AggregateSource

/-! ## The values of a state -/

section Values

variable {agg : Aggregate} {floats : FloatOps} {view : CommittedState} {resolver : IndexResolver}
  {source : AggregateSource} {v : Value}

theorem aggregateMultiJoinRowsValue_gives (hint : agg.Integral) {p : MultiJoin}
    (hprojected : p.projectedRelation < p.relations.length) {rows : TableID → List ProductValue}
    (h : aggregateMultiJoinRowsValue agg floats p (p.relations.map fun rel => rows rel.table) =
      .ok v) : agg.Gives ((AggregateSource.multi p).arguments agg rows) v := by
  have hnone : agg.argument = none → ∀ arg ∈ (visitMultiJoinTuples p
      (p.relations.map fun rel => rows rel.table)).map (p.argument agg), arg = none := by
    intro hnone arg hmem
    obtain ⟨tuple, -, rfl⟩ := List.mem_map.mp hmem
    simp [MultiJoin.argument, hnone]
  refine (accumulate_gives hint hnone h).congr ?_
  exact bag_perm _ ((MultiJoin.visitMultiJoinTuples_perm hprojected (by simp)).map _)

theorem aggregateCommittedValue_gives (hint : agg.Integral) (hvalid : source.Valid)
    (hview : view.Inv) (hres : Resolves resolver view)
    (h : aggregateCommittedValue agg floats view resolver source = .ok v) :
    agg.Gives (source.arguments agg view.tableRows) v := by
  cases source with
  | rows table pred => exact aggregateRowsValue_gives hint h
  | join p =>
    obtain ⟨pairs, hpairs, h⟩ := except_bind_eq_ok.mp h
    have hperm := (visitJoinCommittedPairs_perm hview hres hpairs).map
      fun lr => p.argument agg lr.1 lr.2
    refine (accumulate_gives hint (fun hnone arg hmem => ?_) h).congr (bag_perm _ hperm)
    exact AggregateSource.arguments_none (.join p) hnone arg (hperm.mem_iff.mp hmem)
  | cross p =>
    simp only [aggregateCommittedValue, aggregateCrossJoinRowsValue, crossJoinRowPairs_eq] at h
    exact accumulate_gives hint (fun hnone =>
      AggregateSource.arguments_none (.cross p) hnone) h
  | multi p => exact aggregateMultiJoinRowsValue_gives hint hvalid h

end Values

end Shunter.Subscription
