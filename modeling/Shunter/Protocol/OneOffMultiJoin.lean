import Shunter.Protocol.CompiledMultiJoin
import Shunter.Subscription.AggregateSource

/-!
# One-off joins of several relations

The executor puts one row after the other in place.  It draws the rows of a
relation from an index where a condition ties it to an earlier relation, tests
each row against the visibility of its relation, and checks the conditions as
soon as their rows are there.  A live query of the same join visits the same
tuples.
-/

namespace Shunter.Protocol

open Foundation Subscription Valueagg

def multiJoinPrefixConditionsMatch (conditions : List CompiledSQLMultiJoinCondition)
    (tuple : List ProductValue) (depth : Nat) : Bool :=
  conditions.all fun condition =>
    depth < condition.left.relation || depth < condition.right.relation ||
      multiJoinColumnValuesEqual tuple condition.left condition.right

structure MultiJoinIndexedProbe where
  known : CompiledSQLMultiColumnRef
  index : IndexID

section Executor

variable (view : CommittedState) (multi : CompiledSQLMultiJoin) (resolver : IndexResolver)

def multiJoinIndexedProbeForDepth (depth : Nat) : Option MultiJoinIndexedProbe := do
  let rel ← multi.relations[depth]?
  multi.conditions.findSome? fun condition =>
    let probe (here known : CompiledSQLMultiColumnRef) : Option MultiJoinIndexedProbe :=
      if here.relation = depth ∧ known.relation < depth then
        (resolver rel.table here.column.column).map fun index => ⟨known, index⟩
      else none
    (probe condition.left condition.right).or (probe condition.right condition.left)

def visitOneOffMultiJoinCandidateRows (depth : Nat) (tuple : List ProductValue) :
    List ProductValue :=
  match multi.relations[depth]? with
  | none => []
  | some rel =>
    match multiJoinIndexedProbeForDepth multi resolver depth with
    | some probe =>
      match multiJoinColumnValue tuple probe.known with
      | none => []
      | some value => view.seekRows rel.table probe.index [value]
    | none => view.tableRows rel.table

def CompiledSQLMultiJoin.rowVisible (relation : Nat) (row : ProductValue) : Bool :=
  multi.relations[relation]?.all fun rel =>
    matchRowSide rel.table rel.aliasTag row rel.visibility

/-- The tests of the walk on the row it has just put in place. -/
def CompiledSQLMultiJoin.keeps (tuple : List ProductValue) : Bool :=
  tuple.getLast?.all (multi.rowVisible (tuple.length - 1)) &&
    (tuple = [] || multiJoinPrefixConditionsMatch multi.conditions tuple (tuple.length - 1))

def visitOneOffMultiJoinTuples : List (List ProductValue) :=
  (walk multi.keeps ((List.range' 0 multi.relations.length).map
    (visitOneOffMultiJoinCandidateRows view multi resolver)) []).filter
    (matchCompiledSQLMultiPredicate · multi.filter)

def projectOneOffMultiJoinTuple (tuple : List ProductValue) (columns : List ProjectionColumn) :
    ProductValue :=
  if columns = [] then tuple[multi.projectedRelation]?.getD []
  else columns.filterMap fun col => do
    let relation ← multiJoinRelationIndex multi.relations col.table col.aliasTag
    let row ← tuple[relation]?
    row[col.column]?

def executeCompiledSQLMultiJoin (columns : List ProjectionColumn) : List ProductValue :=
  (visitOneOffMultiJoinTuples view multi resolver).map
    (projectOneOffMultiJoinTuple multi · columns)

end Executor

/-! ## Aggregates -/

section Aggregates

variable (agg : Aggregate) (floats : FloatOps) (multi : CompiledSQLMultiJoin)
  (tuples : List (List ProductValue))

def oneOffMultiJoinColumnValue (tuple : List ProductValue) (column : AggregateColumn) :
    Option Value := do
  let relation ← multiJoinRelationIndex multi.relations column.table column.aliasTag
  let row ← tuple[relation]?
  row[column.column]?

def countOneOffMultiJoinAggregate : BitVec 64 :=
  match agg.argument with
  | none => tuples.foldl (fun count _ => count + 1) 0
  | some argument =>
    if agg.distinct then
      (tuples.foldl (fun (seen : DistinctSet) tuple =>
        match oneOffMultiJoinColumnValue multi tuple argument with
        | none => seen
        | some value => if value.isNull then seen else seen.add value) newDistinctSet).count
    else
      tuples.foldl (fun count tuple =>
        match oneOffMultiJoinColumnValue multi tuple argument with
        | none => count
        | some value => if value.isNull then count else count + 1) 0

/-- The walk stops at the first error, which the accumulator keeps; `none` is a sum without a
column. -/
def sumOneOffMultiJoinAggregate : Option (Except SumError Value) :=
  agg.argument.map fun argument => do
    let acc ← tuples.foldlM (fun (acc : Valueagg.Sum) tuple =>
      match oneOffMultiJoinColumnValue multi tuple argument with
      | none => .ok acc
      | some value => acc.add floats value) (newSum agg.resultKind agg.resultNullable)
    acc.value

def evaluateOneOffMultiJoinAggregate : Option (Except AggregateError Value) :=
  match agg.func with
  | .count => some (.ok (newUint64 (countOneOffMultiJoinAggregate agg multi tuples)))
  | .sum => (sumOneOffMultiJoinAggregate agg floats multi tuples).map (·.mapError .sum)

end Aggregates

/-! ## The tuples that the executor visits -/

namespace CompiledSQLMultiJoin

variable (multi : CompiledSQLMultiJoin) {tuple : List ProductValue}

def visible (tuple : List ProductValue) : Bool :=
  tuple.zipIdx.all fun rowAt => multi.rowVisible rowAt.2 rowAt.1

/-- All conditions, the filter and the visibility of each row hold. -/
def accepts (tuple : List ProductValue) : Bool :=
  (multi.conditions.all fun condition =>
    multiJoinColumnValuesEqual tuple condition.left condition.right) &&
    matchCompiledSQLMultiPredicate tuple multi.filter && multi.visible tuple

def passes (tuple : List ProductValue) : Bool :=
  multi.visible tuple && multi.conditions.all fun condition =>
    tuple.length ≤ condition.left.relation || tuple.length ≤ condition.right.relation ||
      multiJoinColumnValuesEqual tuple condition.left condition.right

def shape : MultiJoin where
  relations := multi.subscriptionRelations
  conditions := multi.conditions.map fun condition =>
    ⟨subscriptionMultiJoinColumnRef condition.left, subscriptionMultiJoinColumnRef condition.right⟩
  projectedRelation := multi.projectedRelation
  filter := .missing

theorem passes_eq (tuple : List ProductValue) :
    multi.passes tuple = (multi.visible tuple && multi.shape.keeps tuple) := by
  rw [passes, MultiJoin.keeps_eq, shape, List.all_map]
  rfl

@[simp] theorem passes_nil : multi.passes [] = true := by
  simp [passes, visible]

theorem visible_append (tuple : List ProductValue) (row : ProductValue) :
    multi.visible (tuple ++ [row]) =
      (multi.visible tuple && multi.rowVisible tuple.length row) := by
  simp [visible, List.zipIdx_append]

variable {multi} {ref : CompiledSQLMultiColumnRef}

theorem multiJoinColumnValue_append (h : ref.relation < tuple.length) (row : ProductValue) :
    multiJoinColumnValue (tuple ++ [row]) ref = multiJoinColumnValue tuple ref := by
  change multiJoinConditionColumnValue (tuple ++ [row]) (subscriptionMultiJoinColumnRef ref) = _
  exact MultiJoin.multiJoinConditionColumnValue_append h row

theorem passes_mono (tuple : List ProductValue) (row : ProductValue)
    (h : multi.passes (tuple ++ [row]) = true) : multi.passes tuple = true := by
  rw [passes_eq, visible_append, Bool.and_eq_true, Bool.and_eq_true] at h
  rw [passes_eq, h.1.1, multi.shape.keeps_mono tuple row h.2]
  rfl

theorem keeps_append (tuple : List ProductValue) (row : ProductValue)
    (h : multi.passes tuple = true) :
    multi.keeps (tuple ++ [row]) = multi.passes (tuple ++ [row]) := by
  have hvisible : multi.visible tuple = true := by
    rw [passes, Bool.and_eq_true] at h
    exact h.1
  simp [keeps, passes, visible_append, hvisible, multiJoinPrefixConditionsMatch]

theorem multiJoinColumnValuesEqual_comm (tuple : List ProductValue)
    (left right : CompiledSQLMultiColumnRef) :
    multiJoinColumnValuesEqual tuple left right = multiJoinColumnValuesEqual tuple right left := by
  unfold multiJoinColumnValuesEqual
  cases multiJoinColumnValue tuple left <;> cases multiJoinColumnValue tuple right <;>
    simp [value_equal_comm]

theorem columnValues_of_passes {condition : CompiledSQLMultiJoinCondition}
    {here known : CompiledSQLMultiColumnRef} (row : ProductValue)
    (hmem : condition ∈ multi.conditions)
    (hsides : (condition.left = here ∧ condition.right = known) ∨
      (condition.right = here ∧ condition.left = known))
    (hhere : here.relation = tuple.length) (hknown : known.relation < tuple.length)
    (h : multi.passes (tuple ++ [row]) = true) :
    ∃ value, multiJoinColumnValue tuple known = some value ∧
      matchColumn row here.column.column (fun w => value.equal w) = true := by
  rw [passes, Bool.and_eq_true, List.all_eq_true] at h
  have hcond := h.2 condition hmem
  have hequal : multiJoinColumnValuesEqual (tuple ++ [row]) known here = true := by
    rcases hsides with ⟨rfl, rfl⟩ | ⟨rfl, rfl⟩
    · rw [multiJoinColumnValuesEqual_comm]
      simpa [hhere, not_le.mpr (Nat.lt_succ_of_lt hknown)] using hcond
    · simpa [hhere, not_le.mpr (Nat.lt_succ_of_lt hknown)] using hcond
  have hrow : multiJoinColumnValue (tuple ++ [row]) here = row[here.column.column]? := by
    simp [multiJoinColumnValue, hhere]
  rw [multiJoinColumnValuesEqual, hrow, multiJoinColumnValue_append hknown] at hequal
  obtain ⟨value, hvalue, hmatch⟩ := (Option.any_eq_true _ _).mp hequal
  exact ⟨value, hvalue, hmatch⟩

variable {rel : CompiledSQLMultiJoinRelation} {table : TableID}

theorem multiJoinIndexedProbeForDepth_eq {resolver : IndexResolver} {depth : Nat}
    (hrel : multi.relations[depth]? = some rel) {probe : MultiJoinIndexedProbe}
    (h : multiJoinIndexedProbeForDepth multi resolver depth = some probe) :
    ∃ condition ∈ multi.conditions, ∃ here : CompiledSQLMultiColumnRef,
      ((condition.left = here ∧ condition.right = probe.known) ∨
        (condition.right = here ∧ condition.left = probe.known)) ∧
      here.relation = depth ∧ probe.known.relation < depth ∧
      resolver rel.table here.column.column = some probe.index := by
  simp only [multiJoinIndexedProbeForDepth, hrel, Option.bind_eq_bind, Option.bind_some] at h
  obtain ⟨condition, hmem, h⟩ := List.exists_of_findSome?_eq_some h
  refine ⟨condition, hmem, ?_⟩
  rcases Option.or_eq_some_iff.mp h with h | ⟨-, h⟩ <;>
    obtain ⟨hat, h⟩ := Option.ite_none_right_eq_some.mp h <;>
    obtain ⟨index, hindex, rfl⟩ := Option.map_eq_some_iff.mp h
  · exact ⟨condition.left, .inl ⟨rfl, rfl⟩, hat.1, hat.2, hindex⟩
  · exact ⟨condition.right, .inr ⟨rfl, rfl⟩, hat.1, hat.2, hindex⟩

theorem candidateRows_perm {view : CommittedState} {resolver : IndexResolver} (hview : view.Inv)
    (hres : Resolves resolver view) (hrel : multi.relations[tuple.length]? = some rel) :
    ((visitOneOffMultiJoinCandidateRows view multi resolver tuple.length tuple).filter
      fun row => multi.passes (tuple ++ [row])).Perm
      ((view.tableRows rel.table).filter fun row => multi.passes (tuple ++ [row])) := by
  cases hprobe : multiJoinIndexedProbeForDepth multi resolver tuple.length with
  | none => simp only [visitOneOffMultiJoinCandidateRows, hrel, hprobe]; exact .refl _
  | some probe =>
    obtain ⟨condition, hmem, here, hsides, hhere, hknown, hindex⟩ :=
      multiJoinIndexedProbeForDepth_eq hrel hprobe
    have hpasses := fun row => columnValues_of_passes row hmem hsides hhere hknown
    cases hvalue : multiJoinColumnValue tuple probe.known with
    | none =>
      simp only [visitOneOffMultiJoinCandidateRows, hrel, hprobe, hvalue, List.filter_nil]
      refine .of_eq (Eq.symm ?_)
      rw [List.filter_eq_nil_iff]
      intro row _ h
      obtain ⟨value, hsome, -⟩ := hpasses row h
      rw [hvalue] at hsome
      cases hsome
    | some value =>
      simp only [visitOneOffMultiJoinCandidateRows, hrel, hprobe, hvalue]
      refine ((seekRows_of_resolves hview hres hindex value).filter _).trans (.of_eq ?_)
      rw [List.filter_filter]
      apply List.filter_congr
      intro row _
      cases h : multi.passes (tuple ++ [row]) with
      | false => rfl
      | true =>
        obtain ⟨value', hsome, hmatch⟩ := hpasses row h
        rw [hvalue] at hsome
        cases hsome
        simpa using hmatch

/-! ## Tuples of stored rows -/

section Stored

variable {view : CommittedState} {resolver : IndexResolver} (hview : view.Inv)
  (hmulti : multi.Compiled view)

def rowsByRelation (multi : CompiledSQLMultiJoin) (view : CommittedState) :
    List (List ProductValue) :=
  multi.relations.map fun rel => view.tableRows rel.table

theorem row_of_mem_tuples (h : tuple ∈ tuples (multi.rowsByRelation view)) {i : Nat}
    (hrel : multi.relations[i]? = some rel) :
    ∃ row, tuple[i]? = some row ∧ row ∈ view.tableRows rel.table := by
  have hall := forall₂_of_mem_tuples h
  obtain ⟨hi, hget⟩ := List.getElem?_eq_some_iff.mp hrel
  have hlen : i < (multi.rowsByRelation view).length := by simpa [rowsByRelation] using hi
  have hi' : i < tuple.length := hall.length_eq ▸ hlen
  refine ⟨tuple[i], by simp [hi'], ?_⟩
  simpa [rowsByRelation, hget] using hall.get hlen hi'

theorem length_of_mem_tuples (h : tuple ∈ tuples (multi.rowsByRelation view)) :
    tuple.length = multi.relations.length := by
  simpa [rowsByRelation] using (forall₂_of_mem_tuples h).length_eq.symm

theorem lt_length_of_resolved (h : ref.Resolved multi.relations) :
    ref.relation < multi.relations.length :=
  (List.findIdx?_eq_some_iff_getElem.mp h).1

include hmulti in
theorem conditions_checked (htuple : tuple.length = multi.relations.length) :
    (multi.conditions.all fun condition =>
      tuple.length ≤ condition.left.relation || tuple.length ≤ condition.right.relation ||
        multiJoinColumnValuesEqual tuple condition.left condition.right) =
      multi.conditions.all fun condition =>
        multiJoinColumnValuesEqual tuple condition.left condition.right := by
  rw [Bool.eq_iff_iff, List.all_eq_true, List.all_eq_true]
  apply forall₂_congr
  intro condition hmem
  obtain ⟨hl, hr⟩ := hmulti.conditions condition hmem
  have hleft := lt_length_of_resolved hl
  have hright := lt_length_of_resolved hr
  simp [htuple, not_le.mpr hleft, not_le.mpr hright]

include hview hmulti in
theorem visitOneOffMultiJoinTuples_perm (hres : Resolves resolver view) :
    (visitOneOffMultiJoinTuples view multi resolver).Perm
      ((tuples (multi.rowsByRelation view)).filter multi.accepts) := by
  have hcands : Candidates multi.passes 0 ((List.range' 0 multi.relations.length).map
      (visitOneOffMultiJoinCandidateRows view multi resolver)) (multi.rowsByRelation view) := by
    have hlen : multi.relations.length = (multi.rowsByRelation view).length := by
      simp [rowsByRelation]
    rw [hlen]
    apply candidates_range'
    intro d l hl t ht _
    rw [rowsByRelation, List.getElem?_map, Option.map_eq_some_iff] at hl
    obtain ⟨rel, hrel, rfl⟩ := hl
    rw [Nat.zero_add] at ht ⊢
    subst ht
    exact candidateRows_perm hview hres hrel
  have hwalk := walk_perm passes_mono (t := []) hcands (passes_nil multi)
  rw [visitOneOffMultiJoinTuples, walk_congr keeps_append _ (passes_nil multi)]
  refine (hwalk.filter _).trans (.of_eq ?_)
  simp only [List.nil_append, List.map_id', List.filter_filter]
  apply List.filter_congr
  intro tuple hmem
  rw [passes, accepts, conditions_checked hmulti (length_of_mem_tuples hmem), Bool.and_comm,
    Bool.and_comm (multi.visible tuple), Bool.and_assoc, Bool.and_assoc]
  congr 1
  exact Bool.and_comm _ _

theorem kind_of_mem_tableRows (hview : view.Inv) {row : ProductValue}
    (hrow : row ∈ view.tableRows table) {column : Nat} {v : Value} (hv : row[column]? = some v)
    {k : ValueKind} (hk : columnKind view table column = some k) : v.kind = k := by
  simp only [columnKind, Option.bind_eq_bind, Option.bind_eq_some_iff] at hk
  obtain ⟨t, ht, col, hcol, hk⟩ := hk
  cases hk
  obtain ⟨rid, hstored⟩ := (CommittedState.mem_tableRows ht).mp hrow
  exact kind_of_validateColumn (validateColumn_of_validateRow
    ((hview table t ht).1.rowsOK.valid rid row hstored) hcol hv)

theorem table_of_multiJoinPredicateRelation {relations : List MultiJoinRelation}
    {aliasTag i : Nat} (h : multiJoinPredicateRelation relations table aliasTag = some i) :
    ∃ rel, relations[i]? = some rel ∧ rel.table = table := by
  unfold multiJoinPredicateRelation at h
  split at h
  all_goals
    obtain ⟨hi, hp, -⟩ := List.findIdx?_eq_some_iff_getElem.mp h
    refine ⟨relations[i], by simp [hi], ?_⟩
    simp_all

theorem mem_tableRows_of_liveRow (h : tuple ∈ tuples (multi.rowsByRelation view))
    {aliasTag : Nat} {row : ProductValue}
    (hrow : liveRow multi.relations tuple table aliasTag = some row) :
    row ∈ view.tableRows table := by
  obtain ⟨i, hi, hget⟩ := Option.bind_eq_some_iff.mp hrow
  obtain ⟨rel, hrel, rfl⟩ := table_of_multiJoinPredicateRelation hi
  rw [List.getElem?_map, Option.map_eq_some_iff] at hrel
  obtain ⟨compiled, hcompiled, rfl⟩ := hrel
  obtain ⟨row', hrow', hmem⟩ := row_of_mem_tuples h hcompiled
  rw [hget] at hrow'
  cases hrow'
  exact hmem

/-! ## The live join -/

include hmulti in
theorem all_visibility (h : tuple ∈ tuples (multi.rowsByRelation view)) :
    (multi.relations.all fun rel =>
      matchRows (liveRow multi.relations tuple) rel.visibility) = multi.visible tuple := by
  -- The row of a relation, as the live predicate finds it.
  have hside : ∀ (i : Nat) (rel : CompiledSQLMultiJoinRelation) (row : ProductValue),
      multi.relations[i]? = some rel → tuple[i]? = some row →
      matchRows (liveRow multi.relations tuple) rel.visibility =
        matchRowSide rel.table rel.aliasTag row rel.visibility := by
    intro i rel row hrel hrow
    apply matchRows_eq_matchRowSide _ (hmulti.visibility rel (List.mem_of_getElem? hrel))
    rw [liveRow_of_index (hmulti.distinct i rel hrel), hrow]
  rw [Bool.eq_iff_iff, List.all_eq_true, visible, List.all_eq_true]
  constructor
  · rintro hall ⟨row, i⟩ hmem
    have hrow := List.mem_zipIdx_iff_getElem?.mp hmem
    rw [rowVisible, Option.all_eq_true]
    intro rel hrel
    rw [← hside i rel row hrel hrow]
    exact hall rel (List.mem_of_getElem? hrel)
  · intro hall rel hmem
    obtain ⟨i, hi, rfl⟩ := List.mem_iff_getElem.mp hmem
    have hrel : multi.relations[i]? = some multi.relations[i] := by simp [hi]
    obtain ⟨row, hrow, -⟩ := row_of_mem_tuples h hrel
    rw [hside i _ row hrel hrow]
    have hvisible := hall (row, i) (List.mem_zipIdx_iff_getElem?.mpr hrow)
    simpa [rowVisible, hrel] using hvisible

include hview hmulti in
theorem subscriptionMultiJoinPredicate_accepts :
    ∃ p, subscriptionMultiJoinPredicate multi = some p ∧
      p.relations = multi.subscriptionRelations ∧
      p.projectedRelation = multi.projectedRelation ∧
      ∀ tuple ∈ tuples (multi.rowsByRelation view), p.accepts tuple = multi.accepts tuple := by
  obtain ⟨sub, hsub, -⟩ := compiledMultiPredicateToSubscription_sound []
    ((multi.relations[multi.projectedRelation]?.map (·.table)).getD 0) hmulti.filter
    (by simp [liveRow, multiJoinPredicateRow])
  refine ⟨_, by rw [subscriptionMultiJoinPredicate, hsub]; rfl, rfl, rfl, ?_⟩
  intro tuple hmem
  obtain ⟨sub', hsub', hfilter⟩ := compiledMultiPredicateToSubscription_sound tuple
    ((multi.relations[multi.projectedRelation]?.map (·.table)).getD 0) hmulti.filter
    (fun table aliasTag column row v k hrow hv hk =>
      kind_of_mem_tableRows hview (mem_tableRows_of_liveRow hmem hrow) hv hk)
  rw [hsub] at hsub'
  cases hsub'
  have hconds := conditions_checked hmulti (length_of_mem_tuples hmem)
  rw [MultiJoin.accepts, accepts, Bool.and_assoc, ← hfilter, ← all_visibility hmulti hmem,
    ← matchRows_foldl_visibility, ← hconds, List.all_map]
  rfl

end Stored

end CompiledSQLMultiJoin

/-! ## Rows and aggregates -/

section Results

variable {agg : Aggregate} {floats : FloatOps} {multi : CompiledSQLMultiJoin} {p : MultiJoin}
  {tuples : List (List ProductValue)}

theorem findIdx?_subscriptionRelations (multi : CompiledSQLMultiJoin) (table : TableID)
    (aliasTag : Nat) (f : MultiJoinRelation → Bool)
    (hf : ∀ rel, f rel = (decide (rel.table = table) && decide (rel.aliasTag = aliasTag))) :
    multi.subscriptionRelations.findIdx? f =
      multiJoinRelationIndex multi.relations table aliasTag := by
  rw [CompiledSQLMultiJoin.subscriptionRelations, List.findIdx?_map, multiJoinRelationIndex]
  congr 1
  funext rel
  exact hf _

theorem projectOneOffMultiJoinTuple_eq (hrelations : p.relations = multi.subscriptionRelations)
    (hprojected : p.projectedRelation = multi.projectedRelation) (tuple : List ProductValue)
    (columns : List ProjectionColumn) :
    projectOneOffMultiJoinTuple multi tuple columns =
      projectMultiJoinTuple tuple p.relations p.projectedRelation columns := by
  have hindex : ∀ col : ProjectionColumn, multiJoinProjectionRelation p.relations col =
      multiJoinRelationIndex multi.relations col.table col.aliasTag := by
    intro col
    rw [hrelations]
    apply findIdx?_subscriptionRelations
    intro rel
    simp [eq_comm]
  simp only [projectOneOffMultiJoinTuple, projectMultiJoinTuple, hindex, hprojected]

theorem argument_eq (hrelations : p.relations = multi.subscriptionRelations)
    (tuple : List ProductValue) :
    p.argument agg tuple = agg.argument.bind (oneOffMultiJoinColumnValue multi tuple) := by
  rw [MultiJoin.argument]
  congr 1
  funext arg
  rw [multiJoinAggregateArgumentValue, hrelations,
    findIdx?_subscriptionRelations multi arg.table arg.aliasTag _ fun rel => rfl]
  rfl

/-- The parser knows `COUNT(*)`, `COUNT(column)`, `COUNT(DISTINCT column)` and `SUM(column)`. -/
def ParsedAggregate (agg : Aggregate) : Prop :=
  agg.argument = none → agg.func = .count ∧ agg.distinct = false

theorem countOneOffMultiJoinAggregate_eq (hparsed : ParsedAggregate agg)
    (tuples : List (List ProductValue)) :
    countOneOffMultiJoinAggregate agg multi tuples = .ofNat 64 (agg.count
      (tuples.map fun tuple => agg.argument.bind (oneOffMultiJoinColumnValue multi tuple))) := by
  unfold countOneOffMultiJoinAggregate Aggregate.count
  cases harg : agg.argument with
  | none =>
    have hcontributes : agg.contributes = fun _ => true := by
      funext arg
      simp [Aggregate.contributes, harg]
    have hcount := (foldl_count (fun _ : List ProductValue => true) tuples 0).trans
      (BitVec.zero_add _)
    rw [(hparsed harg).2, hcontributes]
    simpa using hcount
  | some argument =>
    cases hdistinct : agg.distinct with
    | true =>
      simp only [if_true, Option.bind_some]
      rw [← count_foldl_add, present, List.filterMap_map, List.foldl_filterMap]
      congr 2
      funext seen tuple
      cases hvalue : oneOffMultiJoinColumnValue multi tuple argument with
      | none => simp [hvalue]
      | some v => cases hnull : v.isNull <;> simp [hvalue, Option.filter, hnull]
    | false =>
      simp only [Bool.false_eq_true, if_false, Option.bind_some, List.countP_map]
      have hcount := (foldl_count (agg.contributes ∘ fun tuple =>
        oneOffMultiJoinColumnValue multi tuple argument) tuples 0).trans (BitVec.zero_add _)
      rw [← hcount]
      congr 1
      funext count tuple
      cases hvalue : oneOffMultiJoinColumnValue multi tuple argument with
      | none => simp [hvalue, Aggregate.contributes, harg]
      | some v => cases hnull : v.isNull <;> simp [hvalue, Aggregate.contributes, harg, hnull]

theorem accumulate_count (floats : FloatOps) (hfunc : agg.func = .count) (args : List (Option Value)) :
    ∃ v, accumulate agg floats args = .ok v := by
  rw [accumulate, foldlM_count hfunc]
  simp only [JoinAggregateAccumulator.value, hfunc]
  exact ⟨_, rfl⟩

theorem accumulate_perm (hint : agg.Integral) {args args' : List (Option Value)}
    (hargs : agg.argument = none → ∀ arg ∈ args, arg = none) (hperm : args.Perm args')
    {v w : Value} (hv : accumulate agg floats args = .ok v)
    (hw : accumulate agg floats args' = .ok w) : v = w := by
  have hv := (accumulate_gives hint hargs hv).congr (bag_perm _ hperm)
  have hw := accumulate_gives hint (fun hnone arg hmem =>
    hargs hnone arg (hperm.mem_iff.mpr hmem)) hw
  rw [hv.value, hw.value]

theorem sumOneOffMultiJoinAggregate_eq {argument : AggregateColumn}
    (harg : agg.argument = some argument) (tuples : List (List ProductValue)) :
    sumOneOffMultiJoinAggregate agg floats multi tuples = some (do
      let acc ← ((tuples.map fun tuple => oneOffMultiJoinColumnValue multi tuple
        argument).filterMap id).foldlM (Sum.add floats) (newSum agg.resultKind agg.resultNullable)
      acc.value) := by
  rw [sumOneOffMultiJoinAggregate, harg, Option.map_some, List.filterMap_map,
    List.foldlM_filterMap]
  congr 3
  funext acc tuple
  simp only [Function.comp_apply, id]
  cases oneOffMultiJoinColumnValue multi tuple argument <;> rfl

theorem evaluateOneOffMultiJoinAggregate_eq (hparsed : ParsedAggregate agg)
    (hrelations : p.relations = multi.subscriptionRelations)
    (tuples : List (List ProductValue)) :
    evaluateOneOffMultiJoinAggregate agg floats multi tuples =
      some (accumulate agg floats (tuples.map (p.argument agg))) := by
  have hargs : tuples.map (p.argument agg) =
      tuples.map fun tuple => agg.argument.bind (oneOffMultiJoinColumnValue multi tuple) :=
    List.map_congr_left fun tuple _ => argument_eq hrelations tuple
  rw [hargs, evaluateOneOffMultiJoinAggregate]
  cases hfunc : agg.func with
  | count =>
    obtain ⟨v, hv⟩ := accumulate_count floats hfunc (tuples.map fun tuple =>
      agg.argument.bind (oneOffMultiJoinColumnValue multi tuple))
    have hgives := accumulate_gives (fun hsum => by rw [hfunc] at hsum; cases hsum)
      (by simp +contextual) hv
    rw [hv, hgives.value, Aggregate.result, hfunc]
    simp only [countOneOffMultiJoinAggregate_eq hparsed]
  | sum =>
    cases harg : agg.argument with
    | none =>
      rw [(hparsed harg).1] at hfunc
      cases hfunc
    | some argument =>
      simp only [sumOneOffMultiJoinAggregate_eq harg, Option.map_some, accumulate,
        foldlM_sum hfunc, Option.bind_some, JoinAggregateAccumulator.value, hfunc,
        newJoinAggregateAccumulator]
      cases ((tuples.map fun tuple => oneOffMultiJoinColumnValue multi tuple
        argument).filterMap id).foldlM (Sum.add floats)
        (newSum agg.resultKind agg.resultNullable) with
      | error e => rfl
      | ok acc => rfl

variable {view : CommittedState} {resolver : IndexResolver}

def threeMembers : CompiledSQLMultiJoin where
  relations := [⟨0, 0, .missing⟩, ⟨0, 1, .colEq 0 1 1 ⟨.uint64, some 7⟩⟩, ⟨0, 2, .missing⟩]
  conditions := [⟨⟨⟨0, 1, 0⟩, 0⟩, ⟨⟨0, 1, 1⟩, 1⟩⟩, ⟨⟨⟨0, 0, 1⟩, 1⟩, ⟨⟨0, 0, 2⟩, 2⟩⟩]
  filter := .or .never (.comparison ⟨⟨0, 0, 2⟩, 2⟩ .ge ⟨.uint64, some 1⟩)
  projectedRelation := 1

theorem threeMembers_compiled : threeMembers.Compiled teamsBefore where
  projected := by decide
  distinct i rel hrel := by
    match i, hrel with
    | 0, hrel | 1, hrel | 2, hrel => cases hrel; rfl
  conditions condition hmem := by
    simp only [threeMembers, List.mem_cons, List.not_mem_nil, or_false] at hmem
    rcases hmem with rfl | rfl <;> exact ⟨rfl, rfl⟩
  filter := by
    have hkind : columnKind teamsBefore 0 0 = some .uint64 := by decide +kernel
    exact ⟨trivial, rfl, nofun, hkind⟩
  visibility rel hmem := by
    simp only [threeMembers, List.mem_cons, List.not_mem_nil, or_false] at hmem
    rcases hmem with rfl | rfl | rfl
    · trivial
    · exact ⟨rfl, rfl⟩
    · trivial

def membersByID : IndexResolver := fun table col => if table = 0 ∧ col = 0 then some 0 else none

theorem membersByID_resolves : Resolves membersByID teamsBefore := by
  have hindex : (StateView.lookupIndex teamsBefore 0 0).any (fun found =>
      found.2.schema.columns = [0] ∧ 0 < found.1.schema.columns.length) = true := by
    decide +kernel
  intro table col indexID h
  obtain ⟨⟨rfl, rfl⟩, h⟩ := Option.ite_none_right_eq_some.mp h
  cases h
  obtain ⟨⟨t, idx⟩, hfound, hcols⟩ := (Option.any_eq_true _ _).mp hindex
  simp only [decide_eq_true_eq] at hcols
  exact ⟨t, idx, hfound, hcols⟩

end Results

end Shunter.Protocol
