import Shunter.Subscription.Aggregate

/-!
# The value of an aggregate

The aggregate of the arguments of all matches, said without an accumulator.  A
value that the accumulator gives is this one, and it only depends on the bag
of the arguments up to equality.
-/

namespace Shunter.Subscription

open Foundation Valueagg

/-- The values that count: those that are there and not null. -/
def present (args : List (Option Value)) : List Value :=
  args.filterMap (Option.filter (!·.isNull))

namespace Aggregate

/-- `COUNT(*)` counts every match, `COUNT(column)` the present values. -/
def contributes (agg : Aggregate) (arg : Option Value) : Bool :=
  agg.argument.isNone || arg.any (!·.isNull)

def count (agg : Aggregate) (args : List (Option Value)) : Nat :=
  if agg.distinct then ((present args).map Value.rank).toFinset.card
  else args.countP agg.contributes

/-- The sum of no values is null if the column can be null. -/
def sum (agg : Aggregate) (args : List (Option Value)) : Value :=
  if agg.resultNullable && (present args).isEmpty then .newNull agg.resultKind
  else integerValue agg.resultKind (total amountOf (present args))

def result (agg : Aggregate) (args : List (Option Value)) : Value :=
  match agg.func with
  | .count => newUint64 (.ofNat 64 (agg.count args))
  | .sum => agg.sum args

/-- The sum of an integer column has one of the two wide integer kinds. -/
def Integral (agg : Aggregate) : Prop :=
  agg.func = .sum → agg.resultKind = .int64 ∨ agg.resultKind = .uint64

end Aggregate

/-! ## Present values -/

@[simp] theorem present_nil : present [] = [] := rfl

@[simp] theorem present_none (args : List (Option Value)) : present (none :: args) = present args :=
  rfl

variable {v : Value}

theorem present_null (h : v.isNull = true) (args : List (Option Value)) :
    present (some v :: args) = present args := by
  simp [present, Option.filter, h]

theorem present_some (h : v.isNull = false) (args : List (Option Value)) :
    present (some v :: args) = v :: present args := by
  simp [present, Option.filter, h]

theorem total_amountOf_present (args : List (Option Value)) :
    total amountOf (present args) = total amountOf (args.filterMap id) := by
  induction args with
  | nil => rfl
  | cons a args ih =>
    cases a with
    | none => simpa using ih
    | some v =>
      cases hnull : v.isNull with
      | true => simp [present_null hnull, amountOf_of_isNull hnull, ih]
      | false => simp [present_some hnull, ih]

theorem any_present (args : List (Option Value)) :
    (args.filterMap id).any (!·.isNull) = !(present args).isEmpty := by
  induction args with
  | nil => rfl
  | cons a args ih =>
    cases a with
    | none => simpa using ih
    | some v =>
      cases hnull : v.isNull with
      | true => simpa [present_null hnull, hnull] using ih
      | false => simp [present_some hnull, hnull]

/-! ## The accumulators -/

section Sum

variable {agg : Aggregate} {floats : FloatOps} {args : List (Option Value)}

theorem sum_of_addAll (hkind : agg.resultKind = .int64 ∨ agg.resultKind = .uint64)
    {acc : Valueagg.Sum}
    (hadd :
      (args.filterMap id).foldlM (Sum.add floats) (newSum agg.resultKind agg.resultNullable) =
        .ok acc)
    (hvalue : acc.value = .ok v) :
    v = agg.sum args ∧ InRange agg.resultKind (total amountOf (present args)) := by
  have hstart : (newSum agg.resultKind agg.resultNullable).Integral := hkind
  have hadds := Sum.addAll_adds hstart hadd
  have hacc : acc.Integral := by
    rw [Sum.Integral, hadds.kind]
    exact hkind
  have hzero : (newSum agg.resultKind agg.resultNullable).amount = 0 := by
    rcases hkind with hkind | hkind <;> simp [newSum, Sum.amount, hkind]
  have hamount : acc.amount = total amountOf (present args) := by
    rw [hadds.amount, hzero, zero_add, total_amountOf_present]
  have hseen : acc.seen = !(present args).isEmpty := by
    rw [hadds.seen, any_present]
    rfl
  have hrange := Sum.amount_inRange hacc
  rw [Sum.value_eq hacc, hadds.kind, hadds.nullable, hseen, hamount] at hvalue
  rw [hadds.kind, hamount] at hrange
  refine ⟨?_, hrange⟩
  rw [← Except.ok.inj hvalue, Aggregate.sum, Bool.not_not]
  rfl

end Sum

section Accumulate

variable {agg : Aggregate} {floats : FloatOps} {args : List (Option Value)}

/-- A value without an error is the aggregate of the arguments. -/
structure Aggregate.Gives (agg : Aggregate) (args : List (Option Value)) (v : Value) : Prop where
  value : v = agg.result args
  inRange : agg.func = .sum → InRange agg.resultKind (total amountOf (present args))

theorem foldl_count {α : Type*} (p : α → Bool) (l : List α) (n : BitVec 64) :
    l.foldl (fun n a => if p a then n + 1 else n) n = n + .ofNat 64 (l.countP p) := by
  induction l generalizing n with
  | nil => simp
  | cons a l ih =>
    rw [List.foldl_cons, ih, List.countP_cons, BitVec.ofNat_add]
    split
    · rw [BitVec.add_assoc, BitVec.add_comm 1]
      rfl
    · simp

def countStep (agg : Aggregate) (a : JoinAggregateAccumulator) (arg : Option Value) :
    JoinAggregateAccumulator where
  count := if agg.contributes arg && (agg.argument.isNone || !agg.distinct) then a.count + 1
    else a.count
  distinct :=
    if agg.argument.isNone || !agg.distinct then a.distinct
    else match arg.filter (!·.isNull) with
      | some v => a.distinct.add v
      | none => a.distinct
  sum := a.sum

theorem addArgumentValue_count (hfunc : agg.func = .count) (a : JoinAggregateAccumulator)
    (arg : Option Value) :
    a.addArgumentValue agg floats arg = .ok (countStep agg a arg) := by
  unfold JoinAggregateAccumulator.addArgumentValue countStep
  rw [hfunc]
  cases hnone : agg.argument.isNone with
  | true => simp [Aggregate.contributes, hnone]
  | false =>
    cases arg with
    | none => simp [Aggregate.contributes, hnone]
    | some v =>
      cases hnull : v.isNull <;> cases hdistinct : agg.distinct <;>
        simp [Aggregate.contributes, hnone, hnull, Option.filter]

theorem foldlM_count (hfunc : agg.func = .count) (a : JoinAggregateAccumulator) :
    args.foldlM (JoinAggregateAccumulator.addArgumentValue agg floats) a =
      .ok (args.foldl (countStep agg) a) := by
  have hstep : JoinAggregateAccumulator.addArgumentValue agg floats =
      fun a arg => pure (countStep agg a arg) := by
    funext a arg
    exact addArgumentValue_count hfunc a arg
  rw [hstep, List.foldlM_pure]
  rfl

theorem count_foldl_countStep (hdistinct : agg.distinct = false) (a : JoinAggregateAccumulator) :
    (args.foldl (countStep agg) a).count = a.count + .ofNat 64 (args.countP agg.contributes) := by
  rw [← foldl_count]
  induction args generalizing a with
  | nil => rfl
  | cons arg args ih =>
    rw [List.foldl_cons, List.foldl_cons, ih]
    simp [countStep, hdistinct]

theorem distinct_foldl_countStep (hdistinct : agg.distinct = true)
    (hargs : agg.argument = none → ∀ arg ∈ args, arg = none) (a : JoinAggregateAccumulator) :
    (args.foldl (countStep agg) a).distinct = (present args).foldl DistinctSet.add a.distinct := by
  rw [present, List.foldl_filterMap]
  induction args generalizing a with
  | nil => rfl
  | cons arg args ih =>
    rw [List.foldl_cons, List.foldl_cons]
    rw [ih fun hnone arg hmem => hargs hnone arg (List.mem_cons_of_mem _ hmem)]
    congr 1
    cases hnone : agg.argument with
    | some col =>
      simp only [countStep, hdistinct, hnone, Option.isNone_some, Bool.not_true, Bool.or_self,
        Bool.false_eq_true, if_false]
      cases arg.filter (!·.isNull) <;> rfl
    | none => simp [countStep, hnone, hargs hnone arg List.mem_cons_self]

theorem foldlM_sum (hfunc : agg.func = .sum) (a : JoinAggregateAccumulator) :
    args.foldlM (JoinAggregateAccumulator.addArgumentValue agg floats) a =
      (((args.filterMap id).foldlM (Sum.add floats) a.sum).mapError .sum).map
        fun sum => { a with sum } := by
  induction args generalizing a with
  | nil => rfl
  | cons arg args ih =>
    rw [List.foldlM_cons]
    simp only [JoinAggregateAccumulator.addArgumentValue, hfunc] at ih ⊢
    cases arg with
    | none => exact ih a
    | some v =>
      change _ = (((v :: args.filterMap id).foldlM (Sum.add floats) a.sum).mapError _).map _
      rw [List.foldlM_cons]
      dsimp only
      cases a.sum.add floats v with
      | error e => rfl
      | ok sum => exact ih { a with sum }

theorem addAll_of_foldlM (hfunc : agg.func = .sum) {a a' : JoinAggregateAccumulator}
    (h : args.foldlM (JoinAggregateAccumulator.addArgumentValue agg floats) a = .ok a') :
    (args.filterMap id).foldlM (Sum.add floats) a.sum = .ok a'.sum := by
  rw [foldlM_sum hfunc] at h
  cases hadd : (args.filterMap id).foldlM (Sum.add floats) a.sum with
  | error e =>
    rw [hadd] at h
    cases h
  | ok sum =>
    rw [hadd] at h
    cases h
    rfl

theorem accumulate_gives (hint : agg.Integral)
    (hargs : agg.argument = none → ∀ arg ∈ args, arg = none)
    (h : accumulate agg floats args = .ok v) : agg.Gives args v := by
  obtain ⟨acc, hacc, hvalue⟩ := except_bind_eq_ok.mp h
  cases hfunc : agg.func with
  | count =>
    rw [foldlM_count hfunc] at hacc
    refine ⟨?_, fun hsum => by rw [hfunc] at hsum; cases hsum⟩
    simp only [JoinAggregateAccumulator.value, hfunc, Except.ok.injEq] at hvalue
    rw [← hvalue, ← Except.ok.inj hacc, Aggregate.result, hfunc, Aggregate.count]
    cases hdistinct : agg.distinct with
    | true =>
      rw [distinct_foldl_countStep hdistinct hargs]
      exact congrArg newUint64 (count_foldl_add (present args))
    | false =>
      rw [count_foldl_countStep hdistinct]
      exact congrArg newUint64 (BitVec.zero_add _)
  | sum =>
    have hadd := addAll_of_foldlM hfunc hacc
    simp only [JoinAggregateAccumulator.value, hfunc, except_mapError_eq_ok] at hvalue
    obtain ⟨hv, hrange⟩ := sum_of_addAll (hint hfunc) hadd hvalue
    refine ⟨?_, fun _ => hrange⟩
    rw [hv, Aggregate.result, hfunc]

end Accumulate

/-! ## One table -/

def rowArguments (table : TableID) (pred : Predicate) (agg : Aggregate)
    (rows : List ProductValue) : List (Option Value) :=
  (rows.filter (matchRow pred table)).map fun row =>
    agg.argument.bind fun arg =>
      if arg.table = table ∧ arg.aliasTag = 0 then rowValue row arg.column else none

section Rows

variable {table : TableID} {pred : Predicate} {agg : Aggregate}

theorem filterMap_rowArguments (f : Option Value → Option Value) (hf : f none = none)
    (rows : List ProductValue) :
    (rowArguments table pred agg rows).filterMap f =
      rows.filterMap fun row => f (aggregateArgumentValue table pred agg row) := by
  rw [rowArguments, List.filterMap_map, List.filterMap_filter]
  congr 1
  funext row
  unfold aggregateArgumentValue
  cases agg.argument with
  | none => simp [hf]
  | some arg => by_cases hrow : matchRow pred table row = true <;> simp [hrow, hf]

theorem countP_rowArguments (rows : List ProductValue) :
    (rowArguments table pred agg rows).countP agg.contributes =
      rows.countP (aggregateRowContributes table pred agg) := by
  rw [rowArguments, List.countP_map, List.countP_filter]
  apply List.countP_congr
  intro row _
  unfold aggregateRowContributes Aggregate.contributes
  cases agg.argument with
  | none => simp
  | some arg =>
    by_cases harg : arg.table = table ∧ arg.aliasTag = 0
    · simp [harg, and_comm]
    · simp only [Function.comp_apply, Option.bind_some, if_neg harg]
      rw [not_and_or] at harg
      rcases harg with harg | harg <;> simp [harg]

theorem rowArguments_none (hnone : agg.argument = none) (rows : List ProductValue) :
    ∀ arg ∈ rowArguments table pred agg rows, arg = none := by
  simp [rowArguments, hnone]

theorem countAggregateRows_eq (rows : List ProductValue) :
    countAggregateRows table pred agg rows =
      .ofNat 64 ((rowArguments table pred agg rows).countP agg.contributes) := by
  rw [countAggregateRows, foldl_count, countP_rowArguments]
  exact BitVec.zero_add _

theorem distinctCountAggregateRows_eq (rows : List ProductValue) :
    distinctCountAggregateRows table pred agg rows =
      .ofNat 64 ((present (rowArguments table pred agg rows)).map Value.rank).toFinset.card := by
  rw [← count_foldl_add, present, filterMap_rowArguments _ rfl, List.foldl_filterMap,
    distinctCountAggregateRows]
  congr 2
  funext seen row
  cases aggregateArgumentValue table pred agg row with
  | none => rfl
  | some v => cases hnull : v.isNull <;> simp [Option.filter, hnull]

theorem sumAggregateRows_eq (floats : FloatOps) (rows : List ProductValue) :
    sumAggregateRows table pred agg floats rows =
      ((rowArguments table pred agg rows).filterMap id).foldlM (Sum.add floats)
        (newSum agg.resultKind agg.resultNullable) := by
  rw [filterMap_rowArguments _ rfl, List.foldlM_filterMap, sumAggregateRows]
  congr 1
  funext acc row
  cases aggregateArgumentValue table pred agg row <;> rfl

theorem aggregateRowsValue_gives {floats : FloatOps} (hint : agg.Integral)
    {rows : List ProductValue} (h : aggregateRowsValue table pred agg floats rows = .ok v) :
    agg.Gives (rowArguments table pred agg rows) v := by
  unfold aggregateRowsValue at h
  cases hfunc : agg.func with
  | count =>
    refine ⟨?_, fun hsum => by rw [hfunc] at hsum; cases hsum⟩
    rw [hfunc] at h
    dsimp only at h
    rw [Aggregate.result, hfunc, Aggregate.count]
    split at h
    · next hdistinct =>
      rw [if_pos hdistinct, ← Except.ok.inj h, distinctCountAggregateRows_eq]
    · next hdistinct =>
      rw [if_neg hdistinct, ← Except.ok.inj h, countAggregateRows_eq]
  | sum =>
    rw [hfunc] at h
    dsimp only at h
    obtain ⟨acc, hacc, hvalue⟩ := except_bind_eq_ok.mp h
    rw [except_mapError_eq_ok, sumAggregateRows_eq] at hacc
    obtain ⟨hv, hrange⟩ := sum_of_addAll (hint hfunc) hacc (except_mapError_eq_ok.mp hvalue)
    refine ⟨?_, fun _ => hrange⟩
    rw [hv, Aggregate.result, hfunc]

end Rows

end Shunter.Subscription
