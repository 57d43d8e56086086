import Shunter.Subscription.AggregateRun

/-!
# Sums in every scan order

A sum checks every running total, and rows come in the order of a Go map.  The
outcome is the exact one in every order if and only if neither the positive
nor the negative values alone leave the range, or the whole sum does.
-/

namespace Shunter.Valueagg

open Foundation

def sumResultKind : ValueKind → Option ValueKind
  | .int8 | .int16 | .int32 | .int64 => some .int64
  | .uint8 | .uint16 | .uint32 | .uint64 => some .uint64
  | .float32 | .float64 => some .float64
  | _ => none

structure IntegerColumn (kind : ValueKind) (values : List Value) : Prop where
  integral : kind = .int64 ∨ kind = .uint64
  kinds : ∀ v ∈ values, sumResultKind v.kind = some kind

/-- Every value is fed to the accumulator until it fails. -/
def sumValues (floats : FloatOps) (kind : ValueKind) (nullable : Bool) (values : List Value) :
    Except SumError Value := do
  let acc ← values.foldlM (Sum.add floats) (newSum kind nullable)
  acc.value

def overflowed (kind : ValueKind) : SumError :=
  if kind = .int64 then .overflowedInt64 else .overflowedUint64

instance (kind : ValueKind) (z : Int) : Decidable (InRange kind z) := by
  unfold InRange
  infer_instance

def exactSum (kind : ValueKind) (nullable : Bool) (values : List Value) : Except SumError Value :=
  let sum := total amountOf values
  if InRange kind sum then
    .ok (if nullable && values.all (·.isNull) then .newNull kind else integerValue kind sum)
  else .error (overflowed kind)

def gains (values : List Value) : Int := total (fun v => max (amountOf v) 0) values

def losses (values : List Value) : Int := total (fun v => min (amountOf v) 0) values

/-- Neither sign alone leaves the range of the result, or the whole sum does. -/
def OrderFree (kind : ValueKind) (values : List Value) : Prop :=
  (InRange kind (gains values) ∧ InRange kind (losses values)) ∨
    ¬ InRange kind (total amountOf values)

/-! ## One value -/

variable {floats : FloatOps} {kind : ValueKind} {nullable : Bool} {values values' : List Value}

theorem check_iff {x n : BitVec 64} :
    ((BitVec.slt 0 n && (x + n).slt x) || (n.slt 0 && x.slt (x + n))) = false ↔
      -2 ^ 63 ≤ x.toInt + n.toInt ∧ x.toInt + n.toInt < 2 ^ 63 := by
  constructor
  · intro h
    have hlow := BitVec.le_two_mul_toInt (x := x + n)
    have hhigh := BitVec.two_mul_toInt_lt (x := x + n)
    rw [toInt_add_of_check h] at hlow hhigh
    omega
  · intro h
    have hsum : (x + n).toInt = x.toInt + n.toInt := by
      rw [BitVec.toInt_add, Int.bmod_eq_of_le] <;> omega
    have hzero : (0 : BitVec 64).toInt = 0 := rfl
    simp only [BitVec.slt_eq_decide, hsum, hzero, Bool.or_eq_false_iff, Bool.and_eq_false_iff,
      decide_eq_false_iff_not]
    omega

variable {a : Sum}

theorem Sum.add_of_range {v : Value} (ha : a.Integral) (hv : sumResultKind v.kind = some a.kind) :
    (InRange a.kind (a.amount + amountOf v) → ∃ a', a.add floats v = .ok a') ∧
      ∀ e, a.add floats v = .error e → e = overflowed a.kind := by
  obtain ⟨k, _ | p⟩ := v
  · simp [Sum.add, Value.isNull]
  unfold Sum.add overflowed
  rw [if_neg (by simp [Value.isNull])]
  rcases ha with hkind | hkind <;> rw [hkind] at hv <;>
    simp only [hkind, InRange, Sum.amount, reduceCtorEq, if_true, if_false]
  · obtain ⟨n, hn⟩ : ∃ n, valueAsInt64 ⟨k, some p⟩ = some n := by
      cases k <;> first | exact ⟨_, rfl⟩ | cases hv
    rw [hn, ← toInt_of_valueAsInt64 hn]
    dsimp only
    split
    · next hcheck =>
      refine ⟨fun h => ?_, fun e he => by cases he; rfl⟩
      rw [check_iff.mpr h] at hcheck
      cases hcheck
    · exact ⟨fun _ => ⟨_, rfl⟩, by simp⟩
  · obtain ⟨n, hn⟩ : ∃ n, valueAsUint64 ⟨k, some p⟩ = some n := by
      cases k <;> first | exact ⟨_, rfl⟩ | cases hv
    rw [hn, ← toNat_of_valueAsUint64 hn]
    dsimp only
    split
    · next hcheck =>
      refine ⟨fun h => ?_, fun e he => by cases he; rfl⟩
      rw [BitVec.ult, decide_eq_true_iff] at hcheck
      have hones : (BitVec.allOnes 64).toNat = 2 ^ 64 - 1 := rfl
      bv_omega
    · exact ⟨fun _ => ⟨_, rfl⟩, by simp⟩

/-! ## All values -/

theorem Sum.addAll_error {e : SumError} (ha : a.Integral)
    (hv : ∀ v ∈ values, sumResultKind v.kind = some a.kind)
    (h : values.foldlM (Sum.add floats) a = .error e) : e = overflowed a.kind := by
  induction values generalizing a with
  | nil => cases h
  | cons v values ih =>
    obtain ⟨hv, hrest⟩ := List.forall_mem_cons.mp hv
    rw [List.foldlM_cons] at h
    obtain h | ⟨b, hb, h⟩ := except_bind_eq_error.mp h
    · exact (Sum.add_of_range ha hv).2 e h
    · have hkind := (Sum.add_adds ha hb).kind
      rw [← hkind] at hrest ⊢
      exact ih (by rwa [Sum.Integral, hkind]) hrest h

theorem InRange.between {x y z : Int} (hx : InRange kind x) (hy : InRange kind y) (hxz : x ≤ z)
    (hzy : z ≤ y) : InRange kind z := by
  unfold InRange at *
  split
  · next h =>
    rw [if_pos h] at hx hy
    omega
  · next h =>
    rw [if_neg h] at hx hy
    omega

theorem losses_cons (v : Value) : losses (v :: values) = min (amountOf v) 0 + losses values :=
  total_cons ..

theorem gains_cons (v : Value) : gains (v :: values) = max (amountOf v) 0 + gains values :=
  total_cons ..

theorem losses_nonpos_gains_nonneg (values : List Value) : losses values ≤ 0 ∧ 0 ≤ gains values := by
  induction values with
  | nil => exact ⟨le_rfl, le_rfl⟩
  | cons v values ih =>
    rw [losses_cons, gains_cons]
    omega

theorem Sum.addAll_ok (ha : a.Integral) (hv : ∀ v ∈ values, sumResultKind v.kind = some a.kind)
    (hgains : InRange a.kind (a.amount + gains values))
    (hlosses : InRange a.kind (a.amount + losses values)) :
    ∃ a', values.foldlM (Sum.add floats) a = .ok a' := by
  induction values generalizing a with
  | nil => exact ⟨a, rfl⟩
  | cons v values ih =>
    obtain ⟨hv, hrest⟩ := List.forall_mem_cons.mp hv
    obtain ⟨hneg, hpos⟩ := losses_nonpos_gains_nonneg values
    rw [gains_cons] at hgains
    rw [losses_cons] at hlosses
    obtain ⟨b, hb⟩ : ∃ b, a.add floats v = .ok b :=
      (Sum.add_of_range ha hv).1 (hlosses.between hgains (by omega) (by omega))
    have hadds := Sum.add_adds ha hb
    rw [List.foldlM_cons, hb]
    refine ih (by rwa [Sum.Integral, hadds.kind]) (hadds.kind ▸ hrest) ?_ ?_ <;>
      rw [hadds.kind, hadds.amount] <;> exact hlosses.between hgains (by omega) (by omega)

theorem sumValues_of_addAll (h : IntegerColumn kind values)
    (hadd : values.foldlM (Sum.add floats) (newSum kind nullable) = .ok a) :
    sumValues floats kind nullable values = exactSum kind nullable values ∧
      InRange kind (total amountOf values) := by
  have hadds := Sum.addAll_adds (a := newSum kind nullable) h.integral hadd
  have ha : a.Integral := by
    rw [Sum.Integral, hadds.kind]
    exact h.integral
  have hzero : (newSum kind nullable).amount = 0 := by
    rcases h.integral with rfl | rfl <;> rfl
  have hrange : InRange kind (total amountOf values) := by
    have := Sum.amount_inRange ha
    rwa [hadds.kind, hadds.amount, hzero, zero_add] at this
  refine ⟨?_, hrange⟩
  have hnulls : (!values.any (!·.isNull)) = values.all (·.isNull) := by simp [List.not_any_eq_all_not]
  rw [sumValues, hadd]
  change a.value = _
  rw [Sum.value_eq ha, hadds.kind, hadds.nullable, hadds.seen, hadds.amount, hzero, zero_add,
    exactSum, if_pos hrange]
  simp [newSum, hnulls]

theorem IntegerColumn.perm (h : IntegerColumn kind values) (hperm : values'.Perm values) :
    IntegerColumn kind values' :=
  ⟨h.integral, fun v hv => h.kinds v (hperm.mem_iff.mp hv)⟩

theorem total_perm (f : Value → Int) (hperm : values'.Perm values) :
    total f values' = total f values :=
  (hperm.map f).sum_eq

theorem exactSum_perm (hperm : values'.Perm values) :
    exactSum kind nullable values' = exactSum kind nullable values := by
  have hnulls : values'.all (·.isNull) = values.all (·.isNull) := hperm.all_eq
  simp only [exactSum, total_perm amountOf hperm, hnulls]

theorem sumValues_of_orderFree (h : IntegerColumn kind values) (hfree : OrderFree kind values)
    (hperm : values'.Perm values) :
    sumValues floats kind nullable values' = exactSum kind nullable values := by
  have h' := h.perm hperm
  rw [← exactSum_perm hperm]
  cases hadd : values'.foldlM (Sum.add floats) (newSum kind nullable) with
  | ok a => exact (sumValues_of_addAll h' hadd).1
  | error e =>
    have herror := Sum.addAll_error (a := newSum kind nullable) h'.integral h'.kinds hadd
    have hout : ¬ InRange kind (total amountOf values') := by
      rcases hfree with ⟨hgains, hlosses⟩ | hout
      · have hzero : (newSum kind nullable).amount = 0 := by
          rcases h.integral with rfl | rfl <;> rfl
        rw [gains, ← total_perm _ hperm] at hgains
        rw [losses, ← total_perm _ hperm] at hlosses
        obtain ⟨a, ha⟩ : ∃ a, values'.foldlM (Sum.add floats) (newSum kind nullable) = .ok a :=
          Sum.addAll_ok h'.integral h'.kinds (by rwa [hzero, zero_add])
            (by rwa [hzero, zero_add])
        rw [hadd] at ha
        cases ha
      · rwa [total_perm _ hperm]
    rw [sumValues, hadd, exactSum, if_neg hout, herror]
    rfl

theorem inRange_of_front (h : IntegerColumn kind values) (p : Value → Bool) {v : Value}
    (hsum : sumValues floats kind nullable (values.filter p ++ values.filter (!p ·)) = .ok v) :
    InRange kind (total amountOf (values.filter p)) := by
  obtain ⟨a, hadd, -⟩ := except_bind_eq_ok.mp hsum
  rw [List.foldlM_append] at hadd
  obtain ⟨b, hfront, -⟩ := except_bind_eq_ok.mp hadd
  exact (sumValues_of_addAll ⟨h.integral, fun w hw => h.kinds w (List.mem_of_mem_filter hw)⟩
    hfront).2

theorem gains_eq (values : List Value) :
    gains values = total amountOf (values.filter fun v => 0 < amountOf v) := by
  induction values with
  | nil => rfl
  | cons v values ih =>
    rw [gains_cons, ih, List.filter_cons]
    split <;> simp_all
    omega

theorem losses_eq (values : List Value) :
    losses values = total amountOf (values.filter fun v => amountOf v < 0) := by
  induction values with
  | nil => rfl
  | cons v values ih =>
    rw [losses_cons, ih, List.filter_cons]
    split <;> simp_all
    omega

theorem orderFree_of_sumValues (h : IntegerColumn kind values)
    (hsum : ∀ values', values'.Perm values →
      sumValues floats kind nullable values' = exactSum kind nullable values) :
    OrderFree kind values := by
  by_cases hrange : InRange kind (total amountOf values)
  · left
    have hfront : ∀ p : Value → Bool, InRange kind (total amountOf (values.filter p)) := by
      intro p
      have hexact := hsum _ (List.filter_append_perm p values)
      rw [exactSum, if_pos hrange] at hexact
      exact inRange_of_front h p hexact
    rw [gains_eq, losses_eq]
    exact ⟨hfront _, hfront _⟩
  · exact .inr hrange

end Shunter.Valueagg

/-! ## Queries -/

namespace Shunter.Subscription

open Foundation Valueagg

variable {agg : Aggregate} {floats : FloatOps}

theorem accumulate_sum (hfunc : agg.func = .sum) (args : List (Option Value)) :
    accumulate agg floats args =
      (sumValues floats agg.resultKind agg.resultNullable (args.filterMap id)).mapError .sum := by
  rw [accumulate, foldlM_sum hfunc, sumValues]
  change (Except.map _ (Except.mapError _ (List.foldlM _ (newSum _ _) _)) >>= _) = _
  cases (args.filterMap id).foldlM (Sum.add floats)
    (newSum agg.resultKind agg.resultNullable) with
  | error e => rfl
  | ok a => simp [Except.map, Except.mapError, bind, Except.bind, JoinAggregateAccumulator.value, hfunc]

theorem aggregateRowsValue_sum (hfunc : agg.func = .sum) (table : TableID) (pred : Predicate)
    (rows : List ProductValue) :
    aggregateRowsValue table pred agg floats rows =
      accumulate agg floats (rowArguments table pred agg rows) := by
  rw [accumulate_sum hfunc, aggregateRowsValue, hfunc, sumValues, sumAggregateRows_eq]
  dsimp only
  cases ((rowArguments table pred agg rows).filterMap id).foldlM (Sum.add floats)
    (newSum agg.resultKind agg.resultNullable) <;> rfl

/--
Whatever the order of the values, the sum is the exact one or an overflow, if
and only if the values are `OrderFree`; queries over them, on one table or on
the matches of a join, then give the same answer in every scan order.
-/
theorem sum_order_independent_iff {kind : ValueKind} {values : List Value}
    (h : IntegerColumn kind values) (floats : FloatOps) (nullable : Bool) :
    ((∀ values', values'.Perm values →
        sumValues floats kind nullable values' = exactSum kind nullable values) ↔
      OrderFree kind values) ∧
    (OrderFree kind values → ∀ agg : Aggregate, agg.func = .sum → agg.resultKind = kind →
      (∀ args args', args.filterMap id = values → args'.Perm args →
        accumulate agg floats args' = accumulate agg floats args) ∧
      ∀ table pred rows rows', (rowArguments table pred agg rows).filterMap id = values →
        rows'.Perm rows →
        aggregateRowsValue table pred agg floats rows' =
          aggregateRowsValue table pred agg floats rows) := by
  refine ⟨⟨orderFree_of_sumValues h, fun hfree _ => sumValues_of_orderFree h hfree⟩,
    fun hfree agg hfunc hkind => ?_⟩
  subst hkind
  have hargs : ∀ args args', args.filterMap id = values → args'.Perm args →
      accumulate agg floats args' = accumulate agg floats args := by
    rintro args args' rfl hperm
    rw [accumulate_sum hfunc, accumulate_sum hfunc,
      sumValues_of_orderFree h hfree (hperm.filterMap id), sumValues_of_orderFree h hfree (.refl _)]
  refine ⟨hargs, fun table pred rows rows' hvalues hperm => ?_⟩
  rw [aggregateRowsValue_sum hfunc, aggregateRowsValue_sum hfunc]
  exact hargs _ _ hvalues ((hperm.filter _).map _)

def changes : List Value := [⟨.int64, some 5⟩, .newNull .int64, ⟨.int64, some (-3)⟩]

theorem sum_order_independent_changes :
    sumValues noFloats .int64 false changes.reverse = exactSum .int64 false changes := by
  have h : IntegerColumn .int64 changes := ⟨.inl rfl, by simp [changes, sumResultKind, Value.newNull]⟩
  have hfree : OrderFree .int64 changes := .inl (by decide)
  exact ((sum_order_independent_iff h noFloats false).1.mpr hfree) _ (List.reverse_perm _)

/-- The sum is the largest `Int64`, and one scan order runs over it on the way. -/
theorem sum_depends_on_order :
    sumValues noFloats .int64 false
        [⟨.int64, some 1⟩, ⟨.int64, some (-1)⟩, ⟨.int64, some (.intMax 64)⟩] =
      .ok ⟨.int64, some (.intMax 64)⟩ ∧
    sumValues noFloats .int64 false
        [⟨.int64, some (.intMax 64)⟩, ⟨.int64, some 1⟩, ⟨.int64, some (-1)⟩] =
      .error .overflowedInt64 := by
  exact ⟨rfl, rfl⟩

end Shunter.Subscription
