import Shunter.Subscription.AggregateSource

/-!
# Live aggregates over whole runs

A client takes the initial row and then applies the update of each commit.  It
always holds one row, the aggregate of the rows that are there now.
-/

namespace Shunter.Subscription

open Foundation Valueagg

/-! ## Tables -/

theorem mem_appendUniqueTables {out tables : List TableID} {t : TableID} :
    t ∈ appendUniqueTables out tables ↔ t ∈ out ∨ t ∈ tables := by
  induction tables generalizing out with
  | nil => simp [appendUniqueTables]
  | cons u tables ih =>
    rw [appendUniqueTables, List.foldl_cons, ← appendUniqueTables, ih]
    by_cases hu : u ∈ out
    · simp only [List.contains_iff_mem, hu, if_true, List.mem_cons]
      grind
    · simp only [List.contains_iff_mem, hu, if_false, List.mem_append, List.mem_cons,
        List.not_mem_nil]
      tauto

theorem tables_of_aggregateSource {pred : Predicate} {source : AggregateSource}
    (h : aggregateSource pred = some source) : source.tables ⊆ pred.tables := by
  revert h
  fun_cases aggregateSource pred
  case case3 =>
    rintro ⟨⟩
    exact fun t ht => mem_appendUniqueTables.mpr (.inr ht)
  case case4 =>
    intro h
    obtain ⟨table, htable, rfl⟩ := Option.map_eq_some_iff.mp h
    unfold singlePredicateTable at htable
    split at htable
    · next t ht =>
      cases htable
      rw [ht]
      exact List.Subset.refl _
    · cases htable
  all_goals
    rintro ⟨⟩ t ht
    simp only [AggregateSource.tables, Predicate.tables] at ht ⊢
    split <;> simp_all

/-! ## The value before a commit -/

variable {agg : Aggregate} {floats : FloatOps} {pred : Predicate} {source : AggregateSource}
  {dv : DeltaView} {before after cs : CommittedState} {changeset : Changeset}

section Before

variable {after v : Value}

theorem countP_change (h : dv.Shows before changeset) {table : TableID}
    (hstored : dv.Stored before table) (p : ProductValue → Bool) :
    (dv.committed.tableRows table).countP p + (dv.deletes table).countP p =
      (before.tableRows table).countP p + (dv.inserts table).countP p := by
  obtain ⟨hbefore, hafter⟩ := h.committed.tableRows h.inv hstored.schema
  rw [hbefore.countP_eq, hafter.countP_eq, List.countP_append, List.countP_append, h.inserts,
    h.deletes]
  omega

theorem countAggregateBeforeValue_eq (h : dv.Shows before changeset) {table : TableID}
    (hstored : dv.Stored before table) (pred : Predicate) :
    countAggregateBeforeValue table pred agg dv
        (countAggregateRows table pred agg (dv.committed.tableRows table)) =
      countAggregateRows table pred agg (before.tableRows table) := by
  have hrows : ∀ rows : List ProductValue, countAggregateRows table pred agg rows =
      .ofNat 64 (rows.countP (aggregateRowContributes table pred agg)) := by
    intro rows
    rw [countAggregateRows_eq, countP_rowArguments]
  have hchange := countP_change h hstored (aggregateRowContributes table pred agg)
  have hlt := h.committed.rowCount_add_lt h.inv hstored.schema
  rw [← CommittedState.length_tableRows, ← h.inserts] at hlt
  have hbefore := List.countP_le_length (p := aggregateRowContributes table pred agg)
    (l := before.tableRows table)
  have hinserts := List.countP_le_length (p := aggregateRowContributes table pred agg)
    (l := dv.inserts table)
  unfold countAggregateBeforeValue
  simp only [hrows]
  generalize (before.tableRows table).countP (aggregateRowContributes table pred agg) = b at *
  generalize (dv.inserts table).countP (aggregateRowContributes table pred agg) = i at *
  rw [← BitVec.ofNat_add, hchange]
  have hnot : (BitVec.ofNat 64 (b + i)).ult (BitVec.ofNat 64 i) = false := by
    rw [BitVec.ult, decide_eq_false_iff_not, BitVec.toNat_ofNat, BitVec.toNat_ofNat,
      Nat.mod_eq_of_lt (by omega), Nat.mod_eq_of_lt (by omega)]
    omega
  rw [hnot, BitVec.ofNat_add]
  simp

theorem aggregateBeforeValue_gives (hint : agg.Integral) (hvalid : source.Valid)
    (h : dv.Shows before changeset) (hstored : ∀ t ∈ source.tables, dv.Stored before t)
    (hafter : agg.Gives (source.arguments agg dv.committed.tableRows) after)
    (hbefore : aggregateBeforeValue agg floats dv after source = .ok v) :
    agg.Gives (source.arguments agg before.tableRows) v := by
  have hbags : bag argumentClass (source.arguments agg dv.projectedRowsBefore) =
      bag argumentClass (source.arguments agg before.tableRows) := by
    apply AggregateSource.bag_arguments_congr
    exact fun t ht => h.rowBag_projectedRowsBefore (hstored t ht)
  cases source with
  | rows table pred =>
    simp only [aggregateBeforeValue] at hbefore
    split at hbefore
    · next hcount =>
      obtain ⟨hfunc, hdistinct⟩ := hcount
      have hresult : ∀ rows : List ProductValue, agg.result (rowArguments table pred agg rows) =
          newUint64 (countAggregateRows table pred agg rows) := by
        intro rows
        rw [countAggregateRows_eq, Aggregate.result, hfunc, Aggregate.count, hdistinct]
        rfl
      refine ⟨?_, fun hsum => by rw [hfunc] at hsum; cases hsum⟩
      have hvalue := hafter.value
      simp only [AggregateSource.arguments, hresult] at hvalue ⊢
      rw [← Except.ok.inj hbefore, hvalue]
      exact congrArg newUint64
        (countAggregateBeforeValue_eq h (hstored table List.mem_cons_self) pred)
    · exact (aggregateRowsValue_gives hint hbefore).congr hbags
  | join p =>
    simp only [aggregateBeforeValue, aggregateJoinRowsValue, joinRowPairs_eq] at hbefore
    exact (accumulate_gives hint (AggregateSource.arguments_none (.join p)) hbefore).congr hbags
  | cross p =>
    simp only [aggregateBeforeValue, aggregateCrossJoinRowsValue, crossJoinRowPairs_eq] at hbefore
    exact (accumulate_gives hint (AggregateSource.arguments_none (.cross p)) hbefore).congr hbags
  | multi p => exact (aggregateMultiJoinRowsValue_gives hint hvalid hbefore).congr hbags

end Before

/-! ## Updates -/

theorem Aggregate.equal_result (hint : agg.Integral) {args args' : List (Option Value)} :
    (agg.result args).equal (agg.result args') = true ↔ agg.result args = agg.result args' := by
  have hkind : ∀ args, (agg.result args).kind = .int64 ∨ (agg.result args).kind = .uint64 := by
    intro args
    unfold Aggregate.result
    split
    · exact .inr rfl
    · next hfunc =>
      unfold Aggregate.sum integerValue
      split
      · exact hint hfunc
      · split
        · exact .inl rfl
        · exact .inr rfl
  rw [Value.equal_iff_rank]
  refine ⟨fun h => Value.eq_of_rank_eq h ?_ ?_, fun h => by rw [h]⟩
  · rcases hkind args with hk | hk <;> simp [hk]
  · rcases hkind args with hk | hk <;> simp [hk]

def SumInRange (agg : Aggregate) (args : List (Option Value)) : Prop :=
  agg.func = .sum → InRange agg.resultKind (total amountOf (present args))

theorem evalAggregateQuery_eq (hint : agg.Integral) (hsource : aggregateSource pred = some source)
    (hvalid : source.Valid) (h : dv.Shows before changeset)
    (hstored : ∀ t ∈ pred.tables, dv.Stored before t) (hres : Resolves resolver dv.committed)
    (heval : evalAggregateQuery agg floats dv pred resolver = .ok update) :
    (update = if agg.result (source.arguments agg before.tableRows) =
        agg.result (source.arguments agg dv.committed.tableRows) then none
      else some ⟨[[agg.result (source.arguments agg dv.committed.tableRows)]],
        [[agg.result (source.arguments agg before.tableRows)]]⟩) ∧
      SumInRange agg (source.arguments agg dv.committed.tableRows) := by
  have htables : ∀ t ∈ source.tables, dv.Stored before t :=
    fun t ht => hstored t (tables_of_aggregateSource hsource ht)
  have hevents : pred.tables.any dv.events = false := by
    rw [List.any_eq_false]
    intro t ht
    simp [(hstored t ht).notEvent]
  simp only [evalAggregateQuery, hsource] at heval
  obtain ⟨x, hx, heval⟩ := except_bind_eq_ok.mp heval
  obtain ⟨y, hy, heval⟩ := except_bind_eq_ok.mp heval
  simp only [aggregateAfterValue, hevents, Bool.false_eq_true, if_false] at hx
  have hafter := aggregateCommittedValue_gives hint hvalid (h.committed.inv h.inv) hres hx
  have hbefore := aggregateBeforeValue_gives hint hvalid h htables hafter hy
  rw [hafter.value, hbefore.value] at heval
  simp only [Aggregate.equal_result hint] at heval
  refine ⟨?_, hafter.inRange⟩
  split at heval
  · next heq => rw [if_pos heq, ← Except.ok.inj heval]
  · next heq => rw [if_neg heq, ← Except.ok.inj heval]

/-! ## Runs -/

/-- The client takes out the deleted rows and puts in the inserted ones. -/
def applyUpdate (held : List ProductValue) : Option AggregateUpdate → List ProductValue
  | none => held
  | some u => held.diff u.deletes ++ u.inserts

structure AggregateCommit (agg : Aggregate) (floats : FloatOps) (pred : Predicate)
    (before after : CommittedState) (update : Option AggregateUpdate) : Prop where
  evaluated : ∃ changeset cols events dv resolver, StateCommitted before after changeset ∧
    DeltaView.new after changeset cols events = some dv ∧
    (∀ t ∈ pred.tables, dv.Stored before t) ∧ Resolves resolver after ∧
    evalAggregateQuery agg floats dv pred resolver = .ok update

/-- The state and what a client holds, after a subscription and any number of commits. -/
inductive AggregateRun (agg : Aggregate) (floats : FloatOps) (pred : Predicate) :
    CommittedState → List ProductValue → Prop
  | start {view : CommittedState} {resolver : IndexResolver} {rows : List ProductValue}
      (hview : view.Inv) (hres : Resolves resolver view)
      (hrows : initialAggregateRows agg floats view pred resolver = .ok rows) :
      AggregateRun agg floats pred view rows
  | commit {before after : CommittedState} {held : List ProductValue}
      {update : Option AggregateUpdate} (hrun : AggregateRun agg floats pred before held)
      (hcommit : AggregateCommit agg floats pred before after update) :
      AggregateRun agg floats pred after (applyUpdate held update)

variable {update : Option AggregateUpdate} {held : List ProductValue}

theorem AggregateCommit.update_eq (hint : agg.Integral)
    (hsource : aggregateSource pred = some source) (hvalid : source.Valid) (hinv : before.Inv)
    (h : AggregateCommit agg floats pred before after update) :
    (update = if agg.result (source.arguments agg before.tableRows) =
        agg.result (source.arguments agg after.tableRows) then none
      else some ⟨[[agg.result (source.arguments agg after.tableRows)]],
        [[agg.result (source.arguments agg before.tableRows)]]⟩) ∧
      SumInRange agg (source.arguments agg after.tableRows) := by
  obtain ⟨changeset, cols, events, dv, resolver, hcommit, hnew, hstored, hres, heval⟩ := h.evaluated
  obtain ⟨rfl, hshows⟩ := DeltaView.shows_of_new hinv hcommit hnew
  exact evalAggregateQuery_eq hint hsource hvalid hshows hstored hres heval

theorem AggregateRun.holds (hint : agg.Integral) (hsource : aggregateSource pred = some source)
    (hvalid : source.Valid) (hrun : AggregateRun agg floats pred cs held) :
    cs.Inv ∧ held = [[agg.result (source.arguments agg cs.tableRows)]] ∧
      SumInRange agg (source.arguments agg cs.tableRows) := by
  induction hrun with
  | start hview hres hrows =>
    simp only [initialAggregateRows, hsource] at hrows
    obtain ⟨v, hv, hrows⟩ := except_bind_eq_ok.mp hrows
    have hgives := aggregateCommittedValue_gives hint hvalid hview hres hv
    exact ⟨hview, by rw [← Except.ok.inj hrows, hgives.value], hgives.inRange⟩
  | commit hrun hcommit ih =>
    obtain ⟨hinv, hheld, -⟩ := ih
    obtain ⟨hupdate, hrange⟩ := hcommit.update_eq hint hsource hvalid hinv
    obtain ⟨changeset, cols, events, dv, resolver, hstate, -⟩ := hcommit.evaluated
    refine ⟨hstate.inv hinv, ?_, hrange⟩
    rw [hupdate, hheld]
    split
    · next heq => rw [applyUpdate, heq]
    · simp [applyUpdate, List.diff_cons]

/--
A client holds the aggregate of the current rows, a sum being the exact one.
The next commit sends it an update exactly when the aggregate changes, and
takes the row away that it holds.
-/
theorem liveAggregate_current (hint : agg.Integral) (hsource : aggregateSource pred = some source)
    (hvalid : source.Valid) (hrun : AggregateRun agg floats pred cs held) :
    held = [[agg.result (source.arguments agg cs.tableRows)]] ∧
      SumInRange agg (source.arguments agg cs.tableRows) ∧
      ∀ after update, AggregateCommit agg floats pred cs after update →
        (update.isSome = true ↔ agg.result (source.arguments agg after.tableRows) ≠
          agg.result (source.arguments agg cs.tableRows)) ∧
        ∀ u, update = some u → u.deletes = held ∧
          u.inserts = [[agg.result (source.arguments agg after.tableRows)]] := by
  obtain ⟨hinv, hheld, hrange⟩ := hrun.holds hint hsource hvalid
  refine ⟨hheld, hrange, fun after update hcommit => ?_⟩
  rw [(hcommit.update_eq hint hsource hvalid hinv).1]
  split
  · next heq => simp [heq]
  · next hne =>
    refine ⟨by simpa using Ne.symm hne, fun u hu => ?_⟩
    cases hu
    exact ⟨hheld.symm, rfl⟩

def memberSum : Aggregate := ⟨.sum, some ⟨0, 0, 0⟩, false, .uint64, false⟩

def noFloats : FloatOps := ⟨fun a _ => a, fun _ => 0⟩

theorem memberSum_run :
    AggregateRun memberSum noFloats (.allRows 0) teamsAfter [[newUint64 2]] ∧
      [[newUint64 2]] = [[memberSum.result
        ((AggregateSource.rows 0 (.allRows 0)).arguments memberSum teamsAfter.tableRows)]] := by
  have hres : ∀ view, Resolves (fun _ _ => none) view := fun view table col indexID h => by cases h
  have hstart : initialAggregateRows memberSum noFloats teamsBefore (.allRows 0)
      (fun _ _ => none) = .ok [[newUint64 1]] := by
    decide +kernel
  have heval : evalAggregateQuery memberSum noFloats teamsView (.allRows 0) (fun _ _ => none) =
      .ok (some ⟨[[newUint64 2]], [[newUint64 1]]⟩) := by
    decide +kernel
  have hstored : ∀ t ∈ (Predicate.allRows 0).tables, teamsView.Stored teamsBefore t := by
    intro t ht
    rw [List.mem_singleton.mp ht]
    exact teamsView_stored
  have hrun : AggregateRun memberSum noFloats (.allRows 0) teamsAfter [[newUint64 2]] :=
    .commit (.start teamsBefore_inv (hres _) hstart)
      ⟨_, _, _, _, _, teams_committed, teamsView_new, hstored, hres _, heval⟩
  have hsource : aggregateSource (.allRows 0) = some (.rows 0 (.allRows 0)) := rfl
  have hvalid : (AggregateSource.rows 0 (.allRows 0)).Valid := trivial
  exact ⟨hrun, (liveAggregate_current (fun _ => .inr rfl) hsource hvalid hrun).1⟩

end Shunter.Subscription
