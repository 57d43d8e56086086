import Shunter.Store.RecoveryState

/-!
# Commits keep tables sound

The commit of a transaction that was driven through its own operations keeps
the table invariants, never lowers a counter, and leaves room below the new row
counter for every inserted row.
-/

namespace Shunter

variable {table table' : Table} {ins : GoMap RowID ProductValue} {dels : GoMap RowID Unit}
  {next : RowID} {seq : Nat} {nextID : Option RowID} {seqVal : Option Nat}

theorem TableTx.length_inserts (htx : TableTx table ins dels next seq) :
    table.nextID + ins.toList.length ≤ next := by
  have hsub : ins.keys.toFinset ⊆ Finset.Ico table.nextID next := by
    intro rid hrid
    rw [List.mem_toFinset, Std.ExtTreeMap.mem_keys, ← Std.ExtTreeMap.contains_iff_mem,
      Std.ExtTreeMap.contains_eq_isSome_getElem?] at hrid
    obtain ⟨r, hr⟩ := Option.isSome_iff_exists.mp hrid
    exact Finset.mem_Ico.mpr (htx.range rid r hr)
  have hcard := Finset.card_le_card hsub
  rw [List.toFinset_card_of_nodup Std.ExtTreeMap.nodup_keys, Nat.card_Ico,
    Std.ExtTreeMap.length_keys] at hcard
  have hge := htx.next_ge
  rw [Std.ExtTreeMap.length_toList]
  lia

structure LiveCommitted (table table' : Table) (inserts deletes : List ProductValue) : Prop where
  sound : table'.Sound
  schema : table'.schema = table.schema
  net : NetEffect table table' inserts deletes
  room : table.nextID + inserts.length ≤ table'.nextID
  sequence : ∀ s, table.sequence = some s → ∃ s', table'.sequence = some s' ∧ s ≤ s'

theorem tableCommitted_sound (hsound : table.Sound) (htx : TableTx table ins dels next seq)
    (hcommit : TableCommitted table table' ins dels nextID seqVal)
    (hnext : nextID.getD table.nextID = next)
    (hseq : ∀ s, table.sequence = some s → seqVal.getD s = seq)
    (hevent : table.schema.isEvent = false) : table'.Sound := by
  have hcount := hsound.counted
  have hstored : ∀ (rid : RowID) (r : ProductValue), table'.rows[rid]? = some r →
      ins[rid]? = some r ∨ table.rows[rid]? = some r := by
    intro rid r hr
    rw [hcommit.rows hevent, visible] at hr
    split at hr
    · next r' hr' => exact .inl (hr'.trans hr)
    · split at hr
      · cases hr
      · exact .inr hr
  have hid : table'.nextID = next := (hcommit.nextID hevent).trans hnext
  have hsequence : ∀ s', table'.sequence = some s' → ∃ s, table.sequence = some s ∧ s' = seq := by
    intro s' hs'
    rw [hcommit.sequence hevent] at hs'
    obtain ⟨s, hs, rfl⟩ := Option.map_eq_some_iff.mp hs'
    exact ⟨s, hs, hseq s hs⟩
  refine ⟨⟨hcommit.indexed, ?_, ?_, ?_⟩, ?_, ?_, ?_, ?_, ?_⟩
  · intro rid r hr
    rw [hcommit.schema]
    rcases hstored rid r hr with hr | hr
    · exact htx.valid rid r hr
    · exact hsound.inv.rowsOK.valid rid r hr
  · intro rid rid' r r' hr hr' hconf
    rw [hcommit.schema] at hconf
    rw [hcommit.rows hevent] at hr hr'
    exact htx.conflictFree rid rid' r r' hr hr' hconf
  · intro hev
    rw [hcommit.schema, hevent] at hev
    cases hev
  · rw [hid]
    exact hcount.nextID_pos.trans htx.next_ge
  · rw [hid]
    exact htx.next_le
  · intro rid r hr
    rw [hid]
    have hge := htx.next_ge
    rcases hstored rid r hr with hr | hr
    · have := htx.range rid r hr
      have := hcount.nextID_pos
      lia
    · have := hcount.rowID_lt rid r hr
      lia
  · intro s' hs'
    obtain ⟨s, hs, rfl⟩ := hsequence s' hs'
    have := hcount.sequence_range s hs
    have := htx.seq_range s hs
    omega
  · intro s' hs' rid r v hr hv
    obtain ⟨s, hs, rfl⟩ := hsequence s' hs'
    rw [hcommit.schema] at hv
    rcases hstored rid r hr with hr | hr
    · exact htx.seq_above (by simp [hs]) rid r v hr hv
    · obtain ⟨hle, hmax⟩ := htx.seq_range s hs
      exact (hcount.sequence_above s hs rid r v hr hv).mono hle hmax

structure StateCommitted (cs cs' : CommittedState) (c : Changeset) : Prop where
  stored : ∀ tableID table, cs.table tableID = some table → table.schema.isEvent = false →
    ∃ table', cs'.table tableID = some table' ∧
      LiveCommitted table table' (c.insertsOf tableID) (c.deletesOf tableID)
  event : ∀ tableID table, cs.table tableID = some table → table.schema.isEvent = true →
    cs'.table tableID = some table
  unknown : ∀ tableID, cs.table tableID = none → cs'.table tableID = none
  known : ∀ (tableID : TableID) (tc : TableChangeset), c.tables[tableID]? = some tc →
    cs.table tableID ≠ none

variable {cs cs' : CommittedState} {c : Changeset}

theorem StateCommitted.inv (h : StateCommitted cs cs' c) (hcs : cs.Inv) : cs'.Inv := by
  intro tid table' htable'
  cases htable : cs.table tid with
  | none =>
    rw [h.unknown tid htable] at htable'
    cases htable'
  | some table =>
    cases hevent : table.schema.isEvent with
    | true =>
      rw [h.event tid table htable hevent, Option.some.injEq] at htable'
      exact htable' ▸ hcs tid table htable
    | false =>
      obtain ⟨table'', htable'', hlive⟩ := h.stored tid table htable hevent
      rw [htable', Option.some.injEq] at htable''
      subst htable''
      exact ⟨hlive.sound.inv, hlive.sound.counted⟩

theorem StateCommitted.sameSchemas (h : StateCommitted cs cs' c) : cs.SameSchemas cs' := by
  intro tid
  cases htable : cs.table tid with
  | none => rw [h.unknown tid htable]
  | some table =>
    cases hevent : table.schema.isEvent with
    | true => rw [h.event tid table htable hevent]
    | false =>
      obtain ⟨table', htable', hlive⟩ := h.stored tid table htable hevent
      rw [htable', Option.map_some, Option.map_some, hlive.schema]

theorem commit_runOps_cases (hcs : cs.Inv) (ops : List TxOp) (txID : TxID)
    (advanceHorizon : Bool) (validate : Changeset → Option StoreError) :
    let res := commitWithValidation cs (Transaction.new.runOps cs ops).1 txID advanceHorizon
      validate
    (∃ e, res.1 = cs ∧ res.2.2 = .error e) ∨
      ∃ c, res.2.2 = .ok c ∧ StateCommitted cs res.1 c := by
  intro res
  have htx := ((Refines.init hcs).runOps hcs ops).inv
  have hcases := commitWithValidation_cases (fun tid table htable => (hcs tid table htable).1)
    htx.countersKnown txID advanceHorizon validate
  change CommitOutcome _ _ _ res at hcases
  generalize (Transaction.new.runOps cs ops).1 = t at *
  rcases hcases with ⟨e, hres⟩ | ⟨c, ⟨c₀, hprep, hc⟩, hready, hcommit, -, hres⟩
  · exact .inl ⟨e, by rw [hres], by rw [hres]⟩
  · have hprepared := prepared_of_prepareChangeset hready hprep hc
    refine .inr ⟨c, by rw [hres], ?_, ?_, hcommit.unknown, ?_⟩
    · intro tid table htable hevent
      obtain ⟨hinv, hcount⟩ := hcs tid table htable
      obtain ⟨table', htable', htc⟩ := hcommit.tables tid table htable
      obtain ⟨tc, hptable, hins, hdels⟩ := hprepared.tableChanges htable
      have httx := htx.tables tid table htable
      have hseq : ∀ s, table.sequence = some s →
          t.txSequences[tid]?.getD s = t.nextSequenceValue tid table := by
        intro s hs
        simp [Transaction.nextSequenceValue, hs]
      rw [hins, hdels]
      refine ⟨table', htable', ?_, htc.schema,
        netEffect_of_prepared hinv hcount httx hptable htc hevent, ?_, ?_⟩
      · exact tableCommitted_sound ⟨hinv, hcount⟩ httx htc rfl hseq hevent
      · rw [hptable.inserts, List.length_map, htc.nextID hevent]
        exact httx.length_inserts
      · intro s hs
        refine ⟨t.nextSequenceValue tid table, ?_, (httx.seq_range s hs).1⟩
        rw [htc.sequence hevent, hs, Option.map_some, hseq s hs]
    · intro tid table htable hevent
      obtain ⟨table', htable', htc⟩ := hcommit.tables tid table htable
      rw [htable', htc.event hevent]
    · intro tid tc htc
      obtain ⟨table, htable, -⟩ := hprepared.entry tid tc htc
      simp [htable]

end Shunter
