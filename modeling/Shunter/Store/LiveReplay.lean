import Shunter.Store.CommitSound

/-!
# Live execution and log replay

Two states run side by side: the live one commits transactions, the other
replays the changesets those commits returned.  Row identifiers differ between
the two, so tables are related by the classes of rows they hold and by their
counters.
-/

namespace Shunter

open Foundation

/-! ## The simulation between two tables -/

structure ReplayOf (live replayed : Table) : Prop where
  sound : replayed.Sound
  schema : replayed.schema = live.schema
  holds : ∀ c, replayed.Holds c ↔ live.Holds c
  nextID : replayed.nextID ≤ live.nextID
  sequence : ∀ s, replayed.sequence = some s → ∃ s', live.sequence = some s' ∧ s ≤ s'

variable {t : Table}

theorem ReplayOf.refl (h : t.Sound) : ReplayOf t t :=
  ⟨h, rfl, fun _ => Iff.rfl, le_rfl, fun s hs => ⟨s, hs, le_rfl⟩⟩

variable {live live' replayed replayed' : Table} {inserts deletes : List ProductValue}

theorem Table.holds_iff_stores {c : List (List (List Int))} :
    t.Holds c ↔ ∃ r, t.Stores r ∧ r.rowClass = c := by
  constructor
  · rintro ⟨rid, r, hr, rfl⟩
    exact ⟨r, ⟨rid, hr⟩, rfl⟩
  · rintro ⟨r, ⟨rid, hr⟩, rfl⟩
    exact ⟨rid, r, hr, rfl⟩

variable {r r' : ProductValue}

theorem Table.Sound.eq_of_conflicts (h : t.Sound) (hr : t.Stores r) (hr' : t.Stores r')
    (hconf : t.schema.Conflicts r r') : r = r' := by
  obtain ⟨rid, hr⟩ := hr
  obtain ⟨rid', hr'⟩ := hr'
  have hid := h.inv.rowsOK.conflictFree rid rid' r r' hr hr' hconf
  rw [hid, hr', Option.some.injEq] at hr
  exact hr.symm

theorem Table.Sound.eq_of_class (h : t.Sound) (hr : t.Stores r) (hr' : t.Stores r')
    (hclass : r.rowClass = r'.rowClass) : r = r' :=
  h.eq_of_conflicts hr hr' (TableSchema.conflicts_of_equal h.inv.indexed.primaryUnique hclass)

private theorem class_ne_of_not_equal (h : r.equal r' = false) : r.rowClass ≠ r'.rowClass := by
  intro hclass
  rw [ProductValue.equal_iff.mpr hclass] at h
  cases h

theorem LiveCommitted.holds (h : LiveCommitted live live' inserts deletes) (hlive : live.Sound)
    (c : List (List (List Int))) :
    live'.Holds c ↔ (live.Holds c ∧ c ∉ deletes.map ProductValue.rowClass) ∨
      c ∈ inserts.map ProductValue.rowClass := by
  simp only [Table.holds_iff_stores, h.net.rows_after, List.mem_map]
  constructor
  · rintro ⟨r, ⟨hr, hkept⟩ | hin, rfl⟩
    · refine .inl ⟨⟨r, hr, rfl⟩, ?_⟩
      rintro ⟨d, hd, hclass⟩
      rw [hlive.eq_of_class (h.net.deletes_stored d hd) hr hclass] at hd
      exact hkept hd
    · exact .inr ⟨r, hin, rfl⟩
  · rintro (⟨⟨r, hr, rfl⟩, hkept⟩ | ⟨r, hin, rfl⟩)
    · exact ⟨r, .inl ⟨hr, fun hd => hkept ⟨r, hd, rfl⟩⟩, rfl⟩
    · exact ⟨r, .inr hin, rfl⟩

theorem LiveCommitted.replayable (h : LiveCommitted live live' inserts deletes)
    (hsim : ReplayOf live replayed) : Replayable replayed inserts deletes := by
  have hinserted : ∀ r ∈ inserts, live'.Stores r := fun r hr => (h.net.rows_after r).mpr (.inr hr)
  refine ⟨?_, ?_, ?_, ?_, ?_, ?_⟩
  · intro d hd
    rw [hsim.holds]
    exact Table.holds_iff_stores.mpr ⟨d, h.net.deletes_stored d hd, rfl⟩
  · exact h.net.deletes_once.imp class_ne_of_not_equal
  · intro r hr
    obtain ⟨rid, hrow⟩ := hinserted r hr
    rw [hsim.schema, ← h.schema]
    exact h.sound.inv.rowsOK.valid rid r hrow
  · intro r hr s hs hkept hconf
    -- the row that stays and the inserted one are both stored after the commit
    obtain ⟨s', hs', hclass⟩ := Table.holds_iff_stores.mp ((hsim.holds _).mp hs)
    have hstays : s' ∉ deletes := fun hd => hkept (hclass ▸ List.mem_map_of_mem hd)
    rw [hsim.schema, ← h.schema, ← TableSchema.conflicts_congr hclass rfl] at hconf
    have heq := h.sound.eq_of_conflicts ((h.net.rows_after s').mpr (.inl ⟨hs', hstays⟩))
      (hinserted r hr) hconf
    have hne := h.net.inserts_not_staying r hr s' hs' hstays
    rw [heq, ProductValue.equal_refl] at hne
    cases hne
  · refine List.Pairwise.imp_of_mem ?_ h.net.inserts_distinct
    intro r r' hr hr' hne hconf
    rw [hsim.schema, ← h.schema] at hconf
    rw [h.sound.eq_of_conflicts (hinserted r hr) (hinserted r' hr') hconf,
      ProductValue.equal_refl] at hne
    cases hne
  · have := hsim.nextID
    have := h.room
    have := h.sound.counted.nextID_le
    lia

theorem TableSchema.replaySequences_le {ts : TableSchema} {rows : List ProductValue}
    {s bound : Nat} (hle : s ≤ bound) (hbound : bound ≤ maxUint64)
    (habove : ∀ r ∈ rows, ∀ v, ts.autoValue r = some v → SequenceAbove bound v) :
    ts.replaySequences rows s ≤ bound := by
  induction rows generalizing s with
  | nil => exact hle
  | cons r rows ih =>
    have hstep := replaySequence_le hle hbound (habove r (by simp))
    exact ih hstep fun r' hr' => habove r' (List.mem_cons_of_mem _ hr')

theorem ReplayOf.step (hsim : ReplayOf live replayed) (hlive : live.Sound)
    (hcommit : LiveCommitted live live' inserts deletes)
    (hreplay : Replayed replayed replayed' inserts deletes) : ReplayOf live' replayed' := by
  refine ⟨hreplay.sound, ?_, ?_, ?_, ?_⟩
  · rw [hreplay.schema, hsim.schema, hcommit.schema]
  · intro c
    rw [hreplay.holds, hcommit.holds hlive, hsim.holds]
  · have := hsim.nextID
    have := hcommit.room
    have := hreplay.nextID
    lia
  · intro s' hs'
    rw [hreplay.sequence] at hs'
    obtain ⟨s, hs, rfl⟩ := Option.map_eq_some_iff.mp hs'
    obtain ⟨l, hl, hle⟩ := hsim.sequence s hs
    obtain ⟨l', hl', hle'⟩ := hcommit.sequence l hl
    have hcount := hcommit.sound.counted
    refine ⟨l', hl', TableSchema.replaySequences_le (hle.trans hle') ?_ ?_⟩
    · exact (hcount.sequence_range l' hl').2
    · intro r hr v hv
      obtain ⟨rid, hrow⟩ := (hcommit.net.rows_after r).mpr (.inr hr)
      rw [hsim.schema, ← hcommit.schema] at hv
      exact hcount.sequence_above l' hl' rid r v hrow hv

/-! ## The simulation between two states -/

/-- Both states show the same tables, each the replay of the other's. -/
structure ViewReplayOf (live replayed : TableID → Option Table) : Prop where
  table : ∀ tableID l, live tableID = some l → ∃ r, replayed tableID = some r ∧ ReplayOf l r
  unknown : ∀ tableID, live tableID = none → replayed tableID = none

variable {cs cs' : CommittedState} {view view' : TableID → Option Table} {c : Changeset}

theorem ViewReplayOf.refl (hcs : cs.Inv) : ViewReplayOf cs.table cs.table := by
  refine ⟨fun tid l hl => ⟨l, hl, .refl ?_⟩, fun tid h => h⟩
  obtain ⟨hinv, hcount⟩ := hcs tid l hl
  exact ⟨hinv, hcount⟩

section

variable (hsim : ViewReplayOf cs.table view)
include hsim

theorem ViewReplayOf.replayable (hcommit : StateCommitted cs cs' c) {tableID : TableID}
    {tc : TableChangeset} {r : Table} (htc : c.tables[tableID]? = some tc)
    (hr : view tableID = some r) (hevent : r.schema.isEvent = false) :
    Replayable r tc.inserts tc.deletes := by
  obtain ⟨l, hl⟩ := Option.ne_none_iff_exists'.mp (hcommit.known tableID tc htc)
  obtain ⟨r', hr', hreplay⟩ := hsim.table tableID l hl
  rw [hr, Option.some.injEq] at hr'
  subst hr'
  rw [hreplay.schema] at hevent
  obtain ⟨l', -, hlive⟩ := hcommit.stored tableID l hl hevent
  simpa [Changeset.insertsOf, Changeset.deletesOf, htc] using hlive.replayable hreplay

theorem ViewReplayOf.applicable (hcommit : StateCommitted cs cs' c) :
    Applicable view c.tables.toList := by
  intro e he
  have htc := Std.ExtTreeMap.mem_toList_iff_getElem?_eq_some.mp he
  obtain ⟨l, hl⟩ := Option.ne_none_iff_exists'.mp (hcommit.known e.1 e.2 htc)
  obtain ⟨r, hr, hreplay⟩ := hsim.table e.1 l hl
  refine ⟨r, hr, fun hevent => ?_⟩
  obtain ⟨u, hu, -⟩ :=
    applyChangesetToTable_ok hreplay.sound hevent (hsim.replayable hcommit htc hr hevent)
  exact ⟨u, hu⟩

theorem ViewReplayOf.step (hcs : cs.Inv) (hcommit : StateCommitted cs cs' c)
    (happlied : ViewApplied view view' c.tables.toList) : ViewReplayOf cs'.table view' := by
  constructor
  · intro tid l' hl'
    cases hl : cs.table tid with
    | none =>
      rw [hcommit.unknown tid hl] at hl'
      cases hl'
    | some l =>
      obtain ⟨r, hr, hreplay⟩ := hsim.table tid l hl
      obtain ⟨r', hr', hentry⟩ := happlied.changed hr
      refine ⟨r', hr', ?_⟩
      cases hevent : l.schema.isEvent with
      | true =>
        rw [hcommit.event tid l hl hevent, Option.some.injEq] at hl'
        subst hl'
        obtain ⟨-, rfl⟩ | ⟨tc, -, htc⟩ := hentry
        · exact hreplay
        · rwa [htc.event (by rw [hreplay.schema, hevent])]
      | false =>
        obtain ⟨l'', hl'', hlive⟩ := hcommit.stored tid l hl hevent
        rw [hl', Option.some.injEq] at hl''
        subst hl''
        refine hreplay.step (hcs.sound tid l hl) hlive ?_
        rw [← hreplay.schema] at hevent
        obtain ⟨hnone, rfl⟩ | ⟨tc, htc, happly⟩ := hentry
        · simpa [Changeset.insertsOf, Changeset.deletesOf, hnone] using
            Replayed.nil hreplay.sound
        · obtain ⟨u, hu, htwins⟩ := happly.stored hevent
          obtain ⟨u', hu', hreplayed⟩ := applyChangesetToTable_ok hreplay.sound hevent
            (hsim.replayable hcommit htc hr hevent)
          rw [hu] at hu'
          cases hu'
          simpa [Changeset.insertsOf, Changeset.deletesOf, htc] using hreplayed.of_twins htwins
  · intro tid hnone
    refine happlied.absent (hsim.unknown tid ?_)
    by_contra hsome
    obtain ⟨l, hl⟩ := Option.ne_none_iff_exists'.mp hsome
    cases hevent : l.schema.isEvent with
    | true =>
      rw [hcommit.event tid l hl hevent] at hnone
      cases hnone
    | false =>
      obtain ⟨l', hl', -⟩ := hcommit.stored tid l hl hevent
      rw [hl'] at hnone
      cases hnone

end

/-! ## Runs -/

inductive TxEnd where
  | rollback
  | commit (txID : TxID) (advanceHorizon : Bool) (validate : Changeset → Option StoreError)

/-- A transaction from beginning to end; its operations may fail one by one. -/
structure TxScript where
  ops : List TxOp
  ending : TxEnd

/-- The changesets to log are those of successful commits. -/
def TxScript.run (cs : CommittedState) (s : TxScript) :
    Except StoreError (CommittedState × List Changeset) :=
  let tx := (Transaction.new.runOps cs s.ops).1
  match s.ending with
  -- a rolled back transaction is dropped with its buffers
  | .rollback => .ok (cs, [])
  | .commit txID advanceHorizon validate =>
    match commitWithValidation cs tx txID advanceHorizon validate with
    | (cs', _, .ok c) => .ok (cs', [c])
    | (_, _, .error e) => .error e

def runScripts (cs : CommittedState) :
    List TxScript → Except StoreError (CommittedState × List Changeset)
  | [] => .ok (cs, [])
  | s :: scripts =>
    match s.run cs with
    | .error e => .error e
    | .ok (cs₁, log₁) =>
      match runScripts cs₁ scripts with
      | .error e => .error e
      | .ok (cs₂, log₂) => .ok (cs₂, log₁ ++ log₂)

variable {log : List Changeset}

theorem runScripts_cons_ok {s : TxScript} {scripts : List TxScript} {final : CommittedState} :
    runScripts cs (s :: scripts) = .ok (final, log) ↔
      ∃ cs₁ log₁ log₂, s.run cs = .ok (cs₁, log₁) ∧ runScripts cs₁ scripts = .ok (final, log₂) ∧
        log₁ ++ log₂ = log := by
  rw [runScripts]
  split
  · simp_all
  · split <;> simp_all

theorem TxScript.run_cases (hcs : cs.Inv) {s : TxScript} (h : s.run cs = .ok (cs', log)) :
    (cs' = cs ∧ log = []) ∨ ∃ c, log = [c] ∧ StateCommitted cs cs' c := by
  unfold run at h
  cases hend : s.ending with
  | rollback =>
    simp only [hend, Except.ok.injEq, Prod.mk.injEq] at h
    exact .inl ⟨h.1.symm, h.2.symm⟩
  | commit txID advanceHorizon validate =>
    simp only [hend] at h
    have hcases := commit_runOps_cases hcs s.ops txID advanceHorizon validate
    generalize commitWithValidation cs (Transaction.new.runOps cs s.ops).1 txID advanceHorizon
      validate = res at *
    obtain ⟨cs₁, tx₁, result⟩ := res
    rcases hcases with ⟨e, -, hres⟩ | ⟨c, hres, hcommit⟩
    · simp only at hres
      subst hres
      cases h
    · simp only at hres
      subst hres
      cases h
      exact .inr ⟨c, rfl, hcommit⟩

theorem Replayer.follows {σ : Type} {apply : σ → Entries → σ × Option StoreError}
    {view : σ → TableID → Option Table} {OK : σ → Prop} (hreplayer : Replayer apply view OK)
    {s : σ} (hs : OK s) (hcs : cs.Inv) (hsim : ViewReplayOf cs.table (view s))
    {scripts : List TxScript} {final : CommittedState}
    (hrun : runScripts cs scripts = .ok (final, log)) :
    final.Inv ∧ ∃ s', loop (fun s c => apply s c.tables.toList) s log = (s', none) ∧ OK s' ∧
      ViewReplayOf final.table (view s') := by
  induction scripts generalizing cs s log with
  | nil =>
    cases hrun
    exact ⟨hcs, s, rfl, hs, hsim⟩
  | cons script scripts ih =>
    obtain ⟨cs₁, log₁, log₂, hfirst, hrest, rfl⟩ := runScripts_cons_ok.mp hrun
    rcases script.run_cases hcs hfirst with ⟨rfl, rfl⟩ | ⟨c, rfl, hcommit⟩
    · exact ih hs hcs hsim hrest
    · have hnodup := nodup_fst_toList c.tables
      obtain ⟨s₁, happly⟩ := hreplayer.run s _ hs hnodup (hsim.applicable hcommit)
      obtain ⟨hs₁, happlied⟩ := hreplayer.applied s _ s₁ hs hnodup happly
      obtain ⟨hinv, s', hloop, hs', hsim'⟩ := ih hs₁ (hcommit.inv hcs)
        (hsim.step hcs hcommit happlied) hrest
      refine ⟨hinv, s', ?_, hs', hsim'⟩
      rw [List.singleton_append, loop_cons_ok (by exact happly), hloop]

/-! ## Agreement -/

structure TablesAgree (live replayed : Table) : Prop where
  schema : replayed.schema = live.schema
  rows : live.schema.isEvent = false → live.SameRows replayed
  event : live.schema.isEvent = true → ∀ r, ¬ live.Stores r ∧ ¬ replayed.Stores r
  nextID : replayed.nextID ≤ live.nextID
  sequence_isSome : replayed.sequence.isSome = live.sequence.isSome
  sequence_le : ∀ s s', replayed.sequence = some s → live.sequence = some s' → s ≤ s'
  sequence_above : ∀ s, replayed.sequence = some s → ∀ r v, replayed.Stores r →
    replayed.schema.autoValue r = some v → SequenceAbove s v

structure StatesAgree (live replayed : CommittedState) : Prop where
  table : ∀ tableID l, live.table tableID = some l →
    ∃ r, replayed.table tableID = some r ∧ TablesAgree l r
  unknown : ∀ tableID, live.table tableID = none → replayed.table tableID = none

theorem ReplayOf.tablesAgree (h : ReplayOf live replayed) (hlive : live.Sound) :
    TablesAgree live replayed := by
  have hstores : ∀ {t t' : Table}, (∀ c, t.Holds c → t'.Holds c) → ∀ r, t.Stores r →
      ∃ r', t'.Stores r' ∧ r'.rowClass = r.rowClass := by
    intro t t' hholds r hr
    exact Table.holds_iff_stores.mp (hholds _ (Table.holds_iff_stores.mpr ⟨r, hr, rfl⟩))
  refine ⟨h.schema, ?_, ?_, h.nextID, ?_, ?_, ?_⟩
  · refine fun _ => ⟨fun r hr => ?_, fun r hr => ?_⟩
    · obtain ⟨r', hr', hclass⟩ := hstores (fun c => (h.holds c).mpr) r hr
      exact ⟨r', hr', ProductValue.equal_iff.mpr hclass.symm⟩
    · obtain ⟨r', hr', hclass⟩ := hstores (fun c => (h.holds c).mp) r hr
      exact ⟨r', hr', ProductValue.equal_iff.mpr hclass⟩
  · refine fun hevent r => ⟨?_, ?_⟩
    · rintro ⟨rid, hr⟩
      rw [hlive.inv.rowsOK.event_empty hevent rid] at hr
      cases hr
    · rintro ⟨rid, hr⟩
      rw [h.sound.inv.rowsOK.event_empty (by rw [h.schema, hevent]) rid] at hr
      cases hr
  · rw [h.sound.inv.indexed.sequence_isSome, hlive.inv.indexed.sequence_isSome, h.schema]
  · intro s s' hs hs'
    obtain ⟨s'', hs'', hle⟩ := h.sequence s hs
    rw [hs', Option.some.injEq] at hs''
    exact hs'' ▸ hle
  · rintro s hs r v ⟨rid, hr⟩ hv
    exact h.sound.counted.sequence_above s hs rid r v hr hv

theorem ViewReplayOf.statesAgree {live replayed : CommittedState}
    (h : ViewReplayOf live.table replayed.table) (hlive : live.Inv) :
    StatesAgree live replayed := by
  refine ⟨fun tid l hl => ?_, h.unknown⟩
  obtain ⟨r, hr, hreplay⟩ := h.table tid l hl
  obtain ⟨hinv, hcount⟩ := hlive tid l hl
  exact ⟨r, hr, hreplay.tablesAgree ⟨hinv, hcount⟩⟩

/--
Replaying the changesets of a run, one by one or in one batch, never fails and
ends in agreement with the live state.
-/
theorem live_and_replay_agree {b : Builder} {reg : SchemaRegistry} (hreg : buildEngine b = .ok reg)
    (scripts : List TxScript) {live : CommittedState} {log : List Changeset}
    (hrun : runScripts (.fresh reg) scripts = .ok (live, log)) :
    (∃ replayed, loop applyChangeset (.fresh reg) log = (replayed, none) ∧
      StatesAgree live replayed) ∧
    (∃ batch batch' replayed,
      loop (RecoveryBatch.apply (.fresh reg)) RecoveryBatch.new log = (batch, none) ∧
      batch.commit (.fresh reg) = (replayed, batch', none) ∧ StatesAgree live replayed) := by
  have hcs := CommittedState.fresh_inv (buildEngine_primaryUnique hreg)
  constructor
  · obtain ⟨hlive, replayed, hloop, -, hsim⟩ :=
      (replayer_applyChangeset _).follows ⟨hcs, rfl⟩ hcs (.refl hcs) hrun
    exact ⟨replayed, hloop, hsim.statesAgree hlive⟩
  · obtain ⟨hlive, batch, hloop, ⟨hbatch, hstaged⟩, hsim⟩ :=
      (RecoveryBatch.replayer_recoveryBatch hcs).follows ⟨RecoveryBatch.usable_new, .empty _⟩ hcs
        (by rw [RecoveryBatch.new, overlay_empty]; exact .refl hcs) hrun
    obtain ⟨-, -, htables⟩ :=
      (CommittedState.fresh reg).publish_ok batch.staged fun _ => hstaged.known
    refine ⟨batch, _, _, hloop, RecoveryBatch.commit_ok hbatch hstaged, ?_⟩
    refine ViewReplayOf.statesAgree ?_ hlive
    rwa [show ((CommittedState.fresh reg).publish batch.staged).1.table = _ from funext htables]

def exampleScripts : List TxScript :=
  [⟨exampleOps, .commit 1 true fun _ => none⟩, ⟨exampleOps, .rollback⟩]

theorem live_and_replay_agree_example :
    ∃ live log, runScripts (.fresh exampleRegistry) exampleScripts = .ok (live, log) ∧
      log.length = 1 ∧
      ∃ replayed, loop applyChangeset (.fresh exampleRegistry) log = (replayed, none) ∧
        StatesAgree live replayed := by
  have hok : ((runScripts (.fresh exampleRegistry) exampleScripts).toOption.map
      fun p => p.2.length) = some 1 := by
    decide +kernel
  cases hrun : runScripts (.fresh exampleRegistry) exampleScripts with
  | error e =>
    rw [hrun] at hok
    cases hok
  | ok p =>
    rw [hrun] at hok
    exact ⟨p.1, p.2, rfl, by simpa [Except.toOption] using hok,
      (live_and_replay_agree exampleRegistry_built exampleScripts hrun).1⟩

end Shunter
