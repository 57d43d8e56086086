import Shunter.Commitlog.RestoreSound
import Shunter.Store.CommitSound

/-!
# The table invariant over whole runs

Committed state is written by commits, by replayed changesets, by recovery
batches and by snapshot restores.  Whatever order they come in and whichever of
them fail, every table stays well represented.
-/

namespace Shunter

open Foundation

/-! ## Well-represented tables -/

/-- Rows, indexes, hash index and counters of a table belong together. -/
structure Table.Represented (t : Table) : Prop where
  /-- Each index maps every stored row identifier once, and no other. -/
  mappings_perm : ∀ idx ∈ t.indexes,
    ((mappings idx.btree.entries).map Prod.snd).Perm t.rows.keys
  mapping_key : ∀ idx ∈ t.indexes, ∀ key rid, (key, rid) ∈ mappings idx.btree.entries →
    ∃ row, t.rows[rid]? = some row ∧ (idx.extractKey row).equal key = true
  indexes_schema : t.indexes.map (·.schema) = t.schema.indexes
  unique : ∀ idx ∈ t.indexes, idx.schema.unique = true → ∀ key,
    (idx.btree.rowIDs key).length ≤ 1
  distinct : t.schema.primaryIndex = none → ∀ (rid rid' : RowID) (row row' : ProductValue),
    t.rows[rid]? = some row → t.rows[rid']? = some row' → row.equal row' = true → rid = rid'
  hashed : t.schema.primaryIndex = none → ∃ hashes, t.rowHashIndex = some hashes ∧
    (∀ k, (hashes.bucket k).Nodup) ∧
    ∀ k rid, rid ∈ hashes.bucket k ↔ ∃ row : ProductValue, t.rows[rid]? = some row ∧ row.hash64 = k
  rowIDs : ∀ (rid : RowID) (row : ProductValue), t.rows[rid]? = some row →
    1 ≤ rid ∧ rid < t.nextID
  sequence : ∀ next, t.sequence = some next → ∀ (rid : RowID) (row : ProductValue) v,
    t.rows[rid]? = some row → t.schema.autoValue row = some v → SequenceAbove next v

theorem Index.Mirrors.rowIDs_nodup {idx : Index} {rows : GoMap RowID ProductValue}
    (h : idx.Mirrors rows) (key : IndexKey) : (idx.btree.rowIDs key).Nodup := by
  rw [BTreeIndex.rowIDs_eq_lookup h.inv]
  cases hl : lookup IndexKey.compare key idx.btree.entries with
  | nil => exact List.nodup_nil
  | cons v l =>
    obtain ⟨e, he, hk, -⟩ := exists_bucket_of_mem_lookup
      (show v ∈ lookup IndexKey.compare key idx.btree.entries by simp [hl])
    rw [← hl, lookup_of_bucket h.inv.wellFormed.sorted he hk]
    exact (h.inv.wellFormed.increasing e he).imp ne_of_lt

theorem Index.Mirrors.mappings_perm {idx : Index} {rows : GoMap RowID ProductValue}
    (h : idx.Mirrors rows) : ((mappings idx.btree.entries).map Prod.snd).Perm rows.keys := by
  rw [List.perm_ext_iff_of_nodup h.mappings_nodup Std.ExtTreeMap.nodup_keys]
  intro rid
  rw [Std.ExtTreeMap.mem_keys, ← Std.ExtTreeMap.contains_iff_mem,
    Std.ExtTreeMap.contains_eq_isSome_getElem?, List.mem_map]
  constructor
  · rintro ⟨⟨key, _⟩, hmem, rfl⟩
    obtain ⟨row, hrow, -⟩ := h.row_of_mapping hmem
    simp [hrow]
  · intro hsome
    obtain ⟨row, hrow⟩ := Option.isSome_iff_exists.mp hsome
    have hmem := (h.mem_rowIDs (idx.extractKey row) rid).mpr
      ⟨row, hrow, Std.ReflCmp.compare_self⟩
    rw [BTreeIndex.rowIDs_eq_lookup h.inv] at hmem
    obtain ⟨key, -, hmapping⟩ := exists_mapping_of_mem_lookup hmem
    exact ⟨(key, rid), hmapping, rfl⟩

variable {table : Table}

theorem Table.Sound.represented (h : table.Sound) : table.Represented := by
  have hind := h.inv.indexed
  refine ⟨fun idx hidx => (hind.mirrors idx hidx).mappings_perm, ?_, hind.indexes_schema, ?_, ?_,
    ?_, h.counted.rowID_lt, h.counted.sequence_above⟩
  · intro idx hidx key rid hmem
    obtain ⟨row, hrow, hk⟩ := (hind.mirrors idx hidx).row_of_mapping hmem
    exact ⟨row, hrow, by simpa [IndexKey.equal] using hk⟩
  · intro idx hidx hu key
    have hmir := hind.mirrors idx hidx
    have hone : ∀ a b, a ∈ idx.btree.rowIDs key → b ∈ idx.btree.rowIDs key → a = b := by
      intro a b ha hb
      obtain ⟨r, hr, hk⟩ := (hmir.mem_rowIDs key a).mp ha
      obtain ⟨r', hr', hk'⟩ := (hmir.mem_rowIDs key b).mp hb
      refine h.inv.rowsOK.conflictFree a b r r' hr hr' (.inl ⟨idx.schema, ?_, hu, ?_⟩)
      · exact hind.index_schema_mem hidx
      · exact Std.TransCmp.eq_trans hk (Std.OrientedCmp.eq_symm hk')
    have hnodup := hmir.rowIDs_nodup key
    cases hl : idx.btree.rowIDs key with
    | nil => simp
    | cons a l =>
      cases l with
      | nil => simp
      | cons b l =>
        rw [hl] at hone hnodup
        have heq := hone a b (by simp) (by simp)
        simp [heq] at hnodup
  · intro hp rid rid' row row' hr hr' heq
    exact h.inv.rowID_unique hr hr' (ProductValue.equal_iff.mp heq)
  · intro hp
    cases hh : table.rowHashIndex with
    | none =>
      have := hind.hash_none_iff.mp hh
      simp [hp] at this
    | some hashes =>
      have hmir := hind.hash_mirrors hashes hh
      exact ⟨hashes, rfl, hmir.nodup, hmir.mem_bucket_iff⟩

/-! ## Runs -/

/-- A committed state together with the recovery batch that is open over it. -/
structure Engine where
  state : CommittedState
  batch : RecoveryBatch

/-- The steps that write committed state, each of which may fail. -/
inductive EngineStep (reg : SchemaRegistry) where
  | commit (ops : List TxOp) (txID : TxID) (advanceHorizon : Bool)
      (validate : Changeset → Option StoreError)
  | applyChangeset (changeset : Changeset)
  | newBatch
  | batchApply (changeset : Changeset)
  | batchCommit
  | batchDiscard
  | restore (snapshot : SnapshotData) (fits : snapshot.Fits reg)
  | advanceSequences
  | setCommittedTxID (txID : TxID)

namespace Engine

variable {reg : SchemaRegistry}

def start (reg : SchemaRegistry) : Engine := ⟨.fresh reg, .new⟩

def step (e : Engine) : EngineStep reg → Engine
  | .commit ops txID advanceHorizon validate =>
    { e with
      state := (commitWithValidation e.state (Transaction.new.runOps e.state ops).1 txID
        advanceHorizon validate).1 }
  | .applyChangeset changeset => { e with state := (applyChangeset e.state changeset).1 }
  | .newBatch => { e with batch := .new }
  | .batchApply changeset => { e with batch := (e.batch.apply e.state changeset).1 }
  | .batchCommit => ⟨(e.batch.commit e.state).1, (e.batch.commit e.state).2.1⟩
  | .batchDiscard => { e with batch := e.batch.discard }
  | .restore snapshot _ =>
    -- recovery restores into fresh tables and drops them again when that fails
    match restoreSnapshot (.fresh reg) snapshot with
    | (state, none) => ⟨state, .new⟩
    | (_, some _) => e
  | .advanceSequences => { e with state := advanceRecoveredSequences e.state }
  | .setCommittedTxID txID => { e with state := { e.state with committedTxID := txID } }

def run (e : Engine) (steps : List (EngineStep reg)) : Engine := steps.foldl step e

/-- The state is sound, and so is what the batch would publish. -/
structure Inv (e : Engine) : Prop where
  state : e.state.Inv
  batch : e.batch.Staging e.state

end Engine

theorem StagedSound.of_sameSchemas {cs cs' : CommittedState} {staged : GoMap TableID Table}
    (h : StagedSound cs staged) (hsame : cs.SameSchemas cs') : StagedSound cs' staged := by
  refine ⟨fun tid st hst => ?_⟩
  obtain ⟨table, htable, hevent, hsound, hschema⟩ := h.table tid st hst
  have hmap := hsame tid
  rw [htable, Option.map_some, Option.map_eq_some_iff] at hmap
  obtain ⟨table', htable', hschema'⟩ := hmap
  exact ⟨table', htable', by rw [hschema', hevent], hsound, hschema.trans hschema'.symm⟩

namespace Engine

variable {reg : SchemaRegistry} {e : Engine}

def Over (reg : SchemaRegistry) (e : Engine) : Prop :=
  e.state.All fun tableID table => reg.table tableID = some table.schema

theorem Over.of_sameSchemas (h : e.Over reg) {e' : Engine}
    (hsame : e.state.SameSchemas e'.state) : e'.Over reg := by
  intro tid table' htable'
  have hmap := hsame tid
  rw [htable', Option.map_some] at hmap
  obtain ⟨table, htable, hschema⟩ := Option.map_eq_some_iff.mp hmap.symm
  exact hschema ▸ h tid table htable

/-- A step keeps the invariant and the schemas. -/
def Keeps (reg : SchemaRegistry) (e e' : Engine) : Prop := e'.Inv ∧ (e.Over reg → e'.Over reg)

theorem Inv.of_state (h : e.Inv) {cs : CommittedState} (hinv : cs.Inv)
    (hsame : e.state.SameSchemas cs) : Keeps reg e { e with state := cs } :=
  ⟨⟨hinv, fun hnone => (h.batch hnone).of_sameSchemas hsame⟩, fun ho => ho.of_sameSchemas hsame⟩

section

variable (hreg : ∀ ts ∈ reg.tables, ts.PrimaryUnique)
include hreg

theorem step_keeps (h : e.Inv) (s : EngineStep reg) : Keeps reg e (e.step s) := by
  cases s with
  | commit ops txID advanceHorizon validate =>
    rcases commit_runOps_cases h.state ops txID advanceHorizon validate with
      ⟨err, hstate, -⟩ | ⟨c, -, hcommit⟩
    · simp only [step, hstate]
      exact ⟨h, id⟩
    · exact h.of_state (hcommit.inv h.state) hcommit.sameSchemas
  | applyChangeset changeset =>
    obtain ⟨hinv, hsame⟩ := applyChangeset_inv changeset h.state
    exact h.of_state hinv hsame
  | newBatch => exact ⟨⟨h.state, RecoveryBatch.staging_new _⟩, id⟩
  | batchApply changeset =>
    exact ⟨⟨h.state, RecoveryBatch.apply_staging h.state h.batch changeset⟩, id⟩
  | batchCommit =>
    obtain ⟨hinv, hsame, hstaging⟩ := RecoveryBatch.commit_inv h.state h.batch
    exact ⟨⟨hinv, fun hnone => (hstaging hnone).of_sameSchemas hsame⟩,
      fun ho => ho.of_sameSchemas hsame⟩
  | batchDiscard =>
    refine ⟨⟨h.state, ?_⟩, id⟩
    simp only [step, RecoveryBatch.discard]
    split
    · exact h.batch
    · exact fun _ => .empty _
  | restore snapshot fits =>
    simp only [step]
    cases hrun : restoreSnapshot (.fresh reg) snapshot with
    | mk state err =>
      cases err with
      | some err => exact ⟨h, id⟩
      | none =>
        obtain ⟨hinv, hover⟩ := restoreSnapshot_inv hreg fits hrun
        exact ⟨⟨hinv, RecoveryBatch.staging_new _⟩, fun _ => hover⟩
  | advanceSequences =>
    rw [step, advanceRecoveredSequences_eq h.state]
    exact ⟨h, id⟩
  | setCommittedTxID txID => exact h.of_state h.state fun _ => rfl

theorem run_keeps (h : e.Inv) (steps : List (EngineStep reg)) : Keeps reg e (e.run steps) := by
  induction steps generalizing e with
  | nil => exact ⟨h, id⟩
  | cons s steps ih =>
    obtain ⟨hinv, hover⟩ := step_keeps hreg h s
    exact ⟨(ih hinv).1, fun ho => (ih hinv).2 (hover ho)⟩

theorem run_inv (h : e.Inv) (steps : List (EngineStep reg)) : (e.run steps).Inv :=
  (run_keeps hreg h steps).1

theorem start_inv : (start reg).Inv :=
  ⟨CommittedState.fresh_inv hreg, RecoveryBatch.staging_new _⟩

theorem run_over (h : e.Inv) (hover : e.Over reg) (steps : List (EngineStep reg)) :
    (e.run steps).Over reg :=
  (run_keeps hreg h steps).2 hover

end

theorem start_over (reg : SchemaRegistry) : (start reg).Over reg := by
  intro tid table htable
  rw [start, CommittedState.fresh_table] at htable
  obtain ⟨ts, hts, rfl⟩ := Option.map_eq_some_iff.mp htable
  exact hts

end Engine

/-- In every state a run reaches, every table is well represented. -/
theorem tables_represented_in_every_run {reg : SchemaRegistry}
    (hreg : ∀ ts ∈ reg.tables, ts.PrimaryUnique) (steps : List (EngineStep reg))
    (tableID : TableID) (table : Table)
    (htable : ((Engine.start reg).run steps).state.table tableID = some table) :
    table.Represented := by
  have hinv := Engine.run_inv hreg (Engine.start_inv hreg) steps
  obtain ⟨htinv, hcount⟩ := hinv.state tableID table htable
  exact Table.Sound.represented ⟨htinv, hcount⟩

def exampleSnapshot : SnapshotData :=
  ⟨3, 1, 1, [⟨0, []⟩], (∅ : GoMap TableID Nat).insert 0 5, (∅ : GoMap TableID Nat).insert 0 3, []⟩

private theorem singleton_get {n tid next : Nat}
    (h : ((∅ : GoMap TableID Nat).insert 0 n)[tid]? = some next) : next = n := by
  rw [Std.ExtTreeMap.getElem?_insert] at h
  split at h
  · cases h
    rfl
  · simp at h

theorem exampleSnapshot_fits : exampleSnapshot.Fits exampleRegistry where
  sections_nodup := by decide
  rows_valid := by simp [exampleSnapshot]
  rows_length := by simp [exampleSnapshot]
  sequence_present := by simp [exampleSnapshot]
  sequence_range tid next hnext := by
    rw [singleton_get hnext]
    decide
  nextID_le tid next hnext := by
    rw [singleton_get hnext]
    decide

def exampleSteps : List (EngineStep exampleRegistry) :=
  [.commit exampleOps 1 true (fun _ => none), .restore exampleSnapshot exampleSnapshot_fits,
    .commit exampleOps 4 true (fun _ => none)]

theorem tables_represented_in_every_run_example :
    ∃ table, ((Engine.start exampleRegistry).run exampleSteps).state.table 0 = some table ∧
      table.nextID = 5 ∧ table.Represented := by
  have hsome : (((Engine.start exampleRegistry).run exampleSteps).state.table 0).map (·.nextID) =
      some 5 := by
    decide +kernel
  obtain ⟨table, htable, hnext⟩ := Option.map_eq_some_iff.mp hsome
  exact ⟨table, htable, hnext, tables_represented_in_every_run
    (buildEngine_primaryUnique exampleRegistry_built) exampleSteps 0 table htable⟩

end Shunter
