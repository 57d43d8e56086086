import Shunter.Store.RecoveryState

/-!
# Recovery staging is atomic

Whatever a batch replays is what its changesets give one by one, and a failure
leaves the state alone.  The two ways may each visit the tables of a changeset
in their own order.
-/

namespace Shunter

open Foundation

/-! ## After an error -/

inductive BatchOp
  | apply (entries : Entries)
  | commit
  | discard

namespace RecoveryBatch

def step (s : CommittedState × RecoveryBatch) :
    BatchOp → (CommittedState × RecoveryBatch) × Option StoreError
  | .apply entries =>
    let (b, err) := s.2.applyIn s.1 entries
    ((s.1, b), err)
  | .commit =>
    let (cs, b, err) := s.2.commit s.1
    ((cs, b), err)
  | .discard => ((s.1, s.2.discard), none)

def run (s : CommittedState × RecoveryBatch) (ops : List BatchOp) :
    CommittedState × RecoveryBatch :=
  ops.foldl (fun s op => (step s op).1) s

variable {s : CommittedState × RecoveryBatch}

theorem step_error {s' : CommittedState × RecoveryBatch} {op : BatchOp} {err : StoreError}
    (h : step s op = (s', some err)) : s'.1 = s.1 ∧ s'.2.usable ≠ none := by
  cases op with
  | discard => cases h
  | apply entries =>
    simp only [step, applyIn] at h
    cases hb : s.2.usable with
    | some e =>
      rw [hb] at h
      cases h
      exact ⟨rfl, by simp [hb]⟩
    | none =>
      rw [hb] at h
      dsimp only at h
      cases hrun : loop (applyTable s.1) s.2 entries with
      | mk b' cause =>
        rw [hrun] at h
        cases h
        exact ⟨rfl, by simp [usable_eq_none, applyLoop_error hrun]⟩
  | commit =>
    simp only [step, commit] at h
    cases hb : s.2.usable with
    | some e =>
      rw [hb] at h
      cases h
      exact ⟨rfl, by simp [hb]⟩
    | none =>
      rw [hb] at h
      dsimp only at h
      split at h
      · cases h
        exact ⟨rfl, by simp [usable, fail]⟩
      · cases h

theorem step_unusable (h : s.2.usable ≠ none) (op : BatchOp) :
    (step s op).1.1 = s.1 ∧ (step s op).1.2.usable ≠ none ∧
      (op ≠ .discard → (step s op).2 ≠ none) := by
  obtain ⟨e, he⟩ := Option.ne_none_iff_exists'.mp h
  cases op with
  | apply entries => simp [step, applyIn, he]
  | commit => simp [step, commit, he]
  | discard =>
    refine ⟨rfl, ?_, by simp⟩
    rw [Ne, usable_eq_none] at h ⊢
    simp only [step, discard]
    split <;> simp_all

theorem run_unusable (h : s.2.usable ≠ none) (ops : List BatchOp) :
    (run s ops).1 = s.1 ∧ (run s ops).2.usable ≠ none := by
  induction ops generalizing s with
  | nil => exact ⟨rfl, h⟩
  | cons op ops ih =>
    obtain ⟨hsame, hnext, -⟩ := step_unusable h op
    obtain ⟨hrun, hend⟩ := ih hnext
    exact ⟨hrun.trans hsame, hend⟩

end RecoveryBatch

variable {entries : Entries}

theorem applyChangesetIn_error {cs cs' : CommittedState} {err : StoreError}
    (hnodup : (entries.map Prod.fst).Nodup) (h : applyChangesetIn cs entries = (cs', some err)) :
    cs' = cs := by
  unfold applyChangesetIn at h
  cases hrun : loop (stageChangeset cs) ∅ entries with
  | mk staged cause =>
    rw [hrun] at h
    cases cause with
    | some cause =>
      cases h
      rfl
    | none =>
      -- every staged table was looked up before, so publishing cannot fail
      obtain ⟨-, hentries, hother⟩ :=
        (stageChangeset_rounds cs).loop_only hnodup trivial (by simp) hrun
      obtain ⟨hok, -⟩ := cs.publish_ok staged fun tid hst => by
        by_cases hin : tid ∈ entries.map Prod.fst
        · obtain ⟨e, he, rfl⟩ := List.mem_map.mp hin
          have hround := hentries e he
          generalize hnext : (id staged)[e.1]? = next at hround
          cases hround with
          | skipped h => simp_all
          | replayed h hrun =>
            obtain ⟨table, htable⟩ := overlay_of_start h
            simp_all [overlay_empty]
        · exact absurd (hother tid hin) (by simpa using hst)
      rw [show cs.publish staged = (cs', some err) from h] at hok
      cases hok

/-! ## One by one -/

/-- The same rows, counters and index contents; a hash bucket may list its rows in another order. -/
structure Table.Same (t t' : Table) : Prop where
  content : t.SameContent t'
  sequenceCol : t'.sequenceCol = t.sequenceCol
  indexes : t'.indexes.map (·.schema) = t.indexes.map (·.schema)
  rowIDs : ∀ idx ∈ t.indexes, ∀ idx' ∈ t'.indexes, idx'.schema = idx.schema →
    ∀ key, idx'.btree.rowIDs key = idx.btree.rowIDs key
  hashed : t'.rowHashIndex = none ↔ t.rowHashIndex = none
  buckets : ∀ hash, ((t'.rowHashIndex.getD ∅).bucket hash).Perm
    ((t.rowHashIndex.getD ∅).bucket hash)

variable {ts : TableSchema} {t t' : Table}

theorem Twins.same (h : Twins ts t t') : t.Same t' := by
  have hind := h.sound.inv.indexed
  have hind' := h.clone_sound.inv.indexed
  have hhashed : t'.rowHashIndex = none ↔ t.rowHashIndex = none := by
    rw [hind.hash_none_iff, hind'.hash_none_iff, h.content.schema]
  refine ⟨h.content, ?_, ?_, fun idx hidx idx' hidx' hschema key => ?_, hhashed, fun hash => ?_⟩
  · rw [hind.sequenceCol_eq, hind'.sequenceCol_eq, h.content.schema]
  · rw [hind.indexes_schema, hind'.indexes_schema, h.content.schema]
  · have hmem : ∀ rid, rid ∈ idx'.btree.rowIDs key ↔ rid ∈ idx.btree.rowIDs key := by
      intro rid
      rw [(hind.mirrors idx hidx).mem_rowIDs, (hind'.mirrors idx' hidx').mem_rowIDs,
        h.content.rows]
      simp only [Index.extractKey, hschema]
    have hlt := BTreeIndex.rowIDs_increasing (hind.mirrors idx hidx).inv key
    have hlt' := BTreeIndex.rowIDs_increasing (hind'.mirrors idx' hidx').inv key
    exact hlt'.eq_of_mem_iff hlt hmem
  · cases hnone : t.rowHashIndex with
    | none => rw [hhashed.mpr hnone]
    | some hashes =>
      obtain ⟨hashes', hsome⟩ := Option.ne_none_iff_exists'.mp
        (mt hhashed.mp (by simp [hnone]))
      have hm := hind.hash_mirrors hashes hnone
      have hm' := hind'.hash_mirrors hashes' hsome
      rw [hsome, Option.getD_some, Option.getD_some]
      rw [List.perm_ext_iff_of_nodup (hm'.nodup hash) (hm.nodup hash)]
      intro rid
      rw [hm.mem_bucket_iff, hm'.mem_bucket_iff, h.content.rows]

/-- Two ways to show a state, table by table. -/
structure ViewTwins (view view' : TableID → Option Table) : Prop where
  table : ∀ tableID t, view tableID = some t →
    ∃ t', view' tableID = some t' ∧ Twins t.schema t t'
  absent : ∀ tableID, view tableID = none → view' tableID = none

theorem EntryApplied.twins {tc : TableChangeset} {next next' : Table}
    (h : EntryApplied t tc next) (h' : EntryApplied t' tc next') (htwins : Twins t.schema t t') :
    Twins next.schema next next' := by
  have hschema := htwins.content.schema
  cases hevent : t.schema.isEvent with
  | true =>
    rw [h.event hevent, h'.event (by rw [hschema, hevent])]
    exact htwins
  | false =>
    obtain ⟨u, hu, hnext⟩ := h.stored hevent
    obtain ⟨u', hu', hnext'⟩ := h'.stored (by rw [hschema, hevent])
    obtain ⟨v, hv, huv⟩ := applyChangesetToTable_twins hevent htwins hu
    rw [hu'] at hv
    cases hv
    rw [hschema] at hnext'
    rw [hnext.content.schema, hnext.schema]
    exact (hnext.symm.trans huv).trans hnext'

theorem EntryApplied.follows {tc : TableChangeset} {next : Table} (h : EntryApplied t tc next)
    (htwins : Twins t.schema t t') (hevent : t'.schema.isEvent = false) :
    ∃ u, applyChangesetToTable t' tc = (u, none) := by
  rw [htwins.content.schema] at hevent
  obtain ⟨u, hu, -⟩ := h.stored hevent
  obtain ⟨v, hv, -⟩ := applyChangesetToTable_twins hevent htwins hu
  exact ⟨v, hv⟩

theorem ViewTwins.applied {view view' next next' : TableID → Option Table} {entries' : Entries}
    (h : ViewTwins view view') (hperm : entries'.Perm entries)
    (happlied : ViewApplied view next entries) (happlied' : ViewApplied view' next' entries') :
    ViewTwins next next' := by
  have hkeys : ∀ tid, tid ∈ entries'.map Prod.fst ↔ tid ∈ entries.map Prod.fst :=
    fun tid => (hperm.map Prod.fst).mem_iff
  refine ⟨fun tid u hu => ?_, fun tid hnone => ?_⟩
  · by_cases hin : tid ∈ entries.map Prod.fst
    · obtain ⟨e, he, rfl⟩ := List.mem_map.mp hin
      obtain ⟨t, t₁, ht, ht₁, hentry, -⟩ := happlied.applied e he
      obtain ⟨t', t₁', ht', ht₁', hentry', -⟩ := happlied'.applied e (hperm.mem_iff.mpr he)
      obtain ⟨t₂, ht₂, htwins⟩ := h.table e.1 t ht
      rw [ht', Option.some.injEq] at ht₂
      rw [hu, Option.some.injEq] at ht₁
      subst ht₁ ht₂
      exact ⟨t₁', ht₁', hentry.twins hentry' htwins⟩
    · rw [happlied.other tid hin] at hu
      rw [happlied'.other tid (mt (hkeys tid).mp hin)]
      exact h.table tid u hu
  · by_cases hin : tid ∈ entries.map Prod.fst
    · obtain ⟨e, he, rfl⟩ := List.mem_map.mp hin
      obtain ⟨-, t₁, -, ht₁, -⟩ := happlied.applied e he
      rw [hnone] at ht₁
      cases ht₁
    · rw [happlied.other tid hin] at hnone
      rw [happlied'.other tid (mt (hkeys tid).mp hin)]
      exact h.absent tid hnone

section

variable {σ τ : Type} {apply : σ → Entries → σ × Option StoreError}
  {apply' : τ → Entries → τ × Option StoreError} {view : σ → TableID → Option Table}
  {view' : τ → TableID → Option Table} {OK : σ → Prop} {OK' : τ → Prop}
  (h : Replayer apply view OK) (h' : Replayer apply' view' OK') {s s₁ : σ} {t : τ}
  (hs : OK s) (ht : OK' t) (htwins : ViewTwins (view s) (view' t))
include h h' hs ht htwins

/-- A changeset that one replayer takes is taken by the other, whatever the orders. -/
theorem Replayer.apply_twin {entries' : Entries} (hnodup : (entries.map Prod.fst).Nodup)
    (hperm : entries'.Perm entries) (hrun : apply s entries = (s₁, none)) :
    ∃ t₁, apply' t entries' = (t₁, none) ∧ OK s₁ ∧ OK' t₁ ∧ ViewTwins (view s₁) (view' t₁) := by
  have hnodup' := (hperm.map Prod.fst).nodup_iff.mpr hnodup
  obtain ⟨hs₁, happlied⟩ := h.applied s entries s₁ hs hnodup hrun
  have hall : Applicable (view' t) entries' := by
    intro e he
    obtain ⟨table, next, htable, -, hentry, -⟩ := happlied.applied e (hperm.mem_iff.mp he)
    obtain ⟨table', htable', htwin⟩ := htwins.table e.1 table htable
    exact ⟨table', htable', hentry.follows htwin⟩
  obtain ⟨t₁, hrun'⟩ := h'.run t entries' ht hnodup' hall
  obtain ⟨ht₁, happlied'⟩ := h'.applied t entries' t₁ ht hnodup' hrun'
  exact ⟨t₁, hrun', hs₁, ht₁, htwins.applied hperm happlied happlied'⟩

theorem Replayer.applyAll_twin {changesets changesets' : List Entries}
    (hnodup : ∀ entries ∈ changesets, (entries.map Prod.fst).Nodup)
    (horders : List.Forall₂ List.Perm changesets' changesets)
    (hrun : loop apply s changesets = (s₁, none)) :
    ∃ t₁, loop apply' t changesets' = (t₁, none) ∧ OK s₁ ∧ OK' t₁ ∧
      ViewTwins (view s₁) (view' t₁) := by
  induction horders generalizing s t with
  | nil =>
    cases hrun
    exact ⟨t, rfl, hs, ht, htwins⟩
  | @cons entries' entries rest' rest hperm horders ih =>
    obtain ⟨hfirst, hnodup⟩ := List.forall_mem_cons.mp hnodup
    obtain ⟨s₂, hstep, hrun⟩ := loop_cons_eq_ok.mp hrun
    obtain ⟨t₂, hstep', hs₂, ht₂, htwins₂⟩ := h.apply_twin h' hs ht htwins hfirst hperm hstep
    rw [loop_cons_ok hstep']
    exact ih hs₂ ht₂ htwins₂ hnodup hrun

end

/-- The states have the same tables, and the tables the same content and indexes. -/
structure CommittedState.Same (cs cs' : CommittedState) : Prop where
  horizon : cs'.committedTxID = cs.committedTxID
  table : ∀ tableID t, cs.table tableID = some t → ∃ t', cs'.table tableID = some t' ∧ t.Same t'
  absent : ∀ tableID, cs.table tableID = none → cs'.table tableID = none

/-! ## The main result -/

/--
A failing operation of a batch changes no table and the batch stays unusable; a
batch that commits publishes what the changesets applied one by one give; a
changeset that fails on its own changes nothing.
-/
theorem recovery_staging_atomic {cs : CommittedState} (hcs : cs.Inv) :
    (∀ b op s err, RecoveryBatch.step (cs, b) op = (s, some err) → s.1 = cs ∧
      ∀ ops, (RecoveryBatch.run s ops).1 = cs ∧
        ∀ later ≠ .discard, (RecoveryBatch.step (RecoveryBatch.run s ops) later).2 ≠ none) ∧
    (∀ changesets changesets' : List Entries,
      (∀ entries ∈ changesets, (entries.map Prod.fst).Nodup) →
      List.Forall₂ List.Perm changesets' changesets →
      ∀ b b' cs', loop (RecoveryBatch.applyIn cs) .new changesets = (b, none) →
        b.commit cs = (cs', b', none) →
        ∃ cs'', loop applyChangesetIn cs changesets' = (cs'', none) ∧ cs'.Same cs'') ∧
    (∀ entries : Entries, (entries.map Prod.fst).Nodup →
      ∀ cs' err, applyChangesetIn cs entries = (cs', some err) → cs' = cs) := by
  refine ⟨fun b op s err hstep => ?_, ?_, fun entries hnodup cs' err => ?_⟩
  · obtain ⟨hsame, hunusable⟩ := RecoveryBatch.step_error hstep
    refine ⟨hsame, fun ops => ?_⟩
    obtain ⟨hrun, hend⟩ := RecoveryBatch.run_unusable hunusable ops
    exact ⟨hrun.trans hsame, fun later => (RecoveryBatch.step_unusable hend later).2.2⟩
  · intro changesets changesets' hnodup horders b b' cs' hrun hcommit
    have hstart : ViewTwins (cs.overlay RecoveryBatch.new.staged) cs.table := by
      rw [RecoveryBatch.new, overlay_empty]
      exact ⟨fun tid t ht => ⟨t, ht, .refl (hcs.sound tid t ht)⟩, fun _ h => h⟩
    obtain ⟨cs'', hloop, ⟨hb, hstaged⟩, ⟨-, hhorizon⟩, htwins⟩ :=
      (RecoveryBatch.replayer_recoveryBatch hcs).applyAll_twin (replayer_applyChangeset _)
        ⟨rfl, .empty cs⟩ ⟨hcs, rfl⟩ hstart hnodup horders hrun
    rw [RecoveryBatch.commit_ok hb hstaged] at hcommit
    cases hcommit
    obtain ⟨-, hhorizon', htables⟩ := cs.publish_ok b.staged fun _ => hstaged.known
    refine ⟨cs'', hloop, hhorizon.trans hhorizon'.symm, fun tid t ht => ?_, fun tid hnone => ?_⟩
    · rw [htables] at ht
      obtain ⟨t', ht', htwin⟩ := htwins.table tid t ht
      exact ⟨t', ht', htwin.same⟩
    · rw [htables] at hnone
      exact htwins.absent tid hnone
  · exact applyChangesetIn_error hnodup

def exampleEntries : Entries :=
  exampleRegistry.tables.zipIdx.map fun (ts, i) =>
    (ts.id, ⟨ts.id, ts.name, ts, if i = 0 then [[⟨.uint64, some (7 : BitVec 64)⟩]] else [], []⟩)

theorem recovery_staging_atomic_example :
    ∃ b b' cs', loop (RecoveryBatch.applyIn (.fresh exampleRegistry)) .new [exampleEntries] =
        (b, none) ∧ b.commit (.fresh exampleRegistry) = (cs', b', none) ∧
      ∃ cs'', loop applyChangesetIn (.fresh exampleRegistry) [exampleEntries.reverse] =
        (cs'', none) ∧ cs'.Same cs'' := by
  have hcs := CommittedState.fresh_inv (buildEngine_primaryUnique exampleRegistry_built)
  have hok : (loop (RecoveryBatch.applyIn (.fresh exampleRegistry)) .new
      [exampleEntries]).2 = none := by
    decide +kernel
  have hcommit : ((loop (RecoveryBatch.applyIn (.fresh exampleRegistry)) .new
      [exampleEntries]).1.commit (.fresh exampleRegistry)).2.2 = none := by
    decide +kernel
  refine ⟨_, _, _, Prod.ext rfl hok, Prod.ext rfl (Prod.ext rfl hcommit), ?_⟩
  refine (recovery_staging_atomic hcs).2.1 [exampleEntries] [exampleEntries.reverse] ?_ ?_ _ _ _
    (Prod.ext rfl hok) (Prod.ext rfl (Prod.ext rfl hcommit))
  · decide +kernel
  · exact .cons (List.reverse_perm _) .nil

end Shunter
