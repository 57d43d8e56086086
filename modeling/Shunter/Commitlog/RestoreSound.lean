import Shunter.Commitlog.Restore

/-!
# Restored states are sound

A snapshot that fits the registry either fails to restore or gives a state in
which every table satisfies its invariants.
-/

namespace Shunter

open Foundation

variable {table table' : Table} {row : ProductValue} {cs cs' : CommittedState}

/-! ## Sequence values -/

private theorem maxAutoValue_eq (ts : TableSchema) (rows : List ProductValue) :
    maxAutoValue ts rows = (rows.map fun row => (ts.autoValue row).getD 0).foldr max ⊥ := by
  rw [← List.foldl_eq_foldr, List.foldl_map]
  rfl

theorem maxAutoValue_spec (ts : TableSchema) (rows : List ProductValue) :
    (∀ row ∈ rows, ∀ v, ts.autoValue row = some v → v ≤ maxAutoValue ts rows) ∧
      maxAutoValue ts rows ≤ maxUint64 := by
  rw [maxAutoValue_eq]
  constructor
  · intro row hrow v hv
    exact List.le_max_of_le (List.mem_map_of_mem hrow) (by simp [hv])
  · apply List.max_le_of_forall_le
    simp only [List.forall_mem_map]
    intro row _
    cases hv : ts.autoValue row with
    | none => simp
    | some v => exact TableSchema.autoValue_le hv

variable {next : Nat}

theorem sequenceAbove_of_minNext {minNext : Nat}
    (hmin : nextSequenceValueForTable table = some minNext) (hle : minNext ≤ next)
    (hnext : next ≤ maxUint64) {rid : RowID} {v : Nat} (hr : table.rows[rid]? = some row)
    (hv : table.schema.autoValue row = some v) : SequenceAbove next v := by
  obtain ⟨c, -, rfl⟩ := Option.map_eq_some_iff.mp hmin
  obtain ⟨hall, hmax⟩ := maxAutoValue_spec table.schema (table.scan.map Prod.snd)
  have hmem : row ∈ table.scan.map Prod.snd :=
    List.mem_map.mpr ⟨(rid, row), Std.ExtTreeMap.mem_toList_iff_getElem?_eq_some.mpr hr, rfl⟩
  have hv' := hall row hmem v hv
  unfold nextAutoIncrementSequenceValue at hle
  unfold SequenceAbove
  split at hle <;> omega

theorem autoIncrementCol_of_autoValue {ts : TableSchema} {v : Nat}
    (hv : ts.autoValue row = some v) : ts.autoIncrementCol.isSome = true := by
  obtain ⟨c, -, hc, -⟩ := TableSchema.autoValue_eq_some hv
  simp [hc]

/-! ## Filling tables -/

/-- A table that rows are being restored into; its sequence counter is not in step yet. -/
structure Table.Filling (t : Table) : Prop where
  inv : t.Inv
  nextID_pos : 1 ≤ t.nextID
  nextID_le : t.nextID ≤ maxUint64
  rowID_lt : ∀ (rid : RowID) (row : ProductValue), t.rows[rid]? = some row →
    1 ≤ rid ∧ rid < t.nextID
  sequence_range : ∀ s, t.sequence = some s → 1 ≤ s ∧ s ≤ maxUint64

theorem Table.Filling.sound (h : table.Filling)
    (habove : ∀ s, table.sequence = some s → ∀ (rid : RowID) (row : ProductValue) v,
      table.rows[rid]? = some row → table.schema.autoValue row = some v → SequenceAbove s v) :
    table.Sound :=
  ⟨h.inv, h.nextID_pos, h.nextID_le, h.rowID_lt, h.sequence_range, habove⟩

theorem Table.Sound.filling (h : table.Sound) : table.Filling :=
  ⟨h.inv, h.counted.nextID_pos, h.counted.nextID_le, h.counted.rowID_lt,
    h.counted.sequence_range⟩

structure RowRestored (table table' : Table) (row : ProductValue) : Prop where
  filling : table'.Filling
  schema : table'.schema = table.schema
  nextID : table'.nextID = table.nextID + 1
  sequence : table'.sequence = table.sequence
  rows : table'.rows = table.rows.insert table.nextID row

theorem restoreRow_ok (h : table.Filling) (hevent : table.schema.isEvent = false)
    (hvalid : validateRow table.schema row = none) (hnext : table.nextID < maxUint64)
    (hno : ¬ table.HasConflict row) :
    ∃ table', restoreRow table row = (table', none) ∧ RowRestored table table' row := by
  obtain ⟨table', hrun, hadded⟩ := insertRow_added h.inv h.rowID_lt hevent hvalid hno rfl
  have hpos := h.nextID_pos
  have hid := hadded.nextID
  refine ⟨table', ?_, ⟨hadded.inv, by lia, by lia, ?_, ?_⟩, hadded.schema, hid,
    hadded.sequence, hadded.rows⟩
  · simpa only [restoreRow, Table.allocRowID, add_one_wrap hnext] using hrun
  · intro rid r hr
    rcases (hadded.get rid r).mp hr with ⟨rfl, -⟩ | hr
    · lia
    · have := h.rowID_lt rid r hr
      lia
  · rw [hadded.sequence]
    exact h.sequence_range

theorem restoreRow_accepts (h : table.Filling) (hrun : restoreRow table row = (table', none)) :
    ¬ table.HasConflict row := by
  intro hconf
  have hind := h.inv.indexed.withCounters ((table.nextID + 1) % 2 ^ 64) rfl
  obtain ⟨e, he⟩ : ∃ e, (restoreRow table row).2 = some e :=
    (Table.insertRow_error hind (.inr hconf)).1
  rw [hrun] at he
  cases he

theorem restoreRows_sound {rows : List ProductValue} (h : table.Filling)
    (hevent : table.schema.isEvent = false)
    (hvalid : ∀ row ∈ rows, validateRow table.schema row = none)
    (hroom : table.nextID + rows.length ≤ maxUint64)
    (hrun : loop restoreRow table rows = (table', none)) :
    table'.Filling ∧ table'.schema = table.schema ∧ table'.sequence = table.sequence := by
  obtain ⟨hfill, hschema, hseq, -⟩ := loop_ok_inv
    (fun done t => t.Filling ∧ t.schema = table.schema ∧ t.sequence = table.sequence ∧
      t.nextID = table.nextID + done.length)
    (by
      rintro done row rest t t' hl ⟨hfill, hschema, hseq, hnext⟩ hround
      have hlen : rows.length = done.length + (rest.length + 1) := by simp [hl]
      obtain ⟨t₁, hround₁, hrestored⟩ := restoreRow_ok hfill (by rw [hschema, hevent])
        (by rw [hschema]; exact hvalid row (by simp [hl])) (by lia)
        (restoreRow_accepts hfill hround)
      rw [hround] at hround₁
      cases hround₁
      refine ⟨hrestored.filling, hrestored.schema.trans hschema,
        hrestored.sequence.trans hseq, ?_⟩
      rw [hrestored.nextID, hnext, List.length_append, List.length_singleton, add_assoc])
    ⟨h, rfl, rfl, rfl⟩ hrun
  exact ⟨hfill, hschema, hseq⟩

/-! ## Restoring a whole snapshot -/

/--
What reading a snapshot file and comparing its schema with the registry
establish before anything is restored: sections name different tables, rows are
valid, counters are `uint64` values and no sequence is missing.
-/
structure SnapshotData.Fits (snapshot : SnapshotData) (reg : SchemaRegistry) : Prop where
  sections_nodup : (snapshot.tables.map (·.tableID)).Nodup
  rows_valid : ∀ data ∈ snapshot.tables, ∀ ts, reg.table data.tableID = some ts →
    ∀ row ∈ data.rows, validateRow ts row = none
  rows_length : ∀ data ∈ snapshot.tables, data.rows.length < 2 ^ 32
  sequence_present : ∀ data ∈ snapshot.tables, ∀ ts, reg.table data.tableID = some ts →
    ts.isEvent = false → ts.autoIncrementCol.isSome = true →
    snapshot.sequences[data.tableID]? ≠ none
  sequence_range : ∀ (tableID : TableID) next, snapshot.sequences[tableID]? = some next →
    1 ≤ next ∧ next ≤ maxUint64
  nextID_le : ∀ (tableID : TableID) next, snapshot.nextIDs[tableID]? = some next →
    next ≤ maxUint64

def CommittedState.All (P : TableID → Table → Prop) (cs : CommittedState) : Prop :=
  ∀ tableID table, cs.table tableID = some table → P tableID table

theorem CommittedState.All.setTable {P : TableID → Table → Prop} (h : cs.All P)
    {tableID : TableID} (htable : P tableID table) : (cs.setTable tableID table).All P := by
  intro tid t ht
  rw [CommittedState.table_setTable] at ht
  split at ht
  · next heq =>
    subst heq
    cases ht
    exact htable
  · exact h tid t ht

theorem CommittedState.All.mono {P Q : TableID → Table → Prop} (h : cs.All P)
    (himp : ∀ tableID table, P tableID table → Q tableID table) : cs.All Q :=
  fun tid t ht => himp tid t (h tid t ht)

section

variable {reg : SchemaRegistry} {snapshot : SnapshotData}

/-- A table of the registry while the sections in `done` are restored. -/
structure SectionsRestored (reg : SchemaRegistry) (done : List TableID) (tableID : TableID)
    (table : Table) : Prop where
  filling : table.Filling
  schema : reg.table tableID = some table.schema
  empty : tableID ∉ done → table.rows = ∅ ∧ table.nextID = 1

theorem fresh_sectionsRestored (hreg : ∀ ts ∈ reg.tables, ts.PrimaryUnique) :
    (CommittedState.fresh reg).All (SectionsRestored reg []) := by
  intro tid t ht
  obtain ⟨hinv, hcount⟩ := CommittedState.fresh_inv hreg tid t ht
  rw [CommittedState.fresh_table] at ht
  obtain ⟨ts, hts, rfl⟩ := Option.map_eq_some_iff.mp ht
  exact ⟨Table.Sound.filling ⟨hinv, hcount⟩, hts, fun _ => ⟨rfl, rfl⟩⟩

theorem restoreTables_sound (hfits : snapshot.Fits reg)
    (hcs : cs.All (SectionsRestored reg []))
    (hrun : loop restoreTable cs snapshot.tables = (cs', none)) :
    cs'.All (SectionsRestored reg (snapshot.tables.map (·.tableID))) := by
  refine loop_ok_inv (fun done cs => cs.All (SectionsRestored reg (done.map (·.tableID))))
    ?_ hcs hrun
  rintro done data rest cs cs' hl hdone hround
  have hgrow : cs.All (SectionsRestored reg ((done ++ [data]).map (·.tableID))) :=
    hdone.mono fun tid t ht => ⟨ht.filling, ht.schema, fun hnot => ht.empty fun hin =>
      hnot (by simp only [List.map_append, List.mem_append]; exact .inl hin)⟩
  have hnew : data.tableID ∉ done.map (·.tableID) := by
    have hnodup := hfits.sections_nodup
    rw [hl, List.map_append, List.map_cons] at hnodup
    exact fun hin => (List.nodup_append.mp hnodup).2.2 _ hin _ (by simp) rfl
  unfold restoreTable at hround
  cases htable : cs.table data.tableID with
  | none => simp [htable] at hround
  | some table =>
    cases hevent : table.schema.isEvent with
    | true =>
      simp only [htable, hevent, if_true, Prod.mk.injEq, and_true] at hround
      exact hround ▸ hgrow
    | false =>
      simp only [htable, hevent, Bool.false_eq_true, if_false] at hround
      cases hrows : loop restoreRow table data.rows with
      | mk table' err =>
        rw [hrows] at hround
        cases err with
        | some e => simp at hround
        | none =>
          simp only [Option.map_none, Prod.mk.injEq, and_true] at hround
          subst hround
          have ht := hdone data.tableID table htable
          have hmem : data ∈ snapshot.tables := by simp [hl]
          have hroom : table.nextID + data.rows.length ≤ maxUint64 := by
            have := hfits.rows_length data hmem
            rw [(ht.empty hnew).2]
            simp only [maxUint64]
            lia
          obtain ⟨hfill, hschema, -⟩ := restoreRows_sound ht.filling hevent
            (hfits.rows_valid data hmem _ ht.schema) hroom hrows
          refine hgrow.setTable ⟨hfill, by rw [hschema]; exact ht.schema, fun hnot => ?_⟩
          exact absurd (by simp) hnot

/-- A table of the registry once the sequences in `visited` are set. -/
structure SequencesRestored (reg : SchemaRegistry) (snapshot : SnapshotData)
    (visited : Set TableID) (tableID : TableID) (table : Table) : Prop where
  sections : SectionsRestored reg (snapshot.tables.map (·.tableID)) tableID table
  above : tableID ∈ visited → table.schema.isEvent = false → ∀ s, table.sequence = some s →
    ∀ (rid : RowID) (row : ProductValue) v, table.rows[rid]? = some row →
      table.schema.autoValue row = some v → SequenceAbove s v

theorem Table.Filling.setSequenceValue (h : table.Filling) (hnext : 1 ≤ next ∧ next ≤ maxUint64) :
    (table.setSequenceValue next).Filling := by
  refine ⟨⟨?_, h.inv.rowsOK.of_subset rfl fun _ _ hr => hr⟩, h.nextID_pos, h.nextID_le,
    h.rowID_lt, ?_⟩
  · exact h.inv.indexed.withCounters table.nextID Option.isSome_map
  · intro s hs
    obtain ⟨-, -, rfl⟩ := Option.map_eq_some_iff.mp hs
    exact hnext

theorem Table.Filling.setNextID (h : table.Filling) {next : RowID} (hge : table.nextID ≤ next)
    (hle : next ≤ maxUint64) : (table.setNextID next).Filling := by
  refine ⟨⟨?_, h.inv.rowsOK.of_subset rfl fun _ _ hr => hr⟩, h.nextID_pos.trans hge, hle, ?_,
    h.sequence_range⟩
  · exact h.inv.indexed.withCounters next rfl
  · intro rid row hr
    obtain ⟨hpos, hlt⟩ := h.rowID_lt rid row hr
    exact ⟨hpos, hlt.trans_le hge⟩

theorem restoreSequence_cases {tid : TableID}
    (hround : restoreSequence cs (tid, next) = (cs', none)) :
    ∃ table, cs.table tid = some table ∧ (table.schema.isEvent = true ∧ cs' = cs ∨
      cs' = cs.setTable tid (table.setSequenceValue next) ∧
        ∀ minNext ∈ nextSequenceValueForTable table, minNext ≤ next) := by
  revert hround
  fun_cases restoreSequence cs (tid, next) <;> rintro ⟨⟩
  · next table htable hevent => exact ⟨table, htable, .inl ⟨hevent, rfl⟩⟩
  · next table htable _ minNext hmin hge =>
    exact ⟨table, htable, .inr ⟨rfl, by simpa [hmin] using hge⟩⟩
  · next table htable _ hmin => exact ⟨table, htable, .inr ⟨rfl, by simp [hmin]⟩⟩

theorem restoreSequences_sound (hfits : snapshot.Fits reg)
    (hcs : cs.All (SectionsRestored reg (snapshot.tables.map (·.tableID))))
    (hrun : loop restoreSequence cs snapshot.sequences.toList = (cs', none)) :
    cs'.All (SequencesRestored reg snapshot
      {tableID : TableID | snapshot.sequences[tableID]? ≠ none}) := by
  refine loop_entries_ok_inv snapshot.sequences
    (fun visited cs => cs.All (SequencesRestored reg snapshot visited)) ?_
    (hcs.mono fun tid t ht => ⟨ht, fun hin => absurd hin (Set.notMem_empty tid)⟩) hrun
  rintro visited tid next cs cs' hnext hnew hdone hround
  have hrange := hfits.sequence_range tid next hnext
  have hother : ∀ tid' t, tid' ≠ tid → SequencesRestored reg snapshot visited tid' t →
      SequencesRestored reg snapshot (insert tid visited) tid' t :=
    fun tid' t hne ht => ⟨ht.sections, fun hin => ht.above (hin.resolve_left hne)⟩
  obtain ⟨table, htable, ⟨hevent, rfl⟩ | ⟨rfl, hmin⟩⟩ := restoreSequence_cases hround
  · intro tid' t ht'
    by_cases hne : tid' = tid
    · subst hne
      obtain rfl := Option.mem_unique htable ht'
      have ht := hdone tid' table htable
      exact ⟨ht.sections, fun _ hstored => by rw [hevent] at hstored; cases hstored⟩
    · exact hother tid' t hne (hdone tid' t ht')
  · have ht := hdone tid table htable
    intro tid' t ht'
    rw [CommittedState.table_setTable] at ht'
    split at ht'
    · next heq =>
      subst heq
      cases ht'
      refine ⟨⟨ht.sections.filling.setSequenceValue hrange, ht.sections.schema,
        ht.sections.empty⟩, ?_⟩
      rintro - - s hs rid row v hr hv
      obtain ⟨-, -, rfl⟩ := Option.map_eq_some_iff.mp hs
      obtain ⟨c, hc⟩ := Option.isSome_iff_exists.mp (autoIncrementCol_of_autoValue hv)
      have hsome : nextSequenceValueForTable table = some _ :=
        Option.map_eq_some_iff.mpr ⟨c, hc, rfl⟩
      exact sequenceAbove_of_minNext hsome (hmin _ hsome) hrange.2 hr hv
    · next hne => exact hother tid' t (fun heq => hne heq.symm) (hdone tid' t ht')

theorem SequencesRestored.sound (hfits : snapshot.Fits reg) {tableID : TableID}
    (h : SequencesRestored reg snapshot
      {tableID : TableID | snapshot.sequences[tableID]? ≠ none} tableID table) :
    table.Sound := by
  refine h.sections.filling.sound fun s hs rid row v hr hv => ?_
  by_cases hsection : tableID ∈ snapshot.tables.map (·.tableID)
  · obtain ⟨data, hdata, rfl⟩ := List.mem_map.mp hsection
    cases hevent : table.schema.isEvent with
    | true =>
      rw [h.sections.filling.inv.rowsOK.event_empty hevent rid] at hr
      cases hr
    | false =>
      exact h.above (hfits.sequence_present data hdata _ h.sections.schema hevent
        (autoIncrementCol_of_autoValue hv)) hevent s hs rid row v hr hv
  · rw [(h.sections.empty hsection).1] at hr
    simp at hr

theorem restoreNextID_cases {tid : TableID}
    (hround : restoreNextID cs (tid, next) = (cs', none)) :
    cs' = cs ∨ ∃ table, cs.table tid = some table ∧ table.nextID ≤ next ∧
      cs' = cs.setTable tid (table.setNextID next) := by
  revert hround
  fun_cases restoreNextID cs (tid, next) <;> rintro ⟨⟩
  · exact .inl rfl
  · next table htable _ hge => exact .inr ⟨table, htable, le_of_not_gt hge, rfl⟩

theorem restoreNextIDs_sound (hfits : snapshot.Fits reg)
    (hcs : cs.All fun _ table => table.Sound)
    (hrun : loop restoreNextID cs snapshot.nextIDs.toList = (cs', none)) :
    cs'.All fun _ table => table.Sound := by
  refine loop_entries_ok_inv snapshot.nextIDs
    (fun _ cs => cs.All fun _ table => table.Sound) ?_ hcs hrun
  rintro visited tid next cs cs' hnext hnew hdone hround
  obtain rfl | ⟨table, htable, hge, rfl⟩ := restoreNextID_cases hround
  · exact hdone
  · have ht := hdone tid table htable
    refine hdone.setTable ?_
    exact (ht.filling.setNextID hge (hfits.nextID_le tid next hnext)).sound
      ht.counted.sequence_above

theorem restoreNextIDs_schema
    (hcs : cs.All fun tableID table => reg.table tableID = some table.schema)
    (hrun : loop restoreNextID cs snapshot.nextIDs.toList = (cs', none)) :
    cs'.All fun tableID table => reg.table tableID = some table.schema := by
  refine loop_entries_ok_inv snapshot.nextIDs
    (fun _ cs => cs.All fun tableID table => reg.table tableID = some table.schema) ?_ hcs hrun
  rintro visited tid next cs cs' - - hdone hround
  obtain rfl | ⟨table, htable, -, rfl⟩ := restoreNextID_cases hround
  · exact hdone
  · exact hdone.setTable (hdone tid table htable)

theorem restoreSnapshot_inv (hreg : ∀ ts ∈ reg.tables, ts.PrimaryUnique)
    (hfits : snapshot.Fits reg)
    (hrun : restoreSnapshot (.fresh reg) snapshot = (cs', none)) :
    cs'.Inv ∧ cs'.All fun tableID table => reg.table tableID = some table.schema := by
  obtain ⟨cs₁, htables, hrun⟩ := andThen_eq_ok.mp hrun
  obtain ⟨cs₂, hsequences, hrun⟩ := andThen_eq_ok.mp hrun
  have h₁ := restoreTables_sound hfits (fresh_sectionsRestored hreg) htables
  have h₂ := restoreSequences_sound hfits h₁ hsequences
  have h₃ := restoreNextIDs_sound hfits (h₂.mono fun _ _ ht => ht.sound hfits) hrun
  exact ⟨fun tid t ht => ⟨(h₃ tid t ht).inv, (h₃ tid t ht).counted⟩,
    restoreNextIDs_schema (h₂.mono fun _ _ ht => ht.sections.schema) hrun⟩

end

/-! ## After replay -/

theorem Table.Sound.sequenceAbove_maxAutoValue (h : table.Sound) {current : Nat}
    (hcurrent : table.sequence = some current) :
    SequenceAbove current (maxAutoValue table.schema (table.scan.map Prod.snd)) := by
  have hpos : 1 ≤ current := (h.counted.sequence_range current hcurrent).1
  apply List.foldlRecOn
  · exact .inl hpos
  · intro maxSeen hseen row hrow
    obtain ⟨⟨rid, row⟩, hmem, rfl⟩ := List.mem_map.mp hrow
    have hr := Std.ExtTreeMap.mem_toList_iff_getElem?_eq_some.mp hmem
    cases hv : table.schema.autoValue row with
    | none => rwa [Option.getD_none, Nat.max_zero]
    | some v =>
      rw [Option.getD_some]
      rcases max_choice maxSeen v with hmax | hmax <;> rw [hmax]
      · exact hseen
      · exact h.counted.sequence_above current hcurrent rid row v hr hv

/-- The counter of a sound table is already past its rows. -/
theorem advanceRecoveredSequence_eq (h : table.Sound) :
    advanceRecoveredSequence table = table := by
  fun_cases advanceRecoveredSequence table
  case case5 current hcurrent _ minNext hmin hlt =>
    obtain ⟨c, -, rfl⟩ := Option.map_eq_some_iff.mp hmin
    have hle := (h.counted.sequence_range current hcurrent).2
    exact absurd ((sequenceAbove_iff hle).mp (h.sequenceAbove_maxAutoValue hcurrent)) hlt
  all_goals rfl

theorem advanceRecoveredSequences_eq (hcs : cs.Inv) : advanceRecoveredSequences cs = cs := by
  have htables : cs.tables.map (fun _ table => advanceRecoveredSequence table) = cs.tables := by
    apply Std.ExtTreeMap.ext_getElem?
    intro tid
    rw [Std.ExtTreeMap.getElem?_map]
    cases htable : cs.tables[tid]? with
    | none => rfl
    | some table => exact congrArg some (advanceRecoveredSequence_eq (hcs.sound tid table htable))
  rw [advanceRecoveredSequences, htables]

end Shunter
