import Shunter.Store.CommitApply
import Shunter.Store.Recovery

/-!
# Replay into one table

What cloning, replayed deletes and replayed inserts do to a sound table.  Rows
are compared by their class under `ProductValue.equal`, since replay gives them
row identifiers of its own.
-/

namespace Shunter

open Foundation

namespace Table

def Holds (t : Table) (c : List (List (List Int))) : Prop :=
  ∃ (rid : RowID) (r : ProductValue), t.rows[rid]? = some r ∧ r.rowClass = c

/-- The representation invariant together with that of the counters. -/
structure Sound (t : Table) : Prop where
  inv : t.Inv
  counted : t.Counted

/-- The same schema, rows and counters, possibly in other indexes. -/
structure SameContent (t t' : Table) : Prop where
  schema : t'.schema = t.schema
  rows : t'.rows = t.rows
  nextID : t'.nextID = t.nextID
  sequence : t'.sequence = t.sequence

variable {t t' : Table} {row : ProductValue}

theorem Counted.of_subset (h : t.Counted) (hmeta : SameMeta t t')
    (hrows : ∀ (rid : RowID) (r : ProductValue), t'.rows[rid]? = some r → t.rows[rid]? = some r) :
    t'.Counted where
  nextID_pos := hmeta.nextID ▸ h.nextID_pos
  nextID_le := hmeta.nextID ▸ h.nextID_le
  rowID_lt rid r hr := hmeta.nextID ▸ h.rowID_lt rid r (hrows rid r hr)
  sequence_range := hmeta.sequence ▸ h.sequence_range
  sequence_above := by
    rw [hmeta.sequence, hmeta.schema]
    exact fun next hnext rid r v hr => h.sequence_above next hnext rid r v (hrows rid r hr)

theorem SameContent.sound (h : SameContent t t') (hsound : t.Sound) (hind : t'.Indexed) :
    t'.Sound := by
  have hrows : ∀ (rid : RowID) (r : ProductValue), t'.rows[rid]? = some r →
      t.rows[rid]? = some r := fun rid r hr => h.rows ▸ hr
  exact ⟨⟨hind, hsound.inv.rowsOK.of_subset h.schema hrows⟩,
    hsound.counted.of_subset ⟨h.schema, h.nextID, h.sequence⟩ hrows⟩

theorem SameContent.holds (h : SameContent t t') (c : List (List (List Int))) :
    t'.Holds c ↔ t.Holds c := by
  simp only [Holds, h.rows]

theorem holds_of_row {rid : RowID} (h : t.rows[rid]? = some row) : t.Holds row.rowClass :=
  ⟨rid, row, h, rfl⟩

theorem hasConflict_iff_holds :
    t.HasConflict row ↔ ∃ r : ProductValue, t.Holds r.rowClass ∧ t.schema.Conflicts r row := by
  constructor
  · rintro ⟨rid, r, hr, hconf⟩
    exact ⟨r, holds_of_row hr, hconf⟩
  · rintro ⟨r, ⟨rid, r', hr', hclass⟩, hconf⟩
    exact ⟨rid, r', hr', (TableSchema.conflicts_congr hclass rfl).mpr hconf⟩

end Table

variable {table table' : Table} {row : ProductValue}

/-! ## Clones -/

theorem cloneReplayTable_ok (hsound : table.Sound) (hevent : table.schema.isEvent = false) :
    ∃ clone, cloneReplayTable table = .ok clone ∧ table.SameContent clone ∧ clone.Sound := by
  have hinv := hsound.inv
  have hnew := Table.newTable_inv hinv.indexed.primaryUnique
  obtain ⟨hok, hind, hmeta, hrows⟩ := insertRows_ok table.rows hnew.indexed hevent
    (by simp [newTable]) (by simp [newTable])
    (fun rid rid' r r' hr hr' => hinv.rowsOK.conflictFree rid rid' r r' hr hr')
  have hrun : (newTable table.schema).insertRows table.rows =
      loop (fun clone p => clone.insertRow p.1 p.2) (newTable table.schema)
        table.rows.toList := by
    simp [Table.insertRows, newTable, hevent]
  rw [hrun] at hok hind hmeta hrows
  unfold cloneReplayTable
  generalize loop (fun (clone : Table) p => clone.insertRow p.1 p.2) (newTable table.schema)
    table.rows.toList = res at *
  obtain ⟨clone, err⟩ := res
  simp only at hok
  subst hok
  have hcloned : clone.rows = table.rows := by
    apply Std.ExtTreeMap.ext_getElem?
    intro rid
    simpa [newTable] using hrows rid
  have hseq : clone.sequence.isSome = table.sequence.isSome := by
    rw [hind.sequence_isSome, hinv.indexed.sequence_isSome, hmeta.schema]
    rfl
  refine ⟨_, rfl, ?_⟩
  have hcontent : table.SameContent
      (table.sequenceValue.elim (clone.setNextID table.nextID)
        (clone.setNextID table.nextID).setSequenceValue) := by
    unfold Table.sequenceValue
    cases hs : table.sequence with
    | none =>
      rw [hs, Option.isSome_none, Option.isSome_eq_false_iff, Option.isNone_iff_eq_none] at hseq
      exact ⟨hmeta.schema, hcloned, rfl, hseq.trans hs.symm⟩
    | some s =>
      rw [hs, Option.isSome_some] at hseq
      obtain ⟨s', hs'⟩ := Option.isSome_iff_exists.mp hseq
      exact ⟨hmeta.schema, hcloned, rfl, by simp [Table.setSequenceValue, Table.setNextID, hs', hs]⟩
  refine ⟨hcontent, hcontent.sound hsound ?_⟩
  cases table.sequenceValue with
  | none => exact hind.withCounters table.nextID rfl
  | some s => exact hind.withCounters table.nextID Option.isSome_map

/-! ## Deletes -/

variable {rid : RowID}

theorem findReplayDeleteRowID.storesEqual_iff :
    findReplayDeleteRowID.storesEqual table row rid = true ↔
      ∃ r : ProductValue, table.rows[rid]? = some r ∧ r.rowClass = row.rowClass := by
  unfold findReplayDeleteRowID.storesEqual Table.rowView
  cases hr : table.rows[rid]? with
  | none => simp
  | some r => simp [ProductValue.equal_iff]

theorem findReplayDeleteRowID_eq_none (hinv : table.Inv) :
    findReplayDeleteRowID table row = none ↔ ¬ table.Holds row.rowClass := by
  have hind := hinv.indexed
  have hfind : ∀ rids : List RowID,
      (∀ (rid : RowID) (r : ProductValue), table.rows[rid]? = some r →
        r.rowClass = row.rowClass → rid ∈ rids) →
      (rids.find? (findReplayDeleteRowID.storesEqual table row) = none ↔
        ¬ table.Holds row.rowClass) := by
    intro rids hall
    simp only [List.find?_eq_none, findReplayDeleteRowID.storesEqual_iff]
    constructor
    · rintro hno ⟨rid, r, hr, hclass⟩
      exact hno rid (hall rid r hr hclass) ⟨r, hr, hclass⟩
    · rintro hno rid - ⟨r, hr, hclass⟩
      exact hno ⟨rid, r, hr, hclass⟩
  unfold findReplayDeleteRowID
  cases hpk : table.primaryIndex with
  | some pk =>
    have hmem : pk ∈ table.indexes := List.mem_of_find?_eq_some hpk
    refine hfind _ fun rid r hr hclass => ((hind.mirrors pk hmem).mem_rowIDs _ rid).mpr ⟨r, hr, ?_⟩
    rw [IndexKey.compare_eq_iff]
    exact extractKey_congr hclass _
  | none =>
    have hprim := hind.primaryIndex_eq
    rw [hpk, Option.map_none] at hprim
    cases hh : table.rowHashIndex with
    | none =>
      have hsome := hind.hash_none_iff.mp hh
      rw [← hprim] at hsome
      cases hsome
    | some hashes =>
      exact hfind _ fun rid r hr hclass => (HashMirrors.mem_bucket_iff
        (hind.hash_mirrors hashes hh) _ rid).mpr ⟨r, hr, ProductValue.hash64_congr hclass⟩

theorem findReplayDeleteRowID_eq_some (h : findReplayDeleteRowID table row = some rid) :
    ∃ r : ProductValue, table.rows[rid]? = some r ∧ r.rowClass = row.rowClass := by
  unfold findReplayDeleteRowID at h
  split at h
  all_goals exact findReplayDeleteRowID.storesEqual_iff.mp (List.find?_some h)

structure RowDeleted (table table' : Table) (row : ProductValue) : Prop where
  sound : table'.Sound
  sameMeta : SameMeta table table'
  rows : ∃ (rid : RowID) (r : ProductValue), table.rows[rid]? = some r ∧
    r.rowClass = row.rowClass ∧ table'.rows = table.rows.erase rid
  holds : ∀ c, table'.Holds c ↔ table.Holds c ∧ c ≠ row.rowClass

theorem rowDeleted_of_deleteRow (hsound : table.Sound) {r : ProductValue}
    (hr : table.rows[rid]? = some r) (hclass : r.rowClass = row.rowClass) :
    RowDeleted table (table.deleteRow rid).1 row := by
  obtain ⟨-, hrows, -⟩ := Table.deleteRow_some hsound.inv.indexed hr
  have hinv := Table.deleteRow_inv hsound.inv rid
  have hmeta := deleteRow_sameMeta table rid
  generalize (table.deleteRow rid).1 = table' at *
  have hget : ∀ (rid' : RowID) (r' : ProductValue),
      table'.rows[rid']? = some r' ↔ rid ≠ rid' ∧ table.rows[rid']? = some r' := by
    intro rid' r'
    rw [hrows]
    simp only [get_erase]
    split <;> simp_all
  refine ⟨⟨hinv, ?_⟩, hmeta, ⟨rid, r, hr, hclass, hrows⟩, ?_⟩
  · exact hsound.counted.of_subset hmeta fun rid' r' hr' => ((hget rid' r').mp hr').2
  · intro c
    constructor
    · rintro ⟨rid', r', hr', rfl⟩
      obtain ⟨hne, hr'⟩ := (hget rid' r').mp hr'
      refine ⟨Table.holds_of_row hr', fun heq => hne ?_⟩
      exact hsound.inv.rowID_unique hr hr' (hclass.trans heq.symm)
    · rintro ⟨⟨rid', r', hr', rfl⟩, hne⟩
      refine ⟨rid', r', (hget rid' r').mpr ⟨?_, hr'⟩, rfl⟩
      rintro rfl
      rw [hr, Option.some.injEq] at hr'
      exact hne (hr' ▸ hclass)

theorem replayDelete_ok (hsound : table.Sound) (hholds : table.Holds row.rowClass) :
    ∃ table', replayDelete table row = (table', none) ∧ RowDeleted table table' row := by
  unfold replayDelete
  cases hfind : findReplayDeleteRowID table row with
  | none => exact absurd hholds ((findReplayDeleteRowID_eq_none hsound.inv).mp hfind)
  | some rid =>
    obtain ⟨r, hr, hclass⟩ := findReplayDeleteRowID_eq_some hfind
    have hres : table.deleteRow rid = ((table.deleteRow rid).1, some r) :=
      Prod.ext rfl (Table.deleteRow_some hsound.inv.indexed hr).1
    dsimp only
    exact ⟨_, by rw [hres], rowDeleted_of_deleteRow hsound hr hclass⟩

theorem replayDelete_error (hsound : table.Sound) (hno : ¬ table.Holds row.rowClass) :
    replayDelete table row = (table, some (.replayRowNotFound table.schema.name)) := by
  simp [replayDelete, (findReplayDeleteRowID_eq_none hsound.inv).mpr hno]

/-! ## Inserts -/

def TableSchema.replaySequence (ts : TableSchema) (row : ProductValue) (current : Nat) : Nat :=
  match ts.autoValue row with
  | none => current
  | some v => max current (nextAutoIncrementSequenceValue v)

theorem advanceReplaySequenceForInsert_eq (hsound : table.Sound) (row : ProductValue) :
    advanceReplaySequenceForInsert table row =
      { table with sequence := table.sequence.map (table.schema.replaySequence row) } := by
  have hcol := hsound.inv.indexed.sequenceCol_eq
  have hseq := hsound.inv.indexed.sequence_isSome
  have hpos := fun next hnext => (hsound.counted.sequence_range next hnext).1
  obtain ⟨ts, rows, nextID, indexes, hashes, sequence, sequenceCol⟩ := table
  simp only at hcol hseq hpos
  subst hcol
  unfold advanceReplaySequenceForInsert
  cases sequence with
  | none => rfl
  | some current =>
    rw [Option.isSome_some] at hseq
    obtain ⟨c, hc⟩ := Option.isSome_iff_exists.mp hseq.symm
    have hauto : ((ts.columns[c]?).bind fun col =>
        valueAsUint64 (row.getD c ⟨.bool, some false⟩) col.type) = ts.autoValue row := by
      simp only [TableSchema.autoValue, hc]
      cases ts.columns[c]? <;> rfl
    simp only [hc, hauto, Option.map_some, TableSchema.replaySequence]
    cases ts.autoValue row with
    | none => rfl
    | some v =>
      have hcurrent := hpos current rfl
      dsimp only
      split
      · next hadv => rw [Nat.max_eq_right hadv.2.le]
      · next hkeep => rw [Nat.max_eq_left (by omega)]

structure RowReplayed (table table' : Table) (row : ProductValue) : Prop where
  sound : table'.Sound
  schema : table'.schema = table.schema
  nextID : table'.nextID = table.nextID + 1
  sequence : table'.sequence = table.sequence.map (table.schema.replaySequence row)
  rows : table'.rows = table.rows.insert table.nextID row
  holds : ∀ c, table'.Holds c ↔ table.Holds c ∨ c = row.rowClass

theorem TableSchema.le_replaySequence (ts : TableSchema) (row : ProductValue) (current : Nat) :
    current ≤ ts.replaySequence row current := by
  unfold replaySequence
  split
  · exact le_rfl
  · exact le_max_left _ _

variable {current : Nat}

theorem TableSchema.replaySequence_le {ts : TableSchema} {bound : Nat} (hle : current ≤ bound)
    (hbound : bound ≤ maxUint64)
    (habove : ∀ v, ts.autoValue row = some v → SequenceAbove bound v) :
    ts.replaySequence row current ≤ bound := by
  unfold replaySequence
  split
  · exact hle
  · next v hv => exact max_le hle ((sequenceAbove_iff hbound).mp (habove v hv))

theorem TableSchema.replaySequence_le_max {ts : TableSchema} (hcurrent : current ≤ maxUint64) :
    ts.replaySequence row current ≤ maxUint64 := by
  refine replaySequence_le hcurrent le_rfl fun v hv => ?_
  have hle := autoValue_le hv
  unfold SequenceAbove
  omega

theorem TableSchema.replaySequence_above {ts : TableSchema} {v : Nat}
    (hcurrent : current ≤ maxUint64) (hv : ts.autoValue row = some v) :
    SequenceAbove (ts.replaySequence row current) v := by
  refine (sequenceAbove_iff (replaySequence_le_max hcurrent)).mpr ?_
  simp only [replaySequence, hv]
  exact le_max_right _ _

/-- A row took the next identifier, and the sequence was set. -/
structure RowAdded (table table' : Table) (row : ProductValue) (seq : Option Nat) : Prop where
  inv : table'.Inv
  schema : table'.schema = table.schema
  nextID : table'.nextID = table.nextID + 1
  sequence : table'.sequence = seq
  rows : table'.rows = table.rows.insert table.nextID row
  get : ∀ (rid : RowID) (r : ProductValue), table'.rows[rid]? = some r ↔
    (rid = table.nextID ∧ r = row) ∨ table.rows[rid]? = some r

theorem insertRow_added {seq : Option Nat} (hinv : table.Inv)
    (hlt : ∀ (rid : RowID) (r : ProductValue), table.rows[rid]? = some r →
      1 ≤ rid ∧ rid < table.nextID)
    (hevent : table.schema.isEvent = false) (hvalid : validateRow table.schema row = none)
    (hno : ¬ table.HasConflict row) (hseq : seq.isSome = table.sequence.isSome) :
    ∃ table', Table.insertRow { table with nextID := table.nextID + 1, sequence := seq }
        table.nextID row = (table', none) ∧ RowAdded table table' row seq := by
  have hfree : table.rows[table.nextID]? = none := by
    cases hr : table.rows[table.nextID]? with
    | none => rfl
    | some r => exact absurd (hlt _ r hr).2 (lt_irrefl _)
  obtain ⟨hok, hrows, hind⟩ :=
    Table.insertRow_ok (hinv.indexed.withCounters (table.nextID + 1) hseq) hfree hno
  obtain ⟨hschema, hid, hseq⟩ := insertRow_sameMeta
    { table with nextID := table.nextID + 1, sequence := seq } table.nextID row
  refine ⟨_, Prod.ext rfl hok, ⟨hind, ?_⟩, hschema, hid, hseq, hrows, fun rid r => ?_⟩
  · exact hinv.rowsOK.of_insert hschema hrows hvalid hevent hno
  · rw [hrows, Std.ExtTreeMap.getElem?_insert]
    grind

theorem add_one_wrap {nextID : RowID} (hnext : nextID < maxUint64) :
    (nextID + 1) % 2 ^ 64 = nextID + 1 := by
  apply Nat.mod_eq_of_lt
  simp only [maxUint64] at hnext
  lia

/-- The counters stay sound when a row takes the next identifier and the sequence passes it. -/
theorem Table.Counted.of_rowAdded {seq : Option Nat} (h : table.Counted)
    (hadded : RowAdded table table' row seq) (hnext : table.nextID < maxUint64)
    (hseq : ∀ next, seq = some next → ∃ s, table.sequence = some s ∧ s ≤ next ∧
      next ≤ maxUint64 ∧ ∀ v, table.schema.autoValue row = some v → SequenceAbove next v) :
    table'.Counted := by
  have hpos := h.nextID_pos
  have hid := hadded.nextID
  refine ⟨by lia, by lia, ?_, ?_, ?_⟩
  · intro rid r hr
    rcases (hadded.get rid r).mp hr with ⟨rfl, -⟩ | hr
    · lia
    · have := h.rowID_lt rid r hr
      lia
  · rw [hadded.sequence]
    intro next hs
    obtain ⟨s, hs₀, hle, hmax, -⟩ := hseq next hs
    have := h.sequence_range s hs₀
    omega
  · rw [hadded.sequence, hadded.schema]
    intro next hs rid r v hr hv
    obtain ⟨s, hs₀, hle, hmax, habove⟩ := hseq next hs
    rcases (hadded.get rid r).mp hr with ⟨-, rfl⟩ | hr
    · exact habove v hv
    · exact (h.sequence_above s hs₀ rid r v hr hv).mono hle hmax

section

variable (hsound : table.Sound)
include hsound

theorem replayInsert_eq (hvalid : validateRow table.schema row = none)
    (havail : Transaction.checkRowIDAvailable table = none) :
    replayInsert table row =
      Table.insertRow { table with
        nextID := (table.nextID + 1) % 2 ^ 64
        sequence := table.sequence.map (table.schema.replaySequence row) } table.nextID row := by
  have havail' : Transaction.checkRowIDAvailable { table with
      sequence := table.sequence.map (table.schema.replaySequence row) } = none := havail
  simp only [replayInsert, hvalid, havail, advanceReplaySequenceForInsert_eq hsound,
    Table.allocRowIDForInsert, havail', Table.allocRowID]

theorem replayInsert_ok (hevent : table.schema.isEvent = false)
    (hvalid : validateRow table.schema row = none) (hnext : table.nextID < maxUint64)
    (hno : ¬ table.HasConflict row) :
    ∃ table', replayInsert table row = (table', none) ∧ RowReplayed table table' row := by
  have hcount := hsound.counted
  have havail : Transaction.checkRowIDAvailable table = none := by
    have := hcount.nextID_pos
    unfold Transaction.checkRowIDAvailable Transaction.checkRowIDValueAvailable
    rw [if_neg]
    lia
  obtain ⟨table', hrun, hadded⟩ := insertRow_added hsound.inv hcount.rowID_lt hevent hvalid hno
    (Option.isSome_map (f := table.schema.replaySequence row))
  refine ⟨table', ?_, ⟨hadded.inv, ?_⟩, hadded.schema, hadded.nextID, hadded.sequence,
    hadded.rows, fun c => ?_⟩
  · rw [replayInsert_eq hsound hvalid havail, add_one_wrap hnext, hrun]
  · refine hcount.of_rowAdded hadded hnext fun next hs => ?_
    obtain ⟨s, hs₀, rfl⟩ := Option.map_eq_some_iff.mp hs
    obtain ⟨hpos, hmax⟩ := hcount.sequence_range s hs₀
    refine ⟨s, hs₀, table.schema.le_replaySequence row s, ?_, ?_⟩
    · exact TableSchema.replaySequence_le_max hmax
    · exact fun v hv => (TableSchema.replaySequence_above hmax hv)
  · simp only [Table.Holds, hadded.get]
    constructor
    · rintro ⟨rid, r, ⟨-, rfl⟩ | hr, rfl⟩
      · exact .inr rfl
      · exact .inl ⟨rid, r, hr, rfl⟩
    · rintro (⟨rid, r, hr, rfl⟩ | rfl)
      · exact ⟨rid, r, .inr hr, rfl⟩
      · exact ⟨table.nextID, row, .inl ⟨rfl, rfl⟩, rfl⟩

theorem replayInsert_accepts (h : replayInsert table row = (table', none)) :
    validateRow table.schema row = none ∧ table.nextID < maxUint64 ∧ ¬ table.HasConflict row := by
  have hcount := hsound.counted
  cases hvalid : validateRow table.schema row with
  | some e => simp [replayInsert, hvalid] at h
  | none =>
    cases havail : Transaction.checkRowIDAvailable table with
    | some e => simp [replayInsert, hvalid, havail] at h
    | none =>
      have hnext : table.nextID < maxUint64 := by
        refine lt_of_le_of_ne hcount.nextID_le fun heq => ?_
        simp [Transaction.checkRowIDAvailable, Transaction.checkRowIDValueAvailable,
          heq] at havail
      refine ⟨rfl, hnext, fun hconf => ?_⟩
      -- only the row itself is left to fail
      obtain ⟨e, he⟩ : ∃ e, (replayInsert table row).2 = some e := by
        rw [replayInsert_eq hsound hvalid havail]
        exact (Table.insertRow_error (hsound.inv.indexed.withCounters _ Option.isSome_map)
          (.inr hconf)).1
      rw [h] at he
      cases he

theorem rowReplayed_of_replayInsert (hevent : table.schema.isEvent = false)
    (h : replayInsert table row = (table', none)) : RowReplayed table table' row := by
  obtain ⟨hvalid, hnext, hno⟩ := replayInsert_accepts hsound h
  obtain ⟨table₁, hrun, hreplayed⟩ := replayInsert_ok hsound hevent hvalid hnext hno
  rw [h] at hrun
  cases hrun
  exact hreplayed

end

/-! ## Deletes, then inserts -/

/-- Two sound tables of one schema with the same content. -/
structure Twins (ts : TableSchema) (table clone : Table) : Prop where
  content : table.SameContent clone
  sound : table.Sound
  clone_sound : clone.Sound
  schema : table.schema = ts

variable {ts : TableSchema} {clone : Table}

theorem Twins.refl (h : table.Sound) : Twins table.schema table table :=
  ⟨⟨rfl, rfl, rfl, rfl⟩, h, h, rfl⟩

theorem Twins.symm (h : Twins ts table clone) : Twins ts clone table :=
  ⟨⟨h.content.schema.symm, h.content.rows.symm, h.content.nextID.symm, h.content.sequence.symm⟩,
    h.clone_sound, h.sound, h.content.schema.trans h.schema⟩

theorem Twins.trans {table₂ : Table} (h : Twins ts table clone) (h' : Twins ts clone table₂) :
    Twins ts table table₂ :=
  ⟨⟨h'.content.schema.trans h.content.schema, h'.content.rows.trans h.content.rows,
    h'.content.nextID.trans h.content.nextID, h'.content.sequence.trans h.content.sequence⟩,
    h.sound, h'.clone_sound, h.schema⟩

theorem replayDelete_twins (row : ProductValue) (h : Twins ts table clone)
    (hrun : replayDelete table row = (table', none)) :
    ∃ clone', replayDelete clone row = (clone', none) ∧ Twins ts table' clone' := by
  by_cases hholds : table.Holds row.rowClass
  · obtain ⟨table₁, hrun₁, hdel⟩ := replayDelete_ok h.sound hholds
    rw [hrun] at hrun₁
    cases hrun₁
    obtain ⟨clone', hclone, hdel'⟩ :=
      replayDelete_ok h.clone_sound ((h.content.holds _).mpr hholds)
    refine ⟨clone', hclone, ⟨?_, ?_, ?_, ?_⟩, hdel.sound, hdel'.sound, ?_⟩
    · rw [hdel'.sameMeta.schema, h.content.schema, hdel.sameMeta.schema]
    · obtain ⟨rid, r, hr, hclass, hrows⟩ := hdel.rows
      obtain ⟨rid', r', hr', hclass', hrows'⟩ := hdel'.rows
      rw [h.content.rows] at hr' hrows'
      obtain rfl := h.sound.inv.rowID_unique hr hr' (hclass.trans hclass'.symm)
      rw [hrows, hrows']
    · rw [hdel'.sameMeta.nextID, h.content.nextID, hdel.sameMeta.nextID]
    · rw [hdel'.sameMeta.sequence, h.content.sequence, hdel.sameMeta.sequence]
    · rw [hdel.sameMeta.schema, h.schema]
  · rw [replayDelete_error h.sound hholds] at hrun
    cases hrun

theorem replayInsert_twins (hevent : ts.isEvent = false) (row : ProductValue)
    (h : Twins ts table clone) (hrun : replayInsert table row = (table', none)) :
    ∃ clone', replayInsert clone row = (clone', none) ∧ Twins ts table' clone' := by
  obtain ⟨hvalid, hnext, hno⟩ := replayInsert_accepts h.sound hrun
  obtain ⟨hschema, hrows, hnextID, hsequence⟩ := h.content
  rw [← h.schema] at hevent
  have hins := rowReplayed_of_replayInsert h.sound hevent hrun
  obtain ⟨clone', hclone, hins'⟩ := replayInsert_ok h.clone_sound (by rw [hschema, hevent])
    (by rw [hschema, hvalid]) (by rwa [hnextID])
    (by rwa [Table.HasConflict, hschema, hrows])
  refine ⟨clone', hclone, ⟨?_, ?_, ?_, ?_⟩, hins.sound, hins'.sound, ?_⟩
  · rw [hins'.schema, hschema, hins.schema]
  · rw [hins'.rows, hrows, hnextID, hins.rows]
  · rw [hins'.nextID, hnextID, hins.nextID]
  · rw [hins'.sequence, hsequence, hschema, hins.sequence]
  · rw [hins.schema, h.schema]

theorem applyChangesetToTable_twins {tc : TableChangeset} (hevent : ts.isEvent = false)
    (h : Twins ts table clone) (hrun : applyChangesetToTable table tc = (table', none)) :
    ∃ clone', applyChangesetToTable clone tc = (clone', none) ∧ Twins ts table' clone' := by
  unfold applyChangesetToTable at hrun ⊢
  cases hdels : loop replayDelete table tc.deletes with
  | mk table₁ err =>
    rw [hdels] at hrun
    cases err with
    | some e => cases hrun
    | none =>
      obtain ⟨clone₁, hclone, h₁⟩ :=
        loop_simulates (Twins ts) (fun _ _ row _ => replayDelete_twins row) h hdels
      rw [hclone]
      exact loop_simulates (Twins ts) (fun _ _ row _ => replayInsert_twins hevent row) h₁ hrun

structure Replayable (table : Table) (inserts deletes : List ProductValue) : Prop where
  deletes_held : ∀ r ∈ deletes, table.Holds r.rowClass
  deletes_once : deletes.Pairwise fun r r' => r.rowClass ≠ r'.rowClass
  inserts_valid : ∀ r ∈ inserts, validateRow table.schema r = none
  inserts_free : ∀ r ∈ inserts, ∀ s : ProductValue, table.Holds s.rowClass →
    s.rowClass ∉ deletes.map ProductValue.rowClass → ¬ table.schema.Conflicts s r
  inserts_apart : inserts.Pairwise fun r r' => ¬ table.schema.Conflicts r r'
  room : table.nextID + inserts.length ≤ maxUint64

def TableSchema.replaySequences (ts : TableSchema) (rows : List ProductValue) (s : Nat) : Nat :=
  rows.foldl (fun s row => ts.replaySequence row s) s

structure Replayed (table table' : Table) (inserts deletes : List ProductValue) : Prop where
  sound : table'.Sound
  schema : table'.schema = table.schema
  nextID : table'.nextID = table.nextID + inserts.length
  sequence : table'.sequence = table.sequence.map (table.schema.replaySequences inserts)
  holds : ∀ c, table'.Holds c ↔
    (table.Holds c ∧ c ∉ deletes.map ProductValue.rowClass) ∨
      c ∈ inserts.map ProductValue.rowClass

private theorem replayDeletes_ok {rows : List ProductValue} (hsound : table.Sound)
    (hheld : ∀ r ∈ rows, table.Holds r.rowClass)
    (honce : rows.Pairwise fun r r' => r.rowClass ≠ r'.rowClass) :
    ∃ table', loop replayDelete table rows = (table', none) ∧ table'.Sound ∧
      SameMeta table table' ∧
      ∀ c, table'.Holds c ↔ table.Holds c ∧ c ∉ rows.map ProductValue.rowClass := by
  refine loop_total replayDelete
    (fun done s => s.Sound ∧ SameMeta table s ∧
      ∀ c, s.Holds c ↔ table.Holds c ∧ c ∉ done.map ProductValue.rowClass)
    rows ?_ ⟨hsound, .refl table, by simp⟩
  rintro done row rest s hl ⟨hs, hmeta, hholds⟩
  rw [hl, List.pairwise_append] at honce
  have hnew : row.rowClass ∉ done.map ProductValue.rowClass := by
    rintro hin
    obtain ⟨r, hr, heq⟩ := List.mem_map.mp hin
    exact honce.2.2 r hr row (by simp) heq
  obtain ⟨s', hrun, hdel⟩ := replayDelete_ok hs
    ((hholds row.rowClass).mpr ⟨hheld row (by simp [hl]), hnew⟩)
  refine ⟨s', hrun, hdel.sound, hmeta.trans hdel.sameMeta, fun c => ?_⟩
  rw [hdel.holds, hholds, List.map_append, List.mem_append, not_or, List.map_singleton,
    List.mem_singleton, and_assoc]

private theorem replayInserts_ok (rows : List ProductValue) (hsound : table.Sound)
    (hevent : table.schema.isEvent = false)
    (hvalid : ∀ r ∈ rows, validateRow table.schema r = none)
    (hfree : ∀ r ∈ rows, ¬ table.HasConflict r)
    (hapart : rows.Pairwise fun r r' => ¬ table.schema.Conflicts r r')
    (hroom : table.nextID + rows.length ≤ maxUint64) :
    ∃ table', loop replayInsert table rows = (table', none) ∧ table'.Sound ∧
      table'.schema = table.schema ∧ table'.nextID = table.nextID + rows.length ∧
      table'.sequence = table.sequence.map (table.schema.replaySequences rows) ∧
      ∀ c, table'.Holds c ↔ table.Holds c ∨ c ∈ rows.map ProductValue.rowClass := by
  refine loop_total replayInsert
    (fun done s => s.Sound ∧ s.schema = table.schema ∧
      s.nextID = table.nextID + done.length ∧
      s.sequence = table.sequence.map (table.schema.replaySequences done) ∧
      ∀ c, s.Holds c ↔ table.Holds c ∨ c ∈ done.map ProductValue.rowClass)
    rows ?_ ⟨hsound, rfl, rfl, ?_, by simp⟩
  swap
  · change _ = table.sequence.map id
    simp
  rintro done row rest s hl ⟨hs, hschema, hnext, hseq, hholds⟩
  have hlt : s.nextID < maxUint64 := by
    have hlen : rows.length = done.length + (rest.length + 1) := by simp [hl]
    lia
  have hno : ¬ s.HasConflict row := by
    rw [Table.hasConflict_iff_holds, hschema]
    rintro ⟨r, hr, hconf⟩
    rcases (hholds r.rowClass).mp hr with hr | hin
    · exact hfree row (by simp [hl]) (Table.hasConflict_iff_holds.mpr ⟨r, hr, hconf⟩)
    · obtain ⟨r', hr', heq⟩ := List.mem_map.mp hin
      rw [hl, List.pairwise_append] at hapart
      exact hapart.2.2 r' hr' row (by simp) ((TableSchema.conflicts_congr heq rfl).mpr hconf)
  obtain ⟨s', hrun, hins⟩ := replayInsert_ok hs (by rw [hschema, hevent])
    (by rw [hschema]; exact hvalid row (by simp [hl])) hlt hno
  refine ⟨s', hrun, hins.sound, hins.schema.trans hschema, ?_, ?_, fun c => ?_⟩
  · rw [hins.nextID, hnext, List.length_append, List.length_singleton, add_assoc]
  · rw [hins.sequence, hseq, hschema, Option.map_map]
    congr 1
    funext n
    simp [TableSchema.replaySequences]
  · rw [hins.holds, hholds, List.map_append, List.mem_append, List.map_singleton,
      List.mem_singleton, or_assoc]

theorem applyChangesetToTable_ok {tc : TableChangeset} (hsound : table.Sound)
    (hevent : table.schema.isEvent = false) (h : Replayable table tc.inserts tc.deletes) :
    ∃ table', applyChangesetToTable table tc = (table', none) ∧
      Replayed table table' tc.inserts tc.deletes := by
  obtain ⟨table₁, hdels, hsound₁, hmeta, hholds₁⟩ :=
    replayDeletes_ok hsound h.deletes_held h.deletes_once
  obtain ⟨table₂, hins, hsound₂, hschema, hnext, hseq, hholds₂⟩ :=
    replayInserts_ok tc.inserts hsound₁ (by rw [hmeta.schema, hevent])
      (by rw [hmeta.schema]; exact h.inserts_valid)
      (by
        intro r hr
        rw [Table.hasConflict_iff_holds, hmeta.schema]
        rintro ⟨s, hs, hconf⟩
        obtain ⟨hs, hkept⟩ := (hholds₁ _).mp hs
        exact h.inserts_free r hr s hs hkept hconf)
      (by rw [hmeta.schema]; exact h.inserts_apart)
      (by rw [hmeta.nextID]; exact h.room)
  refine ⟨table₂, ?_, hsound₂, hschema.trans hmeta.schema, ?_, ?_, fun c => ?_⟩
  · simp [applyChangesetToTable, hdels, andThen, hins]
  · rw [hnext, hmeta.nextID]
  · rw [hseq, hmeta.sequence, hmeta.schema]
  · rw [hholds₂, hholds₁]

theorem Replayed.nil (hsound : table.Sound) : Replayed table table [] [] :=
  ⟨hsound, rfl, rfl, by
    change _ = table.sequence.map id
    simp, by simp⟩

theorem Replayed.of_twins {inserts deletes : List ProductValue}
    (h : Replayed table table' inserts deletes) (htwins : Twins table.schema table' clone) :
    Replayed table clone inserts deletes := by
  obtain ⟨hcontent, -, hsound, -⟩ := htwins
  refine ⟨hsound, hcontent.schema.trans h.schema, ?_, ?_, fun c => ?_⟩
  · rw [hcontent.nextID, h.nextID]
  · rw [hcontent.sequence, h.sequence]
  · rw [hcontent.holds, h.holds]

end Shunter
