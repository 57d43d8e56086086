import Shunter.Store.CommitChangeset
import Shunter.Store.RecoveryReplay

/-!
# Replay into a state

Applying one changeset, and a batch of changesets seen as one state: a batch
over a committed state stands for the state that committing it would publish.
-/

namespace Shunter

open Foundation

namespace CommittedState

/-- The state with the staged tables in place of the committed ones. -/
def overlay (cs : CommittedState) (staged : GoMap TableID Table) (tableID : TableID) :
    Option Table :=
  (staged[tableID]?).or (cs.table tableID)

variable {cs cs' : CommittedState} {staged : GoMap TableID Table} {tableID : TableID}

theorem publish_ok (cs : CommittedState) (staged : GoMap TableID Table)
    (h : ∀ tableID : TableID, staged[tableID]? ≠ none → cs.table tableID ≠ none) :
    (cs.publish staged).2 = none ∧
      (cs.publish staged).1.committedTxID = cs.committedTxID ∧
      ∀ tableID, (cs.publish staged).1.table tableID = cs.overlay staged tableID := by
  obtain ⟨hok, hpassed⟩ := forTables_ok cs staged (fun stagedTable _ => (stagedTable, none))
    (by
      intro tid st hst
      obtain ⟨table, htable⟩ := Option.ne_none_iff_exists'.mp (h tid (by simp [hst]))
      exact ⟨table, htable, rfl⟩)
  refine ⟨hok, hpassed.horizon, fun tid => ?_⟩
  unfold overlay publish
  cases hst : staged[tid]? with
  | none => rw [hpassed.other tid hst, Option.none_or]
  | some st =>
    obtain ⟨table, htable⟩ := Option.ne_none_iff_exists'.mp (h tid (by simp [hst]))
    rw [hpassed.entry tid st table hst htable, Option.some_or]

end CommittedState

variable {cs cs' : CommittedState} {table : Table}

/-! ## What a staging round leaves behind -/

/--
Staged tables belong to stored tables of the state, are sound, and keep the
schema.  This is all a failed or partial replay guarantees.
-/
structure StagedSound (cs : CommittedState) (staged : GoMap TableID Table) : Prop where
  table : ∀ (tableID : TableID) (st : Table), staged[tableID]? = some st → ∃ table,
    cs.table tableID = some table ∧ table.schema.isEvent = false ∧
      st.Sound ∧ st.schema = table.schema

theorem StagedSound.empty (cs : CommittedState) : StagedSound cs ∅ := ⟨by simp⟩

variable {staged : GoMap TableID Table} {tableID : TableID}

theorem StagedSound.known (h : StagedSound cs staged) (hst : staged[tableID]? ≠ none) :
    cs.table tableID ≠ none := by
  obtain ⟨st, hst⟩ := Option.ne_none_iff_exists'.mp hst
  obtain ⟨table, htable, -⟩ := h.table tableID st hst
  simp [htable]

/-- The states have the same tables with the same schemas. -/
def CommittedState.SameSchemas (cs cs' : CommittedState) : Prop :=
  ∀ tableID, (cs'.table tableID).map (·.schema) = (cs.table tableID).map (·.schema)

theorem StagedSound.publish_inv (h : StagedSound cs staged) (hcs : cs.Inv) :
    (cs.publish staged).1.Inv ∧ cs.SameSchemas (cs.publish staged).1 := by
  obtain ⟨-, -, htables⟩ := cs.publish_ok staged fun _ => h.known
  constructor
  · intro tid table htable
    rw [htables] at htable
    rcases Option.or_eq_some_iff.mp htable with hst | ⟨-, htable⟩
    · obtain ⟨-, -, -, hsound, -⟩ := h.table tid table hst
      exact ⟨hsound.inv, hsound.counted⟩
    · exact hcs tid table htable
  · intro tid
    rw [htables, CommittedState.overlay]
    cases hst : staged[tid]? with
    | none => rw [Option.none_or]
    | some st =>
      obtain ⟨table, htable, -, -, hschema⟩ := h.table tid st hst
      rw [Option.some_or, htable, Option.map_some, Option.map_some, hschema]

theorem StagedSound.base (h : StagedSound cs staged)
    (htable : cs.overlay staged tableID = some table) :
    ∃ base, cs.table tableID = some base ∧ base.schema = table.schema := by
  rcases Option.or_eq_some_iff.mp htable with hst | ⟨-, htable⟩
  · obtain ⟨base, hbase, -, -, hschema⟩ := h.table tableID table hst
    exact ⟨base, hbase, hschema.symm⟩
  · exact ⟨table, htable, rfl⟩

/-! ## One round -/

/-- The tables of one changeset, in the order in which they are visited. -/
abbrev Entries := List (TableID × TableChangeset)

/-- The table that a round starts from: the staged one, a clone, or none for an event table. -/
def startTable (cs : CommittedState) (tableID : TableID) :
    Option Table → Except StoreError (Option Table)
  | some st => .ok (some st)
  | none =>
    match cs.table tableID with
    | none => .error (.tableNotFound tableID)
    | some table =>
      if table.schema.isEvent then .ok none else (cloneReplayTable table).map some

/-- A round without an error takes the staged entry of its table from `current` to `next`. -/
inductive StagedBy (cs : CommittedState) (e : TableID × TableChangeset) (current : Option Table) :
    Option Table → Prop
  | skipped (h : startTable cs e.1 current = .ok none) : StagedBy cs e current current
  | replayed {st st' : Table} (h : startTable cs e.1 current = .ok (some st))
    (hrun : applyChangesetToTable st e.2 = (st', none)) : StagedBy cs e current (some st')

theorem StagedSound.start (h : StagedSound cs staged) (hcs : cs.Inv)
    (htable : cs.overlay staged tableID = some table) : table.Sound ∧
    (table.schema.isEvent = true ∧ staged[tableID]? = none ∧
        startTable cs tableID staged[tableID]? = .ok none ∨
      ∃ st, table.schema.isEvent = false ∧
        startTable cs tableID staged[tableID]? = .ok (some st) ∧ Twins table.schema table st) := by
  rcases Option.or_eq_some_iff.mp htable with hst | ⟨hst, htable⟩
  · obtain ⟨base, -, hevent, hsound, hschema⟩ := h.table tableID table hst
    exact ⟨hsound, .inr ⟨table, by rw [hschema, hevent], by rw [hst]; rfl, .refl hsound⟩⟩
  · obtain ⟨hinv, hcount⟩ := hcs tableID table htable
    have hsound : table.Sound := ⟨hinv, hcount⟩
    refine ⟨hsound, ?_⟩
    rw [hst]
    cases hevent : table.schema.isEvent with
    | true => exact .inl ⟨rfl, rfl, by simp [startTable, htable, hevent]⟩
    | false =>
      obtain ⟨clone, hclone, hcontent, hclone_sound⟩ := cloneReplayTable_ok hsound hevent
      refine .inr ⟨clone, rfl, ?_, hcontent, hsound, hclone_sound, rfl⟩
      simp [startTable, htable, hevent, hclone, Except.map]

theorem overlay_of_start {st : Option Table}
    (h : startTable cs tableID staged[tableID]? = .ok st) :
    ∃ table, cs.overlay staged tableID = some table := by
  unfold CommittedState.overlay
  cases hst : staged[tableID]? with
  | some st => exact ⟨st, rfl⟩
  | none =>
    cases htable : cs.table tableID with
    | some table => exact ⟨table, rfl⟩
    | none => simp [startTable, hst, htable] at h

/-- What a round does to the table that is shown: nothing to an event table. -/
structure EntryApplied (table : Table) (tc : TableChangeset) (table' : Table) : Prop where
  event : table.schema.isEvent = true → table' = table
  stored : table.schema.isEvent = false →
    ∃ u, applyChangesetToTable table tc = (u, none) ∧ Twins table.schema u table'

variable {e : TableID × TableChangeset}

theorem StagedBy.applied {next : Option Table} (hcs : cs.Inv) (hstaged : StagedSound cs staged)
    (h : StagedBy cs e staged[e.1]? next) :
    ∃ table table', cs.overlay staged e.1 = some table ∧ next.or (cs.table e.1) = some table' ∧
      EntryApplied table e.2 table' ∧ table.Sound ∧
      (next = staged[e.1]? ∨ next = some table' ∧ table.schema.isEvent = false) := by
  cases h with
  | skipped hstart =>
    obtain ⟨table, htable⟩ := overlay_of_start hstart
    obtain ⟨hsound, ⟨hevent, -⟩ | ⟨st, -, hsome, -⟩⟩ := hstaged.start hcs htable
    · exact ⟨table, table, htable, htable, ⟨fun _ => rfl, by simp [hevent]⟩, hsound, .inl rfl⟩
    · rw [hstart] at hsome
      cases hsome
  | @replayed st st' hstart hrun =>
    obtain ⟨table, htable⟩ := overlay_of_start hstart
    obtain ⟨hsound, ⟨-, -, hnone⟩ | ⟨st₁, hevent, hsome, htwins⟩⟩ := hstaged.start hcs htable
    · rw [hstart] at hnone
      cases hnone
    · rw [hstart] at hsome
      cases hsome
      obtain ⟨u, hu, htwins'⟩ := applyChangesetToTable_twins hevent htwins.symm hrun
      exact ⟨table, st', htable, rfl, ⟨by simp [hevent], fun _ => ⟨u, hu, htwins'.symm⟩⟩, hsound,
        .inr ⟨rfl, hevent⟩⟩

theorem StagedSound.round (hstaged : StagedSound cs staged) (hcs : cs.Inv)
    (htable : cs.overlay staged e.1 = some table)
    (h : table.schema.isEvent = false → ∃ u, applyChangesetToTable table e.2 = (u, none)) :
    ∃ next, StagedBy cs e staged[e.1]? next := by
  obtain ⟨-, ⟨-, -, hstart⟩ | ⟨st, hevent, hstart, htwins⟩⟩ := hstaged.start hcs htable
  · exact ⟨_, .skipped hstart⟩
  · obtain ⟨u, hu⟩ := h hevent
    obtain ⟨st', hrun, -⟩ := applyChangesetToTable_twins hevent htwins hu
    exact ⟨_, .replayed hstart hrun⟩

/-! ## The rounds of an operation -/

/-- What the rounds expect of the state and of the entry of their table, and what they do. -/
structure Rounds {σ : Type} (cs : CommittedState) (stagedOf : σ → GoMap TableID Table)
    (body : σ → TableID × TableChangeset → σ × Option StoreError) (P : σ → Prop)
    (F : Option Table → Prop) : Prop where
  only : ∀ s e s', P s → F (stagedOf s)[e.1]? → body s e = (s', none) →
    P s' ∧ StagedBy cs e (stagedOf s)[e.1]? (stagedOf s')[e.1]? ∧
      ∀ k : TableID, k ≠ e.1 → (stagedOf s')[k]? = (stagedOf s)[k]?
  total : ∀ s e next, P s → F (stagedOf s)[e.1]? → StagedBy cs e (stagedOf s)[e.1]? next →
    ∃ s', body s e = (s', none)

section Rounds

variable {σ : Type} {stagedOf : σ → GoMap TableID Table}
  {body : σ → TableID × TableChangeset → σ × Option StoreError} {P : σ → Prop}
  {F : Option Table → Prop} {entries : Entries} {s s' : σ}

/-- What replay needs of the tables that are shown. -/
def Applicable (view : TableID → Option Table) (entries : Entries) : Prop :=
  ∀ e ∈ entries, ∃ table, view e.1 = some table ∧
    (table.schema.isEvent = false → ∃ u, applyChangesetToTable table e.2 = (u, none))

/-- The tables shown before and after the rounds over some entries. -/
structure ViewApplied (view view' : TableID → Option Table)
    (entries : Entries) : Prop where
  applied : ∀ e ∈ entries, ∃ table table', view e.1 = some table ∧ view' e.1 = some table' ∧
    EntryApplied table e.2 table' ∧ table.Sound
  other : ∀ k, k ∉ entries.map Prod.fst → view' k = view k

variable (h : Rounds cs stagedOf body P F) (hnodup : (entries.map Prod.fst).Nodup) (hs : P s)
  (hF : ∀ e ∈ entries, F (stagedOf s)[e.1]?)
include h hnodup hs hF

theorem Rounds.loop_only (hrun : loop body s entries = (s', none)) :
    P s' ∧ (∀ e ∈ entries, StagedBy cs e (stagedOf s)[e.1]? (stagedOf s')[e.1]?) ∧
      ∀ k : TableID, k ∉ entries.map Prod.fst → (stagedOf s')[k]? = (stagedOf s)[k]? := by
  induction entries generalizing s with
  | nil =>
    cases hrun
    exact ⟨hs, by simp, fun _ _ => rfl⟩
  | cons e entries ih =>
    obtain ⟨hnew, hnodup⟩ := List.nodup_cons.mp hnodup
    obtain ⟨hFe, hF⟩ := List.forall_mem_cons.mp hF
    obtain ⟨s₁, hbody, hrun⟩ := loop_cons_eq_ok.mp hrun
    obtain ⟨hs₁, hfirst, hother⟩ := h.only s e s₁ hs hFe hbody
    have hkeep : ∀ e' ∈ entries, (stagedOf s₁)[e'.1]? = (stagedOf s)[e'.1]? := fun e' he' =>
      hother e'.1 fun heq => hnew (heq ▸ List.mem_map_of_mem he')
    obtain ⟨hs', hrest, hsame⟩ := ih hnodup hs₁ (fun e' he' => hkeep e' he' ▸ hF e' he') hrun
    refine ⟨hs', List.forall_mem_cons.mpr ⟨?_, fun e' he' => ?_⟩, fun k hk => ?_⟩
    · rwa [hsame e.1 hnew]
    · exact hkeep e' he' ▸ hrest e' he'
    · obtain ⟨hne, hk⟩ := not_or.mp (mt List.mem_cons.mpr hk)
      rw [hsame k hk, hother k hne]

theorem Rounds.loop_total
    (hall : ∀ e ∈ entries, ∃ next, StagedBy cs e (stagedOf s)[e.1]? next) :
    ∃ s', loop body s entries = (s', none) := by
  induction entries generalizing s with
  | nil => exact ⟨s, rfl⟩
  | cons e entries ih =>
    obtain ⟨hnew, hnodup⟩ := List.nodup_cons.mp hnodup
    obtain ⟨hFe, hF⟩ := List.forall_mem_cons.mp hF
    obtain ⟨⟨next, hfirst⟩, hall⟩ := List.forall_mem_cons.mp hall
    obtain ⟨s₁, hbody⟩ := h.total s e next hs hFe hfirst
    obtain ⟨hs₁, -, hother⟩ := h.only s e s₁ hs hFe hbody
    have hkeep : ∀ e' ∈ entries, (stagedOf s₁)[e'.1]? = (stagedOf s)[e'.1]? := fun e' he' =>
      hother e'.1 fun heq => hnew (heq ▸ List.mem_map_of_mem he')
    rw [loop_cons_ok hbody]
    exact ih hnodup hs₁ (fun e' he' => hkeep e' he' ▸ hF e' he')
      fun e' he' => hkeep e' he' ▸ hall e' he'

theorem Rounds.applied (hcs : cs.Inv) (hstaged : StagedSound cs (stagedOf s))
    (hrun : loop body s entries = (s', none)) :
    P s' ∧ StagedSound cs (stagedOf s') ∧
      ViewApplied (cs.overlay (stagedOf s)) (cs.overlay (stagedOf s')) entries := by
  obtain ⟨hs', hentries, hother⟩ := h.loop_only hnodup hs hF hrun
  refine ⟨hs', ⟨fun tid st hst => ?_⟩, fun e he => ?_, fun k hk => ?_⟩
  · by_cases hin : tid ∈ entries.map Prod.fst
    · obtain ⟨e, he, rfl⟩ := List.mem_map.mp hin
      obtain ⟨table, table', htable, -, happlied, -, hsame | ⟨hnext, hevent⟩⟩ :=
        (hentries e he).applied hcs hstaged
      · exact hstaged.table e.1 st (hsame ▸ hst)
      · obtain rfl := Option.mem_unique hst hnext
        obtain ⟨u, -, htwins⟩ := happlied.stored hevent
        obtain ⟨base, hbase, hschema⟩ := hstaged.base htable
        exact ⟨base, hbase, by rw [hschema, hevent], htwins.clone_sound,
          (htwins.content.schema.trans htwins.schema).trans hschema.symm⟩
    · exact hstaged.table tid st (hother tid hin ▸ hst)
  · obtain ⟨table, table', htable, htable', happlied, hsound, -⟩ :=
      (hentries e he).applied hcs hstaged
    exact ⟨table, table', htable, htable', happlied, hsound⟩
  · rw [CommittedState.overlay, hother k hk, CommittedState.overlay]

theorem Rounds.run (hcs : cs.Inv) (hstaged : StagedSound cs (stagedOf s))
    (hall : Applicable (cs.overlay (stagedOf s)) entries) :
    ∃ s', loop body s entries = (s', none) := by
  refine h.loop_total hnodup hs hF fun e he => ?_
  obtain ⟨table, htable, hok⟩ := hall e he
  exact hstaged.round hcs htable hok

end Rounds

variable {view view' : TableID → Option Table}

theorem ViewApplied.changed {c : Changeset} (h : ViewApplied view view' c.tables.toList)
    (htable : view tableID = some table) :
    ∃ table', view' tableID = some table' ∧ (c.tables[tableID]? = none ∧ table' = table ∨
      ∃ tc, c.tables[tableID]? = some tc ∧ EntryApplied table tc table') := by
  cases htc : c.tables[tableID]? with
  | none =>
    refine ⟨table, ?_, .inl ⟨rfl, rfl⟩⟩
    rw [h.other tableID, htable]
    intro hin
    obtain ⟨e, he, rfl⟩ := List.mem_map.mp hin
    rw [Std.ExtTreeMap.mem_toList_iff_getElem?_eq_some.mp he] at htc
    cases htc
  | some tc =>
    obtain ⟨table₁, table', htable₁, htable', happlied, -⟩ :=
      h.applied _ (Std.ExtTreeMap.mem_toList_iff_getElem?_eq_some.mpr htc)
    obtain rfl := Option.mem_unique htable htable₁
    exact ⟨table', htable', .inr ⟨tc, rfl, happlied⟩⟩

theorem ViewApplied.absent {entries : Entries} (h : ViewApplied view view' entries)
    (hnone : view tableID = none) : view' tableID = none := by
  rw [h.other tableID, hnone]
  intro hin
  obtain ⟨e, he, rfl⟩ := List.mem_map.mp hin
  obtain ⟨table, -, htable, -⟩ := h.applied e he
  rw [hnone] at htable
  cases htable

/-! ## ApplyChangeset -/

theorem stageChangeset_rounds (cs : CommittedState) :
    Rounds cs id (stageChangeset cs) (fun _ => True) (· = none) where
  only s e s' _ hnew hbody := by
    refine ⟨trivial, ?_⟩
    rw [id] at hnew
    rw [id, id, hnew]
    revert hbody
    fun_cases stageChangeset cs s e <;> rintro ⟨⟩
    · next table htable hevent =>
      rw [hnew]
      exact ⟨.skipped (by simp [startTable, htable, hevent]), fun _ _ => rfl⟩
    · next table htable hevent st hclone st' hrun =>
      refine ⟨?_, fun k hk => ?_⟩
      · rw [Std.ExtTreeMap.getElem?_insert_self]
        exact .replayed (by simp [startTable, htable, hevent, hclone, Except.map]) hrun
      · simp [Std.ExtTreeMap.getElem?_insert, hk.symm]
  total s e next _ hnew h := by
    rw [id] at hnew h
    rw [hnew] at h
    unfold stageChangeset
    cases h with
    | skipped h | replayed h hrun =>
      revert h
      unfold startTable
      cases cs.table e.1 with
      | none => nofun
      | some table =>
        cases hevent : table.schema.isEvent with
        | true => simp [hevent]
        | false => cases hclone : cloneReplayTable table <;> simp_all [Except.map]

theorem overlay_empty (cs : CommittedState) : cs.overlay ∅ = cs.table := by
  funext tid
  simp [CommittedState.overlay]

theorem CommittedState.Inv.sound (hcs : cs.Inv) :
    ∀ tableID table, cs.table tableID = some table → table.Sound :=
  fun tableID table htable => ⟨(hcs tableID table htable).1, (hcs tableID table htable).2⟩

/-- `ApplyChangeset`, the tables visited in a given order. -/
def applyChangesetIn (cs : CommittedState) (entries : Entries) :
    CommittedState × Option StoreError :=
  match loop (stageChangeset cs) ∅ entries with
  | (_, some e) => (cs, some e)
  | (staged, none) => cs.publish staged

theorem applyChangeset_eq (cs : CommittedState) (c : Changeset) :
    applyChangeset cs c = applyChangesetIn cs c.tables.toList := rfl

/-- Something that takes changesets and shows tables, as both ways of replaying do. -/
structure Replayer {σ : Type} (apply : σ → Entries → σ × Option StoreError)
    (view : σ → TableID → Option Table) (OK : σ → Prop) : Prop where
  run : ∀ s entries, OK s → (entries.map Prod.fst).Nodup → Applicable (view s) entries →
    ∃ s', apply s entries = (s', none)
  applied : ∀ s entries s', OK s → (entries.map Prod.fst).Nodup →
    apply s entries = (s', none) → OK s' ∧ ViewApplied (view s) (view s') entries

theorem replayer_applyChangeset (horizon : TxID) :
    Replayer applyChangesetIn CommittedState.table
      (fun cs => cs.Inv ∧ cs.committedTxID = horizon) where
  run cs entries hcs hnodup hall := by
    obtain ⟨staged, hrun⟩ := (stageChangeset_rounds cs).run hnodup trivial (by simp) hcs.1
      (.empty cs) (by rwa [id, overlay_empty])
    obtain ⟨-, hstaged, -⟩ :=
      (stageChangeset_rounds cs).applied hnodup trivial (by simp) hcs.1 (.empty cs) hrun
    rw [applyChangesetIn, hrun]
    exact ⟨_, Prod.ext rfl (cs.publish_ok staged fun _ => hstaged.known).1⟩
  applied cs entries cs' hcs hnodup h := by
    unfold applyChangesetIn at h
    cases hrun : loop (stageChangeset cs) ∅ entries with
    | mk staged err =>
      rw [hrun] at h
      cases err with
      | some err => cases h
      | none =>
        obtain ⟨-, hstaged, happlied⟩ :=
          (stageChangeset_rounds cs).applied hnodup trivial (by simp) hcs.1 (.empty cs) hrun
        obtain ⟨-, hhorizon, htables⟩ := cs.publish_ok staged fun _ => hstaged.known
        obtain rfl : (cs.publish staged).1 = cs' := congrArg Prod.fst h
        rw [id, id, overlay_empty] at happlied
        rw [show (cs.publish staged).1.table = cs.overlay staged from funext htables]
        exact ⟨⟨(hstaged.publish_inv hcs.1).1, hhorizon.trans hcs.2⟩, happlied⟩

theorem applyChangeset_inv (c : Changeset) (hcs : cs.Inv) :
    (applyChangeset cs c).1.Inv ∧ cs.SameSchemas (applyChangeset cs c).1 := by
  unfold applyChangeset
  cases hrun : loop (stageChangeset cs) ∅ c.tables.toList with
  | mk staged err =>
    cases err with
    | some e => exact ⟨hcs, fun _ => rfl⟩
    | none =>
      obtain ⟨-, hstaged, -⟩ := (stageChangeset_rounds cs).applied
        (nodup_fst_toList c.tables) trivial (by simp) hcs (.empty cs) hrun
      exact hstaged.publish_inv hcs

/-! ## Batches -/

namespace RecoveryBatch

variable {b b' : RecoveryBatch}

theorem usable_eq_none : b.usable = none ↔ b.failed = none ∧ b.closed = false := by
  unfold usable
  cases b.failed <;> simp

@[simp] theorem usable_new : new.usable = none := rfl

theorem stage_eq (tableID : TableID) :
    b.stage cs tableID = startTable cs tableID b.staged[tableID]? := by
  unfold stage startTable
  cases b.staged[tableID]? <;> rfl

theorem applyTable_rounds (cs : CommittedState) :
    Rounds cs (·.staged) (applyTable cs) (fun b => b.usable = none) (fun _ => True) where
  only b e b' hb _ hbody := by
    unfold applyTable at hbody
    rw [stage_eq] at hbody
    split at hbody
    · simp [fail] at hbody
    · next hstart =>
      cases hbody
      exact ⟨hb, .skipped hstart, fun _ _ => rfl⟩
    · next st hstart =>
      cases hrun : applyChangesetToTable st e.2 with
      | mk st' err =>
        rw [hrun] at hbody
        cases err with
        | some err => simp [fail] at hbody
        | none =>
          cases hbody
          refine ⟨hb, ?_, fun k hk => ?_⟩
          · dsimp only
            rw [Std.ExtTreeMap.getElem?_insert_self]
            exact .replayed hstart hrun
          · simp [Std.ExtTreeMap.getElem?_insert, hk.symm]
  total b e next _ _ h := by
    unfold applyTable
    rw [stage_eq]
    cases h with
    | skipped h =>
      rw [h]
      exact ⟨b, rfl⟩
    | replayed h hrun =>
      rw [h]
      dsimp only
      rw [hrun]
      exact ⟨_, rfl⟩

/-- `Apply`, the tables visited in a given order. -/
def applyIn (cs : CommittedState) (b : RecoveryBatch) (entries : Entries) :
    RecoveryBatch × Option StoreError :=
  match b.usable with
  | some e => (b, some e)
  | none => loop (applyTable cs) b entries

theorem apply_eq (cs : CommittedState) (b : RecoveryBatch) (c : Changeset) :
    b.apply cs c = b.applyIn cs c.tables.toList := rfl

theorem replayer_recoveryBatch (hcs : cs.Inv) :
    Replayer (applyIn cs) (fun b => cs.overlay b.staged)
      (fun b => b.usable = none ∧ StagedSound cs b.staged) where
  run b entries hb hnodup hall := by
    rw [applyIn, hb.1]
    exact (applyTable_rounds cs).run hnodup hb.1 (by simp) hcs hb.2 hall
  applied b entries b' hb hnodup h := by
    rw [applyIn, hb.1] at h
    obtain ⟨hb', hstaged, happlied⟩ :=
      (applyTable_rounds cs).applied hnodup hb.1 (by simp) hcs hb.2 h
    exact ⟨⟨hb', hstaged⟩, happlied⟩

theorem commit_ok (hb : b.usable = none) (hstaged : StagedSound cs b.staged) :
    b.commit cs = ((cs.publish b.staged).1, { b with staged := ∅, closed := true }, none) := by
  unfold commit
  rw [hb]
  dsimp only
  rw [firstError_eq_none.mpr]
  · intro tid htid
    have hst : b.staged[tid]? ≠ none := by
      rw [Std.ExtTreeMap.mem_keys, ← Std.ExtTreeMap.contains_iff_mem,
        Std.ExtTreeMap.contains_eq_isSome_getElem?] at htid
      exact Option.isSome_iff_ne_none.mp htid
    have htable := hstaged.known hst
    rw [if_neg (by simpa using htable)]

/-! What holds of a batch whatever changesets it was given. -/

/-- Nothing is promised about the tables of a batch that has failed. -/
def Staging (cs : CommittedState) (b : RecoveryBatch) : Prop :=
  b.failed = none → StagedSound cs b.staged

theorem staging_new (cs : CommittedState) : Staging cs new := fun _ => .empty cs

theorem applyTable_error {e : TableID × TableChangeset} {err : StoreError}
    (h : b.applyTable cs e = (b', some err)) : b'.failed = some err := by
  have hfail : ∀ {b b' : RecoveryBatch} {err err' : StoreError},
      b.fail err = (b', some err') → b'.failed = some err' := by
    intro b b' err err' h
    cases h
    rfl
  unfold applyTable at h
  split at h
  · exact hfail h
  · cases h
  · next st hstart =>
    cases hrun : applyChangesetToTable st e.2 with
    | mk st' cause =>
      rw [hrun] at h
      cases cause with
      | none => cases h
      | some cause => exact hfail h

theorem applyLoop_error {entries : Entries} {err : StoreError}
    (h : loop (applyTable cs) b entries = (b', some err)) : b'.failed = some err := by
  induction entries generalizing b with
  | nil => cases h
  | cons e entries ih =>
    cases hround : b.applyTable cs e with
    | mk b₁ cause =>
      cases cause with
      | none =>
        rw [loop_cons_ok hround] at h
        exact ih h
      | some cause =>
        rw [loop_cons_error hround] at h
        cases h
        exact applyTable_error hround

theorem apply_staging (hcs : cs.Inv) (h : Staging cs b) (c : Changeset) :
    Staging cs (b.apply cs c).1 := by
  unfold apply
  cases hb : b.usable with
  | some e => exact h
  | none =>
    cases hrun : loop (applyTable cs) b c.tables.toList with
    | mk b' err =>
      cases err with
      | none =>
        have happlied := (applyTable_rounds cs).applied (nodup_fst_toList c.tables) hb
          (by simp) hcs (h (usable_eq_none.mp hb).1) hrun
        exact fun _ => happlied.2.1
      | some err => exact fun hnone => by simp [applyLoop_error hrun] at hnone

theorem commit_inv (hcs : cs.Inv) (h : Staging cs b) :
    (b.commit cs).1.Inv ∧ cs.SameSchemas (b.commit cs).1 ∧
      Staging cs (b.commit cs).2.1 := by
  cases hb : b.usable with
  | some e =>
    simp only [commit, hb]
    exact ⟨hcs, fun _ => rfl, h⟩
  | none =>
    have hstaged := h (usable_eq_none.mp hb).1
    rw [commit_ok hb hstaged]
    obtain ⟨hinv, hschemas⟩ := hstaged.publish_inv hcs
    exact ⟨hinv, hschemas, fun _ => .empty cs⟩

end RecoveryBatch

end Shunter
