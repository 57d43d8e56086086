import Shunter.Foundation.TupleDelta
import Shunter.Store.ReadView
import Shunter.Subscription.CanonicalEncoder
import Shunter.Subscription.DeltaDedup
import Shunter.Subscription.Predicate

/-!
# The view of one commit

The committed state together with the rows that the last transaction inserted
and deleted, and indexes over these rows for the columns that joins ask for.
The state before the commit is not kept; its rows are recovered from the view.
-/

namespace Shunter.Subscription

open Foundation

/-- The key of a row in an index over the column; a short row has none. -/
def rowKey (col : Nat) (row : ProductValue) : Option ValueKey :=
  (rowValue row col).bind encodeValueKey

/-- The column has a key in every row that has the column. -/
def keyable (rows : List ProductValue) (col : Nat) : Bool :=
  rows.all fun row => (rowValue row col).all fun value => (encodeValueKey value).isSome

/-- The entry of `buildDeltaIndexForRows` for a column and a key. -/
def deltaPositions (rows : List ProductValue) (col : Nat) (key : ValueKey) : List Nat :=
  (List.range rows.length).filter fun i => rows[i]?.any fun row => rowKey col row = some key

/-- An index is determined by its rows, so the view only keeps which columns have one. -/
structure DeltaView where
  committed : CommittedState
  inserts : TableID → List ProductValue
  deletes : TableID → List ProductValue
  events : TableID → Bool
  indexed : TableID → List Nat
  keyed : ∀ table, ∀ col ∈ indexed table,
    keyable (inserts table) col = true ∧ keyable (deletes table) col = true

namespace DeltaView

/-- `NewDeltaView`; a value without a key makes it panic. -/
def new (committed : CommittedState) (changeset : Changeset)
    (deltaIndexColumns : List (TableID × List Nat)) (eventTables : TableID → Bool) :
    Option DeltaView :=
  if h : ∀ entry ∈ deltaIndexColumns, ∀ col ∈ entry.2,
      keyable (changeset.insertsOf entry.1) col = true ∧
        keyable (changeset.deletesOf entry.1) col = true then
    some
      { committed := committed
        inserts := changeset.insertsOf
        deletes := changeset.deletesOf
        events := eventTables
        indexed := fun table => (deltaIndexColumns.lookup table).getD []
        keyed := by
          intro table col hcol
          cases hcols : deltaIndexColumns.lookup table with
          | none => simp [hcols] at hcol
          | some cols =>
            rw [hcols, Option.getD_some] at hcol
            obtain ⟨l₁, l₂, hl, -⟩ := List.lookup_eq_some_iff.mp hcols
            exact h (table, cols) (by simp [hl]) col hcol }
  else none

variable (dv : DeltaView)

def deltaRows (table : TableID) (inserted : Bool) : List ProductValue :=
  if inserted then dv.inserts table else dv.deletes table

def hasDeltaIndex (table : TableID) (col : Nat) (inserted : Bool) : Bool :=
  dv.deltaRows table inserted ≠ [] && (dv.indexed table).contains col

/-- `none` is the panic on a missing index or on a value without a key. -/
def deltaIndexPositions (table : TableID) (col : Nat) (value : Value) (inserted : Bool) :
    Option (List Nat) :=
  if dv.deltaRows table inserted = [] then some []
  else if dv.hasDeltaIndex table col inserted then
    (encodeValueKey value).map (deltaPositions (dv.deltaRows table inserted) col)
  else none

def deltaIndexScan (table : TableID) (col : Nat) (value : Value) (inserted : Bool) :
    Option (List ProductValue) :=
  (dv.deltaIndexPositions table col value inserted).map fun positions =>
    positions.filterMap fun pos => (dv.deltaRows table inserted)[pos]?

/-! ## Rows after and before the commit -/

/-- The rows of an event table are those of the last commit. -/
def tableRowsAfter (table : TableID) : List ProductValue :=
  dv.committed.tableRows table ++ if dv.events table then dv.inserts table else []

def rowCountAfter (table : TableID) : Nat :=
  dv.committed.rowCount table + if dv.events table then (dv.inserts table).length else 0

/-- The subtraction is one of integers, with nothing below zero. -/
def rowCountBefore (table : TableID) : Nat :=
  dv.rowCountAfter table + (dv.deletes table).length - (dv.inserts table).length

def projectedRowsBefore (table : TableID) : List ProductValue :=
  subtractProjectedRowsByKey (dv.tableRowsAfter table) (dv.inserts table) ++ dv.deletes table

end DeltaView

/-! ## Index reads -/

theorem filterMap_range_filter {α : Type*} (p : α → Bool) (l : List α) :
    ((List.range l.length).filter fun i => l[i]?.any p).filterMap (fun i => l[i]?) =
      l.filter p := by
  induction l with
  | nil => rfl
  | cons a l ih =>
    rw [List.length_cons, List.range_succ_eq_map]
    cases ha : p a <;>
      simpa [List.filter_cons, ha, List.filter_map, Function.comp_def, List.filterMap_map] using ih

theorem rowKey_eq_some {rows : List ProductValue} {col : Nat} (hkeyable : keyable rows col = true)
    {row : ProductValue} (hrow : row ∈ rows) {value : Value} {key : ValueKey}
    (hkey : encodeValueKey value = some key) :
    rowKey col row = some key ↔ matchColumn row col (fun w => w.equal value) = true := by
  have hall := List.all_eq_true.mp hkeyable row hrow
  unfold rowKey matchColumn
  cases hvalue : rowValue row col with
  | none => simp
  | some w =>
    rw [hvalue] at hall
    simp only [Option.bind_some, Option.any_some, Value.equal_iff_rank]
    refine ⟨fun hw => rank_of_encodeValueKey hw hkey, fun hrank => ?_⟩
    rw [encodeValueKey_congr hrank, hkey]

theorem DeltaView.deltaIndexScan_eq {dv : DeltaView} {table : TableID} {col : Nat} {value : Value}
    {inserted : Bool} {rows : List ProductValue}
    (h : dv.deltaIndexScan table col value inserted = some rows) :
    rows = (dv.deltaRows table inserted).filter fun row =>
      matchColumn row col fun w => w.equal value := by
  obtain ⟨positions, hpositions, rfl⟩ := Option.map_eq_some_iff.mp h
  revert hpositions
  fun_cases DeltaView.deltaIndexPositions dv table col value inserted
  · next hnil =>
    rintro ⟨⟩
    simp [hnil]
  · next hidx =>
    intro hpositions
    obtain ⟨key, hkey, rfl⟩ := Option.map_eq_some_iff.mp hpositions
    simp only [hasDeltaIndex, Bool.and_eq_true, List.contains_iff_mem] at hidx
    have hkeyable : keyable (dv.deltaRows table inserted) col = true := by
      have hboth := dv.keyed table col hidx.2
      cases inserted with
      | true => exact hboth.1
      | false => exact hboth.2
    rw [deltaPositions, filterMap_range_filter]
    apply List.filter_congr
    intro row hrow
    rw [Bool.eq_iff_iff, decide_eq_true_iff]
    exact rowKey_eq_some hkeyable hrow hkey
  · rintro ⟨⟩

/-! ## The state before the commit -/

def tableChange (before : CommittedState) (changeset : Changeset) (table : TableID) :
    Change ProductValue where
  stay := before.stayingRows changeset table
  ins := changeset.insertsOf table
  del := changeset.deletesOf table

/-- The view shows the commit of a changeset to the state before it. -/
structure DeltaView.Shows (dv : DeltaView) (before : CommittedState) (changeset : Changeset) :
    Prop where
  inv : before.Inv
  committed : StateCommitted before dv.committed changeset
  inserts : dv.inserts = changeset.insertsOf
  deletes : dv.deletes = changeset.deletesOf

theorem DeltaView.shows_of_new {before after : CommittedState} {changeset : Changeset}
    (hinv : before.Inv) (hcommit : StateCommitted before after changeset)
    {cols : List (TableID × List Nat)} {events : TableID → Bool} {dv : DeltaView}
    (h : DeltaView.new after changeset cols events = some dv) :
    dv.committed = after ∧ dv.Shows before changeset := by
  unfold DeltaView.new at h
  split at h
  · cases h
    exact ⟨rfl, hinv, hcommit, rfl, rfl⟩
  · cases h

/-- The table keeps its rows from one commit to the next. -/
structure DeltaView.Stored (dv : DeltaView) (before : CommittedState) (table : TableID) : Prop where
  notEvent : dv.events table = false
  schema : ∀ t, before.table table = some t → t.schema.isEvent = false

namespace DeltaView.Shows

variable {dv : DeltaView} {before : CommittedState} {changeset : Changeset} {table : TableID}

theorem rowBag_change (h : dv.Shows before changeset) (hstored : dv.Stored before table) :
    rowBag (tableChange before changeset table).before = rowBag (before.tableRows table) ∧
      rowBag (tableChange before changeset table).after =
        rowBag (dv.committed.tableRows table) := by
  obtain ⟨hbefore, hafter⟩ := h.committed.tableRows h.inv hstored.schema
  exact ⟨(bag_perm _ hbefore).symm, (bag_perm _ hafter).symm⟩

theorem tableRowsAfter_eq (hstored : dv.Stored before table) :
    dv.tableRowsAfter table = dv.committed.tableRows table := by
  simp [tableRowsAfter, hstored.notEvent]

theorem rowBag_projectedRowsBefore (h : dv.Shows before changeset)
    (hstored : dv.Stored before table) :
    rowBag (dv.projectedRowsBefore table) = rowBag (before.tableRows table) := by
  obtain ⟨hbefore, hafter⟩ := h.rowBag_change hstored
  have hstay : rowBag (subtractProjectedRowsByKey (dv.committed.tableRows table)
      (changeset.insertsOf table)) = rowBag (tableChange before changeset table).stay := by
    apply rowBag_subtractProjectedRowsByKey
    rw [← hafter]
    exact rowBag_append _ _
  rw [projectedRowsBefore, tableRowsAfter_eq hstored, h.inserts, h.deletes, rowBag_append, hstay,
    ← hbefore]
  exact (rowBag_append _ _).symm

theorem rowCountAfter_eq (hstored : dv.Stored before table) :
    dv.rowCountAfter table = (dv.committed.tableRows table).length := by
  rw [rowCountAfter, CommittedState.length_tableRows, hstored.notEvent]
  rfl

theorem rowCountBefore_eq (h : dv.Shows before changeset) (hstored : dv.Stored before table) :
    dv.rowCountBefore table = (before.tableRows table).length := by
  obtain ⟨hbefore, hafter⟩ := h.committed.tableRows h.inv hstored.schema
  rw [rowCountBefore, rowCountAfter_eq hstored, hbefore.length_eq, hafter.length_eq, h.inserts,
    h.deletes, List.length_append, List.length_append]
  omega

variable {row : ProductValue}

section

variable (h : dv.Shows before changeset) (hstored : dv.Stored before table)
include h hstored

theorem mem_projectedRowsBefore (hrow : row ∈ dv.projectedRowsBefore table) :
    row ∈ before.tableRows table ∨ row ∈ dv.committed.tableRows table := by
  rcases List.mem_append.mp hrow with hrow | hrow
  · right
    rw [← tableRowsAfter_eq hstored]
    exact mem_of_mem_subtractProjectedRowsByKey hrow
  · left
    rw [(h.committed.tableRows h.inv hstored.schema).1.mem_iff, List.mem_append]
    exact .inr (h.deletes ▸ hrow)

theorem mem_deltaRows {inserted : Bool} (hrow : row ∈ dv.deltaRows table inserted) :
    row ∈ before.tableRows table ∨ row ∈ dv.committed.tableRows table := by
  obtain ⟨hbefore, hafter⟩ := h.committed.tableRows h.inv hstored.schema
  rw [hbefore.mem_iff, hafter.mem_iff, List.mem_append, List.mem_append, ← h.inserts, ← h.deletes]
  cases inserted with
  | true => exact .inr (.inr hrow)
  | false => exact .inl (.inr hrow)

theorem row_length {width : Nat}
    (hwidth : ∀ t, before.table table = some t → t.schema.columns.length = width)
    (hrow : row ∈ before.tableRows table ∨ row ∈ dv.committed.tableRows table) :
    row.length = width := by
  cases htable : before.table table with
  | none =>
    rw [CommittedState.tableRows_unknown htable,
      CommittedState.tableRows_unknown (h.committed.unknown table htable)] at hrow
    simp at hrow
  | some t =>
    obtain ⟨t', htable', hlive⟩ := h.committed.stored table t htable (hstored.schema t htable)
    rcases hrow with hrow | hrow
    · rw [CommittedState.length_of_mem_tableRows h.inv htable hrow, hwidth t htable]
    · rw [CommittedState.length_of_mem_tableRows (h.committed.inv h.inv) htable' hrow,
        hlive.schema, hwidth t htable]

end

end DeltaView.Shows

theorem count_rowBag_tableRows_le {cs : CommittedState} (hcs : cs.Inv) (table : TableID)
    (k : List (List (List Int))) : (rowBag (cs.tableRows table)).count k ≤ 1 := by
  have hnodup : (rowBag (cs.tableRows table)).Nodup := by
    rw [rowBag, bag, Multiset.coe_nodup, List.Nodup, List.pairwise_map]
    exact CommittedState.tableRows_pairwise hcs table
  exact Multiset.nodup_iff_count_le_one.mp hnodup k

/-! ## A small commit for worked examples -/

def teamsBuilder : Builder where
  tables :=
    [ ⟨nameBytes "members", false,
        [⟨nameBytes "id", .uint64, true, false, false⟩,
          ⟨nameBytes "team", .uint64, false, false, false⟩], []⟩ ]
  version := 1
  versionSet := true

def teamsRegistry : SchemaRegistry :=
  ⟨(registerSystemTables teamsBuilder).tables.mapIdx buildTable, 1⟩

theorem teamsRegistry_built : buildEngine teamsBuilder = .ok teamsRegistry := by decide

def member (id team : BitVec 64) : ProductValue := [⟨.uint64, some id⟩, ⟨.uint64, some team⟩]

def commitOps (cs : CommittedState) (txID : TxID) (ops : List TxOp) :
    CommittedState × Option Changeset :=
  let res := commitWithValidation cs (Transaction.new.runOps cs ops).1 txID true fun _ => none
  (res.1, res.2.2.toOption)

theorem commitOps_committed {cs : CommittedState} (hcs : cs.Inv) {txID : TxID} {ops : List TxOp}
    {changeset : Changeset} (h : (commitOps cs txID ops).2 = some changeset) :
    StateCommitted cs (commitOps cs txID ops).1 changeset := by
  rcases commit_runOps_cases hcs ops txID true fun _ => none with ⟨e, -, herr⟩ | ⟨c, hok, hcommit⟩
  · simp [commitOps, herr, Except.toOption] at h
  · simp only [commitOps, hok, Except.toOption, Option.some.injEq] at h
    exact h ▸ hcommit

def teamsBefore : CommittedState :=
  (commitOps (.fresh teamsRegistry) 1 [.insert 0 (member 1 7)]).1

def teamsReplaced : CommittedState × Option Changeset :=
  commitOps teamsBefore 2 [.delete 0 1, .insert 0 (member 2 7)]

theorem teamsBefore_inv : teamsBefore.Inv := by
  have hfresh := CommittedState.fresh_inv (buildEngine_primaryUnique teamsRegistry_built)
  have hok : (commitOps (.fresh teamsRegistry) 1 [.insert 0 (member 1 7)]).2.isSome = true := by
    decide +kernel
  obtain ⟨changeset, hchangeset⟩ := Option.isSome_iff_exists.mp hok
  exact (commitOps_committed hfresh hchangeset).inv hfresh

theorem teamsReplaced_ok : teamsReplaced.2.isSome = true := by decide +kernel

def teamsAfter : CommittedState := teamsReplaced.1

def teamsChangeset : Changeset := teamsReplaced.2.get teamsReplaced_ok

theorem teams_committed : StateCommitted teamsBefore teamsAfter teamsChangeset :=
  commitOps_committed teamsBefore_inv (Option.some_get teamsReplaced_ok).symm

theorem teamsView_ok :
    (DeltaView.new teamsAfter teamsChangeset [(0, [1])] fun _ => false).isSome = true := by
  decide +kernel

def teamsView : DeltaView :=
  (DeltaView.new teamsAfter teamsChangeset [(0, [1])] fun _ => false).get teamsView_ok

theorem teamsView_new :
    DeltaView.new teamsAfter teamsChangeset [(0, [1])] (fun _ => false) = some teamsView :=
  (Option.some_get teamsView_ok).symm

theorem teamsView_stored : teamsView.Stored teamsBefore 0 := by
  have htable : (teamsBefore.table 0).all (fun t => !t.schema.isEvent) = true := by decide +kernel
  refine ⟨rfl, fun t ht => ?_⟩
  simpa [ht] using htable

end Shunter.Subscription
