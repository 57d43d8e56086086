import Shunter.Store.Commit

/-!
# Replaying changesets

Recovery applies logged changesets to committed tables without a transaction.
Every touched table is cloned first, the changes go into the clone, and the
clones are published together at the end.  Nil states, changesets and batches
have no counterpart here.
-/

namespace Shunter

open Foundation

/-! ## One table -/

/-- Only the counters of the clone are copied; its rows and indexes are built again. -/
def cloneReplayTable (table : Table) : Except StoreError Table :=
  match loop (fun clone p => clone.insertRow p.1 p.2) (newTable table.schema)
    table.rows.toList with
  | (_, some e) => .error (.cloneReplayTable table.schema.name e)
  | (clone, none) =>
    let clone := clone.setNextID table.nextID
    .ok (table.sequenceValue.elim clone clone.setSequenceValue)

/-- The stored row that equals `row`, looked up by primary key or else by row hash. -/
def findReplayDeleteRowID (table : Table) (row : ProductValue) : Option RowID :=
  match table.primaryIndex with
  | some pk => (pk.btree.rowIDs (pk.extractKey row)).find? storesEqual
  | none => ((table.rowHashIndex.getD ∅).bucket row.hash64).find? storesEqual
where
  storesEqual (rid : RowID) : Bool :=
    ((table.rowView rid).map fun committedRow => committedRow.equal row).getD false

def replayDelete (table : Table) (row : ProductValue) : Table × Option StoreError :=
  match findReplayDeleteRowID table row with
  | none => (table, some (.replayRowNotFound table.schema.name))
  | some rowID =>
    match table.deleteRow rowID with
    | (table, none) => (table, some (.replayRowNotFound table.schema.name))
    | (table, some _) => (table, none)

def advanceReplaySequenceForInsert (table : Table) (row : ProductValue) : Table :=
  match table.sequence, table.sequenceCol with
  | some current, some c =>
    match (table.schema.columns[c]?).bind fun col =>
      valueAsUint64 (row.getD c ⟨.bool, some false⟩) col.type with
    | none => table
    | some value =>
      let next := nextAutoIncrementSequenceValue value
      if current ≠ 0 ∧ next > current then { table with sequence := some next } else table
  | _, _ => table

/-- `allocRowIDForInsert` of a table, as opposed to that of a transaction. -/
def Table.allocRowIDForInsert (table : Table) : Except StoreError (RowID × Table) :=
  match Transaction.checkRowIDAvailable table with
  | some e => .error e
  | none => .ok table.allocRowID

def replayInsert (table : Table) (row : ProductValue) : Table × Option StoreError :=
  match validateRow table.schema row with
  | some e => (table, some e)
  | none =>
  match Transaction.checkRowIDAvailable table with
  | some e => (table, some e)
  | none =>
  let table := advanceReplaySequenceForInsert table row
  match table.allocRowIDForInsert with
  | .error e => (table, some e)
  | .ok (freshID, table) => table.insertRow freshID row

def applyChangesetToTable (table : Table) (tc : TableChangeset) : Table × Option StoreError :=
  andThen (loop replayDelete table tc.deletes) fun table => loop replayInsert table tc.inserts

/-! ## One changeset -/

/-- One round of `ApplyChangeset`; the source visits the tables in an unspecified order. -/
def stageChangeset (cs : CommittedState) (staged : GoMap TableID Table)
    (e : TableID × TableChangeset) : GoMap TableID Table × Option StoreError :=
  match cs.table e.1 with
  | none => (staged, some (.tableNotFound e.1))
  | some table =>
    if table.schema.isEvent then (staged, none)
    else
      match cloneReplayTable table with
      | .error err => (staged, some err)
      | .ok stagedTable =>
        match applyChangesetToTable stagedTable e.2 with
        | (_, some err) => (staged, some err)
        | (stagedTable, none) => (staged.insert e.1 stagedTable, none)

def CommittedState.publish (cs : CommittedState) (staged : GoMap TableID Table) :
    CommittedState × Option StoreError :=
  cs.forTables staged fun stagedTable _ => (stagedTable, none)

def applyChangeset (cs : CommittedState) (changeset : Changeset) :
    CommittedState × Option StoreError :=
  match loop (stageChangeset cs) ∅ changeset.tables.toList with
  | (_, some e) => (cs, some e)
  | (staged, none) => cs.publish staged

/-! ## A batch of changesets -/

/-- The batch does not own the committed state; its operations take it as an argument. -/
structure RecoveryBatch where
  staged : GoMap TableID Table
  failed : Option StoreError
  closed : Bool

namespace RecoveryBatch

def new : RecoveryBatch := ⟨∅, none, false⟩

def usable (b : RecoveryBatch) : Option StoreError :=
  match b.failed with
  | some e => some e
  | none => if b.closed then some .recoveryBatchClosed else none

def fail (b : RecoveryBatch) (e : StoreError) : RecoveryBatch × Option StoreError :=
  let b := { b with failed := some (b.failed.getD e) }
  (b, b.failed)

def stage (cs : CommittedState) (b : RecoveryBatch) (tableID : TableID) :
    Except StoreError (Option Table) :=
  match b.staged[tableID]? with
  | some stagedTable => .ok (some stagedTable)
  | none =>
    match cs.table tableID with
    | none => .error (.tableNotFound tableID)
    | some table =>
      if table.schema.isEvent then .ok none
      else (cloneReplayTable table).map some

def applyTable (cs : CommittedState) (b : RecoveryBatch) (e : TableID × TableChangeset) :
    RecoveryBatch × Option StoreError :=
  match b.stage cs e.1 with
  | .error err => b.fail err
  | .ok none => (b, none)
  | .ok (some stagedTable) =>
    -- the staged table is changed in place, so an error leaves its partial changes staged
    match applyChangesetToTable stagedTable e.2 with
    | (stagedTable, err) =>
      let b := { b with staged := b.staged.insert e.1 stagedTable }
      err.elim (b, none) b.fail

def apply (cs : CommittedState) (b : RecoveryBatch) (changeset : Changeset) :
    RecoveryBatch × Option StoreError :=
  match b.usable with
  | some e => (b, some e)
  | none => loop (applyTable cs) b changeset.tables.toList

def commit (cs : CommittedState) (b : RecoveryBatch) :
    CommittedState × RecoveryBatch × Option StoreError :=
  match b.usable with
  | some e => (cs, b, some e)
  | none =>
  match firstError
    (fun tableID => if (cs.table tableID).isNone then some (.tableNotFound tableID) else none)
    b.staged.keys with
  | some e => (cs, b.fail e)
  | none => ((cs.publish b.staged).1, { b with staged := ∅, closed := true }, none)

def discard (b : RecoveryBatch) : RecoveryBatch :=
  if b.closed then b else { b with staged := ∅, closed := true }

end RecoveryBatch

end Shunter
