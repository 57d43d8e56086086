import Shunter.Store.RecoveryState

/-!
# Restoring a snapshot

The part of recovery that fills freshly created tables from a decoded snapshot
and, after the log was replayed, moves sequence counters past the rows.  A
failed restore leaves a half filled state, which recovery throws away.
-/

namespace Shunter

open Foundation

structure SnapshotTableData where
  tableID : TableID
  rows : List ProductValue

structure SnapshotData where
  txID : TxID
  schemaVersion : Nat
  schemaSnapshotVersion : Nat
  tables : List SnapshotTableData
  sequences : GoMap TableID Nat
  nextIDs : GoMap TableID Nat
  schema : List TableSchema

inductive RestoreError where
  | unknownTable (id : TableID)
  | restoreTable (id : TableID) (cause : StoreError)
  | unknownSequence (id : TableID)
  | sequenceBounds (id : TableID) (next minNext : Nat)
  | unknownNextID (id : TableID)
  | allocatorBounds (id : TableID) (nextID minNext : Nat)

def maxAutoValue (ts : TableSchema) (rows : List ProductValue) : Nat :=
  rows.foldl (fun maxSeen row => max maxSeen ((ts.autoValue row).getD 0)) 0

def nextSequenceValueForTable (table : Table) : Option Nat :=
  table.schema.autoIncrementCol.map fun _ =>
    nextAutoIncrementSequenceValue (maxAutoValue table.schema (table.scan.map Prod.snd))

def restoreRow (table : Table) (row : ProductValue) : Table × Option StoreError :=
  match table.allocRowID with
  | (id, table) => table.insertRow id row

def restoreTable (cs : CommittedState) (data : SnapshotTableData) :
    CommittedState × Option RestoreError :=
  match cs.table data.tableID with
  | none => (cs, some (.unknownTable data.tableID))
  | some table =>
    if table.schema.isEvent then (cs, none)
    else
      match loop restoreRow table data.rows with
      | (table, err) =>
        (cs.setTable data.tableID table, err.map (.restoreTable data.tableID))

def restoreSequence (cs : CommittedState) (e : TableID × Nat) :
    CommittedState × Option RestoreError :=
  match cs.table e.1 with
  | none => (cs, some (.unknownSequence e.1))
  | some table =>
    if table.schema.isEvent then (cs, none)
    else
      match nextSequenceValueForTable table with
      | some minNext =>
        if e.2 < minNext then (cs, some (.sequenceBounds e.1 e.2 minNext))
        else (cs.setTable e.1 (table.setSequenceValue e.2), none)
      | none => (cs.setTable e.1 (table.setSequenceValue e.2), none)

def restoreNextID (cs : CommittedState) (e : TableID × Nat) :
    CommittedState × Option RestoreError :=
  match cs.table e.1 with
  | none => (cs, some (.unknownNextID e.1))
  | some table =>
    if table.schema.isEvent then (cs, none)
    else if e.2 < table.nextID then (cs, some (.allocatorBounds e.1 e.2 table.nextID))
    else (cs.setTable e.1 (table.setNextID e.2), none)

def restoreSnapshot (cs : CommittedState) (snapshot : SnapshotData) :
    CommittedState × Option RestoreError :=
  andThen (loop restoreTable cs snapshot.tables) fun cs =>
  andThen (loop restoreSequence cs snapshot.sequences.toList) fun cs =>
    loop restoreNextID cs snapshot.nextIDs.toList

def advanceRecoveredSequence (table : Table) : Table :=
  match table.sequenceValue with
  | none => table
  | some current =>
    if table.schema.isEvent then table
    else
      match nextSequenceValueForTable table with
      | none => table
      | some minNext =>
        if minNext ≤ current then table else table.setSequenceValue minNext

def advanceRecoveredSequences (cs : CommittedState) : CommittedState :=
  { cs with tables := cs.tables.map fun _ table => advanceRecoveredSequence table }

end Shunter
