import Shunter.Foundation.Loop
import Shunter.Store.Transaction

/-!
# Commit

A commit revalidates the buffers against the committed state, prepares the
changeset, asks the caller's validation and then writes the tables.  Writing is
a sequence of loops that keep what they wrote when they stop with an error, so
that the atomicity of a commit is a theorem and not built into the model.
-/

namespace Shunter

open Foundation

structure TableChangeset where
  tableID : TableID
  tableName : Bytes
  schema : TableSchema
  inserts : List ProductValue
  deletes : List ProductValue

/-- The net effect of a transaction; a nil entry of the source behaves as one without rows. -/
structure Changeset where
  txID : TxID
  tables : GoMap TableID TableChangeset

def Changeset.isEmpty (c : Changeset) : Bool :=
  c.tables.toList.all fun p => p.2.inserts.isEmpty && p.2.deletes.isEmpty

namespace CommittedState

def setTable (cs : CommittedState) (id : TableID) (table : Table) : CommittedState :=
  { cs with tables := cs.tables.insert id table }

def withTable (cs : CommittedState) (id : TableID) (f : Table → Table × Option StoreError) :
    CommittedState × Option StoreError :=
  match cs.table id with
  | none => (cs, some (.tableNotFound id))
  | some table =>
    match f table with
    | (table, err) => (cs.setTable id table, err)

/-- A loop over the entries of a map by table, in the order of `sortedCommitMapKeys`. -/
def forTables {ν : Type} (m : GoMap TableID ν) (f : ν → Table → Table × Option StoreError)
    (cs : CommittedState) : CommittedState × Option StoreError :=
  loop (fun cs p => cs.withTable p.1 (f p.2)) cs m.toList

end CommittedState

/-! ## Revalidation -/

def firstError {α : Type} (check : α → Option StoreError) : List α → Option StoreError
  | [] => none
  | a :: l =>
    match check a with
    | some e => some e
    | none => firstError check l

def revalidateDeletes (cs : CommittedState) (txState : TxState) : Option StoreError :=
  firstError
    (fun p : TableID × GoMap RowID Unit =>
      match cs.table p.1 with
      | none => some (.tableNotFound p.1)
      | some table =>
        firstError
          (fun rowID =>
            if (table.rowView rowID).isNone then some (.rowNotFound rowID) else none)
          p.2.keys)
    txState.deletes.toList

def revalidateInsertRowID (tableID : TableID) (table : Table) (rowID : RowID)
    (txState : TxState) : Option StoreError :=
  if table.schema.isEvent then none
  else if txState.isDeleted tableID rowID then none
  else if (table.rowView rowID).isSome then some (.duplicateRowID rowID)
  else none

def revalidateInsertAgainstCommitted (tableID : TableID) (table : Table) (row : ProductValue)
    (txState : TxState) : Option StoreError :=
  if table.schema.isEvent then none
  else
    match firstError
      (fun idx : Index =>
        let key := idx.extractKey row
        if idx.schema.unique &&
            (idx.btree.rowIDs key).any fun rid => !txState.isDeleted tableID rid then
          some (uniqueViolationError table.schema idx.schema key)
        else none)
      table.indexes with
    | some e => some e
    | none =>
      match table.rowHashIndex with
      | none => none
      | some hashes =>
        if (hashes.bucket row.hash64).any fun rid => !txState.isDeleted tableID rid &&
            ((table.rowView rid).map fun existing => existing.equal row).getD false then
          some .duplicateRow
        else none

/-- What the loop over the inserts has seen: unique keys by table and index, and rows by table. -/
structure Pending where
  unique : GoMap TableID (GoMap Nat (BucketMap UInt64 IndexKey))
  rows : GoMap TableID (BucketMap UInt64 ProductValue)

namespace Pending

def new : Pending := ⟨∅, ∅⟩

def uniqueBuckets (p : Pending) (tableID : TableID) (idxOrdinal : Nat) :
    BucketMap UInt64 IndexKey :=
  (p.unique[tableID]?.getD ∅)[idxOrdinal]?.getD ∅

def pushUnique (p : Pending) (tableID : TableID) (idxOrdinal : Nat) (key : IndexKey) : Pending :=
  { p with
    unique := p.unique.insert tableID ((p.unique[tableID]?.getD ∅).insert idxOrdinal
      ((p.uniqueBuckets tableID idxOrdinal).push key.hash64 key)) }

def rowBuckets (p : Pending) (tableID : TableID) : BucketMap UInt64 ProductValue :=
  p.rows[tableID]?.getD ∅

def pushRow (p : Pending) (tableID : TableID) (row : ProductValue) : Pending :=
  { p with rows := p.rows.insert tableID ((p.rowBuckets tableID).push row.hash64 row) }

end Pending

def revalidatePendingUnique (tableID : TableID) (table : Table) (row : ProductValue)
    (p : Pending) (idx : Nat × Index) : Pending × Option StoreError :=
  if !idx.2.schema.unique then (p, none)
  else
    let key := idx.2.extractKey row
    if ((p.uniqueBuckets tableID idx.1).bucket key.hash64).any key.equal then
      (p, some (uniqueViolationError table.schema idx.2.schema key))
    else (p.pushUnique tableID idx.1 key, none)

def revalidateInsertAgainstPending (tableID : TableID) (table : Table) (row : ProductValue)
    (p : Pending) : Pending × Option StoreError :=
  andThen (loop (revalidatePendingUnique tableID table row) p (Transaction.indexOrdinals table))
    fun p =>
      match table.rowHashIndex with
      | none => (p, none)
      | some _ =>
        if ((p.rowBuckets tableID).bucket row.hash64).any fun prior => prior.equal row then
          (p, some .duplicateRow)
        else (p.pushRow tableID row, none)

def revalidateInsert (txState : TxState) (tableID : TableID) (table : Table) (p : Pending)
    (ins : RowID × ProductValue) : Pending × Option StoreError :=
  match validateRow table.schema ins.2 with
  | some e => (p, some e)
  | none =>
  match revalidateInsertRowID tableID table ins.1 txState with
  | some e => (p, some e)
  | none =>
  match revalidateInsertAgainstCommitted tableID table ins.2 txState with
  | some e => (p, some e)
  | none => revalidateInsertAgainstPending tableID table ins.2 p

def revalidateInserts (cs : CommittedState) (txState : TxState) : Pending × Option StoreError :=
  loop
    (fun p (e : TableID × GoMap RowID ProductValue) =>
      match cs.table e.1 with
      | none => (p, some (.tableNotFound e.1))
      | some table => loop (revalidateInsert txState e.1 table) p e.2.toList)
    .new txState.inserts.toList

def revalidateCommit (cs : CommittedState) (txState : TxState) : Option StoreError :=
  match revalidateDeletes cs txState with
  | some e => some e
  | none => (revalidateInserts cs txState).2

/-! ## The changeset -/

namespace Changeset

def ensureTableChangeset (c : Changeset) (id : TableID) (ts : TableSchema) : TableChangeset :=
  c.tables[id]?.getD ⟨id, ts.name, ts, [], []⟩

def setTable (c : Changeset) (id : TableID) (tc : TableChangeset) : Changeset :=
  { c with tables := c.tables.insert id tc }

end Changeset

def deletedRows (table : Table) : List RowID → Except StoreError (List ProductValue)
  | [] => .ok []
  | rowID :: rowIDs =>
    match table.rowView rowID with
    | none => .error (.rowNotFound rowID)
    | some oldRow =>
      match deletedRows table rowIDs with
      | .error e => .error e
      | .ok rows => .ok (oldRow :: rows)

def prepareDeletes (cs : CommittedState) (c : Changeset)
    (e : TableID × GoMap RowID Unit) : Changeset × Option StoreError :=
  match cs.table e.1 with
  | none => (c, some (.tableNotFound e.1))
  | some table =>
    match deletedRows table e.2.keys with
    | .error err => (c, some err)
    | .ok rows =>
      let tc := c.ensureTableChangeset e.1 table.schema
      (c.setTable e.1 { tc with deletes := tc.deletes ++ rows }, none)

def prepareInserts (cs : CommittedState) (c : Changeset)
    (e : TableID × GoMap RowID ProductValue) : Changeset × Option StoreError :=
  match cs.table e.1 with
  | none => (c, some (.tableNotFound e.1))
  | some table =>
    let tc := c.ensureTableChangeset e.1 table.schema
    (c.setTable e.1 { tc with inserts := tc.inserts ++ e.2.toList.map Prod.snd }, none)

def prepareChangeset (cs : CommittedState) (txState : TxState) : Except StoreError Changeset :=
  match andThen (loop (prepareDeletes cs) ⟨0, ∅⟩ txState.deletes.toList)
    fun c => loop (prepareInserts cs) c txState.inserts.toList with
  | (_, some e) => .error e
  | (c, none) => .ok c

/-! ## Writing the tables -/

namespace Table

def deleteRows (dels : GoMap RowID Unit) (table : Table) : Table × Option StoreError :=
  loop
    (fun table rowID =>
      match table.deleteRow rowID with
      | (table, some _) => (table, none)
      | (table, none) => (table, some (.rowNotFound rowID)))
    table dels.keys

def insertRows (ins : GoMap RowID ProductValue) (table : Table) : Table × Option StoreError :=
  if table.schema.isEvent then (table, none)
  else loop (fun table p => table.insertRow p.1 p.2) table ins.toList

def commitNextID (next : RowID) (table : Table) : Table × Option StoreError :=
  (if table.schema.isEvent then table else table.setNextID next, none)

def commitSequence (next : Nat) (table : Table) : Table × Option StoreError :=
  (if table.schema.isEvent then table else table.setSequenceValue next, none)

end Table

def applyCommit (cs : CommittedState) (tx : Transaction) : CommittedState × Option StoreError :=
  andThen (cs.forTables tx.tx.deletes Table.deleteRows) fun cs =>
  andThen (cs.forTables tx.tx.inserts Table.insertRows) fun cs =>
  andThen (cs.forTables tx.txNextRowIDs Table.commitNextID) fun cs =>
    cs.forTables tx.txSequences Table.commitSequence

/-- The state, the transaction and the result a commit leaves behind. -/
def commitWithValidation (cs : CommittedState) (tx : Transaction) (txID : TxID)
    (advanceHorizon : Bool) (validate : Changeset → Option StoreError) :
    CommittedState × Transaction × Except StoreError Changeset :=
  match tx.state with
  | .rolledBack => (cs, tx, .error .transactionRolledBack)
  | .committed => (cs, tx, .error .transactionClosed)
  | _ =>
  match revalidateCommit cs tx.tx with
  | some e => (cs, tx, .error e)
  | none =>
  match prepareChangeset cs tx.tx with
  | .error e => (cs, tx, .error e)
  | .ok changeset =>
  let changeset := if advanceHorizon then { changeset with txID := txID } else changeset
  match validate changeset with
  | some e => (cs, tx, .error e)
  | none =>
  match applyCommit cs tx with
  | (cs, some e) => (cs, tx, .error e)
  | (cs, none) =>
    let cs := if advanceHorizon then { cs with committedTxID := txID } else cs
    (cs, { tx with state := .committed }, .ok changeset)

def commit (cs : CommittedState) (tx : Transaction) :
    CommittedState × Transaction × Except StoreError Changeset :=
  commitWithValidation cs tx 0 false fun _ => none

def commitWithValidationAtTxID (cs : CommittedState) (tx : Transaction) (txID : TxID)
    (validate : Changeset → Option StoreError) :
    CommittedState × Transaction × Except StoreError Changeset :=
  commitWithValidation cs tx txID true validate

def rollback (tx : Transaction) : Transaction := { tx with state := .rolledBack }

end Shunter
