import Shunter.Store.TableInvariant

/-!
# Transactions

A transaction buffers inserts and deletes over the committed state, allocates
provisional row identifiers and sequence values, and keeps lazily built hash
caches of its own inserts for the uniqueness checks.  The committed state does
not change while a transaction runs, so it is an argument of every operation.
An operation returns the transaction it leaves behind also when it fails.
-/

namespace Shunter

open Foundation

/-! ## Transaction-local buffers -/

structure TxState where
  inserts : GoMap TableID (GoMap RowID ProductValue)
  deletes : GoMap TableID (GoMap RowID Unit)

namespace TxState

def new : TxState := ⟨∅, ∅⟩

def tableInserts (tx : TxState) (tableID : TableID) : GoMap RowID ProductValue :=
  tx.inserts[tableID]?.getD ∅

def tableDeletes (tx : TxState) (tableID : TableID) : GoMap RowID Unit :=
  tx.deletes[tableID]?.getD ∅

def addInsert (tx : TxState) (tableID : TableID) (id : RowID) (row : ProductValue) : TxState :=
  { tx with inserts := tx.inserts.insert tableID ((tx.tableInserts tableID).insert id row) }

def setOrDrop {ν : Type} (outer : GoMap TableID (GoMap RowID ν)) (tableID : TableID)
    (m : GoMap RowID ν) : GoMap TableID (GoMap RowID ν) :=
  if m.isEmpty then outer.erase tableID else outer.insert tableID m

def removeInsert (tx : TxState) (tableID : TableID) (id : RowID) : TxState :=
  { tx with inserts := setOrDrop tx.inserts tableID ((tx.tableInserts tableID).erase id) }

def addDelete (tx : TxState) (tableID : TableID) (id : RowID) : TxState :=
  { tx with deletes := tx.deletes.insert tableID ((tx.tableDeletes tableID).insert id ()) }

def cancelDelete (tx : TxState) (tableID : TableID) (id : RowID) : TxState :=
  { tx with deletes := setOrDrop tx.deletes tableID ((tx.tableDeletes tableID).erase id) }

def isInserted (tx : TxState) (tableID : TableID) (id : RowID) : Bool :=
  (tx.tableInserts tableID).contains id

def isDeleted (tx : TxState) (tableID : TableID) (id : RowID) : Bool :=
  (tx.tableDeletes tableID).contains id

def insert (tx : TxState) (tableID : TableID) (id : RowID) : Option ProductValue :=
  (tx.tableInserts tableID)[id]?

variable {tx : TxState} {tableID tableID' : TableID} {id : RowID} {row : ProductValue}

@[simp] theorem tableInserts_new : new.tableInserts tableID = ∅ := by
  simp [new, tableInserts]

@[simp] theorem tableDeletes_new : new.tableDeletes tableID = ∅ := by
  simp [new, tableDeletes]

theorem tableInserts_addInsert :
    (tx.addInsert tableID id row).tableInserts tableID' =
      if tableID = tableID' then (tx.tableInserts tableID').insert id row
      else tx.tableInserts tableID' := by
  simp only [addInsert, tableInserts, get_insert]
  split
  · next h => simp [h]
  · rfl

@[simp] theorem tableDeletes_addInsert :
    (tx.addInsert tableID id row).tableDeletes tableID' = tx.tableDeletes tableID' := rfl

private theorem getD_setOrDrop {ν : Type} {outer : GoMap TableID (GoMap RowID ν)}
    {m : GoMap RowID ν} :
    (setOrDrop outer tableID m)[tableID']?.getD ∅ =
      if tableID = tableID' then m else outer[tableID']?.getD ∅ := by
  unfold setOrDrop
  split
  · next hm =>
    rw [Std.ExtTreeMap.getElem?_erase, Std.ExtTreeMap.isEmpty_iff.mp hm]
    simp only [Std.compare_eq_iff_eq]
    split <;> rfl
  · rw [Std.ExtTreeMap.getElem?_insert]
    simp only [Std.compare_eq_iff_eq]
    split <;> rfl

theorem tableInserts_removeInsert :
    (tx.removeInsert tableID id).tableInserts tableID' =
      if tableID = tableID' then (tx.tableInserts tableID').erase id
      else tx.tableInserts tableID' := by
  simp only [removeInsert, tableInserts]
  rw [getD_setOrDrop]
  split
  · next h => rw [h]
  · rfl

@[simp] theorem tableDeletes_removeInsert :
    (tx.removeInsert tableID id).tableDeletes tableID' = tx.tableDeletes tableID' := rfl

theorem tableDeletes_addDelete :
    (tx.addDelete tableID id).tableDeletes tableID' =
      if tableID = tableID' then (tx.tableDeletes tableID').insert id ()
      else tx.tableDeletes tableID' := by
  simp only [addDelete, tableDeletes, get_insert]
  split
  · next h => simp [h]
  · rfl

@[simp] theorem tableInserts_addDelete :
    (tx.addDelete tableID id).tableInserts tableID' = tx.tableInserts tableID' := rfl

theorem tableDeletes_cancelDelete :
    (tx.cancelDelete tableID id).tableDeletes tableID' =
      if tableID = tableID' then (tx.tableDeletes tableID').erase id
      else tx.tableDeletes tableID' := by
  simp only [cancelDelete, tableDeletes]
  rw [getD_setOrDrop]
  split
  · next h => rw [h]
  · rfl

@[simp] theorem tableInserts_cancelDelete :
    (tx.cancelDelete tableID id).tableInserts tableID' = tx.tableInserts tableID' := rfl

end TxState

/-! ## Committed state and transactions -/

structure CommittedState where
  tables : GoMap TableID Table
  committedTxID : TxID

def CommittedState.table (cs : CommittedState) (id : TableID) : Option Table := cs.tables[id]?

inductive TransactionState where
  | active | sealed | committed | rolledBack
  deriving DecidableEq, Repr

structure TxUniqueEntry where
  rowID : RowID
  key : IndexKey

structure TxRowEntry where
  rowID : RowID
  row : ProductValue

structure Transaction where
  tx : TxState
  state : TransactionState
  txNextRowIDs : GoMap TableID RowID
  txSequences : GoMap TableID Nat
  /-- The caches of unique keys, by table and index position. -/
  txUniqueIndexes : GoMap TableID (GoMap Nat (BucketMap UInt64 TxUniqueEntry))
  txRowIndexes : GoMap TableID (BucketMap UInt64 TxRowEntry)

namespace Transaction

def new : Transaction := ⟨.new, .active, ∅, ∅, ∅, ∅⟩

/-- `Seal` closes reducer access and keeps the buffers for the commit. -/
def doSeal (t : Transaction) : Transaction :=
  if t.state = .active then { t with state := .sealed } else t

def checkUsable (t : Transaction) : Option StoreError :=
  match t.state with
  | .active => none
  | .rolledBack => some .transactionRolledBack
  | _ => some .transactionClosed

/-! ### Sequence values and row identifiers -/

def nextSequenceValue (t : Transaction) (tableID : TableID) (table : Table) : Nat :=
  t.txSequences[tableID]?.getD (table.sequence.getD 0)

def setNextSequenceValue (t : Transaction) (tableID : TableID) (next : Nat) : Transaction :=
  { t with txSequences := t.txSequences.insert tableID next }

def advanceTxSequencePastValue (t : Transaction) (tableID : TableID) (table : Table)
    (observed : Nat) : Transaction :=
  let current := t.nextSequenceValue tableID table
  let next := nextAutoIncrementSequenceValue observed
  if current ≠ 0 ∧ next > current then t.setNextSequenceValue tableID next else t

def isZeroAutoIncrementValue (v : Value) (kind : ValueKind) : Bool :=
  valueAsUint64 v kind == some 0

/-- The source panics on kinds that cannot autoincrement; the value is then left as it is. -/
def newAutoIncrementValue (n : Nat) (kind : ValueKind) (old : Value) : Value :=
  match kind with
  | .int8 => ⟨.int8, some (BitVec.ofNat 8 n)⟩
  | .uint8 => ⟨.uint8, some (BitVec.ofNat 8 n)⟩
  | .int16 => ⟨.int16, some (BitVec.ofNat 16 n)⟩
  | .uint16 => ⟨.uint16, some (BitVec.ofNat 16 n)⟩
  | .int32 => ⟨.int32, some (BitVec.ofNat 32 n)⟩
  | .uint32 => ⟨.uint32, some (BitVec.ofNat 32 n)⟩
  | .int64 => ⟨.int64, some (BitVec.ofNat 64 n)⟩
  | .uint64 => ⟨.uint64, some (BitVec.ofNat 64 n)⟩
  | _ => old

/--
The row to store and the sequence value to advance past.  A zero
autoincrement column takes the next sequence value; 0 is the exhausted
sentinel, and the largest `uint64` is never handed out.
-/
def applyAutoIncrement (t : Transaction) (tableID : TableID) (table : Table)
    (row : ProductValue) : Except StoreError (ProductValue × Option Nat) :=
  match table.sequence, table.sequenceCol with
  | some _, some c =>
    match table.schema.columns[c]? with
    | none => .ok (row, none)
    | some col =>
      let value := row.getD c ⟨.bool, some false⟩
      if !isZeroAutoIncrementValue value col.type then
        .ok (row, valueAsUint64 value col.type)
      else
        match autoIncrementMax col.type with
        | none => .error .autoIncrementType
        | some max =>
          let next := t.nextSequenceValue tableID table
          if next = 0 ∨ next > max ∨ (next = max ∧ max = maxUint64) then
            .error .sequenceOverflow
          else .ok (row.set c (newAutoIncrementValue next col.type value), some next)
  | _, _ => .ok (row, none)

/-- Row identifier 0 is outside the allocator range, and the largest would wrap to it. -/
def checkRowIDValueAvailable (next : RowID) : Option StoreError :=
  if next = 0 ∨ next = maxUint64 then some .rowIDOverflow else none

def checkRowIDAvailable (table : Table) : Option StoreError :=
  checkRowIDValueAvailable table.nextID

def nextRowID (t : Transaction) (tableID : TableID) (table : Table) : RowID :=
  t.txNextRowIDs[tableID]?.getD table.nextID

def setNextRowID (t : Transaction) (tableID : TableID) (next : RowID) : Transaction :=
  { t with txNextRowIDs := t.txNextRowIDs.insert tableID next }

def allocRowIDForInsert (t : Transaction) (tableID : TableID) (table : Table) :
    Except StoreError (Transaction × RowID) :=
  let next := t.nextRowID tableID table
  match checkRowIDValueAvailable next with
  | some e => .error e
  | none => .ok (t.setNextRowID tableID ((next + 1) % 2 ^ 64), next)

/-! ### Caches of the transaction's inserts -/

def tableUniqueIndexes (t : Transaction) (tableID : TableID) :
    GoMap Nat (BucketMap UInt64 TxUniqueEntry) :=
  t.txUniqueIndexes[tableID]?.getD ∅

def setUniqueIndex (t : Transaction) (tableID : TableID) (idxOrdinal : Nat)
    (entries : BucketMap UInt64 TxUniqueEntry) : Transaction :=
  { t with
    txUniqueIndexes :=
      t.txUniqueIndexes.insert tableID ((t.tableUniqueIndexes tableID).insert idxOrdinal entries) }

def ensureTxUniqueIndex (t : Transaction) (tableID : TableID) (idxOrdinal : Nat) (idx : Index) :
    Transaction × BucketMap UInt64 TxUniqueEntry :=
  match (t.tableUniqueIndexes tableID)[idxOrdinal]? with
  | some entries => (t, entries)
  | none =>
    let entries := (t.tx.tableInserts tableID).toList.foldl
      (fun m p => m.push (idx.extractKey p.2).hash64 ⟨p.1, idx.extractKey p.2⟩) ∅
    (t.setUniqueIndex tableID idxOrdinal entries, entries)

def checkCommittedUnique (t : Transaction) (tableID : TableID) (table : Table) (idx : Index)
    (key : IndexKey) : Option StoreError :=
  if (idx.btree.rowIDs key).all fun rid => t.tx.isDeleted tableID rid then none
  else some (uniqueViolationError table.schema idx.schema key)

def checkTxUnique (t : Transaction) (tableID : TableID) (table : Table) (idxOrdinal : Nat)
    (idx : Index) (key : IndexKey) : Transaction × Option StoreError :=
  match t.ensureTxUniqueIndex tableID idxOrdinal idx with
  | (t, entries) =>
    if (entries.bucket key.hash64).any fun entry => key.equal entry.key then
      (t, some (uniqueViolationError table.schema idx.schema key))
    else (t, none)

def ensureTxRowIndex (t : Transaction) (tableID : TableID) :
    Transaction × BucketMap UInt64 TxRowEntry :=
  match t.txRowIndexes[tableID]? with
  | some entries => (t, entries)
  | none =>
    let entries := (t.tx.tableInserts tableID).toList.foldl
      (fun m p => m.push p.2.hash64 ⟨p.1, p.2⟩) ∅
    ({ t with txRowIndexes := t.txRowIndexes.insert tableID entries }, entries)

def hasTxDuplicateRow (t : Transaction) (tableID : TableID) (row : ProductValue) :
    Transaction × Bool :=
  match t.ensureTxRowIndex tableID with
  | (t, entries) => (t, (entries.bucket row.hash64).any fun entry => entry.row.equal row)

def indexOrdinals (table : Table) : List (Nat × Index) :=
  table.indexes.zipIdx.map fun p => (p.2, p.1)

/-- The loop of `trackTxInsert` and `untrackTxInsert` over the caches that exist. -/
def updateUniqueIndexes (tableID : TableID)
    (change : Index → BucketMap UInt64 TxUniqueEntry → BucketMap UInt64 TxUniqueEntry)
    (t : Transaction) : List (Nat × Index) → Transaction
  | [] => t
  | (idxOrdinal, idx) :: rest =>
    match (t.tableUniqueIndexes tableID)[idxOrdinal]? with
    | none => updateUniqueIndexes tableID change t rest
    | some entries =>
      updateUniqueIndexes tableID change
        (t.setUniqueIndex tableID idxOrdinal (change idx entries)) rest

def updateRowIndex (tableID : TableID)
    (change : BucketMap UInt64 TxRowEntry → BucketMap UInt64 TxRowEntry)
    (t : Transaction) : Transaction :=
  match t.txRowIndexes[tableID]? with
  | none => t
  | some entries => { t with txRowIndexes := t.txRowIndexes.insert tableID (change entries) }

def trackTxInsert (t : Transaction) (tableID : TableID) (rowID : RowID) (row : ProductValue)
    (table : Table) : Transaction :=
  let t := updateUniqueIndexes tableID
    (fun idx entries =>
      let key := idx.extractKey row
      entries.push key.hash64 ⟨rowID, key⟩) t (indexOrdinals table)
  updateRowIndex tableID (fun entries => entries.push row.hash64 ⟨rowID, row⟩) t

def untrackTxInsert (t : Transaction) (tableID : TableID) (rowID : RowID) (row : ProductValue)
    (table : Table) : Transaction :=
  let t := updateUniqueIndexes tableID
    (fun idx entries =>
      entries.dropFirst (idx.extractKey row).hash64 fun entry => entry.rowID == rowID)
    t (indexOrdinals table)
  updateRowIndex tableID
    (fun entries => entries.dropFirst row.hash64 fun entry => entry.rowID == rowID) t

def addInsert (t : Transaction) (tableID : TableID) (rowID : RowID) (row : ProductValue)
    (table : Table) : Transaction :=
  { t with tx := t.tx.addInsert tableID rowID row }.trackTxInsert tableID rowID row table

def removeInsert (t : Transaction) (tableID : TableID) (rowID : RowID) (table : Table) :
    Transaction :=
  let t :=
    match t.tx.insert tableID rowID with
    | some row => t.untrackTxInsert tableID rowID row table
    | none => t
  { t with tx := t.tx.removeInsert tableID rowID }

/-! ### Insert -/

def checkTxUniques (t : Transaction) (tableID : TableID) (table : Table) (row : ProductValue)
    (check : Index → IndexKey → Option StoreError) :
    List (Nat × Index) → Transaction × Option StoreError
  | [] => (t, none)
  | (idxOrdinal, idx) :: rest =>
    if !idx.schema.unique then t.checkTxUniques tableID table row check rest
    else
      let key := idx.extractKey row
      match check idx key with
      | some e => (t, some e)
      | none =>
        match t.checkTxUnique tableID table idxOrdinal idx key with
        | (t, some e) => (t, some e)
        | (t, none) => t.checkTxUniques tableID table row check rest

def checkTxInsertConflicts (t : Transaction) (tableID : TableID) (table : Table)
    (row : ProductValue) : Transaction × Option StoreError :=
  match t.checkTxUniques tableID table row (fun _ _ => none) (indexOrdinals table) with
  | (t, some e) => (t, some e)
  | (t, none) =>
    match table.rowHashIndex with
    | none => (t, none)
    | some _ =>
      match t.hasTxDuplicateRow tableID row with
      | (t, true) => (t, some .duplicateRow)
      | (t, false) => (t, none)

def tryUndeleteRowIDs (t : Transaction) (tableID : TableID) (table : Table) (row : ProductValue) :
    List RowID → Transaction × Except StoreError (Option RowID)
  | [] => (t, .ok none)
  | rid :: rowIDs =>
    if !t.tx.isDeleted tableID rid then t.tryUndeleteRowIDs tableID table row rowIDs
    else
      match table.rowView rid with
      | none => t.tryUndeleteRowIDs tableID table row rowIDs
      | some committedRow =>
        if committedRow.equal row then
          match t.checkTxInsertConflicts tableID table row with
          | (t, some e) => (t, .error e)
          | (t, none) => ({ t with tx := t.tx.cancelDelete tableID rid }, .ok (some rid))
        else t.tryUndeleteRowIDs tableID table row rowIDs

def tryUndelete (t : Transaction) (tableID : TableID) (table : Table) (row : ProductValue) :
    Transaction × Except StoreError (Option RowID) :=
  let hashed (t : Transaction) : Transaction × Except StoreError (Option RowID) :=
    match table.rowHashIndex with
    | none => (t, .ok none)
    | some hashes => t.tryUndeleteRowIDs tableID table row (hashes.bucket row.hash64)
  match table.primaryIndex with
  | none => hashed t
  | some pk =>
    match t.tryUndeleteRowIDs tableID table row (pk.btree.seek (pk.extractKey row)) with
    | (t, .error e) => (t, .error e)
    | (t, .ok (some rid)) => (t, .ok (some rid))
    | (t, .ok none) => hashed t

def hasCommittedDuplicate (t : Transaction) (tableID : TableID) (table : Table)
    (hashes : BucketMap UInt64 RowID) (row : ProductValue) : Bool :=
  (hashes.bucket row.hash64).any fun rid =>
    !t.tx.isDeleted tableID rid && ((table.rowView rid).map fun r => r.equal row).getD false

def checkInsertConstraints (t : Transaction) (tableID : TableID) (table : Table)
    (row : ProductValue) : Transaction × Option StoreError :=
  let committedCheck (idx : Index) (key : IndexKey) : Option StoreError :=
    if table.schema.isEvent then none else t.checkCommittedUnique tableID table idx key
  match t.checkTxUniques tableID table row committedCheck (indexOrdinals table) with
  | (t, some e) => (t, some e)
  | (t, none) =>
    match table.rowHashIndex with
    | none => (t, none)
    | some hashes =>
      if !table.schema.isEvent && t.hasCommittedDuplicate tableID table hashes row then
        (t, some .duplicateRow)
      else
        match t.hasTxDuplicateRow tableID row with
        | (t, true) => (t, some .duplicateRow)
        | (t, false) => (t, none)

def finishInsert (t : Transaction) (tableID : TableID) (table : Table) (row : ProductValue)
    (sequenceValue : Option Nat) : Transaction × Except StoreError RowID :=
  match t.allocRowIDForInsert tableID table with
  | .error e => (t, .error e)
  | .ok (t, id) =>
    let t := sequenceValue.elim t (t.advanceTxSequencePastValue tableID table)
    (t.addInsert tableID id row table, .ok id)

def insert (cs : CommittedState) (t : Transaction) (tableID : TableID) (row : ProductValue) :
    Transaction × Except StoreError RowID :=
  match t.checkUsable with
  | some e => (t, .error e)
  | none =>
  match cs.table tableID with
  | none => (t, .error (.tableNotFound tableID))
  | some table =>
  match validateRow table.schema row with
  | some e => (t, .error e)
  | none =>
  let rowIDErr := checkRowIDAvailable table
  match t.applyAutoIncrement tableID table row with
  | .error e => (t, .error (rowIDErr.getD e))
  | .ok (row, sequenceValue) =>
  match if table.schema.isEvent then (t, .ok none) else t.tryUndelete tableID table row with
  | (t, .error e) => (t, .error e)
  | (t, .ok (some rowID)) => (t, .ok rowID)
  | (t, .ok none) =>
  match rowIDErr with
  | some e => (t, .error e)
  | none =>
  match t.checkInsertConstraints tableID table row with
  | (t, some e) => (t, .error e)
  | (t, none) => t.finishInsert tableID table row sequenceValue

/-! ### Delete and Update -/

def delete (cs : CommittedState) (t : Transaction) (tableID : TableID) (rowID : RowID) :
    Transaction × Option StoreError :=
  match t.checkUsable with
  | some e => (t, some e)
  | none =>
  match cs.table tableID with
  | none => (t, some (.tableNotFound tableID))
  | some table =>
    if t.tx.isInserted tableID rowID then (t.removeInsert tableID rowID table, none)
    else if (table.rowView rowID).isNone then (t, some (.rowNotFound rowID))
    else if t.tx.isDeleted tableID rowID then (t, some (.rowAlreadyDeleted rowID))
    else ({ t with tx := t.tx.addDelete tableID rowID }, none)

def restoreDeleted (cs : CommittedState) (t : Transaction) (tableID : TableID) (rowID : RowID)
    (oldTxRow : Option ProductValue) : Transaction :=
  match oldTxRow with
  | none => { t with tx := t.tx.cancelDelete tableID rowID }
  | some oldRow =>
    match cs.table tableID with
    | some table => t.addInsert tableID rowID oldRow table
    | none => { t with tx := t.tx.addInsert tableID rowID oldRow }

def update (cs : CommittedState) (t : Transaction) (tableID : TableID) (rowID : RowID)
    (newRow : ProductValue) : Transaction × Except StoreError RowID :=
  match t.checkUsable with
  | some e => (t, .error e)
  | none =>
  let oldTxRow := t.tx.insert tableID rowID
  let missing : Option StoreError :=
    if t.tx.isInserted tableID rowID then none
    else
      match cs.table tableID with
      | none => some (.tableNotFound tableID)
      | some table =>
        if (table.rowView rowID).isNone ∨ t.tx.isDeleted tableID rowID then
          some (.rowNotFound rowID)
        else none
  match missing with
  | some e => (t, .error e)
  | none =>
  match t.delete cs tableID rowID with
  | (t, some e) => (t, .error e)
  | (t, none) =>
  match t.insert cs tableID newRow with
  | (t, .ok newID) => (t, .ok newID)
  | (t, .error e) => (restoreDeleted cs t tableID rowID oldTxRow, .error e)

end Transaction

end Shunter
