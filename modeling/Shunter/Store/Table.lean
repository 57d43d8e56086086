import Shunter.Foundation.BucketMap
import Shunter.Store.BTreeIndex
import Shunter.Store.Validate

/-!
# Tables

A table keeps its rows by row identifier, one B-tree per schema index, and, for
tables without a primary key, a hash index that gives them set semantics.
Operations that write before they can fail return the table they leave behind
next to the error.
-/

namespace Shunter

open Foundation

/-- Go maps with ordered keys; a nil map and an empty map are not told apart. -/
abbrev GoMap (κ ν : Type) [Ord κ] := Std.ExtTreeMap κ ν

structure Index where
  schema : IndexSchema
  btree : BTreeIndex

namespace Index

def new (is : IndexSchema) : Index := ⟨is, .new⟩

def extractKey (idx : Index) (row : ProductValue) : IndexKey :=
  Shunter.extractKey row idx.schema.columns

def insertRow (idx : Index) (id : RowID) (row : ProductValue) : Index :=
  { idx with btree := idx.btree.insert (idx.extractKey row) id }

def removeRow (idx : Index) (id : RowID) (row : ProductValue) : Index :=
  { idx with btree := idx.btree.remove (idx.extractKey row) id }

end Index

structure Table where
  schema : TableSchema
  rows : GoMap RowID ProductValue
  nextID : RowID
  indexes : List Index
  /-- Set semantics for tables without a primary key. -/
  rowHashIndex : Option (BucketMap UInt64 RowID)
  sequence : Option Nat
  sequenceCol : Option Nat

def newTable (ts : TableSchema) : Table where
  schema := ts
  rows := ∅
  nextID := 1
  indexes := ts.indexes.map Index.new
  rowHashIndex := if ts.primaryIndex.isSome then none else some ∅
  sequence := ts.autoIncrementCol.map fun _ => 1
  sequenceCol := ts.autoIncrementCol

def uniqueViolationError (ts : TableSchema) (is : IndexSchema) (key : IndexKey) : StoreError :=
  if is.primary then .primaryKeyViolation ts.name is.name key
  else .uniqueConstraintViolation ts.name is.name key

namespace Table

/-- `AllocRowID`, on a `uint64` counter. -/
def allocRowID (t : Table) : RowID × Table :=
  (t.nextID, { t with nextID := (t.nextID + 1) % 2 ^ 64 })

/--
The loop of `insertIntoIndexes`: `done` are the indexes already written.  A
collision removes the new row from them again.
-/
def insertIntoIndexes (ts : TableSchema) (id : RowID) (row : ProductValue) :
    List Index → List Index → List Index × Option StoreError
  | done, [] => (done, none)
  | done, idx :: rest =>
    let key := idx.extractKey row
    if idx.schema.unique ∧ (idx.btree.rowIDs key).length ≠ 0 then
      (done.map (·.removeRow id row) ++ idx :: rest,
        some (uniqueViolationError ts idx.schema key))
    else insertIntoIndexes ts id row (done ++ [idx.insertRow id row]) rest

def removeFromIndexes (t : Table) (id : RowID) (row : ProductValue) : Table :=
  { t with indexes := t.indexes.map (·.removeRow id row) }

def bucketHasRow (t : Table) (bucket : List RowID) (row : ProductValue) : Bool :=
  bucket.any fun id => (t.rows[id]?.getD []).equal row

/-- `InsertRow` does not validate; it reports constraint violations. -/
def insertRow (t : Table) (id : RowID) (row : ProductValue) : Table × Option StoreError :=
  if t.rows.contains id then (t, some (.duplicateRowID id))
  else
    match insertIntoIndexes t.schema id row [] t.indexes with
    | (indexes, some e) => ({ t with indexes := indexes }, some e)
    | (indexes, none) =>
      let t := { t with indexes := indexes }
      match t.rowHashIndex with
      | none => ({ t with rows := t.rows.insert id row }, none)
      | some hashes =>
        if t.bucketHasRow (hashes.bucket row.hash64) row then
          (t.removeFromIndexes id row, some .duplicateRow)
        else
          ({ t with
            rowHashIndex := some (hashes.push row.hash64 id)
            rows := t.rows.insert id row }, none)

def deleteRow (t : Table) (id : RowID) : Table × Option ProductValue :=
  match t.rows[id]? with
  | none => (t, none)
  | some row =>
    let t := t.removeFromIndexes id row
    ({ t with
      rowHashIndex := t.rowHashIndex.map fun hashes =>
        hashes.dropFirst row.hash64 fun rid => rid == id
      rows := t.rows.erase id }, some row)

/-- `GetRow` and `rowView`; rows need no copying here. -/
def rowView (t : Table) (id : RowID) : Option ProductValue := t.rows[id]?

/-- `Scan`: the source visits the rows in an unspecified order, here it ascends. -/
def scan (t : Table) : List (RowID × ProductValue) := t.rows.toList

def setNextID (t : Table) (id : RowID) : Table := { t with nextID := id }

def sequenceValue (t : Table) : Option Nat := t.sequence

def setSequenceValue (t : Table) (v : Nat) : Table :=
  { t with sequence := t.sequence.map fun _ => v }

def indexByID (t : Table) (id : IndexID) : Option Index :=
  t.indexes.find? fun idx => idx.schema.id == id

def primaryIndex (t : Table) : Option Index := t.indexes.find? (·.schema.primary)

end Table

end Shunter
