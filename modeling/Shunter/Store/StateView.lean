import Shunter.Store.Transaction

/-!
# Reads of a transaction

A state view merges the committed rows with the buffers of a transaction.  The
reads of a transaction go through such a view while the transaction is active
and return nothing afterwards.  Iterators are lists of what they yield; the
source visits maps in an unspecified order, here in ascending order.
-/

namespace Shunter

namespace StateView

def getRow (cs : CommittedState) (tx : TxState) (tableID : TableID) (rowID : RowID) :
    Option ProductValue :=
  match tx.insert tableID rowID with
  | some row => some row
  | none =>
    if tx.isDeleted tableID rowID then none
    else
      match cs.table tableID with
      | none => none
      | some table => table.rowView rowID

def scanTable (cs : CommittedState) (tx : TxState) (tableID : TableID) :
    List (RowID × ProductValue) :=
  let committed :=
    match cs.table tableID with
    | none => []
    | some table => table.scan.filter fun e => !tx.isDeleted tableID e.1
  committed ++ (tx.tableInserts tableID).toList

def lookupIndex (cs : CommittedState) (tableID : TableID) (indexID : IndexID) :
    Option (Table × Index) :=
  match cs.table tableID with
  | none => none
  | some table => (table.indexByID indexID).map fun idx => (table, idx)

def seekIndexRows (cs : CommittedState) (tx : TxState) (tableID : TableID) (indexID : IndexID)
    (committedIDs : Index → List RowID) (txMatch : Index → ProductValue → Bool) : List RowID :=
  match lookupIndex cs tableID indexID with
  | none => []
  | some (table, idx) =>
    ((committedIDs idx).filter fun rid =>
      !tx.isDeleted tableID rid && (table.rowView rid).isSome) ++
    (((tx.tableInserts tableID).toList.filter fun p => txMatch idx p.2).map Prod.fst)

def seekIndex (cs : CommittedState) (tx : TxState) (tableID : TableID) (indexID : IndexID)
    (key : IndexKey) : List RowID :=
  seekIndexRows cs tx tableID indexID (fun idx => idx.btree.seek key)
    fun idx row => (idx.extractKey row).equal key

def seekIndexBounds (cs : CommittedState) (tx : TxState) (tableID : TableID) (indexID : IndexID)
    (low high : Bound) : List RowID :=
  seekIndexRows cs tx tableID indexID (fun idx => idx.btree.collectBounds low high)
    fun idx row =>
      matchesLowerBound (idx.extractKey row) low && matchesUpperBound (idx.extractKey row) high

end StateView

namespace Transaction

def getRow (cs : CommittedState) (t : Transaction) (tableID : TableID) (rowID : RowID) :
    Option ProductValue :=
  match t.checkUsable with
  | some _ => none
  | none => StateView.getRow cs t.tx tableID rowID

def scanTable (cs : CommittedState) (t : Transaction) (tableID : TableID) :
    List (RowID × ProductValue) :=
  match t.checkUsable with
  | some _ => []
  | none => StateView.scanTable cs t.tx tableID

def rowsOf (cs : CommittedState) (t : Transaction) (tableID : TableID) (rids : List RowID) :
    List (RowID × ProductValue) :=
  rids.filterMap fun rid => (StateView.getRow cs t.tx tableID rid).map fun row => (rid, row)

def seekIndex (cs : CommittedState) (t : Transaction) (tableID : TableID) (indexID : IndexID)
    (key : IndexKey) : List (RowID × ProductValue) :=
  match t.checkUsable with
  | some _ => []
  | none => rowsOf cs t tableID (StateView.seekIndex cs t.tx tableID indexID key)

def seekIndexRange (cs : CommittedState) (t : Transaction) (tableID : TableID)
    (indexID : IndexID) (lower upper : Bound) : List (RowID × ProductValue) :=
  match t.checkUsable with
  | some _ => []
  | none => rowsOf cs t tableID (StateView.seekIndexBounds cs t.tx tableID indexID lower upper)

end Transaction

end Shunter
