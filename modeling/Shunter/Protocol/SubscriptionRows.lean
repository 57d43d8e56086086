import Shunter.Protocol.RowListCodec
import Shunter.Protocol.ServerMessages
import Shunter.Subscription.ResultRows

/-!
# The row lists of a subscription

The messages that carry rows to a subscriber, and the encoder that each of them
calls.  Transaction updates share encoded lists through a memo whose keys hold
the addresses of the rows, so rows are given by reference.
-/

namespace Shunter.Protocol

open Foundation Bsatn

structure RowRef where
  ptr : Nat
  len : Nat
  deriving DecidableEq

structure SubscriptionUpdate (ρ : Type) where
  queryID : UInt32
  tableName : Bytes
  columns : List ColumnSchema
  inserts : List ρ
  deletes : List ρ

def SubscriptionUpdate.map {ρ ρ' : Type} (f : ρ → ρ') (u : SubscriptionUpdate ρ) :
    SubscriptionUpdate ρ' :=
  ⟨u.queryID, u.tableName, u.columns, u.inserts.map f, u.deletes.map f⟩

inductive UpdateError where
  | inserts (cause : ProtocolError)
  | deletes (cause : ProtocolError)
  | rows (cause : ProtocolError)
  deriving DecidableEq

def UpdateError.cause : UpdateError → ProtocolError
  | .inserts cause | .deletes cause | .rows cause => cause

/-! ## Replies of the executor -/

def encodeProtocolProductRows (rows : List ProductValue) (columns : List ColumnSchema) :
    Except ProtocolError Bytes :=
  if columns = [] then encodeProductRows rows else encodeProductRowsForColumns rows columns

def encodeProtocolSubscriptionUpdate (u : SubscriptionUpdate ProductValue) :
    Except UpdateError WireUpdate := do
  let inserts ← (encodeProtocolProductRows u.inserts u.columns).mapError .inserts
  let deletes ← (encodeProtocolProductRows u.deletes u.columns).mapError .deletes
  .ok ⟨u.queryID, u.tableName, inserts, deletes⟩

def encodeProtocolSubscriptionUpdates :
    List (SubscriptionUpdate ProductValue) → Except UpdateError (List WireUpdate)
  | [] => .ok []
  | u :: us => do
    let wire ← encodeProtocolSubscriptionUpdate u
    let wires ← encodeProtocolSubscriptionUpdates us
    .ok (wire :: wires)

def collectInsertRows (us : List (SubscriptionUpdate ProductValue)) : List ProductValue :=
  us.flatMap (·.inserts)

def collectDeleteRows (us : List (SubscriptionUpdate ProductValue)) : List ProductValue :=
  us.flatMap (·.deletes)

def subscribeSingleRows (us : List (SubscriptionUpdate ProductValue)) : Except UpdateError Bytes :=
  (encodeProductRows (collectInsertRows us)).mapError .rows

/-- The rows of `UnsubscribeSingleApplied`, behind the updates that only the multi reply uses. -/
def unsubscribeSingleRows (us : List (SubscriptionUpdate ProductValue)) :
    Except UpdateError Bytes := do
  let _ ← encodeProtocolSubscriptionUpdates us
  (encodeProductRows (collectDeleteRows us)).mapError .rows

/-- The first update with columns decides; `planned` are the columns of the plan. -/
def declaredViewColumns (planned : List ColumnSchema)
    (us : List (SubscriptionUpdate ProductValue)) : List ColumnSchema :=
  match us.find? fun u => u.columns ≠ [] with
  | some u => u.columns
  | none => planned

def declaredViewRows (planned : List ColumnSchema)
    (us : List (SubscriptionUpdate ProductValue)) : Except UpdateError Bytes :=
  (encodeProtocolProductRows (collectInsertRows us) (declaredViewColumns planned us)).mapError .rows

/-! ## Transaction updates -/

/-- What `memoizedRowListKey` writes out. -/
structure RowListKey where
  columns : List (Nat × ValueKind × Bool)
  rows : List RowRef
  deriving DecidableEq

def memoizedRowListKey (rows : List RowRef) (columns : List ColumnSchema) : RowListKey :=
  ⟨columns.map fun col => (col.index, col.type, col.nullable), rows⟩

abbrev EncodingMemo := RowListKey → Option Bytes

def EncodingMemo.put (memo : EncodingMemo) (key : RowListKey) (encoded : Bytes) : EncodingMemo :=
  Function.update memo key (some encoded)

def emptyEncodedRowList : Bytes := rowListText []

section Memo

variable (memory : RowRef → ProductValue)

def encodeRowsMemoized (rows : List RowRef) (columns : List ColumnSchema) (memo : EncodingMemo) :
    Except ProtocolError Bytes × EncodingMemo :=
  if rows = [] then (.ok emptyEncodedRowList, memo)
  else
    match memo (memoizedRowListKey rows columns) with
    | some cached => (.ok cached, memo)
    | none =>
      match encodeProtocolProductRows (rows.map memory) columns with
      | .error e => (.error e, memo)
      | .ok encoded => (.ok encoded, memo.put (memoizedRowListKey rows columns) encoded)

def encodeSubscriptionUpdateMemoized (u : SubscriptionUpdate RowRef) (memo : EncodingMemo) :
    Except UpdateError WireUpdate × EncodingMemo :=
  match encodeRowsMemoized memory u.inserts u.columns memo with
  | (.error e, memo) => (.error (.inserts e), memo)
  | (.ok inserts, memo) =>
    match encodeRowsMemoized memory u.deletes u.columns memo with
    | (.error e, memo) => (.error (.deletes e), memo)
    | (.ok deletes, memo) => (.ok ⟨u.queryID, u.tableName, inserts, deletes⟩, memo)

def encodeSubscriptionUpdatesMemoized : List (SubscriptionUpdate RowRef) → EncodingMemo →
    Except UpdateError (List WireUpdate) × EncodingMemo
  | [], memo => (.ok [], memo)
  | u :: us, memo =>
    match encodeSubscriptionUpdateMemoized memory u memo with
    | (.error e, memo) => (.error e, memo)
    | (.ok wire, memo) =>
      match encodeSubscriptionUpdatesMemoized us memo with
      | (.error e, memo) => (.error e, memo)
      | (.ok wires, memo) => (.ok (wire :: wires), memo)

/-- The memo after the connections that one fan-out message has served. -/
def memoAfter (served : List (List (SubscriptionUpdate RowRef))) : EncodingMemo :=
  served.foldl (fun memo us => (encodeSubscriptionUpdatesMemoized memory us memo).2) fun _ => none

end Memo

/-! ## Messages -/

inductive RowMessage where
  | subscribeSingleApplied
  | subscribeMultiApplied
  | declaredViewApplied
  | transactionUpdate
  | unsubscribeSingleApplied
  | unsubscribeMultiApplied
  deriving DecidableEq

def WireUpdate.rowLists (w : WireUpdate) : List Bytes := [w.inserts, w.deletes]

/-- The row lists of a message about the updates `us`.  `columns` are those of the plan, and
`served` are the connections that the same fan-out message has served before. -/
def sentRowLists (memory : RowRef → ProductValue) (columns : List ColumnSchema)
    (served : List (List (SubscriptionUpdate RowRef))) (us : List (SubscriptionUpdate RowRef)) :
    RowMessage → Except UpdateError (List Bytes)
  | .subscribeSingleApplied => (subscribeSingleRows (us.map (·.map memory))).map ([·])
  | .declaredViewApplied => (declaredViewRows columns (us.map (·.map memory))).map ([·])
  | .unsubscribeSingleApplied => (unsubscribeSingleRows (us.map (·.map memory))).map ([·])
  | .subscribeMultiApplied | .unsubscribeMultiApplied =>
    (encodeProtocolSubscriptionUpdates (us.map (·.map memory))).map (·.flatMap (·.rowLists))
  | .transactionUpdate =>
    (encodeSubscriptionUpdatesMemoized memory us (memoAfter memory served)).1.map
      (·.flatMap (·.rowLists))

/-- The rows that the lists of a message stand for, with the columns of each. -/
def meantRows (memory : RowRef → ProductValue) (columns : List ColumnSchema)
    (us : List (SubscriptionUpdate RowRef)) : RowMessage →
    List (List ColumnSchema × List ProductValue)
  | .subscribeSingleApplied | .declaredViewApplied =>
    [(columns, collectInsertRows (us.map (·.map memory)))]
  | .unsubscribeSingleApplied => [(columns, collectDeleteRows (us.map (·.map memory)))]
  | .subscribeMultiApplied | .unsubscribeMultiApplied | .transactionUpdate =>
    us.flatMap fun u =>
      [(u.columns, u.inserts.map memory), (u.columns, u.deletes.map memory)]

end Shunter.Protocol
