import Shunter.Protocol.Wire

/-!
# Server messages

The replies and updates that a server sends, with their encoder, which takes a
limit on the size of a frame, and their decoder.
-/

namespace Shunter.Protocol

open Foundation

/-! ## Messages -/

abbrev Identity := List.Vector UInt8 32

abbrev ConnectionID := List.Vector UInt8 16

/-- The update of a query as the wire carries it, with encoded row lists. -/
structure WireUpdate where
  queryID : UInt32
  tableName : Bytes
  inserts : Bytes
  deletes : Bytes
  deriving DecidableEq

structure IdentityToken where
  identity : Identity
  token : Bytes
  connectionID : ConnectionID
  deriving DecidableEq

/-- The fields that all replies to a subscription begin with. -/
structure AppliedHeader where
  requestID : UInt32
  totalHostExecutionDurationMicros : UInt64
  queryID : UInt32
  deriving DecidableEq

structure SubscribeSingleApplied where
  header : AppliedHeader
  tableName : Bytes
  rows : Bytes
  deriving DecidableEq

structure UnsubscribeSingleApplied where
  header : AppliedHeader
  hasRows : Bool
  rows : Bytes
  deriving DecidableEq

structure SubscriptionError where
  totalHostExecutionDurationMicros : UInt64
  requestID : Option UInt32
  queryID : Option UInt32
  tableID : Option UInt32
  error : Bytes
  deriving DecidableEq

structure SubscribeMultiApplied where
  header : AppliedHeader
  update : List WireUpdate
  deriving DecidableEq

structure UnsubscribeMultiApplied where
  header : AppliedHeader
  update : List WireUpdate
  deriving DecidableEq

inductive UpdateStatus where
  | committed (update : List WireUpdate)
  | failed (error : Bytes)
  deriving DecidableEq

structure ReducerCallInfo where
  reducerName : Bytes
  reducerID : UInt32
  args : Bytes
  requestID : UInt32
  deriving DecidableEq

structure TransactionUpdate where
  status : Option UpdateStatus
  timestamp : Int64
  callerIdentity : Identity
  callerConnectionID : ConnectionID
  reducerCall : ReducerCallInfo
  totalHostExecutionDuration : Int64
  deriving DecidableEq

structure TransactionUpdateLight where
  requestID : UInt32
  update : List WireUpdate
  deriving DecidableEq

structure OneOffTable where
  tableName : Bytes
  rows : Bytes
  deriving DecidableEq

structure OneOffQueryResponse where
  messageID : Bytes
  error : Option Bytes
  tables : List OneOffTable
  totalHostExecutionDuration : Int64
  deriving DecidableEq

structure ProcedureResponse where
  messageID : Bytes
  error : Option Bytes
  result : Bytes
  totalHostExecutionDuration : Int64
  deriving DecidableEq

inductive ServerMessage where
  | identityToken (m : IdentityToken)
  | subscribeSingleApplied (m : SubscribeSingleApplied)
  | unsubscribeSingleApplied (m : UnsubscribeSingleApplied)
  | subscriptionError (m : SubscriptionError)
  | transactionUpdate (m : TransactionUpdate)
  | transactionUpdateLight (m : TransactionUpdateLight)
  | oneOffQueryResponse (m : OneOffQueryResponse)
  | procedureResponse (m : ProcedureResponse)
  | subscribeMultiApplied (m : SubscribeMultiApplied)
  | unsubscribeMultiApplied (m : UnsubscribeMultiApplied)
  deriving DecidableEq

@[match_pattern] def tagIdentityToken : UInt8 := 1
@[match_pattern] def tagSubscribeSingleApplied : UInt8 := 2
@[match_pattern] def tagUnsubscribeSingleApplied : UInt8 := 3
@[match_pattern] def tagSubscriptionError : UInt8 := 4
@[match_pattern] def tagTransactionUpdate : UInt8 := 5
@[match_pattern] def tagOneOffQueryResponse : UInt8 := 6
@[match_pattern] def tagTransactionUpdateLight : UInt8 := 8
@[match_pattern] def tagSubscribeMultiApplied : UInt8 := 9
@[match_pattern] def tagUnsubscribeMultiApplied : UInt8 := 10
@[match_pattern] def tagProcedureResponse : UInt8 := 11

@[match_pattern] def updateStatusTagCommitted : UInt8 := 0
@[match_pattern] def updateStatusTagFailed : UInt8 := 1

/-! ## Checks before encoding -/

def validateSubscriptionUpdatesForEncode (field : String) (updates : List WireUpdate) :
    Except ProtocolError Unit :=
  requireValidWireStrings (fun i => s!"{field}[{i}].TableName") 0 (updates.map (·.tableName))

def validateOneOffTablesForEncode (tables : List OneOffTable) : Except ProtocolError Unit :=
  requireValidWireStrings (fun i => s!"OneOffQueryResponse.Tables[{i}].TableName") 0
    (tables.map (·.tableName))

def validateUpdateStatusForEncode : Option UpdateStatus → Except ProtocolError Unit
  | some (.committed update) => validateSubscriptionUpdatesForEncode "StatusCommitted.Update" update
  | some (.failed error) => requireValidWireString "StatusFailed.Error" error
  | none => .ok ()

def requireValidOptionalString (field : String) : Option Bytes → Except ProtocolError Unit
  | some s => requireValidWireString field s
  | none => .ok ()

def validateServerMessageForEncode : ServerMessage → Except ProtocolError Unit
  | .identityToken m => requireValidWireString "IdentityToken.Token" m.token
  | .subscribeSingleApplied m =>
    requireValidWireString "SubscribeSingleApplied.TableName" m.tableName
  | .subscriptionError m => requireValidWireString "SubscriptionError.Error" m.error
  | .transactionUpdate m => do
    validateUpdateStatusForEncode m.status
    requireValidWireString "ReducerCallInfo.ReducerName" m.reducerCall.reducerName
  | .transactionUpdateLight m =>
    validateSubscriptionUpdatesForEncode "TransactionUpdateLight.Update" m.update
  | .oneOffQueryResponse m => do
    requireValidOptionalString "OneOffQueryResponse.Error" m.error
    validateOneOffTablesForEncode m.tables
  | .procedureResponse m => requireValidOptionalString "ProcedureResponse.Error" m.error
  | .subscribeMultiApplied m =>
    validateSubscriptionUpdatesForEncode "SubscribeMultiApplied.Update" m.update
  | .unsubscribeMultiApplied m =>
    validateSubscriptionUpdatesForEncode "UnsubscribeMultiApplied.Update" m.update
  | .unsubscribeSingleApplied _ => .ok ()

/-! ## Sizes -/

namespace Sizer

def subscriptionUpdate (u : WireUpdate) (s : Sizer) : Sizer :=
  (((s.add 4).string u.tableName).bytes u.inserts).bytes u.deletes

def subscriptionUpdates (ups : List WireUpdate) (s : Sizer) : Sizer :=
  ups.foldl (fun s u => s.subscriptionUpdate u) (s.count "SubscriptionUpdate count" ups.length)

def oneOffTable (t : OneOffTable) (s : Sizer) : Sizer := (s.string t.tableName).bytes t.rows

def oneOffTables (tables : List OneOffTable) (s : Sizer) : Sizer :=
  tables.foldl (fun s t => s.oneOffTable t) (s.count "OneOffTable count" tables.length)

def updateStatus (status : Option UpdateStatus) (s : Sizer) : Sizer :=
  match status with
  | some (.committed update) => (s.add 1).subscriptionUpdates update
  | some (.failed error) => (s.add 1).string error
  | none => s.add 1

def reducerCallInfo (rci : ReducerCallInfo) (s : Sizer) : Sizer :=
  (((s.string rci.reducerName).add 4).bytes rci.args).add 4

end Sizer

def sizeAppliedHeader : Nat := 4 + 8 + 4

def ServerMessage.sizer (m : ServerMessage) (s : Sizer) : Sizer :=
  let s := s.add 1
  match m with
  | .identityToken m => ((s.add 32).string m.token).add 16
  | .subscribeSingleApplied m => ((s.add sizeAppliedHeader).string m.tableName).bytes m.rows
  | .unsubscribeSingleApplied m =>
    let s := s.add (sizeAppliedHeader + 1)
    if m.hasRows then s.bytes m.rows else s
  | .subscriptionError m =>
    ((((s.add 8).optionalUint32 m.requestID).optionalUint32 m.queryID).optionalUint32
      m.tableID).string m.error
  | .transactionUpdate m =>
    (((s.updateStatus m.status).add (8 + 32 + 16)).reducerCallInfo m.reducerCall).add 8
  | .transactionUpdateLight m => (s.add 4).subscriptionUpdates m.update
  | .oneOffQueryResponse m =>
    (((s.bytes m.messageID).optionalString m.error).oneOffTables m.tables).add 8
  | .procedureResponse m =>
    (((s.bytes m.messageID).optionalString m.error).bytes m.result).add 8
  | .subscribeMultiApplied m => (s.add sizeAppliedHeader).subscriptionUpdates m.update
  | .unsubscribeMultiApplied m => (s.add sizeAppliedHeader).subscriptionUpdates m.update

def encodedServerMessageSize (m : ServerMessage) : Except ProtocolError Nat :=
  (m.sizer Sizer.start).size

def checkOutboundLimit (maxBytes size : Nat) : Except ProtocolError Nat :=
  if 0 < maxBytes ∧ size > maxBytes then .error (.outboundMessageLimit size maxBytes) else .ok size

def validateServerMessageSize (m : ServerMessage) (maxBytes : Nat) : Except ProtocolError Nat := do
  validateServerMessageForEncode m
  let size ← encodedServerMessageSize m
  checkOutboundLimit maxBytes size

/-! ## Encoding -/

def writeAppliedHeader (h : AppliedHeader) : Bytes :=
  writeUint32 h.requestID ++ writeUint64 h.totalHostExecutionDurationMicros ++
    writeUint32 h.queryID

def writeSubscriptionUpdate (u : WireUpdate) : Except ProtocolError Bytes := do
  let tableName ← writeString u.tableName
  let inserts ← writeBytes u.inserts
  let deletes ← writeBytes u.deletes
  .ok (writeUint32 u.queryID ++ tableName ++ inserts ++ deletes)

def writeSubscriptionUpdates : List WireUpdate → Except ProtocolError Bytes :=
  writeCounted "SubscriptionUpdate count" writeSubscriptionUpdate

def writeOneOffTable (t : OneOffTable) : Except ProtocolError Bytes := do
  let tableName ← writeString t.tableName
  let rows ← writeBytes t.rows
  .ok (tableName ++ rows)

def writeOneOffTables : List OneOffTable → Except ProtocolError Bytes :=
  writeCounted "OneOffTable count" writeOneOffTable

def writeUpdateStatus : Option UpdateStatus → Except ProtocolError Bytes
  | some (.committed update) => do
    let updates ← writeSubscriptionUpdates update
    .ok (updateStatusTagCommitted :: updates)
  | some (.failed error) => do
    let text ← writeString error
    .ok (updateStatusTagFailed :: text)
  | none => .error .nilUpdateStatus

def writeReducerCallInfo (rci : ReducerCallInfo) : Except ProtocolError Bytes := do
  let reducerName ← writeString rci.reducerName
  let args ← writeBytes rci.args
  .ok (reducerName ++ writeUint32 rci.reducerID ++ args ++ writeUint32 rci.requestID)

def writeOptionalRows (hasRows : Bool) (rows : Bytes) : Except ProtocolError Bytes :=
  if hasRows then do
    let text ← writeBytes rows
    .ok (1 :: text)
  else .ok [0]

/-- The buffer of `EncodeServerMessageWithLimit` once the size is known. -/
def writeServerMessage : ServerMessage → Except ProtocolError Bytes
  | .identityToken m => do
    let token ← writeString m.token
    .ok (tagIdentityToken :: m.identity.toList ++ token ++ m.connectionID.toList)
  | .subscribeSingleApplied m => do
    let tableName ← writeString m.tableName
    let rows ← writeBytes m.rows
    .ok (tagSubscribeSingleApplied :: writeAppliedHeader m.header ++ tableName ++ rows)
  | .unsubscribeSingleApplied m => do
    let rows ← writeOptionalRows m.hasRows m.rows
    .ok (tagUnsubscribeSingleApplied :: writeAppliedHeader m.header ++ rows)
  | .subscriptionError m => do
    let error ← writeString m.error
    .ok (tagSubscriptionError :: writeUint64 m.totalHostExecutionDurationMicros ++
      writeOptionalUint32 m.requestID ++ writeOptionalUint32 m.queryID ++
      writeOptionalUint32 m.tableID ++ error)
  | .transactionUpdate m => do
    let status ← writeUpdateStatus m.status
    let call ← writeReducerCallInfo m.reducerCall
    .ok (tagTransactionUpdate :: status ++ writeInt64 m.timestamp ++ m.callerIdentity.toList ++
      m.callerConnectionID.toList ++ call ++ writeInt64 m.totalHostExecutionDuration)
  | .transactionUpdateLight m => do
    let updates ← writeSubscriptionUpdates m.update
    .ok (tagTransactionUpdateLight :: writeUint32 m.requestID ++ updates)
  | .oneOffQueryResponse m => do
    let id ← writeBytes m.messageID
    let error ← writeOptionalString m.error
    let tables ← writeOneOffTables m.tables
    .ok (tagOneOffQueryResponse :: id ++ error ++ tables ++
      writeInt64 m.totalHostExecutionDuration)
  | .procedureResponse m => do
    let id ← writeBytes m.messageID
    let error ← writeOptionalString m.error
    let result ← writeBytes m.result
    .ok (tagProcedureResponse :: id ++ error ++ result ++
      writeInt64 m.totalHostExecutionDuration)
  | .subscribeMultiApplied m => do
    let updates ← writeSubscriptionUpdates m.update
    .ok (tagSubscribeMultiApplied :: writeAppliedHeader m.header ++ updates)
  | .unsubscribeMultiApplied m => do
    let updates ← writeSubscriptionUpdates m.update
    .ok (tagUnsubscribeMultiApplied :: writeAppliedHeader m.header ++ updates)

def encodeServerMessageWithLimit (m : ServerMessage) (maxBytes : Nat) :
    Except ProtocolError Bytes := do
  let _ ← validateServerMessageSize m maxBytes
  writeServerMessage m

def encodeServerMessage (m : ServerMessage) : Except ProtocolError Bytes :=
  encodeServerMessageWithLimit m 0

/-! ## Decoding -/

def readAppliedHeader : WireReader AppliedHeader := fun size => do
  let requestID ← readUint32 size
  let durationMicros ← readUint64 size
  let queryID ← readUint32 size
  pure ⟨requestID, durationMicros, queryID⟩

def readSubscriptionUpdate : WireReader WireUpdate := fun size => do
  let queryID ← readUint32 size
  let tableName ← readString size
  let inserts ← readBytes size
  let deletes ← readBytes size
  pure ⟨queryID, tableName, inserts, deletes⟩

def readSubscriptionUpdates : WireReader (List WireUpdate) := fun size => do
  let count ← readUint32 size
  readItems "SubscriptionUpdate list" 16 (readSubscriptionUpdate size) count

def readOneOffTable : WireReader OneOffTable := fun size => do
  let tableName ← readString size
  let rows ← readBytes size
  pure ⟨tableName, rows⟩

def readOneOffTables : WireReader (List OneOffTable) := fun size => do
  let count ← readUint32 size
  readItems "OneOffTable list" 8 (readOneOffTable size) count

def readStatusOfTag (size : Nat) : UInt8 → Reader ProtocolError UpdateStatus
  | updateStatusTagCommitted => do
    let update ← readSubscriptionUpdates size
    pure (.committed update)
  | updateStatusTagFailed => do
    let error ← readString size
    pure (.failed error)
  | tag => throw (.invalidTag "UpdateStatus" tag)

def readUpdateStatus : WireReader UpdateStatus := fun size => do
  let tag ← readByte fun _ => .fieldTruncated "UpdateStatus tag"
  readStatusOfTag size tag

def readReducerCallInfo : WireReader ReducerCallInfo := fun size => do
  let reducerName ← readString size
  let reducerID ← readUint32 size
  let args ← readBytes size
  let requestID ← readUint32 size
  pure ⟨reducerName, reducerID, args, requestID⟩

def readCaller : Reader ProtocolError (Identity × ConnectionID) := do
  let x ← get
  if x.length < 32 + 16 then throw (.fieldTruncated "TransactionUpdate caller fields")
  else do
    let identity ← slice 32
    let connectionID ← slice 16
    pure (identity, connectionID)

def readRowsOfFlag (size : Nat) : Bool → Reader ProtocolError (Bool × Bytes)
  | false => pure (false, [])
  | true => do
    let rows ← readBytes size
    pure (true, rows)

def readOptionalRows : WireReader (Bool × Bytes) := fun size => do
  let hasRows ← readByte (fun _ => .fieldTruncated "UnsubscribeSingleApplied has_rows") >>=
    presenceOfTag "UnsubscribeSingleApplied has_rows"
  readRowsOfFlag size hasRows

def decodeIdentityToken : Bytes → Except ProtocolError IdentityToken :=
  decodeBody "IdentityToken" fun size => do
    let identity ← readFixed 32 fun _ => .fieldTruncated "IdentityToken identity field"
    let token ← readString size
    let connectionID ← readFixed 16 fun _ => .fieldTruncated "IdentityToken connection_id field"
    pure ⟨identity, token, connectionID⟩

def decodeSubscribeSingleApplied : Bytes → Except ProtocolError SubscribeSingleApplied :=
  decodeBody "SubscribeSingleApplied" fun size => do
    let header ← readAppliedHeader size
    let tableName ← readString size
    let rows ← readBytes size
    pure ⟨header, tableName, rows⟩

def decodeUnsubscribeSingleApplied : Bytes → Except ProtocolError UnsubscribeSingleApplied :=
  decodeBody "UnsubscribeSingleApplied" fun size => do
    let header ← readAppliedHeader size
    let (hasRows, rows) ← readOptionalRows size
    pure ⟨header, hasRows, rows⟩

def decodeSubscriptionError : Bytes → Except ProtocolError SubscriptionError :=
  decodeBody "SubscriptionError" fun size => do
    let durationMicros ← readUint64 size
    let requestID ← readOptionalUint32 size
    let queryID ← readOptionalUint32 size
    let tableID ← readOptionalUint32 size
    let error ← readString size
    pure ⟨durationMicros, requestID, queryID, tableID, error⟩

def decodeTransactionUpdate : Bytes → Except ProtocolError TransactionUpdate :=
  decodeBody "TransactionUpdate" fun size => do
    let status ← readUpdateStatus size
    let timestamp ← readInt64 size
    let caller ← readCaller
    let reducerCall ← readReducerCallInfo size
    let duration ← readInt64 size
    pure ⟨some status, timestamp, caller.1, caller.2, reducerCall, duration⟩

def decodeTransactionUpdateLight : Bytes → Except ProtocolError TransactionUpdateLight :=
  decodeBody "TransactionUpdateLight" fun size => do
    let requestID ← readUint32 size
    let update ← readSubscriptionUpdates size
    pure ⟨requestID, update⟩

def decodeOneOffQueryResponse : Bytes → Except ProtocolError OneOffQueryResponse :=
  decodeBody "OneOffQueryResponse" fun size => do
    let messageID ← readBytes size
    let error ← readOptionalString size
    let tables ← readOneOffTables size
    let duration ← readInt64 size
    pure ⟨messageID, error, tables, duration⟩

def decodeProcedureResponse : Bytes → Except ProtocolError ProcedureResponse :=
  decodeBody "ProcedureResponse" fun size => do
    let messageID ← readBytes size
    let error ← readOptionalString size
    let result ← readBytes size
    let duration ← readInt64 size
    pure ⟨messageID, error, result, duration⟩

def decodeSubscribeMultiApplied : Bytes → Except ProtocolError SubscribeMultiApplied :=
  decodeBody "SubscribeMultiApplied" fun size => do
    let header ← readAppliedHeader size
    let update ← readSubscriptionUpdates size
    pure ⟨header, update⟩

def decodeUnsubscribeMultiApplied : Bytes → Except ProtocolError UnsubscribeMultiApplied :=
  decodeBody "UnsubscribeMultiApplied" fun size => do
    let header ← readAppliedHeader size
    let update ← readSubscriptionUpdates size
    pure ⟨header, update⟩

def decodeServerMessageParts (tag : UInt8) (body : Bytes) : Except ProtocolError ServerMessage :=
  match tag with
  | tagIdentityToken => .identityToken <$> decodeIdentityToken body
  | tagSubscribeSingleApplied => .subscribeSingleApplied <$> decodeSubscribeSingleApplied body
  | tagUnsubscribeSingleApplied =>
    .unsubscribeSingleApplied <$> decodeUnsubscribeSingleApplied body
  | tagSubscriptionError => .subscriptionError <$> decodeSubscriptionError body
  | tagTransactionUpdate => .transactionUpdate <$> decodeTransactionUpdate body
  | tagTransactionUpdateLight => .transactionUpdateLight <$> decodeTransactionUpdateLight body
  | tagOneOffQueryResponse => .oneOffQueryResponse <$> decodeOneOffQueryResponse body
  | tagProcedureResponse => .procedureResponse <$> decodeProcedureResponse body
  | tagSubscribeMultiApplied => .subscribeMultiApplied <$> decodeSubscribeMultiApplied body
  | tagUnsubscribeMultiApplied => .unsubscribeMultiApplied <$> decodeUnsubscribeMultiApplied body
  | tag => .error (.unknownTag tag)

def decodeServerMessage : Bytes → Except ProtocolError (UInt8 × ServerMessage)
  | [] => .error .emptyFrame
  | tag :: body => do
    let m ← decodeServerMessageParts tag body
    .ok (tag, m)

end Shunter.Protocol
