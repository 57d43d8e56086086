import Shunter.Protocol.ServerMessages
import Shunter.Protocol.WireCodec

/-!
# Server messages are read back

The text of every server message, what the encoder accepts and what the decoder
accepts.
-/

namespace Shunter.Protocol

open Foundation Reader

/-! ## Texts -/

def AppliedHeader.text (h : AppliedHeader) : Bytes :=
  writeUint32 h.requestID ++ (writeUint64 h.totalHostExecutionDurationMicros ++
    writeUint32 h.queryID)

def WireUpdate.text (u : WireUpdate) : Bytes :=
  writeUint32 u.queryID ++ (prefixed u.tableName ++ (prefixed u.inserts ++ prefixed u.deletes))

def OneOffTable.text (t : OneOffTable) : Bytes := prefixed t.tableName ++ prefixed t.rows

def updatesText : List WireUpdate → Bytes := countedText WireUpdate.text

def tablesText : List OneOffTable → Bytes := countedText OneOffTable.text

def UpdateStatus.text : UpdateStatus → Bytes
  | .committed update => updateStatusTagCommitted :: updatesText update
  | .failed error => updateStatusTagFailed :: prefixed error

def ReducerCallInfo.text (rci : ReducerCallInfo) : Bytes :=
  prefixed rci.reducerName ++ (writeUint32 rci.reducerID ++
    (prefixed rci.args ++ writeUint32 rci.requestID))

def optionalRowsText (hasRows : Bool) (rows : Bytes) : Bytes :=
  presenceTag hasRows :: if hasRows then prefixed rows else []

namespace ServerMessage

def tag : ServerMessage → UInt8
  | .identityToken _ => tagIdentityToken
  | .subscribeSingleApplied _ => tagSubscribeSingleApplied
  | .unsubscribeSingleApplied _ => tagUnsubscribeSingleApplied
  | .subscriptionError _ => tagSubscriptionError
  | .transactionUpdate _ => tagTransactionUpdate
  | .transactionUpdateLight _ => tagTransactionUpdateLight
  | .oneOffQueryResponse _ => tagOneOffQueryResponse
  | .procedureResponse _ => tagProcedureResponse
  | .subscribeMultiApplied _ => tagSubscribeMultiApplied
  | .unsubscribeMultiApplied _ => tagUnsubscribeMultiApplied

/-- The body of the frame; a status that is nil has no text. -/
def text : ServerMessage → Bytes
  | .identityToken m => m.identity.toList ++ (prefixed m.token ++ m.connectionID.toList)
  | .subscribeSingleApplied m => m.header.text ++ (prefixed m.tableName ++ prefixed m.rows)
  | .unsubscribeSingleApplied m => m.header.text ++ optionalRowsText m.hasRows m.rows
  | .subscriptionError m =>
    writeUint64 m.totalHostExecutionDurationMicros ++ (optionalText writeUint32 m.requestID ++
      (optionalText writeUint32 m.queryID ++ (optionalText writeUint32 m.tableID ++
        prefixed m.error)))
  | .transactionUpdate m =>
    presentText UpdateStatus.text m.status ++ (writeInt64 m.timestamp ++
      (m.callerIdentity.toList ++ m.callerConnectionID.toList ++ (m.reducerCall.text ++
        writeInt64 m.totalHostExecutionDuration)))
  | .transactionUpdateLight m => writeUint32 m.requestID ++ updatesText m.update
  | .oneOffQueryResponse m =>
    prefixed m.messageID ++ (optionalText prefixed m.error ++ (tablesText m.tables ++
      writeInt64 m.totalHostExecutionDuration))
  | .procedureResponse m =>
    prefixed m.messageID ++ (optionalText prefixed m.error ++ (prefixed m.result ++
      writeInt64 m.totalHostExecutionDuration))
  | .subscribeMultiApplied m => m.header.text ++ updatesText m.update
  | .unsubscribeMultiApplied m => m.header.text ++ updatesText m.update

end ServerMessage

/-! ## What fits -/

def UpdatesValid (ups : List WireUpdate) : Prop := ∀ u ∈ ups, validUTF8 u.tableName = true

def TablesValid (tables : List OneOffTable) : Prop :=
  ∀ t ∈ tables, validUTF8 t.tableName = true

def WireUpdate.LengthsFit (u : WireUpdate) : Prop :=
  WireBytes u.tableName ∧ WireBytes u.inserts ∧ WireBytes u.deletes

def OneOffTable.LengthsFit (t : OneOffTable) : Prop := WireBytes t.tableName ∧ WireBytes t.rows

def UpdatesFit (ups : List WireUpdate) : Prop :=
  ups.length < 2 ^ 32 ∧ ∀ u ∈ ups, u.LengthsFit

def TablesFit (tables : List OneOffTable) : Prop :=
  tables.length < 2 ^ 32 ∧ ∀ t ∈ tables, t.LengthsFit

def UpdateStatus.ValidStrings : UpdateStatus → Prop
  | .committed update => UpdatesValid update
  | .failed error => validUTF8 error = true

def UpdateStatus.LengthsFit : UpdateStatus → Prop
  | .committed update => UpdatesFit update
  | .failed error => WireBytes error

namespace ServerMessage

def ValidStrings : ServerMessage → Prop
  | .identityToken m => validUTF8 m.token = true
  | .subscribeSingleApplied m => validUTF8 m.tableName = true
  | .unsubscribeSingleApplied _ => True
  | .subscriptionError m => validUTF8 m.error = true
  | .transactionUpdate m =>
    (∀ status ∈ m.status, status.ValidStrings) ∧ validUTF8 m.reducerCall.reducerName = true
  | .transactionUpdateLight m => UpdatesValid m.update
  | .oneOffQueryResponse m => (∀ e ∈ m.error, validUTF8 e = true) ∧ TablesValid m.tables
  | .procedureResponse m => ∀ e ∈ m.error, validUTF8 e = true
  | .subscribeMultiApplied m => UpdatesValid m.update
  | .unsubscribeMultiApplied m => UpdatesValid m.update

def LengthsFit : ServerMessage → Prop
  | .identityToken m => WireBytes m.token
  | .subscribeSingleApplied m => WireBytes m.tableName ∧ WireBytes m.rows
  | .unsubscribeSingleApplied m => m.hasRows = true → WireBytes m.rows
  | .subscriptionError m => WireBytes m.error
  | .transactionUpdate m => (∀ status ∈ m.status, status.LengthsFit) ∧
      WireBytes m.reducerCall.reducerName ∧ WireBytes m.reducerCall.args
  | .transactionUpdateLight m => UpdatesFit m.update
  | .oneOffQueryResponse m =>
    WireBytes m.messageID ∧ OptionalFits m.error ∧ TablesFit m.tables
  | .procedureResponse m =>
    WireBytes m.messageID ∧ OptionalFits m.error ∧ WireBytes m.result
  | .subscribeMultiApplied m => UpdatesFit m.update
  | .unsubscribeMultiApplied m => UpdatesFit m.update

def HasStatus : ServerMessage → Prop
  | .transactionUpdate m => m.status ≠ none
  | _ => True

def RowsFlagged : ServerMessage → Prop
  | .unsubscribeSingleApplied m => m.hasRows = false → m.rows = []
  | _ => True

structure Fits (m : ServerMessage) : Prop where
  strings : m.ValidStrings
  lengths : m.LengthsFit
  status : m.HasStatus

structure Readable (m : ServerMessage) : Prop extends Fits m where
  flagged : m.RowsFlagged

end ServerMessage

/-! ## Writing -/

variable {u : Unit} {ups : List WireUpdate} {tables : List OneOffTable} {m : ServerMessage}
  {out frame : Bytes}

theorem validateSubscriptionUpdatesForEncode_ok {field : String} :
    validateSubscriptionUpdatesForEncode field ups = .ok u ↔ UpdatesValid ups := by
  simp [validateSubscriptionUpdatesForEncode, requireValidWireStrings_ok, UpdatesValid]

theorem validateOneOffTablesForEncode_ok :
    validateOneOffTablesForEncode tables = .ok u ↔ TablesValid tables := by
  simp [validateOneOffTablesForEncode, requireValidWireStrings_ok, TablesValid]

theorem requireValidOptionalString_ok {field : String} {o : Option Bytes} :
    requireValidOptionalString field o = .ok u ↔ ∀ s ∈ o, validUTF8 s = true := by
  cases o <;> simp [requireValidOptionalString, requireValidWireString_ok]

theorem validateUpdateStatusForEncode_ok {status : Option UpdateStatus} :
    validateUpdateStatusForEncode status = .ok u ↔ ∀ s ∈ status, s.ValidStrings := by
  rcases status with _ | ⟨update⟩ | ⟨error⟩ <;>
    simp [validateUpdateStatusForEncode, validateSubscriptionUpdatesForEncode_ok,
      requireValidWireString_ok, UpdateStatus.ValidStrings]

theorem validateServerMessageForEncode_ok :
    validateServerMessageForEncode m = .ok u ↔ m.ValidStrings := by
  cases m <;>
    simp [validateServerMessageForEncode, ServerMessage.ValidStrings, except_bind_eq_ok,
      requireValidWireString_ok, validateSubscriptionUpdatesForEncode_ok,
      validateOneOffTablesForEncode_ok, requireValidOptionalString_ok,
      validateUpdateStatusForEncode_ok]

theorem writeSubscriptionUpdates_ok :
    writeSubscriptionUpdates ups = .ok out ↔ UpdatesFit ups ∧ out = updatesText ups := by
  refine writeCounted_ok fun u out => ?_
  simp only [writeSubscriptionUpdate, except_bind_eq_ok, writeString_ok, writeBytes_ok,
    Except.ok.injEq, WireUpdate.LengthsFit, WireUpdate.text]
  grind

theorem writeOneOffTables_ok :
    writeOneOffTables tables = .ok out ↔ TablesFit tables ∧ out = tablesText tables := by
  refine writeCounted_ok fun t out => ?_
  simp only [writeOneOffTable, except_bind_eq_ok, writeString_ok, writeBytes_ok,
    Except.ok.injEq, OneOffTable.LengthsFit, OneOffTable.text]
  grind

theorem writeUpdateStatus_ok {status : Option UpdateStatus} :
    writeUpdateStatus status = .ok out ↔ status ≠ none ∧ (∀ s ∈ status, s.LengthsFit) ∧
      out = presentText UpdateStatus.text status := by
  rcases status with _ | ⟨update⟩ | ⟨error⟩
  · simp [writeUpdateStatus]
  · simp only [writeUpdateStatus, except_bind_eq_ok, writeSubscriptionUpdates_ok, Except.ok.injEq,
      presentText, UpdateStatus.text]
    simp [UpdateStatus.LengthsFit, eq_comm]
  · simp only [writeUpdateStatus, except_bind_eq_ok, writeString_ok, Except.ok.injEq, presentText,
      UpdateStatus.text]
    simp [UpdateStatus.LengthsFit, eq_comm]

theorem writeReducerCallInfo_ok {rci : ReducerCallInfo} :
    writeReducerCallInfo rci = .ok out ↔
      (WireBytes rci.reducerName ∧ WireBytes rci.args) ∧ out = rci.text := by
  simp only [writeReducerCallInfo, except_bind_eq_ok, writeString_ok, writeBytes_ok,
    Except.ok.injEq, ReducerCallInfo.text]
  grind

theorem writeOptionalRows_ok {hasRows : Bool} {rows : Bytes} :
    writeOptionalRows hasRows rows = .ok out ↔
      (hasRows = true → WireBytes rows) ∧ out = optionalRowsText hasRows rows := by
  cases hasRows with
  | false => simp [writeOptionalRows, optionalRowsText, presenceTag, eq_comm]
  | true =>
    simp only [writeOptionalRows, if_true, except_bind_eq_ok, writeBytes_ok, Except.ok.injEq,
      optionalRowsText, presenceTag]
    grind

theorem writeServerMessage_ok :
    writeServerMessage m = .ok frame ↔
      (m.HasStatus ∧ m.LengthsFit) ∧ frame = m.tag :: m.text := by
  cases m <;>
    simp only [writeServerMessage, except_bind_eq_ok, writeString_ok, writeBytes_ok,
      writeOptionalString_ok, writeSubscriptionUpdates_ok, writeOneOffTables_ok,
      writeUpdateStatus_ok, writeReducerCallInfo_ok, writeOptionalRows_ok,
      writeOptionalUint32_eq, writeAppliedHeader, AppliedHeader.text, ServerMessage.LengthsFit,
      ServerMessage.HasStatus, ServerMessage.tag, ServerMessage.text, Except.ok.injEq] <;>
    grind

/-! ## Sizes -/

@[simp] theorem length_writeUint64 (v : UInt64) : (writeUint64 v).length = 8 :=
  length_littleEndian 8 _

@[simp] theorem length_writeInt64 (v : Int64) : (writeInt64 v).length = 8 :=
  length_writeUint64 _

@[simp] theorem AppliedHeader.length_text (h : AppliedHeader) :
    h.text.length = sizeAppliedHeader := by
  simp [AppliedHeader.text, sizeAppliedHeader]

namespace Sizer

theorem subscriptionUpdates_adds (ups : List WireUpdate) :
    Adds (subscriptionUpdates ups) (UpdatesFit ups) (updatesText ups).length := by
  have hstep : ∀ u, Adds (subscriptionUpdate u) u.LengthsFit u.text.length := fun u =>
    ((add_adds 4).comp ((string_adds u.tableName).comp ((bytes_adds u.inserts).comp
      (bytes_adds u.deletes)))).congr (by simp [WireUpdate.LengthsFit])
      (by simp [WireUpdate.text])
  exact ((count_adds _ ups.length).comp (foldl_adds hstep ups)).congr Iff.rfl
    (by simp [updatesText])

theorem oneOffTables_adds (tables : List OneOffTable) :
    Adds (oneOffTables tables) (TablesFit tables) (tablesText tables).length := by
  have hstep : ∀ t, Adds (oneOffTable t) t.LengthsFit t.text.length := fun t =>
    ((string_adds t.tableName).comp (bytes_adds t.rows)).congr Iff.rfl
      (by simp [OneOffTable.text])
  exact ((count_adds _ tables.length).comp (foldl_adds hstep tables)).congr Iff.rfl
    (by simp [tablesText])

theorem updateStatus_adds {status : Option UpdateStatus} (h : status ≠ none) :
    Adds (updateStatus status) (∀ s ∈ status, s.LengthsFit)
      (presentText UpdateStatus.text status).length := by
  rcases status with _ | ⟨update⟩ | ⟨error⟩
  · exact absurd rfl h
  · exact ((add_adds 1).comp (subscriptionUpdates_adds update)).congr
      (by simp [UpdateStatus.LengthsFit]) (by simp [presentText, UpdateStatus.text]; omega)
  · exact ((add_adds 1).comp (string_adds error)).congr
      (by simp [UpdateStatus.LengthsFit]) (by simp [presentText, UpdateStatus.text]; omega)

theorem reducerCallInfo_adds (rci : ReducerCallInfo) :
    Adds (reducerCallInfo rci) (WireBytes rci.reducerName ∧ WireBytes rci.args)
      rci.text.length :=
  ((string_adds rci.reducerName).comp ((add_adds 4).comp ((bytes_adds rci.args).comp
    (add_adds 4)))).congr (by simp) (by simp [ReducerCallInfo.text])

end Sizer

variable {n : Nat}

section

open Sizer ServerMessage

private theorem serverSizer_adds {f : Sizer → Sizer} {P : Prop} (h : Adds f P n)
    (hf : m.sizer = fun s => f (s.add 1) := by rfl)
    (hP : P ↔ m.LengthsFit := by simp [LengthsFit])
    (hn : n = m.text.length := by simp [text, optionalRowsText] <;> omega) :
    Adds m.sizer m.LengthsFit (m.tag :: m.text).length := by
  rw [hf]
  exact ((add_adds 1).comp h).congr (by simpa using hP) (by rw [hn, List.length_cons, Nat.add_comm])

theorem ServerMessage.sizer_adds (h : m.HasStatus) :
    Adds m.sizer m.LengthsFit (m.tag :: m.text).length := by
  cases m with
  | identityToken m =>
    exact serverSizer_adds ((add_adds 32).comp ((string_adds m.token).comp (add_adds 16)))
  | subscribeSingleApplied m =>
    exact serverSizer_adds ((add_adds sizeAppliedHeader).comp ((string_adds m.tableName).comp
      (bytes_adds m.rows)))
  | unsubscribeSingleApplied m =>
    obtain ⟨header, hasRows, rows⟩ := m
    cases hasRows with
    | false => exact serverSizer_adds (add_adds (sizeAppliedHeader + 1))
    | true => exact serverSizer_adds ((add_adds (sizeAppliedHeader + 1)).comp (bytes_adds rows))
  | subscriptionError m =>
    exact serverSizer_adds ((add_adds 8).comp ((optionalUint32_adds m.requestID).comp
      ((optionalUint32_adds m.queryID).comp ((optionalUint32_adds m.tableID).comp
      (string_adds m.error)))))
  | transactionUpdate m =>
    exact serverSizer_adds ((updateStatus_adds h).comp ((add_adds (8 + 32 + 16)).comp
      ((reducerCallInfo_adds m.reducerCall).comp (add_adds 8))))
  | transactionUpdateLight m =>
    exact serverSizer_adds ((add_adds 4).comp (subscriptionUpdates_adds m.update))
  | oneOffQueryResponse m =>
    exact serverSizer_adds ((bytes_adds m.messageID).comp ((optionalString_adds m.error).comp
      ((oneOffTables_adds m.tables).comp (add_adds 8))))
  | procedureResponse m =>
    exact serverSizer_adds ((bytes_adds m.messageID).comp ((optionalString_adds m.error).comp
      ((bytes_adds m.result).comp (add_adds 8))))
  | subscribeMultiApplied m | unsubscribeMultiApplied m =>
    exact serverSizer_adds ((add_adds sizeAppliedHeader).comp (subscriptionUpdates_adds m.update))

end

theorem encodedServerMessageSize_ok (h : m.HasStatus) :
    encodedServerMessageSize m = .ok n ↔
      (m.LengthsFit ∧ (m.tag :: m.text).length ≤ maxProtocolAlloc) ∧
        n = (m.tag :: m.text).length :=
  Sizer.size_ok (m.sizer_adds h)

theorem checkOutboundLimit_ok {maxBytes size : Nat} :
    checkOutboundLimit maxBytes size = .ok n ↔ (maxBytes = 0 ∨ size ≤ maxBytes) ∧ n = size := by
  unfold checkOutboundLimit
  split
  · simp only [reduceCtorEq, false_iff]
    omega
  · simp only [Except.ok.injEq]
    omega

theorem encodeServerMessageWithLimit_ok {maxBytes : Nat} :
    encodeServerMessageWithLimit m maxBytes = .ok frame ↔
      m.Fits ∧ frame.length ≤ maxProtocolAlloc ∧ (maxBytes = 0 ∨ frame.length ≤ maxBytes) ∧
        frame = m.tag :: m.text := by
  simp only [encodeServerMessageWithLimit, validateServerMessageSize, except_bind_eq_ok,
    validateServerMessageForEncode_ok, checkOutboundLimit_ok, writeServerMessage_ok]
  constructor
  · rintro ⟨_, ⟨_, hstrings, size, hsize, hlimit, -⟩, ⟨hstatus, hlengths⟩, rfl⟩
    obtain ⟨⟨-, hle⟩, rfl⟩ := (encodedServerMessageSize_ok hstatus).mp hsize
    exact ⟨⟨hstrings, hlengths, hstatus⟩, hle, hlimit, rfl⟩
  · rintro ⟨⟨hstrings, hlengths, hstatus⟩, hle, hlimit, rfl⟩
    have hsize := (encodedServerMessageSize_ok hstatus).mpr ⟨⟨hlengths, hle⟩, rfl⟩
    exact ⟨_, ⟨(), hstrings, _, hsize, hlimit, rfl⟩, ⟨hstatus, hlengths⟩, rfl⟩

theorem encodeServerMessage_ok :
    encodeServerMessage m = .ok frame ↔
      m.Fits ∧ frame.length ≤ maxProtocolAlloc ∧ frame = m.tag :: m.text := by
  rw [encodeServerMessage, encodeServerMessageWithLimit_ok]
  simp

/-! ## Reading -/

section Fields

variable (size : Nat)

theorem readAppliedHeader_codes :
    WireCodes (readAppliedHeader size) AppliedHeader.text fun _ => True := by
  have h := (readUint32_codes size).bind fun id => (readUint64_codes size).bind fun duration =>
    (readUint32_codes size).bind fun query => parses_pure (AppliedHeader.mk id duration query)
  exact h.codes fun m t => by cases m; simp [AppliedHeader.text]

def WireUpdate.Fields (u : WireUpdate) : Prop :=
  WireString u.tableName ∧ WireBytes u.inserts ∧ WireBytes u.deletes

theorem readSubscriptionUpdate_codes :
    WireCodes (readSubscriptionUpdate size) WireUpdate.text WireUpdate.Fields := by
  have h := (readUint32_codes size).bind fun query => (readString_codes size).bind fun table =>
    (readBytes_codes size).bind fun inserts => (readBytes_codes size).bind fun deletes =>
    parses_pure (WireUpdate.mk query table inserts deletes)
  exact h.codes fun u t => by cases u; simp [WireUpdate.Fields, WireUpdate.text, and_assoc]

def UpdatesFields (ups : List WireUpdate) : Prop := ups.length < 2 ^ 32 ∧ ∀ u ∈ ups, u.Fields

theorem readSubscriptionUpdates_codes :
    WireCodes (readSubscriptionUpdates size) updatesText UpdatesFields :=
  counted_codes size fun count => readItems_codes "SubscriptionUpdate list" 16
    (readSubscriptionUpdate_codes size) (by simp) (by simp [WireUpdate.text]; omega) count

def OneOffTable.Fields (t : OneOffTable) : Prop := WireString t.tableName ∧ WireBytes t.rows

theorem readOneOffTable_codes :
    WireCodes (readOneOffTable size) OneOffTable.text OneOffTable.Fields := by
  have h := (readString_codes size).bind fun table => (readBytes_codes size).bind fun rows =>
    parses_pure (OneOffTable.mk table rows)
  exact h.codes fun m t => by cases m; simp [OneOffTable.Fields, OneOffTable.text, and_assoc]

def TablesFields (tables : List OneOffTable) : Prop :=
  tables.length < 2 ^ 32 ∧ ∀ t ∈ tables, t.Fields

theorem readOneOffTables_codes :
    WireCodes (readOneOffTables size) tablesText TablesFields :=
  counted_codes size fun count => readItems_codes "OneOffTable list" 8
    (readOneOffTable_codes size) (by simp) (by simp [OneOffTable.text]; omega) count

def UpdateStatus.Fields : UpdateStatus → Prop
  | .committed update => UpdatesFields update
  | .failed error => WireString error

def UpdateStatus.tag : UpdateStatus → UInt8
  | .committed _ => updateStatusTagCommitted
  | .failed _ => updateStatusTagFailed

def UpdateStatus.payload : UpdateStatus → Bytes
  | .committed update => updatesText update
  | .failed error => prefixed error

theorem readStatusOfTag_codes (tag : UInt8) :
    WireCodes (readStatusOfTag size tag) UpdateStatus.payload
      fun s => tag = s.tag ∧ s.Fields := by
  unfold readStatusOfTag
  split
  case h_3 hcommitted hfailed =>
    refine (codes_throw (by simp) _).congr (fun s => ?_) fun _ _ => rfl
    cases s with
    | committed update => exact ⟨False.elim, fun h => hcommitted h.1⟩
    | failed error => exact ⟨False.elim, fun h => hfailed h.1⟩
  case' h_1 =>
    refine ((readSubscriptionUpdates_codes size).bind fun update =>
      parses_pure (UpdateStatus.committed update)).codes ?_
  case' h_2 =>
    refine ((readString_codes size).bind fun error =>
      parses_pure (UpdateStatus.failed error)).codes ?_
  all_goals
    rintro (update | error) t <;>
      simp [UpdateStatus.payload, UpdateStatus.Fields, UpdateStatus.tag, updateStatusTagCommitted,
        updateStatusTagFailed]
    exact fun h => absurd h (by decide)

theorem readUpdateStatus_codes :
    WireCodes (readUpdateStatus size) UpdateStatus.text UpdateStatus.Fields := by
  have h := (readByte_codes (fun _ => .fieldTruncated "UpdateStatus tag") (by simp)).field
    UpdateStatus.tag (fun tag _ => readStatusOfTag_codes size tag) fun _ _ hs => hs.1.symm
  refine h.congr (fun s => by simp) fun s _ => ?_
  cases s <;> rfl

theorem readReducerCallInfo_codes :
    WireCodes (readReducerCallInfo size) ReducerCallInfo.text
      fun rci => WireString rci.reducerName ∧ WireBytes rci.args := by
  have h := (readString_codes size).bind fun name => (readUint32_codes size).bind fun id =>
    (readBytes_codes size).bind fun args => (readUint32_codes size).bind fun request =>
    parses_pure (ReducerCallInfo.mk name id args request)
  exact h.codes fun m t => by cases m; simp [ReducerCallInfo.text, and_assoc]

theorem readCaller_codes :
    WireCodes readCaller (fun p => p.1.toList ++ p.2.toList) fun _ => True := by
  have h := ((slice_codes 32).bind fun identity => (slice_codes 16).bind fun connectionID =>
    parses_pure (identity, connectionID)).codes
    fun p t => show _ ↔ True ∧ t = p.1.toList ++ p.2.toList by cases p; simp
  refine h.guard (by simp) (by simp; omega) fun x e hlong h => ?_
  rw [bind_of_ok (slice_apply (by omega)),
    bind_of_ok (slice_apply (by rw [List.length_drop]; omega))] at h
  cases h

theorem readRowsOfFlag_codes (hasRows : Bool) :
    WireCodes (readRowsOfFlag size hasRows) (fun p => if p.1 then prefixed p.2 else [])
      fun p => p.1 = hasRows ∧ (p.1 = true → WireBytes p.2) ∧ (p.1 = false → p.2 = []) := by
  cases hasRows with
  | false =>
    refine (parses_pure (false, [])).codes ?_
    rintro ⟨_ | _, rows⟩ t <;> simp [and_comm]
  | true =>
    refine ((readBytes_codes size).bind fun rows => parses_pure (true, rows)).codes ?_
    rintro ⟨_ | _, rows⟩ t <;> simp

theorem readOptionalRows_codes :
    WireCodes (readOptionalRows size) (fun p => optionalRowsText p.1 p.2)
      fun p => (p.1 = true → WireBytes p.2) ∧ (p.1 = false → p.2 = []) := by
  have hflag := (readByte_codes (fun _ => .fieldTruncated "UnsubscribeSingleApplied has_rows")
    (by simp)).field presenceTag
    (fun tag _ => presenceOfTag_codes "UnsubscribeSingleApplied has_rows" tag)
    fun _ _ htag => htag.symm
  have h := hflag.field Prod.fst (fun hasRows _ => readRowsOfFlag_codes size hasRows)
    fun _ _ hp => hp.1
  exact h.congr (fun p => by simp) fun p _ => by simp [optionalRowsText]

end Fields

namespace ServerMessage

def Fields : ServerMessage → Prop
  | .identityToken m => WireString m.token
  | .subscribeSingleApplied m => WireString m.tableName ∧ WireBytes m.rows
  | .unsubscribeSingleApplied m =>
    (m.hasRows = true → WireBytes m.rows) ∧ (m.hasRows = false → m.rows = [])
  | .subscriptionError m => WireString m.error
  | .transactionUpdate m => (m.status ≠ none ∧ ∀ status ∈ m.status, status.Fields) ∧
      WireString m.reducerCall.reducerName ∧ WireBytes m.reducerCall.args
  | .transactionUpdateLight m => UpdatesFields m.update
  | .oneOffQueryResponse m =>
    WireBytes m.messageID ∧ (∀ e ∈ m.error, WireString e) ∧ TablesFields m.tables
  | .procedureResponse m =>
    WireBytes m.messageID ∧ (∀ e ∈ m.error, WireString e) ∧ WireBytes m.result
  | .subscribeMultiApplied m => UpdatesFields m.update
  | .unsubscribeMultiApplied m => UpdatesFields m.update

end ServerMessage

theorem updatesFields_iff : UpdatesFields ups ↔ UpdatesValid ups ∧ UpdatesFit ups := by
  simp only [UpdatesFields, UpdatesValid, UpdatesFit, WireUpdate.Fields, WireUpdate.LengthsFit,
    wireString_iff]
  grind

theorem tablesFields_iff : TablesFields tables ↔ TablesValid tables ∧ TablesFit tables := by
  simp only [TablesFields, TablesValid, TablesFit, OneOffTable.Fields, OneOffTable.LengthsFit,
    wireString_iff]
  grind

theorem UpdateStatus.fields_iff {s : UpdateStatus} :
    s.Fields ↔ s.ValidStrings ∧ s.LengthsFit := by
  cases s with
  | committed update => exact updatesFields_iff
  | failed error => exact wireString_iff

theorem ServerMessage.readable_iff : m.Readable ↔ m.Fields := by
  have hsplit : m.Readable ↔ m.ValidStrings ∧ m.LengthsFit ∧ m.HasStatus ∧ m.RowsFlagged :=
    ⟨fun h => ⟨h.strings, h.lengths, h.status, h.flagged⟩,
      fun h => ⟨⟨h.1, h.2.1, h.2.2.1⟩, h.2.2.2⟩⟩
  rw [hsplit]
  cases m <;>
    simp only [ValidStrings, LengthsFit, HasStatus, RowsFlagged, Fields, OptionalFits,
      updatesFields_iff, tablesFields_iff, UpdateStatus.fields_iff, wireString_iff] <;>
    grind

open ServerMessage

attribute [local simp] Fields text

/-- The decoder of one kind of message is exact. -/
abbrev ServerCodes {α : Type} (decode : Bytes → Except ProtocolError α)
    (wrap : α → ServerMessage) : Prop :=
  BodyCodes decode (fun m => text (wrap m)) fun m => Fields (wrap m)

theorem decodeIdentityToken_codes : ServerCodes decodeIdentityToken .identityToken :=
  decodeBody_codes (fun size => (readFixed_codes 32 _ (by simp)).bind fun identity =>
    (readString_codes size).bind fun token => (readFixed_codes 16 _ (by simp)).bind fun id =>
    parses_pure (IdentityToken.mk identity token id)) (by rintro ⟨⟩ t; simp [and_assoc])

theorem decodeSubscribeSingleApplied_codes :
    ServerCodes decodeSubscribeSingleApplied .subscribeSingleApplied :=
  decodeBody_codes (fun size => (readAppliedHeader_codes size).bind fun header =>
    (readString_codes size).bind fun table => (readBytes_codes size).bind fun rows =>
    parses_pure (SubscribeSingleApplied.mk header table rows)) (by rintro ⟨⟩ t; simp [and_assoc])

theorem decodeUnsubscribeSingleApplied_codes :
    ServerCodes decodeUnsubscribeSingleApplied .unsubscribeSingleApplied := by
  refine decodeBody_codes (fun size => (readAppliedHeader_codes size).bind fun header =>
    (readOptionalRows_codes size).bind fun p =>
    parses_pure (UnsubscribeSingleApplied.mk header p.1 p.2)) ?_
  rintro ⟨header, _ | _, rows⟩ t <;> simp [and_assoc]

theorem decodeSubscriptionError_codes :
    ServerCodes decodeSubscriptionError .subscriptionError :=
  decodeBody_codes (fun size => (readUint64_codes size).bind fun duration =>
    (readOptionalUint32_codes size).bind fun request =>
    (readOptionalUint32_codes size).bind fun query =>
    (readOptionalUint32_codes size).bind fun table => (readString_codes size).bind fun error =>
    parses_pure (SubscriptionError.mk duration request query table error))
    (by rintro ⟨⟩ t; simp [and_assoc])

theorem decodeTransactionUpdate_codes :
    ServerCodes decodeTransactionUpdate .transactionUpdate := by
  refine decodeBody_codes (fun size => (readUpdateStatus_codes size).bind fun status =>
    (readInt64_codes size).bind fun time => readCaller_codes.bind fun caller =>
    (readReducerCallInfo_codes size).bind fun call => (readInt64_codes size).bind fun duration =>
    parses_pure (TransactionUpdate.mk (some status) time caller.1 caller.2 call duration)) ?_
  rintro ⟨_ | status, time, identity, id, call, duration⟩ t <;>
    simp [presentText, and_assoc]

theorem decodeTransactionUpdateLight_codes :
    ServerCodes decodeTransactionUpdateLight .transactionUpdateLight :=
  decodeBody_codes (fun size => (readUint32_codes size).bind fun request =>
    (readSubscriptionUpdates_codes size).bind fun update =>
    parses_pure (TransactionUpdateLight.mk request update)) (by rintro ⟨⟩ t; simp [and_assoc])

theorem decodeOneOffQueryResponse_codes :
    ServerCodes decodeOneOffQueryResponse .oneOffQueryResponse :=
  decodeBody_codes (fun size => (readBytes_codes size).bind fun id =>
    (readOptionalString_codes size).bind fun error =>
    (readOneOffTables_codes size).bind fun tables => (readInt64_codes size).bind fun duration =>
    parses_pure (OneOffQueryResponse.mk id error tables duration))
    (by rintro ⟨⟩ t; simp [and_assoc])

theorem decodeProcedureResponse_codes :
    ServerCodes decodeProcedureResponse .procedureResponse :=
  decodeBody_codes (fun size => (readBytes_codes size).bind fun id =>
    (readOptionalString_codes size).bind fun error => (readBytes_codes size).bind fun result =>
    (readInt64_codes size).bind fun duration =>
    parses_pure (ProcedureResponse.mk id error result duration)) (by rintro ⟨⟩ t; simp [and_assoc])

theorem decodeSubscribeMultiApplied_codes :
    ServerCodes decodeSubscribeMultiApplied .subscribeMultiApplied :=
  decodeBody_codes (fun size => (readAppliedHeader_codes size).bind fun header =>
    (readSubscriptionUpdates_codes size).bind fun update =>
    parses_pure (SubscribeMultiApplied.mk header update)) (by rintro ⟨⟩ t; simp [and_assoc])

theorem decodeUnsubscribeMultiApplied_codes :
    ServerCodes decodeUnsubscribeMultiApplied .unsubscribeMultiApplied :=
  decodeBody_codes (fun size => (readAppliedHeader_codes size).bind fun header =>
    (readSubscriptionUpdates_codes size).bind fun update =>
    parses_pure (UnsubscribeMultiApplied.mk header update)) (by rintro ⟨⟩ t; simp [and_assoc])

/-! ## Frames -/

variable {tag : UInt8}

private theorem serverBody_codes {α : Type} {decode : Bytes → Except ProtocolError α}
    {wrap : α → ServerMessage} (h : ServerCodes decode wrap)
    (htag : ∀ m, m.tag = tag ↔ ∃ v, m = wrap v :=
      by rintro ⟨⟩ <;> simp [ServerMessage.tag] <;> decide) :
    BodyCodes (fun body => wrap <$> decode body) text fun m => m.tag = tag ∧ m.Fields :=
  h.wrap htag

theorem decodeServerMessageParts_codes (tag : UInt8) :
    BodyCodes (decodeServerMessageParts tag) ServerMessage.text
      fun m => m.tag = tag ∧ m.Fields := by
  unfold decodeServerMessageParts
  split
  · exact serverBody_codes decodeIdentityToken_codes
  · exact serverBody_codes decodeSubscribeSingleApplied_codes
  · exact serverBody_codes decodeUnsubscribeSingleApplied_codes
  · exact serverBody_codes decodeSubscriptionError_codes
  · exact serverBody_codes decodeTransactionUpdate_codes
  · exact serverBody_codes decodeTransactionUpdateLight_codes
  · exact serverBody_codes decodeOneOffQueryResponse_codes
  · exact serverBody_codes decodeProcedureResponse_codes
  · exact serverBody_codes decodeSubscribeMultiApplied_codes
  · exact serverBody_codes decodeUnsubscribeMultiApplied_codes
  · refine bodyCodes_error (by simp) ?_
    rintro ⟨⟩ ⟨rfl, -⟩ <;> contradiction

theorem decodeServerMessageParts_ok {body : Bytes} :
    decodeServerMessageParts tag body = .ok m ↔ tag = m.tag ∧ m.Readable ∧ body = m.text := by
  rw [(decodeServerMessageParts_codes tag).ok, readable_iff, and_assoc, eq_comm]

theorem ServerMessage.text_stops {m' : ServerMessage} {more : Bytes} (htag : m'.tag = m.tag)
    (hm : m.Readable) (hm' : m'.Readable) (htext : m'.text = m.text ++ more) : more = [] :=
  (decodeServerMessageParts_codes m.tag).stops m m' more ⟨rfl, readable_iff.mp hm⟩
    ⟨htag, readable_iff.mp hm'⟩ htext

theorem decodeServerMessage_ok :
    decodeServerMessage frame = .ok (tag, m) ↔
      tag = m.tag ∧ m.Readable ∧ frame = m.tag :: m.text := by
  cases frame with
  | nil => simp [decodeServerMessage]
  | cons b body =>
    simp only [decodeServerMessage, except_bind_eq_ok, Except.ok.injEq, Prod.mk.injEq,
      decodeServerMessageParts_ok, List.cons.injEq]
    constructor
    · rintro ⟨_, ⟨rfl, hread, rfl⟩, rfl, rfl⟩
      exact ⟨rfl, hread, rfl, rfl⟩
    · rintro ⟨rfl, hread, rfl, rfl⟩
      exact ⟨m, ⟨rfl, hread, rfl⟩, rfl, rfl⟩

theorem decodeServerMessage_safe (frame : Bytes) :
    decodeServerMessage frame ≠ .error .outOfRange := by
  cases frame with
  | nil => simp [decodeServerMessage]
  | cons b body =>
    intro h
    obtain h | ⟨_, -, h⟩ := except_bind_eq_error.mp h
    · exact (decodeServerMessageParts_codes b).safe body h
    · cases h

end Shunter.Protocol
