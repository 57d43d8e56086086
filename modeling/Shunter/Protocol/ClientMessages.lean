import Shunter.Protocol.Wire

/-!
# Client messages

A frame is a tag and a body.  The encoder checks the strings of a message, adds
up its size and writes it; the decoder is chosen by the tag, some of which need
the second version of the protocol.
-/

namespace Shunter.Protocol

open Foundation

/-! ## Messages -/

structure SubscribeSingleMsg where
  requestID : UInt32
  queryID : UInt32
  queryString : Bytes
  deriving DecidableEq

structure UnsubscribeSingleMsg where
  requestID : UInt32
  queryID : UInt32
  deriving DecidableEq

structure CallReducerMsg where
  reducerName : Bytes
  args : Bytes
  requestID : UInt32
  flags : UInt8
  deriving DecidableEq

structure OneOffQueryMsg where
  messageID : Bytes
  queryString : Bytes
  deriving DecidableEq

structure DeclaredQueryMsg where
  messageID : Bytes
  name : Bytes
  deriving DecidableEq

structure DeclaredQueryWithParametersMsg where
  messageID : Bytes
  name : Bytes
  params : Bytes
  deriving DecidableEq

structure CallProcedureMsg where
  messageID : Bytes
  name : Bytes
  args : Bytes
  deriving DecidableEq

structure SubscribeMultiMsg where
  requestID : UInt32
  queryID : UInt32
  queryStrings : List Bytes
  deriving DecidableEq

structure SubscribeDeclaredViewMsg where
  requestID : UInt32
  queryID : UInt32
  name : Bytes
  deriving DecidableEq

structure SubscribeDeclaredViewWithParametersMsg where
  requestID : UInt32
  queryID : UInt32
  name : Bytes
  params : Bytes
  deriving DecidableEq

structure UnsubscribeMultiMsg where
  requestID : UInt32
  queryID : UInt32
  deriving DecidableEq

inductive ClientMessage where
  | subscribeSingle (m : SubscribeSingleMsg)
  | unsubscribeSingle (m : UnsubscribeSingleMsg)
  | callReducer (m : CallReducerMsg)
  | oneOffQuery (m : OneOffQueryMsg)
  | declaredQuery (m : DeclaredQueryMsg)
  | declaredQueryWithParameters (m : DeclaredQueryWithParametersMsg)
  | callProcedure (m : CallProcedureMsg)
  | subscribeMulti (m : SubscribeMultiMsg)
  | subscribeDeclaredView (m : SubscribeDeclaredViewMsg)
  | subscribeDeclaredViewWithParameters (m : SubscribeDeclaredViewWithParametersMsg)
  | unsubscribeMulti (m : UnsubscribeMultiMsg)
  deriving DecidableEq

@[match_pattern] def tagSubscribeSingle : UInt8 := 1
@[match_pattern] def tagUnsubscribeSingle : UInt8 := 2
@[match_pattern] def tagCallReducer : UInt8 := 3
@[match_pattern] def tagOneOffQuery : UInt8 := 4
@[match_pattern] def tagSubscribeMulti : UInt8 := 5
@[match_pattern] def tagUnsubscribeMulti : UInt8 := 6
@[match_pattern] def tagDeclaredQuery : UInt8 := 7
@[match_pattern] def tagSubscribeDeclaredView : UInt8 := 8
@[match_pattern] def tagDeclaredQueryWithParameters : UInt8 := 9
@[match_pattern] def tagSubscribeDeclaredViewWithParameters : UInt8 := 10
@[match_pattern] def tagCallProcedure : UInt8 := 11

/-! ## Encoding -/

def validCallReducerFlags (flags : UInt8) : Bool := flags = 0 || flags = 1 || flags = 2

def requireCallReducerFlags (flags : UInt8) : Except ProtocolError Unit :=
  if validCallReducerFlags flags then .ok () else .error (.invalidCallReducerFlags flags)

def validateClientMessageForEncode : ClientMessage → Except ProtocolError Unit
  | .subscribeSingle m => requireValidWireString "SubscribeSingle.QueryString" m.queryString
  | .callReducer m => do
    requireValidWireString "CallReducer.ReducerName" m.reducerName
    requireCallReducerFlags m.flags
  | .oneOffQuery m => requireValidWireString "OneOffQuery.QueryString" m.queryString
  | .declaredQuery m => requireValidWireString "DeclaredQuery.Name" m.name
  | .declaredQueryWithParameters m =>
    requireValidWireString "DeclaredQueryWithParameters.Name" m.name
  | .callProcedure m => requireValidWireString "CallProcedure.Name" m.name
  | .subscribeMulti m =>
    requireValidWireStrings (fun i => s!"SubscribeMulti.QueryStrings[{i}]") 0 m.queryStrings
  | .subscribeDeclaredView m => requireValidWireString "SubscribeDeclaredView.Name" m.name
  | .subscribeDeclaredViewWithParameters m =>
    requireValidWireString "SubscribeDeclaredViewWithParameters.Name" m.name
  | .unsubscribeSingle _ | .unsubscribeMulti _ => .ok ()

def ClientMessage.sizer (m : ClientMessage) (s : Sizer) : Sizer :=
  let s := s.add 1
  match m with
  | .subscribeSingle m => (s.add (4 + 4)).string m.queryString
  | .unsubscribeSingle _ => s.add (4 + 4)
  | .callReducer m => ((s.string m.reducerName).bytes m.args).add (4 + 1)
  | .oneOffQuery m => (s.bytes m.messageID).string m.queryString
  | .declaredQuery m => (s.bytes m.messageID).string m.name
  | .declaredQueryWithParameters m => ((s.bytes m.messageID).string m.name).bytes m.params
  | .callProcedure m => ((s.bytes m.messageID).string m.name).bytes m.args
  | .subscribeMulti m =>
    m.queryStrings.foldl (fun s q => s.string q)
      ((s.add (4 + 4)).count "SubscribeMulti query string count" m.queryStrings.length)
  | .subscribeDeclaredView m => (s.add (4 + 4)).string m.name
  | .subscribeDeclaredViewWithParameters m => ((s.add (4 + 4)).string m.name).bytes m.params
  | .unsubscribeMulti _ => s.add (4 + 4)

def encodedClientMessageSize (m : ClientMessage) : Except ProtocolError Nat :=
  (m.sizer Sizer.start).size

/-- The buffer of `EncodeClientMessage` once the size is known. -/
def writeClientMessage : ClientMessage → Except ProtocolError Bytes
  | .subscribeSingle m => do
    let query ← writeString m.queryString
    .ok (tagSubscribeSingle :: writeUint32 m.requestID ++ writeUint32 m.queryID ++ query)
  | .unsubscribeSingle m =>
    .ok (tagUnsubscribeSingle :: writeUint32 m.requestID ++ writeUint32 m.queryID)
  | .callReducer m => do
    let name ← writeString m.reducerName
    let args ← writeBytes m.args
    .ok (tagCallReducer :: name ++ args ++ writeUint32 m.requestID ++ [m.flags])
  | .oneOffQuery m => do
    let id ← writeBytes m.messageID
    let query ← writeString m.queryString
    .ok (tagOneOffQuery :: id ++ query)
  | .declaredQuery m => do
    let id ← writeBytes m.messageID
    let name ← writeString m.name
    .ok (tagDeclaredQuery :: id ++ name)
  | .declaredQueryWithParameters m => do
    let id ← writeBytes m.messageID
    let name ← writeString m.name
    let params ← writeBytes m.params
    .ok (tagDeclaredQueryWithParameters :: id ++ name ++ params)
  | .callProcedure m => do
    let id ← writeBytes m.messageID
    let name ← writeString m.name
    let args ← writeBytes m.args
    .ok (tagCallProcedure :: id ++ name ++ args)
  | .subscribeMulti m => do
    let queries ← writeCounted "SubscribeMulti query string count" writeString m.queryStrings
    .ok (tagSubscribeMulti :: writeUint32 m.requestID ++ writeUint32 m.queryID ++ queries)
  | .subscribeDeclaredView m => do
    let name ← writeString m.name
    .ok (tagSubscribeDeclaredView :: writeUint32 m.requestID ++ writeUint32 m.queryID ++ name)
  | .subscribeDeclaredViewWithParameters m => do
    let name ← writeString m.name
    let params ← writeBytes m.params
    .ok (tagSubscribeDeclaredViewWithParameters :: writeUint32 m.requestID ++
      writeUint32 m.queryID ++ name ++ params)
  | .unsubscribeMulti m =>
    .ok (tagUnsubscribeMulti :: writeUint32 m.requestID ++ writeUint32 m.queryID)

def encodeClientMessage (m : ClientMessage) : Except ProtocolError Bytes := do
  validateClientMessageForEncode m
  let _ ← encodedClientMessageSize m
  writeClientMessage m

/-! ## Decoding -/

def readRequestQueryID : WireReader (UInt32 × UInt32) := fun size => do
  let requestID ← readUint32 size
  let queryID ← readUint32 size
  pure (requestID, queryID)

def readRequestQueryIDAndString : WireReader (UInt32 × UInt32 × Bytes) := fun size => do
  let (requestID, queryID) ← readRequestQueryID size
  let value ← readString size
  pure (requestID, queryID, value)

def readBytesAndString : WireReader (Bytes × Bytes) := fun size => do
  let b ← readBytes size
  let s ← readString size
  pure (b, s)

def decodeSubscribeSingle : Bytes → Except ProtocolError SubscribeSingleMsg :=
  decodeBody "SubscribeSingle" fun size => do
    let (requestID, queryID, queryString) ← readRequestQueryIDAndString size
    pure ⟨requestID, queryID, queryString⟩

def decodeUnsubscribeSingle : Bytes → Except ProtocolError UnsubscribeSingleMsg :=
  decodeBody "UnsubscribeSingle" fun size => do
    let (requestID, queryID) ← readRequestQueryID size
    pure ⟨requestID, queryID⟩

def checkCallReducerFlags (flags : UInt8) : Reader ProtocolError UInt8 :=
  if validCallReducerFlags flags then pure flags else throw (.invalidCallReducerFlags flags)

def decodeCallReducer : Bytes → Except ProtocolError CallReducerMsg :=
  decodeBody "CallReducer" fun size => do
    let reducerName ← readString size
    let args ← readBytes size
    let requestID ← readUint32 size
    let flags ← readByte (fun _ => .fieldTruncated "CallReducer flags byte") >>=
      checkCallReducerFlags
    pure ⟨reducerName, args, requestID, flags⟩

def decodeOneOffQuery : Bytes → Except ProtocolError OneOffQueryMsg :=
  decodeBody "OneOffQuery" fun size => do
    let (messageID, queryString) ← readBytesAndString size
    pure ⟨messageID, queryString⟩

def decodeDeclaredQuery : Bytes → Except ProtocolError DeclaredQueryMsg :=
  decodeBody "DeclaredQuery" fun size => do
    let (messageID, name) ← readBytesAndString size
    pure ⟨messageID, name⟩

def decodeDeclaredQueryWithParameters :
    Bytes → Except ProtocolError DeclaredQueryWithParametersMsg :=
  decodeBody "DeclaredQueryWithParameters" fun size => do
    let (messageID, name) ← readBytesAndString size
    let params ← readBytes size
    pure ⟨messageID, name, params⟩

def decodeCallProcedure : Bytes → Except ProtocolError CallProcedureMsg :=
  decodeBody "CallProcedure" fun size => do
    let (messageID, name) ← readBytesAndString size
    let args ← readBytes size
    pure ⟨messageID, name, args⟩

def maxSubscribeMultiQueriesHard : Nat := 4096

def readQueryStrings (size : Nat) (count : UInt32) : Reader ProtocolError (List Bytes) :=
  if count.toNat > maxSubscribeMultiQueriesHard then
    throw (.queryCountExceedsLimit count.toNat maxSubscribeMultiQueriesHard)
  else readItems "SubscribeMulti query_strings" 4 (readString size) count

def decodeSubscribeMulti : Bytes → Except ProtocolError SubscribeMultiMsg :=
  decodeBody "SubscribeMulti" fun size => do
    let (requestID, queryID) ← readRequestQueryID size
    let queryStrings ← readUint32 size >>= readQueryStrings size
    pure ⟨requestID, queryID, queryStrings⟩

def decodeSubscribeDeclaredView : Bytes → Except ProtocolError SubscribeDeclaredViewMsg :=
  decodeBody "SubscribeDeclaredView" fun size => do
    let (requestID, queryID, name) ← readRequestQueryIDAndString size
    pure ⟨requestID, queryID, name⟩

def decodeSubscribeDeclaredViewWithParameters :
    Bytes → Except ProtocolError SubscribeDeclaredViewWithParametersMsg :=
  decodeBody "SubscribeDeclaredViewWithParameters" fun size => do
    let (requestID, queryID, name) ← readRequestQueryIDAndString size
    let params ← readBytes size
    pure ⟨requestID, queryID, name, params⟩

def decodeUnsubscribeMulti : Bytes → Except ProtocolError UnsubscribeMultiMsg :=
  decodeBody "UnsubscribeMulti" fun size => do
    let (requestID, queryID) ← readRequestQueryID size
    pure ⟨requestID, queryID⟩

def protocolVersionV2 : Nat := 2

/-- The gate in front of the decoders that the first version of the protocol does not have. -/
def requireVersion2 (version : Nat) (tag : UInt8) : Except ProtocolError Unit :=
  if version < protocolVersionV2 then .error (.unsupportedTag tag version) else .ok ()

def decodeClientMessagePartsForVersion (version : Nat) (tag : UInt8) (body : Bytes) :
    Except ProtocolError ClientMessage :=
  match tag with
  | tagSubscribeSingle => .subscribeSingle <$> decodeSubscribeSingle body
  | tagUnsubscribeSingle => .unsubscribeSingle <$> decodeUnsubscribeSingle body
  | tagCallReducer => .callReducer <$> decodeCallReducer body
  | tagOneOffQuery => .oneOffQuery <$> decodeOneOffQuery body
  | tagDeclaredQuery => .declaredQuery <$> decodeDeclaredQuery body
  | tagDeclaredQueryWithParameters => do
    requireVersion2 version tagDeclaredQueryWithParameters
    .declaredQueryWithParameters <$> decodeDeclaredQueryWithParameters body
  | tagSubscribeMulti => .subscribeMulti <$> decodeSubscribeMulti body
  | tagSubscribeDeclaredView => .subscribeDeclaredView <$> decodeSubscribeDeclaredView body
  | tagSubscribeDeclaredViewWithParameters => do
    requireVersion2 version tagSubscribeDeclaredViewWithParameters
    .subscribeDeclaredViewWithParameters <$> decodeSubscribeDeclaredViewWithParameters body
  | tagCallProcedure => do
    requireVersion2 version tagCallProcedure
    .callProcedure <$> decodeCallProcedure body
  | tagUnsubscribeMulti => .unsubscribeMulti <$> decodeUnsubscribeMulti body
  | tag => .error (.unknownTag tag)

def decodeClientMessageForVersion (version : Nat) :
    Bytes → Except ProtocolError (UInt8 × ClientMessage)
  | [] => .error .emptyFrame
  | tag :: body => do
    let m ← decodeClientMessagePartsForVersion version tag body
    .ok (tag, m)

end Shunter.Protocol
