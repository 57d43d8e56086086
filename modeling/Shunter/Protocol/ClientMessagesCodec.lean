import Shunter.Protocol.ClientMessages
import Shunter.Protocol.WireCodec

/-!
# Client messages are read back

The text of every client message, what the encoder accepts and what the decoder
accepts.
-/

namespace Shunter.Protocol

open Foundation Reader

namespace ClientMessage

def tag : ClientMessage → UInt8
  | .subscribeSingle _ => tagSubscribeSingle
  | .unsubscribeSingle _ => tagUnsubscribeSingle
  | .callReducer _ => tagCallReducer
  | .oneOffQuery _ => tagOneOffQuery
  | .declaredQuery _ => tagDeclaredQuery
  | .declaredQueryWithParameters _ => tagDeclaredQueryWithParameters
  | .callProcedure _ => tagCallProcedure
  | .subscribeMulti _ => tagSubscribeMulti
  | .subscribeDeclaredView _ => tagSubscribeDeclaredView
  | .subscribeDeclaredViewWithParameters _ => tagSubscribeDeclaredViewWithParameters
  | .unsubscribeMulti _ => tagUnsubscribeMulti

def idsText (requestID queryID : UInt32) : Bytes := writeUint32 requestID ++ writeUint32 queryID

def text : ClientMessage → Bytes
  | .subscribeSingle m => idsText m.requestID m.queryID ++ prefixed m.queryString
  | .unsubscribeSingle m => idsText m.requestID m.queryID
  | .callReducer m =>
    prefixed m.reducerName ++ (prefixed m.args ++ (writeUint32 m.requestID ++ [m.flags]))
  | .oneOffQuery m => prefixed m.messageID ++ prefixed m.queryString
  | .declaredQuery m => prefixed m.messageID ++ prefixed m.name
  | .declaredQueryWithParameters m => prefixed m.messageID ++ prefixed m.name ++ prefixed m.params
  | .callProcedure m => prefixed m.messageID ++ prefixed m.name ++ prefixed m.args
  | .subscribeMulti m => idsText m.requestID m.queryID ++ countedText prefixed m.queryStrings
  | .subscribeDeclaredView m => idsText m.requestID m.queryID ++ prefixed m.name
  | .subscribeDeclaredViewWithParameters m =>
    idsText m.requestID m.queryID ++ prefixed m.name ++ prefixed m.params
  | .unsubscribeMulti m => idsText m.requestID m.queryID

def ValidStrings : ClientMessage → Prop
  | .subscribeSingle m => validUTF8 m.queryString = true
  | .callReducer m => validUTF8 m.reducerName = true
  | .oneOffQuery m => validUTF8 m.queryString = true
  | .declaredQuery m => validUTF8 m.name = true
  | .declaredQueryWithParameters m => validUTF8 m.name = true
  | .callProcedure m => validUTF8 m.name = true
  | .subscribeMulti m => ∀ q ∈ m.queryStrings, validUTF8 q = true
  | .subscribeDeclaredView m => validUTF8 m.name = true
  | .subscribeDeclaredViewWithParameters m => validUTF8 m.name = true
  | .unsubscribeSingle _ | .unsubscribeMulti _ => True

def LengthsFit : ClientMessage → Prop
  | .subscribeSingle m => WireBytes m.queryString
  | .callReducer m => WireBytes m.reducerName ∧ WireBytes m.args
  | .oneOffQuery m => WireBytes m.messageID ∧ WireBytes m.queryString
  | .declaredQuery m => WireBytes m.messageID ∧ WireBytes m.name
  | .declaredQueryWithParameters m =>
    (WireBytes m.messageID ∧ WireBytes m.name) ∧ WireBytes m.params
  | .callProcedure m => (WireBytes m.messageID ∧ WireBytes m.name) ∧ WireBytes m.args
  | .subscribeMulti m => m.queryStrings.length < 2 ^ 32 ∧ ∀ q ∈ m.queryStrings, WireBytes q
  | .subscribeDeclaredView m => WireBytes m.name
  | .subscribeDeclaredViewWithParameters m => WireBytes m.name ∧ WireBytes m.params
  | .unsubscribeSingle _ | .unsubscribeMulti _ => True

def KnownFlags : ClientMessage → Prop
  | .callReducer m => validCallReducerFlags m.flags = true
  | _ => True

def WithinQueryLimit : ClientMessage → Prop
  | .subscribeMulti m => m.queryStrings.length ≤ maxSubscribeMultiQueriesHard
  | _ => True

structure Fits (m : ClientMessage) : Prop where
  strings : m.ValidStrings
  lengths : m.LengthsFit
  flags : m.KnownFlags

structure Readable (m : ClientMessage) : Prop extends Fits m where
  limit : m.WithinQueryLimit

def Fields : ClientMessage → Prop
  | .subscribeSingle m => WireString m.queryString
  | .callReducer m =>
    WireString m.reducerName ∧ WireBytes m.args ∧ validCallReducerFlags m.flags = true
  | .oneOffQuery m => WireBytes m.messageID ∧ WireString m.queryString
  | .declaredQuery m => WireBytes m.messageID ∧ WireString m.name
  | .declaredQueryWithParameters m =>
    (WireBytes m.messageID ∧ WireString m.name) ∧ WireBytes m.params
  | .callProcedure m => (WireBytes m.messageID ∧ WireString m.name) ∧ WireBytes m.args
  | .subscribeMulti m => m.queryStrings.length ≤ maxSubscribeMultiQueriesHard ∧
      ∀ q ∈ m.queryStrings, WireString q
  | .subscribeDeclaredView m => WireString m.name
  | .subscribeDeclaredViewWithParameters m => WireString m.name ∧ WireBytes m.params
  | .unsubscribeSingle _ | .unsubscribeMulti _ => True

theorem readable_iff {m : ClientMessage} : m.Readable ↔ m.Fields := by
  have hsplit : m.Readable ↔
      m.ValidStrings ∧ m.LengthsFit ∧ m.KnownFlags ∧ m.WithinQueryLimit :=
    ⟨fun h => ⟨h.strings, h.lengths, h.flags, h.limit⟩,
      fun h => ⟨⟨h.1, h.2.1, h.2.2.1⟩, h.2.2.2⟩⟩
  rw [hsplit]
  cases m <;>
    simp only [ValidStrings, LengthsFit, KnownFlags, WithinQueryLimit, Fields, wireString_iff,
      maxSubscribeMultiQueriesHard] <;>
    grind

end ClientMessage

/-! ## Writing -/

variable {u : Unit}

theorem requireCallReducerFlags_ok {flags : UInt8} :
    requireCallReducerFlags flags = .ok u ↔ validCallReducerFlags flags = true := by
  unfold requireCallReducerFlags
  split <;> simp_all

variable {m : ClientMessage} {frame : Bytes}

theorem validateClientMessageForEncode_ok :
    validateClientMessageForEncode m = .ok u ↔ m.ValidStrings ∧ m.KnownFlags := by
  cases m <;>
    simp [validateClientMessageForEncode, ClientMessage.ValidStrings, ClientMessage.KnownFlags,
      except_bind_eq_ok, requireValidWireString_ok, requireValidWireStrings_ok,
      requireCallReducerFlags_ok]

theorem writeClientMessage_ok :
    writeClientMessage m = .ok frame ↔ m.LengthsFit ∧ frame = m.tag :: m.text := by
  cases m <;>
    simp only [writeClientMessage, except_bind_eq_ok, writeString_ok, writeBytes_ok, writeStrings_ok,
      ClientMessage.LengthsFit, ClientMessage.tag, ClientMessage.text, ClientMessage.idsText,
      Except.ok.injEq] <;>
    grind

section

open Sizer ClientMessage

private theorem clientSizer_adds {f : Sizer → Sizer} {P : Prop} {n : Nat} (h : Adds f P n)
    (hf : m.sizer = fun s => f (s.add 1) := by rfl)
    (hP : P ↔ m.LengthsFit := by simp [LengthsFit])
    (hn : n = m.text.length := by simp [text, idsText] <;> omega) :
    Adds m.sizer m.LengthsFit (m.tag :: m.text).length := by
  rw [hf]
  exact ((add_adds 1).comp h).congr (by simpa using hP) (by rw [hn, List.length_cons, Nat.add_comm])

theorem ClientMessage.sizer_adds (m : ClientMessage) :
    Adds m.sizer m.LengthsFit (m.tag :: m.text).length := by
  cases m with
  | unsubscribeSingle m | unsubscribeMulti m => exact clientSizer_adds (add_adds 8)
  | subscribeSingle m => exact clientSizer_adds ((add_adds 8).comp (string_adds m.queryString))
  | callReducer m =>
    exact clientSizer_adds ((string_adds m.reducerName).comp
      ((bytes_adds m.args).comp (add_adds 5)))
  | oneOffQuery m =>
    exact clientSizer_adds ((bytes_adds m.messageID).comp (string_adds m.queryString))
  | declaredQuery m => exact clientSizer_adds ((bytes_adds m.messageID).comp (string_adds m.name))
  | declaredQueryWithParameters m =>
    exact clientSizer_adds (((bytes_adds m.messageID).comp (string_adds m.name)).comp
      (bytes_adds m.params))
  | callProcedure m =>
    exact clientSizer_adds (((bytes_adds m.messageID).comp (string_adds m.name)).comp
      (bytes_adds m.args))
  | subscribeMulti m =>
    exact clientSizer_adds ((add_adds 8).comp ((count_adds _ m.queryStrings.length).comp
      (foldl_adds string_adds m.queryStrings)))
  | subscribeDeclaredView m => exact clientSizer_adds ((add_adds 8).comp (string_adds m.name))
  | subscribeDeclaredViewWithParameters m =>
    exact clientSizer_adds ((add_adds 8).comp ((string_adds m.name).comp (bytes_adds m.params)))

end

theorem encodedClientMessageSize_ok {n : Nat} :
    encodedClientMessageSize m = .ok n ↔
      (m.LengthsFit ∧ (m.tag :: m.text).length ≤ maxProtocolAlloc) ∧
        n = (m.tag :: m.text).length :=
  Sizer.size_ok m.sizer_adds

theorem encodeClientMessage_ok :
    encodeClientMessage m = .ok frame ↔
      m.Fits ∧ frame.length ≤ maxProtocolAlloc ∧ frame = m.tag :: m.text := by
  simp only [encodeClientMessage, except_bind_eq_ok, validateClientMessageForEncode_ok,
    encodedClientMessageSize_ok, writeClientMessage_ok]
  constructor
  · rintro ⟨_, ⟨hstrings, hflags⟩, _, ⟨⟨hlengths, hle⟩, -⟩, -, rfl⟩
    exact ⟨⟨hstrings, hlengths, hflags⟩, hle, rfl⟩
  · rintro ⟨⟨hstrings, hlengths, hflags⟩, hle, rfl⟩
    exact ⟨(), ⟨hstrings, hflags⟩, _, ⟨⟨hlengths, hle⟩, rfl⟩, hlengths, rfl⟩

/-! ## Reading -/

section Fields

variable (size : Nat)

theorem readRequestQueryID_codes :
    WireCodes (readRequestQueryID size) (fun ids => ClientMessage.idsText ids.1 ids.2)
      fun _ => True := by
  have h := (readUint32_codes size).bind fun requestID => (readUint32_codes size).bind fun queryID =>
    parses_pure (requestID, queryID)
  exact h.codes fun ids t => by cases ids; simp [ClientMessage.idsText]

theorem readRequestQueryIDAndString_codes :
    WireCodes (readRequestQueryIDAndString size)
      (fun p => ClientMessage.idsText p.1 p.2.1 ++ prefixed p.2.2) fun p => WireString p.2.2 := by
  have h := (readRequestQueryID_codes size).bind fun ids => (readString_codes size).bind fun value =>
    parses_pure (ids.1, ids.2, value)
  exact h.codes fun p t => by rcases p with ⟨_, _, _⟩; simp

theorem readBytesAndString_codes :
    WireCodes (readBytesAndString size) (fun p => prefixed p.1 ++ prefixed p.2)
      fun p => WireBytes p.1 ∧ WireString p.2 := by
  have h := (readBytes_codes size).bind fun b => (readString_codes size).bind fun s =>
    parses_pure (b, s)
  exact h.codes fun p t => by cases p; simp [and_assoc]

end Fields

open ClientMessage

attribute [local simp] Fields text

/-- The decoder of one kind of message is exact. -/
abbrev ClientCodes {α : Type} (decode : Bytes → Except ProtocolError α)
    (wrap : α → ClientMessage) : Prop :=
  BodyCodes decode (fun m => text (wrap m)) fun m => Fields (wrap m)

theorem decodeSubscribeSingle_codes : ClientCodes decodeSubscribeSingle .subscribeSingle :=
  decodeBody_codes (fun size => (readRequestQueryIDAndString_codes size).bind fun p =>
    parses_pure (SubscribeSingleMsg.mk p.1 p.2.1 p.2.2)) (by rintro ⟨⟩ t; simp [and_assoc])

theorem decodeUnsubscribeSingle_codes :
    ClientCodes decodeUnsubscribeSingle .unsubscribeSingle :=
  decodeBody_codes (fun size => (readRequestQueryID_codes size).bind fun p =>
    parses_pure (UnsubscribeSingleMsg.mk p.1 p.2)) (by rintro ⟨⟩ t; simp [and_assoc])

theorem readCallReducerFlags_codes :
    WireCodes (readByte (fun _ => .fieldTruncated "CallReducer flags byte") >>=
      checkCallReducerFlags) ([·]) fun flags => True ∧ validCallReducerFlags flags = true := by
  refine (readByte_codes _ (by simp)).check (fun flags y h => ?_) fun flags y h => ?_
  · rw [checkCallReducerFlags, if_pos h]
    rfl
  · exact ⟨_, by rw [checkCallReducerFlags, if_neg h]; rfl, by simp⟩

theorem decodeCallReducer_codes : ClientCodes decodeCallReducer .callReducer :=
  decodeBody_codes (fun size => (readString_codes size).bind fun name =>
    (readBytes_codes size).bind fun args => (readUint32_codes size).bind fun id =>
    readCallReducerFlags_codes.bind fun flags => parses_pure (CallReducerMsg.mk name args id flags))
    (by rintro ⟨⟩ t; simp [and_assoc])

theorem decodeOneOffQuery_codes : ClientCodes decodeOneOffQuery .oneOffQuery :=
  decodeBody_codes (fun size => (readBytesAndString_codes size).bind fun p =>
    parses_pure (OneOffQueryMsg.mk p.1 p.2)) (by rintro ⟨⟩ t; simp [and_assoc])

theorem decodeDeclaredQuery_codes : ClientCodes decodeDeclaredQuery .declaredQuery :=
  decodeBody_codes (fun size => (readBytesAndString_codes size).bind fun p =>
    parses_pure (DeclaredQueryMsg.mk p.1 p.2)) (by rintro ⟨⟩ t; simp [and_assoc])

theorem decodeDeclaredQueryWithParameters_codes :
    ClientCodes decodeDeclaredQueryWithParameters .declaredQueryWithParameters :=
  decodeBody_codes (fun size => (readBytesAndString_codes size).bind fun p =>
    (readBytes_codes size).bind fun b => parses_pure (DeclaredQueryWithParametersMsg.mk p.1 p.2 b))
    (by rintro ⟨⟩ t; simp [and_assoc])

theorem decodeCallProcedure_codes : ClientCodes decodeCallProcedure .callProcedure :=
  decodeBody_codes (fun size => (readBytesAndString_codes size).bind fun p =>
    (readBytes_codes size).bind fun b => parses_pure (CallProcedureMsg.mk p.1 p.2 b))
    (by rintro ⟨⟩ t; simp [and_assoc])

theorem readQueryStrings_codes (size : Nat) (count : UInt32) :
    WireCodes (readQueryStrings size count) (·.flatMap prefixed) fun l => l.length = count.toNat ∧
      l.length ≤ maxSubscribeMultiQueriesHard ∧ ∀ q ∈ l, WireString q := by
  unfold readQueryStrings
  split
  · next hlimit =>
    refine (codes_throw (by simp) _).congr (fun l => ?_) fun _ _ => rfl
    simp only [false_iff, not_and]
    omega
  · next hlimit =>
    have h := readItems_codes "SubscribeMulti query_strings" 4 (readString_codes size)
      (by simp) (by simp) count
    refine h.congr (fun l => ?_) fun _ _ => rfl
    exact ⟨fun h => ⟨h.1, by omega, h.2⟩, fun h => ⟨h.1, h.2.2⟩⟩

theorem decodeSubscribeMulti_codes : ClientCodes decodeSubscribeMulti .subscribeMulti := by
  refine decodeBody_codes (fun size => (readRequestQueryID_codes size).bind fun p =>
    (counted_codes size (readQueryStrings_codes size)).bind fun l =>
    parses_pure (SubscribeMultiMsg.mk p.1 p.2 l)) fun m t => ?_
  cases m
  simp [maxSubscribeMultiQueriesHard]
  grind

theorem decodeSubscribeDeclaredView_codes :
    ClientCodes decodeSubscribeDeclaredView .subscribeDeclaredView :=
  decodeBody_codes (fun size => (readRequestQueryIDAndString_codes size).bind fun p =>
    parses_pure (SubscribeDeclaredViewMsg.mk p.1 p.2.1 p.2.2)) (by rintro ⟨⟩ t; simp [and_assoc])

theorem decodeSubscribeDeclaredViewWithParameters_codes :
    ClientCodes decodeSubscribeDeclaredViewWithParameters .subscribeDeclaredViewWithParameters :=
  decodeBody_codes (fun size => (readRequestQueryIDAndString_codes size).bind fun p =>
    (readBytes_codes size).bind fun b =>
    parses_pure (SubscribeDeclaredViewWithParametersMsg.mk p.1 p.2.1 p.2.2 b))
    (by rintro ⟨⟩ t; simp [and_assoc])

theorem decodeUnsubscribeMulti_codes : ClientCodes decodeUnsubscribeMulti .unsubscribeMulti :=
  decodeBody_codes (fun size => (readRequestQueryID_codes size).bind fun p =>
    parses_pure (UnsubscribeMultiMsg.mk p.1 p.2)) (by rintro ⟨⟩ t; simp [and_assoc])

def isVersion2Tag (tag : UInt8) : Bool :=
  tag = tagDeclaredQueryWithParameters || tag = tagSubscribeDeclaredViewWithParameters ||
    tag = tagCallProcedure

def Admits (version : Nat) (tag : UInt8) : Prop :=
  isVersion2Tag tag = true → protocolVersionV2 ≤ version

variable {version : Nat} {tag : UInt8}

theorem requireVersion2_ok :
    requireVersion2 version tag = .ok u ↔ protocolVersionV2 ≤ version := by
  unfold requireVersion2
  split
  · next h => simpa using h
  · next h => simpa using Nat.le_of_not_lt h

theorem requireVersion2_safe (version : Nat) (tag : UInt8) :
    requireVersion2 version tag ≠ .error .outOfRange := by
  unfold requireVersion2
  split <;> simp

section Versions

variable {version : Nat} {tag : UInt8} {α : Type} {decode : Bytes → Except ProtocolError α}
  {wrap : α → ClientMessage}

private theorem admitted_codes (hadmits : Admits version tag)
    (h : ClientCodes decode wrap)
    (htag : ∀ m, m.tag = tag ↔ ∃ v, m = wrap v := by
      rintro ⟨⟩ <;> simp [ClientMessage.tag] <;> decide) :
    BodyCodes (fun body => wrap <$> decode body) text
      fun m => m.tag = tag ∧ Admits version tag ∧ m.Fields :=
  (h.wrap htag).congr fun m => by simp [hadmits]

private theorem gated_codes (hversion : isVersion2Tag tag = true)
    (h : ClientCodes decode wrap)
    (htag : ∀ m, m.tag = tag ↔ ∃ v, m = wrap v := by
      rintro ⟨⟩ <;> simp [ClientMessage.tag] <;> decide) :
    BodyCodes (fun body => do requireVersion2 version tag; wrap <$> decode body) text
      fun m => m.tag = tag ∧ Admits version tag ∧ m.Fields := by
  refine ((h.wrap htag).gated (requireVersion2_safe version tag)).congr fun m => ?_
  simp only [requireVersion2_ok, Admits, hversion]
  tauto

end Versions

theorem decodeClientMessagePartsForVersion_codes (version : Nat) (tag : UInt8) :
    BodyCodes (decodeClientMessagePartsForVersion version tag) ClientMessage.text
      fun m => m.tag = tag ∧ Admits version tag ∧ m.Fields := by
  unfold decodeClientMessagePartsForVersion
  split
  · exact admitted_codes nofun decodeSubscribeSingle_codes
  · exact admitted_codes nofun decodeUnsubscribeSingle_codes
  · exact admitted_codes nofun decodeCallReducer_codes
  · exact admitted_codes nofun decodeOneOffQuery_codes
  · exact admitted_codes nofun decodeDeclaredQuery_codes
  · exact gated_codes rfl decodeDeclaredQueryWithParameters_codes
  · exact admitted_codes nofun decodeSubscribeMulti_codes
  · exact admitted_codes nofun decodeSubscribeDeclaredView_codes
  · exact gated_codes rfl decodeSubscribeDeclaredViewWithParameters_codes
  · exact gated_codes rfl decodeCallProcedure_codes
  · exact admitted_codes nofun decodeUnsubscribeMulti_codes
  · refine bodyCodes_error (by simp) ?_
    rintro ⟨⟩ ⟨rfl, -⟩ <;> contradiction

theorem decodeClientMessagePartsForVersion_ok {body : Bytes} :
    decodeClientMessagePartsForVersion version tag body = .ok m ↔
      tag = m.tag ∧ Admits version tag ∧ m.Readable ∧ body = m.text := by
  rw [(decodeClientMessagePartsForVersion_codes version tag).ok, readable_iff, and_assoc,
    and_assoc, eq_comm]

theorem ClientMessage.text_stops {m' : ClientMessage} {more : Bytes} (htag : m'.tag = m.tag)
    (hm : m.Readable) (hm' : m'.Readable) (htext : m'.text = m.text ++ more) : more = [] :=
  (decodeClientMessagePartsForVersion_codes protocolVersionV2 m.tag).stops m m' more
    ⟨rfl, fun _ => Nat.le_refl _, readable_iff.mp hm⟩
    ⟨htag, fun _ => Nat.le_refl _, readable_iff.mp hm'⟩ htext

/-! ## Frames -/

theorem decodeClientMessageForVersion_ok :
    decodeClientMessageForVersion version frame = .ok (tag, m) ↔
      tag = m.tag ∧ Admits version m.tag ∧ m.Readable ∧ frame = m.tag :: m.text := by
  cases frame with
  | nil => simp [decodeClientMessageForVersion]
  | cons b body =>
    simp only [decodeClientMessageForVersion, except_bind_eq_ok, Except.ok.injEq, Prod.mk.injEq,
      decodeClientMessagePartsForVersion_ok, List.cons.injEq]
    constructor
    · rintro ⟨_, ⟨rfl, hversion, hread, rfl⟩, rfl, rfl⟩
      exact ⟨rfl, hversion, hread, rfl, rfl⟩
    · rintro ⟨rfl, hversion, hread, rfl, rfl⟩
      exact ⟨m, ⟨rfl, hversion, hread, rfl⟩, rfl, rfl⟩

theorem decodeClientMessageForVersion_safe (version : Nat) (frame : Bytes) :
    decodeClientMessageForVersion version frame ≠ .error .outOfRange := by
  cases frame with
  | nil => simp [decodeClientMessageForVersion]
  | cons b body =>
    intro h
    obtain h | ⟨_, -, h⟩ := except_bind_eq_error.mp h
    · exact (decodeClientMessagePartsForVersion_codes version b).safe body h
    · cases h

end Shunter.Protocol
