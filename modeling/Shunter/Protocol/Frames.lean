import Shunter.Protocol.ClientMessagesCodec
import Shunter.Protocol.RowListCodec
import Shunter.Protocol.ServerMessagesCodec

/-!
# The codecs of the wire

An encoder and a decoder are inverse to each other between what can be sent and
the frames that are accepted.
-/

namespace Shunter.Protocol

open Foundation

/-- `encode` and `decode` are a bijection between the sendable values and the accepted frames,
where `result` is what the decoder gives back for a value.  A frame is a slice, so its length is
an `int`. -/
structure FrameCodec {α γ : Type} (encode : α → Except ProtocolError Bytes)
    (decode : Bytes → Except ProtocolError γ) (size : α → Except ProtocolError Nat)
    (result : α → γ) (Sendable : α → Prop) : Prop where
  roundTrip : ∀ a, Sendable a ↔ ∃ frame, encode a = .ok frame ∧ decode frame = .ok (result a)
  sized : ∀ a frame, encode a = .ok frame → size a = .ok frame.length
  exact : ∀ frame c, frame.length ≤ maxProtocolAlloc → decode frame = .ok c →
    ∃ a, c = result a ∧ encode a = .ok frame
  stops : ∀ frame more c c', decode frame = .ok c → decode (frame ++ more) = .ok c' → more = []
  safe : ∀ frame, decode frame ≠ .error .outOfRange

/-- What a client of the version can send: valid strings, lengths and counts of four bytes, known
flags, a set of queries within the limit, and a frame whose length is an `int`. -/
structure ClientMessage.Sendable (version : Nat) (m : ClientMessage) : Prop extends
    m.Readable where
  admitted : Admits version m.tag
  size : (m.tag :: m.text).length ≤ maxProtocolAlloc

/-- What a server can send: valid strings, lengths and counts of four bytes, a status that is not
nil, no rows behind a flag that says so, and a frame whose length is an `int`. -/
structure ServerMessage.Sendable (m : ServerMessage) : Prop extends m.Readable where
  size : (m.tag :: m.text).length ≤ maxProtocolAlloc

theorem clientMessage_codec (version : Nat) :
    FrameCodec encodeClientMessage (decodeClientMessageForVersion version)
      encodedClientMessageSize (fun m => (m.tag, m)) (ClientMessage.Sendable version) where
  roundTrip m := by
    constructor
    · intro h
      exact ⟨m.tag :: m.text, encodeClientMessage_ok.mpr ⟨h.toFits, h.size, rfl⟩,
        decodeClientMessageForVersion_ok.mpr ⟨rfl, h.admitted, h.toReadable, rfl⟩⟩
    · rintro ⟨frame, hencode, hdecode⟩
      obtain ⟨-, hsize, rfl⟩ := encodeClientMessage_ok.mp hencode
      obtain ⟨-, hadmitted, hread, -⟩ := decodeClientMessageForVersion_ok.mp hdecode
      exact ⟨hread, hadmitted, hsize⟩
  sized m frame h := by
    obtain ⟨hfits, hsize, rfl⟩ := encodeClientMessage_ok.mp h
    exact encodedClientMessageSize_ok.mpr ⟨⟨hfits.lengths, hsize⟩, rfl⟩
  exact frame c hlen h := by
    obtain ⟨tag, m⟩ := c
    obtain ⟨rfl, -, hread, rfl⟩ := decodeClientMessageForVersion_ok.mp h
    exact ⟨m, rfl, encodeClientMessage_ok.mpr ⟨hread.toFits, hlen, rfl⟩⟩
  stops frame more c c' h h' := by
    obtain ⟨tag, m⟩ := c
    obtain ⟨tag', m'⟩ := c'
    obtain ⟨-, -, hread, rfl⟩ := decodeClientMessageForVersion_ok.mp h
    obtain ⟨-, -, hread', hframe⟩ := decodeClientMessageForVersion_ok.mp h'
    obtain ⟨htag, htext⟩ := List.cons.inj hframe
    exact ClientMessage.text_stops htag.symm hread hread' htext.symm
  safe := decodeClientMessageForVersion_safe version

theorem serverMessage_codec :
    FrameCodec encodeServerMessage decodeServerMessage encodedServerMessageSize
      (fun m => (m.tag, m)) ServerMessage.Sendable where
  roundTrip m := by
    constructor
    · intro h
      exact ⟨m.tag :: m.text, encodeServerMessage_ok.mpr ⟨h.toFits, h.size, rfl⟩,
        decodeServerMessage_ok.mpr ⟨rfl, h.toReadable, rfl⟩⟩
    · rintro ⟨frame, hencode, hdecode⟩
      obtain ⟨-, hsize, rfl⟩ := encodeServerMessage_ok.mp hencode
      obtain ⟨-, hread, -⟩ := decodeServerMessage_ok.mp hdecode
      exact ⟨hread, hsize⟩
  sized m frame h := by
    obtain ⟨hfits, hsize, rfl⟩ := encodeServerMessage_ok.mp h
    exact (encodedServerMessageSize_ok hfits.status).mpr ⟨⟨hfits.lengths, hsize⟩, rfl⟩
  exact frame c hlen h := by
    obtain ⟨tag, m⟩ := c
    obtain ⟨rfl, hread, rfl⟩ := decodeServerMessage_ok.mp h
    exact ⟨m, rfl, encodeServerMessage_ok.mpr ⟨hread.toFits, hlen, rfl⟩⟩
  stops frame more c c' h h' := by
    obtain ⟨tag, m⟩ := c
    obtain ⟨tag', m'⟩ := c'
    obtain ⟨-, hread, rfl⟩ := decodeServerMessage_ok.mp h
    obtain ⟨-, hread', hframe⟩ := decodeServerMessage_ok.mp h'
    obtain ⟨htag, htext⟩ := List.cons.inj hframe
    exact ServerMessage.text_stops htag.symm hread hread' htext.symm
  safe := decodeServerMessage_safe

theorem rowListText_stops {rows rows' : List Bytes} {more : Bytes} (h : RowListCounts rows)
    (h' : RowListCounts rows') (htext : rowListText rows' = rowListText rows ++ more) :
    more = [] := by
  rw [rowListText, rowListText, List.append_assoc] at htext
  obtain ⟨hcount, hitems⟩ := List.append_inj htext (by simp)
  have hvalue : littleEndianValue (littleEndian 4 rows.length) = rows.length :=
    littleEndianValue_littleEndian (by simpa using h.count)
  have hvalue' : littleEndianValue (littleEndian 4 rows'.length) = rows'.length :=
    littleEndianValue_littleEndian (by simpa using h'.count)
  have hlength : rows'.length = rows.length := by rw [← hvalue', hcount, hvalue]
  have hscan := scanRowList_itemsText 0 0 more h.row
  have hscan' := scanRowList_itemsText 0 0 [] h'.row
  rw [← hitems, ← hlength] at hscan
  rw [List.append_nil] at hscan'
  rw [hscan'] at hscan
  exact (Prod.mk.inj (Except.ok.inj hscan)).2.symm

theorem rowList_codec :
    FrameCodec encodeRowListChecked decodeRowList (rowListSize 4) id RowListFits where
  roundTrip rows := by
    constructor
    · intro h
      exact ⟨rowListText rows, encodeRowListChecked_ok.mpr ⟨h, rfl⟩,
        decodeRowList_ok.mpr ⟨h.toRowListCounts, rfl⟩⟩
    · rintro ⟨frame, hencode, -⟩
      exact (encodeRowListChecked_ok.mp hencode).1
  sized rows frame h := by
    obtain ⟨hfits, rfl⟩ := encodeRowListChecked_ok.mp h
    have hsize := hfits.size
    rw [length_rowListText] at hsize ⊢
    exact (rowListSize_ok (by decide)).mpr ⟨hfits.row, hsize, rfl⟩
  exact frame rows hlen h := by
    obtain ⟨hcounts, rfl⟩ := decodeRowList_ok.mp h
    exact ⟨rows, rfl, encodeRowListChecked_ok.mpr ⟨⟨hcounts, hlen⟩, rfl⟩⟩
  stops frame more rows rows' h h' := by
    obtain ⟨hcounts, rfl⟩ := decodeRowList_ok.mp h
    obtain ⟨hcounts', htext⟩ := decodeRowList_ok.mp h'
    exact rowListText_stops hcounts hcounts' htext.symm
  safe := decodeRowList_safe

/-- The three codecs of the wire: of client messages under every version of the protocol, of server
messages, and of the row lists inside them. -/
theorem wire_codecs_bijective :
    (∀ version, FrameCodec encodeClientMessage (decodeClientMessageForVersion version)
      encodedClientMessageSize (fun m => (m.tag, m)) (ClientMessage.Sendable version)) ∧
    FrameCodec encodeServerMessage decodeServerMessage encodedServerMessageSize
      (fun m => (m.tag, m)) ServerMessage.Sendable ∧
    FrameCodec encodeRowListChecked decodeRowList (rowListSize 4) id RowListFits :=
  ⟨clientMessage_codec, serverMessage_codec, rowList_codec⟩

/-- A call with flags that are not known, and a set of queries beyond the limit. -/
def unknownFlagsCall : ClientMessage := .callReducer ⟨[], [], 1, 3⟩

def oversizedQuerySet : ClientMessage :=
  .subscribeMulti ⟨1, 1, List.replicate (maxSubscribeMultiQueriesHard + 1) []⟩

theorem oversizedQuerySet_sent : ∃ frame, encodeClientMessage oversizedQuerySet = .ok frame ∧
    ∀ version, decodeClientMessageForVersion version frame ≠
      .ok (oversizedQuerySet.tag, oversizedQuerySet) := by
  have hlength : (countedText prefixed
      (List.replicate (maxSubscribeMultiQueriesHard + 1) [])).length = 4 + 4 * 4097 := by
    rw [length_countedText, List.length_flatMap, List.map_replicate, List.sum_replicate]
    rfl
  have hfits : oversizedQuerySet.Fits := by
    refine ⟨?_, ⟨?_, ?_⟩, trivial⟩
    · intro q hq
      rw [List.eq_of_mem_replicate hq]
      rfl
    · rw [List.length_replicate]
      decide
    · intro q hq
      rw [List.eq_of_mem_replicate hq]
      decide
  have hsize : (oversizedQuerySet.tag :: oversizedQuerySet.text).length ≤ maxProtocolAlloc := by
    rw [List.length_cons, oversizedQuerySet, ClientMessage.text, List.length_append, hlength]
    simp [ClientMessage.idsText, maxProtocolAlloc]
  refine ⟨_, encodeClientMessage_ok.mpr ⟨hfits, hsize, rfl⟩, fun version h => ?_⟩
  have hlimit : (List.replicate (maxSubscribeMultiQueriesHard + 1) ([] : Bytes)).length ≤
      maxSubscribeMultiQueriesHard := (decodeClientMessageForVersion_ok.mp h).2.2.1.limit
  rw [List.length_replicate] at hlimit
  omega

/-- Valid strings and an admitted tag are not enough for a client message to be sent and read
back, and a server message with a string that is not UTF-8 is not sent. -/
theorem unsendable_messages :
    (unknownFlagsCall.ValidStrings ∧ (∀ version, Admits version unknownFlagsCall.tag) ∧
      encodeClientMessage unknownFlagsCall = .error (.invalidCallReducerFlags 3)) ∧
    (oversizedQuerySet.ValidStrings ∧ (∀ version, Admits version oversizedQuerySet.tag) ∧
      ∃ frame, encodeClientMessage oversizedQuerySet = .ok frame ∧
        ∀ version, decodeClientMessageForVersion version frame ≠
          .ok (oversizedQuerySet.tag, oversizedQuerySet)) ∧
    encodeServerMessage (.subscriptionError ⟨0, none, none, none, [0xFF]⟩) =
      .error (.invalidString "SubscriptionError.Error") := by
  refine ⟨⟨rfl, nofun, rfl⟩, ⟨?_, nofun, oversizedQuerySet_sent⟩, rfl⟩
  intro q hq
  rw [List.eq_of_mem_replicate hq]
  rfl

end Shunter.Protocol
