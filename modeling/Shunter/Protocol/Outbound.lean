import Shunter.Protocol.ServerMessages

/-!
# The outbound queue of a connection

What a sender sees of a connection: its limits, the frames that wait for the
writer, and the signals that it is going away.  A frame that does not fit the
queue requests the disconnection of the client; a reply that does not fit a
frame is replaced by a smaller one.
-/

namespace Shunter.Protocol

open Foundation

/-- The sending side of a connection.  `enqueued` records every frame that was put on the queue.
Sending stops only for a connection that is going away. -/
structure Conn where
  maxOutboundMessageSize : Nat
  maxOutboundQueuedBytes : Nat
  capacity : Nat
  compression : Bool
  closed : Bool
  disconnectRequested : Bool
  writerExited : Bool
  outboundStopped : Bool
  deliveryDeferrals : Nat
  outboundCh : List Bytes
  deferredFrames : List Bytes
  outboundQueuedBytes : Nat
  enqueued : List Bytes
  stopped_leaving : outboundStopped = true →
    disconnectRequested = true ∨ writerExited = true ∨ closed = true

/-- Disconnection was requested, or the writer has told the supervisor that it is gone. -/
def Conn.disconnecting (c : Conn) : Bool := c.disconnectRequested || c.writerExited

inductive SendResult where
  | sent
  | closed
  | full
  | bytesFull
  deriving DecidableEq

/-- A request is made once; it also stops the queue and drops the frames that were held back. -/
def Conn.requestDisconnect (c : Conn) : Conn :=
  if c.disconnectRequested then c
  else { c with
    disconnectRequested := true
    outboundStopped := true
    outboundQueuedBytes := c.outboundQueuedBytes - (c.deferredFrames.map List.length).sum
    deferredFrames := []
    stopped_leaving := fun _ => .inl rfl }

def Conn.enqueue (c : Conn) (frame : Bytes) (procedureResponse : Bool) : Conn :=
  if 0 < c.deliveryDeferrals ∧ procedureResponse = false then
    { c with
      deferredFrames := c.deferredFrames ++ [frame]
      outboundQueuedBytes := c.outboundQueuedBytes + frame.length
      enqueued := c.enqueued ++ [frame] }
  else
    { c with
      outboundCh := c.outboundCh ++ [frame]
      outboundQueuedBytes := c.outboundQueuedBytes + frame.length
      enqueued := c.enqueued ++ [frame] }

def Conn.trySendOutbound (c : Conn) (frame : Bytes) (procedureResponse : Bool) :
    Conn × SendResult :=
  if c.outboundStopped then (c, .closed)
  else if c.closed then (c, .closed)
  else if frame.length + c.outboundQueuedBytes > c.maxOutboundQueuedBytes then (c, .bytesFull)
  else if c.outboundCh.length + c.deferredFrames.length ≥ c.capacity then (c, .full)
  else (c.enqueue frame procedureResponse, .sent)

/-! ## Frames -/

def compressionNone : UInt8 := 0x00

def compressionGzip : UInt8 := 0x02

def defaultGzipMinBytes : Nat := 256

/-- `EncodeFrame` under the mode that the connection has negotiated; `gzip` compresses a body. -/
def encodeFrame (gzip : Bytes → Bytes) (compression : Bool) (tag : UInt8) (body : Bytes) : Bytes :=
  if !compression then tag :: body
  else if body.length < defaultGzipMinBytes then compressionNone :: tag :: body
  else compressionGzip :: tag :: gzip body

/-! ## Sending -/

/-- What an error of a send stands for, as `errors.Is` finds it. -/
inductive SendCause where
  | clientBufferFull
  | connNotFound
  | outboundMessageLimit
  | encode (cause : ProtocolError)
  | sendBufferFull
  | sendConnGone
  | sendEncodeFailed
  deriving DecidableEq

abbrev SendError := List SendCause

def encodeCause : ProtocolError → SendCause
  | .outboundMessageLimit _ _ => .outboundMessageLimit
  | e => .encode e

def ServerMessage.isProcedureResponse : ServerMessage → Bool
  | .procedureResponse _ => true
  | _ => false

section Send

variable (gzip : Bytes → Bytes)

def Conn.frameOf (c : Conn) (m : ServerMessage) : Except ProtocolError Bytes := do
  let frame ← encodeServerMessageWithLimit m c.maxOutboundMessageSize
  .ok (encodeFrame gzip c.compression (frame.headD 0) frame.tail)

def sendOnConn (c : Conn) (m : ServerMessage) : Conn × Option SendError :=
  match c.frameOf gzip m with
  | .error e => (c, some [encodeCause e])
  | .ok frame =>
    match c.trySendOutbound frame m.isProcedureResponse with
    | (c, .sent) => (c, none)
    | (c, .closed) => (c, some [.connNotFound])
    | (c, .full) | (c, .bytesFull) => (c.requestDisconnect, some [.clientBufferFull])

def directResponseTooLargeText : Bytes :=
  "response exceeds configured outbound message limit".toUTF8.data.toList

/-- The reply that takes the place of one that is too large. -/
def oversizedDirectResponse : ServerMessage → Option ServerMessage
  | .oneOffQueryResponse m =>
    some (.oneOffQueryResponse { m with error := some directResponseTooLargeText, tables := [] })
  | .procedureResponse m =>
    some (.procedureResponse { m with error := some directResponseTooLargeText, result := [] })
  | .transactionUpdate m =>
    some (.transactionUpdate { m with
      status := some (.failed directResponseTooLargeText)
      reducerCall := { m.reducerCall with args := [] } })
  | _ => none

def sendDirectResponse (c : Conn) (m : ServerMessage) : Conn × Option SendError :=
  match sendOnConn gzip c m with
  | (c, none) => (c, none)
  | (c, some err) =>
    if .outboundMessageLimit ∈ err then
      match oversizedDirectResponse m with
      | none => (c.requestDisconnect, some err)
      | some fallback =>
        match sendOnConn gzip c fallback with
        | (c, none) => (c, none)
        | (c, some fallbackErr) => (c.requestDisconnect, some (err ++ fallbackErr))
    else (c, some err)

end Send

/-- `mapDeliveryError`; what is wrapped by text only is no longer found. -/
def mapDeliveryError (err : SendError) : SendError :=
  if .clientBufferFull ∈ err then [.sendBufferFull]
  else if .connNotFound ∈ err then [.sendConnGone]
  else err

end Shunter.Protocol
