import Shunter.Foundation.Loop
import Shunter.Protocol.Outbound
import Shunter.Protocol.SubscriptionRows

/-!
# The fan-out worker

One message of the evaluation loop carries the updates of every connection that
a commit touches.  The worker waits for durability where a reader asks for it,
encodes the updates and sends them through the connections.  Other goroutines
act between its sends.
-/

namespace Shunter.Subscription

open Foundation Protocol

/-! ## Messages -/

inductive CallerOutcomeKind where
  | committed
  | failed
  | durabilityUnknown
  deriving DecidableEq

structure CallerOutcome where
  kind : CallerOutcomeKind
  error : Bytes
  callerIdentity : Identity
  reducerName : Bytes
  reducerID : UInt32
  args : Bytes
  requestID : UInt32
  timestamp : Int64
  totalHostExecutionDuration : Int64
  flags : UInt8
  fastReply : Bool
  deriving DecidableEq

def callerOutcomeFlagNoSuccessNotify : UInt8 := 1

def callerOutcomeFlagDurableSuccess : UInt8 := 2

structure EvalError where
  durationMicros : UInt64
  message : Bytes
  deriving DecidableEq

/-- The lists are the maps of the source in the order of one iteration.  `txDurable` is the
channel, which may be nil, and what it yields: a transaction, or nothing when it is closed. -/
structure FanOutMessage where
  txID : Nat
  txDurable : Option (Option Nat)
  fanout : List (ConnectionID × List (SubscriptionUpdate RowRef))
  errors : List (ConnectionID × List EvalError)
  callerConnID : Option ConnectionID
  callerOutcome : Option CallerOutcome
  fanout_nodup : (fanout.map Prod.fst).Nodup

def FanOutMessage.entry (msg : FanOutMessage) (connID : ConnectionID) :
    List (SubscriptionUpdate RowRef) :=
  (msg.fanout.lookup connID).getD []

/-! ## State -/

/-- The connections and what the worker has told others about them. -/
structure Delivery where
  conns : ConnectionID → Option Conn
  fastReads : ConnectionID → Bool
  dropped : List ConnectionID

/-- The worker within one message; `clock` counts its sends. -/
structure Worker where
  delivery : Delivery
  memo : EncodingMemo
  durableWaited : Bool
  durableReady : Bool
  clock : Nat

def Delivery.setConn (d : Delivery) (connID : ConnectionID) (c : Conn) : Delivery :=
  { d with conns := Function.update d.conns connID (some c) }

def Delivery.markDropped (d : Delivery) (connID : ConnectionID) : Delivery :=
  { d with
    fastReads := Function.update d.fastReads connID false
    dropped := d.dropped ++ [connID] }

def Delivery.handleSendError (d : Delivery) (connID : ConnectionID) : Option SendError → Delivery
  | some err => if .sendBufferFull ∈ err then d.markDropped connID else d
  | none => d

def requiresConfirmedRead (w : Worker) (connID : ConnectionID) : Bool :=
  !w.delivery.fastReads connID

/-- The context of the worker is not cancelled, so it waits for the channel. -/
def waitForDurable (msg : FanOutMessage) (w : Worker) : Worker × Bool :=
  if w.durableReady || msg.txDurable = none then ({ w with durableReady := true }, true)
  else if w.durableWaited then (w, w.durableReady)
  else
    match msg.txDurable with
    | some (some txID) =>
      if txID = 0 ∨ txID < msg.txID then ({ w with durableWaited := true }, false)
      else ({ w with durableWaited := true, durableReady := true }, true)
    | _ => ({ w with durableWaited := true }, false)

inductive DeliverStop where
  | notDurable
  deriving DecidableEq

def requireDurable (msg : FanOutMessage) (w : Worker) (connID : ConnectionID) :
    Worker × Option DeliverStop :=
  if requiresConfirmedRead w connID then
    match waitForDurable msg w with
    | (w, true) => (w, none)
    | (w, false) => (w, some .notDurable)
  else (w, none)

/-! ## Sends -/

section Sends

variable (gzip : Bytes → Bytes) (memory : RowRef → ProductValue)
  (errorText : UpdateError → Bytes)

def sendTo (send : Conn → Conn × Option SendError) (d : Delivery) (connID : ConnectionID) :
    Delivery × Option SendError :=
  match d.conns connID with
  | none => (d, some [.connNotFound])
  | some c =>
    match send c with
    | (c, err) => (d.setConn connID c, err)

def reducerCallInfoFrom (outcome : CallerOutcome) : ReducerCallInfo :=
  ⟨outcome.reducerName, outcome.reducerID, outcome.args, outcome.requestID⟩

def transactionUpdate (connID : ConnectionID) (outcome : CallerOutcome) (status : UpdateStatus) :
    TransactionUpdate :=
  ⟨some status, outcome.timestamp, outcome.callerIdentity, connID, reducerCallInfoFrom outcome,
    outcome.totalHostExecutionDuration⟩

/-- `buildUpdateStatus`, for the kinds that have a status. -/
def buildUpdateStatus (outcome : CallerOutcome) (updates : List (SubscriptionUpdate RowRef))
    (memo : EncodingMemo) : Except UpdateError UpdateStatus × EncodingMemo :=
  match outcome.kind with
  | .committed =>
    match encodeSubscriptionUpdatesMemoized memory updates memo with
    | (result, memo) => (result.map .committed, memo)
  | _ => (.ok (.failed outcome.error), memo)

def sendTransactionUpdateHeavy (connID : ConnectionID) (outcome : CallerOutcome)
    (updates : List (SubscriptionUpdate RowRef)) (d : Delivery) (memo : EncodingMemo) :
    (Delivery × EncodingMemo) × Option SendError :=
  if outcome.kind = .durabilityUnknown then
    match sendTo (fun c => (c.requestDisconnect, none)) d connID with
    | (d, some _) => ((d, memo), some [.sendConnGone])
    | (d, none) => ((d, memo), none)
  else
    match buildUpdateStatus memory outcome updates memo with
    | (.error e, memo) =>
      match sendTo (fun c => sendDirectResponse gzip c (.transactionUpdate
        (transactionUpdate connID outcome (.failed (errorText e))))) d connID with
      | (d, err) => ((d, memo), some (.sendEncodeFailed :: (err.map mapDeliveryError).getD []))
    | (.ok status, memo) =>
      match sendTo (fun c => sendDirectResponse gzip c (.transactionUpdate
        (transactionUpdate connID outcome status))) d connID with
      | (d, err) => ((d, memo), err.map mapDeliveryError)

def sendTransactionUpdateLight (connID : ConnectionID) (requestID : UInt32)
    (updates : List (SubscriptionUpdate RowRef)) (d : Delivery) (memo : EncodingMemo) :
    (Delivery × EncodingMemo) × Option SendError :=
  match encodeSubscriptionUpdatesMemoized memory updates memo with
  | (.error _, memo) => ((d, memo), some [.sendEncodeFailed])
  | (.ok encoded, memo) =>
    match sendTo (fun c => sendOnConn gzip c (.transactionUpdateLight ⟨requestID, encoded⟩))
      d connID with
    | (d, err) => ((d, memo), err.map mapDeliveryError)

def sendSubscriptionError (connID : ConnectionID) (e : EvalError) (d : Delivery)
    (memo : EncodingMemo) : (Delivery × EncodingMemo) × Option SendError :=
  match sendTo (fun c => sendOnConn gzip c
    (.subscriptionError ⟨e.durationMicros, none, none, none, e.message⟩)) d connID with
  | (d, err) => ((d, memo), err.map mapDeliveryError)

end Sends

/-! ## Delivery -/

section Deliver

variable (gzip : Bytes → Bytes) (memory : RowRef → ProductValue)
  (errorText : UpdateError → Bytes) (interfere : Nat → Delivery → Delivery)

def Worker.turn (w : Worker) : Worker :=
  { w with delivery := interfere w.clock w.delivery, clock := w.clock + 1 }

def Worker.send (w : Worker) (connID : ConnectionID)
    (send : Delivery → EncodingMemo → (Delivery × EncodingMemo) × Option SendError) : Worker :=
  match send (w.turn interfere).delivery w.memo with
  | ((d, memo), err) =>
    { w.turn interfere with delivery := d.handleSendError connID err, memo := memo }

def FanOutMessage.effectiveCaller (msg : FanOutMessage) : Option (ConnectionID × CallerOutcome) :=
  match msg.callerConnID, msg.callerOutcome with
  | some connID, some outcome =>
    if outcome.kind = .committed ∧ outcome.flags = callerOutcomeFlagNoSuccessNotify then none
    else some (connID, outcome)
  | _, _ => none

def CallerOutcome.wantsDurable (outcome : CallerOutcome) : Prop :=
  outcome.kind = .committed ∧ outcome.flags = callerOutcomeFlagDurableSuccess

instance (outcome : CallerOutcome) : Decidable outcome.wantsDurable :=
  inferInstanceAs (Decidable (_ ∧ _))

/-- The wait of a caller that asked for a durable success; it takes no missing channel. -/
def waitForCaller (msg : FanOutMessage) (w : Worker) : Worker × Bool :=
  if msg.txID = 0 ∨ msg.txDurable = none then (w, false) else waitForDurable msg w

def durableGate (msg : FanOutMessage) (w : Worker) : Worker × Option DeliverStop :=
  match msg.effectiveCaller with
  | none => (w, none)
  | some (connID, outcome) =>
    if outcome.wantsDurable then
      match waitForCaller msg w with
      | (w, true) => (w, none)
      | (w, false) =>
        (w.send interfere connID (sendTransactionUpdateHeavy gzip memory errorText connID
          { outcome with kind := .durabilityUnknown } []), some .notDurable)
    else (w, none)

def sendCaller (msg : FanOutMessage) (connID : ConnectionID) (outcome : CallerOutcome)
    (w : Worker) : Worker :=
  w.send interfere connID
    (sendTransactionUpdateHeavy gzip memory errorText connID outcome (msg.entry connID))

def deliverFastReply (msg : FanOutMessage) (w : Worker) : Worker :=
  match msg.effectiveCaller with
  | some (connID, outcome) =>
    if outcome.fastReply then sendCaller gzip memory errorText interfere msg connID outcome w
    else w
  | none => w

def deliverErrors (msg : FanOutMessage) (w : Worker) (entry : ConnectionID × List EvalError) :
    Worker × Option DeliverStop :=
  andThen (requireDurable msg w entry.1) fun w =>
    (entry.2.foldl (fun w e => w.send interfere entry.1 (sendSubscriptionError gzip entry.1 e)) w,
      none)

def FanOutMessage.lightRequestID (msg : FanOutMessage) : UInt32 :=
  match msg.callerOutcome with
  | some outcome => outcome.requestID
  | none => 0

def deliverLight (msg : FanOutMessage) (w : Worker)
    (entry : ConnectionID × List (SubscriptionUpdate RowRef)) : Worker × Option DeliverStop :=
  if msg.callerConnID = some entry.1 then (w, none)
  else andThen (requireDurable msg w entry.1) fun w =>
    (w.send interfere entry.1
      (sendTransactionUpdateLight gzip memory entry.1 msg.lightRequestID entry.2), none)

/-- The heavy envelope of a caller that has not had a fast reply. -/
def deliverCaller (msg : FanOutMessage) (w : Worker) : Worker × Option DeliverStop :=
  match msg.effectiveCaller with
  | some (connID, outcome) =>
    if outcome.fastReply then (w, none)
    else andThen (requireDurable msg w connID) fun w =>
      (sendCaller gzip memory errorText interfere msg connID outcome w, none)
  | none => (w, none)

def Delivery.worker (d : Delivery) : Worker := ⟨d, fun _ => none, false, false, 0⟩

def deliver (d : Delivery) (msg : FanOutMessage) : Delivery :=
  (andThen (durableGate gzip memory errorText interfere msg d.worker) fun w =>
    andThen (loop (deliverErrors gzip interfere msg)
      (deliverFastReply gzip memory errorText interfere msg w) msg.errors) fun w =>
    andThen (loop (deliverLight gzip memory interfere msg) w msg.fanout) fun w =>
    deliverCaller gzip memory errorText interfere msg w).1.delivery

end Deliver

end Shunter.Subscription
