import Shunter.Protocol.ServerMessages

/-!
# Sessions

Connections, the executor and the fan-out worker as far as subscriptions go
through them.  A connection is an instance of its connection ID: the manager
of subscriptions and the drop signals know the ID only, replies go to the
instance, and updates go to the instance that the connection manager holds at
that time.  Every access to something shared is a step.
-/

namespace Shunter.Protocol

/-! ## State -/

inductive OutFrame where
  | subscribeApplied (queryID : UInt32) (registeredAt : Nat)
  | unsubscribeApplied (queryID : UInt32)
  | update (txID : Nat) (queryIDs : List UInt32)
  | other
  deriving DecidableEq

/-- Where an instance stands, from `reserve` in `RunLifecycle` to the end of `Disconnect`. -/
inductive ConnPhase where
  | reserved
  | connecting
  | accepted
  | rejected
  | up
  /-- Inbound admission is stopped, and the handlers are waited for. -/
  | draining
  | cleaning
  | cleaned
  | leaving
  | left
  | removed
  | returned
  deriving DecidableEq

/-- `frames` are all frames that were put on the outbound queue, in order. -/
structure SessionConn where
  id : ConnectionID
  phase : ConnPhase
  inboundStopped : Bool
  inboundHandlers : Nat
  outboundStopped : Bool
  frames : List OutFrame

/-- A live set of the subscription manager, keyed by the first two fields.  The others are history
that no step reads. -/
structure QuerySet where
  connID : ConnectionID
  queryID : UInt32
  owner : Nat
  registeredAt : Nat
  deriving DecidableEq

/-- `aware` stands for `ReplyWithError`, which reports a reply that could not be delivered. -/
inductive SessionCommand where
  | register (inst : Nat) (queryID : UInt32) (aware : Bool)
  | unregister (inst : Nat) (queryID : UInt32)
  | disconnectClient (inst : Nat)
  | onConnect (inst : Nat)
  | onDisconnect (inst : Nat)
  | call
  deriving DecidableEq

structure SessionUpdate where
  txID : Nat
  entries : List (ConnectionID × List UInt32)
  deriving DecidableEq

inductive ExecutorPC where
  | idle
  /-- The reply of a command; `undo` is the set to remove when it is not delivered. -/
  | replying (inst : Nat) (frame : OutFrame) (undo : Option UInt32)
  /-- In `sendFanOut`; the command is answered afterwards. -/
  | broadcast (msg : SessionUpdate) (cmd : SessionCommand)
  | drain (cmd : SessionCommand)
  deriving DecidableEq

/-- The worker holds the message it delivers, without the entry it is at. -/
inductive FanOutPC where
  | idle
  | delivering (msg : SessionUpdate)
  | sending (inst : Nat) (entry : ConnectionID × List UInt32) (msg : SessionUpdate)
  /-- The send found the buffer full, and the client is still to be signalled. -/
  | signalling (inst : Nat) (connID : ConnectionID) (msg : SessionUpdate)
  deriving DecidableEq

/-- Why a set was removed.  A drop says whether it was decided for the owner of the set. -/
inductive RemovalCause where
  | unregister (inst : Nat)
  | disconnect (inst : Nat)
  | drop (decided : Bool)
  deriving DecidableEq

/-- `conns` and `reserved` of the connection manager are `registered` and `reserved`.  The last
two fields are history: the instances for which a drop was decided, and the removed sets. -/
structure Sessions where
  next : Nat
  conns : Nat → SessionConn
  reserved : ConnectionID → Option Nat
  registered : ConnectionID → Option Nat
  inbox : List SessionCommand
  executor : ExecutorPC
  lastTx : Nat
  querySets : List QuerySet
  dropped : List ConnectionID
  fanout : List SessionUpdate
  worker : FanOutPC
  decided : List Nat
  removals : List (QuerySet × RemovalCause)

namespace Sessions

def initial : Sessions where
  next := 0
  conns := fun _ => ⟨List.Vector.replicate 16 0, .rejected, true, 0, true, []⟩
  reserved := fun _ => none
  registered := fun _ => none
  inbox := []
  executor := .idle
  lastTx := 0
  querySets := []
  dropped := []
  fanout := []
  worker := .idle
  decided := []
  removals := []

def setConn (s : Sessions) (i : Nat) (c : SessionConn) : Sessions :=
  { s with conns := Function.update s.conns i c }

def setPhase (s : Sessions) (i : Nat) (phase : ConnPhase) : Sessions :=
  s.setConn i { s.conns i with phase := phase }

def submit (s : Sessions) (cmd : SessionCommand) : Sessions :=
  { s with inbox := s.inbox ++ [cmd] }

/-! ## Connections -/

def requestDisconnect (s : Sessions) (i : Nat) : Sessions :=
  s.setConn i { s.conns i with inboundStopped := true, outboundStopped := true }

end Sessions

/-- What becomes of a frame on an open queue: it is put, it cannot be encoded, or it does not fit. -/
inductive PutResult where
  | put
  | unencodable
  | full
  deriving DecidableEq

/-- `sendOnConn`; the second component says whether the frame was put. -/
def Sessions.send (s : Sessions) (i : Nat) (frame : OutFrame) (result : PutResult) :
    Sessions × Bool :=
  if (s.conns i).outboundStopped then (s, false)
  else
    match result with
    | .put => (s.setConn i { s.conns i with frames := (s.conns i).frames ++ [frame] }, true)
    | .unencodable => (s, false)
    | .full => (s.requestDisconnect i, false)

inductive ConnAction where
  | onConnect
  | add
  | finishAdmission
  | beginInboundHandler
  | subscribe (queryID : UInt32) (aware : Bool)
  | unsubscribe (queryID : UInt32)
  | finishInboundHandler
  | requestDisconnect
  | stopInbound
  | disconnectClientSubscriptions
  | onDisconnect
  | remove
  | close
  deriving DecidableEq

/-- The ID is free for an instance: nobody else has reserved it, and its holder has closed. -/
def Sessions.idFree (s : Sessions) (i : Nat) (id : ConnectionID) : Bool :=
  (match s.registered id with
    | none => true
    | some j => j = i || (s.conns j).phase = .returned) &&
  (match s.reserved id with
    | none => true
    | some j => j = i)

def reserve (s : Sessions) (id : ConnectionID) : Option Sessions :=
  if s.idFree s.next id then
    some { s.setConn s.next ⟨id, .reserved, false, 0, false, []⟩ with
      next := s.next + 1
      reserved := Function.update s.reserved id (some s.next) }
  else none

def connStep (s : Sessions) (i : Nat) : ConnAction → Option Sessions
  | .onConnect =>
    if (s.conns i).phase = .reserved then
      some ((s.setPhase i .connecting).submit (.onConnect i))
    else none
  | .add =>
    if (s.conns i).phase = .accepted ∧ s.idFree i (s.conns i).id then
      some { s.setPhase i .up with
        reserved := Function.update s.reserved (s.conns i).id none
        registered := Function.update s.registered (s.conns i).id (some i) }
    else none
  | .finishAdmission =>
    if (s.conns i).phase = .rejected ∧ s.reserved (s.conns i).id = some i then
      some { s with reserved := Function.update s.reserved (s.conns i).id none }
    else none
  | .beginInboundHandler =>
    if (s.conns i).phase = .up ∧ (s.conns i).inboundStopped = false then
      some (s.setConn i { s.conns i with inboundHandlers := (s.conns i).inboundHandlers + 1 })
    else none
  | .subscribe queryID aware =>
    if 0 < (s.conns i).inboundHandlers then some (s.submit (.register i queryID aware)) else none
  | .unsubscribe queryID =>
    if 0 < (s.conns i).inboundHandlers then some (s.submit (.unregister i queryID)) else none
  | .finishInboundHandler =>
    if 0 < (s.conns i).inboundHandlers then
      some (s.setConn i { s.conns i with inboundHandlers := (s.conns i).inboundHandlers - 1 })
    else none
  | .requestDisconnect =>
    if i < s.next then some (s.requestDisconnect i) else none
  | .stopInbound =>
    if (s.conns i).phase = .up then
      some (s.setConn i { s.conns i with phase := .draining, inboundStopped := true })
    else none
  | .disconnectClientSubscriptions =>
    if (s.conns i).phase = .draining ∧ (s.conns i).inboundHandlers = 0 then
      some ((s.setPhase i .cleaning).submit (.disconnectClient i))
    else none
  | .onDisconnect =>
    if (s.conns i).phase = .cleaned then
      some ((s.setPhase i .leaving).submit (.onDisconnect i))
    else none
  | .remove =>
    if (s.conns i).phase = .left then
      some { s.setPhase i .removed with
        registered := Function.update s.registered (s.conns i).id none }
    else none
  | .close =>
    if (s.conns i).phase = .removed then
      some (s.setConn i { s.conns i with phase := .returned, outboundStopped := true })
    else none

/-! ## The executor -/

namespace Sessions

def live (s : Sessions) (connID : ConnectionID) (queryID : UInt32) : Bool :=
  s.querySets.any fun q => q.connID = connID ∧ q.queryID = queryID

/-- The removal of the sets that `gone` selects, with the cause for each of them. -/
def removeSets (s : Sessions) (gone : QuerySet → Bool) (cause : QuerySet → RemovalCause) :
    Sessions :=
  { s with
    querySets := s.querySets.filter fun q => !gone q
    removals := s.removals ++ (s.querySets.filter gone).map fun q => (q, cause q) }

def unregisterSet (s : Sessions) (i : Nat) (queryID : UInt32) : Sessions :=
  s.removeSets (fun q => q.connID = (s.conns i).id ∧ q.queryID = queryID) fun _ => .unregister i

def disconnectClient (s : Sessions) (connIDs : List ConnectionID)
    (cause : QuerySet → RemovalCause) : Sessions :=
  s.removeSets (fun q => q.connID ∈ connIDs) cause

def queueDroppedClient (s : Sessions) (connID : ConnectionID) : Sessions :=
  if connID ∈ s.dropped then s else { s with dropped := s.dropped ++ [connID] }

/-- `handleEvalError` for the subscribers of a query, whose clients are dropped. -/
def signalEvalError (s : Sessions) (connID : ConnectionID) : Sessions :=
  { s.queueDroppedClient connID with
    decided := s.decided ++
      ((s.querySets.filter fun q => q.connID = connID).map QuerySet.owner) }

end Sessions

/-- What a command meets: whether it is accepted, for an unregister whether the last rows of the
set can be evaluated, and for a commit the subscriptions that it touches and the connections of
those whose evaluation fails. -/
structure CommandInput where
  accept : Bool
  evaluated : Bool
  touched : List (ConnectionID × List UInt32)
  failed : List ConnectionID

def CommandInput.Evaluates (input : CommandInput) (s : Sessions) : Bool :=
  input.touched.all (fun entry => entry.2.all fun queryID => s.live entry.1 queryID) &&
    input.failed.all fun connID => s.querySets.any fun q => q.connID = connID

def commit (s : Sessions) (cmd : SessionCommand) (input : CommandInput) : Option Sessions :=
  if input.Evaluates s then
    some { input.failed.foldl Sessions.signalEvalError s with
      lastTx := s.lastTx + 1
      executor := .broadcast ⟨s.lastTx + 1, input.touched⟩ cmd }
  else none

def dispatch (s : Sessions) (input : CommandInput) : SessionCommand → Option Sessions
  | .register i queryID aware =>
    if input.accept ∧ s.live (s.conns i).id queryID = false then
      some { s with
        querySets := s.querySets ++ [⟨(s.conns i).id, queryID, i, s.lastTx⟩]
        executor := .replying i (.subscribeApplied queryID s.lastTx)
          (if aware then some queryID else none) }
    else some { s with executor := .replying i .other none }
  | .unregister i queryID =>
    if input.accept ∧ s.live (s.conns i).id queryID then
      -- The set is gone even when its last rows cannot be evaluated.
      some { s.unregisterSet i queryID with
        executor := .replying i
          (if input.evaluated then .unsubscribeApplied queryID else .other) none }
    else some { s with executor := .replying i .other none }
  | .disconnectClient i =>
    some ((s.disconnectClient [(s.conns i).id] fun _ => .disconnect i).setPhase i .cleaned)
  | .onConnect i =>
    if input.accept then commit s (.onConnect i) input else some (s.setPhase i .rejected)
  | .onDisconnect i =>
    if input.accept then commit s (.onDisconnect i) input else some (s.setPhase i .left)
  | .call => if input.accept then commit s .call input else some s

inductive ExecutorAction where
  | receive (input : CommandInput)
  | reply (result : PutResult)
  | sendFanOut
  | drainDroppedClients

/-- `OnConnect` is answered before the drain and `OnDisconnect` after it. -/
def sessionExecutorStep (capacity : Nat) (s : Sessions) : ExecutorAction → Option Sessions
  | .receive input =>
    match s.executor, s.inbox with
    | .idle, cmd :: rest => dispatch { s with inbox := rest } input cmd
    | _, _ => none
  | .reply result =>
    match s.executor with
    | .replying i frame undo =>
      match s.send i frame result, undo with
      | (s, false), some queryID => some { s.unregisterSet i queryID with executor := .idle }
      | (s, _), _ => some { s with executor := .idle }
    | _ => none
  | .sendFanOut =>
    match s.executor with
    | .broadcast msg cmd =>
      if s.fanout.length < capacity then
        let s := { s with fanout := s.fanout ++ [msg], executor := .drain cmd }
        match cmd with
        | .onConnect i => some (s.setPhase i .accepted)
        | _ => some s
      else none
    | _ => none
  | .drainDroppedClients =>
    match s.executor with
    | .drain cmd =>
      let s := { s.disconnectClient s.dropped (fun q => .drop (q.owner ∈ s.decided)) with
        dropped := []
        executor := .idle }
      match cmd with
      | .onDisconnect i => some (s.setPhase i .left)
      | _ => some s
    | _ => none

/-! ## The fan-out worker -/

inductive WorkerAction where
  | take
  /-- The next entry of the iteration, once durability allows it. -/
  | lookup (entry : ConnectionID × List UInt32)
  | send (result : PutResult)
  | signalDroppedClient
  /-- The message is finished, or durability has failed. -/
  | finish

def workerStep (s : Sessions) : WorkerAction → Option Sessions
  | .take =>
    match s.worker, s.fanout with
    | .idle, msg :: rest => some { s with worker := .delivering msg, fanout := rest }
    | _, _ => none
  | .lookup entry =>
    match s.worker with
    | .delivering msg =>
      if entry ∈ msg.entries then
        let rest := { msg with entries := msg.entries.erase entry }
        match s.registered entry.1 with
        | none => some { s with worker := .delivering rest }
        | some i => some { s with worker := .sending i entry rest }
      else none
    | _ => none
  | .send result =>
    match s.worker with
    | .sending i entry msg =>
      if result = .full ∧ (s.conns i).outboundStopped = false then
        some { s.requestDisconnect i with
          worker := .signalling i entry.1 msg
          decided := s.decided ++ [i] }
      else
        some { (s.send i (.update msg.txID entry.2) result).1 with worker := .delivering msg }
    | _ => none
  | .signalDroppedClient =>
    match s.worker with
    | .signalling _ connID msg =>
      some { s.queueDroppedClient connID with worker := .delivering msg }
    | _ => none
  | .finish =>
    match s.worker with
    | .delivering _ => some { s with worker := .idle }
    | _ => none

/-! ## Runs -/

inductive SessionAction where
  | reserve (id : ConnectionID)
  | conn (i : Nat) (action : ConnAction)
  /-- A reducer call of anybody. -/
  | call
  | executor (action : ExecutorAction)
  | worker (action : WorkerAction)

def sessionStep (capacity : Nat) (s : Sessions) : SessionAction → Option Sessions
  | .reserve id => reserve s id
  | .conn i action => connStep s i action
  | .call => some (s.submit .call)
  | .executor action => sessionExecutorStep capacity s action
  | .worker action => workerStep s action

end Shunter.Protocol
