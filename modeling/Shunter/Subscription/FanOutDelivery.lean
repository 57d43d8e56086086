import Shunter.Protocol.SubscriptionRowsSound
import Shunter.Subscription.FanOutWorker

/-!
# A connected client does not miss an update

What was put on a queue stays put, and a connection that goes away keeps saying
so.  Every send to an open connection either puts its frame or starts the
disconnection, so both hold at the end of the message.
-/

namespace Shunter.Subscription

open Foundation Protocol

/-! ## What no step takes back -/

structure Conn.Evolves (c c' : Conn) : Prop where
  opened : c'.closed = false → c.closed = false
  leaving : c.disconnecting = true → c'.disconnecting = true
  limit : c'.maxOutboundMessageSize = c.maxOutboundMessageSize
  compression : c'.compression = c.compression
  enqueued : c.enqueued <+: c'.enqueued

/-- The connection registered under `watched`, if it is open later on, was there before. -/
def Delivery.Evolves (watched : ConnectionID) (d d' : Delivery) : Prop :=
  ∀ c', d'.conns watched = some c' → c'.closed = false →
    ∃ c, d.conns watched = some c ∧ Conn.Evolves c c'

theorem Conn.Evolves.refl (c : Conn) : Conn.Evolves c c :=
  ⟨id, id, rfl, rfl, List.prefix_rfl⟩

variable {watched connID : ConnectionID} {gzip : Bytes → Bytes} {memory : RowRef → ProductValue}
  {errorText : UpdateError → Bytes} {interfere : Nat → Delivery → Delivery} {msg : FanOutMessage}
  {d₀ d : Delivery} {c c' : Conn} {frame : Bytes}

theorem Conn.Evolves.trans {a b : Conn} (hab : Conn.Evolves a b) (hbc : Conn.Evolves b c) :
    Conn.Evolves a c :=
  ⟨fun h => hab.opened (hbc.opened h), fun h => hbc.leaving (hab.leaving h),
    hbc.limit.trans hab.limit, hbc.compression.trans hab.compression,
    hab.enqueued.trans hbc.enqueued⟩

theorem Delivery.Evolves.of_conns {d' : Delivery} (h : d'.conns watched = d.conns watched) :
    Delivery.Evolves watched d d' :=
  fun c' hc _ => ⟨c', h ▸ hc, .refl c'⟩

theorem Delivery.Evolves.trans {a b c : Delivery}
    (hab : Delivery.Evolves watched a b) (hbc : Delivery.Evolves watched b c) :
    Delivery.Evolves watched a c := by
  intro c' hc hopen
  obtain ⟨c₂, hc₂, h₂⟩ := hbc c' hc hopen
  obtain ⟨c₁, hc₁, h₁⟩ := hab c₂ hc₂ (h₂.opened hopen)
  exact ⟨c₁, hc₁, h₁.trans h₂⟩

theorem Conn.Evolves.frameOf (h : Conn.Evolves c c') (gzip : Bytes → Bytes) (m : ServerMessage) :
    c'.frameOf gzip m = c.frameOf gzip m := by
  rw [Conn.frameOf, Conn.frameOf, h.limit, h.compression]

theorem requestDisconnect_evolves (c : Conn) : Conn.Evolves c c.requestDisconnect := by
  unfold Conn.requestDisconnect
  split
  · exact .refl c
  · exact ⟨id, fun _ => rfl, rfl, rfl, List.prefix_rfl⟩

@[simp] theorem requestDisconnect_disconnecting (c : Conn) :
    c.requestDisconnect.disconnecting = true := by
  unfold Conn.requestDisconnect
  split
  · next h => simp [Conn.disconnecting, h]
  · rfl

section

variable (c frame) (b : Bool)

@[simp] theorem enqueue_enqueued : (c.enqueue frame b).enqueued = c.enqueued ++ [frame] := by
  unfold Conn.enqueue
  split <;> rfl

theorem enqueue_evolves : Conn.Evolves c (c.enqueue frame b) := by
  unfold Conn.enqueue
  split <;> exact ⟨id, id, rfl, rfl, List.prefix_append _ _⟩

theorem trySendOutbound_cases :
    c.trySendOutbound frame b = (c.enqueue frame b, .sent) ∨
    (c.outboundStopped = true ∨ c.closed = true) ∧ c.trySendOutbound frame b = (c, .closed) ∨
    c.trySendOutbound frame b = (c, .full) ∨ c.trySendOutbound frame b = (c, .bytesFull) := by
  fun_cases Conn.trySendOutbound c frame b with
  | case1 h => exact .inr (.inl ⟨.inl h, rfl⟩)
  | case2 _ h => exact .inr (.inl ⟨.inr h, rfl⟩)
  | case3 => exact .inr (.inr (.inr rfl))
  | case4 => exact .inr (.inr (.inl rfl))
  | case5 => exact .inl rfl

end

section Send

variable (gzip)

theorem sendOnConn_cases (c : Conn) (m : ServerMessage) :
    (∃ e, c.frameOf gzip m = .error e ∧ sendOnConn gzip c m = (c, some [encodeCause e])) ∨
    (∃ frame, c.frameOf gzip m = .ok frame ∧
      ((∃ b, sendOnConn gzip c m = (c.enqueue frame b, none)) ∨
        (c.outboundStopped = true ∨ c.closed = true) ∧
          sendOnConn gzip c m = (c, some [.connNotFound]) ∨
        sendOnConn gzip c m = (c.requestDisconnect, some [.clientBufferFull]))) := by
  cases hframe : c.frameOf gzip m with
  | error e => exact .inl ⟨e, rfl, by rw [sendOnConn, hframe]⟩
  | ok frame =>
    refine .inr ⟨frame, rfl, ?_⟩
    rw [sendOnConn, hframe]
    dsimp only
    obtain h | ⟨hstop, h⟩ | h | h := trySendOutbound_cases c frame m.isProcedureResponse
    · rw [h]
      exact .inl ⟨_, rfl⟩
    · rw [h]
      exact .inr (.inl ⟨hstop, rfl⟩)
    · rw [h]
      exact .inr (.inr rfl)
    · rw [h]
      exact .inr (.inr rfl)

theorem sendOnConn_evolves (c : Conn) (m : ServerMessage) :
    Conn.Evolves c (sendOnConn gzip c m).1 := by
  obtain ⟨e, -, h⟩ | ⟨frame, -, ⟨b, h⟩ | ⟨-, h⟩ | h⟩ := sendOnConn_cases gzip c m <;> rw [h]
  · exact .refl c
  · exact enqueue_evolves c frame b
  · exact .refl c
  · exact requestDisconnect_evolves c

theorem evolves_of_sendOnConn {m : ServerMessage} {err : Option SendError}
    (h : sendOnConn gzip c m = (c', err)) : Conn.Evolves c c' := by
  simpa [h] using sendOnConn_evolves gzip c m

def PutOrLeaving (c c' : Conn) (frame : Bytes) : Prop :=
  c'.enqueued = c.enqueued ++ [frame] ∨ c'.disconnecting = true

theorem leaving_of_stopped (hopen : c.closed = false)
    (h : c.outboundStopped = true ∨ c.closed = true) : c.disconnecting = true := by
  rcases h with h | h
  · rcases c.stopped_leaving h with h | h | h
    · simp [Conn.disconnecting, h]
    · simp [Conn.disconnecting, h]
    · rw [hopen] at h
      cases h
  · rw [hopen] at h
    cases h

theorem sendOnConn_serves (hopen : c.closed = false) {m : ServerMessage}
    (hframe : c.frameOf gzip m = .ok frame) :
    PutOrLeaving c (sendOnConn gzip c m).1 frame ∧
      ∀ err, (sendOnConn gzip c m).2 = some err → .outboundMessageLimit ∉ err := by
  obtain ⟨e, herr, -⟩ | ⟨frame', hframe', ⟨b, h⟩ | ⟨hstop, h⟩ | h⟩ := sendOnConn_cases gzip c m
  · rw [hframe] at herr
    cases herr
  · rw [hframe] at hframe'
    cases hframe'
    rw [h]
    exact ⟨.inl (enqueue_enqueued c frame b), nofun⟩
  · rw [h]
    exact ⟨.inr (leaving_of_stopped hopen hstop), by simp⟩
  · rw [h]
    exact ⟨.inr (requestDisconnect_disconnecting c), by simp⟩

theorem sendDirectResponse_evolves (c : Conn) (m : ServerMessage) :
    Conn.Evolves c (sendDirectResponse gzip c m).1 := by
  fun_cases sendDirectResponse gzip c m
  · next hsend => exact evolves_of_sendOnConn gzip hsend
  · next hsend _ _ => exact (evolves_of_sendOnConn gzip hsend).trans (requestDisconnect_evolves _)
  · next hsend _ _ _ _ hagain =>
    exact (evolves_of_sendOnConn gzip hsend).trans (evolves_of_sendOnConn gzip hagain)
  · next hsend _ _ _ _ _ hagain =>
    have hboth := (evolves_of_sendOnConn gzip hsend).trans (evolves_of_sendOnConn gzip hagain)
    exact hboth.trans (requestDisconnect_evolves _)
  · next hsend _ => exact evolves_of_sendOnConn gzip hsend

end Send

/-! ## The worker -/

@[simp] theorem setConn_self (d : Delivery) (connID : ConnectionID) (c : Conn) :
    (d.setConn connID c).conns connID = some c :=
  Function.update_self ..

theorem setConn_of_ne (d : Delivery) {k : ConnectionID} (c : Conn) (h : k ≠ connID) :
    (d.setConn connID c).conns k = d.conns k :=
  Function.update_of_ne h ..

theorem setConn_evolves (hc : d.conns connID = some c) (h : Conn.Evolves c c') :
    Delivery.Evolves watched d (d.setConn connID c') := by
  by_cases hkey : watched = connID
  · subst hkey
    intro c'' hc'' _
    rw [setConn_self] at hc''
    cases hc''
    exact ⟨c, hc, h⟩
  · exact .of_conns (setConn_of_ne d c' hkey)

@[simp] theorem handleSendError_conns (d : Delivery) (connID : ConnectionID)
    (err : Option SendError) : (d.handleSendError connID err).conns = d.conns := by
  unfold Delivery.handleSendError
  split
  · split <;> rfl
  · rfl

theorem sendTo_evolves {send : Conn → Conn × Option SendError}
    (h : ∀ c, Conn.Evolves c (send c).1) (d : Delivery) (connID : ConnectionID) :
    Delivery.Evolves watched d (sendTo send d connID).1 := by
  unfold sendTo
  cases hc : d.conns connID with
  | none => exact .of_conns rfl
  | some c => exact setConn_evolves hc (h c)

/-- A send of the adapter keeps what was put and the memo sound. -/
structure SendSound (watched : ConnectionID) (memory : RowRef → ProductValue)
    (send : Delivery → EncodingMemo → (Delivery × EncodingMemo) × Option SendError) : Prop where
  evolves : ∀ d memo, Delivery.Evolves watched d (send d memo).1.1
  memo : ∀ d memo, MemoSound memory memo → MemoSound memory (send d memo).1.2

section Adapter

variable (gzip memory errorText)

theorem sendSubscriptionError_sound (connID : ConnectionID) (e : EvalError) :
    SendSound watched memory (sendSubscriptionError gzip connID e) where
  evolves d _ := sendTo_evolves (fun c => sendOnConn_evolves gzip c _) d connID
  memo _ _ h := h

theorem sendTransactionUpdateLight_sound (connID : ConnectionID) (requestID : UInt32)
    (updates : List (SubscriptionUpdate RowRef)) :
    SendSound watched memory (sendTransactionUpdateLight gzip memory connID requestID updates) where
  evolves d memo := by
    fun_cases sendTransactionUpdateLight gzip memory connID requestID updates d memo
    · exact .of_conns rfl
    · next hsent =>
      exact congrArg Prod.fst hsent ▸ sendTo_evolves (fun c => sendOnConn_evolves gzip c _) d connID
  memo d memo h := by
    have hmemo := (@encodeSubscriptionUpdatesMemoized_spec _ updates memo h).2
    fun_cases sendTransactionUpdateLight gzip memory connID requestID updates d memo
    · next hencode => rwa [hencode] at hmemo
    · next hencode _ _ _ => rwa [hencode] at hmemo

theorem buildUpdateStatus_memo {outcome : CallerOutcome}
    {updates : List (SubscriptionUpdate RowRef)} {memo : EncodingMemo}
    (h : MemoSound memory memo) :
    MemoSound memory (buildUpdateStatus memory outcome updates memo).2 := by
  unfold buildUpdateStatus
  split
  · exact (encodeSubscriptionUpdatesMemoized_spec h).2
  · exact h

theorem sendTransactionUpdateHeavy_sound (connID : ConnectionID) (outcome : CallerOutcome)
    (updates : List (SubscriptionUpdate RowRef)) :
    SendSound watched memory
      (sendTransactionUpdateHeavy gzip memory errorText connID outcome updates) where
  evolves d memo := by
    have hsend := @sendTo_evolves watched (fun c => (c.requestDisconnect, none))
      requestDisconnect_evolves d connID
    fun_cases sendTransactionUpdateHeavy gzip memory errorText connID outcome updates d memo
    · next heq => rwa [heq] at hsend
    · next heq => rwa [heq] at hsend
    all_goals
      next hsent =>
        exact congrArg Prod.fst hsent ▸
          sendTo_evolves (fun c => sendDirectResponse_evolves gzip c _) d connID
  memo d memo h := by
    have hmemo := @buildUpdateStatus_memo memory outcome updates memo h
    fun_cases sendTransactionUpdateHeavy gzip memory errorText connID outcome updates d memo
    · exact h
    · exact h
    all_goals next hbuild _ _ _ => rwa [hbuild] at hmemo

end Adapter

/-! ## Durability -/

def FanOutMessage.Confirmed (msg : FanOutMessage) : Prop :=
  msg.txID ≠ 0 ∧ ∃ txID, msg.txDurable = some (some txID) ∧ msg.txID ≤ txID

/-- A wait that has been made has succeeded, and the memo is sound. -/
structure Worker.Good (memory : RowRef → ProductValue) (w : Worker) : Prop where
  memo : MemoSound memory w.memo
  ready : w.durableWaited = true → w.durableReady = true

structure Worker.Leads (watched : ConnectionID) (memory : RowRef → ProductValue)
    (w w' : Worker) : Prop where
  evolves : Delivery.Evolves watched w.delivery w'.delivery
  good : w.Good memory → w'.Good memory

theorem Worker.Leads.refl (w : Worker) : w.Leads watched memory w :=
  ⟨.of_conns rfl, id⟩

theorem Worker.Leads.trans {a b c : Worker} (hab : a.Leads watched memory b)
    (hbc : b.Leads watched memory c) : a.Leads watched memory c :=
  ⟨hab.evolves.trans hbc.evolves, fun h => hbc.good (hab.good h)⟩

theorem waitForDurable_confirmed (hmsg : msg.Confirmed) {w : Worker} (h : w.Good memory) :
    ∃ w', waitForDurable msg w = (w', true) ∧ w.Leads watched memory w' := by
  obtain ⟨hzero, txID, hdurable, hle⟩ := hmsg
  unfold waitForDurable
  split
  · exact ⟨_, rfl, .of_conns rfl, fun h => ⟨h.memo, fun _ => rfl⟩⟩
  · next hready =>
    have hnot : w.durableWaited = false := by
      by_contra hwaited
      rw [Bool.not_eq_false] at hwaited
      simp [h.ready hwaited] at hready
    rw [if_neg (by simp [hnot]), hdurable]
    dsimp only
    rw [if_neg (by omega)]
    exact ⟨_, rfl, .of_conns rfl, fun h => ⟨h.memo, fun _ => rfl⟩⟩

theorem requireDurable_confirmed (hmsg : msg.Confirmed) {w : Worker} (h : w.Good memory)
    (connID : ConnectionID) :
    ∃ w', requireDurable msg w connID = (w', none) ∧ w.Leads watched memory w' := by
  unfold requireDurable
  split
  · obtain ⟨w', hwait, hleads⟩ := waitForDurable_confirmed hmsg h
    rw [hwait]
    exact ⟨w', rfl, hleads⟩
  · exact ⟨w, rfl, .refl w⟩

/-! ## The parts of a delivery -/

theorem durableGate_confirmed (hmsg : msg.Confirmed) {w : Worker} (h : w.Good memory) :
    ∃ w', durableGate gzip memory errorText interfere msg w = (w', none) ∧
      w.Leads watched memory w' := by
  unfold durableGate
  split
  · exact ⟨w, rfl, .refl w⟩
  · split
    · obtain ⟨w', hwait, hleads⟩ := @waitForDurable_confirmed watched _ _ hmsg _ h
      obtain ⟨hzero, txID, hdurable, _⟩ := hmsg
      rw [waitForCaller, if_neg (by simp [hzero, hdurable]), hwait]
      exact ⟨w', rfl, hleads⟩
    · exact ⟨w, rfl, .refl w⟩

/-- The other goroutines leave the watched connection registered. -/
def Undisturbed (watched : ConnectionID) (interfere : Nat → Delivery → Delivery) : Prop :=
  ∀ n d, Delivery.Evolves watched d (interfere n d)

variable {send : Delivery → EncodingMemo → (Delivery × EncodingMemo) × Option SendError}

section Parts

variable (hrest : Undisturbed watched interfere)

include hrest

theorem Worker.send_leads (hsend : SendSound watched memory send) (w : Worker)
    (connID : ConnectionID) : w.Leads watched memory (w.send interfere connID send) := by
  have hturn := hrest w.clock w.delivery
  have hput := hsend.evolves (w.turn interfere).delivery w.memo
  refine ⟨(hturn.trans hput).trans (.of_conns ?_), fun h => ⟨hsend.memo _ _ h.memo, h.ready⟩⟩
  exact congrFun (handleSendError_conns ..) watched

theorem sendCaller_leads (connID : ConnectionID) (outcome : CallerOutcome) (w : Worker) :
    w.Leads watched memory (sendCaller gzip memory errorText interfere msg connID outcome w) :=
  w.send_leads hrest (sendTransactionUpdateHeavy_sound gzip memory errorText connID outcome _)
    connID

theorem deliverFastReply_leads (w : Worker) :
    w.Leads watched memory (deliverFastReply gzip memory errorText interfere msg w) := by
  unfold deliverFastReply
  split
  · split
    · exact sendCaller_leads hrest _ _ w
    · exact .refl w
  · exact .refl w

variable (hmsg : msg.Confirmed) {w : Worker} (h : w.Good memory)

include hmsg h

theorem deliverErrors_leads (entry : ConnectionID × List EvalError) :
    ∃ w', deliverErrors gzip interfere msg w entry = (w', none) ∧
      w.Leads watched memory w' := by
  obtain ⟨w₁, hwait, hleads⟩ := requireDurable_confirmed hmsg h entry.1
  refine ⟨_, by rw [deliverErrors, hwait, andThen], hleads.trans ?_⟩
  clear hwait hleads
  induction entry.2 generalizing w₁ with
  | nil => exact .refl w₁
  | cons e es ih =>
    have hfirst := w₁.send_leads hrest
      (sendSubscriptionError_sound gzip memory entry.1 e) entry.1
    exact hfirst.trans (ih _)

theorem allErrors_leads :
    ∃ w', loop (deliverErrors gzip interfere msg) w msg.errors = (w', none) ∧
      w.Leads watched memory w' := by
  refine loop_total _ (fun _ w' => w.Leads watched memory w') msg.errors ?_ (.refl w)
  intro done entry rest w₁ _ hleads
  obtain ⟨w₂, hstep, hnext⟩ := deliverErrors_leads hrest hmsg (hleads.good h) entry
  exact ⟨w₂, hstep, hleads.trans hnext⟩

end Parts

/-! ## What a connection has been served -/

/-- The connection has a property if it is still registered and open. -/
def Delivery.Holds (d : Delivery) (connID : ConnectionID) (P : Conn → Prop) : Prop :=
  ∀ c, d.conns connID = some c → c.closed = false → P c

variable {P : Conn → Prop}

theorem Delivery.Holds.evolves {d' : Delivery} (h : d.Holds connID P)
    (hkept : ∀ c c', Conn.Evolves c c' → P c → P c') (hd : Delivery.Evolves connID d d') :
    d'.Holds connID P := by
  intro c' hc' hopen
  obtain ⟨c, hc, hevolves⟩ := hd c' hc' hopen
  exact hkept c c' hevolves (h c hc (hevolves.opened hopen))

/-- The frame was put on the queue since `d₀`, or the connection is going away. -/
def Served (d₀ : Delivery) (connID : ConnectionID) (frame : Bytes) (c : Conn) : Prop :=
  (∃ c₀ new, d₀.conns connID = some c₀ ∧ c.enqueued = c₀.enqueued ++ new ∧ frame ∈ new) ∨
    c.disconnecting = true

theorem Served.evolves (h : Conn.Evolves c c') (hserved : Served d₀ connID frame c) :
    Served d₀ connID frame c' := by
  rcases hserved with ⟨c₀, new, hc₀, hnew, hmem⟩ | hleaving
  · obtain ⟨more, hmore⟩ := h.enqueued
    refine .inl ⟨c₀, new ++ more, hc₀, ?_, List.mem_append_left _ hmem⟩
    rw [← hmore, hnew, List.append_assoc]
  · exact .inr (h.leaving hleaving)

theorem Served.of_put {c₀ : Conn} (hc₀ : d₀.conns connID = some c₀) (hc : Conn.Evolves c₀ c)
    (h : PutOrLeaving c c' frame) : Served d₀ connID frame c' := by
  rcases h with hput | hleaving
  · obtain ⟨before, hbefore⟩ := hc.enqueued
    refine .inl ⟨c₀, before ++ [frame], hc₀, ?_, by simp⟩
    rw [hput, ← hbefore, List.append_assoc]
  · exact .inr hleaving

section Service

variable (gzip memory errorText)

def LightServed (d₀ : Delivery) (connID : ConnectionID) (requestID : UInt32)
    (updates : List (SubscriptionUpdate RowRef)) (c : Conn) : Prop :=
  ∀ wires frame, encodeProtocolSubscriptionUpdates (updates.map (·.map memory)) = .ok wires →
    c.frameOf gzip (.transactionUpdateLight ⟨requestID, wires⟩) = .ok frame →
    Served d₀ connID frame c

structure ReplySent (d₀ : Delivery) (connID : ConnectionID) (reply : ServerMessage) (c : Conn) :
    Prop where
  sent : ∀ frame, c.frameOf gzip reply = .ok frame → Served d₀ connID frame c
  tooLarge : ∀ size cap, c.frameOf gzip reply = .error (.outboundMessageLimit size cap) →
    (∃ fallback frame, oversizedDirectResponse reply = some fallback ∧
      c.frameOf gzip fallback = .ok frame ∧ Served d₀ connID frame c) ∨ c.disconnecting = true

/-- The heavy envelope of a committed call: its updates, or the error of their encoding. -/
structure CallerServed (d₀ : Delivery) (connID : ConnectionID) (outcome : CallerOutcome)
    (updates : List (SubscriptionUpdate RowRef)) (c : Conn) : Prop where
  committed : ∀ wires,
    encodeProtocolSubscriptionUpdates (updates.map (·.map memory)) = .ok wires →
    ReplySent gzip d₀ connID
      (.transactionUpdate (transactionUpdate connID outcome (.committed wires))) c
  failed : ∀ e, encodeProtocolSubscriptionUpdates (updates.map (·.map memory)) = .error e →
    ReplySent gzip d₀ connID
      (.transactionUpdate (transactionUpdate connID outcome (.failed (errorText e)))) c

end Service

variable {outcome : CallerOutcome} {updates : List (SubscriptionUpdate RowRef)}
  {memo : EncodingMemo}

theorem LightServed.evolves {requestID : UInt32} (h : Conn.Evolves c c')
    (hserved : LightServed gzip memory d₀ connID requestID updates c) :
    LightServed gzip memory d₀ connID requestID updates c' := by
  intro wires frame hwires hframe
  rw [h.frameOf] at hframe
  exact (hserved wires frame hwires hframe).evolves h

theorem ReplySent.evolves {reply : ServerMessage} (h : Conn.Evolves c c')
    (hsent : ReplySent gzip d₀ connID reply c) : ReplySent gzip d₀ connID reply c' where
  sent frame hframe := by
    rw [h.frameOf] at hframe
    exact (hsent.sent frame hframe).evolves h
  tooLarge size cap herr := by
    rw [h.frameOf] at herr
    rcases hsent.tooLarge size cap herr with ⟨fallback, frame, hover, hframe, hserved⟩ | hleaving
    · exact .inl ⟨fallback, frame, hover, (h.frameOf gzip fallback).trans hframe,
        hserved.evolves h⟩
    · exact .inr (h.leaving hleaving)

theorem CallerServed.evolves (h : Conn.Evolves c c')
    (hserved : CallerServed gzip memory errorText d₀ connID outcome updates c) :
    CallerServed gzip memory errorText d₀ connID outcome updates c' where
  committed wires hwires := (hserved.committed wires hwires).evolves h
  failed e he := (hserved.failed e he).evolves h

theorem sendDirectResponse_serves {c₀ : Conn} (hc₀ : d₀.conns connID = some c₀)
    (hc : Conn.Evolves c₀ c) (hopen : c.closed = false) (reply : ServerMessage) :
    ReplySent gzip d₀ connID reply (sendDirectResponse gzip c reply).1 where
  sent frame hframe := by
    rw [(sendDirectResponse_evolves gzip c reply).frameOf] at hframe
    obtain ⟨hput, hlimit⟩ := sendOnConn_serves gzip hopen hframe
    refine .of_put hc₀ hc ?_
    unfold sendDirectResponse
    cases hsend : sendOnConn gzip c reply with
    | mk c₁ err =>
      rw [hsend] at hput hlimit
      cases err with
      | none => exact hput
      | some err =>
        dsimp only
        rw [if_neg (hlimit err rfl)]
        exact hput
  tooLarge size cap herr := by
    have hevolves := sendDirectResponse_evolves gzip c reply
    rw [hevolves.frameOf] at herr
    simp only [hevolves.frameOf]
    have hsend : sendOnConn gzip c reply = (c, some [.outboundMessageLimit]) := by
      rw [sendOnConn, herr]
      rfl
    unfold sendDirectResponse
    rw [hsend]
    dsimp only
    rw [if_pos (by simp)]
    cases hover : oversizedDirectResponse reply with
    | none => exact .inr (requestDisconnect_disconnecting c)
    | some fallback =>
      dsimp only
      cases hframe : c.frameOf gzip fallback with
      | error e =>
        rw [sendOnConn, hframe]
        exact .inr (requestDisconnect_disconnecting c)
      | ok frame =>
        have hput := (sendOnConn_serves gzip hopen hframe).1
        cases hagain : sendOnConn gzip c fallback with
        | mk c₂ err =>
          rw [hagain] at hput
          cases err with
          | none => exact .inl ⟨fallback, frame, rfl, hframe, .of_put hc₀ hc hput⟩
          | some _ => exact .inr (requestDisconnect_disconnecting c₂)

/-! ## The sends of a message serve it -/

theorem sendTo_holds {send : Conn → Conn × Option SendError}
    (hevolves : ∀ c, Conn.Evolves c (send c).1) (hd : Delivery.Evolves connID d₀ d)
    (hsend : ∀ c₀ c, d₀.conns connID = some c₀ → Conn.Evolves c₀ c → c.closed = false → P (send c).1)
: (sendTo send d connID).1.Holds connID P := by
  intro c' hc' hopen
  unfold sendTo at hc'
  cases hc : d.conns connID with
  | none =>
    rw [hc] at hc'
    exact absurd (hc.symm.trans hc') nofun
  | some c =>
    rw [hc] at hc'
    dsimp only at hc'
    rw [setConn_self] at hc'
    cases hc'
    have hbefore := (hevolves c).opened hopen
    obtain ⟨c₀, hc₀, hfirst⟩ := hd c hc hbefore
    exact hsend c₀ c hc₀ hfirst hbefore

theorem sendTransactionUpdateLight_holds (hmemo : MemoSound memory memo)
    (hd : Delivery.Evolves connID d₀ d) (requestID : UInt32) :
    (sendTransactionUpdateLight gzip memory connID requestID updates d memo).1.1.Holds connID
      (LightServed gzip memory d₀ connID requestID updates) := by
  have hspec := (@encodeSubscriptionUpdatesMemoized_spec memory updates memo hmemo).1
  fun_cases sendTransactionUpdateLight gzip memory connID requestID updates d memo
  · next hencode =>
    intro c _ _ wires frame hwires
    rw [← hspec, hencode] at hwires
    cases hwires
  · next hencode d' _ hsent =>
    obtain rfl : _ = d' := congrArg Prod.fst hsent
    refine sendTo_holds (fun c => sendOnConn_evolves gzip c _) hd ?_
    intro c₀ c hc₀ hc hopen wires frame hwires hframe
    rw [← hspec, hencode] at hwires
    cases hwires
    rw [(sendOnConn_evolves gzip c _).frameOf] at hframe
    exact .of_put hc₀ hc (sendOnConn_serves gzip hopen hframe).1

theorem sendDirectResponse_holds (hd : Delivery.Evolves connID d₀ d) (reply : ServerMessage) :
    (sendTo (fun c => sendDirectResponse gzip c reply) d connID).1.Holds connID
      (ReplySent gzip d₀ connID reply) :=
  sendTo_holds (fun c => sendDirectResponse_evolves gzip c reply) hd
    fun _ _ hc₀ hc hopen => sendDirectResponse_serves hc₀ hc hopen reply

theorem sendTransactionUpdateHeavy_holds (hmemo : MemoSound memory memo)
    (hd : Delivery.Evolves connID d₀ d) (hkind : outcome.kind = .committed) :
    (sendTransactionUpdateHeavy gzip memory errorText connID outcome updates d memo).1.1.Holds
      connID (CallerServed gzip memory errorText d₀ connID outcome updates) := by
  have hspec := (@encodeSubscriptionUpdatesMemoized_spec memory updates memo hmemo).1
  unfold sendTransactionUpdateHeavy buildUpdateStatus
  rw [if_neg (by simp [hkind]), hkind]
  dsimp only
  cases hencode : encodeSubscriptionUpdatesMemoized memory updates memo with
  | mk result memo' =>
    rw [hencode] at hspec
    cases result with
    | error e =>
      intro c hc hopen
      refine ⟨fun wires hwires => ?_, fun e' he' => ?_⟩
      · rw [← hspec] at hwires
        cases hwires
      · rw [← hspec] at he'
        cases he'
        exact sendDirectResponse_holds hd _ c hc hopen
    | ok encoded =>
      intro c hc hopen
      refine ⟨fun wires hwires => ?_, fun e' he' => ?_⟩
      · rw [← hspec] at hwires
        cases hwires
        exact sendDirectResponse_holds hd _ c hc hopen
      · rw [← hspec] at he'
        cases he'

theorem Worker.send_holds {w : Worker}
    (h : (send (w.turn interfere).delivery w.memo).1.1.Holds connID P) :
    (w.send interfere connID send).delivery.Holds connID P := by
  intro c hc hopen
  refine h c ?_ hopen
  rw [← hc]
  exact (congrFun (handleSendError_conns ..) connID).symm

theorem worker_good (d : Delivery) : d.worker.Good memory where
  memo _ _ _ hget := by cases hget
  ready h := by cases h

private theorem lookup_of_mem {κ ν : Type} [BEq κ] [LawfulBEq κ] {l : List (κ × ν)} {k : κ} {v : ν}
    (hnodup : (l.map Prod.fst).Nodup) (hmem : (k, v) ∈ l) : l.lookup k = some v := by
  induction l with
  | nil => cases hmem
  | cons a l ih =>
    rw [List.map_cons, List.nodup_cons] at hnodup
    rcases List.mem_cons.mp hmem with rfl | hmem
    · exact List.lookup_cons_self
    · have hne : k ≠ a.1 := by
        rintro rfl
        exact hnodup.1 (List.mem_map.mpr ⟨_, hmem, rfl⟩)
      rw [List.lookup, beq_false_of_ne hne]
      exact ih hnodup.2 hmem

theorem entry_of_mem (hmem : (watched, updates) ∈ msg.fanout) : msg.entry watched = updates := by
  rw [FanOutMessage.entry, lookup_of_mem msg.fanout_nodup hmem, Option.getD_some]

section Whole

variable (hrest : Undisturbed watched interfere)

section Step

variable {w : Worker} (h : w.Good memory) (hd : Delivery.Evolves watched d₀ w.delivery)

include hrest h hd

theorem sendCaller_serves (hkind : outcome.kind = .committed) :
    (sendCaller gzip memory errorText interfere msg watched outcome w).delivery.Holds watched
      (CallerServed gzip memory errorText d₀ watched outcome (msg.entry watched)) :=
  Worker.send_holds
    (sendTransactionUpdateHeavy_holds h.memo (hd.trans (hrest w.clock w.delivery)) hkind)

theorem deliverFastReply_serves {outcome : CallerOutcome}
    (hcaller : msg.effectiveCaller = some (watched, outcome)) (hkind : outcome.kind = .committed)
    (hfast : outcome.fastReply = true) :
    (deliverFastReply gzip memory errorText interfere msg w).delivery.Holds watched
      (CallerServed gzip memory errorText d₀ watched outcome (msg.entry watched)) := by
  rw [deliverFastReply, hcaller]
  dsimp only
  rw [if_pos hfast]
  exact sendCaller_serves hrest h hd hkind

variable (hmsg : msg.Confirmed)

include hmsg

theorem deliverLight_serves (entry : ConnectionID × List (SubscriptionUpdate RowRef)) :
    ∃ w', deliverLight gzip memory interfere msg w entry = (w', none) ∧
      w.Leads watched memory w' ∧
      (entry.1 = watched → msg.callerConnID ≠ some watched → w'.delivery.Holds watched
        (LightServed gzip memory d₀ watched msg.lightRequestID entry.2)) := by
  unfold deliverLight
  split
  · next hcaller => exact ⟨w, rfl, .refl w, fun hentry hne => absurd (hentry ▸ hcaller) hne⟩
  · obtain ⟨w₁, hwait, hleads⟩ := @requireDurable_confirmed watched _ _ hmsg _ h entry.1
    have hsend := w₁.send_leads hrest (sendTransactionUpdateLight_sound gzip memory entry.1
      msg.lightRequestID entry.2) entry.1
    refine ⟨_, by rw [hwait, andThen], hleads.trans hsend, fun hentry _ => ?_⟩
    subst hentry
    have hturn := (hd.trans hleads.evolves).trans (hrest w₁.clock w₁.delivery)
    exact Worker.send_holds
      (sendTransactionUpdateLight_holds (hleads.good h).memo hturn msg.lightRequestID)

theorem allLights_serve :
    ∃ w', loop (deliverLight gzip memory interfere msg) w msg.fanout = (w', none) ∧
      w.Leads watched memory w' ∧ ∀ updates, (watched, updates) ∈ msg.fanout →
        msg.callerConnID ≠ some watched → w'.delivery.Holds watched
          (LightServed gzip memory d₀ watched msg.lightRequestID updates) := by
  refine loop_total _ (fun done w' => w.Leads watched memory w' ∧
    ∀ updates, (watched, updates) ∈ done → msg.callerConnID ≠ some watched →
      w'.delivery.Holds watched (LightServed gzip memory d₀ watched msg.lightRequestID updates))
    msg.fanout ?_ ⟨.refl w, by simp⟩
  intro done entry rest w₁ _ ⟨hleads, hserved⟩
  obtain ⟨w₂, hstep, hnext, hown⟩ := @deliverLight_serves watched gzip _ _ _ _ hrest _
    (hleads.good h) (hd.trans hleads.evolves) hmsg entry
  refine ⟨w₂, hstep, hleads.trans hnext, fun updates hmem hne => ?_⟩
  rcases List.mem_append.mp hmem with hbefore | hthis
  · exact (hserved updates hbefore hne).evolves (fun _ _ => LightServed.evolves) hnext.evolves
  · rw [List.mem_singleton] at hthis
    subst hthis
    exact hown rfl hne

theorem deliverCaller_serves :
    ∃ w', deliverCaller gzip memory errorText interfere msg w = (w', none) ∧
      w.Leads watched memory w' ∧ ∀ outcome, msg.effectiveCaller = some (watched, outcome) →
        outcome.kind = .committed → outcome.fastReply = false → w'.delivery.Holds watched
          (CallerServed gzip memory errorText d₀ watched outcome (msg.entry watched)) := by
  unfold deliverCaller
  split
  · next connID outcome hcaller =>
    split
    · next hfast =>
      refine ⟨w, rfl, .refl w, fun outcome' heq _ hslow => ?_⟩
      rw [hcaller] at heq
      cases heq
      rw [hfast] at hslow
      cases hslow
    · obtain ⟨w₁, hwait, hleads⟩ := @requireDurable_confirmed watched _ _ hmsg _ h connID
      refine ⟨_, by rw [hwait, andThen],
        hleads.trans (sendCaller_leads hrest connID outcome w₁), fun outcome' heq hkind _ => ?_⟩
      rw [hcaller] at heq
      cases heq
      exact sendCaller_serves hrest (hleads.good h) (hd.trans hleads.evolves) hkind
  · next hcaller =>
    refine ⟨w, rfl, .refl w, fun outcome heq => ?_⟩
    rw [hcaller] at heq
    cases heq

end Step

include hrest in
/-- A confirmed message is delivered to its end: every entry of another connection is served in a
light envelope and the caller of a committed call in a heavy one. -/
theorem deliver_serves (hmsg : msg.Confirmed) (d : Delivery) :
    (∀ updates, (watched, updates) ∈ msg.fanout → msg.callerConnID ≠ some watched →
      (deliver gzip memory errorText interfere d msg).Holds watched
        (LightServed gzip memory d watched msg.lightRequestID updates)) ∧
    ∀ outcome, msg.effectiveCaller = some (watched, outcome) → outcome.kind = .committed →
      (deliver gzip memory errorText interfere d msg).Holds watched
        (CallerServed gzip memory errorText d watched outcome (msg.entry watched)) := by
  have hgood : d.worker.Good memory := worker_good d
  obtain ⟨w₁, hgate, hleads₁⟩ :=
    @durableGate_confirmed watched gzip memory errorText interfere msg hmsg _ hgood
  have hgood₁ := hleads₁.good hgood
  have hfast := @deliverFastReply_leads watched gzip memory errorText interfere msg hrest w₁
  have hd₂ := hleads₁.evolves.trans hfast.evolves
  obtain ⟨w₃, herrors, hleads₃⟩ :=
    @allErrors_leads watched gzip memory interfere msg hrest hmsg _ (hfast.good hgood₁)
  have hgood₃ := hleads₃.good (hfast.good hgood₁)
  have hd₃ := hd₂.trans hleads₃.evolves
  obtain ⟨w₄, hlights, hleads₄, hserved⟩ :=
    @allLights_serve watched gzip memory interfere msg d.worker.delivery hrest _ hgood₃ hd₃ hmsg
  obtain ⟨w₅, hcaller, hleads₅, hslow⟩ :=
    @deliverCaller_serves watched gzip memory errorText interfere msg d.worker.delivery hrest
      _ (hleads₄.good hgood₃) (hd₃.trans hleads₄.evolves) hmsg
  have hdeliver : deliver gzip memory errorText interfere d msg = w₅.delivery := by
    simp only [deliver, hgate, herrors, hlights, hcaller, andThen]
  rw [hdeliver]
  refine ⟨fun updates hmem hne => ?_, fun outcome heffective hkind => ?_⟩
  · exact (hserved updates hmem hne).evolves (fun _ _ => LightServed.evolves) hleads₅.evolves
  · cases hreply : outcome.fastReply with
    | false => exact hslow outcome heffective hkind hreply
    | true =>
      have hsent := @deliverFastReply_serves watched gzip memory errorText interfere msg
        d.worker.delivery hrest _ hgood₁ hleads₁.evolves outcome heffective hkind hreply
      exact hsent.evolves (fun _ _ => CallerServed.evolves)
        ((hleads₃.evolves.trans hleads₄.evolves).trans hleads₅.evolves)

end Whole

theorem effectiveCaller_eq (hconn : msg.callerConnID = some connID)
    (houtcome : msg.callerOutcome = some outcome)
    (hflags : outcome.flags ≠ callerOutcomeFlagNoSuccessNotify) :
    msg.effectiveCaller = some (connID, outcome) := by
  rw [FanOutMessage.effectiveCaller, hconn, houtcome]
  dsimp only
  rw [if_neg (fun h => hflags h.2)]

/-- No connection that stays registered and open misses its entry of a confirmed message.  The
rows of the caller travel in its reply, which is replaced by a failed one when they do not fit. -/
theorem updates_not_missed (gzip : Bytes → Bytes) (memory : RowRef → ProductValue)
    (errorText : UpdateError → Bytes) (interfere : Nat → Delivery → Delivery)
    (connID : ConnectionID) (hrest : Undisturbed connID interfere) (d : Delivery)
    (msg : FanOutMessage) (hmsg : msg.Confirmed) (updates : List (SubscriptionUpdate RowRef))
    (hentry : (connID, updates) ∈ msg.fanout) (c : Conn)
    (hc : (deliver gzip memory errorText interfere d msg).conns connID = some c)
    (hopen : c.closed = false) :
    (msg.callerConnID ≠ some connID →
      LightServed gzip memory d connID msg.lightRequestID updates c) ∧
    ∀ outcome, msg.callerConnID = some connID → msg.callerOutcome = some outcome →
      outcome.kind = .committed → outcome.flags ≠ callerOutcomeFlagNoSuccessNotify →
      CallerServed gzip memory errorText d connID outcome updates c := by
  obtain ⟨hlight, hheavy⟩ :=
    @deliver_serves connID gzip memory errorText interfere msg hrest hmsg d
  refine ⟨fun hne => hlight updates hentry hne c hc hopen, fun outcome hconn hout hkind hflags => ?_⟩
  have hserved := hheavy outcome (effectiveCaller_eq hconn hout hflags) hkind
  rw [entry_of_mem hentry] at hserved
  exact hserved c hc hopen

/-! ## A small client -/

section Small

set_option maxRecDepth 8000

def postClient : ConnectionID := List.Vector.replicate 16 1

def idleConn (limit : Nat) : Conn :=
  ⟨limit, 4096, 8, false, false, false, false, false, 0, [], [], 0, [], nofun⟩

def idleDelivery (limit : Nat) : Delivery :=
  ⟨fun connID => if connID = postClient then some (idleConn limit) else none, fun _ => false, []⟩

def postUpdate : SubscriptionUpdate RowRef := ⟨7, [112], [], [⟨0, 1⟩], []⟩

def postRow : ProductValue := [⟨.bytes, some (List.replicate 100 97)⟩]

def postCall : CallerOutcome :=
  ⟨.committed, [], List.Vector.replicate 32 2, [97], 3, [], 9, 0, 0, 0, false⟩

def postMessage (caller : Option ConnectionID) : FanOutMessage :=
  ⟨1, some (some 1), [(postClient, [postUpdate])], [], caller, some postCall, by decide⟩

theorem postMessage_confirmed (caller : Option ConnectionID) : (postMessage caller).Confirmed :=
  ⟨Nat.one_ne_zero, 1, rfl, Nat.le_refl 1⟩

theorem undisturbed_id : Undisturbed postClient fun _ d => d := fun _ _ => .of_conns rfl

theorem updates_not_missed_post :
    ∃ c c', (deliver id (fun _ => postRow) (fun _ => []) (fun _ d => d) (idleDelivery 4096)
        (postMessage none)).conns postClient = some c ∧
      LightServed id (fun _ => postRow) (idleDelivery 4096) postClient 9 [postUpdate] c ∧
      (deliver id (fun _ => postRow) (fun _ => []) (fun _ d => d) (idleDelivery 4096)
        (postMessage (some postClient))).conns postClient = some c' ∧
      CallerServed id (fun _ => postRow) (fun _ => []) (idleDelivery 4096) postClient postCall
        [postUpdate] c' := by
  refine ⟨_, _, rfl, ?_, rfl, ?_⟩
  · exact (updates_not_missed id (fun _ => postRow) (fun _ => []) _ postClient undisturbed_id _ _
      (postMessage_confirmed none) _ List.mem_cons_self _ rfl rfl).1 nofun
  · exact (updates_not_missed id (fun _ => postRow) (fun _ => []) _ postClient undisturbed_id _ _
      (postMessage_confirmed (some postClient)) _ List.mem_cons_self _ rfl rfl).2 postCall rfl rfl
      rfl (by decide)

/-- Under a limit of 150 bytes the rows of the caller have no frame; it gets a failed reply
instead, and stays connected. -/
theorem caller_update_replaced :
    ∃ c wires frame, (deliver id (fun _ => postRow) (fun _ => []) (fun _ d => d)
        (idleDelivery 150) (postMessage (some postClient))).conns postClient = some c ∧
      c.closed = false ∧ c.disconnecting = false ∧
      (deliver id (fun _ => postRow) (fun _ => []) (fun _ d => d)
        (idleDelivery 150) (postMessage (some postClient))).dropped = [] ∧
      encodeProtocolSubscriptionUpdates ([postUpdate].map (·.map fun _ => postRow)) = .ok wires ∧
      (∃ size, c.frameOf id (.transactionUpdate (transactionUpdate postClient postCall
        (.committed wires))) = .error (.outboundMessageLimit size 150)) ∧
      c.frameOf id (.transactionUpdate (transactionUpdate postClient postCall
        (.failed directResponseTooLargeText))) = .ok frame ∧
      c.enqueued = [frame] := by
  refine ⟨_, _, _, rfl, rfl, rfl, rfl, rfl, ⟨_, rfl⟩, rfl, rfl⟩

end Small

end Shunter.Subscription
