import Shunter.Foundation.GuardedRun
import Shunter.Protocol.Sessions

/-!
# What the steps of a session leave alone

Every step names instances that exist, and the ID of an instance never changes.
A step of a connection touches that connection, the end of the executor inbox
and the entry of its own ID in the connection manager.
-/

namespace Shunter.Protocol

open Foundation

def SessionCommand.inst : SessionCommand → Option Nat
  | .register i _ _ | .unregister i _ | .disconnectClient i | .onConnect i | .onDisconnect i =>
    some i
  | .call => none

def ExecutorPC.inst : ExecutorPC → Option Nat
  | .idle => none
  | .replying i _ _ => some i
  | .broadcast _ cmd | .drain cmd => cmd.inst

structure Sessions.Known (s : Sessions) : Prop where
  inbox : ∀ cmd ∈ s.inbox, ∀ i, cmd.inst = some i → i < s.next
  executor : ∀ i, s.executor.inst = some i → i < s.next
  registered : ∀ k i, s.registered k = some i → i < s.next ∧ (s.conns i).id = k
  worker : ∀ i entry msg, s.worker = .sending i entry msg →
    i < s.next ∧ (s.conns i).id = entry.1
  fresh : ∀ i, s.next ≤ i →
    (s.conns i).frames = [] ∧ (s.conns i).phase = .rejected ∧ (s.conns i).inboundHandlers = 0

theorem known_initial : Sessions.initial.Known where
  inbox _ hcmd := nomatch hcmd
  executor _ h := nomatch h
  registered _ _ h := nomatch h
  worker _ _ _ h := nomatch h
  fresh _ _ := ⟨rfl, rfl, rfl⟩

namespace Sessions

@[simp] theorem setConn_self (s : Sessions) (i : Nat) (c : SessionConn) :
    (s.setConn i c).conns i = c :=
  Function.update_self ..

theorem setConn_of_ne (s : Sessions) {i j : Nat} (c : SessionConn) (h : j ≠ i) :
    (s.setConn i c).conns j = s.conns j :=
  Function.update_of_ne h ..

theorem setConn_id (s : Sessions) (i : Nat) {c : SessionConn} (h : c.id = (s.conns i).id)
    (j : Nat) : ((s.setConn i c).conns j).id = (s.conns j).id := by
  by_cases hj : j = i
  · subst hj
    rw [setConn_self, h]
  · rw [setConn_of_ne s c hj]

end Sessions

theorem eq_some_of_update {κ ν : Type} [DecidableEq κ] {f : κ → Option ν} {k₀ k : κ}
    {v : Option ν} {b : ν} (h : Function.update f k₀ v k = some b) :
    f k = some b ∨ k = k₀ ∧ v = some b := by
  by_cases hk : k = k₀
  · subst hk
    rw [Function.update_self] at h
    exact .inr ⟨rfl, h⟩
  · rw [Function.update_of_ne hk] at h
    exact .inl h

structure ConnEffect (s : Sessions) (i : Nat) (s' : Sessions) : Prop where
  known : (s.conns i).phase ≠ .rejected ∨ 0 < (s.conns i).inboundHandlers ∨ i < s.next ∨
    s'.conns = s.conns
  next : s'.next = s.next := by rfl
  others : ∀ j, j ≠ i → s'.conns j = s.conns j
  id : (s'.conns i).id = (s.conns i).id
  frames : (s'.conns i).frames = (s.conns i).frames
  inbox : s'.inbox = s.inbox ∨ ∃ cmd, cmd.inst = some i ∧ s'.inbox = s.inbox ++ [cmd] ∧
    ((s.conns i).phase ≠ .rejected ∨ 0 < (s.conns i).inboundHandlers)
  registered : ∀ k j, s'.registered k = some j → s.registered k = some j ∨
    k = (s.conns i).id ∧ j = i ∧ (s.conns i).phase ≠ .rejected
  executor : s'.executor = s.executor := by rfl
  lastTx : s'.lastTx = s.lastTx := by rfl
  querySets : s'.querySets = s.querySets := by rfl
  dropped : s'.dropped = s.dropped := by rfl
  fanout : s'.fanout = s.fanout := by rfl
  worker : s'.worker = s.worker := by rfl
  decided : s'.decided = s.decided := by rfl
  removals : s'.removals = s.removals := by rfl

variable {cmd : SessionCommand}

section Conn

variable {s s' : Sessions} {i : Nat}

theorem effect_setConn {c : SessionConn} (hid : c.id = (s.conns i).id)
    (hframes : c.frames = (s.conns i).frames)
    (hknown : (s.conns i).phase ≠ .rejected ∨ 0 < (s.conns i).inboundHandlers ∨ i < s.next) :
    ConnEffect s i (s.setConn i c) where
  known := by
    rcases hknown with h | h | h
    · exact .inl h
    · exact .inr (.inl h)
    · exact .inr (.inr (.inl h))
  others _ hj := s.setConn_of_ne c hj
  id := by rw [Sessions.setConn_self, hid]
  frames := by rw [Sessions.setConn_self, hframes]
  inbox := .inl rfl
  registered _ _ h := .inl h

theorem effect_setPhase (phase : ConnPhase) (hlive : (s.conns i).phase ≠ .rejected) :
    ConnEffect s i (s.setPhase i phase) :=
  effect_setConn rfl rfl (.inl hlive)

theorem ConnEffect.submit (h : ConnEffect s i s') (hcmd : cmd.inst = some i)
    (hinbox : s'.inbox = s.inbox)
    (hguard : (s.conns i).phase ≠ .rejected ∨ 0 < (s.conns i).inboundHandlers) :
    ConnEffect s i (s'.submit cmd) :=
  { h with inbox := .inr ⟨cmd, hcmd, by rw [Sessions.submit, hinbox], hguard⟩ }

theorem effect_refl : ConnEffect s i s where
  known := .inr (.inr (.inr rfl))
  others _ _ := rfl
  id := rfl
  frames := rfl
  inbox := .inl rfl
  registered _ _ h := .inl h

theorem connStep_effect {a : ConnAction} (h : connStep s i a = some s') : ConnEffect s i s' := by
  cases a with
  | onConnect =>
    obtain ⟨hphase, rfl⟩ := of_guard h
    have hlive : (s.conns i).phase ≠ .rejected := by simp [hphase]
    exact (effect_setPhase .connecting hlive).submit rfl rfl (.inl hlive)
  | add =>
    obtain ⟨⟨hphase, -⟩, rfl⟩ := of_guard h
    have hlive : (s.conns i).phase ≠ .rejected := by simp [hphase]
    refine { effect_setPhase .up hlive with registered := fun k j hk => ?_ }
    change Function.update s.registered (s.conns i).id (some i) k = some j at hk
    rcases eq_some_of_update hk with hbefore | ⟨hid, hself⟩
    · exact .inl hbefore
    · cases hself
      exact .inr ⟨hid, rfl, hlive⟩
  | finishAdmission =>
    obtain ⟨-, rfl⟩ := of_guard h
    exact { effect_refl with }
  | beginInboundHandler =>
    obtain ⟨⟨hphase, -⟩, rfl⟩ := of_guard h
    exact effect_setConn rfl rfl (.inl (by simp [hphase]))
  | subscribe queryID aware =>
    obtain ⟨hhandler, rfl⟩ := of_guard h
    exact effect_refl.submit rfl rfl (.inr hhandler)
  | unsubscribe queryID =>
    obtain ⟨hhandler, rfl⟩ := of_guard h
    exact effect_refl.submit rfl rfl (.inr hhandler)
  | finishInboundHandler =>
    obtain ⟨hhandler, rfl⟩ := of_guard h
    exact effect_setConn rfl rfl (.inr (.inl hhandler))
  | requestDisconnect =>
    obtain ⟨hnext, rfl⟩ := of_guard h
    exact effect_setConn rfl rfl (.inr (.inr hnext))
  | stopInbound =>
    obtain ⟨hphase, rfl⟩ := of_guard h
    exact effect_setConn rfl rfl (.inl (by simp [hphase]))
  | disconnectClientSubscriptions =>
    obtain ⟨⟨hphase, -⟩, rfl⟩ := of_guard h
    have hlive : (s.conns i).phase ≠ .rejected := by simp [hphase]
    exact (effect_setPhase .cleaning hlive).submit rfl rfl (.inl hlive)
  | onDisconnect =>
    obtain ⟨hphase, rfl⟩ := of_guard h
    have hlive : (s.conns i).phase ≠ .rejected := by simp [hphase]
    exact (effect_setPhase .leaving hlive).submit rfl rfl (.inl hlive)
  | remove =>
    obtain ⟨hphase, rfl⟩ := of_guard h
    have hlive : (s.conns i).phase ≠ .rejected := by simp [hphase]
    refine { effect_setPhase .removed hlive with registered := fun k j hk => ?_ }
    change Function.update s.registered (s.conns i).id none k = some j at hk
    rcases eq_some_of_update hk with hbefore | ⟨-, hself⟩
    · exact .inl hbefore
    · cases hself
  | close =>
    obtain ⟨hphase, rfl⟩ := of_guard h
    exact effect_setConn rfl rfl (.inl (by simp [hphase]))

theorem ConnEffect.lt (h : ConnEffect s i s') (hs : s.Known) : i < s.next ∨ s'.conns = s.conns := by
  by_cases hi : i < s.next
  · exact .inl hi
  · obtain ⟨-, hphase, hhandlers⟩ := hs.fresh i (Nat.le_of_not_lt hi)
    rcases h.known with hlive | hlive | hlt | hsame
    · exact absurd hphase hlive
    · omega
    · exact .inl hlt
    · exact .inr hsame

theorem ConnEffect.ids (h : ConnEffect s i s') (j : Nat) : (s'.conns j).id = (s.conns j).id := by
  by_cases hj : j = i
  · rw [hj, h.id]
  · rw [h.others j hj]

theorem ConnEffect.allFrames (h : ConnEffect s i s') (j : Nat) :
    (s'.conns j).frames = (s.conns j).frames := by
  by_cases hj : j = i
  · rw [hj, h.frames]
  · rw [h.others j hj]

private theorem lt_of_guard (hs : s.Known)
    (h : (s.conns i).phase ≠ .rejected ∨ 0 < (s.conns i).inboundHandlers) : i < s.next := by
  by_contra hi
  obtain ⟨-, hphase, hhandlers⟩ := hs.fresh i (Nat.le_of_not_lt hi)
  rcases h with h | h
  · exact h hphase
  · omega

theorem ConnEffect.keepsKnown (h : ConnEffect s i s') (hs : s.Known) : s'.Known where
  inbox cmd hcmd j hj := by
    rw [h.next]
    rcases h.inbox with hsame | ⟨cmd', hinst, hsame, hguard⟩
    · rw [hsame] at hcmd
      exact hs.inbox cmd hcmd j hj
    · rw [hsame, List.mem_append, List.mem_singleton] at hcmd
      rcases hcmd with hcmd | rfl
      · exact hs.inbox cmd hcmd j hj
      · rw [hinst] at hj
        cases hj
        exact lt_of_guard hs hguard
  executor j hj := by
    rw [h.executor] at hj
    rw [h.next]
    exact hs.executor j hj
  registered k j hk := by
    rw [h.next, h.ids]
    rcases h.registered k j hk with hbefore | ⟨rfl, rfl, hlive⟩
    · exact hs.registered k j hbefore
    · exact ⟨lt_of_guard hs (.inl hlive), rfl⟩
  worker j entry msg hj := by
    rw [h.worker] at hj
    rw [h.next, h.ids]
    exact hs.worker j entry msg hj
  fresh j hj := by
    rw [h.next] at hj
    rcases h.lt hs with hi | hsame
    · rw [h.others j (by omega)]
      exact hs.fresh j hj
    · rw [hsame]
      exact hs.fresh j hj

end Conn

/-! ## The other steps -/

section Rest

variable {s s' : Sessions}

theorem reserve_keepsKnown (hs : s.Known) {id : ConnectionID} (h : reserve s id = some s') :
    s'.Known := by
  obtain ⟨-, rfl⟩ := of_guard h
  have hother : ∀ j, j < s.next → Function.update s.conns s.next
      ⟨id, .reserved, false, 0, false, []⟩ j = s.conns j :=
    fun j hj => Function.update_of_ne (Nat.ne_of_lt hj) ..
  refine ⟨fun cmd hcmd j hj => ?_, fun j hj => ?_, fun k j hk => ?_, fun j entry msg hj => ?_,
    fun j hj => ?_⟩
  · exact Nat.lt_succ_of_lt (hs.inbox cmd hcmd j hj)
  · exact Nat.lt_succ_of_lt (hs.executor j hj)
  · obtain ⟨hlt, hid⟩ := hs.registered k j hk
    exact ⟨Nat.lt_succ_of_lt hlt, (congrArg SessionConn.id (hother j hlt)).trans hid⟩
  · obtain ⟨hlt, hid⟩ := hs.worker j entry msg hj
    exact ⟨Nat.lt_succ_of_lt hlt, (congrArg SessionConn.id (hother j hlt)).trans hid⟩
  · have hne : j ≠ s.next := Nat.ne_of_gt hj
    have hsame := s.setConn_of_ne ⟨id, .reserved, false, 0, false, []⟩ hne
    exact hsame.symm ▸ hs.fresh j (Nat.le_of_lt hj)

/-- What a step of the executor or of the worker leaves alone. -/
structure InnerFrame (s s' : Sessions) : Prop where
  next : s'.next = s.next
  registered : s'.registered = s.registered
  ids : ∀ j, (s'.conns j).id = (s.conns j).id
  fresh : ∀ j, s.next ≤ j → s'.conns j = s.conns j
  inbox : s'.inbox ⊆ s.inbox

theorem innerFrame_refl (s : Sessions) : InnerFrame s s :=
  ⟨rfl, rfl, fun _ => rfl, fun _ _ => rfl, List.Subset.refl _⟩

theorem innerFrame_setConn {i : Nat} (hi : i < s.next) {c : SessionConn}
    (hid : c.id = (s.conns i).id) : InnerFrame s (s.setConn i c) :=
  ⟨rfl, rfl, s.setConn_id i hid, fun _ hj => s.setConn_of_ne c (by omega), List.Subset.refl _⟩

theorem innerFrame_setPhase {i : Nat} (hi : i < s.next) (phase : ConnPhase) :
    InnerFrame s (s.setPhase i phase) :=
  innerFrame_setConn hi rfl

theorem InnerFrame.keepsKnown (h : InnerFrame s s') (hs : s.Known)
    (hexecutor : ∀ i, s'.executor.inst = some i → i < s.next)
    (hworker : ∀ i entry msg, s'.worker = .sending i entry msg →
      i < s.next ∧ (s.conns i).id = entry.1) : s'.Known where
  inbox cmd hcmd i hi := h.next ▸ hs.inbox cmd (h.inbox hcmd) i hi
  executor i hi := h.next ▸ hexecutor i hi
  registered k i hk := by
    rw [h.registered] at hk
    rw [h.next, h.ids]
    exact hs.registered k i hk
  worker i entry msg hi := by
    rw [h.next, h.ids]
    exact hworker i entry msg hi
  fresh i hi := by
    rw [h.next] at hi
    rw [h.fresh i hi]
    exact hs.fresh i hi

theorem send_cases (s : Sessions) (i : Nat) (frame : OutFrame) (result : PutResult) :
    s.send i frame result = (s, false) ∨
    s.send i frame result =
      (s.setConn i { s.conns i with frames := (s.conns i).frames ++ [frame] }, true) ∨
    s.send i frame result = (s.requestDisconnect i, false) := by
  unfold Sessions.send
  split
  · exact .inl rfl
  · cases result with
    | put => exact .inr (.inl rfl)
    | unencodable => exact .inl rfl
    | full => exact .inr (.inr rfl)

/-- A send changes what its connection has queued, or stops it. -/
theorem send_setConn (s : Sessions) (i : Nat) (frame : OutFrame) (result : PutResult) :
    ∃ c, (s.send i frame result).1 = s.setConn i c ∧ c.id = (s.conns i).id ∧
      c.phase = (s.conns i).phase ∧ c.inboundHandlers = (s.conns i).inboundHandlers := by
  obtain h | h | h := send_cases s i frame result
  · exact ⟨s.conns i, by rw [h, Sessions.setConn, Function.update_eq_self], rfl, rfl, rfl⟩
  · exact ⟨_, congrArg Prod.fst h, rfl, rfl, rfl⟩
  · exact ⟨_, congrArg Prod.fst h, rfl, rfl, rfl⟩

theorem innerFrame_send {i : Nat} (hi : i < s.next) (frame : OutFrame) (result : PutResult) :
    InnerFrame s (s.send i frame result).1 := by
  obtain ⟨c, hsend, hid, -⟩ := send_setConn s i frame result
  rw [hsend]
  exact innerFrame_setConn hi hid

theorem signalEvalErrors_eq (s : Sessions) (failed : List ConnectionID) :
    ∃ dropped decided, failed.foldl Sessions.signalEvalError s =
      { s with dropped := dropped, decided := decided } := by
  induction failed generalizing s with
  | nil => exact ⟨s.dropped, s.decided, rfl⟩
  | cons k ks ih =>
    obtain ⟨dropped, decided, h⟩ := ih (s.signalEvalError k)
    refine ⟨dropped, decided, ?_⟩
    rw [List.foldl_cons, h]
    unfold Sessions.signalEvalError Sessions.queueDroppedClient
    split <;> rfl

end Rest

/-! ## What the executor and the worker can do -/

def Sessions.registerSet (s : Sessions) (i : Nat) (queryID : UInt32) : Sessions :=
  { s with querySets := s.querySets ++ [⟨(s.conns i).id, queryID, i, s.lastTx⟩] }

def Sessions.drained (s : Sessions) : Sessions :=
  { s.disconnectClient s.dropped (fun q => .drop (q.owner ∈ s.decided)) with
    dropped := []
    executor := .idle }

inductive ExecutorMove (s : Sessions) : Sessions → Prop where
  | register {i : Nat} {queryID : UInt32} {aware : Bool} {rest : List SessionCommand}
      (hpc : s.executor = .idle) (hinbox : s.inbox = .register i queryID aware :: rest)
      (hnew : s.live (s.conns i).id queryID = false) :
      ExecutorMove s { s.registerSet i queryID with
        inbox := rest
        executor := .replying i (.subscribeApplied queryID s.lastTx)
          (if aware then some queryID else none) }
  | refuse {i : Nat} {cmd : SessionCommand} {rest : List SessionCommand}
      (hpc : s.executor = .idle) (hinbox : s.inbox = cmd :: rest) (hcmd : cmd.inst = some i)
      (hset : ∀ j, cmd ≠ .disconnectClient j) :
      ExecutorMove s { s with inbox := rest, executor := .replying i .other none }
  | unregister {i : Nat} {queryID : UInt32} {rest : List SessionCommand} {frame : OutFrame}
      (hpc : s.executor = .idle) (hinbox : s.inbox = .unregister i queryID :: rest)
      (hframe : frame = .unsubscribeApplied queryID ∨ frame = .other) :
      ExecutorMove s { s.unregisterSet i queryID with
        inbox := rest
        executor := .replying i frame none }
  | disconnect {i : Nat} {rest : List SessionCommand}
      (hpc : s.executor = .idle) (hinbox : s.inbox = .disconnectClient i :: rest) :
      ExecutorMove s { (s.disconnectClient [(s.conns i).id] fun _ => .disconnect i).setPhase i
        .cleaned with inbox := rest }
  | rejectConnect {i : Nat} {rest : List SessionCommand}
      (hpc : s.executor = .idle) (hinbox : s.inbox = .onConnect i :: rest) :
      ExecutorMove s { s.setPhase i .rejected with inbox := rest }
  | failDisconnect {i : Nat} {rest : List SessionCommand}
      (hpc : s.executor = .idle) (hinbox : s.inbox = .onDisconnect i :: rest) :
      ExecutorMove s { s.setPhase i .left with inbox := rest }
  | skip {rest : List SessionCommand}
      (hpc : s.executor = .idle) (hinbox : s.inbox = .call :: rest) :
      ExecutorMove s { s with inbox := rest }
  | commit {cmd : SessionCommand} {rest : List SessionCommand} {input : CommandInput}
      (hpc : s.executor = .idle) (hinbox : s.inbox = cmd :: rest)
      (hcmd : cmd = .call ∨ ∃ i, cmd = .onConnect i ∨ cmd = .onDisconnect i)
      (heval : input.Evaluates s = true) :
      ExecutorMove s { input.failed.foldl Sessions.signalEvalError s with
        inbox := rest
        lastTx := s.lastTx + 1
        executor := .broadcast ⟨s.lastTx + 1, input.touched⟩ cmd }
  | reply {i : Nat} {frame : OutFrame} {undo : Option UInt32} (result : PutResult)
      (hpc : s.executor = .replying i frame undo) :
      ExecutorMove s { (s.send i frame result).1 with executor := .idle }
  | undo {i : Nat} {frame : OutFrame} {queryID : UInt32} (result : PutResult)
      (hpc : s.executor = .replying i frame (some queryID))
      (hlost : (s.send i frame result).2 = false) :
      ExecutorMove s { (s.send i frame result).1.unregisterSet i queryID with executor := .idle }
  | sendFanOut {msg : SessionUpdate} {cmd : SessionCommand} (hpc : s.executor = .broadcast msg cmd)
      (hcmd : ∀ i, cmd ≠ .onConnect i) :
      ExecutorMove s { s with fanout := s.fanout ++ [msg], executor := .drain cmd }
  | acceptConnect {msg : SessionUpdate} {i : Nat}
      (hpc : s.executor = .broadcast msg (.onConnect i)) :
      ExecutorMove s { s.setPhase i .accepted with
        fanout := s.fanout ++ [msg]
        executor := .drain (.onConnect i) }
  | drain {cmd : SessionCommand} (hpc : s.executor = .drain cmd)
      (hcmd : ∀ i, cmd ≠ .onDisconnect i) : ExecutorMove s s.drained
  | drainLeft {i : Nat} (hpc : s.executor = .drain (.onDisconnect i)) :
      ExecutorMove s (s.drained.setPhase i .left)

inductive WorkerMove (s : Sessions) : Sessions → Prop where
  | take {msg : SessionUpdate} {rest : List SessionUpdate} (hpc : s.worker = .idle)
      (hfanout : s.fanout = msg :: rest) :
      WorkerMove s { s with worker := .delivering msg, fanout := rest }
  | gone {msg : SessionUpdate} {entry : ConnectionID × List UInt32}
      (hpc : s.worker = .delivering msg) :
      WorkerMove s { s with
        worker := .delivering { msg with entries := msg.entries.erase entry } }
  | lookup {msg : SessionUpdate} {entry : ConnectionID × List UInt32} {i : Nat}
      (hpc : s.worker = .delivering msg) (hentry : entry ∈ msg.entries)
      (hconn : s.registered entry.1 = some i) :
      WorkerMove s { s with
        worker := .sending i entry { msg with entries := msg.entries.erase entry } }
  | full {i : Nat} {entry : ConnectionID × List UInt32} {msg : SessionUpdate}
      (hpc : s.worker = .sending i entry msg) :
      WorkerMove s { s.requestDisconnect i with
        worker := .signalling i entry.1 msg
        decided := s.decided ++ [i] }
  | send {i : Nat} {entry : ConnectionID × List UInt32} {msg : SessionUpdate} (result : PutResult)
      (hpc : s.worker = .sending i entry msg) :
      WorkerMove s { (s.send i (.update msg.txID entry.2) result).1 with
        worker := .delivering msg }
  | signal {i : Nat} {connID : ConnectionID} {msg : SessionUpdate}
      (hpc : s.worker = .signalling i connID msg) :
      WorkerMove s { s.queueDroppedClient connID with worker := .delivering msg }
  | finish {msg : SessionUpdate} (hpc : s.worker = .delivering msg) :
      WorkerMove s { s with worker := .idle }

variable {rest : List SessionCommand}

section Moves

variable {s s' : Sessions}

theorem worker_move {a : WorkerAction} (h : workerStep s a = some s') : WorkerMove s s' := by
  revert h
  fun_cases workerStep s a <;> rintro ⟨⟩
  · next hfanout hpc => exact .take hpc hfanout
  · next hpc hentry _ _ => exact .gone hpc
  · next hpc hentry _ i hconn => exact .lookup hpc hentry hconn
  · next hpc _ => exact .full hpc
  · next result _ _ _ hpc _ => exact .send result hpc
  · next hpc => exact .signal hpc
  · next hpc => exact .finish hpc

theorem signalEvalErrors_inbox (s : Sessions) (failed : List ConnectionID)
    (rest : List SessionCommand) :
    failed.foldl Sessions.signalEvalError { s with inbox := rest } =
      { failed.foldl Sessions.signalEvalError s with inbox := rest } := by
  induction failed generalizing s with
  | nil => rfl
  | cons k ks ih =>
    rw [List.foldl_cons, List.foldl_cons, ← ih]
    unfold Sessions.signalEvalError Sessions.queueDroppedClient
    congr 1
    dsimp only
    split <;> rfl

theorem commit_move {input : CommandInput} (hpc : s.executor = .idle)
    (hinbox : s.inbox = cmd :: rest)
    (hcmd : cmd = .call ∨ ∃ i, cmd = .onConnect i ∨ cmd = .onDisconnect i)
    (h : commit { s with inbox := rest } cmd input = some s') : ExecutorMove s s' := by
  obtain ⟨heval, rfl⟩ := of_guard h
  rw [signalEvalErrors_inbox]
  exact .commit hpc hinbox hcmd heval

theorem dispatch_move {input : CommandInput} (hpc : s.executor = .idle)
    (hinbox : s.inbox = cmd :: rest) (h : dispatch { s with inbox := rest } input cmd = some s') :
    ExecutorMove s s' := by
  revert h
  fun_cases dispatch { s with inbox := rest } input cmd <;> intro h
  · next hnew =>
    cases h
    exact .register hpc hinbox hnew.2
  · cases h
    exact .refuse hpc hinbox rfl nofun
  · cases h
    refine .unregister hpc hinbox ?_
    split
    · exact .inl rfl
    · exact .inr rfl
  · cases h
    exact .refuse hpc hinbox rfl nofun
  · cases h
    exact .disconnect hpc hinbox
  · next i _ => exact commit_move hpc hinbox (.inr ⟨i, .inl rfl⟩) h
  · cases h
    exact .rejectConnect hpc hinbox
  · next i _ => exact commit_move hpc hinbox (.inr ⟨i, .inr rfl⟩) h
  · cases h
    exact .failDisconnect hpc hinbox
  · exact commit_move hpc hinbox (.inl rfl) h
  · cases h
    exact .skip hpc hinbox

theorem executor_move {capacity : Nat} {a : ExecutorAction}
    (h : sessionExecutorStep capacity s a = some s') : ExecutorMove s s' := by
  revert h
  fun_cases sessionExecutorStep capacity s a
  case case1 hinbox hpc => exact dispatch_move hpc hinbox
  case case7 hpc _ _ hcmd =>
    intro h
    obtain rfl := Option.some.inj h
    exact .sendFanOut hpc hcmd
  case case11 hpc _ hcmd =>
    intro h
    obtain rfl := Option.some.inj h
    exact .drain hpc hcmd
  all_goals rintro ⟨⟩
  · next result i frame _ _ hsend hpc =>
    have hmove := ExecutorMove.undo result hpc (congrArg Prod.snd hsend)
    rwa [hsend] at hmove
  · next result i frame _ hpc _ _ hsend _ =>
    have hmove := ExecutorMove.reply result hpc
    rwa [hsend] at hmove
  · next hpc _ => exact .acceptConnect hpc
  · next hpc => exact .drainLeft hpc

/-! ## Instances stay known -/

theorem innerFrame_inbox (h : InnerFrame s s') (hrest : rest ⊆ s.inbox) :
    InnerFrame s { s' with inbox := rest } :=
  { h with inbox := hrest }

theorem ExecutorMove.innerFrame (h : ExecutorMove s s') (hs : s.Known) : InnerFrame s s' := by
  have hhead : ∀ {cmd rest i}, s.inbox = cmd :: rest → cmd.inst = some i →
      i < s.next ∧ rest ⊆ s.inbox := by
    intro cmd rest i hinbox hcmd
    refine ⟨hs.inbox cmd (hinbox ▸ List.mem_cons_self) i hcmd, ?_⟩
    exact hinbox ▸ List.subset_cons_self cmd rest
  cases h with
  | register _ hinbox _ => exact { innerFrame_refl s with inbox := (hhead hinbox rfl).2 }
  | refuse _ hinbox hcmd _ => exact { innerFrame_refl s with inbox := (hhead hinbox hcmd).2 }
  | unregister _ hinbox _ => exact { innerFrame_refl s with inbox := (hhead hinbox rfl).2 }
  | disconnect _ hinbox =>
    obtain ⟨hi, hrest⟩ := hhead hinbox rfl
    exact { innerFrame_setPhase hi .cleaned with inbox := hrest }
  | rejectConnect _ hinbox =>
    obtain ⟨hi, hrest⟩ := hhead hinbox rfl
    exact innerFrame_inbox (innerFrame_setPhase hi .rejected) hrest
  | failDisconnect _ hinbox =>
    obtain ⟨hi, hrest⟩ := hhead hinbox rfl
    exact innerFrame_inbox (innerFrame_setPhase hi .left) hrest
  | skip _ hinbox =>
    exact innerFrame_inbox (innerFrame_refl s) (hinbox ▸ List.subset_cons_self _ _)
  | @commit cmd rest input _ hinbox _ _ =>
    obtain ⟨dropped, decided, heq⟩ := signalEvalErrors_eq s input.failed
    rw [heq]
    exact { innerFrame_refl s with inbox := hinbox ▸ List.subset_cons_self cmd rest }
  | @reply i frame undo result hpc =>
    exact { innerFrame_send (hs.executor i (by rw [hpc]; rfl)) frame result with }
  | @undo i frame queryID result hpc _ =>
    exact { innerFrame_send (hs.executor i (by rw [hpc]; rfl)) frame result with }
  | sendFanOut _ _ => exact { innerFrame_refl s with }
  | acceptConnect hpc =>
    exact { innerFrame_setPhase (hs.executor _ (by rw [hpc]; rfl)) .accepted with }
  | drain _ _ => exact { innerFrame_refl s with }
  | drainLeft hpc =>
    exact { innerFrame_setPhase (hs.executor _ (by rw [hpc]; rfl)) .left with }

theorem executor_keepsKnown (h : ExecutorMove s s') (hs : s.Known) : s'.Known := by
  have hframe := h.innerFrame hs
  have hworker : s'.worker = s.worker := by
    cases h with
    | @commit cmd rest input _ _ _ _ =>
      obtain ⟨dropped, decided, heq⟩ := signalEvalErrors_eq s input.failed
      rw [heq]
    | @reply i frame undo result _ =>
      obtain ⟨c, hsend, -⟩ := send_setConn s i frame result
      rw [hsend]
      rfl
    | @undo i frame queryID result _ _ =>
      obtain ⟨c, hsend, -⟩ := send_setConn s i frame result
      rw [hsend]
      rfl
    | _ => rfl
  have hhead : ∀ {cmd rest i}, s.inbox = cmd :: rest → cmd.inst = some i → i < s.next :=
    fun hinbox hcmd => hs.inbox _ (hinbox ▸ List.mem_cons_self) _ hcmd
  refine hframe.keepsKnown hs (fun j hj => ?_) fun j entry msg hj => hs.worker j entry msg
    (hworker ▸ hj)
  cases h with
  | register _ hinbox _ | unregister _ hinbox _ =>
    cases hj
    exact hhead hinbox rfl
  | refuse _ hinbox hcmd _ =>
    cases hj
    exact hhead hinbox hcmd
  | commit _ hinbox _ _ => exact hhead hinbox hj
  | disconnect hpc _ | rejectConnect hpc _ | failDisconnect hpc _ | skip hpc _ =>
    exact hs.executor j hj
  | reply _ _ | undo _ _ _ | drain _ _ | drainLeft _ => cases hj
  | sendFanOut hpc _ | acceptConnect hpc => exact hs.executor j (hpc ▸ hj)

theorem worker_keepsKnown (h : WorkerMove s s') (hs : s.Known) : s'.Known := by
  have hnext : ∀ {i entry msg}, s.worker = .sending i entry msg → i < s.next :=
    fun hpc => (hs.worker _ _ _ hpc).1
  cases h with
  | take | gone | finish => exact { hs with worker := nofun }
  | @lookup msg entry i _ _ hconn =>
    refine { hs with worker := fun j entry' msg' hj => ?_ }
    cases hj
    exact hs.registered entry.1 i hconn
  | full hpc =>
    have hframe := @innerFrame_setConn s _ (hnext hpc) { s.conns _ with
      inboundStopped := true, outboundStopped := true } rfl
    exact InnerFrame.keepsKnown { hframe with } hs hs.executor nofun
  | @send i entry msg result hpc =>
    have hframe := innerFrame_send (hnext hpc) (.update msg.txID entry.2) result
    refine InnerFrame.keepsKnown { hframe with } hs (fun j hj => hs.executor j ?_) nofun
    rw [← hj]
    obtain h | h | h := send_cases s i (.update msg.txID entry.2) result <;> rw [h] <;> rfl
  | signal =>
    have hframe := innerFrame_refl s
    refine @InnerFrame.keepsKnown s _ ?_ hs (fun i hi => hs.executor i ?_) nofun
    · unfold Sessions.queueDroppedClient
      split <;> exact { hframe with }
    · rw [← hi]
      unfold Sessions.queueDroppedClient
      split <;> rfl

theorem session_keepsKnown {capacity : Nat} {a : SessionAction} (hs : s.Known)
    (h : sessionStep capacity s a = some s') : s'.Known := by
  cases a with
  | reserve id => exact reserve_keepsKnown hs h
  | conn i action => exact (connStep_effect h).keepsKnown hs
  | call =>
    cases h
    refine { hs with inbox := fun cmd hcmd i hi => ?_ }
    rcases List.mem_append.mp hcmd with hcmd | hcmd
    · exact hs.inbox cmd hcmd i hi
    · rw [List.mem_singleton] at hcmd
      subst hcmd
      cases hi
  | executor action => exact executor_keepsKnown (executor_move h) hs
  | worker action => exact worker_keepsKnown (worker_move h) hs

end Moves

end Shunter.Protocol
