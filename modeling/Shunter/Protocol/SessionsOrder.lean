import Shunter.Protocol.SessionsKnown

/-!
# A subscription receives its own updates

A registration at transaction `t` is answered on the queue of its connection.
The updates that are still on their way carry the connection ID and the query
ID only.  If none of them is for the pair that is registered, then every later
one stems from a transaction after `t`.
-/

namespace Shunter.Protocol

open Foundation

/-! ## Updates on their way -/

def ExecutorPC.messages : ExecutorPC → List SessionUpdate
  | .broadcast msg _ => [msg]
  | _ => []

def FanOutPC.messages : FanOutPC → List SessionUpdate
  | .idle => []
  | .delivering msg | .signalling _ _ msg => [msg]
  | .sending _ entry msg => [{ msg with entries := entry :: msg.entries }]

def Sessions.undelivered (s : Sessions) : List SessionUpdate :=
  s.worker.messages ++ s.fanout ++ s.executor.messages

def SessionUpdate.has (msg : SessionUpdate) (connID : ConnectionID) (queryID : UInt32) : Bool :=
  msg.entries.any fun entry => entry.1 = connID ∧ queryID ∈ entry.2

def Sessions.awaits (s : Sessions) (connID : ConnectionID) (queryID : UInt32) : Bool :=
  s.undelivered.any fun msg => msg.has connID queryID

/-- A register command is received only when no update for its connection ID and query ID is
undelivered. -/
def freshQuery (s : Sessions) : SessionAction → Bool
  | .executor (.receive _) =>
    match s.executor, s.inbox with
    | .idle, .register i queryID _ :: _ => !s.awaits (s.conns i).id queryID
    | _, _ => true
  | _ => true

/-- An update after the answer of a registration stems from a later transaction. -/
def OutFrame.Allows : OutFrame → OutFrame → Prop
  | .subscribeApplied queryID registeredAt, .update txID queryIDs =>
    queryID ∈ queryIDs → registeredAt < txID
  | _, _ => True

/-- A registration at `t` that is answered, or about to be. -/
def Sessions.Marked (s : Sessions) (i : Nat) (queryID : UInt32) (t : Nat) : Prop :=
  .subscribeApplied queryID t ∈ (s.conns i).frames ∨
    ∃ undo, s.executor = .replying i (.subscribeApplied queryID t) undo

structure Sessions.Ordered (s : Sessions) : Prop where
  bound : ∀ msg ∈ s.undelivered, msg.txID ≤ s.lastTx
  marked : ∀ i queryID t, s.Marked i queryID t → t ≤ s.lastTx ∧
    ∀ msg ∈ s.undelivered, msg.has (s.conns i).id queryID = true → t < msg.txID
  frames : ∀ i, (s.conns i).frames.Pairwise OutFrame.Allows
  reply : ∀ i txID queryIDs undo, s.executor ≠ .replying i (.update txID queryIDs) undo

theorem ordered_initial : Sessions.initial.Ordered where
  bound _ h := nomatch h
  marked _ _ _ h := by
    rcases h with h | ⟨_, h⟩
    · cases h
    · cases h
  frames _ := .nil
  reply _ _ _ _ := nofun

variable {msg : SessionUpdate}

theorem has_of_subset {msg' : SessionUpdate} (h : msg'.entries ⊆ msg.entries)
    {connID : ConnectionID} {queryID : UInt32} (hhas : msg'.has connID queryID = true) :
    msg.has connID queryID = true := by
  obtain ⟨entry, hentry, hmatch⟩ := List.any_eq_true.mp hhas
  exact List.any_eq_true.mpr ⟨entry, h hentry, hmatch⟩

/-! ## Steps that put nothing and commit nothing -/

structure Quiet (s s' : Sessions) : Prop where
  ids : ∀ i queryID t, s.Marked i queryID t → (s'.conns i).id = (s.conns i).id
  frames : ∀ i, (s'.conns i).frames = (s.conns i).frames
  lastTx : s'.lastTx = s.lastTx
  undelivered : ∀ msg' ∈ s'.undelivered, ∃ msg ∈ s.undelivered,
    msg'.txID = msg.txID ∧ msg'.entries ⊆ msg.entries
  replying : ∀ i frame undo, s'.executor = .replying i frame undo →
    s.executor = s'.executor ∨ frame = .other ∨ ∃ queryID, frame = .unsubscribeApplied queryID

theorem Quiet.keepsOrdered {s s' : Sessions} (h : Quiet s s') (hs : s.Ordered) : s'.Ordered where
  bound msg' hmsg' := by
    obtain ⟨msg, hmsg, htx, -⟩ := h.undelivered msg' hmsg'
    rw [htx, h.lastTx]
    exact hs.bound msg hmsg
  marked i queryID t hmark := by
    have hbefore : s.Marked i queryID t := by
      rcases hmark with hframe | ⟨undo, hpc⟩
      · rw [h.frames] at hframe
        exact .inl hframe
      · obtain hsame | hother | ⟨_, hother⟩ := h.replying i _ undo hpc
        · exact .inr ⟨undo, hsame.trans hpc⟩
        · cases hother
        · cases hother
    obtain ⟨hle, hafter⟩ := hs.marked i queryID t hbefore
    refine ⟨h.lastTx ▸ hle, fun msg' hmsg' hhas => ?_⟩
    obtain ⟨msg, hmsg, htx, hentries⟩ := h.undelivered msg' hmsg'
    rw [h.ids i queryID t hbefore] at hhas
    rw [htx]
    exact hafter msg hmsg (has_of_subset hentries hhas)
  frames i := by
    rw [h.frames]
    exact hs.frames i
  reply i txID queryIDs undo hpc := by
    obtain hsame | hother | ⟨_, hother⟩ := h.replying i _ undo hpc
    · exact hs.reply i txID queryIDs undo (hsame.trans hpc)
    · cases hother
    · cases hother

theorem mem_undelivered_self {s : Sessions} {msgs : List SessionUpdate}
    (h : msgs ⊆ s.undelivered) : ∀ msg' ∈ msgs, ∃ msg ∈ s.undelivered,
      msg'.txID = msg.txID ∧ msg'.entries ⊆ msg.entries :=
  fun msg' hmsg' => ⟨msg', h hmsg', rfl, List.Subset.refl _⟩

variable {i : Nat} {frame : OutFrame}

section Steps

variable {s s' : Sessions}

theorem ConnEffect.quiet (h : ConnEffect s i s') : Quiet s s' where
  ids j _ _ _ := h.ids j
  frames := h.allFrames
  lastTx := h.lastTx
  undelivered := mem_undelivered_self (by
    rw [Sessions.undelivered, Sessions.undelivered, h.worker, h.fanout, h.executor]
    exact List.Subset.refl _)
  replying _ _ _ _ := .inl h.executor.symm

theorem reserve_quiet (hs : s.Known) {id : ConnectionID} (h : reserve s id = some s') :
    Quiet s s' := by
  obtain ⟨-, rfl⟩ := of_guard h
  refine ⟨fun i queryID t hmark => ?_, fun i => ?_, rfl, mem_undelivered_self
    (List.Subset.refl _), fun _ _ _ _ => .inl rfl⟩
  · have hne : i ≠ s.next := by
      rintro rfl
      rcases hmark with hframe | ⟨undo, hpc⟩
      · rw [(hs.fresh s.next (Nat.le_refl _)).1] at hframe
        cases hframe
      · exact Nat.lt_irrefl _ (hs.executor s.next (by rw [hpc]; rfl))
    exact congrArg SessionConn.id (s.setConn_of_ne _ hne)
  · by_cases hi : i = s.next
    · subst hi
      rw [(hs.fresh s.next (Nat.le_refl _)).1]
      exact congrArg SessionConn.frames (s.setConn_self s.next _)
    · exact congrArg SessionConn.frames (s.setConn_of_ne _ hi)

theorem quiet_setConn {c : SessionConn} (hid : c.id = (s.conns i).id)
    (hframes : c.frames = (s.conns i).frames) : Quiet s (s.setConn i c) where
  ids j _ _ _ := s.setConn_id i hid j
  frames j := by
    by_cases hj : j = i
    · subst hj
      rw [Sessions.setConn_self, hframes]
    · rw [s.setConn_of_ne c hj]
  lastTx := rfl
  undelivered := mem_undelivered_self (List.Subset.refl _)
  replying _ _ _ _ := .inl rfl

theorem quiet_setPhase (i : Nat) (phase : ConnPhase) : Quiet s (s.setPhase i phase) :=
  quiet_setConn rfl rfl

theorem quiet_executor {pc : ExecutorPC} (hmessages : pc.messages = [])
    (hpc : ∀ i frame undo, pc = .replying i frame undo →
      frame = .other ∨ ∃ queryID, frame = .unsubscribeApplied queryID) :
    Quiet s { s with executor := pc } where
  ids _ _ _ _ := rfl
  frames _ := rfl
  lastTx := rfl
  undelivered := mem_undelivered_self (by
    rw [Sessions.undelivered, hmessages, List.append_nil]
    exact List.subset_append_left _ _)
  replying i frame undo h := .inr (hpc i frame undo h)

theorem put_ordered (hs : s.Ordered) {c : SessionConn} (hid : c.id = (s.conns i).id)
    (hframes : c.frames = (s.conns i).frames ++ [frame])
    (hallow : ∀ earlier ∈ (s.conns i).frames, earlier.Allows frame)
    (hmark : ∀ queryID t, frame = .subscribeApplied queryID t → s.Marked i queryID t) :
    (s.setConn i c).Ordered := by
  refine { hs with marked := fun j queryID t hj => ?_, frames := fun j => ?_ }
  · rw [s.setConn_id i hid]
    refine hs.marked j queryID t ?_
    rcases hj with hframe | hpc
    · by_cases hji : j = i
      · subst hji
        rw [Sessions.setConn_self, hframes, List.mem_append, List.mem_singleton] at hframe
        rcases hframe with hframe | hframe
        · exact .inl hframe
        · exact hmark queryID t hframe.symm
      · rw [s.setConn_of_ne _ hji] at hframe
        exact .inl hframe
    · exact .inr hpc
  · by_cases hji : j = i
    · subst hji
      rw [Sessions.setConn_self, hframes]
      refine List.pairwise_append.mpr ⟨hs.frames j, List.pairwise_singleton _ _, ?_⟩
      intro earlier hearlier later hlater
      rw [List.mem_singleton] at hlater
      subst hlater
      exact hallow earlier hearlier
    · rw [s.setConn_of_ne _ hji]
      exact hs.frames j

theorem send_ordered (hs : s.Ordered)
    (hallow : ∀ earlier ∈ (s.conns i).frames, earlier.Allows frame)
    (hmark : ∀ queryID t, frame = .subscribeApplied queryID t → s.Marked i queryID t)
    (result : PutResult) : (s.send i frame result).1.Ordered := by
  obtain h | h | h := send_cases s i frame result
  · rw [h]
    exact hs
  · rw [h]
    exact put_ordered hs rfl rfl hallow hmark
  · rw [h]
    exact Quiet.keepsOrdered (quiet_setConn (by rfl) (by rfl)) hs

theorem allows_of_not_update {earlier : OutFrame}
    (h : ∀ txID queryIDs, frame ≠ .update txID queryIDs) : earlier.Allows frame := by
  cases frame with
  | update txID queryIDs => exact absurd rfl (h txID queryIDs)
  | _ => cases earlier <;> trivial

theorem register_ordered (hs : s.Ordered) {queryID : UInt32} {rest : List SessionCommand}
    {undo : Option UInt32} (hpc : s.executor = .idle)
    (hfresh : s.awaits (s.conns i).id queryID = false) :
    Sessions.Ordered { s.registerSet i queryID with
      inbox := rest
      executor := .replying i (.subscribeApplied queryID s.lastTx) undo } := by
  have hsame : ∀ msg, msg ∈ s.worker.messages ++ s.fanout ++ [] ↔ msg ∈ s.undelivered := by
    intro msg
    rw [Sessions.undelivered, hpc]
    rfl
  refine ⟨fun msg hmsg => hs.bound msg ((hsame msg).mp hmsg), fun j queryID' t hmark => ?_,
    hs.frames, nofun⟩
  rcases hmark with hframe | ⟨_, hreply⟩
  · obtain ⟨hle, hafter⟩ := hs.marked j queryID' t (.inl hframe)
    exact ⟨hle, fun msg hmsg => hafter msg ((hsame msg).mp hmsg)⟩
  · cases hreply
    refine ⟨Nat.le_refl _, fun msg hmsg hhas => ?_⟩
    have hawaits : s.awaits (s.conns i).id queryID = true :=
      List.any_eq_true.mpr ⟨msg, (hsame msg).mp hmsg, hhas⟩
    rw [hfresh] at hawaits
    cases hawaits

theorem commit_ordered (hs : s.Ordered) {cmd : SessionCommand} {rest : List SessionCommand}
    {input : CommandInput} :
    Sessions.Ordered { input.failed.foldl Sessions.signalEvalError s with
      inbox := rest
      lastTx := s.lastTx + 1
      executor := .broadcast ⟨s.lastTx + 1, input.touched⟩ cmd } := by
  obtain ⟨dropped, decided, heq⟩ := signalEvalErrors_eq s input.failed
  rw [heq]
  have hcases : ∀ msg, msg ∈ s.worker.messages ++ s.fanout ++ [⟨s.lastTx + 1, input.touched⟩] →
      msg ∈ s.undelivered ∨ msg.txID = s.lastTx + 1 := by
    intro msg hmsg
    rcases List.mem_append.mp hmsg with hold | hnew
    · rw [Sessions.undelivered]
      exact .inl (List.mem_append_left _ hold)
    · rw [List.mem_singleton] at hnew
      exact .inr (by rw [hnew])
  refine ⟨fun msg hmsg => ?_, fun j queryID t hmark => ?_, hs.frames, nofun⟩
  · rcases hcases msg hmsg with hold | hnew
    · exact Nat.le_succ_of_le (hs.bound msg hold)
    · exact Nat.le_of_eq hnew
  · rcases hmark with hframe | ⟨_, hreply⟩
    · obtain ⟨hle, hafter⟩ := hs.marked j queryID t (.inl hframe)
      refine ⟨Nat.le_succ_of_le hle, fun msg hmsg hhas => ?_⟩
      rcases hcases msg hmsg with hold | hnew
      · exact hafter msg hold hhas
      · rw [hnew]
        exact Nat.lt_succ_of_le hle
    · cases hreply

theorem reply_ordered (hs : s.Ordered) {undo : Option UInt32}
    (hpc : s.executor = .replying i frame undo) (result : PutResult) :
    (s.send i frame result).1.Ordered := by
  refine send_ordered hs (fun earlier _ => ?_) (fun queryID t hframe => ?_) result
  · refine allows_of_not_update fun txID queryIDs hupdate => ?_
    subst hupdate
    exact hs.reply i txID queryIDs undo hpc
  · subst hframe
    exact .inr ⟨undo, hpc⟩

theorem quiet_idle : Quiet s { s with executor := .idle } :=
  quiet_executor rfl nofun

theorem undelivered_sendFanOut {cmd : SessionCommand} (hpc : s.executor = .broadcast msg cmd) :
    s.worker.messages ++ (s.fanout ++ [msg]) ++ [] ⊆ s.undelivered := by
  rw [Sessions.undelivered, hpc, List.append_nil, ← List.append_assoc]
  exact List.Subset.refl _

theorem executor_ordered (hs : s.Ordered) (h : ExecutorMove s s')
    (hfresh : ∀ i queryID aware rest, s.executor = .idle →
      s.inbox = .register i queryID aware :: rest → s.awaits (s.conns i).id queryID = false) :
    s'.Ordered := by
  cases h with
  | register hpc hinbox _ => exact register_ordered hs hpc (hfresh _ _ _ _ hpc hinbox)
  | @refuse i =>
    have hquiet := @quiet_executor s (.replying i .other none) rfl
      (fun _ _ _ h => by cases h; exact .inl rfl)
    exact Quiet.keepsOrdered { hquiet with } hs
  | @unregister i queryID rest frame _ _ hframe =>
    have hquiet := @quiet_executor s (.replying i frame none) rfl
      (fun _ _ _ h => by cases h; exact hframe.symm.imp id fun h => ⟨queryID, h⟩)
    exact Quiet.keepsOrdered { hquiet with } hs
  | @disconnect i => exact Quiet.keepsOrdered { @quiet_setPhase s i .cleaned with } hs
  | @rejectConnect i => exact Quiet.keepsOrdered { @quiet_setPhase s i .rejected with } hs
  | @failDisconnect i => exact Quiet.keepsOrdered { @quiet_setPhase s i .left with } hs
  | skip => exact { hs with }
  | commit => exact commit_ordered hs
  | reply result hpc => exact quiet_idle.keepsOrdered (reply_ordered hs hpc result)
  | @undo i frame queryID result hpc _ =>
    have hquiet := @quiet_idle (s.send i frame result).1
    exact Quiet.keepsOrdered { hquiet with } (reply_ordered hs hpc result)
  | @sendFanOut msg cmd hpc _ =>
    exact Quiet.keepsOrdered (s := s) ⟨fun _ _ _ _ => rfl, fun _ => rfl, rfl,
      mem_undelivered_self (undelivered_sendFanOut hpc), nofun⟩ hs
  | @acceptConnect msg i hpc =>
    have hquiet := @quiet_setPhase s i .accepted
    exact Quiet.keepsOrdered { hquiet with
      undelivered := mem_undelivered_self (undelivered_sendFanOut hpc)
      replying := nofun } hs
  | drain =>
    have hquiet := @quiet_idle s
    exact Quiet.keepsOrdered { hquiet with } hs
  | @drainLeft i hpc =>
    have hquiet := @quiet_setPhase { s with executor := .idle } i .left
    have hidle := quiet_idle.keepsOrdered hs
    exact Quiet.keepsOrdered { hquiet with } hidle

theorem quiet_worker {pc : FanOutPC} {msg msg' : SessionUpdate} (hmsg : s.worker.messages = [msg])
    (hpc : pc.messages = [msg']) (htx : msg'.txID = msg.txID)
    (hentries : msg'.entries ⊆ msg.entries) : Quiet s { s with worker := pc } where
  ids _ _ _ _ := rfl
  frames _ := rfl
  lastTx := rfl
  undelivered msg'' h := by
    change msg'' ∈ pc.messages ++ s.fanout ++ s.executor.messages at h
    rw [hpc] at h
    rw [Sessions.undelivered, hmsg]
    rcases List.mem_cons.mp h with rfl | hrest
    · exact ⟨msg, List.mem_cons_self, htx, hentries⟩
    · exact ⟨msg'', List.mem_cons_of_mem _ hrest, rfl, List.Subset.refl _⟩
  replying _ _ _ _ := .inl rfl

/-- The update that the worker sends is allowed after everything on the queue: it is still on its
way, so it is later than every registration that was answered there. -/
theorem update_allowed (hk : s.Known) (hs : s.Ordered) {entry : ConnectionID × List UInt32}
    (hpc : s.worker = .sending i entry msg) {earlier : OutFrame}
    (hearlier : earlier ∈ (s.conns i).frames) : earlier.Allows (.update msg.txID entry.2) := by
  cases earlier with
  | subscribeApplied queryID t =>
    intro hquery
    have hmem : { msg with entries := entry :: msg.entries } ∈ s.undelivered := by
      rw [Sessions.undelivered, hpc]
      exact List.mem_cons_self
    refine (hs.marked i queryID t (.inl hearlier)).2
      { msg with entries := entry :: msg.entries } hmem ?_
    refine List.any_eq_true.mpr ⟨entry, List.mem_cons_self, ?_⟩
    simp [(hk.worker i entry msg hpc).2, hquery]
  | _ => trivial

theorem send_worker (s : Sessions) (i : Nat) (frame : OutFrame) (result : PutResult) :
    (s.send i frame result).1.worker = s.worker := by
  obtain h | h | h := send_cases s i frame result <;> rw [h] <;> rfl

theorem worker_ordered (hk : s.Known) (hs : s.Ordered) (h : WorkerMove s s') : s'.Ordered := by
  cases h with
  | @take msg rest hpc hfanout =>
    have hsame : s.undelivered = [msg] ++ rest ++ s.executor.messages := by
      rw [Sessions.undelivered, hpc, hfanout]
      rfl
    have hquiet : Quiet s { s with worker := .delivering msg, fanout := rest } :=
      ⟨fun _ _ _ _ => rfl, fun _ => rfl, rfl,
        mem_undelivered_self (hsame ▸ List.Subset.refl _), fun _ _ _ _ => .inl rfl⟩
    exact hquiet.keepsOrdered hs
  | gone hpc =>
    exact (quiet_worker (congrArg FanOutPC.messages hpc) rfl (by rfl)
      List.erase_subset).keepsOrdered hs
  | lookup hpc hentry _ =>
    exact (quiet_worker (congrArg FanOutPC.messages hpc) rfl (by rfl)
      (List.cons_subset.mpr ⟨hentry, List.erase_subset⟩)).keepsOrdered hs
  | @full i entry msg hpc =>
    have hstopped : (s.requestDisconnect i).Ordered :=
      Quiet.keepsOrdered (quiet_setConn (by rfl) (by rfl)) hs
    have hquiet := @quiet_worker (s.requestDisconnect i) (.signalling i entry.1 msg)
      { msg with entries := entry :: msg.entries } msg (congrArg FanOutPC.messages hpc) rfl rfl
      (List.subset_cons_self _ _)
    exact Quiet.keepsOrdered { hquiet with } hstopped
  | @send i entry msg result hpc =>
    have hsent := send_ordered hs (fun _ => update_allowed hk hs hpc) nofun result
    have hworker := (send_worker s i (.update msg.txID entry.2) result).trans hpc
    exact (quiet_worker (congrArg FanOutPC.messages hworker) rfl (by rfl)
      (List.subset_cons_self entry _)).keepsOrdered hsent
  | @signal i connID msg hpc =>
    have hquiet := @quiet_worker s (.delivering msg) msg msg
      (congrArg FanOutPC.messages hpc) rfl rfl (List.Subset.refl _)
    unfold Sessions.queueDroppedClient
    split
    · exact hquiet.keepsOrdered hs
    · exact Quiet.keepsOrdered { hquiet with } hs
  | @finish msg hpc =>
    have hsame : s.undelivered = msg :: (s.fanout ++ s.executor.messages) := by
      rw [Sessions.undelivered, hpc]
      rfl
    have hquiet : Quiet s { s with worker := .idle } :=
      ⟨fun _ _ _ _ => rfl, fun _ => rfl, rfl,
        mem_undelivered_self (hsame ▸ List.subset_cons_self _ _), fun _ _ _ _ => .inl rfl⟩
    exact hquiet.keepsOrdered hs

theorem receive_of_idle {capacity : Nat} {a : ExecutorAction} (hpc : s.executor = .idle)
    (h : sessionExecutorStep capacity s a = some s') : ∃ input, a = .receive input := by
  cases a with
  | receive input => exact ⟨input, rfl⟩
  | reply | sendFanOut | drainDroppedClients =>
    rw [sessionExecutorStep, hpc] at h
    cases h

theorem session_ordered {capacity : Nat} {a : SessionAction} (hs : s.Known ∧ s.Ordered)
    (hfresh : freshQuery s a = true) (h : sessionStep capacity s a = some s') :
    s'.Known ∧ s'.Ordered := by
  obtain ⟨hknown, hordered⟩ := hs
  refine ⟨session_keepsKnown hknown h, ?_⟩
  cases a with
  | reserve id => exact (reserve_quiet hknown h).keepsOrdered hordered
  | conn i action => exact (connStep_effect h).quiet.keepsOrdered hordered
  | call =>
    cases h
    exact { hordered with }
  | executor action =>
    change sessionExecutorStep capacity s action = some s' at h
    refine executor_ordered hordered (executor_move h) fun i queryID aware rest hpc hinbox => ?_
    obtain ⟨input, rfl⟩ := receive_of_idle hpc h
    simpa [freshQuery, hpc, hinbox] using hfresh
  | worker action => exact worker_ordered hknown hordered (worker_move h)

end Steps

/-! ## Runs -/

/-- In the order of the frames, every update for a query after the answer of its registration, with
no answer of an unregistration between them, stems from a later transaction. -/
def OwnUpdates (frames : List OutFrame) : Prop :=
  ∀ before between after queryID registeredAt txID queryIDs,
    frames = before ++ .subscribeApplied queryID registeredAt :: between ++
      .update txID queryIDs :: after →
    queryID ∈ queryIDs → .unsubscribeApplied queryID ∉ between → registeredAt < txID

theorem ownUpdates_of_pairwise {frames : List OutFrame} (h : frames.Pairwise OutFrame.Allows) :
    OwnUpdates frames := by
  intro before between after queryID registeredAt txID queryIDs hframes hquery _
  rw [hframes, List.pairwise_append] at h
  exact h.2.2 (.subscribeApplied queryID registeredAt) (by simp) (.update txID queryIDs)
    List.mem_cons_self hquery

/-- In every run in which no register command is received while an update for its connection ID
and query ID is undelivered, subscriptions receive only their own updates. -/
theorem subscriptions_own_updates (capacity : Nat) (actions : List SessionAction) (s : Sessions)
    (hfresh : stepsMeet (sessionStep capacity) freshQuery Sessions.initial actions = true)
    (hrun : actions.foldlM (sessionStep capacity) Sessions.initial = some s) (i : Nat) :
    OwnUpdates (s.conns i).frames := by
  have hinv := invariant_of_stepsMeet (fun _ _ _ => session_ordered)
    ⟨known_initial, ordered_initial⟩ hfresh hrun
  exact ownUpdates_of_pairwise (hinv.2.frames i)

/-! ## A query ID that is used again -/

section Reuse

def phoneID : ConnectionID := List.Vector.replicate 16 1

def accepted : CommandInput := ⟨true, true, [], []⟩

def touches (queryID : UInt32) : CommandInput := ⟨true, true, [(phoneID, [queryID])], []⟩

def connectRun (i : Nat) : List SessionAction :=
  [.reserve phoneID, .conn i .onConnect, .executor (.receive accepted), .executor .sendFanOut,
    .executor .drainDroppedClients, .conn i .add, .conn i .beginInboundHandler]

def subscribeRun (i : Nat) (queryID : UInt32) : List SessionAction :=
  [.conn i (.subscribe queryID false), .executor (.receive accepted), .executor (.reply .put)]

def unsubscribeRun (i : Nat) (queryID : UInt32) : List SessionAction :=
  [.conn i (.unsubscribe queryID), .executor (.receive accepted), .executor (.reply .put)]

def commitRun (queryID : UInt32) : List SessionAction :=
  [.call, .executor (.receive (touches queryID)), .executor .sendFanOut,
    .executor .drainDroppedClients]

def reachCommit : List SessionAction := [.worker .take, .worker .finish, .worker .take]

def deliverRun (queryID : UInt32) : List SessionAction :=
  [.worker (.lookup (phoneID, [queryID])), .worker (.send .put)]

def patientRun : List SessionAction :=
  connectRun 0 ++ subscribeRun 0 7 ++ commitRun 7 ++ unsubscribeRun 0 7 ++ reachCommit ++
    deliverRun 7 ++ subscribeRun 0 7

def hastyRun : List SessionAction :=
  connectRun 0 ++ subscribeRun 0 7 ++ commitRun 7 ++ unsubscribeRun 0 7 ++ subscribeRun 0 7 ++
    reachCommit ++ deliverRun 7

theorem patientRun_own_updates :
    ∃ s, patientRun.foldlM (sessionStep 8) Sessions.initial = some s ∧
      (s.conns 0).frames = [.subscribeApplied 7 1, .unsubscribeApplied 7, .update 2 [7],
        .subscribeApplied 7 2] ∧ OwnUpdates (s.conns 0).frames :=
  ⟨_, rfl, rfl, subscriptions_own_updates 8 patientRun _ rfl rfl 0⟩

theorem hastyRun_foreign_update :
    ∃ s, hastyRun.foldlM (sessionStep 8) Sessions.initial = some s ∧
      (s.conns 0).frames = [.subscribeApplied 7 1, .unsubscribeApplied 7, .subscribeApplied 7 2,
        .update 2 [7]] ∧ ¬ OwnUpdates (s.conns 0).frames := by
  refine ⟨_, rfl, rfl, fun h => ?_⟩
  have hlater := h [.subscribeApplied 7 1, .unsubscribeApplied 7] [] [] 7 2 2 [7] rfl
    List.mem_cons_self List.not_mem_nil
  exact Nat.lt_irrefl 2 hlater

end Reuse

end Shunter.Protocol
