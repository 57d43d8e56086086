import Shunter.Protocol.SessionsOrder
import Shunter.Protocol.SessionsOwned

/-!
# Sets belong to one instance: runs

The executor receives the clean-up command of an instance behind all commands
for its sets, so what it removes for an instance belongs to that instance.  A
drop removes the sets of an ID, whoever holds it at the time of the drain.
-/

namespace Shunter.Protocol

open Foundation

/-! ## Parts of a step -/

variable {i : Nat} {rest : List SessionCommand} {cmd : SessionCommand}
  {cause : QuerySet → RemovalCause}

section Parts

variable {s : Sessions}

theorem Sessions.Owned.pop (h : s.Owned) (hpc : s.executor = .idle)
    (hinbox : s.inbox = cmd :: rest)
    (hcmd : ∀ i, cmd = .disconnectClient i → ∀ q ∈ s.querySets, q.owner ≠ i) :
    Sessions.Owned { s with inbox := rest } := by
  have hfits := h.fits
  rw [hpc, hinbox] at hfits
  refine { h with
    fits := ?_
    sets := fun q hq => ⟨(h.sets q hq).1, ?_⟩
    undo := fun i frame queryID hi => ?_ }
  · change FitsAll s.conns (s.executor.owes ++ rest)
    rw [hpc]
    exact hfits.2
  · refine (h.sets q hq).2.imp id fun hi => ⟨hi.1, ?_⟩
    rw [hinbox] at hi
    rcases List.mem_cons.mp hi.2 with heq | hmem
    · exact absurd rfl (hcmd q.owner heq.symm q hq)
    · exact hmem
  · cases hpc.symm.trans hi

theorem Sessions.Signalled.pop (h : s.Signalled) (hinbox : s.inbox = cmd :: rest) :
    Sessions.Signalled { s with inbox := rest } := by
  refine { h with ready := fun hpc i hi => h.ready hpc i (hi.imp id fun hi => ?_) }
  exact hi.congr rfl (hinbox ▸ List.subset_cons_self cmd rest)

theorem Sessions.Owned.setExecutor (h : s.Owned) {pc : ExecutorPC}
    (hfits : FitsAll s.conns (pc.owes ++ s.inbox))
    (hundo : ∀ i frame queryID, pc = .replying i frame (some queryID) → s.Active i) :
    Sessions.Owned { s with executor := pc } :=
  { h with fits := hfits, undo := hundo }

theorem Sessions.Signalled.setExecutor (h : s.Signalled) {pc : ExecutorPC}
    (hpc : (∀ cmd, pc ≠ .drain cmd) → ∀ cmd, s.executor ≠ .drain cmd) :
    Sessions.Signalled { s with executor := pc } :=
  { h with ready := fun hne => h.ready (hpc hne) }

theorem Sessions.Owned.registerSet (h : s.Owned) (hi : s.Active i) (queryID : UInt32) :
    (s.registerSet i queryID).Owned := by
  refine { h with sets := fun q hq => ?_ }
  rcases List.mem_append.mp hq with hq | hq
  · exact h.sets q hq
  · rw [List.mem_singleton] at hq
    subst hq
    exact ⟨rfl, hi⟩

theorem Sessions.Signalled.registerSet (h : s.Signalled) (hi : s.Active i)
    (hpc : s.executor = .idle) (queryID : UInt32) : (s.registerSet i queryID).Signalled := by
  refine { h with sets := fun q hq hdropped => ?_ }
  rcases List.mem_append.mp hq with hq | hq
  · exact h.sets q hq hdropped
  · rw [List.mem_singleton] at hq
    subst hq
    exact h.ready (fun cmd hcmd => by rw [hpc] at hcmd; cases hcmd) i (.inr hi) hdropped

theorem Sessions.Owned.removeSets (h : s.Owned) {gone : QuerySet → Bool}
    (hown : ∀ q ∈ s.querySets, gone q = true → (cause q).Own q.owner) :
    (s.removeSets gone cause).Owned := by
  refine { h with
    sets := fun q hq => h.sets q (List.mem_filter.mp hq).1
    removals := fun r hr => ?_ }
  rcases List.mem_append.mp hr with hr | hr
  · exact h.removals r hr
  · obtain ⟨q, hq, rfl⟩ := List.mem_map.mp hr
    obtain ⟨hmem, hgone⟩ := List.mem_filter.mp hq
    exact hown q hmem hgone

theorem Sessions.Signalled.removeSets (h : s.Signalled) {gone : QuerySet → Bool} :
    (s.removeSets gone cause).Signalled :=
  { h with sets := fun q hq => h.sets q (List.mem_filter.mp hq).1 }

theorem Sessions.Owned.unregisterSet (h : s.Owned) (hi : s.Active i) (queryID : UInt32) :
    (s.unregisterSet i queryID).Owned := by
  refine h.removeSets fun q hq hgone => ?_
  have hid : q.connID = (s.conns i).id := (of_decide_eq_true hgone).1
  exact (h.owner_eq hq hi hid).symm

theorem send_owned (h : s.Owned) (i : Nat) (frame : OutFrame) (result : PutResult) :
    (s.send i frame result).1.Owned := by
  obtain ⟨c, hsend, hid, hphase, hcount⟩ := send_setConn s i frame result
  rw [hsend]
  exact h.flags hid hphase (by rw [hcount, hphase]; exact h.handlers i)

theorem send_signalled (h : s.Signalled) (i : Nat) (frame : OutFrame) (result : PutResult) :
    (s.send i frame result).1.Signalled := by
  obtain ⟨c, hsend, hid, hphase, -⟩ := send_setConn s i frame result
  rw [hsend]
  exact h.flags hid hphase

theorem send_active {frame : OutFrame} {result : PutResult} {j : Nat} (h : s.Active j) :
    (s.send i frame result).1.Active j := by
  obtain ⟨c, hsend, -, hphase, -⟩ := send_setConn s i frame result
  rw [hsend]
  exact h.congr (setConn_phase hphase j) (List.Subset.refl _)

theorem Sessions.Owned.answer (h : s.Owned) {phase : ConnPhase}
    (hold : (s.conns i).phase = .connecting ∨ (s.conns i).phase = .leaving)
    (hhold : phase.holding = (s.conns i).phase.holding)
    (hadmitting : phase.admitting = true → (s.conns i).phase.admitting = true)
    (hfits : FitsAll s.conns (s.executor.owes ++ s.inbox))
    (hnone : ∀ cmd ∈ s.executor.owes ++ s.inbox, cmd.inst ≠ some i) :
    (s.setPhase i phase).Owned := by
  have hserving : (s.conns i).phase.serving = false := by
    rcases hold with hold | hold <;> rw [hold] <;> rfl
  refine h.setConn rfl hhold hadmitting (fun hhandlers => ?_) (fun _ hactive => ?_)
    (fitsAll_setConn hfits hnone)
  · have := h.handlers i hhandlers
    rw [hserving] at this
    cases this
  · rcases hactive with hactive | ⟨hcleaning, -⟩
    · rw [hserving] at hactive
      cases hactive
    · rcases hold with hold | hold <;> rw [hold] at hcleaning <;> cases hcleaning

end Parts

section Executor

variable {s s' : Sessions}

theorem receive_fits (h : s.Owned) (hpc : s.executor = .idle) (hinbox : s.inbox = cmd :: rest) :
    cmd.Fits s.conns rest ∧ FitsAll s.conns rest := by
  have hfits := h.fits
  rw [hpc, hinbox] at hfits
  exact hfits

theorem owes_idle (hpc : s.executor = .idle) (hlast : ∀ cmd ∈ rest, cmd.inst ≠ some i) :
    ∀ cmd ∈ s.executor.owes ++ rest, cmd.inst ≠ some i := by
  rw [hpc]
  exact hlast

/-- The clean-up command of an instance is received: all sets under its ID are its own, and none
is left. -/
theorem disconnect_owned (h : s.Owned) (hpc : s.executor = .idle)
    (hinbox : s.inbox = .disconnectClient i :: rest) :
    Sessions.Owned { (s.disconnectClient [(s.conns i).id] fun _ => .disconnect i).setPhase i
      .cleaned with inbox := rest } := by
  obtain ⟨⟨hcleaning, hlast⟩, -⟩ := receive_fits h hpc hinbox
  have hactive : s.Active i := .inr ⟨hcleaning, by rw [hinbox]; exact List.mem_cons_self⟩
  have hremoved : (s.disconnectClient [(s.conns i).id] fun _ => .disconnect i).Owned := by
    refine h.removeSets fun q hq hgone => ?_
    exact (h.owner_eq hq hactive (List.mem_singleton.mp (of_decide_eq_true hgone))).symm
  have hempty : ∀ q ∈ (s.disconnectClient [(s.conns i).id] fun _ => .disconnect i).querySets,
      q.owner ≠ i := by
    rintro q hq rfl
    obtain ⟨hmem, hkept⟩ := List.mem_filter.mp hq
    simp [(h.sets q hmem).1] at hkept
  have hpopped := hremoved.pop hpc hinbox fun j hj => by
    cases hj
    exact hempty
  refine @Sessions.Owned.setConn _ i hpopped { s.conns i with phase := .cleaned } rfl ?_ nofun
    (fun hhandlers => ?_) (fun hused _ => ?_) (fitsAll_setConn hpopped.fits ?_)
  · exact (congrArg ConnPhase.holding hcleaning).symm
  · have := h.handlers i hhandlers
    rw [hcleaning] at this
    cases this
  · rcases hused with ⟨q, hq, howner⟩ | ⟨frame, queryID, hreply⟩
    · exact absurd howner (hempty q hq)
    · cases hpc.symm.trans hreply
  · exact owes_idle hpc hlast

theorem commit_owned (h : s.Owned) (hpc : s.executor = .idle) {input : CommandInput}
    (hinbox : s.inbox = cmd :: rest)
    (hcmd : cmd = .call ∨ ∃ i, cmd = .onConnect i ∨ cmd = .onDisconnect i) :
    Sessions.Owned { input.failed.foldl Sessions.signalEvalError s with
      inbox := rest
      lastTx := s.lastTx + 1
      executor := .broadcast ⟨s.lastTx + 1, input.touched⟩ cmd } := by
  obtain ⟨dropped, decided, heq⟩ := signalEvalErrors_eq s input.failed
  rw [heq]
  have hset : ∀ j, cmd ≠ .disconnectClient j := by
    rintro j rfl
    rcases hcmd with h | ⟨_, h | h⟩ <;> cases h
  have hpopped := h.pop hpc hinbox fun j hj => absurd hj (hset j)
  have hfits := receive_fits h hpc hinbox
  exact { hpopped with fits := hfits, undo := nofun }

theorem fitsAll_right {conns : Nat → SessionConn} {owed cmds : List SessionCommand}
    (h : FitsAll conns (owed ++ cmds)) : FitsAll conns cmds := by
  induction owed with
  | nil => exact h
  | cons cmd owed ih => exact ih h.2

theorem drained_owned (h : s.Owned) (hsignal : s.Signalled) : s.drained.Owned := by
  have hremoved : (s.disconnectClient s.dropped fun q => .drop (q.owner ∈ s.decided)).Owned := by
    refine h.removeSets fun q hq hgone => ?_
    exact decide_eq_true (hsignal.sets q hq (of_decide_eq_true hgone))
  exact { hremoved with fits := fitsAll_right h.fits, undo := nofun }

theorem executor_owned (h : s.Owned) (hsignal : s.Signalled) (hmove : ExecutorMove s s') :
    s'.Owned := by
  cases hmove with
  | @register i queryID aware rest hpc hinbox _ =>
    obtain ⟨hactive, hrest⟩ := receive_fits h hpc hinbox
    have hnew := (h.pop hpc hinbox nofun).registerSet hactive queryID
    refine hnew.setExecutor hrest fun j frame undo hj => ?_
    obtain ⟨rfl, -, -⟩ := ExecutorPC.replying.inj hj
    exact hactive
  | refuse hpc hinbox _ hset =>
    exact (h.pop hpc hinbox fun j hj => absurd hj (hset j)).setExecutor
      (receive_fits h hpc hinbox).2 nofun
  | @unregister i queryID rest frame hpc hinbox _ =>
    obtain ⟨hactive, hrest⟩ := receive_fits h hpc hinbox
    exact ((h.pop hpc hinbox nofun).unregisterSet hactive queryID).setExecutor hrest nofun
  | disconnect hpc hinbox => exact disconnect_owned h hpc hinbox
  | @rejectConnect i rest hpc hinbox =>
    obtain ⟨⟨hphase, hlast⟩, -⟩ := receive_fits h hpc hinbox
    have hpopped := h.pop hpc hinbox nofun
    exact hpopped.answer (.inl hphase) (congrArg ConnPhase.holding hphase).symm nofun
      hpopped.fits (owes_idle hpc hlast)
  | @failDisconnect i rest hpc hinbox =>
    obtain ⟨⟨hphase, hlast⟩, -⟩ := receive_fits h hpc hinbox
    have hpopped := h.pop hpc hinbox nofun
    exact hpopped.answer (.inr hphase) (congrArg ConnPhase.holding hphase).symm nofun
      hpopped.fits (owes_idle hpc hlast)
  | skip hpc hinbox => exact h.pop hpc hinbox nofun
  | commit hpc hinbox hcmd _ => exact commit_owned h hpc hinbox hcmd
  | @reply i frame undo result hpc =>
    have hsent := send_owned h i frame result
    exact hsent.setExecutor (fitsAll_right hsent.fits) nofun
  | @undo i frame queryID result hpc _ =>
    have hsent := (send_owned h i frame result).unregisterSet
      (send_active (h.undo i frame queryID hpc)) queryID
    exact hsent.setExecutor (fitsAll_right hsent.fits) nofun
  | @sendFanOut msg cmd hpc _ =>
    have hfits := h.fits
    rw [hpc] at hfits
    refine { h with fits := ?_, undo := nofun }
    cases cmd with
    | onDisconnect i => exact hfits
    | _ => exact hfits.2
  | @acceptConnect msg i hpc =>
    have hfits := h.fits
    rw [hpc] at hfits
    obtain ⟨⟨hphase, hlast⟩, hrest⟩ := hfits
    have hsent : Sessions.Owned { s with
        fanout := s.fanout ++ [msg], executor := .drain (.onConnect i) } :=
      { h with fits := hrest, undo := nofun }
    exact hsent.answer (.inl hphase) (congrArg ConnPhase.holding hphase).symm
      (fun _ => congrArg ConnPhase.admitting hphase) hrest hlast
  | drain => exact drained_owned h hsignal
  | @drainLeft i hpc =>
    have hfits := h.fits
    rw [hpc] at hfits
    obtain ⟨⟨hphase, hlast⟩, hrest⟩ := hfits
    exact (drained_owned h hsignal).answer (.inr hphase)
      (congrArg ConnPhase.holding hphase).symm nofun hrest hlast

end Executor

/-! ## Drop signals -/

section Signals

variable {s s' : Sessions}

theorem queueDroppedClient_eq (s : Sessions) (k : ConnectionID) :
    ∃ dropped, s.queueDroppedClient k = { s with dropped := dropped } ∧
      ∀ k' ∈ dropped, k' ∈ s.dropped ∨ k' = k := by
  unfold Sessions.queueDroppedClient
  split
  · exact ⟨s.dropped, rfl, fun _ => .inl⟩
  · exact ⟨s.dropped ++ [k], rfl, fun k' hk' => by simpa using hk'⟩

theorem Sessions.Owned.registered_set (h : s.Owned) {q : QuerySet} (hq : q ∈ s.querySets) :
    s.registered q.connID = some q.owner := by
  rw [(h.sets q hq).1]
  exact h.registered q.owner (h.sets q hq).2.holding

/-- The holder of an ID is the one that is registered, or the one for which it is reserved. -/
theorem Sessions.Owned.holder (h : s.Owned) (hi : (s.conns i).phase = .accepted ∨ s.Active i) :
    s.reserved (s.conns i).id = some i ∨ s.registered (s.conns i).id = some i := by
  rcases hi with hi | hi
  · refine .inl (h.reserved i ?_)
    rw [hi]
    rfl
  · exact .inr (h.registered i hi.holding)

theorem Sessions.Signalled.signal (h : s.Owned) (hs : s.Signalled) {k : ConnectionID}
    {decided : List Nat} (hmono : s.decided ⊆ decided) (hreserved : s.reserved k = none)
    (hregistered : ∀ i, s.registered k = some i → i ∈ decided) :
    Sessions.Signalled { s.queueDroppedClient k with decided := decided } := by
  obtain ⟨dropped, heq, hdropped⟩ := queueDroppedClient_eq s k
  rw [heq]
  refine ⟨fun i k msg hi => hmono (hs.worker i k msg hi), fun q hq hk => ?_,
    fun hpc i hi hk => ?_⟩
  · rcases hdropped _ hk with hk | rfl
    · exact hmono (hs.sets q hq hk)
    · exact hregistered _ (h.registered_set hq)
  · rcases hdropped _ hk with hk | rfl
    · exact hmono (hs.ready hpc i hi hk)
    · rcases h.holder hi with hi | hi
      · cases hreserved.symm.trans hi
      · exact hregistered i hi

theorem signalEvalErrors_signalled (h : s.Owned) (hs : s.Signalled) {failed : List ConnectionID}
    (hfailed : ∀ k ∈ failed, ∃ q ∈ s.querySets, q.connID = k) :
    (failed.foldl Sessions.signalEvalError s).Signalled := by
  induction failed generalizing s with
  | nil => exact hs
  | cons k failed ih =>
    obtain ⟨⟨q, hq, hk⟩, hrest⟩ := List.forall_mem_cons.mp hfailed
    have hregistered : s.registered k = some q.owner := hk ▸ h.registered_set hq
    have hreserved : s.reserved k = none := by
      cases hr : s.reserved k with
      | none => rfl
      | some i => cases (h.apart k i hr).symm.trans hregistered
    have hnext : (s.signalEvalError k).Signalled := by
      refine hs.signal h (List.subset_append_left _ _) hreserved fun i hi => ?_
      obtain rfl : q.owner = i := Option.some.inj (hregistered.symm.trans hi)
      refine List.mem_append_right _ (List.mem_map_of_mem ?_)
      exact List.mem_filter.mpr ⟨hq, decide_eq_true hk⟩
    obtain ⟨dropped, decided, heq⟩ := signalEvalErrors_eq s [k]
    change s.signalEvalError k = _ at heq
    rw [List.foldl_cons]
    rw [heq] at hnext ⊢
    exact ih { h with } hnext hrest

theorem send_executor (i : Nat) (frame : OutFrame) (result : PutResult) :
    (s.send i frame result).1.executor = s.executor := by
  obtain hsend | hsend | hsend := send_cases s i frame result <;> rw [hsend] <;> rfl

theorem not_drain (hpc : s.executor = .idle) : ∀ cmd, s.executor ≠ .drain cmd := by
  rw [hpc]
  nofun

theorem Sessions.Signalled.goOn (h : s.Signalled) (hpc : ∀ cmd, s.executor ≠ .drain cmd)
    (pc : ExecutorPC) : Sessions.Signalled { s with executor := pc } :=
  h.setExecutor fun _ => hpc

theorem drained_signalled (hs : s.Signalled) : s.drained.Signalled :=
  ⟨hs.worker, fun _ _ => nofun, fun _ _ _ => nofun⟩

theorem executor_signalled (h : s.Owned) (hs : s.Signalled) (hmove : ExecutorMove s s') :
    s'.Signalled := by
  cases hmove with
  | @register i queryID aware rest hpc hinbox _ =>
    have hactive := (receive_fits h hpc hinbox).1
    exact ((hs.pop hinbox).registerSet hactive hpc queryID).goOn (not_drain hpc) _
  | refuse hpc hinbox => exact (hs.pop hinbox).goOn (not_drain hpc) _
  | unregister hpc hinbox => exact (hs.pop hinbox).removeSets.goOn (not_drain hpc) _
  | @disconnect i rest hpc hinbox =>
    have hremoved : (s.disconnectClient [(s.conns i).id] fun _ => .disconnect i).Signalled :=
      hs.removeSets
    exact (hremoved.pop hinbox).past i _ nofun rfl nofun
  | @rejectConnect i rest _ hinbox => exact (hs.pop hinbox).past i _ nofun rfl nofun
  | @failDisconnect i rest _ hinbox => exact (hs.pop hinbox).past i _ nofun rfl nofun
  | skip _ hinbox => exact hs.pop hinbox
  | @commit cmd rest input hpc hinbox _ heval =>
    have hfailed : ∀ k ∈ input.failed, ∃ q ∈ s.querySets, q.connID = k := by
      simpa using (Bool.and_eq_true_iff.mp heval).2
    have hsignalled := signalEvalErrors_signalled h hs hfailed
    obtain ⟨dropped, decided, heq⟩ := signalEvalErrors_eq s input.failed
    rw [heq] at hsignalled ⊢
    have hpopped := (hsignalled.pop hinbox).goOn (not_drain hpc)
      (.broadcast ⟨s.lastTx + 1, input.touched⟩ cmd)
    exact { hpopped with }
  | @reply i frame undo result hpc =>
    refine (send_signalled hs i frame result).goOn ?_ _
    rw [send_executor, hpc]
    nofun
  | @undo i frame queryID result hpc _ =>
    refine (send_signalled hs i frame result).removeSets.goOn ?_ _
    change ∀ cmd, (s.send i frame result).1.executor ≠ .drain cmd
    rw [send_executor, hpc]
    nofun
  | @sendFanOut msg cmd => exact { hs with ready := fun hne => absurd rfl (hne cmd) }
  | @acceptConnect msg i => exact { hs with ready := fun hne => absurd rfl (hne (.onConnect i)) }
  | drain => exact drained_signalled hs
  | @drainLeft i => exact (drained_signalled hs).past i _ nofun rfl nofun

end Signals

/-! ## The worker -/

/-- A drop is signalled while no other instance holds the ID of the one it was decided for. -/
def ownSignal (s : Sessions) : SessionAction → Bool
  | .worker .signalDroppedClient =>
    match s.worker with
    | .signalling i connID _ =>
      (s.registered connID = none ∨ s.registered connID = some i) ∧ s.reserved connID = none
    | _ => true
  | _ => true

section Worker

variable {s s' : Sessions}

theorem worker_owned (h : s.Owned) (hmove : WorkerMove s s') : s'.Owned := by
  cases hmove with
  | take | gone | lookup | finish => exact { h with }
  | @full i =>
    have hflags : (s.requestDisconnect i).Owned := h.flags rfl rfl (h.handlers i)
    exact { hflags with }
  | @send i entry msg result =>
    exact { send_owned h i (.update msg.txID entry.2) result with }
  | @signal i connID msg =>
    obtain ⟨dropped, heq, -⟩ := queueDroppedClient_eq s connID
    rw [heq]
    exact { h with }

theorem worker_signalled (h : s.Owned) (hs : s.Signalled) (hmove : WorkerMove s s')
    (hown : ∀ i connID msg, s.worker = .signalling i connID msg →
      (s.registered connID = none ∨ s.registered connID = some i) ∧ s.reserved connID = none) :
    s'.Signalled := by
  cases hmove with
  | take | gone | lookup | finish => exact { hs with worker := nofun }
  | @full i entry msg hpc =>
    have hflags : (s.requestDisconnect i).Signalled := hs.flags rfl rfl
    refine ⟨fun j k msg hj => ?_, fun q hq hk => ?_, fun hpc j hj hk => ?_⟩
    · cases hj
      exact List.mem_append_right _ List.mem_cons_self
    · exact List.mem_append_left _ (hflags.sets q hq hk)
    · exact List.mem_append_left _ (hflags.ready hpc j hj hk)
  | @send i entry msg result =>
    exact { send_signalled hs i (.update msg.txID entry.2) result with worker := nofun }
  | @signal i connID msg hpc =>
    obtain ⟨hregistered, hreserved⟩ := hown i connID msg hpc
    have hsignal := hs.signal h (List.Subset.refl _) hreserved fun j hj => by
      rcases hregistered with hnone | hsome
      · cases hnone.symm.trans hj
      · obtain rfl : i = j := Option.some.inj (hsome.symm.trans hj)
        exact hs.worker i connID msg hpc
    obtain ⟨dropped, heq, -⟩ := queueDroppedClient_eq s connID
    rw [heq] at hsignal ⊢
    exact { hsignal with worker := nofun }

theorem signal_of_signalling {connID : ConnectionID} {msg : SessionUpdate} {a : WorkerAction}
    (hpc : s.worker = .signalling i connID msg) (h : workerStep s a = some s') :
    a = .signalDroppedClient := by
  cases a with
  | signalDroppedClient => rfl
  | take | lookup | send | finish =>
    rw [workerStep, hpc] at h
    cases h

end Worker

/-! ## Steps -/

section Steps

variable {s s' : Sessions} {capacity : Nat} {a : SessionAction}

theorem call_owned (h : s.Owned) : (s.submit .call).Owned := by
  refine h.submit ?_
  exact fitsAll_append h.fits trivial nofun

theorem session_owned (h : s.Known ∧ s.Owned ∧ s.Signalled) (hown : ownSignal s a = true)
    (hstep : sessionStep capacity s a = some s') : s'.Known ∧ s'.Owned ∧ s'.Signalled := by
  obtain ⟨hk, ho, hs⟩ := h
  refine ⟨session_keepsKnown hk hstep, ?_⟩
  cases a with
  | reserve id => exact ⟨reserve_owned hk ho hstep, reserve_signalled hs hstep⟩
  | conn i action => exact ⟨connStep_owned hk ho hstep, connStep_signalled hs hstep⟩
  | call =>
    cases hstep
    exact ⟨call_owned ho, hs.submit nofun⟩
  | executor action =>
    have hmove := executor_move hstep
    exact ⟨executor_owned ho hs hmove, executor_signalled ho hs hmove⟩
  | worker action =>
    have hmove := worker_move hstep
    refine ⟨worker_owned ho hmove, worker_signalled ho hs hmove fun i connID msg hpc => ?_⟩
    obtain rfl := signal_of_signalling hpc hstep
    simpa [ownSignal, hpc] using hown

/-- A set that was live is live or its removal is on record. -/
structure Sessions.Kept (s s' : Sessions) : Prop where
  sets : ∀ q ∈ s.querySets, q ∈ s'.querySets ∨ ∃ cause, (q, cause) ∈ s'.removals
  removals : s.removals ⊆ s'.removals

theorem kept_of_eq (hsets : s'.querySets = s.querySets) (hremovals : s'.removals = s.removals) :
    s.Kept s' :=
  ⟨fun _ hq => .inl (hsets ▸ hq), hremovals ▸ List.Subset.refl _⟩

theorem Sessions.Kept.trans {s₁ s₂ s₃ : Sessions} (h : s₁.Kept s₂) (h' : s₂.Kept s₃) :
    s₁.Kept s₃ := by
  refine ⟨fun q hq => ?_, List.Subset.trans h.removals h'.removals⟩
  rcases h.sets q hq with hq | ⟨cause, hcause⟩
  · exact h'.sets q hq
  · exact .inr ⟨cause, h'.removals hcause⟩

theorem kept_removeSets (s : Sessions) (gone : QuerySet → Bool)
    (cause : QuerySet → RemovalCause) : s.Kept (s.removeSets gone cause) := by
  refine ⟨fun q hq => ?_, List.subset_append_left _ _⟩
  cases hgone : gone q with
  | false => exact .inl (List.mem_filter.mpr ⟨hq, by rw [hgone]; rfl⟩)
  | true =>
    refine .inr ⟨cause q, List.mem_append_right _ (List.mem_map.mpr ⟨q, ?_, rfl⟩)⟩
    exact List.mem_filter.mpr ⟨hq, hgone⟩

theorem kept_send (i : Nat) (frame : OutFrame) (result : PutResult) :
    s.Kept (s.send i frame result).1 := by
  obtain hsend | hsend | hsend := send_cases s i frame result <;> rw [hsend] <;>
    exact kept_of_eq rfl rfl

theorem executor_kept (hmove : ExecutorMove s s') : s.Kept s' := by
  cases hmove with
  | register => exact ⟨fun _ hq => .inl (List.mem_append_left _ hq), List.Subset.refl _⟩
  | refuse | rejectConnect | failDisconnect | skip | sendFanOut | acceptConnect =>
    exact kept_of_eq rfl rfl
  | unregister | disconnect | drain | drainLeft =>
    exact (kept_removeSets s _ _).trans (kept_of_eq rfl rfl)
  | @commit cmd rest input =>
    obtain ⟨dropped, decided, heq⟩ := signalEvalErrors_eq s input.failed
    rw [heq]
    exact kept_of_eq rfl rfl
  | @reply i frame undo result =>
    exact (kept_send i frame result).trans (kept_of_eq rfl rfl)
  | @undo i frame queryID result =>
    exact ((kept_send i frame result).trans (kept_removeSets _ _ _)).trans (kept_of_eq rfl rfl)

theorem worker_kept (hmove : WorkerMove s s') : s.Kept s' := by
  cases hmove with
  | take | gone | lookup | full | finish => exact kept_of_eq rfl rfl
  | @send i entry msg result =>
    exact (kept_send i (.update msg.txID entry.2) result).trans (kept_of_eq rfl rfl)
  | @signal i connID msg =>
    obtain ⟨dropped, heq, -⟩ := queueDroppedClient_eq s connID
    rw [heq]
    exact kept_of_eq rfl rfl

theorem session_kept (hstep : sessionStep capacity s a = some s') : s.Kept s' := by
  cases a with
  | reserve id =>
    obtain ⟨-, rfl⟩ := of_guard hstep
    exact kept_of_eq rfl rfl
  | conn i action =>
    have heffect := connStep_effect hstep
    exact kept_of_eq heffect.querySets heffect.removals
  | call =>
    cases hstep
    exact kept_of_eq rfl rfl
  | executor action => exact executor_kept (executor_move hstep)
  | worker action => exact worker_kept (worker_move hstep)

end Steps

/-! ## Runs -/

/-- In every run in which each drop is signalled while no other instance holds the ID, the sets
under an ID stem from one instance, a set disappears only by a command of its own instance or a drop
that was decided for it, and none outlives the disconnect of its instance. -/
theorem query_sets_of_one_instance (capacity : Nat) (earlier later : List SessionAction)
    (s s' : Sessions)
    (hown : stepsMeet (sessionStep capacity) ownSignal Sessions.initial (earlier ++ later) = true)
    (hearlier : earlier.foldlM (sessionStep capacity) Sessions.initial = some s)
    (hlater : later.foldlM (sessionStep capacity) s = some s') :
    (∀ q ∈ s'.querySets, ∀ q' ∈ s'.querySets, q.connID = q'.connID → q.owner = q'.owner) ∧
    (∀ q ∈ s.querySets, q ∈ s'.querySets ∨
      ∃ cause, (q, cause) ∈ s'.removals ∧ cause.Own q.owner) ∧
    ∀ q ∈ s'.querySets, (s'.conns q.owner).phase ≠ .returned := by
  have hrun : (earlier ++ later).foldlM (sessionStep capacity) Sessions.initial = some s' := by
    rw [List.foldlM_append, hearlier]
    exact hlater
  obtain ⟨-, howned, -⟩ := invariant_of_stepsMeet (fun _ _ _ => session_owned)
    ⟨known_initial, owned_initial, signalled_initial⟩ hown hrun
  have hkept : s.Kept s' := invariant_of_run (fun _ _ _ h hstep => h.trans (session_kept hstep))
    (kept_of_eq rfl rfl) hlater
  refine ⟨fun q hq q' hq' hid => ?_, fun q hq => ?_, fun q hq hreturned => ?_⟩
  · have hself := howned.registered_set hq
    rw [hid, howned.registered_set hq'] at hself
    exact (Option.some.inj hself).symm
  · refine (hkept.sets q hq).imp id fun ⟨cause, hcause⟩ => ⟨cause, hcause, ?_⟩
    exact howned.removals _ hcause
  · exact not_active (by rw [hreturned]; rfl) (howned.sets q hq).2

/-! ## A signal that outlives its connection -/

section Outlives

def leaveRun (i : Nat) : List SessionAction :=
  [.conn i .finishInboundHandler, .conn i .stopInbound, .conn i .disconnectClientSubscriptions,
    .executor (.receive accepted), .conn i .onDisconnect, .executor (.receive accepted),
    .executor .sendFanOut, .executor .drainDroppedClients, .conn i .remove, .conn i .close]

def overflowRun : List SessionAction :=
  connectRun 0 ++ subscribeRun 0 7 ++ commitRun 7 ++ reachCommit ++
    [.worker (.lookup (phoneID, [7])), .worker (.send .full)]

def promptRun : List SessionAction :=
  .worker .signalDroppedClient :: commitRun 7 ++ leaveRun 0 ++ connectRun 1 ++ subscribeRun 1 7

def reconnectRun : List SessionAction := leaveRun 0 ++ connectRun 1 ++ subscribeRun 1 7

def lateSignalRun : List SessionAction := .worker .signalDroppedClient :: commitRun 7

theorem promptRun_of_one_instance :
    ∃ s s', overflowRun.foldlM (sessionStep 8) Sessions.initial = some s ∧
      promptRun.foldlM (sessionStep 8) s = some s' ∧
      s.querySets = [⟨phoneID, 7, 0, 1⟩] ∧ s'.querySets = [⟨phoneID, 7, 1, 5⟩] ∧
      s'.removals = [(⟨phoneID, 7, 0, 1⟩, .drop true)] ∧
      ∀ q ∈ s.querySets, q ∈ s'.querySets ∨
        ∃ cause, (q, cause) ∈ s'.removals ∧ cause.Own q.owner :=
  ⟨_, _, rfl, rfl, rfl, rfl, rfl,
    (query_sets_of_one_instance 8 overflowRun promptRun _ _ rfl rfl rfl).2.1⟩

theorem lateSignalRun_foreign_drop :
    ∃ s s', (overflowRun ++ reconnectRun).foldlM (sessionStep 8) Sessions.initial = some s ∧
      lateSignalRun.foldlM (sessionStep 8) s = some s' ∧
      s.querySets = [⟨phoneID, 7, 1, 4⟩] ∧ s'.querySets = [] ∧ s'.decided = [0] ∧
      ¬ ∀ q ∈ s.querySets, q ∈ s'.querySets ∨
        ∃ cause, (q, cause) ∈ s'.removals ∧ cause.Own q.owner := by
  refine ⟨_, _, rfl, rfl, rfl, rfl, rfl, fun h => ?_⟩
  rcases h ⟨phoneID, 7, 1, 4⟩ List.mem_cons_self with hlive | ⟨cause, hcause, hown⟩
  · cases hlive
  · change (_, cause) ∈ [(⟨phoneID, 7, 0, 1⟩, RemovalCause.disconnect 0),
      ((⟨phoneID, 7, 1, 4⟩ : QuerySet), .drop false)] at hcause
    obtain rfl : cause = .drop false := by simpa using hcause
    cases hown

end Outlives

end Shunter.Protocol
