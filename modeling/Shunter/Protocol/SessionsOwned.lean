import Shunter.Protocol.SessionsKnown

/-!
# Sets belong to one instance

At most one instance of an ID is admitted at a time.  The clean-up command of
an instance is the last command it submits for its sets, and it leaves the
connection manager only when that command was answered, so the sets under an
ID are those of the instance that holds it.  A drop signal knows the ID only.
-/

namespace Shunter.Protocol

open Foundation

/-! ## Phases -/

def ConnPhase.admitting : ConnPhase → Bool
  | .reserved | .connecting | .accepted => true
  | _ => false

def ConnPhase.holding : ConnPhase → Bool
  | .up | .draining | .cleaning | .cleaned | .leaving | .left => true
  | _ => false

def ConnPhase.serving : ConnPhase → Bool
  | .up | .draining => true
  | _ => false

variable {phase : ConnPhase}

theorem ConnPhase.serving.holding (h : phase.serving = true) : phase.holding = true := by
  cases phase <;> first | rfl | cases h

/-! ## The order of commands -/

/-- What a command says about its instance; `after` are the commands behind it. -/
def SessionCommand.Fits (conns : Nat → SessionConn) (after : List SessionCommand) :
    SessionCommand → Prop
  | .register i _ _ | .unregister i _ =>
    (conns i).phase.serving = true ∨
      (conns i).phase = .cleaning ∧ .disconnectClient i ∈ after
  | .disconnectClient i => (conns i).phase = .cleaning ∧ ∀ cmd ∈ after, cmd.inst ≠ some i
  | .onConnect i => (conns i).phase = .connecting ∧ ∀ cmd ∈ after, cmd.inst ≠ some i
  | .onDisconnect i => (conns i).phase = .leaving ∧ ∀ cmd ∈ after, cmd.inst ≠ some i
  | .call => True

def FitsAll (conns : Nat → SessionConn) : List SessionCommand → Prop
  | [] => True
  | cmd :: after => cmd.Fits conns after ∧ FitsAll conns after

def ExecutorPC.owes : ExecutorPC → List SessionCommand
  | .broadcast _ cmd => [cmd]
  | .drain (.onDisconnect i) => [.onDisconnect i]
  | _ => []

variable {conns : Nat → SessionConn} {cmd : SessionCommand} {cmds : List SessionCommand}

theorem fits_congr {conns' : Nat → SessionConn} {after : List SessionCommand}
    (h : ∀ i, cmd.inst = some i → (conns' i).phase = (conns i).phase)
    (hfits : cmd.Fits conns after) : cmd.Fits conns' after := by
  cases cmd with
  | call => trivial
  | register i | unregister i | disconnectClient i | onConnect i | onDisconnect i =>
    simpa only [SessionCommand.Fits, h i rfl] using hfits

theorem fitsAll_imp {conns' : Nat → SessionConn}
    (h : ∀ cmd ∈ cmds, ∀ after, cmd.Fits conns after → cmd.Fits conns' after)
    (hfits : FitsAll conns cmds) : FitsAll conns' cmds := by
  induction cmds with
  | nil => trivial
  | cons cmd after ih =>
    obtain ⟨hfirst, hafter⟩ := List.forall_mem_cons.mp h
    exact ⟨hfirst after hfits.1, ih hafter hfits.2⟩

/-- An instance with a command under way is in one of these phases. -/
def ConnPhase.busy : ConnPhase → Bool
  | .connecting | .up | .draining | .cleaning | .leaving => true
  | _ => false

theorem ConnPhase.serving.busy (h : phase.serving = true) : phase.busy = true := by
  cases phase <;> first | rfl | cases h

theorem fits_of_fitsAll (hfits : FitsAll conns cmds) (hcmd : cmd ∈ cmds) :
    ∃ after, cmd.Fits conns after := by
  induction cmds with
  | nil => cases hcmd
  | cons first after ih =>
    rcases List.mem_cons.mp hcmd with rfl | hcmd
    · exact ⟨after, hfits.1⟩
    · exact ih hfits.2 hcmd

theorem busy_of_fitsAll (hfits : FitsAll conns cmds) (hcmd : cmd ∈ cmds) {i : Nat}
    (hi : cmd.inst = some i) : (conns i).phase.busy = true := by
  obtain ⟨after, hfirst⟩ := fits_of_fitsAll hfits hcmd
  cases cmd with
  | call => cases hi
  | register j | unregister j =>
    cases hi
    rcases hfirst with hserving | ⟨hcleaning, -⟩
    · exact ConnPhase.serving.busy hserving
    · rw [hcleaning]
      rfl
  | disconnectClient j | onConnect j | onDisconnect j =>
    cases hi
    rw [hfirst.1]
    rfl

/-- The command registers or unregisters a set of the instance. -/
def SessionCommand.OfSet (cmd : SessionCommand) (i : Nat) : Prop :=
  (∃ queryID aware, cmd = .register i queryID aware) ∨ ∃ queryID, cmd = .unregister i queryID

theorem fitsAll_append (hfits : FitsAll conns cmds) (hcmd : cmd.Fits conns [])
    (hphase : ∀ i, cmd.inst = some i → ∀ other ∈ cmds, other.inst = some i → other.OfSet i) :
    FitsAll conns (cmds ++ [cmd]) := by
  induction cmds with
  | nil => exact ⟨hcmd, trivial⟩
  | cons first after ih =>
    refine ⟨?_, ih hfits.2 fun i hi other hother =>
      hphase i hi other (List.mem_cons_of_mem _ hother)⟩
    have hnew : ∀ i, first.inst = some i → cmd.inst = some i → first.OfSet i :=
      fun i hfirst hi => hphase i hi first List.mem_cons_self hfirst
    have hlast : ∀ i, (∀ other ∈ after, other.inst ≠ some i) → cmd.inst ≠ some i →
        ∀ other ∈ after ++ [cmd], other.inst ≠ some i := by
      intro i hafter hne other hother
      rcases List.mem_append.mp hother with hother | hother
      · exact hafter other hother
      · exact List.mem_singleton.mp hother ▸ hne
    cases first with
    | call => trivial
    | register i | unregister i =>
      exact hfits.1.imp id fun h => ⟨h.1, List.mem_append_left _ h.2⟩
    | disconnectClient i | onConnect i | onDisconnect i =>
      refine ⟨hfits.1.1, hlast i hfits.1.2 fun hi => ?_⟩
      rcases hnew i rfl hi with ⟨_, _, h⟩ | ⟨_, h⟩ <;> cases h

/-! ## The invariant -/

/-- Sets of the instance may exist: its clean-up has not been processed. -/
def Sessions.Active (s : Sessions) (i : Nat) : Prop :=
  (s.conns i).phase.serving = true ∨
    (s.conns i).phase = .cleaning ∧ .disconnectClient i ∈ s.inbox

/-- A set was removed by its owner, or by a drop that was decided for its owner. -/
def RemovalCause.Own (owner : Nat) : RemovalCause → Prop
  | .unregister i | .disconnect i => i = owner
  | .drop decided => decided = true

structure Sessions.Owned (s : Sessions) : Prop where
  fits : FitsAll s.conns (s.executor.owes ++ s.inbox)
  registered : ∀ i, (s.conns i).phase.holding = true → s.registered (s.conns i).id = some i
  holding : ∀ k i, s.registered k = some i → (s.conns i).phase.holding = true
  reserved : ∀ i, (s.conns i).phase.admitting = true → s.reserved (s.conns i).id = some i
  apart : ∀ k i, s.reserved k = some i → s.registered k = none
  handlers : ∀ i, 0 < (s.conns i).inboundHandlers → (s.conns i).phase.serving = true
  sets : ∀ q ∈ s.querySets, q.connID = (s.conns q.owner).id ∧ s.Active q.owner
  undo : ∀ i frame queryID, s.executor = .replying i frame (some queryID) → s.Active i
  removals : ∀ r ∈ s.removals, r.2.Own r.1.owner

/-- A signalled ID is that of an instance for which the drop was decided, unless the drain that
empties the signals comes before any set of its new holder. -/
structure Sessions.Signalled (s : Sessions) : Prop where
  worker : ∀ i k msg, s.worker = .signalling i k msg → i ∈ s.decided
  sets : ∀ q ∈ s.querySets, q.connID ∈ s.dropped → q.owner ∈ s.decided
  ready : (∀ cmd, s.executor ≠ .drain cmd) → ∀ i,
    (s.conns i).phase = .accepted ∨ s.Active i → (s.conns i).id ∈ s.dropped → i ∈ s.decided

theorem owned_initial : Sessions.initial.Owned where
  fits := trivial
  registered _ h := by cases h
  holding _ _ h := by cases h
  reserved _ h := by cases h
  apart _ _ h := by cases h
  handlers _ h := by cases h
  sets _ h := by cases h
  undo _ _ _ h := by cases h
  removals _ h := by cases h

theorem signalled_initial : Sessions.initial.Signalled where
  worker _ _ _ h := by cases h
  sets _ h := by cases h
  ready _ _ _ h := by cases h

theorem Sessions.Active.holding {s : Sessions} {i : Nat} (h : s.Active i) :
    (s.conns i).phase.holding = true := by
  rcases h with h | ⟨h, -⟩
  · exact ConnPhase.serving.holding h
  · rw [h]
    rfl

theorem Sessions.Owned.owner_eq {s : Sessions} (h : s.Owned) {q : QuerySet}
    (hq : q ∈ s.querySets) {i : Nat} (hi : s.Active i) (hid : q.connID = (s.conns i).id) :
    q.owner = i := by
  obtain ⟨hconn, hactive⟩ := h.sets q hq
  have howner := h.registered q.owner hactive.holding
  have hself := h.registered i hi.holding
  rw [← hconn, hid, hself] at howner
  exact (Option.some.inj howner).symm

variable {c : SessionConn} {j : Nat} {id : ConnectionID}

section Conn

variable {s s' : Sessions} {i : Nat}

theorem Sessions.Active.congr (h : s.Active j) (hphase : (s'.conns j).phase = (s.conns j).phase)
    (hinbox : s.inbox ⊆ s'.inbox) : s'.Active j := by
  rw [Sessions.Active, hphase]
  exact h.imp id fun h => ⟨h.1, hinbox h.2⟩

theorem setConn_phase (hphase : c.phase = (s.conns i).phase) (j : Nat) :
    ((s.setConn i c).conns j).phase = (s.conns j).phase := by
  by_cases hj : j = i
  · subst hj
    rw [Sessions.setConn_self, hphase]
  · rw [s.setConn_of_ne c hj]

/-- Sets of the instance exist, or a set to be removed again when its reply fails. -/
def Sessions.Uses (s : Sessions) (i : Nat) : Prop :=
  (∃ q ∈ s.querySets, q.owner = i) ∨
    ∃ frame queryID, s.executor = .replying i frame (some queryID)

/-- What the step of an instance to `c` has to respect. -/
structure Sessions.Moves (s s' : Sessions) (i : Nat) (c : SessionConn) : Prop where
  conns : s'.conns = Function.update s.conns i c := by rfl
  querySets : s'.querySets = s.querySets := by rfl
  executor : s'.executor = s.executor := by rfl
  removals : s'.removals = s.removals := by rfl
  inbox : s.inbox ⊆ s'.inbox := by exact List.Subset.refl _
  fits : FitsAll s'.conns (s'.executor.owes ++ s'.inbox)
  registers : c.phase.holding = true → s'.registered c.id = some i
  registered : ∀ j ≠ i, s.registered (s.conns j).id = some j →
    s'.registered (s.conns j).id = some j := by exact fun _ _ h => h
  holds : ∀ k, s'.registered k = some i → c.phase.holding = true
  holding : ∀ k, ∀ j ≠ i, s'.registered k = some j → s.registered k = some j := by
    exact fun _ _ _ h => h
  reserves : c.phase.admitting = true → s'.reserved c.id = some i
  reserved : ∀ j ≠ i, s.reserved (s.conns j).id = some j →
    s'.reserved (s.conns j).id = some j := by exact fun _ _ h => h
  apart : ∀ k j, s'.reserved k = some j → s'.registered k = none
  handlers : 0 < c.inboundHandlers → c.phase.serving = true
  active : s.Uses i → s.Active i → c.id = (s.conns i).id ∧
    (c.phase.serving = true ∨ c.phase = .cleaning ∧ .disconnectClient i ∈ s'.inbox)

section Moves

variable {c : SessionConn} (hm : s.Moves s' i c)
include hm

theorem Sessions.Moves.self : s'.conns i = c := by
  rw [hm.conns, Function.update_self]

theorem Sessions.Moves.other (hj : j ≠ i) : s'.conns j = s.conns j := by
  rw [hm.conns, Function.update_of_ne hj]

theorem Sessions.Moves.keeps (hused : s.Uses j) (hj : s.Active j) :
    (s'.conns j).id = (s.conns j).id ∧ s'.Active j := by
  by_cases hji : j = i
  · subst hji
    rw [Sessions.Active, hm.self]
    exact hm.active hused hj
  · exact ⟨by rw [hm.other hji], hj.congr (by rw [hm.other hji]) hm.inbox⟩

theorem Sessions.Owned.move (h : s.Owned) : s'.Owned := by
  refine ⟨hm.fits, fun j hj => ?_, fun k j hj => ?_, fun j hj => ?_, hm.apart, fun j hj => ?_,
    fun q hq => ?_, fun j frame queryID hpc => ?_, hm.removals ▸ h.removals⟩
  · by_cases hji : j = i
    · subst hji
      rw [hm.self] at hj ⊢
      exact hm.registers hj
    · rw [hm.other hji] at hj ⊢
      exact hm.registered j hji (h.registered j hj)
  · by_cases hji : j = i
    · subst hji
      rw [hm.self]
      exact hm.holds k hj
    · rw [hm.other hji]
      exact h.holding k j (hm.holding k j hji hj)
  · by_cases hji : j = i
    · subst hji
      rw [hm.self] at hj ⊢
      exact hm.reserves hj
    · rw [hm.other hji] at hj ⊢
      exact hm.reserved j hji (h.reserved j hj)
  · by_cases hji : j = i
    · subst hji
      rw [hm.self] at hj ⊢
      exact hm.handlers hj
    · rw [hm.other hji] at hj ⊢
      exact h.handlers j hj
  · rw [hm.querySets] at hq
    obtain ⟨hconn, hactive⟩ := h.sets q hq
    obtain ⟨hid, hlive⟩ := hm.keeps (.inl ⟨q, hq, rfl⟩) hactive
    exact ⟨hconn.trans hid.symm, hlive⟩
  · rw [hm.executor] at hpc
    exact (hm.keeps (.inr ⟨frame, queryID, hpc⟩) (h.undo j frame queryID hpc)).2

end Moves

theorem Sessions.Owned.setConn (h : s.Owned) {c : SessionConn} (hid : c.id = (s.conns i).id)
    (hhold : c.phase.holding = (s.conns i).phase.holding)
    (hadmitting : c.phase.admitting = true → (s.conns i).phase.admitting = true)
    (hhandlers : 0 < c.inboundHandlers → c.phase.serving = true)
    (hactive : s.Uses i → s.Active i →
      c.phase.serving = true ∨ c.phase = .cleaning ∧ .disconnectClient i ∈ s.inbox)
    (hfits : FitsAll (s.setConn i c).conns (s.executor.owes ++ s.inbox)) :
    (s.setConn i c).Owned := by
  have hm : s.Moves (s.setConn i c) i c := {
    fits := hfits
    registers := by rw [hhold, hid]; exact h.registered i
    holds := by rw [hhold]; exact fun k => h.holding k i
    reserves := fun hc => by rw [hid]; exact h.reserved i (hadmitting hc)
    apart := h.apart
    handlers := hhandlers
    active := fun hused hi => ⟨hid, hactive hused hi⟩ }
  exact h.move hm

theorem Sessions.Owned.flags (h : s.Owned) (hid : c.id = (s.conns i).id)
    (hphase : c.phase = (s.conns i).phase)
    (hhandlers : 0 < c.inboundHandlers → c.phase.serving = true) : (s.setConn i c).Owned := by
  refine h.setConn hid (by rw [hphase]) (by rw [hphase]; exact id) hhandlers (fun _ hi => ?_)
    (fitsAll_imp (fun _ _ _ => fits_congr fun j _ => setConn_phase hphase j) h.fits)
  rw [hphase]
  exact hi

theorem Sessions.Signalled.setConn (h : s.Signalled) {c : SessionConn}
    (hid : c.id = (s.conns i).id)
    (hready : c.phase = .accepted ∨ c.phase.serving = true ∨
        c.phase = .cleaning ∧ .disconnectClient i ∈ s.inbox →
      (s.conns i).phase = .accepted ∨ s.Active i) : (s.setConn i c).Signalled where
  worker := h.worker
  sets := h.sets
  ready hpc j hj hdropped := by
    rw [s.setConn_id i hid] at hdropped
    refine h.ready hpc j ?_ hdropped
    by_cases hji : j = i
    · subst hji
      rw [Sessions.Active, Sessions.setConn_self] at hj
      exact hready hj
    · rw [Sessions.Active, s.setConn_of_ne c hji] at hj
      exact hj

theorem Sessions.Signalled.flags (h : s.Signalled) (hid : c.id = (s.conns i).id)
    (hphase : c.phase = (s.conns i).phase) : (s.setConn i c).Signalled :=
  h.setConn hid (by rw [hphase]; exact id)

theorem setPhase_self (phase : ConnPhase) : ((s.setPhase i phase).conns i).phase = phase := by
  rw [Sessions.setPhase, Sessions.setConn_self]

theorem setPhase_of_ne (phase : ConnPhase) (h : j ≠ i) :
    (s.setPhase i phase).conns j = s.conns j :=
  s.setConn_of_ne _ h

theorem setPhase_id (phase : ConnPhase) (j : Nat) :
    ((s.setPhase i phase).conns j).id = (s.conns j).id :=
  s.setConn_id i (by rfl) j

theorem fitsAll_setConn (hfits : FitsAll s.conns cmds) (hnone : ∀ cmd ∈ cmds, cmd.inst ≠ some i) :
    FitsAll (s.setConn i c).conns cmds := by
  refine fitsAll_imp (fun cmd hcmd after => fits_congr fun j hj => ?_) hfits
  have hne : j ≠ i := by
    rintro rfl
    exact hnone cmd hcmd hj
  rw [s.setConn_of_ne c hne]

theorem Sessions.Owned.no_command (h : s.Owned) (hbusy : (s.conns i).phase.busy = false) :
    ∀ cmd ∈ s.executor.owes ++ s.inbox, cmd.inst ≠ some i := by
  intro cmd hcmd hi
  have := busy_of_fitsAll h.fits hcmd hi
  rw [hbusy] at this
  cases this

theorem Sessions.Signalled.past (h : s.Signalled) (i : Nat) (phase : ConnPhase)
    (hne : phase ≠ .accepted) (hserving : phase.serving = false) (hcleaning : phase ≠ .cleaning) :
    (s.setPhase i phase).Signalled := by
  refine h.setConn rfl ?_
  rintro (hp | hp | ⟨hp, -⟩)
  · exact absurd hp hne
  · rw [hserving] at hp
    cases hp
  · exact absurd hp hcleaning

variable {cmd : SessionCommand}

theorem Sessions.Owned.submit (h : s.Owned)
    (hfits : FitsAll s.conns (s.executor.owes ++ s.inbox ++ [cmd])) : (s.submit cmd).Owned := by
  refine { h with
    fits := by rwa [List.append_assoc] at hfits
    sets := fun q hq => ?_
    undo := fun j frame queryID hpc => ?_ }
  · obtain ⟨hconn, hactive⟩ := h.sets q hq
    exact ⟨hconn, hactive.congr rfl (List.subset_append_left _ _)⟩
  · exact (h.undo j frame queryID hpc).congr rfl (List.subset_append_left _ _)

theorem Sessions.Signalled.submit (h : s.Signalled)
    (hcmd : ∀ i, cmd = .disconnectClient i → (∀ cmd, s.executor ≠ .drain cmd) →
      (s.conns i).id ∈ s.dropped → i ∈ s.decided)
: (s.submit cmd).Signalled := by
  refine { h with ready := fun hpc j hj hdropped => ?_ }
  rcases hj with hj | hj | ⟨hcleaning, hmem⟩
  · exact h.ready hpc j (.inl hj) hdropped
  · exact h.ready hpc j (.inr (.inl hj)) hdropped
  · rcases List.mem_append.mp hmem with hmem | hmem
    · exact h.ready hpc j (.inr (.inr ⟨hcleaning, hmem⟩)) hdropped
    · exact hcmd j (List.mem_singleton.mp hmem).symm hpc hdropped

theorem not_active (h : (s.conns i).phase.busy = false) : ¬ s.Active i := by
  rintro (hserving | ⟨hcleaning, -⟩)
  · rw [ConnPhase.serving.busy hserving] at h
    cases h
  · rw [hcleaning] at h
    cases h

section

variable (h : s.Owned) (hbusy : (s.conns i).phase.busy = false)
include h hbusy

theorem Sessions.Owned.no_handlers : ¬ 0 < (s.conns i).inboundHandlers :=
  fun hhandlers => not_active hbusy (.inl (h.handlers i hhandlers))

theorem Sessions.Owned.setIdle (hid : c.id = (s.conns i).id)
    (hcount : c.inboundHandlers = (s.conns i).inboundHandlers)
    (hhold : c.phase.holding = (s.conns i).phase.holding)
    (hadmitting : c.phase.admitting = true → (s.conns i).phase.admitting = true) :
    (s.setConn i c).Owned :=
  h.setConn hid hhold hadmitting (fun hpos => absurd (hcount ▸ hpos) (h.no_handlers hbusy))
    (fun _ hactive => absurd hactive (not_active hbusy))
    (fitsAll_setConn h.fits (h.no_command hbusy))

theorem fitsAll_lifecycle (hcmd : cmd.inst = some i)
    (hfits : cmd.Fits (s.setPhase i phase).conns []) :
    FitsAll (s.setPhase i phase).conns (s.executor.owes ++ s.inbox ++ [cmd]) := by
  refine fitsAll_append (fitsAll_setConn h.fits (h.no_command hbusy)) hfits ?_
  intro j hj other hother hinst
  rw [hcmd] at hj
  cases hj
  exact absurd hinst (h.no_command hbusy other hother)

end

theorem command_of_serving (hfits : FitsAll conns cmds)
    (hserving : (conns i).phase.serving = true) (hcmd : cmd ∈ cmds) (hi : cmd.inst = some i) :
    cmd.OfSet i := by
  obtain ⟨after, hfirst⟩ := fits_of_fitsAll hfits hcmd
  cases cmd with
  | call => cases hi
  | register j queryID aware =>
    cases hi
    exact .inl ⟨queryID, aware, rfl⟩
  | unregister j queryID =>
    cases hi
    exact .inr ⟨queryID, rfl⟩
  | disconnectClient j | onConnect j | onDisconnect j =>
    cases hi
    rw [hfirst.1] at hserving
    cases hserving

theorem onConnect_owned (h : s.Owned) (hphase : (s.conns i).phase = .reserved) :
    ((s.setPhase i .connecting).submit (.onConnect i)).Owned := by
  have hbusy : (s.conns i).phase.busy = false := by rw [hphase]; rfl
  have hmoved : (s.setPhase i .connecting).Owned :=
    h.setIdle hbusy rfl rfl (by rw [hphase]; rfl) fun _ => by rw [hphase]; rfl
  exact hmoved.submit (fitsAll_lifecycle h hbusy rfl ⟨setPhase_self _, nofun⟩)

theorem onDisconnect_owned (h : s.Owned) (hphase : (s.conns i).phase = .cleaned) :
    ((s.setPhase i .leaving).submit (.onDisconnect i)).Owned := by
  have hbusy : (s.conns i).phase.busy = false := by rw [hphase]; rfl
  have hmoved : (s.setPhase i .leaving).Owned :=
    h.setIdle hbusy rfl rfl (by rw [hphase]; rfl) nofun
  exact hmoved.submit (fitsAll_lifecycle h hbusy rfl ⟨setPhase_self _, nofun⟩)

theorem setCommand_owned (h : s.Owned) (hhandlers : 0 < (s.conns i).inboundHandlers)
    (hcmd : cmd.inst = some i) (hfits : (s.conns i).phase.serving = true → cmd.Fits s.conns []) :
    (s.submit cmd).Owned := by
  have hserving := h.handlers i hhandlers
  refine h.submit (fitsAll_append h.fits (hfits hserving) fun j hj other hother hinst => ?_)
  rw [hcmd] at hj
  cases hj
  exact command_of_serving h.fits hserving hother hinst

theorem add_owned (h : s.Owned) (hphase : (s.conns i).phase = .accepted) :
    Sessions.Owned { s.setPhase i .up with
      reserved := Function.update s.reserved (s.conns i).id none
      registered := Function.update s.registered (s.conns i).id (some i) } := by
  have hbusy : (s.conns i).phase.busy = false := by rw [hphase]; rfl
  have hself := h.reserved i (by rw [hphase]; rfl)
  have hfree := h.apart _ _ hself
  have hapart := h.apart
  refine h.move (i := i) (c := { s.conns i with phase := .up }) {
    fits := fitsAll_setConn h.fits (h.no_command hbusy)
    registers := fun _ => Function.update_self ..
    holds := fun _ _ => rfl
    reserves := nofun
    handlers := fun _ => rfl
    active := fun _ hactive => absurd hactive (not_active hbusy)
    registered := ?_, holding := ?_, reserved := ?_, apart := ?_ }
  all_goals grind [Function.update_apply]

theorem remove_owned (hk : s.Known) (h : s.Owned) (hphase : (s.conns i).phase = .left) :
    Sessions.Owned { s.setPhase i .removed with
      registered := Function.update s.registered (s.conns i).id none } := by
  have hbusy : (s.conns i).phase.busy = false := by rw [hphase]; rfl
  have hself := h.registered i (by rw [hphase]; rfl)
  have hapart : ∀ k j, (s.setPhase i .removed).reserved k = some j → s.registered k = none :=
    h.apart
  have hid : ∀ k, s.registered k = some i → k = (s.conns i).id := fun k hki =>
    (hk.registered k i hki).2.symm
  refine h.move (i := i) (c := { s.conns i with phase := .removed }) {
    fits := fitsAll_setConn h.fits (h.no_command hbusy)
    registers := nofun
    reserves := nofun
    handlers := fun hpos => absurd hpos (h.no_handlers hbusy)
    active := fun _ hactive => absurd hactive (not_active hbusy)
    registered := ?_, holds := ?_, holding := ?_, apart := ?_ }
  all_goals grind [Function.update_apply]

theorem finishAdmission_owned (h : s.Owned) (hphase : (s.conns i).phase = .rejected)
    (hself : s.reserved (s.conns i).id = some i) :
    Sessions.Owned { s with reserved := Function.update s.reserved (s.conns i).id none } := by
  refine { h with reserved := fun j hj => ?_, apart := fun k j hk => ?_ }
  · have hheld := h.reserved j hj
    change Function.update s.reserved (s.conns i).id none (s.conns j).id = some j
    rw [Function.update_of_ne, hheld]
    intro hid
    rw [hid, hself] at hheld
    cases hheld
    rw [hphase] at hj
    cases hj
  · rcases eq_some_of_update hk with hbefore | ⟨-, hnew⟩
    · exact h.apart k j hbefore
    · cases hnew

theorem stopInbound_owned (h : s.Owned) (hphase : (s.conns i).phase = .up) :
    (s.setConn i { s.conns i with phase := .draining, inboundStopped := true }).Owned := by
  have hserving : (s.conns i).phase.serving = true := by rw [hphase]; rfl
  refine h.setConn rfl (by rw [hphase]; rfl) nofun (fun _ => rfl) (fun _ _ => .inl rfl) ?_
  refine fitsAll_imp (fun cmd hcmd after hfits => ?_) h.fits
  by_cases hi : cmd.inst = some i
  · have hdraining : ((s.setConn i { s.conns i with
        phase := .draining, inboundStopped := true }).conns i).phase.serving = true := by
      rw [Sessions.setConn_self]
      rfl
    rcases command_of_serving h.fits hserving hcmd hi with ⟨_, _, rfl⟩ | ⟨_, rfl⟩
    · exact .inl hdraining
    · exact .inl hdraining
  · refine fits_congr (fun j hj => ?_) hfits
    have hji : j ≠ i := by
      rintro rfl
      exact hi hj
    rw [s.setConn_of_ne _ hji]

theorem fitsAll_cleanup (hfits : FitsAll s.conns cmds)
    (hserving : (s.conns i).phase.serving = true) :
    FitsAll (s.setPhase i .cleaning).conns (cmds ++ [.disconnectClient i]) := by
  induction cmds with
  | nil => exact ⟨⟨setPhase_self _, nofun⟩, trivial⟩
  | cons cmd after ih =>
    refine ⟨?_, ih hfits.2⟩
    have hall := command_of_serving hfits hserving List.mem_cons_self
    have hlast : SessionCommand.disconnectClient i ∈ after ++ [.disconnectClient i] := by simp
    have hphase : ∀ j, j ≠ i → ((s.setPhase i .cleaning).conns j).phase = (s.conns j).phase :=
      fun j hj => by rw [setPhase_of_ne _ hj]
    by_cases hi : cmd.inst = some i
    · rcases hall hi with ⟨_, _, rfl⟩ | ⟨_, rfl⟩
      · exact .inr ⟨setPhase_self _, hlast⟩
      · exact .inr ⟨setPhase_self _, hlast⟩
    · have hfirst := hfits.1
      cases cmd with
      | call => trivial
      | register j | unregister j =>
        have hji : j ≠ i := fun h => hi (congrArg some h)
        rw [SessionCommand.Fits, hphase j hji]
        exact hfirst.imp id fun h => ⟨h.1, List.mem_append_left _ h.2⟩
      | disconnectClient j | onConnect j | onDisconnect j =>
        have hji : j ≠ i := fun h => hi (congrArg some h)
        rw [SessionCommand.Fits, hphase j hji]
        refine ⟨hfirst.1, fun other hother => ?_⟩
        rcases List.mem_append.mp hother with hother | hother
        · exact hfirst.2 other hother
        · rw [List.mem_singleton.mp hother]
          exact fun h => hji (Option.some.inj h).symm

theorem cleanup_owned (h : s.Owned) (hphase : (s.conns i).phase = .draining)
    (hhandlers : (s.conns i).inboundHandlers = 0) :
    ((s.setPhase i .cleaning).submit (.disconnectClient i)).Owned := by
  have hserving : (s.conns i).phase.serving = true := by rw [hphase]; rfl
  have hholding : (s.conns i).phase.holding = true := by rw [hphase]; rfl
  have hfits := fitsAll_cleanup h.fits hserving
  rw [List.append_assoc] at hfits
  exact Sessions.Owned.move (s := s) (i := i) (c := { s.conns i with phase := .cleaning }) {
    inbox := List.subset_append_left _ _
    fits := hfits
    registers := fun _ => h.registered i hholding
    holds := fun _ _ => rfl
    reserves := nofun
    apart := h.apart
    handlers := fun hpos => absurd hhandlers (Nat.ne_of_gt hpos)
    active := fun _ _ => ⟨rfl, .inr ⟨rfl, List.mem_append_right _ List.mem_cons_self⟩⟩ } h

theorem connStep_owned (hk : s.Known) (h : s.Owned) {a : ConnAction}
    (hstep : connStep s i a = some s') : s'.Owned := by
  cases a with
  | onConnect =>
    obtain ⟨hphase, rfl⟩ := of_guard hstep
    exact onConnect_owned h hphase
  | add =>
    obtain ⟨⟨hphase, -⟩, rfl⟩ := of_guard hstep
    exact add_owned h hphase
  | finishAdmission =>
    obtain ⟨⟨hphase, hself⟩, rfl⟩ := of_guard hstep
    exact finishAdmission_owned h hphase hself
  | beginInboundHandler =>
    obtain ⟨⟨hphase, -⟩, rfl⟩ := of_guard hstep
    exact h.flags rfl rfl fun _ => by
      change (s.conns i).phase.serving = true
      rw [hphase]
      rfl
  | subscribe queryID aware =>
    obtain ⟨hhandlers, rfl⟩ := of_guard hstep
    exact setCommand_owned h hhandlers rfl .inl
  | unsubscribe queryID =>
    obtain ⟨hhandlers, rfl⟩ := of_guard hstep
    exact setCommand_owned h hhandlers rfl .inl
  | finishInboundHandler =>
    obtain ⟨hhandlers, rfl⟩ := of_guard hstep
    exact h.flags rfl rfl fun _ => h.handlers i hhandlers
  | requestDisconnect =>
    obtain ⟨-, rfl⟩ := of_guard hstep
    exact h.flags rfl rfl (h.handlers i)
  | stopInbound =>
    obtain ⟨hphase, rfl⟩ := of_guard hstep
    exact stopInbound_owned h hphase
  | disconnectClientSubscriptions =>
    obtain ⟨⟨hphase, hhandlers⟩, rfl⟩ := of_guard hstep
    exact cleanup_owned h hphase hhandlers
  | onDisconnect =>
    obtain ⟨hphase, rfl⟩ := of_guard hstep
    exact onDisconnect_owned h hphase
  | remove =>
    obtain ⟨hphase, rfl⟩ := of_guard hstep
    exact remove_owned hk h hphase
  | close =>
    obtain ⟨hphase, rfl⟩ := of_guard hstep
    exact h.setIdle (by rw [hphase]; rfl) rfl rfl (by rw [hphase]; rfl) nofun

theorem free_of_idFree (hk : s.Known) (h : s.Owned) (hfree : s.idFree s.next id = true) :
    s.registered id = none ∧ ∀ j, s.reserved id = some j → j = s.next := by
  rw [Sessions.idFree, Bool.and_eq_true] at hfree
  constructor
  · cases hheld : s.registered id with
    | none => rfl
    | some j =>
      have hlt := (hk.registered id j hheld).1
      have hholding := h.holding id j hheld
      rw [hheld] at hfree
      rcases (by simpa using hfree.1 : j = s.next ∨ (s.conns j).phase = .returned) with hj | hj
      · omega
      · rw [hj] at hholding
        cases hholding
  · intro j hj
    rw [hj] at hfree
    simpa using hfree.2

theorem reserve_owned (hk : s.Known) (h : s.Owned) (hstep : reserve s id = some s') :
    s'.Owned := by
  obtain ⟨hfree, rfl⟩ := of_guard hstep
  obtain ⟨hunheld, hunreserved⟩ := free_of_idFree hk h hfree
  have hphase := (hk.fresh s.next (Nat.le_refl _)).2.1
  have hbusy : (s.conns s.next).phase.busy = false := by rw [hphase]; rfl
  refine h.move (i := s.next) (c := ⟨id, .reserved, false, 0, false, []⟩) {
    fits := fitsAll_setConn h.fits (h.no_command hbusy)
    registers := nofun
    holds := fun k hheld => absurd (hk.registered k s.next hheld).1 (Nat.lt_irrefl _)
    reserves := fun _ => Function.update_self ..
    reserved := by grind [Function.update_apply]
    apart := fun k j hj => ?_
    handlers := nofun
    active := fun _ hactive => absurd hactive (not_active hbusy) }
  rcases eq_some_of_update hj with hbefore | ⟨rfl, -⟩
  · exact h.apart k j hbefore
  · exact hunheld

theorem connStep_signalled (h : s.Signalled) {a : ConnAction}
    (hstep : connStep s i a = some s') : s'.Signalled := by
  cases a with
  | onConnect =>
    obtain ⟨-, rfl⟩ := of_guard hstep
    exact (h.past i .connecting nofun rfl nofun).submit nofun
  | add =>
    obtain ⟨⟨hphase, -⟩, rfl⟩ := of_guard hstep
    have hup : (s.setPhase i .up).Signalled := h.setConn rfl fun _ => .inl hphase
    exact { hup with }
  | finishAdmission =>
    obtain ⟨-, rfl⟩ := of_guard hstep
    exact { h with }
  | beginInboundHandler | finishInboundHandler | requestDisconnect =>
    obtain ⟨-, rfl⟩ := of_guard hstep
    exact h.flags rfl rfl
  | subscribe | unsubscribe =>
    obtain ⟨-, rfl⟩ := of_guard hstep
    exact h.submit nofun
  | stopInbound =>
    obtain ⟨hphase, rfl⟩ := of_guard hstep
    exact h.setConn rfl fun _ => .inr (.inl (by rw [hphase]; rfl))
  | disconnectClientSubscriptions =>
    obtain ⟨⟨hphase, -⟩, rfl⟩ := of_guard hstep
    have hactive : s.Active i := .inl (by rw [hphase]; rfl)
    have hcleaning : (s.setPhase i .cleaning).Signalled :=
      h.setConn rfl fun _ => .inr hactive
    refine hcleaning.submit fun j hj hpc hdropped => ?_
    cases hj
    rw [setPhase_id] at hdropped
    exact h.ready hpc i (.inr hactive) hdropped
  | onDisconnect =>
    obtain ⟨-, rfl⟩ := of_guard hstep
    exact (h.past i .leaving nofun rfl nofun).submit nofun
  | remove =>
    obtain ⟨-, rfl⟩ := of_guard hstep
    have hremoved := h.past i .removed nofun rfl nofun
    exact { hremoved with }
  | close =>
    obtain ⟨-, rfl⟩ := of_guard hstep
    exact h.setConn rfl (by simp [ConnPhase.serving])

theorem reserve_signalled (h : s.Signalled) (hstep : reserve s id = some s') : s'.Signalled := by
  obtain ⟨-, rfl⟩ := of_guard hstep
  have hself := s.setConn_self s.next ⟨id, .reserved, false, 0, false, []⟩
  refine { h with ready := fun hpc j hj hdropped => ?_ }
  by_cases hne : j = s.next
  · subst hne
    rcases hj with hj | hj | ⟨hj, -⟩
    · cases (congrArg SessionConn.phase hself).symm.trans hj
    · cases (congrArg (fun c => c.phase.serving) hself).symm.trans hj
    · cases (congrArg SessionConn.phase hself).symm.trans hj
  · have hother := s.setConn_of_ne ⟨id, .reserved, false, 0, false, []⟩ hne
    refine h.ready hpc j (hj.imp (fun hj => ?_) fun hj => ?_) ?_
    · exact (congrArg SessionConn.phase hother).symm.trans hj
    · exact hj.congr (congrArg SessionConn.phase hother).symm (List.Subset.refl _)
    · exact (congrArg SessionConn.id hother) ▸ hdropped

end Conn

end Shunter.Protocol
