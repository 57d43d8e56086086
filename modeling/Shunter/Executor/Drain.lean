import Shunter.Foundation.GuardedRun
import Shunter.Executor.Inbox

/-!
# What the drain loop leaves behind

Every command that was sent is in the inbox, held by the run loop, or answered,
and in one of these places only.  The drain loop looks at the inbox and at the
counter in two steps.  A submitter whose send and return both fall between them
leaves its command in the inbox for good.
-/

namespace Shunter

open ExecutorState Foundation

/-! ## Where the commands are -/

def SubmitPC.counts : SubmitPC → Bool
  | .counted | .undo | .begun | .finishing _ => true
  | _ => false

def SubmitPC.sent : SubmitPC → Bool
  | .finishing ok | .returned ok => ok
  | _ => false

def RunPC.held : RunPC → List Nat
  | .got cmd | .checked cmd | .dispatching cmd | .reject cmd => [cmd]
  | .startShutdown held | .closing held => held.toList
  | _ => []

@[simp] theorem RunPC.held_left : RunPC.left.held = [] := rfl

@[simp] theorem RunPC.held_select : RunPC.select.held = [] := rfl

@[simp] theorem RunPC.held_reject (cmd : Nat) : (RunPC.reject cmd).held = [cmd] := rfl

def RunPC.active : RunPC → Bool
  | .start | .left => false
  | _ => true

def ExecutorState.commands (s : ExecutorState) : List Nat :=
  s.inbox ++ (s.run.held ++ s.handled.map Prod.fst)

def ExecutorState.Counted (s : ExecutorState) : Prop :=
  ∃ S : Finset Nat, (∀ id, id ∈ S ↔ (s.submits id).counts = true) ∧ s.inflightSubmits = S.card

/-- What holds in every state of a run without a return between the two tests. -/
structure ExecutorInv (s : ExecutorState) : Prop where
  counted : s.Counted
  nodup : s.commands.Nodup
  mem : ∀ id, id ∈ s.commands ↔ (s.submits id).sent = true
  active : s.run.active = true → s.drainOwner = .run ∧ s.drain = .idle
  rejecting : ∀ cmd, s.run = .reject cmd → s.shutdown = true
  closing : ∀ held, s.run = .closing held → s.shutdown = true
  closed : s.shutdownCh = true → s.shutdown = true
  callers : ∀ i, s.shutdowns i = .closing ∨ s.shutdowns i = .claim → s.shutdown = true
  draining : s.drain ≠ .idle → s.drainOwner ≠ .unclaimed ∧ s.shutdown = true
  /-- What has been sent since the inbox was empty belongs to a submitter that is counted. -/
  between : s.drain = .between → ∀ id ∈ s.inbox, s.submits id = .finishing true
  settled : s.drain = .closing ∨ s.drain = .finished →
    s.inbox = [] ∧ ∀ id, s.submits id ≠ .begun
  done : s.done = true → s.drain = .finished

theorem executorInv_initial : ExecutorInv ExecutorState.initial := by
  constructor
  case counted => exact ⟨∅, by simp [ExecutorState.initial, SubmitPC.counts], rfl⟩
  all_goals simp [ExecutorState.initial, commands, RunPC.held, RunPC.active, SubmitPC.sent]

/-! ## The counter -/

section Counter

variable {s : ExecutorState} {id : Nat} {pc : SubmitPC}

theorem counted_setSubmit {S : Finset Nat} (hid : id ∈ S ↔ pc.counts = true)
    (hother : ∀ other ≠ id, other ∈ S ↔ (s.submits other).counts = true) :
    ({ s with inflightSubmits := S.card }.setSubmit id pc).Counted := by
  refine ⟨S, fun other => ?_, rfl⟩
  by_cases h : other = id
  · simp [setSubmit, h, hid]
  · simp [setSubmit, h, hother]

theorem ExecutorState.Counted.keep (h : s.Counted) (hpc : pc.counts = (s.submits id).counts) :
    (s.setSubmit id pc).Counted := by
  obtain ⟨S, hS, hcard⟩ := h
  have hid : id ∈ S ↔ pc.counts = true := by rw [hS, hpc]
  have hset := counted_setSubmit hid fun other _ => hS other
  rwa [← hcard] at hset

theorem ExecutorState.Counted.enter (h : s.Counted) (hout : (s.submits id).counts = false)
    (hpc : pc.counts = true) :
    ({ s with inflightSubmits := s.inflightSubmits + 1 }.setSubmit id pc).Counted := by
  obtain ⟨S, hS, hcard⟩ := h
  have hid : id ∉ S := by simp [hS, hout]
  rw [hcard, ← Finset.card_insert_of_notMem hid]
  exact counted_setSubmit (by simp [hpc]) fun other hne => by simp [hne, hS]

theorem ExecutorState.Counted.leave (h : s.Counted) (hin : (s.submits id).counts = true)
    (hpc : pc.counts = false) :
    ({ s with inflightSubmits := s.inflightSubmits - 1 }.setSubmit id pc).Counted := by
  obtain ⟨S, hS, hcard⟩ := h
  rw [hcard, ← Finset.card_erase_of_mem ((hS id).mpr hin)]
  exact counted_setSubmit (by simp [hpc]) fun other hne => by simp [hne, hS]

theorem ExecutorState.Counted.none_inside (h : s.Counted) (hzero : s.inflightSubmits = 0) (id : Nat) :
    (s.submits id).counts = false := by
  obtain ⟨S, hS, hcard⟩ := h
  have hempty : S = ∅ := Finset.card_eq_zero.mp (hcard ▸ hzero)
  simpa [hempty] using hS id

end Counter

/-! ## One step -/

section Step

variable {s s' : ExecutorState} {id : Nat} {pc : SubmitPC}

theorem ExecutorInv.moveSubmit (h : ExecutorInv s) (n : Nat)
    (hcount : ({ s with inflightSubmits := n }.setSubmit id pc).Counted)
    (hsent : pc.sent = (s.submits id).sent) (hbegun : pc = .begun → s.shutdown = false)
    (hinbox : s.drain = .between → id ∉ s.inbox) :
    ExecutorInv ({ s with inflightSubmits := n }.setSubmit id pc) := by
  refine { h with
    counted := hcount
    mem := fun other => ?_
    between := fun hdrain other hother => ?_
    settled := fun hdrain => ?_ }
  · by_cases hother : other = id
    · subst hother
      simpa [setSubmit, commands, hsent] using h.mem other
    · simpa [setSubmit, commands, hother] using h.mem other
  · have hne : other ≠ id := fun heq => hinbox hdrain (heq ▸ hother)
    simpa [setSubmit, hne] using h.between hdrain other hother
  · obtain ⟨hempty, hnone⟩ := h.settled hdrain
    refine ⟨hempty, fun other => ?_⟩
    by_cases hother : other = id
    · subst hother
      have hshut : s.shutdown = true := (h.draining (by rcases hdrain with hd | hd <;>
        simp [show s.drain = _ from hd])).2
      simp only [setSubmit, Function.update_self]
      intro hpc
      simp [hbegun hpc] at hshut
    · simpa [setSubmit, hother] using hnone other

/-- A submitter whose command is in the inbox during a test has sent it and not returned. -/
theorem ExecutorInv.not_mem_inbox (h : ExecutorInv s) (hpc : s.submits id ≠ .finishing true)
    (hdrain : s.drain = .between) : id ∉ s.inbox :=
  fun hmem => hpc (h.between hdrain id hmem)

theorem ExecutorInv.send (h : ExecutorInv s) (hbegun : s.submits id = .begun) :
    ExecutorInv ({ s with inbox := s.inbox ++ [id] }.setSubmit id (.finishing true)) := by
  refine { h with
    counted := ?_
    nodup := ?_
    mem := fun other => ?_
    between := fun hdrain other hother => ?_
    settled := fun hdrain => absurd hbegun ((h.settled hdrain).2 id) }
  · exact ExecutorState.Counted.keep (s := { s with inbox := s.inbox ++ [id] })
      h.counted (by simp [hbegun, SubmitPC.counts])
  · have hnew : id ∉ s.commands := by simp [h.mem, hbegun, SubmitPC.sent]
    have hperm : List.Perm ((s.inbox ++ [id]) ++ (s.run.held ++ s.handled.map Prod.fst))
        (id :: s.commands) := by
      rw [List.append_assoc]
      exact List.perm_middle
    exact hperm.nodup_iff.mpr (List.nodup_cons.mpr ⟨hnew, h.nodup⟩)
  · have hold := h.mem other
    by_cases hother : other = id
    · subst hother
      simp [setSubmit, commands, SubmitPC.sent]
    · simpa [setSubmit, commands, hother] using hold
  · by_cases hne : other = id
    · simp [setSubmit, hne]
    · have hmem : other ∈ s.inbox := by simpa [setSubmit, hne] using hother
      simpa [setSubmit, hne] using h.between hdrain other hmem

/-- The condition: no submitter returns between the two tests while its command is in the
inbox. -/
def returnsOutside (s : ExecutorState) : ExecutorAction → Bool
  | .submit id .next => !(decide (s.drain = .between) && decide (id ∈ s.inbox))
  | _ => true

theorem submitStep_inv {capacity : Nat} {move : SubmitMove} (h : ExecutorInv s)
    (hok : returnsOutside s (.submit id move) = true)
    (hstep : submitStep capacity s id move = some s') : ExecutorInv s' := by
  revert hstep
  fun_cases submitStep capacity s id move <;> rintro ⟨⟩
  case case1 hpc | case2 hpc | case4 hpc =>
    have hinbox : s.drain = .between → id ∉ s.inbox := by
      simpa [returnsOutside, imp_iff_not_or] using hok
    refine h.moveSubmit s.inflightSubmits (h.counted.keep ?_) ?_ ?_ hinbox <;>
      cases s.shutdown <;> simp [hpc, SubmitPC.counts, SubmitPC.sent]
  case case3 hpc =>
    exact h.moveSubmit _ (h.counted.enter (by simp [hpc, SubmitPC.counts]) rfl)
      (by simp [hpc, SubmitPC.sent]) (by simp) (h.not_mem_inbox (by simp [hpc]))
  case case5 hpc | case8 hpc =>
    have hinbox : s.drain = .between → id ∉ s.inbox := by
      simpa [returnsOutside, imp_iff_not_or] using hok
    exact h.moveSubmit _ (h.counted.leave (by simp [hpc, SubmitPC.counts]) rfl)
      (by simp [hpc, SubmitPC.sent]) (by simp) hinbox
  case case6 hpc _ | case10 hpc | case11 hpc =>
    exact h.moveSubmit s.inflightSubmits (h.counted.keep (by simp [hpc, SubmitPC.counts]))
      (by simp [hpc, SubmitPC.sent]) (by simp) (h.not_mem_inbox (by simp [hpc]))
  case case13 hpc _ => exact h.send hpc

/-- What a step of the run loop after its claim has to respect. -/
structure RunMoves (s s' : ExecutorState) : Prop where
  active : s.run.active = true := by simp [RunPC.active, *]
  submits : s'.submits = s.submits := by rfl
  inflightSubmits : s'.inflightSubmits = s.inflightSubmits := by rfl
  shutdowns : s'.shutdowns = s.shutdowns := by rfl
  drainOwner : s'.drainOwner = s.drainOwner := by rfl
  done : s'.done = s.done := by rfl
  commands : s'.commands.Perm s.commands := by
    simp [ExecutorState.commands, RunPC.held, *]
  shutdown : s.shutdown = true → s'.shutdown = true := by exact fun h => h
  closed : s'.shutdownCh = true → s'.shutdown = true
  rejecting : ∀ cmd, s'.run = .reject cmd → s'.shutdown = true := by nofun
  closing : ∀ held, s'.run = .closing held → s'.shutdown = true := by nofun
  drain : s'.drain = s.drain ∨ s'.drain = .test ∧ s'.run = .left ∧ s'.shutdown = true := by
    exact .inl rfl

theorem ExecutorInv.moveRun (h : ExecutorInv s) (hm : RunMoves s s') : ExecutorInv s' := by
  obtain ⟨hrun, hidle⟩ := h.active hm.active
  have hdrain := hm.drain
  rw [hidle] at hdrain
  have hopen : s.done = false := by
    by_contra hd
    simp [h.done (by simpa using hd)] at hidle
  exact {
    counted := by simpa [ExecutorState.Counted, hm.submits, hm.inflightSubmits] using h.counted
    nodup := hm.commands.nodup_iff.mpr h.nodup
    mem := fun id => by rw [hm.commands.mem_iff, hm.submits, h.mem]
    active := fun hact => by
      rcases hdrain with hd | ⟨-, hleft, -⟩
      · exact ⟨hm.drainOwner.trans hrun, hd⟩
      · simp [hleft, RunPC.active] at hact
    rejecting := hm.rejecting
    closing := hm.closing
    closed := hm.closed
    callers := fun i hi => hm.shutdown (h.callers i (hm.shutdowns ▸ hi))
    draining := fun hne => by
      rcases hdrain with hd | ⟨-, -, hs⟩
      · exact absurd hd hne
      · exact ⟨by simp [hm.drainOwner, hrun], hs⟩
    between := fun hb => by rcases hdrain with hd | ⟨hd, -⟩ <;> simp [hd] at hb
    settled := fun hb => by rcases hdrain with hd | ⟨hd, -⟩ <;> simp [hd] at hb
    done := fun hd => by simp [hm.done, hopen] at hd }

theorem ExecutorInv.claimRun (h : ExecutorInv s) (hstart : s.run = .start)
    (hfree : s.drainOwner = .unclaimed) :
    ExecutorInv { s with drainOwner := .run, run := .select } := by
  have hidle : s.drain = .idle := by
    by_contra hd
    exact (h.draining hd).1 hfree
  have hcommands : ExecutorState.commands { s with drainOwner := .run, run := .select } =
      s.commands := by
    simp [commands, hstart, RunPC.held]
  exact { h with
    nodup := hcommands ▸ h.nodup
    mem := fun id => by simpa only [hcommands] using h.mem id
    active := fun _ => ⟨rfl, hidle⟩
    rejecting := by simp
    closing := by simp
    draining := fun hne => absurd hidle hne }

theorem afterStartShutdown_inv {held : Option Nat} (ch : Bool) (h : ExecutorInv s)
    (hrun : s.run = .startShutdown held ∨ s.run = .closing held) (hshutdown : s.shutdown = true) :
    ExecutorInv (afterStartShutdown { s with shutdownCh := ch } held) := by
  have hactive : s.run.active = true := by rcases hrun with hr | hr <;> simp [hr, RunPC.active]
  have hheld : s.run.held = held.toList := by rcases hrun with hr | hr <;> simp [hr, RunPC.held]
  cases held with
  | none =>
    exact h.moveRun {
      active := hactive
      commands := by simp [afterStartShutdown, commands, hheld]
      closed := fun _ => hshutdown
      drain := .inr ⟨rfl, rfl, hshutdown⟩ }
  | some cmd =>
    exact h.moveRun {
      active := hactive
      commands := by simp [afterStartShutdown, commands, hheld]
      closed := fun _ => hshutdown
      rejecting := fun _ _ => hshutdown }

/-- A command that `Run` holds is answered: it moves from its hand to the answered ones. -/
theorem answer_perm {cmd : Nat} {outcome : Outcome} {pc : RunPC} {drain : DrainPC}
    (hheld : s.run.held = [cmd]) (hpc : pc.held = []) :
    (ExecutorState.commands { s.answer cmd outcome with run := pc, drain := drain }).Perm
      s.commands := by
  simp only [commands, answer, hheld, hpc, List.map_append, List.map_cons, List.map_nil,
    List.nil_append, List.cons_append]
  exact (List.perm_append_singleton cmd _).append_left s.inbox

section

variable (h : ExecutorInv s)
include h

theorem runStep_inv {move : RunMove} (hstep : runStep s move = some s') : ExecutorInv s' := by
  revert hstep
  fun_cases runStep s move <;> rintro ⟨⟩
  · next hrun hfree => exact h.claimRun hrun hfree
  · next hrun _ =>
    exact { h with
      nodup := by simpa [commands, hrun, RunPC.held] using h.nodup
      mem := fun id => by simpa [commands, hrun, RunPC.held] using h.mem id
      active := by simp [RunPC.active]
      rejecting := nofun
      closing := nofun }
  · next hrun hshutdown => exact afterStartShutdown_inv s.shutdownCh h (.inl hrun) hshutdown
  · exact h.moveRun {
      shutdown := fun _ => rfl
      closed := fun _ => rfl
      closing := fun _ _ => rfl }
  · next hrun => exact afterStartShutdown_inv true h (.inr hrun) (h.closing _ hrun)
  · exact h.moveRun { closed := h.closed }
  · exact h.moveRun { closed := h.closed }
  · next hrun =>
    refine h.moveRun { commands := ?_, closed := h.closed, rejecting := ?_, closing := ?_ }
    all_goals cases hshutdown : s.shutdown <;> simp [commands, hrun, RunPC.held]
  · next hrun =>
    exact h.moveRun {
      commands := answer_perm (by simp [hrun, RunPC.held]) rfl
      closed := h.closed }
  · next cmd hrun =>
    exact h.moveRun {
      commands := answer_perm (by simp [hrun]) rfl
      closed := h.closed
      drain := .inr ⟨rfl, rfl, h.rejecting cmd hrun⟩ }
  · exact h.moveRun { closed := h.closed }
  · next hcond =>
    exact h.moveRun {
      closed := h.closed
      drain := .inr ⟨rfl, rfl, h.closed hcond.2⟩ }
  · next hinbox hrun =>
    refine h.moveRun { commands := ?_, closed := h.closed }
    simp only [commands, hrun, hinbox, RunPC.held]
    exact List.perm_middle

theorem shutdownStep_inv {i : Nat} (hstep : shutdownStep s i = some s') : ExecutorInv s' := by
  -- a caller that moves on under a set flag leaves every fact about callers true
  have hcallers : ∀ pc, s.shutdown = true → ∀ j,
      Function.update s.shutdowns i pc j = .closing ∨
        Function.update s.shutdowns i pc j = .claim → s.shutdown = true := fun _ hs _ _ => hs
  revert hstep
  fun_cases shutdownStep s i <;> rintro ⟨⟩
  · next hshutdown => exact { h with callers := hcallers _ hshutdown }
  · exact { h with
      rejecting := fun _ _ => rfl
      closing := fun _ _ => rfl
      closed := fun _ => rfl
      callers := fun _ _ => rfl
      draining := fun hne => ⟨(h.draining hne).1, rfl⟩ }
  · next hpc =>
    have hshutdown := h.callers i (.inl hpc)
    exact { h with closed := fun _ => hshutdown, callers := hcallers _ hshutdown }
  · next hpc hfree =>
    have hshutdown := h.callers i (.inr hpc)
    -- the run loop has not claimed the drain, and nobody has closed `done`
    have hrun : s.run.active = false := by
      by_contra hact
      simp [(h.active (by simpa using hact)).1] at hfree
    have hopen : s.done = false := by
      by_contra hd
      exact (h.draining (by simp [h.done (by simpa using hd)])).1 hfree
    exact { h with
      active := fun hact => by simp [setShutdown, hrun] at hact
      callers := hcallers _ hshutdown
      draining := fun _ => ⟨by simp [setShutdown], hshutdown⟩
      between := by simp [setShutdown]
      settled := by simp [setShutdown]
      done := fun hd => by simp [setShutdown, hopen] at hd }
  · next hpc _ => exact { h with callers := hcallers _ (h.callers i (.inr hpc)) }
  · next hdone =>
    exact { h with callers := hcallers _ (h.draining (by simp [h.done hdone])).2 }

theorem ExecutorInv.run_idle (hdrain : s.drain ≠ .idle) : s.run.active = false := by
  by_contra hact
  exact hdrain (h.active (by simpa using hact)).2

theorem ExecutorInv.not_done (hdrain : s.drain ≠ .finished) : s.done = false := by
  by_contra hd
  exact hdrain (h.done (by simpa using hd))

theorem ExecutorInv.moveDrain {pc : DrainPC} {done : Bool} (hdrain : s.drain ≠ .idle)
    (hbetween : pc = .between → s.inbox = [])
    (hsettled : pc = .closing ∨ pc = .finished → s.inbox = [] ∧ ∀ id, s.submits id ≠ .begun)
    (hdone : done = true → pc = .finished) : ExecutorInv { s with drain := pc, done := done } :=
  { h with
    active := fun hact => absurd (h.active hact).2 hdrain
    draining := fun _ => h.draining hdrain
    between := fun hpc id hid => by simp [hbetween hpc] at hid
    settled := hsettled
    done := hdone }

theorem drainStep_inv (hstep : drainStep s = some s') : ExecutorInv s' := by
  revert hstep
  fun_cases drainStep s <;> rintro ⟨⟩
  · next hdrain cmd inbox hinbox =>
    have hperm : (ExecutorState.commands ({ s with inbox }.answer cmd .rejected)).Perm
        s.commands := by
      simp only [commands, answer, hinbox, List.map_append, List.map_cons, List.map_nil,
        ← List.append_assoc, List.cons_append]
      exact List.perm_append_singleton cmd _
    exact { h with
      nodup := hperm.nodup_iff.mpr h.nodup
      mem := fun id => hperm.mem_iff.trans (h.mem id)
      between := by simp [answer, hdrain]
      settled := by simp [answer, hdrain] }
  · next hdrain hinbox =>
    have hopen := h.not_done (by simp [hdrain])
    exact h.moveDrain (by simp [hdrain]) (fun _ => hinbox) (by simp) (by simp [hopen])
  · next hdrain hzero =>
    have hopen := h.not_done (by simp [hdrain])
    have hnone := h.counted.none_inside hzero
    -- whatever is in the inbox belongs to a counted submitter, and there is none
    have hempty : s.inbox = [] := by
      refine List.eq_nil_iff_forall_not_mem.mpr fun id hid => ?_
      have hid := h.between hdrain id hid
      simpa [hid, SubmitPC.counts] using hnone id
    have hbegun : ∀ id, s.submits id ≠ .begun := fun id hid => by
      simpa [hid, SubmitPC.counts] using hnone id
    exact h.moveDrain (by simp [hdrain]) nofun (fun _ => ⟨hempty, hbegun⟩) (by simp [hopen])
  · next hdrain _ =>
    have hopen := h.not_done (by simp [hdrain])
    exact h.moveDrain (by simp [hdrain]) nofun (by simp) (by simp [hopen])
  · next hdrain =>
    exact h.moveDrain (by simp [hdrain]) nofun (fun _ => h.settled (.inl hdrain)) fun _ => rfl

theorem executorStep_inv {capacity : Nat} {a : ExecutorAction} (hok : returnsOutside s a = true)
    (hstep : executorStep capacity s a = some s') : ExecutorInv s' := by
  cases a with
  | submit id move => exact submitStep_inv h hok hstep
  | run move => exact runStep_inv h hstep
  | shutdown i => exact shutdownStep_inv h hstep
  | drain => exact drainStep_inv h hstep
  | cancel =>
    cases hstep
    exact { h with }

end

end Step

/-! ## Whole runs -/

/-- The call of `submit` has not begun or has returned. -/
def SubmitPC.outside : SubmitPC → Bool
  | .start | .returned _ => true
  | _ => false

theorem ExecutorInv.held_of_draining {s : ExecutorState} (h : ExecutorInv s)
    (hdrain : s.drain ≠ .idle) : s.run.held = [] := by
  have hrun := h.run_idle hdrain
  cases hpc : s.run <;> simp [hpc, RunPC.active, RunPC.held] at hrun ⊢

/--
Once `done` is closed, the inbox is empty and every command that was accepted
has been answered exactly once, in every run in which no submitter returns
between the two tests of the drain loop with its command in the inbox.
-/
theorem accepted_commands_answered (capacity : Nat) (actions : List ExecutorAction)
    (s : ExecutorState) (hrun : executorRun capacity .initial actions = some s)
    (hmeet : stepsMeet (executorStep capacity) returnsOutside .initial actions = true)
    (hdone : s.done = true) :
    s.inbox = [] ∧
      ∀ id, s.submits id = .returned true → (s.handled.map Prod.fst).count id = 1 := by
  have h : ExecutorInv s :=
    invariant_of_stepsMeet (fun _ _ _ hinv hok hstep => executorStep_inv hinv hok hstep)
      executorInv_initial hmeet hrun
  have hfinished := h.done hdone
  have hempty : s.inbox = [] := (h.settled (.inr hfinished)).1
  have hheld : s.run.held = [] := h.held_of_draining (by simp [hfinished])
  have hcommands : s.commands = s.handled.map Prod.fst := by simp [commands, hempty, hheld]
  refine ⟨hempty, fun id hid => ?_⟩
  have hmem : id ∈ s.handled.map Prod.fst := by
    rw [← hcommands, h.mem, hid]
    rfl
  exact List.count_eq_one_of_mem (hcommands ▸ h.nodup) hmem

def beginActions : List ExecutorAction := List.replicate 4 (.submit 0 .next)

def shutdownActions : List ExecutorAction :=
  [.shutdown 0, .shutdown 0, .shutdown 0, .drain]

def drainedActions : List ExecutorAction :=
  beginActions ++ shutdownActions ++
    [.submit 0 .send, .drain, .submit 0 .next, .drain, .drain, .drain, .drain]

theorem accepted_commands_answered_drained :
    ∃ s, executorRun 1 .initial drainedActions = some s ∧
      s.submits 0 = .returned true ∧ (s.handled.map Prod.fst).count 0 = 1 := by
  refine ⟨_, rfl, rfl, ?_⟩
  exact (accepted_commands_answered 1 drainedActions _ rfl (by decide) rfl).2 0 rfl

def strandedActions : List ExecutorAction :=
  beginActions ++ shutdownActions ++ [.submit 0 .send, .submit 0 .next, .drain, .drain]

theorem stranded_command :
    ∃ s, executorRun 1 .initial strandedActions = some s ∧ s.done = true ∧
      (∀ id, (s.submits id).outside = true) ∧ s.submits 0 = .returned true ∧
      s.inbox = [0] ∧ s.handled = [] := by
  refine ⟨_, rfl, rfl, fun id => ?_, rfl, rfl, rfl⟩
  by_cases hid : id = 0
  · subst hid
    rfl
  · simp [setSubmit, setShutdown, ExecutorState.initial, hid, SubmitPC.outside]

end Shunter
