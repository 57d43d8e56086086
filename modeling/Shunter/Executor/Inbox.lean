import Mathlib

/-!
# The inbox of the executor

Submitters, the run loop and the callers of `Shutdown`, with one step for every
access to a shared channel, flag or counter.  A call of `submit` is named by a
number, which also names its command.
-/

namespace Shunter

/-- Where a call of `submit` stands. -/
inductive SubmitPC where
  | start
  | admitted
  /-- The first load of `beginSubmit` saw no shutdown. -/
  | loaded
  | counted
  /-- The second load saw a shutdown, and the counter is taken back. -/
  | undo
  | begun
  | finishing (ok : Bool)
  | returned (ok : Bool)
  deriving DecidableEq

/-- Where `Run` stands; a command that it has received goes along. -/
inductive RunPC where
  | start
  | select
  | startShutdown (held : Option Nat)
  | closing (held : Option Nat)
  | got (cmd : Nat)
  | checked (cmd : Nat)
  | dispatching (cmd : Nat)
  | reject (cmd : Nat)
  /-- In the drain loop, or returned. -/
  | left
  deriving DecidableEq

/-- Where a caller of `Shutdown` stands. -/
inductive ShutdownPC where
  | start
  | closing
  | claim
  | wait
  | returned
  deriving DecidableEq

/-- The loop of `rejectPendingCommandsOnShutdown`, which only the drain owner runs. -/
inductive DrainPC where
  | idle
  | test
  /-- The inbox was found empty, and the counter has not been read yet. -/
  | between
  | closing
  | finished
  deriving DecidableEq

inductive DrainOwner where
  | unclaimed
  | run
  | shutdown
  deriving DecidableEq

inductive Outcome where
  | dispatched
  | rejected
  deriving DecidableEq

structure ExecutorState where
  inbox : List Nat
  shutdown : Bool
  shutdownCh : Bool
  inflightSubmits : Nat
  drainOwner : DrainOwner
  drain : DrainPC
  done : Bool
  cancelled : Bool
  submits : Nat → SubmitPC
  run : RunPC
  shutdowns : Nat → ShutdownPC
  /-- The commands that were answered, in order. -/
  handled : List (Nat × Outcome)

namespace ExecutorState

def initial : ExecutorState where
  inbox := []
  shutdown := false
  shutdownCh := false
  inflightSubmits := 0
  drainOwner := .unclaimed
  drain := .idle
  done := false
  cancelled := false
  submits := fun _ => .start
  run := .start
  shutdowns := fun _ => .start
  handled := []

def setSubmit (s : ExecutorState) (id : Nat) (pc : SubmitPC) : ExecutorState :=
  { s with submits := Function.update s.submits id pc }

def setShutdown (s : ExecutorState) (i : Nat) (pc : ShutdownPC) : ExecutorState :=
  { s with shutdowns := Function.update s.shutdowns i pc }

def answer (s : ExecutorState) (cmd : Nat) (outcome : Outcome) : ExecutorState :=
  { s with handled := s.handled ++ [(cmd, outcome)] }

end ExecutorState

open ExecutorState

inductive SubmitMove where
  | next
  /-- An error that has nothing to do with a shutdown: a fatal executor, a closed admission, a
  cancelled context, an unbuffered response channel or a full inbox. -/
  | refuse
  | send
  deriving DecidableEq

def submitStep (capacity : Nat) (s : ExecutorState) (id : Nat) :
    SubmitMove → Option ExecutorState
  | .next =>
    match s.submits id with
    | .start => some (s.setSubmit id (if s.shutdown then .returned false else .admitted))
    | .admitted => some (s.setSubmit id (if s.shutdown then .returned false else .loaded))
    | .loaded =>
      some ({ s with inflightSubmits := s.inflightSubmits + 1 }.setSubmit id .counted)
    | .counted => some (s.setSubmit id (if s.shutdown then .undo else .begun))
    | .undo =>
      some ({ s with inflightSubmits := s.inflightSubmits - 1 }.setSubmit id
        (.returned false))
    | .begun => if s.shutdownCh then some (s.setSubmit id (.finishing false)) else none
    | .finishing ok =>
      some ({ s with inflightSubmits := s.inflightSubmits - 1 }.setSubmit id (.returned ok))
    | .returned _ => none
  | .refuse =>
    match s.submits id with
    | .start => some (s.setSubmit id (.returned false))
    | .begun => some (s.setSubmit id (.finishing false))
    | _ => none
  | .send =>
    match s.submits id with
    | .begun =>
      -- a select with an open send and a closed shutdown channel may take either
      if s.inbox.length < capacity then
        some ({ s with inbox := s.inbox ++ [id] }.setSubmit id (.finishing true))
      else none
    | _ => none

inductive RunMove where
  | next
  | takeCancelled
  | takeShutdown
  | receive
  deriving DecidableEq

/-- How `Run` goes on after `startShutdown`. -/
def afterStartShutdown (s : ExecutorState) : Option Nat → ExecutorState
  | none => { s with run := .left, drain := .test }
  | some cmd => { s with run := .reject cmd }

def runStep (s : ExecutorState) : RunMove → Option ExecutorState
  | .next =>
    match s.run with
    | .start =>
      if s.drainOwner = .unclaimed then some { s with drainOwner := .run, run := .select }
      else some { s with run := .left }
    | .select => none
    | .startShutdown held =>
      if s.shutdown then some (afterStartShutdown s held)
      else some { s with shutdown := true, run := .closing held }
    | .closing held => some (afterStartShutdown { s with shutdownCh := true } held)
    | .got cmd =>
      if s.cancelled then some { s with run := .startShutdown (some cmd) }
      else some { s with run := .checked cmd }
    | .checked cmd =>
      some { s with run := if s.shutdown then .reject cmd else .dispatching cmd }
    | .dispatching cmd => some { s.answer cmd .dispatched with run := .select }
    | .reject cmd => some { s.answer cmd .rejected with run := .left, drain := .test }
    | .left => none
  | .takeCancelled =>
    if s.run = .select ∧ s.cancelled then some { s with run := .startShutdown none } else none
  | .takeShutdown =>
    if s.run = .select ∧ s.shutdownCh then some { s with run := .left, drain := .test }
    else none
  | .receive =>
    match s.run, s.inbox with
    | .select, cmd :: inbox => some { s with inbox, run := .got cmd }
    | _, _ => none

def shutdownStep (s : ExecutorState) (i : Nat) : Option ExecutorState :=
  match s.shutdowns i with
  | .start =>
    if s.shutdown then some (s.setShutdown i .claim)
    else some ({ s with shutdown := true }.setShutdown i .closing)
  | .closing => some ({ s with shutdownCh := true }.setShutdown i .claim)
  | .claim =>
    if s.drainOwner = .unclaimed then
      some ({ s with drainOwner := .shutdown, drain := .test }.setShutdown i .wait)
    else some (s.setShutdown i .wait)
  | .wait => if s.done then some (s.setShutdown i .returned) else none
  | .returned => none

def drainStep (s : ExecutorState) : Option ExecutorState :=
  match s.drain with
  | .test =>
    match s.inbox with
    | cmd :: inbox => some ({ s with inbox }.answer cmd .rejected)
    | [] => some { s with drain := .between }
  | .between =>
    if s.inflightSubmits = 0 then some { s with drain := .closing }
    else some { s with drain := .test }
  | .closing => some { s with done := true, drain := .finished }
  | _ => none

inductive ExecutorAction where
  | submit (id : Nat) (move : SubmitMove)
  | run (move : RunMove)
  | shutdown (i : Nat)
  | drain
  | cancel
  deriving DecidableEq

def executorStep (capacity : Nat) (s : ExecutorState) : ExecutorAction → Option ExecutorState
  | .submit id move => submitStep capacity s id move
  | .run move => runStep s move
  | .shutdown i => shutdownStep s i
  | .drain => drainStep s
  | .cancel => some { s with cancelled := true }

def executorRun (capacity : Nat) (s : ExecutorState) (actions : List ExecutorAction) :
    Option ExecutorState :=
  actions.foldlM (executorStep capacity) s

end Shunter
