import Viiper.Ports.RetainedContract

/-!
# The retained import authority

`retainedImportAuthority` issues one capability per import of a device and keeps the device
in its `active` table until the import is proven safe to release.  Its methods run on any
number of goroutines; each drops the locks around every callback into the owner, the
ingress and the scheduler.

A goroutine is modelled by where it stands (`Pc`).  One step of it is one section under the
locks, one store of an atomic outside them, or one callback together with its answer.  The
answers are the environment's (`World`): a callback may fail, miss its deadline, panic, or
answer for another lease.

A goroutine which has taken a session through a transition that only one caller can make is
at `drive i d`: it owns the rest of that transaction.  Every other call about session `i`
only looks at it (`visit`, `entry`).  That there is never a second driver is a theorem, not
part of the model.

Errors are the lists of sentinels and texts they wrap: `nil` is `[]`, `errors.Join` is `++`
and `errors.Is` is membership.
-/

namespace Viiper.Ports.ImportSession

open Retained (ImportLease ImportResetLease)

/-! ## Errors and callbacks -/

/-- The sentinels of the package, and the texts which wrap them. -/
inductive Fault
  | invalid
  | busy
  | quarantined
  | counterExhausted
  | leaseRejected
  | reasonMismatch
  | closeTimedOut
  | unsafeRelease
  | lifecycle
  | bindRejected
  | resetRejected
  | stage (name : String)
  | callback (code : Nat)
  deriving DecidableEq

abbrev Errors := List Fault

inductive Answer (V : Type)
  /-- the deadline had passed, so the callback was never started -/
  | expired
  /-- no answer by the deadline; the callback may still be running -/
  | timedOut
  | panicked (recovered : Errors)
  | returned (value : V) (err : Errors)
  deriving DecidableEq

def invokeRetainedImportStep {V : Type} (name : String) (zero : V) : Answer V → V × Errors
  | .expired => (zero, [.closeTimedOut])
  | .timedOut => (zero, [.closeTimedOut, .stage name])
  | .panicked recovered => (zero, .stage (name ++ " callback panic") :: recovered)
  | .returned value err => (value, err)

/-- `fmt.Errorf("%w: name: %w", errRetainedImportLifecycle, err)`. -/
def lifecycleError (name : String) (err : Errors) : Errors :=
  .lifecycle :: .stage name :: err

def runVoidStep (name : String) (answer : Answer Unit) : Errors :=
  match (invokeRetainedImportStep name () answer).2 with
  | [] => []
  | err => lifecycleError name err

/-- A call without a deadline whose panic is recovered:
`invokeRetainedResetFence`, `invokeRetainedResetReopen` and
`invokeRetainedOpenAdmission`. -/
def invokeGuarded (name : String) (answer : Answer Unit) : Errors :=
  (invokeRetainedImportStep name () answer).2

/-! ## The results which owners echo -/

inductive ImportBindState
  | invalid | bound | rejected | quarantined
  deriving DecidableEq

structure ImportBindResult where
  lease : ImportLease := {}
  state : ImportBindState := .invalid
  deriving DecidableEq

/-- `none` stands for zero and every other value which is not declared. -/
inductive ImportCloseReason
  | none | peerDisconnect | readFailure | writeFailure | contextCanceled | explicitDetach
  | invariantFailure | ownerRequested
  deriving DecidableEq

def ImportCloseReason.valid (reason : ImportCloseReason) : Bool :=
  reason != .none

inductive ImportDrainState
  | invalid | drained | quarantined
  deriving DecidableEq

structure ImportDrainResult where
  lease : ImportLease := {}
  reason : ImportCloseReason := .none
  state : ImportDrainState := .invalid
  deriving DecidableEq

inductive ImportDisconnectState
  | invalid | safe | quarantined
  deriving DecidableEq

structure ImportDisconnectResult where
  lease : ImportLease := {}
  reason : ImportCloseReason := .none
  state : ImportDisconnectState := .invalid
  deriving DecidableEq

inductive ImportResetState
  | invalid | safe | quarantined
  deriving DecidableEq

structure ImportResetResult where
  lease : ImportResetLease := {}
  state : ImportResetState := .invalid
  deriving DecidableEq

/-- `retainedImportSchedulerBinding`; a reservation is the number of its
session. -/
structure SchedulerBinding where
  (ownerReference ownerIdentity sessionGeneration : Nat := 0)
  reservation : Option Nat := none
  (activationRequired parked : Bool := false)
  deriving DecidableEq

/-! ## A session -/

/-- `retainedImportLifecycleState`. -/
inductive LifecycleState
  | reserved | building | prepared | preparedAborting | committing | claimed | resetting
  | reservationAborted | bindRejected | closing | ingressStopped | schedulerClosed | localDrained
  | neutralized | released | quarantined
  deriving DecidableEq

inductive Activation
  | parked | started | revoked
  deriving DecidableEq

/-- `retainedImportSession`, with the admission of its reservation.  The
channels made for resets are numbered; `closedResets` are those closed. -/
structure Session where
  lease : ImportLease
  ownerReference : Nat
  (ingress scheduler : Option Nat := none)
  admissionOpen : Bool := false
  activation : Activation := .parked
  state : LifecycleState := .reserved
  closeStarted : Bool := false
  closeReason : ImportCloseReason := .none
  closeResult : ImportDisconnectResult := {}
  closeErr : Errors := []
  closeDone : Bool := false
  nextResetGeneration : Nat := 0
  (issuedReset activeReset lastReset : ImportResetLease := {})
  lastResetResult : ImportResetResult := {}
  lastResetErr : Errors := []
  resetDone : Option Nat := none
  resetChannels : Nat := 0
  closedResets : List Nat := []
  preparedAbortDone : Option Bool := none
  preparedAbortErr : Errors := []
  (quarantined released : Bool := false)

/-- `authenticates`: the caller presents the session's own lease. -/
def Session.authenticates (identity : Nat) (s : Session) (lease : ImportLease) : Bool :=
  lease.valid && lease == s.lease && lease.authorityID == identity

/-! ## Calls -/

/-- The methods, with their arguments.  Reservations and sessions are the
number of the session; `none` is a nil interface, or an owner which is not an
exact pointer. -/
inductive Method
  | reserve (deviceID : Nat) (owner : Option Nat)
  | beginParkedSchedulerBuild (i : Nat)
  | finishParkedSchedulerBuild (i : Nat) (scheduler : Option Nat)
  | failParkedSchedulerBuild (i : Nat)
  | abort (i : Nat)
  | abortPrepared (i : Nat)
  | commit (i : Nat) (ingress scheduler : Option Nat)
  | issueReset (i : Nat) (lease : ImportLease)
  | reset (i : Nat) (reset : ImportResetLease)
  | close (i : Nat) (lease : ImportLease) (reason : ImportCloseReason)
  deriving DecidableEq

/-- What a finished call returns, with the arguments which tell the call
apart.  `reserve` returns the number of its session. -/
inductive Return
  | reserve (deviceID : Nat) (session : Option Nat) (err : Errors)
  | error (i : Nat) (err : Errors)
  | commit (i : Nat) (err : Errors)
  | issueReset (i : Nat) (reset : ImportResetLease) (err : Errors)
  | reset (i : Nat) (reset : ImportResetLease) (result : ImportResetResult) (err : Errors)
  | close (i : Nat) (reason : ImportCloseReason) (result : ImportDisconnectResult) (err : Errors)
  deriving DecidableEq

/-- Why `cleanupUnpublished` runs, and what follows it. -/
inductive Cleanup
  /-- an exact rejection: roll the claim back -/
  | rejected
  /-- `failCommit`; `bound` when the owner may hold the lease -/
  | failed (bound : Bool) (failure : Errors)
  deriving DecidableEq

/-- `abortPrepared`, after it has claimed the abort. -/
inductive AbortStage
  | fence
  | close (err : Errors)
  | store (err : Errors)
  | quarantine (err : Errors)
  | release
  deriving DecidableEq

/-- `commit`, after `beginCommit`. -/
inductive CommitStage
  | authenticate
  | bind
  | activate
  | publish
  | setRejected
  | unpublishedFence (next : Cleanup)
  | unpublishedIngress (next : Cleanup) (err : Errors)
  | unpublishedScheduler (next : Cleanup) (err : Errors)
  | rollback
  | rejectStore (err : Errors)
  | rejectQuarantine (err : Errors)
  | failStore (bound : Bool) (failure : Errors)
  | failQuarantine (bound : Bool) (failure : Errors)
  | contain (err : Errors)
  | drain (failure : Errors)
  | disconnect (failure : Errors)
  deriving DecidableEq

/-- `reset`, after it has claimed the capability. -/
inductive ResetStage
  | fence
  | drainOwner
  | drainScheduler
  | restart
  | reopen
  | finish
  | revoke (cause : Errors)
  | close (cause : Errors)
  | contain (err : Errors)
  | quarantine (err : Errors)
  deriving DecidableEq

/-- `executeClose`, with `releaseExact`, `finishReleased` and
`finishQuarantined`. -/
inductive CloseStage
  | fence
  | ingress (err : Errors)
  | setIngressStopped (err : Errors)
  | scheduler (err : Errors)
  | setSchedulerClosed
  | contain (err : Errors)
  | drain
  | setLocalDrained
  | disconnect
  | setNeutralized (result : ImportDisconnectResult)
  | releaseLook (result : ImportDisconnectResult)
  | releaseDelete (result : ImportDisconnectResult)
  | finishReleased (result : ImportDisconnectResult)
  | store (err : Errors)
  | quarantine (err : Errors)
  deriving DecidableEq

/-- Where the one goroutine stands which owns a transaction on a session. -/
inductive Driver
  | abortPrepared (stage : AbortStage)
  | commit (stage : CommitStage)
  | reset (r : ImportResetLease) (stage : ResetStage)
  | close (reason : ImportCloseReason) (stage : CloseStage)
  deriving DecidableEq

/-- Where a call stands which looks at a session without owning it. -/
inductive Visitor
  | preparedSecond
  | preparedWait
  | resetWait (done : Option Nat) (r : ImportResetLease)
  | closeWait (done : Option Nat) (lease : ImportLease) (reason : ImportCloseReason)
  | closeAwait (reason : ImportCloseReason)
  deriving DecidableEq

/-- Where a goroutine stands. -/
inductive Pc
  | idle
  | entry (m : Method)
  | identity (deviceID owner : Nat)
  | observe (deviceID owner ownerID : Nat)
  | claim (deviceID owner ownerID : Nat)
  | visit (i : Nat) (v : Visitor)
  | drive (i : Nat) (d : Driver)
  | done (r : Return)
  deriving DecidableEq

/-! ## What an observer sees -/

/-- A callback of the import's own lifecycle, with its arguments and its
answer. -/
inductive Callback
  | importBinding (answer : Answer SchedulerBinding)
  | bindImport (lease : ImportLease) (answer : Answer ImportBindResult)
  | activateImport (answer : Answer Unit)
  | openAdmission (answer : Answer Unit)
  | closeAdmission (answer : Answer Unit)
  | ingressClose (answer : Answer Unit)
  | schedulerClose (answer : Answer Unit)
  | cancelAndDrain (lease : ImportLease) (reason : ImportCloseReason)
      (answer : Answer ImportDrainResult)
  | disconnectNeutral (lease : ImportLease) (reason : ImportCloseReason)
      (answer : Answer ImportDisconnectResult)
  deriving DecidableEq

inductive ResetCallback
  | fenceReset (answer : Answer Unit)
  | fenceAndDrainReset (answer : Answer Unit)
  | resetAndDrain (answer : Answer Unit)
  | resetAndRestart (answer : Answer ImportResetResult)
  | reopenAfterReset (answer : Answer Unit)
  deriving DecidableEq

/-- The observation made by one step. -/
inductive Note
  | quiet
  | ownerIdentity (answer : Answer Nat)
  | callback (i : Nat) (call : Callback)
  | resetCallback (i : Nat) (r : ImportResetLease) (call : ResetCallback)
  /-- a reset reached its terminal result, stored for everyone waiting -/
  | settled (i : Nat) (r : ImportResetLease) (result : ImportResetResult) (err : Errors)
  | returned (c : Nat) (r : Return)
  deriving DecidableEq

/-- What the environment decides at one step: whether the deadline is still
ahead, whether the dynamic types have the reset methods, and the answers of
callbacks.  At a wait, `live` says that it has not timed out.  `admissionOpen`
and `activation` are the reservation's admission as the callbacks
`activateImport` and `openAdmission` leave it. -/
structure World where
  (live resettable admissionOpen : Bool := true)
  activation : Activation := .started
  identity : Answer Nat := .expired
  observer : Errors := []
  binding : Answer SchedulerBinding := .expired
  bind : Answer ImportBindResult := .expired
  drain : Answer ImportDrainResult := .expired
  disconnect : Answer ImportDisconnectResult := .expired
  restart : Answer ImportResetResult := .expired
  void : Answer Unit := .returned () []

end Viiper.Ports.ImportSession
