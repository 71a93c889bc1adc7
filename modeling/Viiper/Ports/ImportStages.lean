import Viiper.Ports.ImportSession

/-!
# The steps of an import session

What one goroutine does to one session in one step: a section under the
session's lock, a store of an atomic, or a callback with its answer.  Sections
which also hold the authority's lock are told whether the session is the active
one of its device (`act`), and say whether they delete it from the table
(`Effect.frees`).
-/

namespace Viiper.Ports.ImportSession

open Retained (ImportLease ImportResetLease)

/-- The outcome of one step about one session: where the goroutine stands
next, the session, whether the device leaves the active table, and what was
observed. -/
structure Effect where
  pc : Pc
  session : Session
  frees : Bool
  note : Note

namespace Effect

/-- A section, or a store, which is not observed. -/
def go (pc : Pc) (s : Session) : Effect := ⟨pc, s, false, .quiet⟩

/-- A section which also deletes the device from the active table. -/
def free (pc : Pc) (s : Session) : Effect := ⟨pc, s, true, .quiet⟩

/-- A callback of the import's lifecycle. -/
def call (i : Nat) (callback : Callback) (pc : Pc) (s : Session) : Effect :=
  ⟨pc, s, false, .callback i callback⟩

def resetCall (i : Nat) (r : ImportResetLease) (callback : ResetCallback) (pc : Pc)
    (s : Session) : Effect :=
  ⟨pc, s, false, .resetCallback i r callback⟩

end Effect

/-! ## The steps of a driver -/

/-- `err`, or `cause` when there is none. -/
def Errors.orElse (err cause : Errors) : Errors := if err = [] then cause else err

/-- `cancelAndDrainBoundOwner`, from the answer of `CancelAndDrain`. -/
def cancelAndDrainBoundOwner (lease : ImportLease) (reason : ImportCloseReason)
    (answer : Answer ImportDrainResult) : ImportDrainResult × Errors :=
  let answered := invokeRetainedImportStep "cancel and drain bound owner" {} answer
  if answered.1.lease ≠ lease ∨ answered.1.reason ≠ reason ∨
      (answered.1.state ≠ .drained ∧ answered.1.state ≠ .quarantined) then
    ({}, lifecycleError "bound owner drain" (answered.2 ++ [.leaseRejected]))
  else if answered.2 ≠ [] then
    (answered.1, lifecycleError "bound owner drain callback" answered.2)
  else (answered.1, [])

/-- One step of `abortPrepared`; `act` says that the session is the active one
of its device. -/
def AbortStage.step (w : World) (act : Bool) (i : Nat) (s : Session) : AbortStage → Effect
  | .fence =>
    .call i (.closeAdmission w.void) (.drive i (.abortPrepared
        (.close (runVoidStep "fence prepared scheduler admission" w.void)))) s
  | .close err =>
    let err := err ++ runVoidStep "close prepared scheduler" w.void
    .call i (.schedulerClose w.void)
      (.drive i (.abortPrepared (if err = [] then .release else .store err))) s
  | .store err =>
    .go (.drive i (.abortPrepared (.quarantine err))) { s with quarantined := true }
  | .quarantine err =>
    .go (.done (.error i err))
      { s with state := .quarantined, preparedAbortErr := err,
               preparedAbortDone := some true }
  | .release =>
    if !act || s.state != .preparedAborting then
      .go (.done (.error i [.leaseRejected]))
        { s with quarantined := true, state := .quarantined,
                 preparedAbortErr := [.leaseRejected],
                 preparedAbortDone := some true }
    else
      .free (.done (.error i []))
        { s with state := .reservationAborted, released := true,
                 preparedAbortDone := some true }

/-- The binding is that of the parked scheduler built for this reservation. -/
def SchedulerBinding.exact (i : Nat) (s : Session) (b : SchedulerBinding) : Bool :=
  b.ownerReference == s.ownerReference && b.ownerIdentity == s.lease.ownerID &&
    b.sessionGeneration == s.lease.sessionGeneration && b.reservation == some i &&
    b.activationRequired && b.parked

/-- What follows `cleanupUnpublished`. -/
def afterUnpublished (i : Nat) : Cleanup → Errors → Pc
  | .rejected, [] => .drive i (.commit .rollback)
  | .rejected, err =>
    .drive i (.commit (.rejectStore (lifecycleError "rejected bind cleanup" err)))
  | .failed true failure, [] => .drive i (.commit (.drain failure))
  | .failed true failure, err => .drive i (.commit (.contain (failure ++ err)))
  | .failed false failure, err => .done (.commit i (failure ++ err))

/-- `failCommit` and `failBoundCommit`, up to `quarantineBind`. -/
def failCommit (i : Nat) (stage : String) (cause : Errors) (bound : Bool) : Pc :=
  .drive i (.commit (.failStore bound (lifecycleError stage cause)))

/-- Where `commit` goes with the binding the scheduler reports. -/
def afterBinding (i : Nat) (s : Session) (answer : Answer SchedulerBinding) : Pc :=
  let answered := invokeRetainedImportStep "authenticate parked scheduler" {} answer
  if answered.2 = [] ∧ answered.1.exact i s then .drive i (.commit .bind)
  else
    failCommit i "authenticate parked scheduler" (Errors.orElse answered.2 [.leaseRejected]) false

/-- Where `commit` goes with the result of `BindImport`. -/
def afterBind (i : Nat) (lease : ImportLease) (answer : Answer ImportBindResult) : Pc :=
  let answered := invokeRetainedImportStep "bind import lease" {} answer
  if answered.2 = [] ∧ answered.1 = ⟨lease, .bound⟩ then .drive i (.commit .activate)
  else if answered.2 = [] ∧ answered.1 = ⟨lease, .rejected⟩ then .drive i (.commit .setRejected)
  else
    failCommit i "bind import lease" (Errors.orElse answered.2
        [if answered.1 = ⟨lease, .quarantined⟩ then .quarantined else .leaseRejected]) true

/-- Where `cleanupBoundOwner` goes with the result of the drain. -/
def afterBoundDrain (i : Nat) (lease : ImportLease) (failure : Errors)
    (answer : Answer ImportDrainResult) : Pc :=
  let answered := cancelAndDrainBoundOwner lease .invariantFailure answer
  if answered.1.state = .quarantined then
    .done (.commit i (failure ++ (answered.2 ++
      [.quarantined, .stage "bound owner drain remained quarantined"])))
  else if answered.2 ≠ [] then .done (.commit i (failure ++ answered.2))
  else .drive i (.commit (.disconnect failure))

/-- How `cleanupBoundOwner` ends with the result of the disconnect. -/
def boundDisconnectError (lease : ImportLease) (answer : Answer ImportDisconnectResult) : Errors :=
  let answered := invokeRetainedImportStep "disconnect neutral bound owner" {} answer
  if answered.2 ≠ [] ∨ answered.1 ≠ ⟨lease, .invariantFailure, .safe⟩ then
    lifecycleError "bound owner disconnect" (Errors.orElse answered.2 [.leaseRejected])
  else []

/-- `err`, or a rejected lease when there is none and the admission is not as
the callback should have left it. -/
def Errors.provided (err : Errors) (fine : Bool) : Errors :=
  if err = [] ∧ fine = false then [.leaseRejected] else err

/-- `publishClaimed`, under the session's lock throughout. -/
def publishClaimed (w : World) (i : Nat) (s : Session) : Effect :=
  if s.state ≠ .committing ∨ s.closeStarted ∨ s.quarantined ∨ s.admissionOpen then
    .go (failCommit i "activate retained scheduler" [.leaseRejected] true) s
  else
    let err := Errors.provided (invokeGuarded "open import admission" w.void)
      (w.admissionOpen && w.activation == .started)
    if err = [] then
      .call i (.openAdmission w.void) (.done (.commit i []))
        { s with state := .claimed, admissionOpen := w.admissionOpen,
                 activation := w.activation }
    else
      .call i (.openAdmission w.void) (failCommit i "activate retained scheduler" err true)
        { s with admissionOpen := false, activation := .revoked }

def CommitStage.step (w : World) (act : Bool) (i : Nat) (s : Session) : CommitStage → Effect
  | .authenticate => .call i (.importBinding w.binding) (afterBinding i s w.binding) s
  | .bind => .call i (.bindImport s.lease w.bind) (afterBind i s.lease w.bind) s
  | .activate =>
    let err := Errors.provided (invokeRetainedImportStep "activate retained scheduler" () w.void).2
      (w.activation == .started)
    .call i (.activateImport w.void) (if err = [] then .drive i (.commit .publish)
        else failCommit i "activate retained scheduler" err true)
      { s with admissionOpen := w.admissionOpen, activation := w.activation }
  | .publish => publishClaimed w i s
  | .setRejected =>
    .go (.drive i (.commit (.unpublishedFence .rejected))) { s with state := .bindRejected }
  | .unpublishedFence next =>
    if s.ingress = none ∨ s.scheduler = none then
      .go (afterUnpublished i next [.invalid]) s
    else
      .call i (.closeAdmission w.void) (.drive i (.commit (.unpublishedIngress next
          (runVoidStep "fence unpublished admission" w.void)))) s
  | .unpublishedIngress next err =>
    .call i (.ingressClose w.void) (.drive i (.commit (.unpublishedScheduler next
        (err ++ runVoidStep "stop unpublished ingress" w.void)))) s
  | .unpublishedScheduler next err =>
    .call i (.schedulerClose w.void) (afterUnpublished i next
        (err ++ runVoidStep "close unpublished retained scheduler" w.void)) s
  | .rollback =>
    if act then .free (.done (.commit i [.bindRejected])) { s with released := true }
    else
      .go (.drive i (.commit (.rejectStore
        (lifecycleError "bind rejection rollback" [.leaseRejected])))) s
  | .rejectStore err =>
    .go (.drive i (.commit (.rejectQuarantine err))) { s with quarantined := true }
  | .rejectQuarantine err => .go (.done (.commit i err)) { s with state := .quarantined }
  | .failStore bound failure =>
    .go (.drive i (.commit (.failQuarantine bound failure))) { s with quarantined := true }
  | .failQuarantine bound failure =>
    .go (.drive i (.commit (.unpublishedFence (.failed bound failure))))
      { s with state := .quarantined }
  | .contain err =>
    .call i (.cancelAndDrain s.lease .invariantFailure w.drain) (.done (.commit i
        (err ++ (cancelAndDrainBoundOwner s.lease .invariantFailure w.drain).2))) s
  | .drain failure =>
    .call i (.cancelAndDrain s.lease .invariantFailure w.drain)
      (afterBoundDrain i s.lease failure w.drain) s
  | .disconnect failure =>
    .call i (.disconnectNeutral s.lease .invariantFailure w.disconnect)
      (.done (.commit i (failure ++ boundDisconnectError s.lease w.disconnect))) s

def finishResetQuarantined (i : Nat) (s : Session) (r : ImportResetLease) (err : Errors) : Effect :=
  let result : ImportResetResult := ⟨r, .quarantined⟩
  let s := { s with
    state := .quarantined, lastReset := r, lastResetResult := result, lastResetErr := err,
    activeReset := {}, closedResets := s.resetDone.toList ++ s.closedResets }
  let s := if s.closeStarted then
      { s with closeResult := ⟨s.lease, s.closeReason, .quarantined⟩, closeErr := err,
               closeDone := true }
    else s
  ⟨.done (.reset i r result err), s, false, .settled i r result err⟩

/-- The successful last section of `reset`. -/
def finishReset (i : Nat) (s : Session) (r : ImportResetLease) : Effect :=
  match s.resetDone with
  | none => .go (.drive i (.reset r (.revoke [.resetRejected]))) s
  | some done =>
    if s.state ≠ .resetting ∨ s.activeReset ≠ r then
      .go (.drive i (.reset r (.revoke [.resetRejected]))) s
    else
      let result : ImportResetResult := ⟨r, .safe⟩
      ⟨.done (.reset i r result []),
        { s with state := .claimed, lastReset := r, lastResetResult := result,
                 lastResetErr := [], activeReset := {},
                 closedResets := done :: s.closedResets },
        false, .settled i r result []⟩

/-- A reset goes on when the step had no error and else ends quarantined. -/
def resetThen (i : Nat) (r : ImportResetLease) (err : Errors) (next : ResetStage) : Pc :=
  .drive i (.reset r (if err = [] then next else .revoke err))

/-- An error wrapped by `reset` itself. -/
def Errors.within (name : String) (err : Errors) : Errors :=
  if err = [] then [] else lifecycleError name err

/-- The error `reset` makes of the owner's result. -/
def restartError (r : ImportResetLease) (answer : Answer ImportResetResult) : Errors :=
  let answered := invokeRetainedImportStep "reset and restart owner" {} answer
  if answered.2 ≠ [] ∨ answered.1 ≠ ⟨r, .safe⟩ then
    lifecycleError "owner reset" (Errors.orElse answered.2 [.resetRejected])
  else []

def ResetStage.step (w : World) (i : Nat) (s : Session) (r : ImportResetLease) : ResetStage → Effect
  | .fence =>
    .resetCall i r (.fenceReset w.void)
      (resetThen i r (Errors.within "fence scheduler reset ingress"
        (invokeGuarded "fence scheduler reset ingress" w.void)) .drainOwner) s
  | .drainOwner =>
    .resetCall i r (.fenceAndDrainReset w.void)
      (resetThen i r (runVoidStep "fence and drain owner for reset" w.void) .drainScheduler) s
  | .drainScheduler =>
    .resetCall i r (.resetAndDrain w.void)
      (resetThen i r (runVoidStep "drain retained scheduler for reset" w.void) .restart) s
  | .restart =>
    .resetCall i r (.resetAndRestart w.restart) (resetThen i r (restartError r w.restart) .reopen) s
  | .reopen =>
    .resetCall i r (.reopenAfterReset w.void) (resetThen i r (Errors.within "reopen after reset"
        (invokeGuarded "reopen after reset" w.void)) .finish) s
  | .finish => finishReset i s r
  | .revoke cause =>
    .go (.drive i (.reset r (.close cause)))
      { s with activation := .revoked, admissionOpen := false, quarantined := true }
  | .close cause =>
    .call i (.schedulerClose w.void) (.drive i (.reset r (.contain
        (cause ++ runVoidStep "close scheduler after reset failure" w.void)))) s
  | .contain err =>
    .call i (.cancelAndDrain s.lease .invariantFailure w.drain) (.drive i (.reset r (.quarantine
        (err ++ (cancelAndDrainBoundOwner s.lease .invariantFailure w.drain).2)))) s
  | .quarantine err => finishResetQuarantined i s r err

/-- The error `executeClose` makes of the result of `CancelAndDrain`. -/
def drainError (lease : ImportLease) (reason : ImportCloseReason)
    (answer : Answer ImportDrainResult) : Errors :=
  let answered := invokeRetainedImportStep "cancel and drain local executor" {} answer
  if answered.2 ≠ [] ∨ answered.1 ≠ ⟨lease, reason, .drained⟩ then
    lifecycleError "cancel and drain local executor" (Errors.orElse answered.2 [.leaseRejected])
  else []

/-- The error `executeClose` makes of the result of `DisconnectNeutral`. -/
def disconnectError (lease : ImportLease) (reason : ImportCloseReason)
    (answer : Answer ImportDisconnectResult) : Errors :=
  let answered := invokeRetainedImportStep "disconnect neutral" {} answer
  if answered.2 ≠ [] ∨ answered.1 ≠ ⟨lease, reason, .safe⟩ then
    lifecycleError "disconnect neutral" (Errors.orElse answered.2
      [if answered.1 = ⟨lease, reason, .quarantined⟩ then .quarantined else .leaseRejected])
  else []

/-- A close goes on when the step had no error and else ends quarantined. -/
def closeThen (i : Nat) (reason : ImportCloseReason) (err : Errors) (next : CloseStage) : Pc :=
  .drive i (.close reason (if err = [] then next else .store err))

/-- One step of `executeClose`.  The lease it was called with is the session's
own. -/
def CloseStage.step (w : World) (act : Bool) (i : Nat) (s : Session)
    (reason : ImportCloseReason) : CloseStage → Effect
  | .fence =>
    .call i (.closeAdmission w.void)
      (.drive i (.close reason (.ingress (runVoidStep "fence import admission" w.void)))) s
  | .ingress err =>
    let stop := runVoidStep "stop ingress" w.void
    .call i (.ingressClose w.void) (.drive i (.close reason
        (if stop = [] then .setIngressStopped err else .scheduler (err ++ stop)))) s
  | .setIngressStopped err =>
    .go (.drive i (.close reason (.scheduler err))) { s with state := .ingressStopped }
  | .scheduler err =>
    let err := err ++ runVoidStep "close retained scheduler" w.void
    .call i (.schedulerClose w.void)
      (.drive i (.close reason (if err = [] then .setSchedulerClosed else .contain err))) s
  | .setSchedulerClosed =>
    .go (.drive i (.close reason .drain)) { s with state := .schedulerClosed }
  | .contain err =>
    .call i (.cancelAndDrain s.lease reason w.drain) (.drive i (.close reason (.store
        (err ++ (cancelAndDrainBoundOwner s.lease reason w.drain).2)))) s
  | .drain =>
    .call i (.cancelAndDrain s.lease reason w.drain)
      (closeThen i reason (drainError s.lease reason w.drain) .setLocalDrained) s
  | .setLocalDrained =>
    .go (.drive i (.close reason .disconnect)) { s with state := .localDrained }
  | .disconnect =>
    .call i (.disconnectNeutral s.lease reason w.disconnect)
      (closeThen i reason (disconnectError s.lease reason w.disconnect)
        (.setNeutralized ⟨s.lease, reason, .safe⟩)) s
  | .setNeutralized result =>
    .go (.drive i (.close reason (.releaseLook result))) { s with state := .neutralized }
  | .releaseLook result =>
    if s.state = .released ∨ s.released then
      .go (.drive i (.close reason (.finishReleased result))) s
    else if s.state ≠ .neutralized then
      .go (.drive i (.close reason (.store (lifecycleError "release import" [.unsafeRelease])))) s
    else .go (.drive i (.close reason (.releaseDelete result))) s
  | .releaseDelete result =>
    if act then
      .free (.drive i (.close reason (.finishReleased result))) { s with released := true }
    else if s.released then .go (.drive i (.close reason (.finishReleased result))) s
    else
      .go (.drive i (.close reason (.store (lifecycleError "release import" [.leaseRejected])))) s
  | .finishReleased result =>
    .go (.done (.close i reason result []))
      { s with state := .released, closeResult := result, closeErr := [],
               closeDone := true }
  | .store err =>
    .go (.drive i (.close reason (.quarantine err))) { s with quarantined := true }
  | .quarantine err =>
    .go (.done (.close i reason ⟨s.lease, reason, .quarantined⟩ err))
      { s with state := .quarantined, closeResult := ⟨s.lease, reason, .quarantined⟩,
               closeErr := err, closeDone := true }

/-- One step of whoever owns the transaction on session `i`. -/
def Driver.step (w : World) (act : Bool) (i : Nat) (s : Session) : Driver → Effect
  | .abortPrepared stage => stage.step w act i s
  | .commit stage => stage.step w act i s
  | .reset r stage => stage.step w i s r
  | .close reason stage => stage.step w act i s reason

/-! ## The steps of a visitor -/

/-- How a wait ends. -/
inductive Wait (V : Type)
  | pending
  | ended (value : V) (err : Errors)

def awaitReset (w : World) (s : Session) : Option Nat → Wait ImportResetResult
  | none => .ended {} [.resetRejected]
  | some done =>
    if !w.live then .ended {} [.closeTimedOut]
    else if done ∈ s.closedResets then .ended s.lastResetResult s.lastResetErr
    else .pending

/-- `close`, once the reset it waited behind has returned. -/
def closeAfterReset (i : Nat) (lease : ImportLease) (reason : ImportCloseReason)
    (result : ImportResetResult) (err : Errors) : Pc :=
  if err = [] ∧ result.state = .safe then .entry (.close i lease reason)
  else if .closeTimedOut ∈ err ∧ result.state = .invalid then
    .done (.close i reason {} err)
  else
    .done (.close i reason ⟨lease, reason, .quarantined⟩ (Errors.orElse err [.quarantined]))

/-- One step of a call which does not own a transaction on session `i`. -/
def Visitor.step (w : World) (act : Bool) (i : Nat) (s : Session) : Visitor → Effect
  | .preparedSecond =>
    if !w.live then .go (.done (.error i [.leaseRejected])) s
    else if s.state = .reservationAborted ∧ s.released then .go (.done (.error i [])) s
    else if !act then .go (.done (.error i [.leaseRejected])) s
    else if s.state = .preparedAborting ∨ (s.state = .quarantined ∧ s.preparedAbortDone ≠ none) then
      .go (.visit i .preparedWait) s
    else if s.state ≠ .prepared ∨ s.scheduler = none then
      .go (.done (.error i [.leaseRejected])) s
    else
      .go (.drive i (.abortPrepared .fence))
        { s with state := .preparedAborting, preparedAbortDone := some false }
  | .preparedWait =>
    if !w.live then .go (.done (.error i [.closeTimedOut])) s
    else if s.preparedAbortDone = some true then
      .go (.done (.error i s.preparedAbortErr)) s
    else .go (.visit i .preparedWait) s
  | .resetWait done r =>
    match awaitReset w s done with
    | .pending => .go (.visit i (.resetWait done r)) s
    | .ended result err => .go (.done (.reset i r result err)) s
  | .closeWait done lease reason =>
    match awaitReset w s done with
    | .pending => .go (.visit i (.closeWait done lease reason)) s
    | .ended result err => .go (closeAfterReset i lease reason result err) s
  | .closeAwait reason =>
    if !w.live then .go (.done (.close i reason {} [.closeTimedOut])) s
    else if s.closeDone then .go (.done (.close i reason s.closeResult s.closeErr)) s
    else .go (.visit i (.closeAwait reason)) s

/-! ## The first section of each method -/

/-- One section which takes an exact active session in an expected state to
`s'`, and refuses every other. -/
def exactSection (act : Bool) (i : Nat) (s : Session) (expected : Bool) (s' : Session) : Effect :=
  if s.lease.valid ∧ act ∧ expected then .go (.done (.error i [])) s'
  else .go (.done (.error i [.leaseRejected])) s

def beginParkedSchedulerBuild (act : Bool) (i : Nat) (s : Session) : Effect :=
  exactSection act i s (s.state == .reserved && s.scheduler.isNone) { s with state := .building }

def finishParkedSchedulerBuild (act : Bool) (i : Nat) (s : Session)
    (scheduler : Option Nat) : Effect :=
  exactSection act i s (scheduler.isSome && s.state == .building && s.scheduler.isNone)
    { s with scheduler := scheduler, state := .prepared }

def failParkedSchedulerBuild (act : Bool) (i : Nat) (s : Session) : Effect :=
  exactSection act i s (s.state == .building && s.scheduler.isNone) { s with state := .reserved }

def abort (act : Bool) (i : Nat) (s : Session) : Effect :=
  if !s.lease.valid then .go (.done (.error i [.leaseRejected])) s
  else if s.state = .reservationAborted ∧ s.released then .go (.done (.error i [])) s
  else if !act ∨ s.state ≠ .reserved then .go (.done (.error i [.leaseRejected])) s
  else .free (.done (.error i [])) { s with state := .reservationAborted, released := true }

/-- `abortPrepared`, its first section. -/
def abortPrepared (i : Nat) (s : Session) : Effect :=
  if !s.lease.valid then .go (.done (.error i [.leaseRejected])) s
  else if s.state = .reservationAborted ∧ s.released then .go (.done (.error i [])) s
  else if s.preparedAbortDone ≠ none ∧ (s.state = .preparedAborting ∨ s.state = .quarantined) then
    .go (.visit i .preparedWait) s
  else .go (.visit i .preparedSecond) s

/-- `commit`, through `beginCommit`. -/
def beginCommit (w : World) (act : Bool) (i : Nat) (s : Session)
    (ingress scheduler : Option Nat) : Effect :=
  if ingress = none ∨ scheduler = none ∨ !w.live then .go (.done (.commit i [.invalid])) s
  else if !s.lease.valid ∨ !act ∨ s.state ≠ .prepared ∨ s.scheduler ≠ scheduler then
    .go (.done (.commit i [.leaseRejected])) s
  else
    .go (.drive i (.commit .authenticate)) { s with ingress := ingress, state := .committing }

/-- `reset`, its first section. -/
def beginReset (identity : Nat) (w : World) (i : Nat) (s : Session)
    (r : ImportResetLease) : Effect :=
  let refused : Effect := .go (.done (.reset i r ⟨r, .invalid⟩ [.resetRejected])) s
  if !r.valid ∨ !s.authenticates identity r.importLease then refused
  else if r = s.lastReset ∧ s.lastResetResult.lease = r then
    .go (.done (.reset i r s.lastResetResult s.lastResetErr)) s
  else if !w.live then refused
  else if s.activeReset.valid then
    if s.activeReset ≠ r then refused else .go (.visit i (.resetWait s.resetDone r)) s
  else if s.state ≠ .claimed ∨ s.closeStarted ∨ s.quarantined ∨ s.released ∨
      s.issuedReset ≠ r then refused
  else if !w.resettable then refused
  else
    .go (.drive i (.reset r .fence))
      { s with issuedReset := {}, activeReset := r, resetDone := some s.resetChannels,
               resetChannels := s.resetChannels + 1, state := .resetting }

/-- `close`, its first section. -/
def beginClose (identity : Nat) (w : World) (i : Nat) (s : Session) (lease : ImportLease)
    (reason : ImportCloseReason) : Effect :=
  let refused (err : Fault) : Effect := .go (.done (.close i reason {} [err])) s
  if !s.authenticates identity lease ∨ !reason.valid then refused .leaseRejected
  else if s.state = .resetting ∧ s.activeReset.valid then
    if s.closeStarted then
      if s.closeReason ≠ reason then refused .reasonMismatch
      else .go (.visit i (.closeWait s.resetDone lease reason)) s
    else if !w.live then refused .closeTimedOut
    else
      .go (.visit i (.closeWait s.resetDone lease reason))
        { s with closeStarted := true, closeReason := reason }
  else if s.closeStarted then
    if s.closeReason ≠ reason then refused .reasonMismatch
    else if s.state = .claimed then
      if !w.live then refused .closeTimedOut
      else .go (.drive i (.close reason .fence)) { s with state := .closing }
    else .go (.visit i (.closeAwait reason)) s
  else if s.state ≠ .claimed then refused .leaseRejected
  else if !w.live then refused .invalid
  else
    .go (.drive i (.close reason .fence))
      { s with closeStarted := true, closeReason := reason, state := .closing }

/-- The first section of a method which is called on session `i`, other than
`issueReset`. -/
def Method.enter (identity : Nat) (w : World) (act : Bool) (i : Nat) (s : Session) : Method → Effect
  | .reserve .. | .issueReset .. => .go .idle s
  | .beginParkedSchedulerBuild _ => ImportSession.beginParkedSchedulerBuild act i s
  | .finishParkedSchedulerBuild _ scheduler =>
    ImportSession.finishParkedSchedulerBuild act i s scheduler
  | .failParkedSchedulerBuild _ => ImportSession.failParkedSchedulerBuild act i s
  | .abort _ => ImportSession.abort act i s
  | .abortPrepared _ => ImportSession.abortPrepared i s
  | .commit _ ingress scheduler => beginCommit w act i s ingress scheduler
  | .reset _ r => beginReset identity w i s r
  | .close _ lease reason => beginClose identity w i s lease reason

def Method.session : Method → Option Nat
  | .reserve .. => none
  | .beginParkedSchedulerBuild i | .finishParkedSchedulerBuild i _
  | .failParkedSchedulerBuild i | .abort i | .abortPrepared i | .commit i _ _
  | .issueReset i _ | .reset i _ | .close i _ _ => some i

/-- What a method returns for a reservation or session which is not the
authority's. -/
def Method.foreign : Method → Return
  | .reserve deviceID _ => .reserve deviceID none [.invalid]
  | .beginParkedSchedulerBuild i | .finishParkedSchedulerBuild i _
  | .failParkedSchedulerBuild i | .abort i | .abortPrepared i =>
    .error i [.leaseRejected]
  | .commit i _ _ => .commit i [.leaseRejected]
  | .issueReset i _ => .issueReset i {} [.resetRejected]
  | .reset i r => .reset i r ⟨r, .invalid⟩ [.resetRejected]
  | .close i _ reason => .close i reason {} [.leaseRejected]

end Viiper.Ports.ImportSession
