import Viiper.Verified.SlotQueue
import Viiper.Ports.RetainedContract

/-!
# The retained submission scheduler

`retainedSubmissionScheduler` of `internal/server/usb` keeps the host submissions of one
retained import: three lanes, each a table of slots with a ring of the indices in use, and a
ticket of the device's owner for the head of each lane.  This module has what the scheduler
does while it holds its lock (`…Locked` in the source); who takes the lock in which order,
and what is called in between, is the matter of `RetainedArbiter`.

Conventions of the port:

* the scheduler is generic in the type of its lanes: here a lane is a slot table, and a
  list in the modules which reason about it;
* a payload buffer is its contents, `payload[:payloadLength]`, for which a slot has room
  since `validateEnvelope` compares the same maxima;
* `failure` is whether one is recorded: its text is only reported;
* what the owner, the resolver and the clock answer are arguments;
* `nextRetry`, the time `run` sleeps until, is left out.
-/

namespace Viiper.Ports.Retained

open Verified Function

def maximumTransferSize : Nat := 16 * 1024 * 1024

inductive Err
  | invalidRequest | queueFull | visibleCompletionPending | lifecycleCompletionPending
  | inactiveRoute | duplicateSequence | counterExhausted | closed | notActivated
  deriving DecidableEq

inductive SubmissionState
  | free | rawQueued | ticketed | pending | admitted | terminal | lifecycleRetired
  deriving DecidableEq

inductive ControlLifecycleKind
  | none | clearEndpointHalt | setInterface | setConfiguration
  deriving DecidableEq

/-- `controlLifecycleSetup`, as far as the scheduler reads it. -/
structure ControlLifecycle where
  kind : ControlLifecycleKind := .none
  accepted : Bool := false
  (endpointAddress interfaceNumber alternateSetting configurationValue : UInt8 := 0)
  deriving DecidableEq

/-- A lifecycle setup concerns this route. -/
def ControlLifecycle.routeMatches (lifecycle : ControlLifecycle) (route : Route) : Bool :=
  match lifecycle.kind with
  | .none => false
  | .clearEndpointHalt => route.endpointAddress == lifecycle.endpointAddress
  | .setInterface => route.interfaceNumber == lifecycle.interfaceNumber
  | .setConfiguration => true

def zeroSetup : Vector UInt8 8 := Vector.replicate 8 0

structure Envelope where
  lane : Option Lane
  direction : Option Direction
  sequence : UInt32
  transferLength : Nat
  setup : Vector UInt8 8 := zeroSetup
  route : Route := {}
  bindingGeneration : Nat
  data : List UInt8 := []
  controlLifecycle : ControlLifecycle := {}

structure Slot where
  state : SubmissionState := .free
  lane : Option Lane := none
  direction : Option Direction := none
  (sessionGeneration bindingGeneration ingressOrdinal : Nat := 0)
  sequence : UInt32 := 0
  transferLength : Nat := 0
  setup : Vector UInt8 8 := zeroSetup
  route : Route := {}
  controlLifecycle : ControlLifecycle := {}
  payload : List UInt8 := []
  ticket : Ticket := {}
  pendingReadinessEpoch : Nat := 0
  retryAt : Option Int := none
  deriving DecidableEq

/-- Holds the owner's ticket, and may be prepared. -/
def SubmissionState.staged : SubmissionState → Bool
  | .ticketed | .pending => true
  | _ => false

def Slot.occupied (slot : Slot) : Bool := slot.state != .free

structure Ref where
  lane : Lane := .control
  (slotIndex ingressOrdinal : Nat := 0)

/-- A ticket taken from the queue, to be retired. -/
structure Retirement where
  ref : Ref
  ticket : Ticket

/-- What is fixed before the scheduler is started.  The constructor refuses other
limits, a zero session and a zero identity, and `configureControlLifecycle` a zero
generation. -/
structure Config where
  limits : Limits
  limits_valid : limits.valid
  ownerIdentity : Nat
  ownerIdentity_ne : ownerIdentity ≠ 0
  session : Nat
  session_ne : session ≠ 0
  /-- `importReservation`, if the scheduler belongs to an import. -/
  reservation : Option Nat := none
  lease : ImportLease := {}
  /-- `controlLifecycleConfigured`, with the initial binding generation. -/
  controlLifecycle : Option Nat := none
  controlLifecycle_ne : controlLifecycle ≠ some 0
  /-- `resolveControlLifecycle != nil`. -/
  (resolves endpointCadenceConfigured : Bool := false)
  endpointIntervals : Lane → Int := fun _ => 0
  /-- `expectedWireDeviceID` of the command reader. -/
  wireDeviceID : UInt32 := 0

namespace Config

variable (cfg : Config)

def depth (lane : Lane) : Nat := cfg.limits.queueDepth lane

def maximumResponseLength : Nat :=
  max cfg.limits.maximumControlResponse cfg.limits.maximumInterruptIn

end Config

inductive Activation
  | parked | started | revoked
  deriving DecidableEq

/-- The fields under `scheduler.mu`, and the atomics. -/
structure Scheduler (Q : Type) where
  lanes : Lane → Q
  nextOrdinal : Nat := 0
  closed : Bool := false
  /-- `ctx.Err() != nil`. -/
  cancelled : Bool := false
  /-- `failure != nil`. -/
  failed : Bool := false
  retirement : ImportRetirementRequest := {}
  /-- The keys of `framingSequences`. -/
  framingSequences : List UInt32 := []
  (started importActivated admissionOpen : Bool := false)
  activation : Activation := .parked
  resetFence : ImportResetLease := {}
  (resetDrained resetActive : Bool := false)
  bindingGeneration : Nat := 0
  lifecycleCompletionPending : Bool := false
  (activeConfiguration activeAlternateSetting : UInt8 := 0)
  lastReadinessEpoch : Nat := 0
  endpointNextService : Lane → Option Int := fun _ => none

/-- The scheduler with its lanes as slot tables. -/
abbrev SlotScheduler := Scheduler (SlotQueue Slot)

/-- The parked scheduler; `epoch` is the owner's first readiness sample. -/
def newScheduler (cfg : Config) (epoch : Nat) : SlotScheduler :=
  { lanes := fun lane => SlotQueue.blank (cfg.depth lane) {}
    bindingGeneration := cfg.controlLifecycle.getD 0
    lastReadinessEpoch := epoch }

/-! ## Envelopes -/

def setupLength (setup : Vector UInt8 8) : Nat := setup[6].toNat + 256 * setup[7].toNat

def setupDirectionIn (setup : Vector UInt8 8) : Bool := setup[0] &&& 0x80 != 0

/-- `validateEnvelope`: whether it returns nil. -/
def validateEnvelope (cfg : Config) (e : Envelope) : Bool :=
  match e.lane, e.direction with
  | some lane, some direction =>
    e.bindingGeneration != 0 && e.transferLength ≤ maximumTransferSize &&
    match lane with
    | .control =>
      e.route == {} && (setupDirectionIn e.setup == (direction == .dirIn)) &&
      match direction with
      | .dirIn => e.data.length == 0
      | .dirOut =>
        e.data.length == e.transferLength && e.transferLength == setupLength e.setup &&
          e.transferLength ≤ cfg.limits.maximumControlOut
    | .interruptIn =>
      direction == .dirIn && e.route == cfg.limits.interruptInRoute &&
        e.data.length == 0 && e.transferLength != 0
    | .interruptOut =>
      direction == .dirOut && e.route == cfg.limits.interruptOutRoute &&
        e.transferLength != 0 && e.data.length == e.transferLength &&
        e.transferLength ≤ cfg.limits.maximumInterruptOut
  | _, _ => false

theorem validateEnvelope_lane {cfg : Config} {e : Envelope}
    (h : validateEnvelope cfg e) : ∃ lane, e.lane = some lane := by
  unfold validateEnvelope at h
  split at h
  next lane _ hlane _ => exact ⟨lane, hlane⟩
  · cases h

/-- The slot `enqueue` fills for an envelope. -/
def slotFor (cfg : Config) (e : Envelope) (ordinal : Nat) : Slot :=
  { state := .rawQueued
    lane := e.lane
    direction := e.direction
    sessionGeneration := cfg.session
    bindingGeneration := e.bindingGeneration
    ingressOrdinal := ordinal
    sequence := e.sequence
    transferLength := e.transferLength
    setup := e.setup
    route := e.route
    controlLifecycle := e.controlLifecycle
    payload := e.data }

namespace Scheduler

/-! ## Lanes and references -/

def setLane {Q : Type} (s : Scheduler Q) (lane : Lane) (q : Q) : Scheduler Q :=
  { s with lanes := update s.lanes lane q }

@[simp] theorem setLane_self {Q : Type} (s : Scheduler Q) (lane : Lane) (q : Q) :
    (s.setLane lane q).lanes lane = q :=
  update_self ..

theorem setLane_ne {Q : Type} (s : Scheduler Q) {lane lane' : Lane} (hne : lane' ≠ lane) (q : Q) :
    (s.setLane lane q).lanes lane' = s.lanes lane' :=
  update_of_ne hne ..

section Sections

variable (cfg : Config) (s : SlotScheduler)

/-- The jobs of a lane, oldest first. -/
def jobs (lane : Lane) : List Slot := (s.lanes lane).jobs (cfg.depth lane)

def indices (lane : Lane) : List Nat := (s.lanes lane).indices (cfg.depth lane)

def slotForRef (ref : Ref) : Option Slot :=
  (s.lanes ref.lane).peek (cfg.depth ref.lane) Slot.occupied Slot.ingressOrdinal
    ref.slotIndex ref.ingressOrdinal

/-- Writing through the pointer `slotForRefLocked` returned. -/
def writeRef (ref : Ref) (slot : Slot) : SlotScheduler :=
  s.setLane ref.lane ((s.lanes ref.lane).write ref.slotIndex slot)

def removeRef (ref : Ref) : SlotScheduler :=
  s.setLane ref.lane ((s.lanes ref.lane).remove (cfg.depth ref.lane) {} ref.slotIndex)

/-- `emptyLocked`. -/
def isEmpty : Bool :=
  Lane.all.all fun lane =>
    (s.lanes lane).order.count == 0 && (s.lanes lane).free.length == cfg.depth lane

def sequencePending (sequence : UInt32) : Bool :=
  Lane.all.any fun lane => (s.jobs cfg lane).any (·.sequence == sequence)

def findSequence (sequence : UInt32) : Option (Ref × Slot) :=
  Lane.all.findSome? fun lane => (s.indices cfg lane).findSome? fun idx =>
    let slot := (s.lanes lane).slots idx
    if slot.sequence == sequence then some (⟨lane, idx, slot.ingressOrdinal⟩, slot) else none

end Sections

/-! ## Ingress -/

section Ingress

variable {Q : Type} (cfg : Config) (s : Scheduler Q)

/-- An import scheduler whose gate is closed. -/
def gateClosed : Bool := cfg.reservation.isSome && !s.admissionOpen

/-- No interrupt work on this route before it is configured. -/
def routeInactive (e : Envelope) : Bool :=
  cfg.controlLifecycle.isSome && e.lane != some .control &&
    (s.activeConfiguration == 0 || e.route.alternateSetting != s.activeAlternateSetting)

/-- The checks of `enqueueWithFramingReservation` before it looks for a slot, in
their order; `queued` is whether the sequence is in the queues. -/
def refusal (e : Envelope) (requireReservation queued : Bool) : Option Err :=
  if s.closed || s.cancelled || s.gateClosed cfg then
    some (if s.gateClosed cfg then .notActivated else .closed)
  else if requireReservation && !s.framingSequences.contains e.sequence then
    some .invalidRequest
  else if !requireReservation && s.framingSequences.contains e.sequence then
    some .duplicateSequence
  else if queued then some .duplicateSequence
  else if s.nextOrdinal == maxUint64 then some .counterExhausted
  else if s.lifecycleCompletionPending then some .lifecycleCompletionPending
  else if s.routeInactive cfg e then some .inactiveRoute
  else none

/-- What the checks of `enqueueWithFramingReservation` leave. -/
structure Unrefused (e : Envelope) (requireReservation queued : Bool) : Prop where
  running : s.closed = false
  reserved : s.framingSequences.contains e.sequence = requireReservation
  unqueued : queued = false
  counter : s.nextOrdinal ≠ maxUint64
  barrier : s.lifecycleCompletionPending = false
  route : s.routeInactive cfg e = false

theorem refusal_eq_none {e : Envelope} {requireReservation queued : Bool}
    (h : s.refusal cfg e requireReservation queued = none) :
    s.Unrefused cfg e requireReservation queued := by
  simp only [refusal, ite_eq_iff, reduceCtorEq, and_false, false_or] at h
  obtain ⟨hopen, hreserved, hunreserved, hqueued, hcounter, hbarrier, hroute, -⟩ := h
  simp only [Bool.or_eq_true, not_or, Bool.not_eq_true] at hopen
  refine ⟨hopen.1.1, ?_, by simpa using hqueued, by simpa using hcounter,
    by simpa using hbarrier, by simpa using hroute⟩
  cases requireReservation
  · simpa using hunreserved
  · simpa using hreserved

/-- The binding generation a new submission gets. -/
def stamp (e : Envelope) : Envelope :=
  if cfg.controlLifecycle.isSome then { e with bindingGeneration := s.bindingGeneration } else e

def reserveFramingSequence (sequence : UInt32) (queued : Bool) : Except Err (Scheduler Q) :=
  if s.closed || s.cancelled then .error .closed
  else if s.gateClosed cfg then .error .notActivated
  else if queued then .error .duplicateSequence
  else if s.framingSequences.contains sequence then .error .duplicateSequence
  else .ok { s with framingSequences := sequence :: s.framingSequences }

/-- `abandonFramingSequence`, and `finishImmediateFramingSequence` once it found the
reservation. -/
def dropFraming (sequence : UInt32) : Scheduler Q :=
  { s with framingSequences := s.framingSequences.filter (· != sequence) }

end Ingress

/-- `enqueueWithFramingReservation`. -/
def enqueue (cfg : Config) (s : SlotScheduler) (e : Envelope) (requireReservation : Bool) :
    Except Err SlotScheduler :=
  match validateEnvelope cfg e, e.lane with
  | true, some lane =>
    match s.refusal cfg e requireReservation (s.sequencePending cfg e.sequence) with
    | some err => .error err
    | none =>
      let slot := slotFor cfg (s.stamp cfg e) (s.nextOrdinal + 1)
      match (s.lanes lane).alloc (cfg.depth lane) slot with
      | none =>
        .error (if (s.jobs cfg lane).any (fun x => x.state == .admitted || x.state == .terminal)
          then .visibleCompletionPending else .queueFull)
      | some q =>
        let s := { s.setLane lane q with nextOrdinal := s.nextOrdinal + 1 }
        .ok (if requireReservation then s.dropFraming e.sequence else s)
  | _, _ => .error .invalidRequest

/-! ## Selection and staging -/

structure Round where
  now : Int
  epoch : Nat
  attempted : Lane → Bool := fun _ => false

section Service

variable {Q : Type} (cfg : Config)

/-- The switch of `oldestEligibleLocked` on the state of a lane's head. -/
def headEligible (round : Round) (slot : Slot) : Bool :=
  match slot.state with
  | .rawQueued | .ticketed => true
  | .pending =>
    round.epoch > slot.pendingReadinessEpoch || (match slot.retryAt with
       | some retryAt => retryAt ≤ round.now
       | none => false)
  | _ => false

/-- A lane's head may be served in this round. -/
def eligible (s : Scheduler Q) (round : Round) (lane : Lane) (slot : Slot) : Bool :=
  (match s.endpointNextService lane with
   | some serviceAt => serviceAt ≤ round.now
   | none => true) && !round.attempted lane && headEligible round slot

/-- One iteration of the loop over the lanes; a zero ordinal is no selection. -/
def considerLane (s : SlotScheduler) (round : Round) (selected : Ref) (lane : Lane) : Ref :=
  match (s.indices cfg lane).head? with
  | none => selected
  | some idx =>
    let slot := (s.lanes lane).slots idx
    if s.eligible round lane slot &&
        (selected.ingressOrdinal == 0 || slot.ingressOrdinal < selected.ingressOrdinal) then
      ⟨lane, idx, slot.ingressOrdinal⟩
    else selected

def oldestEligible (s : SlotScheduler) (round : Round) : Option Ref :=
  let selected := Lane.all.foldl (s.considerLane cfg round) {}
  if selected.ingressOrdinal != 0 then some selected else none

/-- A control submission takes its generation and classification when it is served. -/
def refresh (s : Scheduler Q) (resolved : ControlLifecycle) (slot : Slot) : Slot :=
  if slot.lane == some .control && cfg.controlLifecycle.isSome then
    { slot with
      bindingGeneration := s.bindingGeneration
      controlLifecycle := if cfg.resolves then resolved else slot.controlLifecycle }
  else slot

end Service

def requestForSlot (slot : Slot) : Request :=
  { lane := slot.lane
    direction := slot.direction
    sessionGeneration := slot.sessionGeneration
    bindingGeneration := slot.bindingGeneration
    ingressOrdinal := slot.ingressOrdinal
    sequence := slot.sequence
    transferLength := slot.transferLength
    setup := slot.setup
    route := slot.route
    data := slot.payload }

/-- The comparison of `ticketValidLocked`, which leaves the lane out. -/
def sameCapability (a b : Ticket) : Bool :=
  a.ownerID == b.ownerID && a.token == b.token && a.generation == b.generation &&
    a.sessionGeneration == b.sessionGeneration

def ticketValid (cfg : Config) (s : SlotScheduler) (ref : Ref) (slot : Slot) (ticket : Ticket) :
    Bool :=
  ticket.valid && ticket.ownerID == cfg.ownerIdentity && ticket.sessionGeneration == cfg.session &&
    ticket.lane == slot.lane &&
    Lane.all.all fun lane => (s.indices cfg lane).all fun idx =>
      (lane == ref.lane && idx == ref.slotIndex) || !((s.lanes lane).slots idx).ticket.valid ||
        !sameCapability ((s.lanes lane).slots idx).ticket ticket

def ticketSlot (ticket : Ticket) (slot : Slot) : Slot :=
  { slot with ticket := ticket, state := .ticketed }

/-- The staging half of a round: the ticket goes into the slot, or the slot out of
the queue.  `answer` is what `Stage` returned, `none` an error or a panic. -/
def stage (cfg : Config) (s : SlotScheduler) (ref : Ref) (slot : Slot) (answer : Option Ticket) :
    SlotScheduler × Option Ticket :=
  match answer with
  | none => (s.removeRef cfg ref, none)
  | some ticket =>
    if s.ticketValid cfg ref slot ticket then
      (s.writeRef ref (ticketSlot ticket slot), some ticket)
    else (s.removeRef cfg ref, none)

/-! ## Preparation -/

/-- `lateResponseSelection`: what goes out, once it is not `pending`. -/
structure Selection where
  result : Result := .pending
  actualLength : Nat := 0
  deriving DecidableEq

/-- The checks of `writeLateRetSubmit` on a selection, before anything is written. -/
def Selection.sendable (selection : Selection) (maxPayload : Nat) : Bool :=
  match selection.result with
  | .pending | .invalid => false
  | .data => selection.actualLength ≤ maxPayload
  | .success => true
  | .stall => selection.actualLength == 0

def responseWindow (cfg : Config) (slot : Slot) : Nat :=
  match slot.lane with
  | some .control =>
    if slot.direction != some .dirIn then 0
    else min cfg.limits.maximumControlResponse (min slot.transferLength (setupLength slot.setup))
  | some .interruptIn => min cfg.limits.maximumInterruptIn slot.transferLength
  | _ => 0

/-- The `expected` length of a success. -/
def expectedLength (slot : Slot) : Nat :=
  if slot.direction == some .dirOut then slot.transferLength else 0

/-- `validatePreparationLocked`; `none` is its error. -/
def validatePreparation {Q : Type} (s : Scheduler Q) (slot : Slot) (p : Preparation)
    (window : Nat) (attemptAt : Int) : Option Selection :=
  match p.result with
  | .invalid => none
  | .pending =>
    if p.actualLength != 0 || p.retryAt.any (· ≤ attemptAt) ||
        p.readinessEpoch < s.lastReadinessEpoch || p.readinessEpoch == maxUint64 then none
    else some {}
  | .data =>
    if p.retryAt.isSome || p.readinessEpoch != 0 then none
    else if p.actualLength == 0 || slot.lane == some .interruptOut ||
        (slot.lane == some .control && slot.direction != some .dirIn) ||
        p.actualLength > window then none
    else some ⟨.data, p.actualLength⟩
  | .success =>
    if p.retryAt.isSome || p.readinessEpoch != 0 then none
    else if slot.lane == some .interruptIn then none
    else if p.actualLength != expectedLength slot then none
    else some ⟨.success, p.actualLength⟩
  | .stall =>
    if p.retryAt.isSome || p.readinessEpoch != 0 then none
    else if slot.lane == some .interruptIn || p.actualLength != 0 then none
    else some ⟨.stall, 0⟩

/-- The window never exceeds the reserved payload. -/
theorem responseWindow_le (cfg : Config) (slot : Slot) :
    responseWindow cfg slot ≤ cfg.maximumResponseLength := by
  unfold responseWindow Config.maximumResponseLength
  split
  · split
    · exact Nat.zero_le _
    · exact Nat.le_trans (Nat.min_le_left _ _) (Nat.le_max_left _ _)
  · exact Nat.le_trans (Nat.min_le_left _ _) (Nat.le_max_right _ _)
  · exact Nat.zero_le _

/-- **A validated terminal preparation is always sent**: the serializer has no reason
left to refuse it. -/
theorem validatePreparation_sendable {Q : Type} {cfg : Config} {s : Scheduler Q} {slot : Slot}
    {p : Preparation} {attemptAt : Int} {selection : Selection}
    (h : s.validatePreparation slot p (responseWindow cfg slot) attemptAt = some selection)
    (hterminal : selection.result ≠ .pending) : selection.sendable cfg.maximumResponseLength := by
  unfold validatePreparation at h
  split at h
  · cases h
  · split at h
    · cases h
    · cases h
      exact absurd rfl hterminal
  · split at h
    · cases h
    split at h
    · cases h
    rename_i hbad
    cases h
    simp only [Bool.or_eq_true, decide_eq_true_eq, not_or, Nat.not_lt] at hbad
    exact decide_eq_true (Nat.le_trans hbad.2 (responseWindow_le cfg slot))
  · split at h
    · cases h
    split at h
    · cases h
    split at h
    · cases h
    · cases h
      rfl
  · split at h
    · cases h
    split at h
    · cases h
    cases h
    rfl

def advanceEndpointCadence {Q : Type} (cfg : Config) (s : Scheduler Q) (lane : Lane) (now : Int) :
    Scheduler Q :=
  let interval := cfg.endpointIntervals lane
  if interval ≤ 0 then s
  else
    let next := match s.endpointNextService lane with
      | none => now
      | some next => if now - next ≥ interval then now else next
    { s with
      endpointNextService := update s.endpointNextService lane (some (next + interval)) }

/-- How the preparation callback of `attempt` ends.  `lost` is `lostOwnership`, with
the ticket if `Prepare` was called first. -/
inductive Prepared
  | lost (asked : Option Ticket)
  | failed (ticket : Ticket)
  | pending (ticket : Ticket) (epoch : Nat)
  | admitted (ticket : Ticket) (selection : Selection) (lifecycleTerminalSuccess : Bool)

/-- The preparation callback is still about its own slot, at the head of its lane. -/
def mayPrepare (cfg : Config) (s : SlotScheduler) (ref : Ref) (slot : Slot) : Bool :=
  !s.closed && !s.cancelled && slot.state.staged && slot.sessionGeneration == cfg.session &&
    (s.indices cfg ref.lane).head? == some ref.slotIndex

/-- The slot after a preparation which stays pending. -/
def pendSlot (epoch : Nat) (retryAt : Option Int) (slot : Slot) : Slot :=
  { slot with state := .pending, pendingReadinessEpoch := epoch, retryAt := retryAt }

/-- The slot after a terminal preparation. -/
def admitSlot (slot : Slot) : Slot :=
  { slot with state := .admitted, pendingReadinessEpoch := 0, retryAt := none }

/-- What follows a validated terminal preparation. -/
def admitSelection (cfg : Config) (s : SlotScheduler) (ref : Ref) (slot : Slot)
    (selection : Selection) (selectedAt : Int) : SlotScheduler × Prepared :=
  let lifecycle := slot.controlLifecycle.accepted && selection.result == .success
  if lifecycle && s.lifecycleCompletionPending then (s, .failed slot.ticket)
  else
    let s := (s.writeRef ref (admitSlot slot)).advanceEndpointCadence cfg ref.lane selectedAt
    ({ s with lifecycleCompletionPending := s.lifecycleCompletionPending || lifecycle },
      .admitted slot.ticket selection lifecycle)

/-- The preparation callback of `attempt`.  `answer` is what `Prepare` returned, and
`cancels` whether the context was cancelled while it ran. -/
def prepare (cfg : Config) (s : SlotScheduler) (ref : Ref) (selectedAt : Int)
    (answer : Option Preparation) (cancels : Bool) : SlotScheduler × Prepared :=
  match s.slotForRef cfg ref with
  | none => (s, .lost none)
  | some slot =>
    if !s.mayPrepare cfg ref slot then (s, .lost none)
    else
      let s := { s with cancelled := cancels }
      match answer with
      | none => (s, .failed slot.ticket)
      | some p =>
        if cancels then (s, .lost (some slot.ticket))
        else
          match s.validatePreparation slot p (responseWindow cfg slot) selectedAt with
          | none => (s, .failed slot.ticket)
          | some selection =>
            if selection.result == .pending then
              (s.writeRef ref (pendSlot p.readinessEpoch p.retryAt slot),
                .pending slot.ticket p.readinessEpoch)
            else s.admitSelection cfg ref slot selection selectedAt

/-! ## Completion -/

section Lifecycle

variable {Q : Type} (cfg : Config) (s : Scheduler Q)

def releaseLifecycleBarrier : Scheduler Q := { s with lifecycleCompletionPending := false }

def resetEndpointCadence (lifecycle : ControlLifecycle) : Scheduler Q :=
  { s with
    endpointNextService := fun lane =>
      if lane == .interruptIn && lifecycle.routeMatches cfg.limits.interruptInRoute ||
          lane == .interruptOut && lifecycle.routeMatches cfg.limits.interruptOutRoute then none
      else s.endpointNextService lane }

def applyControlLifecycleRouting (lifecycle : ControlLifecycle) : Scheduler Q :=
  let s := s.resetEndpointCadence cfg lifecycle
  match lifecycle.kind with
  | .setInterface => { s with activeAlternateSetting := lifecycle.alternateSetting }
  | .setConfiguration =>
    { s with
      activeConfiguration := lifecycle.configurationValue
      activeAlternateSetting := 0 }
  | _ => s

end Lifecycle

/-- How the section of the completion callback after `Complete` ends: the slot was
not the admitted one, or it is released, with the successor generation if the
lifecycle is to be applied. -/
inductive Settled
  | mismatch
  | released (lifecycle : ControlLifecycle) (successor : Option Nat)

/-- The completion callback of `attempt`, from `Complete` to the end of its first
section. -/
def settle (cfg : Config) (s : SlotScheduler) (ref : Ref) (ticket : Ticket)
    (lifecycleTerminalSuccess delivered completed : Bool) : SlotScheduler × Settled :=
  match s.slotForRef cfg ref with
  | none =>
    (if lifecycleTerminalSuccess then s.releaseLifecycleBarrier else s, .mismatch)
  | some slot =>
    if slot.state != .admitted || slot.ticket != ticket then
      (if lifecycleTerminalSuccess then s.releaseLifecycleBarrier else s, .mismatch)
    else if delivered && completed && lifecycleTerminalSuccess && cfg.controlLifecycle.isSome &&
        s.bindingGeneration != maxUint64 then
      ({ s.removeRef cfg ref with bindingGeneration := s.bindingGeneration + 1 },
        .released slot.controlLifecycle (some (s.bindingGeneration + 1)))
    else (s.removeRef cfg ref, .released slot.controlLifecycle none)

/-! ## Retirement -/

/-- What `retireMatching` is asked to retire. -/
inductive Scope
  | lane (lane : Lane)
  | binding (lane : Lane) (route : Route) (bindingGeneration : Nat)
  | session (sessionGeneration : Nat)
  | lifecycle (lifecycle : ControlLifecycle) (successor : Nat)

def Scope.covers : Scope → Slot → Bool
  | .lane l, slot => slot.lane == some l
  | .binding l route generation, slot =>
    slot.lane == some l && slot.route == route && slot.bindingGeneration == generation
  | .session generation, slot => slot.sessionGeneration == generation
  | .lifecycle setup successor, slot =>
    slot.lane != some .control && slot.bindingGeneration < successor &&
      setup.routeMatches slot.route

/-- `retireDeliveredControlLifecycle`: what it retires, and why. -/
def lifecycleScope (lifecycle : ControlLifecycle) (successor : Nat) :
    Option (Scope × RetireReason) :=
  if !lifecycle.accepted || successor == 0 then none
  else
    match lifecycle.kind with
    | .none => none
    | .clearEndpointHalt => some (.lifecycle lifecycle successor, .endpointReset)
    | .setInterface => some (.lifecycle lifecycle successor, .interfaceReset)
    | .setConfiguration => some (.lifecycle lifecycle successor, .configurationChange)

/-- The requests which a caller outside the arbiter may make. -/
inductive RetireCall
  | retireLane (lane : Option Lane)
  | retireBinding (route : Route) (bindingGeneration : Nat)
  | retireSession (sessionGeneration : Nat)

/-- The argument checks of `retireLane`, `retireBinding` and `retireSession`. -/
def retireScope (cfg : Config) : RetireCall → Option Scope
  | .retireLane lane => lane.map .lane
  | .retireBinding route generation =>
    if generation == 0 then none
    else if route == cfg.limits.interruptInRoute then
      some (.binding .interruptIn route generation)
    else if route == cfg.limits.interruptOutRoute then
      some (.binding .interruptOut route generation)
    else none
  | .retireSession generation =>
    if generation != 0 && generation == cfg.session then some (.session generation) else none

def retireSlot (slot : Slot) : Slot := { slot with state := .lifecycleRetired }

/-- The body of the loops of `retireMatching`. -/
def visit (scope : Scope) (lane : Lane) (idx : Nat) (slot : Slot) :
    SlotQueue.Verdict Slot Retirement :=
  if !scope.covers slot || slot.state == .admitted || slot.state == .terminal ||
      slot.state == .lifecycleRetired then .skip
  else if slot.state == .rawQueued then .drop
  else .mark (retireSlot slot) ⟨⟨lane, idx, slot.ingressOrdinal⟩, slot.ticket⟩

/-- The inner loop of `retireMatching`: one lane, from its newest job back. -/
def retireLaneMatching (cfg : Config) (scope : Scope) (acc : SlotScheduler × List Retirement)
    (lane : Lane) : SlotScheduler × List Retirement :=
  let r := (acc.1.lanes lane).scanBack (cfg.depth lane) {} (visit scope lane)
    (acc.1.lanes lane).order.count acc.2
  (acc.1.setLane lane r.1, r.2)

/-- `retireMatching`, up to its unlock. -/
def retireMatching (cfg : Config) (s : SlotScheduler) (scope : Scope) :
    SlotScheduler × List Retirement :=
  Lane.all.foldl (retireLaneMatching cfg scope) (s, [])

/-- `retireRefIfOwned`, up to its unlock. -/
def claimRef (cfg : Config) (s : SlotScheduler) (ref : Ref) : SlotScheduler × List Retirement :=
  match s.slotForRef cfg ref with
  | none => (s, [])
  | some slot =>
    if slot.state.staged then (s.writeRef ref (retireSlot slot), [⟨ref, slot.ticket⟩])
    else (s, [])

/-- The section of `retireOne` after the owner's `Retire`. -/
def releaseRetired (cfg : Config) (s : SlotScheduler) (ref : Ref) : SlotScheduler :=
  match s.slotForRef cfg ref with
  | none => s
  | some slot => if slot.state == .lifecycleRetired then s.removeRef cfg ref else s

/-- `unlink`, up to its unlock: the slot removed, if any, and what is to be retired. -/
def unlink (cfg : Config) (s : SlotScheduler) (sequence : UInt32) :
    SlotScheduler × Option Slot × List Retirement :=
  match s.findSequence cfg sequence with
  | none => (s, none, [])
  | some (ref, slot) =>
    if slot.state == .admitted || slot.state == .terminal ||
        slot.state == .lifecycleRetired then (s, none, [])
    else if slot.state == .rawQueued then (s.removeRef cfg ref, some slot, [])
    else (s.writeRef ref (retireSlot slot), some slot, [⟨ref, slot.ticket⟩])

end Scheduler

end Viiper.Ports.Retained
