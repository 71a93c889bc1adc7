import Viiper.Verified.Run
import Viiper.Ports.RetainedSubmission

/-!
# The arbiter and its callers

Who runs the sections of `RetainedSubmission`.  At most one goroutine holds the service
token: it polls the owner, picks a lane's head, stages and prepares it, and once it is
admitted sends the response, completes the ticket and releases the slot.  Meanwhile the
command reader frames, enqueues and unlinks; others retire, reset and shut down.  The
owner's `Complete` and `Retire` are called without the lock, so everything may happen
between a slot's last change and the call which follows it.

Conventions of the port:

* one step is one section under the lock, one callback made without it, or one change of
  the context or of an atomic;
* rounds and shutdowns are started by anyone at any time; the fixed order of `run` and
  `close` makes fewer runs;
* each caller works off its own list of retirements, `retiring`: the local array of
  `retireMatching`, or the one ticket of `unlink` or `retireRefIfOwned`;
* a step which its caller cannot take changes nothing;
* `commands` counts the headers whose sequence was reserved, and `shutDown` is whether a
  `shutdown` has returned.  No branch reads them.
-/

namespace Viiper.Ports.Retained

open Verified Function Scheduler

/-! ## Callers -/

/-- Who has called: the holder of the service token, the command reader, anyone. -/
inductive Caller
  | service
  | reader
  | other (n : Nat)
  deriving DecidableEq

/-- The retirements a caller still has to make.  `called` is whether `Retire` of the
first has returned, `failed` whether any of them returned an error. -/
structure Retiring where
  todo : List Retirement := []
  (called failed : Bool := false)
  reason : RetireReason := .unlink

/-- What `attempt` remembers from the preparation on. -/
structure Admission where
  ref : Ref
  sequence : UInt32
  ticket : Ticket
  selection : Selection
  lifecycleTerminalSuccess : Bool

/-- Where the holder of the service token is. -/
inductive Pc
  | idle
  | polling (now : Int)
  | sampling (now : Int)
  | selecting (round : Round)
  | sequencing (round : Round) (ref : Ref)
  | preparing (round : Round) (ref : Ref) (sequence : UInt32)
  | pended (round : Round) (ref : Ref) (epoch : Nat)
  | failing (ref : Ref)
  | failed
  | sending (a : Admission)
  | completing (a : Admission) (delivered : Bool)
  | settling (a : Admission) (delivered completed : Bool)
  | sweeping (lifecycle : ControlLifecycle) (successor : Nat)
  | swept (lifecycle : ControlLifecycle)
  | routing (lifecycle : ControlLifecycle) (published : Bool)
  | drainChecking (reset : ImportResetLease)
  | drainSweeping (reset : ImportResetLease)
  | drained (reset : ImportResetLease)

/-- What a call outside the arbiter is: it tells what follows its retirements. -/
inductive CallKind
  | unlink | retire | shutdown
  deriving DecidableEq

inductive CallPc
  | idle
  | cancelling (reason : RetireReason)
  | sweeping (reason : RetireReason)
  | retiring (kind : CallKind)
  deriving DecidableEq

/-! ## The command reader's commands -/

structure Header where
  (command seq dir ep devid : UInt32)
  unlink : UInt32 := 0
  transferLength : Nat := 0
  packets : Int := 0
  setup : Vector UInt8 8 := zeroSetup

def cmdSubmitCode : UInt32 := 1
def cmdUnlinkCode : UInt32 := 2
def dirOut : UInt32 := 0
def dirIn : UInt32 := 1
def maxIsoPackets : Int := 1024
def errConnReset : Int := -104
def errPipe : Int := -32
def errNoSpace : Int := -28

/-- A response the reader writes itself. -/
inductive Reply
  | retUnlink (status : Int)
  | retSubmit (status : Int) (isoPackets : Bool)
  deriving DecidableEq

/-- `retainedEnvelopeForSubmission`. -/
def envelopeForSubmission (limits : Limits) (h : Header) (outPayload : List UInt8)
    (bindingGeneration : Nat) : Option Envelope :=
  if bindingGeneration == 0 then none
  else
    match (if h.dir == dirIn then some Direction.dirIn
      else if h.dir == dirOut then some Direction.dirOut else none) with
    | none => none
    | some direction =>
      let envelope : Envelope :=
        { lane := none
          direction := some direction
          sequence := h.seq
          transferLength := h.transferLength
          setup := h.setup
          bindingGeneration := bindingGeneration }
      if h.ep == 0 then
        if setupDirectionIn h.setup != (direction == .dirIn) ||
            setupLength h.setup != h.transferLength then none
        else
          match direction with
          | .dirIn =>
            if outPayload.length != 0 then none
            else some { envelope with lane := some .control }
          | .dirOut =>
            if h.transferLength > limits.maximumControlOut ||
                outPayload.length != h.transferLength then none
            else some { envelope with lane := some .control, data := outPayload }
      else if h.setup != zeroSetup || h.ep > 15 then none
      else
        match direction with
        | .dirIn =>
          let route := limits.interruptInRoute
          if (route.endpointAddress &&& 0x0f).toUInt32 != h.ep || h.transferLength == 0 ||
              h.transferLength > limits.maximumInterruptIn then none
          else some { envelope with lane := some .interruptIn, route := route }
        | .dirOut =>
          let route := limits.interruptOutRoute
          if (route.endpointAddress &&& 0x0f).toUInt32 != h.ep || h.transferLength == 0 ||
              h.transferLength > limits.maximumInterruptOut ||
              outPayload.length != h.transferLength then none
          else
            some { envelope with lane := some .interruptOut, route := route, data := outPayload }

/-- What the reader does with a framed header. -/
inductive Framed
  | stop
  | unlink (sequence : UInt32)
  | reply (reply : Reply)
  | submit (e : Envelope)

/-- The body of the loop of `handleRetainedURBStream` between the reservation and
the next use of the scheduler.  `payload` and `isoRead` are what the socket gives:
`none` and `false` are read failures. -/
def classify (cfg : Config) (h : Header) (payload : Option (List UInt8)) (isoRead : Bool) :
    Framed :=
  if h.dir != dirOut && h.dir != dirIn then .stop
  else if h.ep > 15 then .stop
  else if h.command == cmdUnlinkCode then .unlink h.unlink
  else if h.command != cmdSubmitCode then .stop
  else if h.transferLength > maximumTransferSize then .stop
  else if h.packets < -1 || h.packets > maxIsoPackets then .stop
  else
    match (if h.dir == dirOut && h.transferLength > 0 then payload else some []) with
    | none => .stop
    | some outPayload =>
      if h.packets > 0 then
        if isoRead then .reply (.retSubmit errPipe true) else .stop
      else
        match envelopeForSubmission cfg.limits h outPayload cfg.session with
        | none => .reply (.retSubmit errPipe false)
        | some e => .submit e

/-- Where the command reader is. -/
inductive ReaderPc
  | reading
  | framed (h : Header)
  | unlinking (sequence : UInt32)
  | finishing (sequence : UInt32) (reply : Reply)
  | replying (sequence : UInt32) (reply : Reply)
  | enqueueing (e : Envelope)
  | stopped

/-! ## The system -/

/-- The scheduler and everyone who is inside one of its methods. -/
structure System (Q : Type) extends Scheduler Q where
  pc : Pc := .idle
  retiring : Caller → Retiring := fun _ => {}
  calls : Nat → CallPc := fun _ => .idle
  reader : ReaderPc := .reading
  commands : Nat := 0
  shutDown : Bool := false

abbrev SlotSystem := System (SlotQueue Slot)

def newSystem (cfg : Config) (epoch : Nat) : SlotSystem :=
  { newScheduler cfg epoch with }

/-- How one call of `Prepare` ended. -/
inductive Outcome
  | pending
  | admitted (lifecycleTerminalSuccess : Bool)
  /-- An error, a panic, or a result which was not accepted. -/
  | failed
  /-- The context was cancelled meanwhile. -/
  | dropped
  deriving DecidableEq

/-- What a step lets the outside see: the owner's callbacks, the socket, and the
answers of the methods.  Submissions are named by their ingress ordinal. -/
inductive Label
  | quiet
  | enqueued (ordinal : Nat) (sequence : UInt32) (command : Option Nat)
  | refused (err : Err)
  | staged (request : Request) (ticket : Ticket)
  | prepared (ordinal : Nat) (ticket : Ticket) (outcome : Outcome)
  | sent (ordinal : Nat) (sequence : UInt32) (selection : Selection)
  | completed (ordinal : Nat) (ticket : Ticket) (delivered completed : Bool)
  | rotated (lifecycle : ControlLifecycle) (successor : Nat)
  | published (lifecycle : ControlLifecycle)
  | released
  | retired (ordinal : Nat) (ticket : Ticket) (reason : RetireReason)
  | unlinked (ordinal : Nat) (sequence : UInt32)
  | framed (command : Nat) (sequence : UInt32)
  | replied (command : Nat) (sequence : UInt32) (reply : Reply)
  deriving DecidableEq

/-- What the nonblocking receive of a readiness sample finds: nothing, a closed
channel, or a signal, after which the owner is asked again. -/
inductive Latch
  | empty
  | closed
  | signal (second : Option (Nat × Bool))

/-- A sample of the owner's readiness: `none` is a panic, the flag whether the
channel is the expected one. -/
structure Readiness where
  first : Option (Nat × Bool) := none
  latch : Latch := .empty

/-- `retainedReadinessValid`. -/
def readinessValid (minimum : Nat) (sample : Nat × Bool) : Bool :=
  sample.2 && sample.1 != maxUint64 && minimum ≤ sample.1

/-- `sampleRetainedReadiness`. -/
def sampleReadiness (minimum : Nat) (r : Readiness) : Option Nat :=
  match r.first with
  | none => none
  | some first =>
    if !readinessValid minimum first then none
    else
      match r.latch with
      | .empty => some first.1
      | .closed | .signal none => none
      | .signal (some second) =>
        if readinessValid first.1 second then some second.1 else none

/-- The owner's answer to `RetainedImportRetirement`: `none` is an error or a panic;
an owner without the method never asks. -/
abbrev Poll := Option ImportRetirementRequest

/-- What the outside answers to one step of the token's holder. -/
structure Env where
  poll : Poll := some {}
  readiness : Readiness := {}
  resolved : ControlLifecycle := {}
  ticket : Option Ticket := none
  selectedAt : Int := 0
  preparation : Option Preparation := none
  cancels : Bool := false
  (delivered completed beforeDeadline : Bool := true)

/-- What the socket gives the command reader. -/
structure Input where
  header : Option Header := none
  payload : Option (List UInt8) := none
  isoRead : Bool := false
  written : Bool := true

inductive Op
  | startRound (now : Int)
  | startDrain (reservation : Nat) (reset : ImportResetLease) (beforeDeadline : Bool)
  | service (env : Env)
  | read (input : Input)
  | enqueue (e : Envelope)
  | unlink (n : Nat) (sequence : UInt32)
  | retireMatching (n : Nat) (call : RetireCall) (reason : RetireReason)
  | shutdown (n : Nat) (reason : RetireReason)
  | proceed (n : Nat)
  | retire (c : Caller) (succeeds : Bool)
  | release (c : Caller)
  | cancel
  | close
  | recordFailure
  | activateImport (reservation : Nat)
  | openAdmission (reservation : Nat)
  | closeAdmission (reservation : Nat)
  | fenceReset (reservation : Nat) (reset : ImportResetLease)
  | reopenAfterReset (reservation : Nat) (reset : ImportResetLease)

namespace System

variable {Q : Type}

def setScheduler (s : System Q) (t : Scheduler Q) : System Q := { s with toScheduler := t }

def setPc (s : System Q) (pc : Pc) : System Q := { s with pc := pc }

def setRetiring (s : System Q) (c : Caller) (r : Retiring) : System Q :=
  { s with retiring := update s.retiring c r }

def setCall (s : System Q) (n : Nat) (pc : CallPc) : System Q :=
  { s with calls := update s.calls n pc }

/-! ## The holder of the service token -/

/-- The retirement request is this import's own. -/
def requestAuthentic (cfg : Config) (s : System Q) (request : ImportRetirementRequest) : Bool :=
  request.valid && cfg.reservation.isSome && request.lease == cfg.lease &&
    request.lease.ownerID == cfg.ownerIdentity &&
    request.lease.sessionGeneration == cfg.session && s.importActivated && s.started

/-- The rest of `pollImportRetirement` after a request: the round ends with an error,
and the first authentic request closes the gate. -/
def noteRetirement (cfg : Config) (s : System Q) (request : ImportRetirementRequest) : System Q :=
  if !s.requestAuthentic cfg request || s.failed ||
      (s.retirement.valid && s.retirement != request) || s.closed || s.cancelled then s
  else { s with retirement := request, activation := .revoked, admissionOpen := false }

/-- `serviceRound` from the token to the readiness sample. -/
def poll (cfg : Config) (s : System Q) (now : Int) (answer : Poll) : System Q :=
  if s.cancelled then s.setPc .idle
  else
    match answer with
    | none => s.setPc .idle
    | some request =>
      if request == {} then s.setPc (.sampling now)
      else (s.noteRetirement cfg request).setPc .idle

/-- The first readiness sample of a round. -/
def sample (s : System Q) (now : Int) (readiness : Readiness) : System Q :=
  match sampleReadiness s.lastReadinessEpoch readiness with
  | none => s.setPc .idle
  | some epoch =>
    { s with lastReadinessEpoch := epoch, pc := .selecting ⟨now, epoch, fun _ => false⟩ }

/-- The section of a round which picks a slot and stages it. -/
def select (cfg : Config) (s : SlotSystem) (round : Round) (env : Env) : SlotSystem × Label :=
  if s.closed || s.cancelled then (s.setPc .idle, .quiet)
  else
    match s.oldestEligible cfg round with
    | none => (s.setPc .idle, .quiet)
    | some ref =>
      let slot := (s.lanes ref.lane).slots ref.slotIndex
      if slot.state == .rawQueued then
        let slot := s.refresh cfg env.resolved slot
        match s.stage cfg ref slot env.ticket with
        | (t, none) => ((s.setScheduler t).setPc .idle, .quiet)
        | (t, some ticket) =>
          ((s.setScheduler t).setPc (.sequencing round ref), .staged (requestForSlot slot) ticket)
      else (s.setPc (.sequencing round ref), .quiet)

/-- The preparation callback, under the response lock. -/
def prepareStep (cfg : Config) (s : SlotSystem) (round : Round) (ref : Ref) (sequence : UInt32)
    (env : Env) : SlotSystem × Label :=
  let selectedAt := if cfg.endpointCadenceConfigured then env.selectedAt else round.now
  match s.prepare cfg ref selectedAt env.preparation env.cancels with
  | (t, .lost none) => ((s.setScheduler t).setPc (.selecting round), .quiet)
  | (t, .lost (some ticket)) =>
    ((s.setScheduler t).setPc (.selecting round), .prepared ref.ingressOrdinal ticket .dropped)
  | (t, .failed ticket) =>
    ((s.setScheduler t).setPc (.failing ref), .prepared ref.ingressOrdinal ticket .failed)
  | (t, .pending ticket epoch) =>
    ((s.setScheduler t).setPc (.pended round ref epoch),
      .prepared ref.ingressOrdinal ticket .pending)
  | (t, .admitted ticket selection lifecycle) =>
    ((s.setScheduler t).setPc (.sending ⟨ref, sequence, ticket, selection, lifecycle⟩),
      .prepared ref.ingressOrdinal ticket (.admitted lifecycle))

/-- The end of an attempt which stayed pending: the owner must have published the
epoch it answered with. -/
def recheck (s : System Q) (round : Round) (ref : Ref) (epoch : Nat) (readiness : Readiness) :
    System Q :=
  if s.cancelled then s.setPc (.selecting round)
  else
    match sampleReadiness s.lastReadinessEpoch readiness with
    | none => s.setPc (.failing ref)
    | some published =>
      { s with
        lastReadinessEpoch := published
        pc := if published < epoch then .failing ref
          else .selecting { round with attempted := update round.attempted ref.lane true } }

/-- The section of the completion callback after `Complete`. -/
def settleStep (cfg : Config) (s : SlotSystem) (a : Admission) (delivered completed : Bool) :
    SlotSystem × Label :=
  match s.settle cfg a.ref a.ticket a.lifecycleTerminalSuccess delivered completed with
  | (t, .mismatch) => ((s.setScheduler t).setPc .idle, .quiet)
  | (t, .released lifecycle (some successor)) =>
    ((s.setScheduler t).setPc (.sweeping lifecycle successor), .rotated lifecycle successor)
  | (t, .released lifecycle none) =>
    ((s.setScheduler t).setPc
      (if a.lifecycleTerminalSuccess then .routing lifecycle false else .idle), .quiet)

/-- A sweep under the lock; what it collected is the caller's to retire. -/
def sweep (cfg : Config) (s : SlotSystem) (c : Caller) (scope : Scope) (reason : RetireReason) :
    SlotSystem :=
  let r := s.retireMatching cfg scope
  (s.setScheduler r.1).setRetiring c { todo := r.2, reason := reason }

/-- The sweep of a delivered lifecycle response. -/
def lifecycleSweep (cfg : Config) (s : SlotSystem) (lifecycle : ControlLifecycle)
    (successor : Nat) : SlotSystem :=
  match lifecycleScope lifecycle successor with
  | none => s.setPc (.routing lifecycle false)
  | some (scope, reason) => (s.sweep cfg .service scope reason).setPc (.swept lifecycle)

/-- The last section of the completion callback.  `publishControlLifecycle` has been
called before it if `published`. -/
def route (cfg : Config) (s : System Q) (lifecycle : ControlLifecycle) (published : Bool) :
    System Q × Label :=
  if published then
    ((s.setScheduler
      (s.applyControlLifecycleRouting cfg lifecycle).releaseLifecycleBarrier).setPc .idle,
      .published lifecycle)
  else ((s.setScheduler s.releaseLifecycleBarrier).setPc .idle, .released)

/-- The fence of this reset is latched and nothing has revoked the import. -/
def fenced (s : System Q) (reset : ImportResetLease) : Bool :=
  s.resetActive && s.resetFence == reset && !s.admissionOpen && s.activation == .started

/-- The check of `resetAndDrain` before its sweep. -/
def drainCheck (s : System Q) (reset : ImportResetLease) (beforeDeadline : Bool) : System Q :=
  if beforeDeadline && s.importActivated && s.started && !s.closed && !s.cancelled && !s.failed &&
      s.fenced reset && !s.resetDrained then s.setPc (.drainSweeping reset)
  else s.setPc .idle

/-- The last section of `resetAndDrain`. -/
def drainFinish (cfg : Config) (s : SlotSystem) (reset : ImportResetLease)
    (beforeDeadline : Bool) : SlotSystem :=
  if (s.retiring .service).failed then s.setPc .idle
  else
    { s with
      resetDrained := s.resetDrained ||
        (beforeDeadline && !s.closed && !s.cancelled && !s.failed && s.fenced reset &&
          s.toScheduler.isEmpty cfg)
      pc := .idle }

/-- One step of the holder of the service token. -/
def serviceStep (cfg : Config) (s : SlotSystem) (env : Env) : SlotSystem × Label :=
  match s.pc with
  | .idle => (s, .quiet)
  | .polling now => (s.poll cfg now env.poll, .quiet)
  | .sampling now => (s.sample now env.readiness, .quiet)
  | .selecting round => s.select cfg round env
  | .sequencing round ref =>
    (s.setPc (.preparing round ref (((s.slotForRef cfg ref).map (·.sequence)).getD 0)), .quiet)
  | .preparing round ref sequence => s.prepareStep cfg round ref sequence env
  | .pended round ref epoch => (s.recheck round ref epoch env.readiness, .quiet)
  | .failing ref =>
    let r := s.claimRef cfg ref
    (((s.setScheduler r.1).setRetiring .service
      { todo := r.2, reason := .prepareFailure }).setPc .failed, .quiet)
  | .failed => (if (s.retiring .service).todo = [] then s.setPc .idle else s, .quiet)
  | .sending a =>
    if a.selection.sendable cfg.maximumResponseLength then
      (s.setPc (.completing a env.delivered), .sent a.ref.ingressOrdinal a.sequence a.selection)
    else (s.setPc (.failing a.ref), .quiet)
  | .completing a delivered =>
    (s.setPc (.settling a delivered env.completed),
      .completed a.ref.ingressOrdinal a.ticket delivered env.completed)
  | .settling a delivered completed => s.settleStep cfg a delivered completed
  | .sweeping lifecycle successor => (s.lifecycleSweep cfg lifecycle successor, .quiet)
  | .swept lifecycle =>
    (if (s.retiring .service).todo = [] then
      s.setPc (.routing lifecycle (!(s.retiring .service).failed)) else s, .quiet)
  | .routing lifecycle published => s.route cfg lifecycle published
  | .drainChecking reset => (s.drainCheck reset env.beforeDeadline, .quiet)
  | .drainSweeping reset =>
    ((s.sweep cfg .service (.session cfg.session) .deviceReset).setPc (.drained reset), .quiet)
  | .drained reset =>
    (if (s.retiring .service).todo = [] then s.drainFinish cfg reset env.beforeDeadline else s,
      .quiet)

/-! ## The command reader -/

/-- The end of the stream: the deferred `abandonFramingSequence`. -/
def stopReader (s : System Q) (reserved : Option UInt32) : System Q :=
  { s with
    toScheduler := match reserved with
      | none => s.toScheduler
      | some sequence => s.toScheduler.dropFraming sequence
    reader := .stopped }

/-- A header has arrived. -/
def readHeader (cfg : Config) (s : SlotSystem) (header : Option Header) : SlotSystem × Label :=
  match header with
  | none => (s.stopReader none, .quiet)
  | some h =>
    if h.devid != cfg.wireDeviceID then (s.stopReader none, .quiet)
    else
      match s.reserveFramingSequence cfg h.seq (s.sequencePending cfg h.seq) with
      | .error err => (s.stopReader none, .refused err)
      | .ok t =>
        ({ s.setScheduler t with reader := .framed h, commands := s.commands + 1 },
          .framed (s.commands + 1) h.seq)

/-- The framed command is acted on. -/
def readBody (cfg : Config) (s : SlotSystem) (h : Header) (input : Input) : SlotSystem × Label :=
  match classify cfg h input.payload input.isoRead with
  | .stop => (s.stopReader (some h.seq), .quiet)
  | .unlink sequence =>
    match s.unlink cfg sequence with
    | (_, none, _) => ({ s with reader := .finishing h.seq (.retUnlink 0) }, .quiet)
    | (t, some slot, todo) =>
      ({ (s.setScheduler t).setRetiring .reader { todo := todo, reason := .unlink } with
          reader := if todo = [] then .finishing h.seq (.retUnlink errConnReset)
            else .unlinking h.seq },
        .unlinked slot.ingressOrdinal sequence)
  | .reply reply => ({ s with reader := .finishing h.seq reply }, .quiet)
  | .submit e => ({ s with reader := .enqueueing e }, .quiet)

/-- One turn of `enqueueReservedAfterVisibleCompletion` and what the reader makes of
its error. -/
def readEnqueue (cfg : Config) (s : SlotSystem) (e : Envelope) : SlotSystem × Label :=
  match s.enqueue cfg e true with
  | .ok t =>
    ({ s.setScheduler t with reader := .reading },
      .enqueued (s.nextOrdinal + 1) e.sequence (some s.commands))
  | .error .visibleCompletionPending => (s, .refused .visibleCompletionPending)
  | .error .lifecycleCompletionPending => (s, .refused .lifecycleCompletionPending)
  | .error .inactiveRoute =>
    ({ s with reader := .finishing e.sequence (.retSubmit errPipe false) }, .refused .inactiveRoute)
  | .error .queueFull =>
    ({ s with reader := .finishing e.sequence (.retSubmit errNoSpace false) }, .refused .queueFull)
  | .error err => (s.stopReader (some e.sequence), .refused err)

/-- One step of `handleRetainedURBStream`. -/
def readerStep (cfg : Config) (s : SlotSystem) (input : Input) : SlotSystem × Label :=
  match s.reader with
  | .reading => s.readHeader cfg input.header
  | .framed h => s.readBody cfg h input
  | .unlinking sequence =>
    if (s.retiring .reader).todo = [] then
      if (s.retiring .reader).failed then
        ({ s with failed := true }.stopReader (some sequence), .quiet)
      else ({ s with reader := .finishing sequence (.retUnlink errConnReset) }, .quiet)
    else (s, .quiet)
  | .finishing sequence reply =>
    if s.framingSequences.contains sequence then
      ({ s.setScheduler (s.dropFraming sequence) with reader := .replying sequence reply }, .quiet)
    else (s.stopReader (some sequence), .quiet)
  | .replying sequence reply =>
    ({ s with reader := if input.written then .reading else .stopped },
      .replied s.commands sequence reply)
  | .enqueueing e => s.readEnqueue cfg e
  | .stopped => (s, .quiet)

/-! ## Everyone else -/

/-- The owner's `Retire` on the first of a caller's retirements. -/
def retireFirst (s : System Q) (c : Caller) (succeeds : Bool) : System Q × Label :=
  let r := s.retiring c
  match r.todo, r.called with
  | retirement :: _, false =>
    if retirement.ticket = {} then (s.setRetiring c { r with called := true }, .quiet)
    else
      (s.setRetiring c { r with called := true, failed := r.failed || !succeeds },
        .retired retirement.ref.ingressOrdinal retirement.ticket r.reason)
  | _, _ => (s, .quiet)

/-- The section of `retireOne` after it. -/
def releaseFirst (cfg : Config) (s : SlotSystem) (c : Caller) : SlotSystem :=
  let r := s.retiring c
  match r.todo, r.called with
  | retirement :: rest, true =>
    (s.setScheduler (s.releaseRetired cfg retirement.ref)).setRetiring c
      { r with todo := rest, called := false }
  | _, _ => s

/-- `unlink` by a caller which is not the command reader. -/
def callUnlink (cfg : Config) (s : SlotSystem) (n : Nat) (sequence : UInt32) : SlotSystem × Label :=
  match s.calls n with
  | .idle =>
    match s.unlink cfg sequence with
    | (_, none, _) => (s, .quiet)
    | (t, some slot, todo) =>
      (((s.setScheduler t).setRetiring (.other n) { todo := todo, reason := .unlink }).setCall n
        (if todo = [] then .idle else .retiring .unlink),
        .unlinked slot.ingressOrdinal sequence)
  | _ => (s, .quiet)

/-- `retireLane`, `retireBinding` or `retireSession`. -/
def callRetire (cfg : Config) (s : SlotSystem) (n : Nat) (call : RetireCall)
    (reason : RetireReason) : SlotSystem :=
  match s.calls n, retireScope cfg call with
  | .idle, some scope => (s.sweep cfg (.other n) scope reason).setCall n (.retiring .retire)
  | _, _ => s

/-- The first section of `shutdown`. -/
def callShutdown (s : System Q) (n : Nat) (reason : RetireReason) : System Q :=
  match s.calls n with
  | .idle => { s with closed := true, calls := update s.calls n (.cancelling reason) }
  | _ => s

/-- What follows the retirements of a call. -/
def finishCall (s : System Q) (n : Nat) : CallKind → System Q
  | .unlink =>
    { s with
      failed := s.failed || (s.retiring (.other n)).failed
      calls := update s.calls n .idle }
  | .retire => s.setCall n .idle
  | .shutdown => { s with shutDown := true, calls := update s.calls n .idle }

def callStep (cfg : Config) (s : SlotSystem) (n : Nat) : SlotSystem :=
  match s.calls n with
  | .idle => s
  | .cancelling reason =>
    { s with cancelled := true, calls := update s.calls n (.sweeping reason) }
  | .sweeping reason =>
    (s.sweep cfg (.other n) (.session cfg.session) reason).setCall n (.retiring .shutdown)
  | .retiring kind => if (s.retiring (.other n)).todo = [] then s.finishCall n kind else s

/-! ## The gates -/

section Gates

variable (cfg : Config) (s : System Q)

/-- The first section of `close`. -/
def closeGate : System Q :=
  if cfg.reservation.isSome then
    { s with closed := true, admissionOpen := false, activation := .revoked }
  else { s with closed := true }

def activateImport (reservation : Nat) : System Q :=
  if cfg.reservation == some reservation && !s.admissionOpen && !s.importActivated && !s.started &&
      !s.closed && !s.cancelled && s.activation == .parked then
    { s with activation := .started, importActivated := true, started := true }
  else s

def openAdmission (reservation : Nat) : System Q :=
  if cfg.reservation == some reservation && s.importActivated && s.started && !s.closed &&
      !s.cancelled && !s.failed && !s.admissionOpen && s.activation == .started then
    { s with admissionOpen := true }
  else s

def closeAdmission (reservation : Nat) : System Q :=
  if cfg.reservation == some reservation then
    { s with admissionOpen := false, activation := .revoked }
  else s

def fenceReset (reservation : Nat) (reset : ImportResetLease) : System Q :=
  if reset.valid && reset.importLease == cfg.lease && cfg.reservation == some reservation &&
      s.activation == .started && !s.resetActive then
    { s with
      resetActive := true, resetFence := reset, resetDrained := false, admissionOpen := false }
  else s

/-- `resetAndDrain` up to the token. -/
def startDrain (reservation : Nat) (reset : ImportResetLease) (beforeDeadline : Bool) : System Q :=
  match s.pc with
  | .idle =>
    if reset.valid && reset.importLease == cfg.lease && cfg.reservation == some reservation &&
        s.fenced reset && beforeDeadline then s.setPc (.drainChecking reset)
    else s
  | _ => s

end Gates

def reopenAfterReset (cfg : Config) (s : SlotSystem) (reservation : Nat)
    (reset : ImportResetLease) : SlotSystem :=
  if reset.valid && cfg.reservation == some reservation && !s.closed && !s.cancelled &&
      !s.failed && s.fenced reset && s.resetDrained && s.toScheduler.isEmpty cfg then
    { s with
      resetFence := {}
      resetDrained := false
      endpointNextService := fun _ => none
      admissionOpen := true
      resetActive := false }
  else s

/-- `enqueue` by a caller which is not the command reader. -/
def callEnqueue (cfg : Config) (s : SlotSystem) (e : Envelope) : SlotSystem × Label :=
  match s.toScheduler.enqueue cfg e false with
  | .ok t => (s.setScheduler t, .enqueued (s.nextOrdinal + 1) e.sequence none)
  | .error err => (s, .refused err)

def startRound (s : System Q) (now : Int) : System Q :=
  match s.pc with
  | .idle => s.setPc (.polling now)
  | _ => s

/-- One step of the scheduler with all its callers. -/
def step (cfg : Config) (s : SlotSystem) : Op → SlotSystem × Label
  | .startRound now => (s.startRound now, .quiet)
  | .startDrain reservation reset beforeDeadline =>
    (s.startDrain cfg reservation reset beforeDeadline, .quiet)
  | .service env => s.serviceStep cfg env
  | .read input => s.readerStep cfg input
  | .enqueue e => s.callEnqueue cfg e
  | .unlink n sequence => s.callUnlink cfg n sequence
  | .retireMatching n call reason => (s.callRetire cfg n call reason, .quiet)
  | .shutdown n reason => (s.callShutdown n reason, .quiet)
  | .proceed n => (s.callStep cfg n, .quiet)
  | .retire c succeeds => s.retireFirst c succeeds
  | .release c => (s.releaseFirst cfg c, .quiet)
  | .cancel => ({ s with cancelled := true }, .quiet)
  | .close => (s.closeGate cfg, .quiet)
  | .recordFailure => ({ s with failed := true }, .quiet)
  | .activateImport reservation => (s.activateImport cfg reservation, .quiet)
  | .openAdmission reservation => (s.openAdmission cfg reservation, .quiet)
  | .closeAdmission reservation => (s.closeAdmission cfg reservation, .quiet)
  | .fenceReset reservation reset => (s.fenceReset cfg reservation reset, .quiet)
  | .reopenAfterReset reservation reset => (s.reopenAfterReset cfg reservation reset, .quiet)

end System

end Viiper.Ports.Retained
