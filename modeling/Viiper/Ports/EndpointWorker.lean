import Viiper.Verified.GoTypes
import Viiper.Verified.RingBuffer
import Viiper.Verified.Run

/-!
# The endpoint worker

`endpointWorker` of `internal/server/usb` owns the pending transfers of one USB endpoint:
sixty-four job slots, a stack of free slot indices, a ring of queued indices and at most
one job in flight.  Every job reserves a window on an absolute time line.  The command
reader enqueues, unlinks and resets; the worker goroutine claims, waits for its phase,
starts the response and finishes.  Every method holds the worker's lock and is one step.

Conventions of the port:

* `inFlight == -1` is `none`; the indices of slots are natural numbers;
* the free stack `free[0..freeCount)` is a list, its top the last element: no operation
  reads a cell above `freeCount`;
* `cursor.IsZero()` is `none`.  Clock readings are later than the zero time, so no
  reservation ends at it;
* a slot's byte and packet buffers are reused for capacity only; the job holds their
  contents;
* what a method asks of the device, and what the clock reads, are arguments;
* telemetry is left out but for `enqueued`.  It is kept unwrapped, and a job records its
  value at admission as its `ticket`, which no operation reads.
-/

namespace Viiper.Ports.Endpoint

open Verified Go Run

def endpointQueueCapacity : Nat := 64

/-- One millisecond, in nanoseconds. -/
def millisecond : Duration := 1000000

/-- `endpointWorkerKind`. -/
inductive WorkerKind
  | interruptIn | isoIn | isoOut | genericIn
  deriving DecidableEq

structure IsoPacketDescriptor where
  (offset length actualLength : UInt32 := 0)
  status : Int32 := 0
  deriving DecidableEq

structure EndpointJob where
  (seq xferLen : UInt32 := 0)
  (serviceAt serviceEnd : Time := 0)
  duration : Duration := 0
  queuedAt : Time := 0
  (generation mediaGeneration : UInt64 := 0)
  payload : Bytes := []
  packets : List IsoPacketDescriptor := []
  (cancelled responseStarted sideEffectStarted : Bool := false)
  /-- Which admission this incarnation of the slot is. -/
  ticket : Nat := 0

/-- The immutable part of a worker. -/
structure Config where
  kind : WorkerKind
  interval : Duration

/-- The interval `newEndpointWorkerWithClock` settles on. -/
def newConfig (kind : WorkerKind) (interval : Duration) : Config :=
  ⟨kind, if interval ≤ 0 then millisecond else interval⟩

/-- A worker's interval is positive, whatever the descriptor says. -/
theorem newConfig_interval_pos (kind : WorkerKind) (interval : Duration) :
    0 < (newConfig kind interval).interval := by
  show 0 < if interval ≤ 0 then millisecond else interval
  split
  · decide
  rename_i h
  exact Int.not_le.1 h

structure EndpointWorker where
  slots : Nat → EndpointJob
  order : RingBuffer Nat
  free : List Nat
  inFlight : Option Nat
  generation : UInt64
  cursor : Option Time
  /-- `telemetry.enqueued`. -/
  enqueued : Nat

namespace EndpointWorker

/-- `newEndpointWorkerWithClock`: `free[i] = 63 - i`. -/
def new : EndpointWorker :=
  { slots := fun _ => {}
    order := ⟨fun _ => 0, 0, 0⟩
    free := (List.range endpointQueueCapacity).map fun i => endpointQueueCapacity - 1 - i
    inFlight := none
    generation := 1
    cursor := none
    enqueued := 0 }

/-- The queued slot indices, oldest first. -/
def queue (w : EndpointWorker) : List Nat := w.order.window endpointQueueCapacity

/-- Writing through `&w.slots[idx]`. -/
def setSlot (w : EndpointWorker) (idx : Nat) (job : EndpointJob) : EndpointWorker :=
  { w with slots := Function.update w.slots idx job }

/-! ## Admission -/

/-- The arguments of `enqueueWithGeneration`. -/
structure Submission where
  (seq xferLen : UInt32)
  payload : Bytes
  packets : List IsoPacketDescriptor
  now : Time
  mediaGeneration : UInt64
  deriving DecidableEq

/-- The duration a transfer reserves: one interval, or one per packet. -/
def jobDuration (c : Config) (packets : List IsoPacketDescriptor) : Duration :=
  if c.kind ≠ .interruptIn then packets.length * c.interval else c.interval

/-- Where a new reservation starts. -/
def reservationStart (c : Config) (cursor : Option Time) (now : Time) : Time :=
  match cursor with
  | none => now
  | some start =>
    if 0 < c.interval ∧ now - start ≥ c.interval then now else start

/-- The job `enqueueWithGeneration` writes into its slot. -/
def admittedJob (c : Config) (w : EndpointWorker) (r : Submission) : EndpointJob :=
  let start := reservationStart c w.cursor r.now
  let duration := jobDuration c r.packets
  { seq := r.seq
    xferLen := r.xferLen
    serviceAt := start
    serviceEnd := start + duration
    duration := duration
    queuedAt := r.now
    generation := w.generation
    mediaGeneration := r.mediaGeneration
    payload := r.payload
    packets := r.packets
    cancelled := false
    responseStarted := false
    sideEffectStarted := false
    ticket := w.enqueued }

def enqueueWithGeneration (c : Config) (w : EndpointWorker) (r : Submission) :
    EndpointWorker × Bool :=
  match w.free.getLast? with
  | none => (w, false)
  | some idx =>
    let job := admittedJob c w r
    ({ w.setSlot idx job with
        free := w.free.dropLast
        cursor := some job.serviceEnd
        order := w.order.push endpointQueueCapacity idx
        enqueued := w.enqueued + 1 }, true)

/-! ## The queue -/

/-- `popQueuedLocked`: the index, and the worker without it. -/
def popQueuedLocked (w : EndpointWorker) : Nat × EndpointWorker :=
  (w.order.front, { w with order := w.order.pop endpointQueueCapacity })

def removeQueuedLocked (w : EndpointWorker) (position : Nat) : EndpointWorker :=
  { w with order := w.order.removeAt endpointQueueCapacity position }

/-- What `releaseSlotLocked` leaves in a slot. -/
def releasedJob (job : EndpointJob) : EndpointJob := { ticket := job.ticket }

def releaseSlotLocked (w : EndpointWorker) (idx : Nat) : EndpointWorker :=
  { w.setSlot idx (releasedJob (w.slots idx)) with free := w.free ++ [idx] }

/-- One iteration of the reflow loop: the jobs, and the anchor of the next. -/
def reflowJob (s : (Nat → EndpointJob) × Time) (idx : Nat) : (Nat → EndpointJob) × Time :=
  let job := s.1 idx
  let serviceEnd := s.2 + job.duration
  (Function.update s.1 idx { job with serviceAt := s.2, serviceEnd := serviceEnd }, serviceEnd)

/-- The anchor a reflow starts from. -/
def reflowAnchor (c : Config) (anchor now : Time) : Time :=
  if 0 < c.interval ∧ now - anchor ≥ c.interval then now else anchor

def reflowQueueFromPositionLocked (c : Config) (w : EndpointWorker)
    (position : Nat) (anchor now : Time) : EndpointWorker :=
  let r := (w.queue.drop position).foldl reflowJob (w.slots, reflowAnchor c anchor now)
  { w with slots := r.1, cursor := some r.2 }

def reflowQueueLocked (c : Config) (w : EndpointWorker) (anchor now : Time) : EndpointWorker :=
  reflowQueueFromPositionLocked c w 0 anchor now

/-! ## The command reader -/

/-- Whether `unlinkAt` cancels the job in flight. -/
def unlinkable (job : EndpointJob) (seq : UInt32) : Bool :=
  job.seq == seq && !job.responseStarted && !job.sideEffectStarted && !job.cancelled

/-- The second half of `unlinkAt`: the first queued job of that sequence. -/
def unlinkQueued (c : Config) (w : EndpointWorker) (seq : UInt32) (now : Time) :
    EndpointWorker × Bool :=
  match w.queue.findIdx? fun idx => (w.slots idx).seq == seq with
  | none => (w, false)
  | some position =>
    let idx := w.queue.getD position 0
    let anchor := (w.slots idx).serviceAt
    (reflowQueueFromPositionLocked c ((w.removeQueuedLocked position).releaseSlotLocked idx)
      position anchor now, true)

def unlinkAt (c : Config) (w : EndpointWorker) (seq : UInt32) (now : Time) :
    EndpointWorker × Bool :=
  match w.inFlight with
  | some idx =>
    let job := w.slots idx
    if unlinkable job seq then
      (reflowQueueLocked c (w.setSlot idx { job with cancelled := true }) job.serviceAt now, true)
    else unlinkQueued c w seq now
  | none => unlinkQueued c w seq now

/-- The loop of `reset`, run `orderCount` times. -/
def drainQueue : Nat → EndpointWorker → EndpointWorker
  | 0, w => w
  | n + 1, w => drainQueue n (w.popQueuedLocked.2.releaseSlotLocked w.popQueuedLocked.1)

def reset (w : EndpointWorker) : EndpointWorker :=
  let advanced := { w with generation := w.generation + 1, cursor := none }
  let cancelled :=
    match w.inFlight with
    | some idx =>
      advanced.setSlot idx { advanced.slots idx with cancelled := true }
    | none => advanced
  drainQueue cancelled.order.count cancelled

/-! ## The worker goroutine -/

def claimNext (w : EndpointWorker) : EndpointWorker × Option Nat :=
  match w.inFlight with
  | some idx => (w, some idx)
  | none =>
    if w.order.count = 0 then (w, none)
    else
      let popped := w.popQueuedLocked
      ({ popped.2 with inFlight := some popped.1 }, some popped.1)

/-- The check shared by every method which acts on the job in flight. -/
def currentActive (w : EndpointWorker) (idx : Nat) : Bool :=
  decide (w.inFlight = some idx) && !(w.slots idx).cancelled &&
    (w.slots idx).generation == w.generation

/-- `finishCurrentWithRetention`; `now` is the clock reading of a retention,
and `completed` feeds a telemetry counter only. -/
def finishCurrentWithRetention (c : Config) (w : EndpointWorker) (idx : Nat)
    (_completed retain : Bool) (now : Time) : EndpointWorker :=
  if w.inFlight = some idx then
    let job := w.slots idx
    if retain ∧ job.cancelled = false ∧ job.generation = w.generation then
      let serviceAt := now + c.interval
      let serviceEnd := serviceAt + job.duration
      reflowQueueLocked c (w.setSlot idx
        { job with serviceAt := serviceAt, serviceEnd := serviceEnd })
        serviceEnd now
    else { w.releaseSlotLocked idx with inFlight := none }
  else w

/-- `markResponseStartedWithAdmission`; `admits` is false when a required
source admission was refused. -/
def markResponseStartedWithAdmission (w : EndpointWorker) (idx : Nat)
    (admits : Bool) : EndpointWorker × Bool :=
  if w.currentActive idx = false then (w, false)
  else if admits = false then (w, false)
  else (w.setSlot idx { w.slots idx with responseStarted := true }, true)

inductive PreparedAdmission
  | retired | deferred | accepted
  deriving DecidableEq

/-- `admitPreparedResponse`; `ended` is `ctx.Err() != nil`, `owns` whether the
source owns the endpoint, `copies` whether it admitted and copied the claim. -/
def admitPreparedResponse (w : EndpointWorker) (idx : Nat)
    (ended owns copies : Bool) : EndpointWorker × PreparedAdmission :=
  if w.inFlight ≠ some idx ∨ ended then (w, .retired)
  else if w.currentActive idx = false ∨ owns = false then (w, .retired)
  else if copies = false then (w, .deferred)
  else (w.setSlot idx { w.slots idx with responseStarted := true }, .accepted)

def beginSideEffect (w : EndpointWorker) (idx : Nat) : EndpointWorker × Bool :=
  if w.currentActive idx = false then (w, false)
  else (w.setSlot idx { w.slots idx with sideEffectStarted := true }, true)

/-- How late a phase may be before `phaseDeadline` re-anchors it. -/
def reanchorAfter (c : Config) (job : EndpointJob) : Duration :=
  if c.kind = .isoOut then max c.interval job.duration else c.interval

def phaseDeadline (c : Config) (w : EndpointWorker) (idx phase : Nat)
    (now : Time) : EndpointWorker × Option Time :=
  if w.currentActive idx = false then (w, none)
  else
    let job := w.slots idx
    let deadline := job.serviceAt + phase * c.interval
    -- an ISO-OUT window was handed over at its start and is never stretched
    if c.kind = .isoOut ∧ 0 < phase then (w, some deadline)
    else if 0 < reanchorAfter c job ∧ now - deadline ≥ reanchorAfter c job then
      let shift := now - deadline
      let shifted :=
        { job with
          serviceAt := job.serviceAt + shift
          serviceEnd := job.serviceEnd + shift }
      (reflowQueueLocked c (w.setSlot idx shifted) shifted.serviceEnd now, some now)
    else (w, some deadline)

/-! ## The machine -/

inductive Op
  | enqueue (r : Submission)
  | unlinkAt (seq : UInt32) (now : Time)
  | reset
  | claimNext
  | finish (idx : Nat) (completed retain : Bool) (now : Time)
  | currentActive (idx : Nat)
  | markResponseStarted (idx : Nat) (admits : Bool)
  | admitPreparedResponse (idx : Nat) (ended owns copies : Bool)
  | beginSideEffect (idx : Nat)
  | phaseDeadline (idx phase : Nat) (now : Time)

inductive Out
  | done
  | answer (ok : Bool)
  | index (idx : Option Nat)
  | admission (r : PreparedAdmission)
  | deadline (d : Option Time)
  deriving DecidableEq

/-- One call, made by either thread. -/
def step (c : Config) (w : EndpointWorker) : Op → EndpointWorker × Out
  | .enqueue r =>
    let r := enqueueWithGeneration c w r
    (r.1, .answer r.2)
  | .unlinkAt seq now =>
    let r := unlinkAt c w seq now
    (r.1, .answer r.2)
  | .reset => (w.reset, .done)
  | .claimNext =>
    let r := w.claimNext
    (r.1, .index r.2)
  | .finish idx completed retain now =>
    (finishCurrentWithRetention c w idx completed retain now, .done)
  | .currentActive idx => (w, .answer (w.currentActive idx))
  | .markResponseStarted idx admits =>
    let r := w.markResponseStartedWithAdmission idx admits
    (r.1, .answer r.2)
  | .admitPreparedResponse idx ended owns copies =>
    let r := w.admitPreparedResponse idx ended owns copies
    (r.1, .admission r.2)
  | .beginSideEffect idx =>
    let r := w.beginSideEffect idx
    (r.1, .answer r.2)
  | .phaseDeadline idx phase now =>
    let r := phaseDeadline c w idx phase now
    (r.1, .deadline r.2)

abbrev WorkerEvent := Event EndpointWorker Op Out

end EndpointWorker

end Viiper.Ports.Endpoint
