import Viiper.Ports.FeedbackFrame
import Viiper.Verified.Run

/-!
# The feedback runtime

`Runtime` of `controllerfeedback` arbitrates four fixed publisher slots for a sole physical
writer.  A `Claim` reserves the current delivery, `Admit` is the last check before the
external effect, and `Complete` resolves it.  Every method holds the lock and is one step.

Conventions of the port:

* a `*WriterLease` is an index into the list of leases this runtime has handed out; `nil`,
  a copied lease (`self` differs) and a lease of another runtime are indices outside that
  list, and fail `currentWriter` as they do in the source;
* a publication slot with its `hasValue` flag is an `Option`;
* the clock is an argument of every method which reads it, so no order between the times
  of different calls is assumed.
-/

namespace Viiper.Ports.Feedback

open Verified Go Run

/-! ## Publications and deliveries -/

abbrev PublicationOrigin := UInt8

def publicationOriginInvalid : PublicationOrigin := 0
def publicationOriginProfileEffect : PublicationOrigin := 1
def publicationOriginAudioHaptics : PublicationOrigin := 2
def publicationOriginNativeGame : PublicationOrigin := 3
def publicationOriginTestPreview : PublicationOrigin := 4

def publicationOriginValid (origin : PublicationOrigin) : Bool :=
  decide (publicationOriginProfileEffect ≤ origin) &&
    decide (origin ≤ publicationOriginTestPreview)

structure Publication where
  origin : PublicationOrigin := publicationOriginInvalid
  frame : Frame := {}
  deriving DecidableEq

def Publication.valid (publication : Publication) : Bool :=
  publicationOriginValid publication.origin && publication.frame.valid

inductive DeliveryDisposition
  | none | frame | stop
  deriving DecidableEq

/-- One writer reservation.  A stop carries its origin, target and epoch while
its frame stays zero. -/
structure Delivery where
  disposition : DeliveryDisposition := .none
  origin : PublicationOrigin := publicationOriginInvalid
  frame : Frame := {}
  (deviceGeneration transportGeneration deliveryEpoch : UInt64 := 0)
  deriving DecidableEq

def Delivery.valid (delivery : Delivery) : Bool :=
  if !publicationOriginValid delivery.origin ||
      delivery.deviceGeneration == 0 || delivery.transportGeneration == 0 ||
      delivery.deliveryEpoch == 0 then
    false
  else if delivery.disposition = .frame then
    delivery.frame.valid && delivery.frame.deviceGeneration == delivery.deviceGeneration &&
      delivery.frame.transportGeneration == delivery.transportGeneration
  else
    decide (delivery.disposition = .stop) && delivery.frame == {}

def frameDelivery (publication : Publication) (epoch : UInt64) : Delivery :=
  { disposition := .frame
    origin := publication.origin
    frame := publication.frame
    deviceGeneration := publication.frame.deviceGeneration
    transportGeneration := publication.frame.transportGeneration
    deliveryEpoch := epoch }

/-- The logical all-zero stop for a publication's delivery epoch. -/
def stopDelivery (publication : Publication) (epoch : UInt64) : Delivery :=
  { disposition := .stop
    origin := publication.origin
    deviceGeneration := publication.frame.deviceGeneration
    transportGeneration := publication.frame.transportGeneration
    deliveryEpoch := epoch }

/-! ## State -/

structure WriterLease where
  (writerGeneration deviceGeneration transportGeneration : UInt64)
  (nextClaimToken inFlightClaimToken inFlightEventRevision : UInt64 := 0)
  inFlightDelivery : Delivery := {}
  inFlightAdmitted : Bool := false
  completedEventRevision : UInt64 := 0
  active : Bool := true

/-- The defaults are the zero value, which is ready for use. -/
structure Runtime where
  (profileSlot audioSlot gameSlot previewSlot : Option Publication := none)
  /-- The leases handed out so far, in order of acquisition. -/
  writers : List WriterLease := []
  activeWriter : Option Nat := none
  nextWriterGeneration : UInt64 := 0
  (hasOwner stopping ownerMayHaveActuated : Bool := false)
  owner : Publication := {}
  (ownerDeliveryEpoch nextDeliveryEpoch : UInt64 := 0)
  hasEvent : Bool := false
  currentEvent : Delivery := {}
  currentEventRevision : UInt64 := 0

namespace Runtime

/-- The four slots in the order the source visits them. -/
def slots (runtime : Runtime) : List (Option Publication) :=
  [runtime.profileSlot, runtime.audioSlot, runtime.gameSlot, runtime.previewSlot]

/-- `slot`: reading through the returned pointer. -/
def slot (runtime : Runtime) (origin : PublicationOrigin) : Option Publication :=
  if origin = publicationOriginProfileEffect then runtime.profileSlot
  else if origin = publicationOriginAudioHaptics then runtime.audioSlot
  else if origin = publicationOriginNativeGame then runtime.gameSlot
  else runtime.previewSlot

/-- `slot`: writing through the returned pointer. -/
def setSlot (runtime : Runtime) (origin : PublicationOrigin)
    (publication : Publication) : Runtime :=
  if origin = publicationOriginProfileEffect then
    { runtime with profileSlot := some publication }
  else if origin = publicationOriginAudioHaptics then
    { runtime with audioSlot := some publication }
  else if origin = publicationOriginNativeGame then
    { runtime with gameSlot := some publication }
  else { runtime with previewSlot := some publication }

/-- Writing through a `*WriterLease`. -/
def setWriter (runtime : Runtime) (writer : Nat) (lease : WriterLease) : Runtime :=
  { runtime with writers := runtime.writers.set writer lease }

/-! ## Selection -/

/-- `findNewestRuntimeTarget`; `none` is `found == false`. -/
def findNewestRuntimeTarget (found : Option (UInt64 × UInt64)) :
    Option Publication → Option (UInt64 × UInt64)
  | none => found
  | some publication =>
    let frame := publication.frame
    match found with
    | none => some (frame.deviceGeneration, frame.transportGeneration)
    | some (deviceGeneration, transportGeneration) =>
      if frame.deviceGeneration > deviceGeneration ∨ (frame.deviceGeneration = deviceGeneration ∧
            frame.transportGeneration > transportGeneration) then
        some (frame.deviceGeneration, frame.transportGeneration)
      else found

def newestTarget (runtime : Runtime) : Option (UInt64 × UInt64) :=
  runtime.slots.foldl findNewestRuntimeTarget none

/-- `considerRuntimeSlot`; `none` is `found == false`. -/
def considerRuntimeSlot (nowMicroseconds deviceGeneration
    transportGeneration : UInt64) (winner : Option Publication) :
    Option Publication → Option Publication
  | none => winner
  | some publication =>
    if publication.frame.deviceGeneration ≠ deviceGeneration ∨
        publication.frame.transportGeneration ≠ transportGeneration ∨
        publication.frame.command = commandStop ∨
        publication.frame.freshAt nowMicroseconds = false then
      winner
    else
      match winner with
      | none => some publication
      | some best =>
        if publication.origin > best.origin then some publication
        else winner

def selectWinner (runtime : Runtime) (nowMicroseconds : UInt64) : Option Publication :=
  match runtime.newestTarget with
  | none => none
  | some (deviceGeneration, transportGeneration) =>
    runtime.slots.foldl (considerRuntimeSlot nowMicroseconds
      deviceGeneration transportGeneration) none

def sameRuntimeOwnership (left right : Publication) : Bool :=
  left.origin == right.origin && left.frame.source == right.frame.source &&
    left.frame.deviceGeneration == right.frame.deviceGeneration &&
    left.frame.transportGeneration == right.frame.transportGeneration &&
    left.frame.ownershipEpoch == right.frame.ownershipEpoch

/-- `newerRuntimeFrame`, which repeats the mailbox's `newer`. -/
def newerRuntimeFrame (candidate current : Frame) : Bool :=
  newer candidate current

/-! ## Ownership -/

def setEvent (runtime : Runtime) (delivery : Delivery) : Runtime :=
  { runtime with
    currentEventRevision := bump runtime.currentEventRevision
    currentEvent := delivery
    hasEvent := true }

def setFrameEvent (runtime : Runtime) : Runtime :=
  runtime.setEvent (frameDelivery runtime.owner runtime.ownerDeliveryEpoch)

/-- `startOwner`.  When the epoch counter is exhausted nothing starts. -/
def startOwner (runtime : Runtime) (publication : Publication) : Runtime :=
  let epoch := runtime.nextDeliveryEpoch + 1
  if epoch = 0 then runtime
  else
    setFrameEvent
      { runtime with
        nextDeliveryEpoch := epoch
        ownerDeliveryEpoch := epoch
        owner := publication
        hasOwner := true
        stopping := false
        ownerMayHaveActuated := false }

/-- The owner and its event are dropped. -/
def clearOwner (runtime : Runtime) : Runtime :=
  { runtime with
    hasOwner := false
    owner := {}
    ownerDeliveryEpoch := 0
    hasEvent := false
    currentEvent := {} }

def replaceUnadmittedOwner (runtime : Runtime) (publication : Publication) : Runtime :=
  runtime.clearOwner.startOwner publication

/-- The owner may have actuated: its delivery epoch ends with a stop. -/
def beginStop (runtime : Runtime) : Runtime :=
  { runtime with stopping := true }.setEvent (stopDelivery runtime.owner runtime.ownerDeliveryEpoch)

def reevaluate (runtime : Runtime) (nowMicroseconds : UInt64) : Runtime :=
  if runtime.stopping then runtime
  else
    match runtime.hasOwner, runtime.selectWinner nowMicroseconds with
    | false, some winner => runtime.startOwner winner
    | false, none => runtime
    | true, some winner =>
      if sameRuntimeOwnership winner runtime.owner then
        if winner ≠ runtime.owner then
          { runtime with owner := winner }.setFrameEvent
        else runtime
      else if !runtime.ownerMayHaveActuated then
        runtime.replaceUnadmittedOwner winner
      else runtime.beginStop
    | true, none =>
      if !runtime.ownerMayHaveActuated then runtime.clearOwner
      else runtime.beginStop

/-! ## The methods -/

/-- `currentWriter`, with the lease the pointer denotes. -/
def currentWriter (runtime : Runtime) (writer : Nat) : Option WriterLease :=
  match runtime.writers[writer]? with
  | none => none
  | some lease =>
    if lease.active ∧ runtime.activeWriter = some writer ∧
        lease.writerGeneration = runtime.nextWriterGeneration then
      some lease
    else none

/-- `exactClaim`, with the lease the pointer denotes. -/
def exactClaim (runtime : Runtime) (writer : Nat) (token : UInt64) : Option WriterLease :=
  match runtime.currentWriter writer with
  | none => none
  | some lease =>
    if token ≠ 0 ∧ lease.inFlightClaimToken = token ∧ lease.inFlightEventRevision ≠ 0 ∧
        lease.inFlightDelivery.valid = true then
      some lease
    else none

def clearRuntimeClaim (lease : WriterLease) : WriterLease :=
  { lease with
    inFlightClaimToken := 0
    inFlightEventRevision := 0
    inFlightDelivery := {}
    inFlightAdmitted := false }

def publish (runtime : Runtime) (publication : Publication) : Runtime × Bool :=
  if publication.valid = false then (runtime, false)
  else
    match runtime.slot publication.origin with
    | none => (runtime.setSlot publication.origin publication, true)
    | some current =>
      if newerRuntimeFrame publication.frame current.frame = false then
        (runtime, false)
      else (runtime.setSlot publication.origin publication, true)

/-- `AcquireWriter`; a new lease is appended to the leases handed out. -/
def acquireWriter (runtime : Runtime) (deviceGeneration transportGeneration : UInt64) :
    Runtime × Option Nat :=
  if deviceGeneration = 0 ∨ transportGeneration = 0 then (runtime, none)
  else if runtime.activeWriter.isSome ∨ runtime.nextWriterGeneration = UInt64.ofNat (2 ^ 64 - 1) ∨
      (runtime.hasEvent ∧ (runtime.currentEvent.deviceGeneration ≠ deviceGeneration ∨
          runtime.currentEvent.transportGeneration ≠ transportGeneration))
  then (runtime, none)
  else
    let generation := runtime.nextWriterGeneration + 1
    ({ runtime with
        nextWriterGeneration := generation
        writers := runtime.writers ++
          [{ writerGeneration := generation
             deviceGeneration := deviceGeneration
             transportGeneration := transportGeneration }]
        activeWriter := some runtime.writers.length },
      some runtime.writers.length)

def retireWriter (runtime : Runtime) (writer : Nat) : Runtime × Bool :=
  match runtime.currentWriter writer with
  | none => (runtime, false)
  | some lease =>
    if lease.inFlightAdmitted then (runtime, false)
    else
      ({ runtime.setWriter writer { clearRuntimeClaim lease with active := false } with
          activeWriter := none }, true)

/-- The part of `Claim` after `reevaluate`. -/
def reserve (runtime : Runtime) (writer : Nat) (lease : WriterLease) :
    Runtime × (Delivery × DeliveryDisposition × UInt64) :=
  if runtime.hasEvent = false ∨ lease.inFlightClaimToken ≠ 0 ∨
      lease.completedEventRevision = runtime.currentEventRevision ∨
      lease.deviceGeneration ≠ runtime.currentEvent.deviceGeneration ∨
      lease.transportGeneration ≠ runtime.currentEvent.transportGeneration
  then (runtime, ({}, .none, 0))
  else
    let token := bump lease.nextClaimToken
    (runtime.setWriter writer
      { lease with
        nextClaimToken := token
        inFlightClaimToken := token
        inFlightEventRevision := runtime.currentEventRevision
        inFlightDelivery := runtime.currentEvent
        inFlightAdmitted := false },
      (runtime.currentEvent, runtime.currentEvent.disposition, token))

def claim (runtime : Runtime) (nowMicroseconds : UInt64) (writer : Nat) :
    Runtime × (Delivery × DeliveryDisposition × UInt64) :=
  match runtime.currentWriter writer with
  | none => (runtime, ({}, .none, 0))
  | some lease => (runtime.reevaluate nowMicroseconds).reserve writer lease

/-- The part of `Admit` after `reevaluate`. -/
def pin (runtime : Runtime) (writer : Nat) (lease : WriterLease)
    (nowMicroseconds : UInt64) : Runtime × Bool :=
  if runtime.hasEvent = false ∨ runtime.currentEventRevision ≠ lease.inFlightEventRevision ∨
      runtime.currentEvent ≠ lease.inFlightDelivery ∨
      lease.deviceGeneration ≠ runtime.currentEvent.deviceGeneration ∨
      lease.transportGeneration ≠ runtime.currentEvent.transportGeneration
  then (runtime, false)
  else if runtime.currentEvent.disposition = .frame ∧
      runtime.currentEvent.frame.freshAt nowMicroseconds = false then
    (runtime, false)
  else
    let pinned := runtime.setWriter writer { lease with inFlightAdmitted := true }
    if runtime.currentEvent.disposition = .frame then
      ({ pinned with ownerMayHaveActuated := true }, true)
    else (pinned, true)

/-- `Admit`, named for what it admits. -/
def admitClaim (runtime : Runtime) (writer : Nat) (token nowMicroseconds : UInt64) :
    Runtime × Bool :=
  match runtime.exactClaim writer token with
  | none => (runtime, false)
  | some lease =>
    if lease.inFlightAdmitted then (runtime, false)
    else (runtime.reevaluate nowMicroseconds).pin writer lease nowMicroseconds

/-- A delivered stop of the current event ends its delivery epoch. -/
def finishStop (runtime : Runtime) : Runtime :=
  { runtime.clearOwner with stopping := false, ownerMayHaveActuated := false }

/-- What `Complete` leaves in the lease. -/
def resolvedLease (lease : WriterLease) (delivered : Bool) : WriterLease :=
  clearRuntimeClaim
    (if delivered then
      { lease with completedEventRevision := lease.inFlightEventRevision }
    else lease)

def complete (runtime : Runtime) (writer : Nat) (token : UInt64)
    (delivered : Bool) (nowMicroseconds : UInt64) : Runtime × Bool :=
  match runtime.exactClaim writer token with
  | none => (runtime, false)
  | some lease =>
    if delivered ∧ lease.inFlightAdmitted = false then (runtime, false)
    else
      let claimedRevision := lease.inFlightEventRevision
      let claimed := lease.inFlightDelivery
      let released :=
        runtime.setWriter writer (resolvedLease lease delivered)
      if delivered ∧ claimed.disposition = .stop ∧ runtime.hasEvent ∧
          runtime.currentEventRevision = claimedRevision ∧
          runtime.currentEvent = claimed then
        (released.finishStop.reevaluate nowMicroseconds, true)
      else (released.reevaluate nowMicroseconds, true)

/-! ## The machine -/

inductive Op
  | publish (publication : Publication)
  | acquireWriter (deviceGeneration transportGeneration : UInt64)
  | retireWriter (writer : Nat)
  | claim (nowMicroseconds : UInt64) (writer : Nat)
  | admitClaim (writer : Nat) (token nowMicroseconds : UInt64)
  | complete (writer : Nat) (token : UInt64) (delivered : Bool) (nowMicroseconds : UInt64)

inductive Out
  | answer (ok : Bool)
  | lease (writer : Option Nat)
  | claimed (delivery : Delivery) (disposition : DeliveryDisposition) (token : UInt64)

/-- One method call. -/
def step (runtime : Runtime) : Op → Runtime × Out
  | .publish publication =>
    let r := runtime.publish publication
    (r.1, .answer r.2)
  | .acquireWriter deviceGeneration transportGeneration =>
    let r := runtime.acquireWriter deviceGeneration transportGeneration
    (r.1, .lease r.2)
  | .retireWriter writer =>
    let r := runtime.retireWriter writer
    (r.1, .answer r.2)
  | .claim nowMicroseconds writer =>
    let r := runtime.claim nowMicroseconds writer
    (r.1, .claimed r.2.1 r.2.2.1 r.2.2.2)
  | .admitClaim writer token nowMicroseconds =>
    let r := runtime.admitClaim writer token nowMicroseconds
    (r.1, .answer r.2)
  | .complete writer token delivered nowMicroseconds =>
    let r := runtime.complete writer token delivered nowMicroseconds
    (r.1, .answer r.2)

abbrev RuntimeEvent := Event Runtime Op Out

/-- The delivery reserved by the lease a pointer denotes. -/
def reservation (runtime : Runtime) (writer : Nat) : Option Delivery :=
  (runtime.writers[writer]?).map (·.inFlightDelivery)

/-- The delivery an event reserved: a `Claim` which did not return
`DeliveryNone`. -/
def claimedBy (e : RuntimeEvent) : Option Delivery :=
  match e.op, e.out with
  | .claim _ _, .claimed delivery disposition _ =>
    if disposition = .none then none else some delivery
  | _, _ => none

/-- The delivery an event admitted: an `Admit` which returned true. -/
def admittedBy (e : RuntimeEvent) : Option Delivery :=
  match e.op, e.out with
  | .admitClaim writer _ _, .answer true => e.pre.reservation writer
  | _, _ => none

/-- The delivery an event completed with `delivered == true`. -/
def deliveredBy (e : RuntimeEvent) : Option Delivery :=
  match e.op, e.out with
  | .complete writer _ true _, .answer true => e.pre.reservation writer
  | _, _ => none

def acceptedBy (e : RuntimeEvent) : Option Publication :=
  match e.op, e.out with
  | .publish publication, .answer true => some publication
  | _, _ => none

end Runtime

end Viiper.Ports.Feedback
