import Viiper.Ports.DualSenseReport
import Viiper.Verified.RingBuffer
import Viiper.Verified.Run

/-!
# The DualSense input scheduler

`dualSenseInputScheduler` stands between the clients which send controller states and the
interrupt endpoint which presents one report at a time.  A state which presses or releases
something is a transition and is queued in a ring; any other state replaces the one
`latest` state.  The endpoint claims a report, and later commits it, defers it, or retires
the whole presentation generation.

Between a press and a release of a trigger only the last continuous state is kept, so the
scheduler follows each press as an epoch: it saves the complete state of the highest value,
and before the next transition is queued it makes sure that this peak is on its way.

Conventions of the port:

* every method runs under the scheduler's lock, so a method is one step;
* a `hasX`/`X` pair is one `Option`.  `retry` and its serialized report are set and
  cleared together, and `lastPresented` is set from construction on;
* the pairs `l2X`/`r2X` are one field indexed by `Side`;
* `receiveOrdinal` and the ids of the epochs count received states and presses, and are
  kept unwrapped: so they are in the source with fewer than `2 ^ 64` states in a run.  Ids
  are only compared, and at most 66 presses are pending at once;
* an entry carries the `ordinal` of its state, which the source writes down for peaks
  only and nothing reads;
* counters and ages kept for diagnostics are left out, except for `overflows`.
-/

namespace Viiper.Ports.DualSense

open Verified Go

def dualSenseInputTransitionCapacity : Nat := 64

structure InputTriggerEpoch where
  id : Nat := 0
  active : Bool := false
  (peak presentedPeak : UInt8 := 0)
  (presentedPeakState peakState : InputState := {})
  peakReceivedAt : Time := 0
  peakReceiveOrdinal : Nat := 0

structure ScheduledInputState where
  state : InputState := {}
  receivedAt : Time := 0
  ordinal : Nat := 0
  generation : UInt64 := 0
  (sampleQueueAge ordered : Bool := false)
  epoch : Side → Nat := fun _ => 0
  (press peakAnchored : Side → Bool := fun _ => false)

def ScheduledInputState.value (e : ScheduledInputState) (t : Side) : UInt8 :=
  triggerValue e.state t

/-- A failed ordered report, with the bytes it will be offered in again. -/
structure Retry where
  entry : ScheduledInputState
  report : Bytes
  sequence : UInt8
  packetSequence : UInt32

structure ActiveClaim where
  entry : ScheduledInputState
  report : Bytes
  sequence : UInt8
  packetSequence : UInt32
  requiresOrderedRecovery : Bool
  (token generation : UInt64)

/-- `dualSenseInputScheduler`. -/
structure Scheduler where
  edge : Bool
  timestampBase : Time
  transitions : RingBuffer ScheduledInputState
  latest : Option ScheduledInputState
  retry : Option Retry
  claim : Option ActiveClaim
  previous : Option InputState
  lastPresented : ScheduledInputState
  trigger : Side → InputTriggerEpoch
  generation : UInt64
  (receiveOrdinal overflows : Nat)
  sequence : UInt8
  packetSequence : UInt32
  (nextClaimToken presentationGeneration : UInt64)

/-- `newDualSenseInputScheduler`. -/
def newScheduler (edge : Bool) (now : Time) : Scheduler where
  edge := edge
  timestampBase := now
  transitions := ⟨fun _ => {}, 0, 0⟩
  latest := none
  retry := none
  claim := none
  previous := none
  lastPresented := { state := neutralInputState, receivedAt := now, generation := 1 }
  trigger := fun _ => {}
  generation := 1
  receiveOrdinal := 0
  overflows := 0
  sequence := 0
  packetSequence := 0
  nextClaimToken := 0
  presentationGeneration := 1

/-! ## Receiving a state -/

/-- The analog and the digital view of one trigger say the same. -/
def coherentTrigger (state : InputState) (t : Side) : InputState :=
  if triggerValue state t != 0 then { state with buttons := state.buttons ||| t.button }
  else if state.buttons &&& t.button != 0 then
    match t with
    | .left => { state with l2 := 1 }
    | .right => { state with r2 := 1 }
  else state

/-- The state `updateAt` takes over. -/
def coherent (state : Option InputState) : InputState :=
  coherentTrigger (coherentTrigger (state.getD neutralInputState) .left) .right

def touchStateTransition (previousActive : Bool) (previousTracking : UInt8)
    (nextActive : Bool) (nextTracking : UInt8) : Bool :=
  previousActive != nextActive || (previousActive && nextActive && previousTracking != nextTracking)

def inputStateNonNeutral (state : InputState) : Bool :=
  state.lx != 0 || state.ly != 0 || state.rx != 0 || state.ry != 0 ||
    state.buttons != 0 || state.dpad != 0 || state.l2 != 0 || state.r2 != 0 ||
    state.touch1Active || state.touch2Active ||
    state.gyroX != 0 || state.gyroY != 0 || state.gyroZ != 0 ||
    state.accelX != neutralInputState.accelX || state.accelY != neutralInputState.accelY ||
    state.accelZ != neutralInputState.accelZ

def inputStateHasTransition (previous : Option InputState) (next : InputState) : Bool :=
  match previous with
  | none => inputStateNonNeutral next
  | some previous =>
    previous.buttons != next.buttons || previous.dpad != next.dpad ||
      (previous.l2 == 0) != (next.l2 == 0) || (previous.r2 == 0) != (next.r2 == 0) ||
      touchStateTransition previous.touch1Active previous.touch1Tracking
        next.touch1Active next.touch1Tracking ||
      touchStateTransition previous.touch2Active previous.touch2Tracking
        next.touch2Active next.touch2Tracking

/-- A trigger leaves zero; a scheduler without a previous state counts as zero. -/
def triggerPress (previous : Option InputState) (next : InputState) (t : Side) : Bool :=
  previous.all (triggerValue · t == 0) && triggerValue next t != 0

def triggerRelease (previous : Option InputState) (next : InputState) (t : Side) : Bool :=
  previous.any (triggerValue · t != 0) && triggerValue next t == 0

def beginTriggerEpoch (epoch : InputTriggerEpoch) (value : UInt8) (state : InputState)
    (receivedAt : Time) (receiveOrdinal : Nat) : InputTriggerEpoch :=
  { id := epoch.id + 1, active := true, peak := value, presentedPeak := 0,
    presentedPeakState := {}, peakState := state, peakReceivedAt := receivedAt,
    peakReceiveOrdinal := receiveOrdinal }

def observeTriggerEpoch (epoch : InputTriggerEpoch) (value : UInt8) (state : InputState)
    (receivedAt : Time) (receiveOrdinal : Nat) (t : Side) : InputTriggerEpoch :=
  if epoch.peak < value then
    { epoch with
      peak := value, peakState := state, peakReceivedAt := receivedAt,
      peakReceiveOrdinal := receiveOrdinal }
  else if value == epoch.peak && value != 0 then
    if physicalMetadataLayoutsMatch epoch.peakState state then
      { epoch with peakState := copyTriggerPhysicalStatus epoch.peakState state t }
    else
      { epoch with
        peakState := state, peakReceivedAt := receivedAt,
        peakReceiveOrdinal := receiveOrdinal }
  else epoch

/-- What `updateAt` does to the epoch of one trigger before it schedules the state. -/
def receiveTrigger (epoch : InputTriggerEpoch) (previous : Option InputState)
    (next : InputState) (now : Time) (receiveOrdinal : Nat) (t : Side) : InputTriggerEpoch :=
  if triggerPress previous next t then
    beginTriggerEpoch epoch (triggerValue next t) next now receiveOrdinal
  else if epoch.active then
    observeTriggerEpoch epoch (triggerValue next t) next now receiveOrdinal t
  else epoch

def activeEpochID (epoch : InputTriggerEpoch) (value : UInt8) (release : Bool) : Nat :=
  if epoch.active && (value != 0 || release) then epoch.id else 0

/-! ## Keeping a peak -/

def entryRepresentsPeak (entry : ScheduledInputState) (epochID : Nat) (peak : UInt8)
    (t : Side) : Bool :=
  entry.epoch t == epochID && decide (peak ≤ entry.value t)

def entryRepresentsTruthfulPeak (entry : ScheduledInputState) (epoch : InputTriggerEpoch)
    (t : Side) : Bool :=
  entryRepresentsPeak entry epoch.id epoch.peak t &&
    triggerPhysicalStatusMatches entry.state epoch.peakState t

def pendingInitialCanAnchorPeak (pending : ScheduledInputState) (epoch : InputTriggerEpoch)
    (t : Side) : Bool :=
  physicalMetadataLayoutsMatch pending.state epoch.peakState && (!pending.peakAnchored t.other ||
      (pending.value t.other == triggerValue epoch.peakState t.other &&
        oppositeTriggerPhysicalStatusMatches pending.state epoch.peakState t))

/-- The ring as a queue, oldest entry first. -/
def Scheduler.ring (s : Scheduler) : List ScheduledInputState :=
  s.transitions.window dualSenseInputTransitionCapacity

def Scheduler.enqueueTransition (s : Scheduler) (entry : ScheduledInputState) : Scheduler :=
  let entry := { entry with ordered := true }
  if s.transitions.count = dualSenseInputTransitionCapacity then
    { s with latest := some entry, overflows := s.overflows + 1 }
  else
    { s with
      latest := none
      transitions := s.transitions.push dualSenseInputTransitionCapacity entry }

/-- The queued press which may be raised to the peak of its epoch.  The loop of the
source stops at the first press which can carry the peak: if later transitions follow
it and the physical status has changed since, nothing is raised. -/
def Scheduler.anchor (s : Scheduler) (t : Side) : Option (Nat × ScheduledInputState) :=
  let epoch := s.trigger t
  let candidate (pending : ScheduledInputState) : Bool :=
    pending.epoch t == epoch.id && pending.press t && pendingInitialCanAnchorPeak pending epoch t
  match s.ring.findIdx? candidate with
  | none => none
  | some offset =>
    match s.ring[offset]? with
    | none => none
    | some pending =>
      if offset + 1 ≠ s.transitions.count ∧
          ¬ triggerPhysicalStatusMatches pending.state epoch.peakState t then none
      else some (offset, pending)

/-- The press after it was raised. -/
def anchored (pending : ScheduledInputState) (epoch : InputTriggerEpoch) (t : Side) :
    ScheduledInputState :=
  { pending with
    state := setTriggerPeak pending.state epoch.peakState t epoch.peak
    peakAnchored := Function.update pending.peakAnchored t true }

/-- The saved peak as an entry of its own. -/
def savedPeak (trigger : Side → InputTriggerEpoch) (generation : UInt64) (t : Side) :
    ScheduledInputState :=
  let epoch := trigger t
  let other := trigger t.other
  { state := epoch.peakState
    receivedAt := epoch.peakReceivedAt
    ordinal := epoch.peakReceiveOrdinal
    generation := generation
    sampleQueueAge := true
    epoch := fun t' =>
      if t' = t then epoch.id
      else if other.active && triggerValue epoch.peakState t.other != 0 then other.id
      else 0 }

def Scheduler.preserveTriggerPeakBeforeTransition (s : Scheduler) (t : Side)
    (upcoming : ScheduledInputState) : Scheduler :=
  let epoch := s.trigger t
  let represents (entry : ScheduledInputState) : Bool := entryRepresentsTruthfulPeak entry epoch t
  if !epoch.active || epoch.peak == 0 || (decide (epoch.peak ≤ epoch.presentedPeak) &&
        triggerPhysicalStatusMatches epoch.presentedPeakState epoch.peakState t) then s
  else if represents upcoming then s
  else if s.claim.any (represents ·.entry) then
    { s with claim := s.claim.map ({ · with requiresOrderedRecovery := true }) }
  else if s.retry.any (represents ·.entry) then s
  else if s.ring.any represents then s
  else
    match s.anchor t with
    | some (offset, pending) =>
      { s with
        transitions := s.transitions.setAt dualSenseInputTransitionCapacity offset
          (anchored pending epoch t) }
    | none =>
      match s.latest.filter fun latest =>
          entryRepresentsPeak latest epoch.id epoch.peak t &&
            physicalMetadataLayoutsMatch latest.state epoch.peakState with
      | some latest =>
        s.enqueueTransition
          { latest with state := copyTriggerPhysicalStatus latest.state epoch.peakState t }
      | none => s.enqueueTransition (savedPeak s.trigger s.generation t)

/-- Keep the peaks of both triggers, in the order in which they were received. -/
def Scheduler.preservePeaks (s : Scheduler) (entry : ScheduledInputState) : Scheduler :=
  if (s.trigger .left).active && (s.trigger .right).active &&
      decide ((s.trigger .right).peakReceiveOrdinal < (s.trigger .left).peakReceiveOrdinal) then
    (s.preserveTriggerPeakBeforeTransition .right entry).preserveTriggerPeakBeforeTransition
      .left entry
  else
    let s := if (s.trigger .left).active then s.preserveTriggerPeakBeforeTransition .left entry
      else s
    if (s.trigger .right).active then s.preserveTriggerPeakBeforeTransition .right entry else s

/-- `updateAt` up to the point where the epochs have seen the state. -/
def Scheduler.receive (s : Scheduler) (next : InputState) (now : Time) : Scheduler :=
  { s with
    receiveOrdinal := s.receiveOrdinal + 1
    trigger := fun t =>
      receiveTrigger (s.trigger t) s.previous next now (s.receiveOrdinal + 1) t }

/-- The entry made of a received state; `s` is the scheduler after `receive`. -/
def Scheduler.received (s : Scheduler) (next : InputState) (now : Time) : ScheduledInputState :=
  { state := next
    receivedAt := now
    ordinal := s.receiveOrdinal
    generation := s.generation
    sampleQueueAge := true
    epoch := fun t =>
      activeEpochID (s.trigger t) (triggerValue next t) (triggerRelease s.previous next t)
    press := triggerPress s.previous next }

/-- `updateAt` from there on. -/
def Scheduler.schedule (s : Scheduler) (next : InputState) (now : Time) : Scheduler :=
  let entry := s.received next now
  if inputStateHasTransition s.previous next then (s.preservePeaks entry).enqueueTransition entry
  else { s with latest := some entry }

/-- The end of `updateAt`. -/
def Scheduler.settle (s : Scheduler) (previous : Option InputState) (next : InputState) :
    Scheduler :=
  { s with
    previous := some next
    trigger := fun t =>
      if triggerRelease previous next t then { s.trigger t with active := false }
      else s.trigger t }

def Scheduler.updateAt (s : Scheduler) (state : Option InputState) (generation : UInt64)
    (now : Time) : Scheduler × Bool :=
  let next := coherent state
  if generation ≠ 0 ∧ generation ≠ s.generation then (s, false)
  else (((s.receive next now).schedule next now).settle s.previous next, true)

/-! ## Claiming and resolving a report -/

def Scheduler.selectState (s : Scheduler) (now : Time) : Scheduler × ScheduledInputState :=
  match s.retry with
  | some retry => ({ s with retry := none }, retry.entry)
  | none =>
    if s.transitions.count ≠ 0 then
      ({ s with
          transitions :=
            (s.transitions.clearFront {}).pop dualSenseInputTransitionCapacity },
        s.transitions.front)
    else
      match s.latest with
      | some latest => ({ s with latest := none }, latest)
      | none => (s, { s.lastPresented with receivedAt := now, sampleQueueAge := false })

/-- Microseconds since `base`, in thirds. -/
def dualSenseTimestampTicks (base now : Time) : UInt32 :=
  let elapsed := now - base
  if elapsed ≤ 0 then 0 else UInt32.ofNat ((elapsed / 1000).toNat * 3)

/-- `beginClaim`: the report and its token, or nothing if the destination is too
short or a report is claimed already. -/
def Scheduler.beginClaim (s : Scheduler) (now : Time) (battery : UInt8) (destination : Nat) :
    Scheduler × Option (Bytes × UInt64) :=
  if destination < inputReportSize || s.claim.isSome then (s, none)
  else
    let selection := s.selectState now
    let entry := selection.2
    let token := bump s.nextClaimToken
    let claim : ActiveClaim :=
      match s.retry with
      | some retry =>
        { entry := entry, report := retry.report, sequence := retry.sequence,
          packetSequence := retry.packetSequence, requiresOrderedRecovery := false,
          token := token, generation := s.presentationGeneration }
      | none =>
        { entry := entry
          report := encodeUSBInputReportInto entry.state battery (s.sequence + 1)
            (s.packetSequence + 1) (dualSenseTimestampTicks s.timestampBase now) s.edge
          sequence := s.sequence + 1, packetSequence := s.packetSequence + 1,
          requiresOrderedRecovery := false, token := token,
          generation := s.presentationGeneration }
    ({ selection.1 with claim := some claim, nextClaimToken := token }, some (claim.report, token))

/-- `inputpresentation.Outcome`; `undefined` stands for every other value. -/
inductive Outcome
  | commit | defer | retire | undefined
  deriving DecidableEq

/-- What a commit does to the epoch of one trigger. -/
def commitTrigger (epoch : InputTriggerEpoch) (claimed : ScheduledInputState) (t : Side) :
    InputTriggerEpoch :=
  if claimed.epoch t == epoch.id && decide (epoch.presentedPeak < claimed.value t) then
    { epoch with presentedPeak := claimed.value t, presentedPeakState := claimed.state }
  else if claimed.epoch t == epoch.id && claimed.value t == epoch.presentedPeak then
    { epoch with
      presentedPeakState := copyTriggerPhysicalStatus epoch.presentedPeakState claimed.state t }
  else epoch

def Scheduler.commitClaim (s : Scheduler) (c : ActiveClaim) : Scheduler :=
  { s with
    claim := none
    sequence := c.sequence
    packetSequence := c.packetSequence
    lastPresented := c.entry
    trigger := fun t => commitTrigger (s.trigger t) c.entry t }

def Scheduler.deferClaim (s : Scheduler) (c : ActiveClaim) : Scheduler :=
  if c.entry.ordered || c.requiresOrderedRecovery then
    { s with
      claim := none
      retry := some
        { entry := { c.entry with ordered := true }, report := c.report, sequence := c.sequence,
          packetSequence := c.packetSequence } }
  else if s.retry.isNone && s.transitions.count == 0 && s.latest.isNone then
    { s with claim := none, latest := some c.entry }
  else { s with claim := none }

/-- `restartPresentationTriggerEpoch`. -/
def restartTriggerEpoch (epoch : InputTriggerEpoch) (value : UInt8) (state : InputState)
    (receivedAt : Time) (receiveOrdinal : Nat) : InputTriggerEpoch :=
  if value == 0 then { id := epoch.id + 1 }
  else
    { id := epoch.id + 1, active := true, peak := value, peakState := state,
      peakReceivedAt := receivedAt, peakReceiveOrdinal := receiveOrdinal }

/-- `collapsePresentationGeneration`: only the newest state is carried over. -/
def Scheduler.collapsePresentationGeneration (s : Scheduler) (retiredAt : Time) : Scheduler :=
  let current := s.previous.getD neutralInputState
  let ordinal := s.receiveOrdinal + 1
  { s with
    transitions := ⟨fun _ => {}, 0, 0⟩
    retry := none
    claim := none
    receiveOrdinal := ordinal
    trigger := fun t =>
      restartTriggerEpoch (s.trigger t) (triggerValue current t) current retiredAt ordinal
    latest := some
      { state := current, receivedAt := retiredAt, ordinal := ordinal,
        generation := s.generation,
        epoch := fun t => if triggerValue current t == 0 then 0 else (s.trigger t).id + 1 }
    presentationGeneration := bump s.presentationGeneration }

def Scheduler.resolveClaimAt (s : Scheduler) (token generation : UInt64) (outcome : Outcome)
    (completedAt : Time) : Scheduler × Bool :=
  match s.claim with
  | none => (s, false)
  | some c =>
    if outcome = .undefined ∨ token = 0 ∨ token ≠ c.token ∨ generation = 0 ∨
        generation ≠ c.generation ∨ generation ≠ s.presentationGeneration then (s, false)
    else
      match outcome with
      | .retire => (s.collapsePresentationGeneration completedAt, true)
      | .commit => (s.commitClaim c, true)
      | .defer => (s.deferClaim c, true)
      | .undefined => (s, false)

def Scheduler.retirePresentationGeneration (s : Scheduler) (generation : UInt64)
    (retiredAt : Time) : Scheduler × Bool :=
  if generation = 0 ∨ generation ≠ s.presentationGeneration then (s, false)
  else (s.collapsePresentationGeneration retiredAt, true)

/-! ## The scheduler as a machine -/

/-- A call of one of the scheduler's methods.  `complete` is `completeClaimAt`. -/
inductive Op
  | beginReceiveGeneration
  | update (state : Option InputState) (generation : UInt64) (now : Time)
  | beginClaim (now : Time) (battery : UInt8) (destination : Nat)
  | complete (token : UInt64) (presented : Bool) (completedAt : Time)
  | resolve (token generation : UInt64) (outcome : Outcome) (completedAt : Time)
  | retire (generation : UInt64) (retiredAt : Time)

inductive Answer
  | generation (g : UInt64)
  | accepted (b : Bool)
  | claimed (report : Option (Bytes × UInt64))
  | resolved (b : Bool)

def Scheduler.step (s : Scheduler) : Op → Scheduler × Answer
  | .beginReceiveGeneration =>
    ({ s with generation := bump s.generation }, .generation (bump s.generation))
  | .update state generation now =>
    ((s.updateAt state generation now).1, .accepted (s.updateAt state generation now).2)
  | .beginClaim now battery destination =>
    ((s.beginClaim now battery destination).1, .claimed (s.beginClaim now battery destination).2)
  | .complete token presented completedAt =>
    let outcome := if presented then Outcome.commit else .defer
    let generation := (s.claim.map (·.generation)).getD 0
    ((s.resolveClaimAt token generation outcome completedAt).1,
      .resolved (s.resolveClaimAt token generation outcome completedAt).2)
  | .resolve token generation outcome completedAt =>
    ((s.resolveClaimAt token generation outcome completedAt).1,
      .resolved (s.resolveClaimAt token generation outcome completedAt).2)
  | .retire generation retiredAt =>
    ((s.retirePresentationGeneration generation retiredAt).1,
      .resolved (s.retirePresentationGeneration generation retiredAt).2)

/-- A call which cannot end the presentation generation. -/
def Op.keeps : Op → Bool
  | .resolve _ _ outcome _ => outcome != .retire
  | .retire _ _ => false
  | _ => true

end Viiper.Ports.DualSense
