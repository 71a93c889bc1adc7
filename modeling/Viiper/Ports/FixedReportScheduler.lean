import Viiper.Verified.GoTypes
import Viiper.Verified.RingBuffer
import Viiper.Verified.Run

/-!
# The fixed-report input presentation scheduler

`FixedReportScheduler[T]` of `internal/inputpresentation` keeps the newest continuous state
in one slot and semantic boundaries in a bounded journal, and hands out one immutable claim
at a time.  Every public method holds the lock for its whole body and is one step.

Conventions of the port:

* a `hasX`/`X` pair of the source is one `Option`: no operation reads `X` while `hasX` is
  false;
* the caller's encoder may keep state between calls and may write through the `*T` it is
  given, so `encode` returns the successor of both together with the bytes it left in the
  zeroed report and its return value;
* `time.Now()` is consulted only when a caller passes the zero time; each operation carries
  that reading as `now`;
* an ordinal is written when an entry is created and never read back, so it is kept
  unwrapped and serves as the identity of the entry.
-/

namespace Viiper.Ports.FixedReportScheduler

open Verified Go

/-- Largest report the scheduler stores. -/
def fixedReportMaximumSize : Nat := 512

def fixedReportTransitionCapacity : Nat := 64

/-! ## Contract types -/

/-- `Outcome`; `undefined` stands for every value outside the enumeration. -/
inductive Outcome
  | commit | defer | retire | undefined
  deriving DecidableEq

def Outcome.valid : Outcome → Bool
  | .undefined => false
  | _ => true

/-- `Claim`: the capability identifying one selected report. -/
structure Claim where
  (token generation : UInt64)
  size : Int
  (receivedAt selectedAt : Time)
  ordered : Bool
  deriving DecidableEq

/-- The zero `Claim{}` returned when nothing was selected. -/
def Claim.zero : Claim := ⟨0, 0, 0, 0, 0, false⟩

def Claim.valid (claim : Claim) : Bool :=
  claim.token != 0 && claim.generation != 0 && decide (0 < claim.size)

/-- `FixedReportProducerLease`. -/
structure ProducerLease where
  epoch : UInt64
  deriving DecidableEq

def ProducerLease.valid (lease : ProducerLease) : Bool := lease.epoch != 0

/-- `FixedReportPublishDisposition`. -/
inductive PublishDisposition
  | acceptedContinuous | acceptedOrdered | acceptedResynchronization | rejectedStaleProducer
  | rejectedNeutralPending | rejectedResynchronizationRequired
  | rejectedResynchronizationNotRequired | rejectedInvalidTimestamp | rejectedOverflow
  | faultedOverflow
  deriving DecidableEq

def PublishDisposition.accepted : PublishDisposition → Bool
  | .acceptedContinuous => true
  | .acceptedOrdered => true
  | .acceptedResynchronization => true
  | _ => false

/-- `FixedReportFaultReason`. -/
inductive FaultReason
  | none | overflow | orderedAge
  deriving DecidableEq

/-- `fixedReportClaimSource`. -/
inductive ClaimSource
  | retry | journal | latest | idle | mandatoryNeutral
  deriving DecidableEq

/-! ## Scheduler state -/

/-- `fixedReportEntry`. -/
structure Entry (T : Type*) where
  state : T
  receivedAt : Time
  ordinal : Nat
  producer : UInt64
  ordered : Bool

instance {T : Type*} [Inhabited T] : Inhabited (Entry T) :=
  ⟨⟨default, 0, 0, 0, false⟩⟩

/-- What one call of the encoder leaves behind: its own state, the semantic
state behind the pointer, the report bytes, and the returned size. -/
structure Encoded (E T : Type*) where
  encoder : E
  state : T
  data : Bytes
  size : Int

/-- The fields fixed at construction. -/
structure Config (E T : Type*) where
  reportSize : Nat
  encode : E → T → Encoded E T
  transition : Option (T → T → Bool)
  maximumOrderedAge : Duration
  faultOnOverflow : Bool
  neutral : T

/-- The deferred report, with the bytes of its first claim. -/
structure Retry (T : Type*) where
  entry : Entry T
  data : Bytes

/-- The `claim…` fields while `hasClaim` is set. -/
structure ActiveClaim (T : Type*) where
  claimed : Entry T
  claimedData : Bytes
  claimToken : UInt64
  claimSource : ClaimSource
  claimGeneration : UInt64
  (claimRequiresOrderedRecovery claimAdmissionValidated : Bool)
  (claimSelectedAt claimAdmittedAt : Time)

/-- The claim after its admission boundary was validated. -/
def ActiveClaim.validate {T : Type*} (a : ActiveClaim T) (admissionAt : Time) : ActiveClaim T :=
  { a with claimAdmissionValidated := true, claimAdmittedAt := admissionAt }

/-- The claim after a boundary was accepted behind it. -/
def ActiveClaim.require {T : Type*} (a : ActiveClaim T) : ActiveClaim T :=
  if a.claimSource = .latest ∧ a.claimed.ordered = false then
    { a with claimRequiresOrderedRecovery := true }
  else a

/-- The pending mandatory neutral; `data` is present once it is encoded. -/
structure MandatoryNeutral (T : Type*) where
  entry : Entry T
  data : Option Bytes

/-- `FixedReportScheduler`, less its constructor arguments. -/
structure Scheduler (E T : Type*) where
  encoder : E
  journal : RingBuffer (Entry T)
  latest : Option (Entry T)
  retry : Option (Retry T)
  claim : Option (ActiveClaim T)
  mandatoryNeutral : Option (MandatoryNeutral T)
  resynchronizationNeeded : Bool
  minimumResynchronizationAt : Time
  previous : Option T
  last : Entry T
  lastData : Bytes
  nextOrdinal : Nat
  (nextToken generation producer : UInt64)
  lastProducerAt : Time
  (received rejected selected replaced overflows staleFaults resyncs invalidTimestamps : Nat)
  lastFault : FaultReason
  highWater : Nat

variable {E T : Type*} [Inhabited T]

/-- The queue of the journal, oldest boundary first. -/
def Scheduler.journaled (s : Scheduler E T) : List (Entry T) :=
  s.journal.window fixedReportTransitionCapacity

/-- `newFixedReportScheduler`, the common body of the three constructors. -/
def newFixedReportScheduler (reportSize : Int) (neutral : T)
    (encode : Option (E → T → Encoded E T)) (encoder : E)
    (transition : Option (T → T → Bool)) (maximumOrderedAge : Duration)
    (faultOnOverflow : Bool) (createdAt now : Time) : Except String (Config E T × Scheduler E T) :=
  if reportSize < 1 ∨ reportSize > fixedReportMaximumSize then
    .error "inputpresentation: fixed report size outside supported range"
  else
    match encode with
    | none => .error "inputpresentation: fixed report encoder is required"
    | some encode =>
      let encoded := encode encoder neutral
      if encoded.size ≠ reportSize then
        .error "inputpresentation: encoder returned a non-canonical report size"
      else
        .ok
          ({ reportSize := reportSize.toNat
             encode := encode
             transition := transition
             maximumOrderedAge := maximumOrderedAge
             faultOnOverflow := faultOnOverflow
             neutral := neutral },
           { encoder := encoded.encoder
             journal := ⟨fun _ => default, 0, 0⟩
             latest := none
             retry := none
             claim := none
             mandatoryNeutral := none
             resynchronizationNeeded := false
             minimumResynchronizationAt := 0
             previous := some neutral
             last := ⟨encoded.state, orNow createdAt now, 1, 1, false⟩
             lastData := encoded.data
             nextOrdinal := 1
             nextToken := 0
             generation := 1
             producer := 1
             lastProducerAt := 0
             received := 0
             rejected := 0
             selected := 0
             replaced := 0
             overflows := 0
             staleFaults := 0
             resyncs := 0
             invalidTimestamps := 0
             lastFault := .none
             highWater := 0 })

/-! ## Private helpers of the source -/

section Helpers

variable (c : Config E T) (s : Scheduler E T)

def advanceNonzero (value : UInt64) : UInt64 := bump value

/-- `newEntry`: the successor state and the entry it numbered. -/
def newEntry (state : T) (receivedAt : Time) (ordered : Bool) : Scheduler E T × Entry T :=
  ({ s with nextOrdinal := s.nextOrdinal + 1 },
   ⟨state, receivedAt, s.nextOrdinal + 1, s.producer, ordered⟩)

def pushJournal (entry : Entry T) : Scheduler E T :=
  { s with
    journal := s.journal.push fixedReportTransitionCapacity entry
    highWater := max s.highWater (s.journal.count + 1) }

def popJournal : Scheduler E T :=
  { s with
    journal := (s.journal.clearFront default).pop fixedReportTransitionCapacity }

def advanceProducer : Scheduler E T :=
  { s with producer := advanceNonzero s.producer, lastProducerAt := 0 }

def advanceGeneration : Scheduler E T :=
  { s with generation := advanceNonzero s.generation }

def clearNonActiveHistory : Scheduler E T :=
  { s with journal := ⟨fun _ => default, 0, 0⟩, latest := none, retry := none }

def clearClaim : Scheduler E T := { s with claim := none }

def observeProducerTimestamp (receivedAt : Time) : Scheduler E T × Bool :=
  if c.maximumOrderedAge ≤ 0 then
    (s, true)
  else if receivedAt = 0 ∨
      (s.lastProducerAt ≠ 0 ∧ receivedAt < s.lastProducerAt) then
    ({ s with invalidTimestamps := s.invalidTimestamps + 1 }, false)
  else
    ({ s with lastProducerAt := receivedAt }, true)

/-- The purge shared by `enterHistoryFault` and `RetireProducerLease`: a new
producer epoch, no history, no claim, and one mandatory neutral ahead of the
successor. -/
def purgeHistory (boundary : Time) : Scheduler E T :=
  let s := clearClaim (clearNonActiveHistory (advanceProducer s))
  let (s, entry) := newEntry s c.neutral boundary true
  { s with
    previous := none
    mandatoryNeutral := some ⟨entry, none⟩
    resynchronizationNeeded := false
    minimumResynchronizationAt := boundary }

def enterHistoryFault (reason : FaultReason) (faultAt now : Time) : Scheduler E T :=
  let s := { s with
    lastFault := reason
    overflows := s.overflows + if reason = .overflow then 1 else 0
    staleFaults := s.staleFaults + if reason = .orderedAge then 1 else 0 }
  purgeHistory c s (orNow faultAt now)

def ageExceeded (receivedAt boundary : Time) : Bool :=
  if receivedAt = 0 ∨ boundary = 0 ∨ boundary < receivedAt then true
  else decide (boundary - receivedAt ≥ c.maximumOrderedAge)

/-- `claimOrderedAgeExceeded`, for the active claim `a`. -/
def claimOrderedAgeExceeded (a : ActiveClaim T) (boundary : Time) : Bool :=
  if c.maximumOrderedAge ≤ 0 ∨ a.claimSource = .mandatoryNeutral ∨
      (a.claimed.ordered = false ∧ a.claimRequiresOrderedRecovery = false) then
    false
  else ageExceeded c a.claimed.receivedAt boundary

/-- The entry the next claim would select from producer work, with whether it
is an ordering dependency. -/
def nextProducerEntry : Option (Entry T × Bool) :=
  match s.retry with
  | some retry => some (retry.entry, true)
  | none =>
    if 0 < s.journal.count then some (s.journal.front, true)
    else s.latest.map (fun entry => (entry, false))

def pendingPresentationFaultRequired (selectedAt : Time) : Scheduler E T × Bool :=
  if c.maximumOrderedAge ≤ 0 ∨ s.mandatoryNeutral.isSome then
    (s, false)
  else
    match nextProducerEntry s with
    | none => (s, false)
    | some (entry, orderedDependency) =>
      if entry.receivedAt = 0 ∨ selectedAt < entry.receivedAt then
        ({ s with invalidTimestamps := s.invalidTimestamps + 1 }, true)
      else
        (s, orderedDependency &&
          decide (selectedAt - entry.receivedAt ≥ c.maximumOrderedAge))

def claimMatches (a : ActiveClaim T) (claim : Claim) : Bool :=
  claim.token != 0 && claim.token == a.claimToken &&
    claim.generation != 0 && claim.generation == a.claimGeneration &&
    claim.generation == s.generation && claim.size == c.reportSize &&
    a.claimed.producer == s.producer

end Helpers

/-! ## Publication -/

section Publication

variable (c : Config E T) (s : Scheduler E T)

/-- Whether the classifier makes `state` a boundary after the last accepted
state. -/
def orderedBoundary (state : T) : Bool :=
  match s.previous, c.transition with
  | some previous, some transition => transition previous state
  | _, _ => false

/-- A boundary makes the continuous claim in flight its dependency, provided
the claim came from the latest slot and nothing newer took that slot. -/
def requireOrderedRecovery : Scheduler E T :=
  { s with
    claim :=
      match s.latest with
      | some _ => s.claim
      | none => s.claim.map ActiveClaim.require }

/-- A boundary promotes the pending continuous state ahead of itself. -/
def promoteLatest : Scheduler E T :=
  match s.latest with
  | some latest =>
    { pushJournal s { latest with ordered := true } with latest := none }
  | none => s

/-- The ordered branch of `publishLocked`. -/
def journalBoundary (entry : Entry T) : Scheduler E T :=
  pushJournal (promoteLatest (requireOrderedRecovery s)) entry

/-- The continuous branch of `publishLocked`. -/
def replaceLatest (entry : Entry T) : Scheduler E T :=
  { s with
    replaced := s.replaced + if s.latest.isSome then 1 else 0
    latest := some entry }

/-- The accepting tail of `publishLocked`. -/
def acceptPublication (state : T) (receivedAt : Time) (ordered : Bool) : Scheduler E T :=
  let (s, entry) := newEntry s state receivedAt ordered
  let s := if ordered then journalBoundary s entry else replaceLatest s entry
  { s with previous := some state, received := s.received + 1 }

def reject : Scheduler E T := { s with rejected := s.rejected + 1 }

def publishLocked (lease : ProducerLease) (state : T) (receivedAt now : Time) :
    Scheduler E T × PublishDisposition :=
  if !lease.valid || lease.epoch != s.producer then
    (reject s, .rejectedStaleProducer)
  else if s.mandatoryNeutral.isSome then
    (reject s, .rejectedNeutralPending)
  else if s.resynchronizationNeeded then
    (reject s, .rejectedResynchronizationRequired)
  else
    match observeProducerTimestamp c s receivedAt with
    | (s, false) => (reject s, .rejectedInvalidTimestamp)
    | (s, true) =>
      let ordered := orderedBoundary c s state
      let required := if ordered && s.latest.isSome then 2 else 1
      if ordered ∧
          fixedReportTransitionCapacity - s.journal.count < required then
        if c.faultOnOverflow then
          (enterHistoryFault c (reject s) .overflow receivedAt now, .faultedOverflow)
        else
          ({ reject s with overflows := s.overflows + 1 }, .rejectedOverflow)
      else
        (acceptPublication s state receivedAt ordered,
          if ordered then .acceptedOrdered else .acceptedContinuous)

def publishWithLease (lease : ProducerLease) (state : T)
    (receivedAt now : Time) : Scheduler E T × PublishDisposition :=
  publishLocked c s lease state (orNow receivedAt now) now

/-- `Publish`: the compatibility surface, bound to the current epoch. -/
def publish (state : T) (receivedAt now : Time) : Scheduler E T × Bool :=
  let r := publishLocked c s ⟨s.producer⟩ state (orNow receivedAt now) now
  (r.1, r.2.accepted)

def producerLease : ProducerLease := ⟨s.producer⟩

/-- The diagnostic of the two lifecycle retirements: some boundary already
recorded lies after `retiredAt`. -/
def observeRetirement (retiredAt : Time) : Scheduler E T :=
  let late := decide (s.lastProducerAt > retiredAt) ||
    (match s.claim with
      | some a => decide (a.claimSelectedAt > retiredAt) ||
          decide (a.claimAdmittedAt > retiredAt)
      | none => false)
  { s with invalidTimestamps := s.invalidTimestamps + if late then 1 else 0 }

def retireProducerLease (lease : ProducerLease) (retiredAt now : Time) :
    Scheduler E T × (ProducerLease × Bool) :=
  if lease.valid && lease.epoch == s.producer then
    let retiredAt := orNow retiredAt now
    let s := purgeHistory c (observeRetirement s retiredAt) retiredAt
    (s, ⟨s.producer⟩, true)
  else
    (s, ⟨0⟩, false)

def resynchronize (lease : ProducerLease) (state : T) (receivedAt now : Time) :
    Scheduler E T × PublishDisposition :=
  let receivedAt := orNow receivedAt now
  if !lease.valid || lease.epoch != s.producer then
    (reject s, .rejectedStaleProducer)
  else if s.mandatoryNeutral.isSome then
    (reject s, .rejectedNeutralPending)
  else if !s.resynchronizationNeeded then
    (reject s, .rejectedResynchronizationNotRequired)
  else if receivedAt < s.minimumResynchronizationAt then
    (reject { s with invalidTimestamps := s.invalidTimestamps + 1 }, .rejectedInvalidTimestamp)
  else
    match observeProducerTimestamp c s receivedAt with
    | (s, false) => (reject s, .rejectedInvalidTimestamp)
    | (s, true) =>
      let (s, entry) := newEntry s state receivedAt false
      ({ s with
          latest := some entry
          previous := some state
          resynchronizationNeeded := false
          minimumResynchronizationAt := 0
          received := s.received + 1
          resyncs := s.resyncs + 1 },
        .acceptedResynchronization)

end Publication

/-! ## Selection -/

section Selection

variable (c : Config E T) (s : Scheduler E T)

/-- The result of the selection switch: either the restored scheduler of a
failed encode, or the chosen source, entry and bytes. -/
inductive Selection (E T : Type*)
  | failed (s : Scheduler E T)
  | chosen (s : Scheduler E T) (source : ClaimSource) (entry : Entry T) (data : Bytes)

/-- Encode the entry just taken from `source`; `restore` puts the entry back,
with whatever the encoder wrote through its pointer. -/
def encodeClaim (source : ClaimSource) (entry : Entry T)
    (restore : Scheduler E T → Entry T → Scheduler E T) : Selection E T :=
  let encoded := c.encode s.encoder entry.state
  let s := { s with encoder := encoded.encoder }
  let entry := { entry with state := encoded.state }
  if encoded.size ≠ c.reportSize then .failed (restore s entry)
  else .chosen s source entry encoded.data

/-- The journal case of `restoreFailedSelection`. -/
def restoreJournal (s : Scheduler E T) (entry : Entry T) : Scheduler E T :=
  { s with journal := s.journal.unpop fixedReportTransitionCapacity entry }

/-- The latest case of `restoreFailedSelection`. -/
def restoreLatest (s : Scheduler E T) (entry : Entry T) : Scheduler E T :=
  { s with latest := some entry }

/-- The mandatory-neutral case: encoded once, then repeated byte for byte
until it commits. -/
def selectMandatoryNeutral (neutral : MandatoryNeutral T) : Selection E T :=
  match neutral.data with
  | some data => .chosen s .mandatoryNeutral neutral.entry data
  | none =>
    match encodeClaim c s .mandatoryNeutral neutral.entry (fun s _ => s) with
    | .failed s => .failed s
    | .chosen s source entry data =>
      .chosen { s with mandatoryNeutral := some { neutral with data := some data } }
        source entry data

/-- The `switch` of `ClaimInputPresentation`. -/
def selectInputPresentation : Selection E T :=
  match s.mandatoryNeutral with
  | some neutral => selectMandatoryNeutral c s neutral
  | none =>
    match s.retry with
    | some retry =>
      .chosen { s with retry := none } .retry retry.entry retry.data
    | none =>
      if 0 < s.journal.count then
        encodeClaim c (popJournal s) .journal s.journal.front restoreJournal
      else
        match s.latest with
        | some latest =>
          encodeClaim c { s with latest := none } .latest latest restoreLatest
        | none =>
          .chosen s .idle { s.last with ordered := false } s.lastData

/-- The token, claim slot and returned capability of a successful selection. -/
def issueClaim (source : ClaimSource) (entry : Entry T) (data : Bytes)
    (selectedAt : Time) : Scheduler E T × (Claim × Bytes) :=
  let token := bump s.nextToken
  ({ s with
      nextToken := token
      selected := s.selected + 1
      claim := some
        { claimed := entry
          claimedData := data
          claimToken := token
          claimSource := source
          claimGeneration := s.generation
          claimRequiresOrderedRecovery := false
          claimAdmissionValidated := false
          claimSelectedAt := selectedAt
          claimAdmittedAt := 0 } },
   ⟨token, s.generation, c.reportSize, entry.receivedAt, selectedAt, entry.ordered⟩, data)

/-- The selection-time age check of `ClaimInputPresentation`. -/
def faultStalePresentation (selectedAt now : Time) : Scheduler E T :=
  match pendingPresentationFaultRequired c s selectedAt with
  | (s, true) => enterHistoryFault c s .orderedAge selectedAt now
  | (s, false) => s

/-- `ClaimInputPresentation`: the claim, and the bytes copied into a
destination of `capacity` bytes. -/
def claimInputPresentation (capacity : Nat) (selectedAt now : Time) :
    Scheduler E T × (Claim × Bytes) :=
  if capacity < c.reportSize ∨ s.claim.isSome then
    (s, .zero, [])
  else
    let selectedAt := orNow selectedAt now
    match selectInputPresentation c (faultStalePresentation c s selectedAt now)
    with
    | .failed s => (s, .zero, [])
    | .chosen s source entry data => issueClaim c s source entry data selectedAt

def hasPendingInputPresentation : Bool :=
  s.mandatoryNeutral.isSome || s.retry.isSome || decide (0 < s.journal.count) ||
    s.latest.isSome

end Selection

/-! ## Admission and resolution -/

section Resolution

variable (c : Config E T) (s : Scheduler E T)

def canAdmitInputPresentation (claim : Claim) (admissionAt now : Time) : Scheduler E T × Bool :=
  let admissionAt := orNow admissionAt now
  match s.claim with
  | none => (s, false)
  | some a =>
    if !claimMatches c s a claim || a.claimAdmissionValidated then
      (s, false)
    else if admissionAt < a.claimSelectedAt then
      ({ s with invalidTimestamps := s.invalidTimestamps + 1 }, false)
    else if claimOrderedAgeExceeded c a admissionAt then
      (enterHistoryFault c s .orderedAge admissionAt now, false)
    else
      ({ s with claim := some (a.validate admissionAt) }, true)

/-- `minimumCompletedAt` of `ResolveInputPresentation`. -/
def minimumCompletedAt (a : ActiveClaim T) : Time :=
  if a.claimAdmissionValidated && decide (a.claimAdmittedAt > a.claimSelectedAt)
  then a.claimAdmittedAt else a.claimSelectedAt

/-- The commit case: the claim becomes the presented report. -/
def commitClaim (a : ActiveClaim T) : Scheduler E T :=
  let s := { s with
    last := { a.claimed with ordered := false }
    lastData := a.claimedData }
  if a.claimSource = .mandatoryNeutral then
    { s with mandatoryNeutral := none, resynchronizationNeeded := true }
  else s

/-- The defer case: ordered work and its dependencies go to the retry slot,
a continuous claim only when nothing newer supersedes it. -/
def deferClaim (a : ActiveClaim T) : Scheduler E T :=
  if a.claimSource = .mandatoryNeutral then s
  else if a.claimed.ordered ∨ a.claimRequiresOrderedRecovery then
    { s with retry := some ⟨{ a.claimed with ordered := true }, a.claimedData⟩ }
  else if a.claimSource ≠ .idle ∧ s.retry.isNone ∧ s.journal.count = 0 ∧
      s.latest.isNone then
    { s with retry := some ⟨a.claimed, a.claimedData⟩ }
  else s

def retireCurrentGenerationWithBaseline (currentState : T) (retiredAt now : Time) : Scheduler E T :=
  let s := clearClaim (clearNonActiveHistory s)
  let s := advanceProducer (advanceGeneration
    { s with
      mandatoryNeutral := none
      resynchronizationNeeded := false
      minimumResynchronizationAt := 0 })
  let (s, current) := newEntry s currentState (orNow retiredAt now) false
  { s with
    latest := some current
    last := current
    previous := some currentState
    lastData := List.replicate c.reportSize 0 }

/-- `retireCurrentGeneration`: the newest complete producer state survives. -/
def retireCurrentGeneration (retiredAt now : Time) : Scheduler E T × T :=
  let currentState := s.previous.getD c.neutral
  (retireCurrentGenerationWithBaseline c s currentState retiredAt now, currentState)

def resolveInputPresentation (claim : Claim) (outcome : Outcome)
    (completedAt now : Time) : Scheduler E T × Bool :=
  let completedAt := orNow completedAt now
  match s.claim with
  | none => (s, false)
  | some a =>
    if !outcome.valid || !claimMatches c s a claim then
      (s, false)
    else if outcome = .commit ∧ c.maximumOrderedAge > 0 ∧
        a.claimAdmissionValidated = false then
      (s, false)
    else
      -- A completion before its own claim's boundaries is clamped, counted,
      -- and still consumes the claim.
      let early := decide (completedAt < minimumCompletedAt a)
      let s := { s with
        invalidTimestamps := s.invalidTimestamps + if early then 1 else 0 }
      let completedAt := if early then minimumCompletedAt a else completedAt
      if outcome ≠ .retire ∧ claimOrderedAgeExceeded c a completedAt then
        (enterHistoryFault c s .orderedAge completedAt now, true)
      else
        match outcome with
        | .commit => (clearClaim (commitClaim s a), true)
        | .defer => (clearClaim (deferClaim s a), true)
        | _ => ((retireCurrentGeneration c s completedAt now).1, true)

def retireInputPresentationGenerationWithCurrentState (generation : UInt64)
    (retiredAt now : Time) : Scheduler E T × Option T :=
  if generation = 0 ∨ generation ≠ s.generation then (s, none)
  else
    let retiredAt := orNow retiredAt now
    let r := retireCurrentGeneration c (observeRetirement s retiredAt) retiredAt now
    (r.1, some r.2)

def retireInputPresentationGeneration (generation : UInt64)
    (retiredAt now : Time) : Scheduler E T × Bool :=
  let r := retireInputPresentationGenerationWithCurrentState c s generation retiredAt now
  (r.1, r.2.isSome)

def retireInputPresentationGenerationWithBaseline (generation : UInt64)
    (baseline : T) (retiredAt now : Time) : Scheduler E T × Bool :=
  if generation = 0 ∨ generation ≠ s.generation then (s, false)
  else (retireCurrentGenerationWithBaseline c s baseline retiredAt now, true)

end Resolution

/-! ## The machine -/

/-- One call of a public method, with the `time.Now()` reading it may use. -/
inductive Op (T : Type*)
  | publish (state : T) (receivedAt now : Time)
  | publishWithLease (lease : ProducerLease) (state : T) (receivedAt now : Time)
  | producerLease
  | retireProducerLease (lease : ProducerLease) (retiredAt now : Time)
  | resynchronize (lease : ProducerLease) (state : T) (receivedAt now : Time)
  | claim (capacity : Nat) (selectedAt now : Time)
  | canAdmit (claim : Claim) (admissionAt now : Time)
  | resolve (claim : Claim) (outcome : Outcome) (completedAt now : Time)
  | retireGeneration (generation : UInt64) (retiredAt now : Time)
  | retireGenerationWithBaseline (generation : UInt64) (baseline : T) (retiredAt now : Time)

/-- What the call returned. -/
inductive Out (T : Type*)
  | answer (ok : Bool)
  | disposition (d : PublishDisposition)
  | lease (lease : ProducerLease) (ok : Bool)
  | claim (claim : Claim) (data : Bytes)
  | state (current : Option T)
  deriving DecidableEq

/-- One method call. -/
def step (c : Config E T) (s : Scheduler E T) : Op T → Scheduler E T × Out T
  | .publish state receivedAt now =>
    let r := publish c s state receivedAt now
    (r.1, .answer r.2)
  | .publishWithLease lease state receivedAt now =>
    let r := publishWithLease c s lease state receivedAt now
    (r.1, .disposition r.2)
  | .producerLease => (s, .lease (producerLease s) true)
  | .retireProducerLease lease retiredAt now =>
    let r := retireProducerLease c s lease retiredAt now
    (r.1, .lease r.2.1 r.2.2)
  | .resynchronize lease state receivedAt now =>
    let r := resynchronize c s lease state receivedAt now
    (r.1, .disposition r.2)
  | .claim capacity selectedAt now =>
    let r := claimInputPresentation c s capacity selectedAt now
    (r.1, .claim r.2.1 r.2.2)
  | .canAdmit claim admissionAt now =>
    let r := canAdmitInputPresentation c s claim admissionAt now
    (r.1, .answer r.2)
  | .resolve claim outcome completedAt now =>
    let r := resolveInputPresentation c s claim outcome completedAt now
    (r.1, .answer r.2)
  | .retireGeneration generation retiredAt now =>
    let r := retireInputPresentationGenerationWithCurrentState c s generation retiredAt now
    (r.1, .state r.2)
  | .retireGenerationWithBaseline generation baseline retiredAt now =>
    let r := retireInputPresentationGenerationWithBaseline c s generation baseline retiredAt now
    (r.1, .answer r.2)

/-! ## Faults and retirements -/

/-- How a call ends the current producer history: `enterHistoryFault`, a
producer retirement, or a generation retirement. -/
inductive Disturbance
  | fault (faultAt : Time)
  | producerRetired (retiredAt : Time)
  | generationRetired
  deriving DecidableEq

section Disturbances

variable (c : Config E T) (s : Scheduler E T)

/-- The overflow fault of `publishLocked`. -/
def publishDisturbance (lease : ProducerLease) (state : T)
    (receivedAt now : Time) : Option Disturbance :=
  if (publishLocked c s lease state receivedAt now).2 = .faultedOverflow then
    some (.fault (orNow receivedAt now))
  else none

/-- The stale-history fault of `ClaimInputPresentation`. -/
def claimDisturbance (capacity : Nat) (selectedAt now : Time) : Option Disturbance :=
  if capacity < c.reportSize ∨ s.claim.isSome then none
  else if (pendingPresentationFaultRequired c s selectedAt).2 then
    some (.fault (orNow selectedAt now))
  else none

/-- The stale-claim fault of `CanAdmitInputPresentation`. -/
def admitDisturbance (claim : Claim) (admissionAt now : Time) : Option Disturbance :=
  match s.claim with
  | none => none
  | some a =>
    if !claimMatches c s a claim || a.claimAdmissionValidated then none
    else if admissionAt < a.claimSelectedAt then none
    else if claimOrderedAgeExceeded c a admissionAt then
      some (.fault (orNow admissionAt now))
    else none

/-- The stale-completion fault of `ResolveInputPresentation`, or its `Retire`
outcome. -/
def resolveDisturbance (claim : Claim) (outcome : Outcome)
    (completedAt now : Time) : Option Disturbance :=
  match s.claim with
  | none => none
  | some a =>
    if !outcome.valid || !claimMatches c s a claim then none
    else if outcome = .commit ∧ c.maximumOrderedAge > 0 ∧
        a.claimAdmissionValidated = false then none
    else
      let completedAt :=
        if completedAt < minimumCompletedAt a then minimumCompletedAt a
        else completedAt
      if outcome ≠ .retire ∧ claimOrderedAgeExceeded c a completedAt then
        some (.fault (orNow completedAt now))
      else if outcome = .retire then some .generationRetired
      else none

def disturbance : Op T → Option Disturbance
  | .publish state receivedAt now =>
    publishDisturbance c s ⟨s.producer⟩ state (orNow receivedAt now) now
  | .publishWithLease lease state receivedAt now =>
    publishDisturbance c s lease state (orNow receivedAt now) now
  | .producerLease => none
  | .retireProducerLease lease retiredAt now =>
    if (retireProducerLease c s lease retiredAt now).2.2 then
      some (.producerRetired (orNow retiredAt now))
    else none
  | .resynchronize _ _ _ _ => none
  | .claim capacity selectedAt now =>
    claimDisturbance c s capacity (orNow selectedAt now) now
  | .canAdmit claim admissionAt now =>
    admitDisturbance c s claim (orNow admissionAt now) now
  | .resolve claim outcome completedAt now =>
    resolveDisturbance c s claim outcome (orNow completedAt now) now
  | .retireGeneration generation _ _ =>
    if generation = 0 ∨ generation ≠ s.generation then none
    else some .generationRetired
  | .retireGenerationWithBaseline generation _ _ _ =>
    if generation = 0 ∨ generation ≠ s.generation then none
    else some .generationRetired

end Disturbances

end Viiper.Ports.FixedReportScheduler
