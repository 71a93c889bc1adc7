import Viiper.Verified.GoTypes
import Viiper.Verified.Run

/-!
# The reliable metadata transfer

`device/xboxone/metadata.go`: a metadata block goes to the host in packets of at most 64
bytes.  A block of at most 60 bytes is one packet; a longer one is cut into fragments,
followed by a Complete packet once the host has acknowledged the full length.  A packet is
claimed, admitted and copied, and resolved; only a delivered resolution commits progress.
The host may acknowledge while no packet is admitted, and an acknowledgement below the
current offset rewinds the transfer.

Offsets are naturals: the code's `uint16` values never exceed the block length, which is at
most `0x3fff`.  Of a packet image only the `size` bytes are kept which are ever read.
-/

namespace Viiper.Ports.Metadata

open Verified Go

def metadataFragmentHeaderSize : Nat := 6
def metadataFragmentPayloadCapacity : Nat := 58
def metadataMaximumBoundLength : Nat := 0x3fff
def reliableACKRequestIntervalMilliseconds : UInt64 := 60
def reliableACKTimeoutMilliseconds : UInt64 := 1000
def singlePacketHeaderSize : Nat := 4
def messageNumberMetadataRequest : UInt8 := 4

def flagFragment : UInt8 := 0x80
def flagInitFragment : UInt8 := 0x40
def flagSystem : UInt8 := 0x20
def flagAcknowledge : UInt8 := 0x10
def flagExpansion : UInt8 := 0x07

/-- The errors, with the values their texts carry. -/
inductive Error where
  | reservedDataClass (dataClass : UInt8)
  | invalidMessageNumber (messageNumber : UInt8)
  | invalidExpansionIndex (index : UInt8)
  | reservedSequence
  | payloadTooLarge (dataClass : UInt8) (got max : Nat)
  | invalidLength (got want : Nat)
  | invalidProfile
  | invalidMetadata
  | metadataIdentityMismatch
  | invalidTransferGeneration
  | invalidTransferEpoch
  | nonMonotonicMetadataClock (now previous : UInt64)
  | metadataTransferFaulted
  | reliableTransferTimeout
  | metadataClaimOutstanding
  | metadataRetryRequired
  | metadataTransferComplete
  | acknowledgementRequired
  | invalidMetadataClaim
  | invalidMetadataOutcome
  | metadataClaimNotAdmitted
  | invalidAcknowledgement (generation epoch : UInt64) (message sequence : UInt8) (bytes : Nat)
deriving DecidableEq

/-! ## Headers -/

structure SinglePacketHeader where
  (dataClass messageNumber : UInt8)
  (system acknowledgementRequested : Bool)
  (expansionIndex sequence : UInt8)
  payloadLength : Nat

def dataClassCommand : UInt8 := 0
def dataClassAudio : UInt8 := 3

def SinglePacketHeader.validate (h : SinglePacketHeader) : Except Error Unit :=
  if dataClassAudio < h.dataClass then .error (.reservedDataClass h.dataClass)
  else if 0x1f < h.messageNumber then .error (.invalidMessageNumber h.messageNumber)
  else if flagExpansion < h.expansionIndex then
    .error (.invalidExpansionIndex h.expansionIndex)
  else if h.sequence = 0 then .error .reservedSequence
  else
    let maxPayload := if h.dataClass ≠ dataClassAudio then
      64 - singlePacketHeaderSize else 127
    if maxPayload < h.payloadLength then
      .error (.payloadTooLarge h.dataClass h.payloadLength maxPayload)
    else .ok ()

/-- `EncodeSinglePacketHeaderInto` on a destination of the right size. -/
def SinglePacketHeader.encode (h : SinglePacketHeader) : Except Error Bytes := do
  h.validate
  let flags := h.expansionIndex ||| (if h.system then flagSystem else 0) |||
    (if h.acknowledgementRequested then flagAcknowledge else 0)
  return [h.dataClass <<< 5 ||| h.messageNumber, flags, h.sequence, UInt8.ofNat h.payloadLength]

def encodeMetadataFragmentHeader (sequence : UInt8) (payloadLength : Nat)
    (initial requestACK : Bool) (totalLengthOrOffset : Nat) : Bytes :=
  [messageNumberMetadataRequest,
    flagFragment ||| flagSystem ||| (if initial then flagInitFragment else 0) |||
      (if requestACK then flagAcknowledge else 0),
    sequence, UInt8.ofNat payloadLength,
    0x80 ||| UInt8.ofNat (totalLengthOrOffset % 128),
    UInt8.ofNat (totalLengthOrOffset / 128)]

def encodeMetadataCompleteHeader (sequence : UInt8) (totalLength : Nat) : Bytes :=
  [messageNumberMetadataRequest, flagFragment ||| flagSystem, sequence, 0,
    0x80 ||| UInt8.ofNat (totalLength % 128), UInt8.ofNat (totalLength / 128)]

/-! ## Data -/

/-- `MetadataPacketKind`; `unset` is the zero value. -/
inductive MetadataPacketKind where
  | unset
  | single
  | initialFragment
  | middleFragment
  | finalFragment
  | complete
deriving DecidableEq

/-- `MetadataPacketOutcome`; any other byte is refused. -/
def metadataPacketDelivered : UInt8 := 1
def metadataPacketDeferred : UInt8 := 2
def metadataPacketDeliveryFailed : UInt8 := 3

/-- What `UnregisteredControllerProfile` contributes: whether it validates, its
identity and its issuance. -/
structure Profile where
  validates : Bool
  (identity issuance : Nat)

/-- `BoundCompiledMetadata`; `issuance` is `none` for the nil pointer and
otherwise the marker. -/
structure BoundCompiledMetadata where
  (identity profileIssuance : Nat)
  issuance : Option UInt8
  data : Bytes
  valid : Bool
deriving DecidableEq

/-- `metadataTransferPostState`. -/
structure PostState where
  (offset sentEnd acknowledgedEnd : Nat)
  (finalAcknowledged done : Bool)
deriving DecidableEq

structure PacketRecord where
  wire : Bytes
  size : Nat
  kind : MetadataPacketKind
  acknowledgement : Bool
  selectedAtMS : UInt64
  post : PostState
deriving DecidableEq

def PacketRecord.zero : PacketRecord := ⟨[], 0, .unset, false, 0, ⟨0, 0, 0, false, false⟩⟩

/-- `MetadataPacketClaim`; `owner` is the address of the transfer. -/
structure PacketClaim where
  owner : Option Nat
  (token transferGeneration transferEpoch : UInt64)
  (messageNumber sequence : UInt8)
  kind : MetadataPacketKind
  size : Nat
  selectedACME : Bool
  selectedAtMS : UInt64

/-- `MetadataPacketAdmission`, with the destination after the copy. -/
structure PacketAdmission where
  size : Nat
  kind : MetadataPacketKind
  acknowledgement : Bool
  dst : Bytes

/-- `ReliableAcknowledgement`. -/
structure Acknowledgement where
  (transferGeneration transferEpoch : UInt64)
  (messageNumber sequence : UInt8)
  (contiguousPayloadBytes receiverRemainingBufferBytes : Nat)

/-- `ReliableAcknowledgementDisposition`. -/
inductive Disposition where
  | progress
  | rewind
  | duplicate
deriving DecidableEq

/-- `MetadataTransfer`; `address` stands for the pointer claims are bound to. -/
structure MetadataTransfer where
  address : Nat
  metadata : BoundCompiledMetadata
  sequence : UInt8
  (generation transferEpoch : UInt64)
  (offset sentEnd acknowledgedEnd : Nat)
  (finalAcknowledged done faulted valid : Bool)
  (lastNowMS nextACKRequestMS ackDeadlineMS : UInt64)
  ackDeadlineArmed : Bool
  nextToken : UInt64
  (hasClaim claimAdmitted : Bool)
  (claimAdmittedAtMS claimToken : UInt64)
  claimRecord : PacketRecord
  retryPending : Bool
  retryRecord : PacketRecord
deriving DecidableEq

/-- The transfer both `NewMetadataTransfer` and `Reset` install. -/
def begin (address : Nat) (metadata : BoundCompiledMetadata) (sequence : UInt8)
    (generation transferEpoch nowMS nextToken : UInt64) : MetadataTransfer where
  address := address
  metadata := metadata
  sequence := sequence
  generation := generation
  transferEpoch := transferEpoch
  offset := 0
  sentEnd := 0
  acknowledgedEnd := 0
  finalAcknowledged := false
  done := false
  faulted := false
  valid := true
  lastNowMS := nowMS
  nextACKRequestMS := nowMS
  ackDeadlineMS := 0
  ackDeadlineArmed := false
  nextToken := nextToken
  hasClaim := false
  claimAdmitted := false
  claimAdmittedAtMS := 0
  claimToken := 0
  claimRecord := .zero
  retryPending := false
  retryRecord := .zero

def Profile.newMetadataTransfer (p : Profile) (address : Nat)
    (metadata : BoundCompiledMetadata) (sequence : UInt8)
    (generation transferEpoch nowMS : UInt64) : Except Error MetadataTransfer :=
  if !p.validates then .error .invalidProfile
  else if !metadata.valid ∨ metadata.issuance ≠ some 1 ∨ metadata.data.length = 0 ∨
      metadataMaximumBoundLength < metadata.data.length then .error .invalidMetadata
  else if metadata.identity ≠ p.identity ∨ metadata.profileIssuance ≠ p.issuance then
    .error .metadataIdentityMismatch
  else if sequence = 0 then .error .reservedSequence
  else if generation = 0 then .error .invalidTransferGeneration
  else if transferEpoch = 0 then .error .invalidTransferEpoch
  else .ok (begin address metadata sequence generation transferEpoch nowMS 0)

def saturatingMetadataDeadline (nowMS deltaMS : UInt64) : UInt64 :=
  if (0 - 1 : UInt64) - nowMS < deltaMS then 0 - 1 else nowMS + deltaMS

/-! ## Packet images -/

/-- The branch of `selectPacket` for a block which fits one packet. -/
def selectSingle (sequence : UInt8) (data : Bytes) (post : PostState)
    (nowMS : UInt64) : Except Error PacketRecord := do
  let header ← SinglePacketHeader.encode
    { dataClass := dataClassCommand
      messageNumber := messageNumberMetadataRequest
      system := true
      acknowledgementRequested := false
      expansionIndex := 0
      sequence := sequence
      payloadLength := data.length }
  return {
    wire := header ++ data
    size := singlePacketHeaderSize + data.length
    kind := .single
    acknowledgement := false
    selectedAtMS := nowMS
    post :=
      { post with offset := data.length, sentEnd := data.length, done := true } }

/-- The branch of `selectPacket` for the packet after the last fragment. -/
def selectComplete (sequence : UInt8) (data : Bytes) (post : PostState)
    (nowMS : UInt64) : PacketRecord where
  wire := encodeMetadataCompleteHeader sequence data.length
  size := metadataFragmentHeaderSize
  kind := .complete
  acknowledgement := false
  selectedAtMS := nowMS
  post := { post with done := true }

def fragmentPayloadLength (total start : Nat) : Nat :=
  if metadataFragmentPayloadCapacity < total - start then metadataFragmentPayloadCapacity
  else total - start

/-- The kind of the fragment which starts at `start`. -/
def fragmentKind (total start : Nat) : MetadataPacketKind :=
  if start = 0 then .initialFragment
  else if start + fragmentPayloadLength total start = total then .finalFragment
  else .middleFragment

/-- The branch of `selectPacket` for a fragment, given the acknowledgement
request it computes. -/
def selectFragment (sequence : UInt8) (data : Bytes) (post : PostState)
    (nowMS : UInt64) (ack : Bool) : PacketRecord :=
  let start := post.offset
  let payloadLength := fragmentPayloadLength data.length start
  let stop := start + payloadLength
  let kind := fragmentKind data.length start
  { wire := encodeMetadataFragmentHeader sequence payloadLength (kind = .initialFragment) ack
      (if kind = .initialFragment then data.length else start) ++
        (data.drop start).take payloadLength
    size := metadataFragmentHeaderSize + payloadLength
    kind := kind
    acknowledgement := ack
    selectedAtMS := nowMS
    post := { post with offset := stop, sentEnd := stop, finalAcknowledged := false } }

/-- Accepted host progress carried into a packet which is not yet delivered. -/
def PacketRecord.acknowledged (r : PacketRecord) (acknowledgedEnd : Nat)
    (finalAcknowledged : Bool) : PacketRecord :=
  { r with
    post :=
      { r.post with
        acknowledgedEnd := acknowledgedEnd
        finalAcknowledged := finalAcknowledged } }

namespace MetadataTransfer

/-- The length of the block. -/
def total (t : MetadataTransfer) : Nat := t.metadata.data.length

def validateClock (t : MetadataTransfer) (nowMS : UInt64) : Except Error Unit :=
  if nowMS < t.lastNowMS then
    .error (.nonMonotonicMetadataClock nowMS t.lastNowMS)
  else .ok ()

/-- The checks of `observeAndCheckTimeout` once the clock reading is stored. -/
def checkTimeout (t : MetadataTransfer) (nowMS : UInt64) : MetadataTransfer × Except Error Unit :=
  if t.faulted then (t, .error .metadataTransferFaulted)
  else if t.ackDeadlineArmed ∧ t.ackDeadlineMS ≤ nowMS then
    ({ t with faulted := true, ackDeadlineArmed := false }, .error .reliableTransferTimeout)
  else (t, .ok ())

def observeAndCheckTimeout (t : MetadataTransfer) (nowMS : UInt64) :
    MetadataTransfer × Except Error Unit :=
  if !t.valid then (t, .error .invalidMetadata)
  else
    match t.validateClock nowMS with
    | .error err => (t, .error err)
    | .ok () => checkTimeout { t with lastNowMS := nowMS } nowMS

def claimFromRecord (t : MetadataTransfer) (record : PacketRecord) :
    MetadataTransfer × PacketClaim :=
  let token := bump t.nextToken
  ({ t with
      nextToken := token
      hasClaim := true
      claimAdmitted := false
      claimAdmittedAtMS := 0
      claimToken := token
      claimRecord := record },
    { owner := some t.address
      token := token
      transferGeneration := t.generation
      transferEpoch := t.transferEpoch
      messageNumber := messageNumberMetadataRequest
      sequence := t.sequence
      kind := record.kind
      size := record.size
      selectedACME := record.acknowledgement
      selectedAtMS := record.selectedAtMS })

/-- The progress a packet starts from. -/
def currentPost (t : MetadataTransfer) : PostState :=
  ⟨t.offset, t.sentEnd, t.acknowledgedEnd, t.finalAcknowledged, t.done⟩

def selectPacket (t : MetadataTransfer) (nowMS : UInt64) : Except Error PacketRecord :=
  if t.total ≤ 60 then
    selectSingle t.sequence t.metadata.data t.currentPost nowMS
  else if t.offset = t.total then
    if !t.finalAcknowledged then .error .acknowledgementRequired
    else .ok (selectComplete t.sequence t.metadata.data t.currentPost nowMS)
  else
    let kind := fragmentKind t.total t.offset
    let acknowledgement := kind = .initialFragment ∨ kind = .finalFragment ∨
      t.nextACKRequestMS ≤ nowMS
    .ok (selectFragment t.sequence t.metadata.data t.currentPost nowMS acknowledgement)

def claim (t : MetadataTransfer) (nowMS : UInt64) : MetadataTransfer × Except Error PacketClaim :=
  match t.observeAndCheckTimeout nowMS with
  | (t, .error err) => (t, .error err)
  | (t, .ok ()) =>
    if t.hasClaim then (t, .error .metadataClaimOutstanding)
    else if t.retryPending then (t, .error .metadataRetryRequired)
    else if t.done then (t, .error .metadataTransferComplete)
    else if t.ackDeadlineArmed then (t, .error .acknowledgementRequired)
    else
      match t.selectPacket nowMS with
      | .error err => (t, .error err)
      | .ok record =>
        let (t, claim) := t.claimFromRecord record
        (t, .ok claim)

def claimRetry (t : MetadataTransfer) (nowMS : UInt64) :
    MetadataTransfer × Except Error PacketClaim :=
  match t.observeAndCheckTimeout nowMS with
  | (t, .error err) => (t, .error err)
  | (t, .ok ()) =>
    if t.hasClaim then (t, .error .metadataClaimOutstanding)
    else if !t.retryPending then (t, .error .metadataRetryRequired)
    else
      let (t, claim) := t.claimFromRecord t.retryRecord
      ({ t with retryPending := false }, .ok claim)

/-- `validateClaim`. -/
def claimValid (t : MetadataTransfer) (c : PacketClaim) : Bool :=
  t.hasClaim && decide (c.owner = some t.address) && decide (c.token ≠ 0) &&
    decide (c.token = t.claimToken) &&
    decide (c.transferGeneration = t.generation) &&
    decide (c.transferEpoch = t.transferEpoch) &&
    decide (c.messageNumber = messageNumberMetadataRequest) &&
    decide (c.sequence = t.sequence) && decide (c.kind = t.claimRecord.kind) &&
    decide (c.size = t.claimRecord.size) &&
    (t.claimAdmitted || c.selectedACME == t.claimRecord.acknowledgement) &&
    decide (c.selectedAtMS = t.claimRecord.selectedAtMS)

/-- A middle fragment which was not yet asked for an acknowledgement gets the
request when its cadence is due at admission. -/
def upgradeACK (t : MetadataTransfer) (nowMS : UInt64) : PacketRecord :=
  if t.claimRecord.kind = .middleFragment ∧ t.claimRecord.acknowledgement = false ∧
      t.nextACKRequestMS ≤ nowMS then
    { t.claimRecord with
      acknowledgement := true
      wire := t.claimRecord.wire.modify 1 (· ||| flagAcknowledge) }
  else t.claimRecord

def admitAndCopy (t : MetadataTransfer) (c : PacketClaim) (dst : Bytes)
    (nowMS : UInt64) : MetadataTransfer × Except Error PacketAdmission :=
  if !t.claimValid c then (t, .error .invalidMetadataClaim)
  else if t.claimAdmitted then (t, .error .invalidMetadataClaim)
  else if dst.length < t.claimRecord.size then
    (t, .error (.invalidLength dst.length t.claimRecord.size))
  else
    match t.observeAndCheckTimeout nowMS with
    | (t, .error err) => (t, .error err)
    | (t, .ok ()) =>
      let record := t.upgradeACK nowMS
      ({ t with
          claimRecord := record
          claimAdmitted := true
          claimAdmittedAtMS := nowMS },
        .ok
          { size := record.size
            kind := record.kind
            acknowledgement := record.acknowledgement
            dst := record.wire.take record.size ++ dst.drop record.size })

def clearClaim (t : MetadataTransfer) : MetadataTransfer :=
  { t with
    hasClaim := false
    claimAdmitted := false
    claimAdmittedAtMS := 0
    claimToken := 0
    claimRecord := .zero }

/-- What a rewind does to the packet in hand. -/
def dropClaim (t : MetadataTransfer) : MetadataTransfer :=
  if t.hasClaim then t.clearClaim else t

/-- The committing branch of `Resolve`. -/
def commitDelivered (t : MetadataTransfer) (completedMS : UInt64) : MetadataTransfer :=
  let post := t.claimRecord.post
  clearClaim
    { t with
      offset := post.offset
      sentEnd := post.sentEnd
      acknowledgedEnd := post.acknowledgedEnd
      finalAcknowledged := post.finalAcknowledged
      done := post.done
      ackDeadlineMS := if t.claimRecord.acknowledgement then
        saturatingMetadataDeadline completedMS reliableACKTimeoutMilliseconds
        else t.ackDeadlineMS
      ackDeadlineArmed := t.claimRecord.acknowledgement || t.ackDeadlineArmed }

def resolve (t : MetadataTransfer) (c : PacketClaim) (outcome : UInt8)
    (completedMS : UInt64) : MetadataTransfer × Except Error Unit :=
  if !t.claimValid c then (t, .error .invalidMetadataClaim)
  else if outcome ≠ metadataPacketDelivered ∧ outcome ≠ metadataPacketDeferred ∧
      outcome ≠ metadataPacketDeliveryFailed then (t, .error .invalidMetadataOutcome)
  else if outcome = metadataPacketDelivered ∧ !t.claimAdmitted then
    (t, .error .metadataClaimNotAdmitted)
  else
    let completedMS := if completedMS < t.lastNowMS then t.lastNowMS else completedMS
    let t := { t with lastNowMS := completedMS }
    if outcome ≠ metadataPacketDelivered then
      (clearClaim { t with retryRecord := t.claimRecord, retryPending := true }, .ok ())
    else (t.commitDelivered completedMS, .ok ())

def validateAcknowledgement (t : MetadataTransfer) (ack : Acknowledgement) :
    Except Error Disposition :=
  if t.claimAdmitted then .error .metadataClaimOutstanding
  else if t.total ≤ 60 ∨ t.done ∨ t.sentEnd = 0 ∨
      ack.transferGeneration ≠ t.generation ∨ ack.transferEpoch ≠ t.transferEpoch ∨
      ack.messageNumber ≠ messageNumberMetadataRequest ∨ ack.sequence ≠ t.sequence ∨
      ack.contiguousPayloadBytes < t.acknowledgedEnd ∨
      t.sentEnd < ack.contiguousPayloadBytes ∨
      t.total < ack.contiguousPayloadBytes then
    .error (.invalidAcknowledgement ack.transferGeneration ack.transferEpoch
      ack.messageNumber ack.sequence ack.contiguousPayloadBytes)
  else if ack.contiguousPayloadBytes < t.offset then .ok .rewind
  else if t.acknowledgedEnd < ack.contiguousPayloadBytes then .ok .progress
  else .ok .duplicate

def previewAcknowledgement (t : MetadataTransfer) (ack : Acknowledgement)
    (nowMS : UInt64) : Except Error Disposition :=
  if !t.valid then .error .invalidMetadata
  else
    match t.validateClock nowMS with
    | .error err => .error err
    | .ok () =>
      if t.faulted then .error .metadataTransferFaulted
      else if t.ackDeadlineArmed ∧ t.ackDeadlineMS ≤ nowMS then
        .error .reliableTransferTimeout
      else t.validateAcknowledgement ack

/-- The part of `Acknowledge` common to all accepted acknowledgements. -/
def acceptAcknowledgement (t : MetadataTransfer) (nowMS : UInt64) : MetadataTransfer :=
  { t with
    lastNowMS := nowMS
    ackDeadlineArmed := false
    ackDeadlineMS := 0
    nextACKRequestMS := saturatingMetadataDeadline nowMS reliableACKRequestIntervalMilliseconds }

/-- The rewinding branch of `Acknowledge`. -/
def rewindTo (t : MetadataTransfer) (bytes : Nat) : MetadataTransfer :=
  let t := dropClaim { t with offset := bytes, sentEnd := bytes }
  { t with
    retryPending := false
    retryRecord := .zero
    acknowledgedEnd := bytes
    finalAcknowledged := bytes == t.total }

/-- The other branch: the packet in hand and the retained one learn of the
progress. -/
def advanceTo (t : MetadataTransfer) (bytes : Nat) : MetadataTransfer :=
  let final := bytes == t.total
  { t with
    acknowledgedEnd := bytes
    finalAcknowledged := final
    claimRecord := if t.hasClaim then PacketRecord.acknowledged t.claimRecord bytes final
      else t.claimRecord
    retryRecord := if t.retryPending then
      PacketRecord.acknowledged t.retryRecord bytes final else t.retryRecord }

def acknowledge (t : MetadataTransfer) (ack : Acknowledgement) (nowMS : UInt64) :
    MetadataTransfer × Except Error Disposition :=
  match t.observeAndCheckTimeout nowMS with
  | (t, .error err) => (t, .error err)
  | (t, .ok ()) =>
    match t.validateAcknowledgement ack with
    | .error err => (t, .error err)
    | .ok disposition =>
      let t := t.acceptAcknowledgement nowMS
      if disposition = .rewind then
        (t.rewindTo ack.contiguousPayloadBytes, .ok disposition)
      else (t.advanceTo ack.contiguousPayloadBytes, .ok disposition)

def reset (t : MetadataTransfer) (sequence : UInt8)
    (successorGeneration successorTransferEpoch nowMS : UInt64) :
    MetadataTransfer × Except Error Unit :=
  if !t.valid then (t, .error .invalidMetadata)
  else
    match t.validateClock nowMS with
    | .error err => (t, .error err)
    | .ok () =>
      if sequence = 0 then (t, .error .reservedSequence)
      else if t.generation = 0 - 1 ∨ successorGeneration = 0 ∨
          successorGeneration ≠ t.generation + 1 then
        (t, .error .invalidTransferGeneration)
      else if t.transferEpoch = 0 - 1 ∨ successorTransferEpoch = 0 ∨
          successorTransferEpoch ≠ t.transferEpoch + 1 then
        (t, .error .invalidTransferEpoch)
      else
        (begin t.address t.metadata sequence successorGeneration
          successorTransferEpoch nowMS t.nextToken, .ok ())

end MetadataTransfer

/-- The calls on one transfer between two resets. -/
inductive Op where
  | claim (nowMS : UInt64)
  | claimRetry (nowMS : UInt64)
  | admitAndCopy (claim : PacketClaim) (dst : Bytes) (nowMS : UInt64)
  | resolve (claim : PacketClaim) (outcome : UInt8) (completedMS : UInt64)
  | acknowledge (ack : Acknowledgement) (nowMS : UInt64)
  | previewAcknowledgement (ack : Acknowledgement) (nowMS : UInt64)
  | poll (nowMS : UInt64)

inductive Answer where
  | claim (answer : Except Error PacketClaim)
  | admission (answer : Except Error PacketAdmission)
  | acknowledgement (answer : Except Error Disposition)
  | done (answer : Except Error Unit)

/-- One call. -/
def step (t : MetadataTransfer) : Op → MetadataTransfer × Answer
  | .claim nowMS => let r := t.claim nowMS; (r.1, .claim r.2)
  | .claimRetry nowMS => let r := t.claimRetry nowMS; (r.1, .claim r.2)
  | .admitAndCopy c dst nowMS =>
    let r := t.admitAndCopy c dst nowMS
    (r.1, .admission r.2)
  | .resolve c outcome completedMS =>
    let r := t.resolve c outcome completedMS
    (r.1, .done r.2)
  | .acknowledge ack nowMS =>
    let r := t.acknowledge ack nowMS
    (r.1, .acknowledgement r.2)
  | .previewAcknowledgement ack nowMS =>
    (t, .acknowledgement (t.previewAcknowledgement ack nowMS))
  | .poll nowMS => let r := t.observeAndCheckTimeout nowMS; (r.1, .done r.2)

end Viiper.Ports.Metadata
