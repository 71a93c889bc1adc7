import Viiper.Ports.EndpointThread
import Viiper.Verified.Framing

/-!
# Isochronous IN transfers

The path of one isochronous IN submission: `handleUrbStream` checks it, answers it on the
spot or queues it at the endpoint's worker; `processIsoIn` samples the device once per
packet and answers at the end of the last slot.  The worker and its goroutine are those of
`EndpointThread`; here they carry the bytes, which that module leaves out.

Conventions of the port:

* a submission is given by its header fields, its descriptors as the host sent them
  (`decodeIsoPacketDescriptors` fills all four fields from the wire), and what the server
  knows of the endpoint;
* `mediaBuffer` is the backing array and the length of the slice, since `resizeBytes`
  reuses the array with its old contents;
* nobody else writes the descriptors of the job in flight, so reading them is part of the
  step of the call which follows or precedes;
* `sampled` collects the bytes which each packet got.  No branch reads it.
-/

namespace Viiper.Ports.Endpoint

open Verified Go Framing
open EndpointWorker (Submission)
open List hiding splitBy

/-! ## Responses -/

def retSubmitCode : UInt32 := 3
def retSubmitHeaderSize : Nat := 48
def isoPacketDescriptorSize : Nat := 16
def errPipe : Int32 := -32
def errNoSpace : Int32 := -28

namespace IsoPacketDescriptor

/-- A descriptor as `buildRetSubmitPacket` writes it. -/
def encode (p : IsoPacketDescriptor) : Bytes :=
  be32 p.offset ++ be32 p.length ++ be32 p.actualLength ++ be32 p.status.toUInt32

def decode (wire : Bytes) : IsoPacketDescriptor :=
  { offset := readBE32 wire
    length := readBE32 (wire.drop 4)
    actualLength := readBE32 (wire.drop 8)
    status := (readBE32 (wire.drop 12)).toInt32 }

theorem length_encode (p : IsoPacketDescriptor) : p.encode.length = isoPacketDescriptorSize := rfl

theorem decode_encode (p : IsoPacketDescriptor) : decode p.encode = p := by
  have hlast : readBE32 (be32 p.status.toUInt32) = p.status.toUInt32 := by
    simpa using readBE32_be32 p.status.toUInt32 []
  have h0 : readBE32 p.encode = p.offset := by
    unfold encode
    rw [append_assoc, append_assoc, readBE32_be32]
  have h4 : readBE32 (p.encode.drop 4) = p.length := by
    unfold encode
    rw [append_assoc, append_assoc, drop_left' (length_be32 _), readBE32_be32]
  have h8 : readBE32 (p.encode.drop 8) = p.actualLength := by
    unfold encode
    rw [append_assoc, drop_left' (show (be32 _ ++ be32 _).length = 8 from rfl),
      readBE32_be32]
  have h12 : (readBE32 (p.encode.drop 12)).toInt32 = p.status := by
    unfold encode
    rw [drop_left' (show (be32 _ ++ be32 _ ++ be32 _).length = 12 from rfl), hlast]
    rfl
  unfold decode
  rw [h0, h4, h8, h12]

end IsoPacketDescriptor

/-- The fixed part of a RET_SUBMIT. -/
def retSubmitHeader (seq : UInt32) (status : Int32) (actualLen packetCount : UInt32) : Bytes :=
  be32 retSubmitCode ++ be32 seq ++ List.replicate 12 0 ++ be32 status.toUInt32 ++
    be32 actualLen ++ List.replicate 4 0 ++ be32 packetCount ++ List.replicate 12 0

def buildRetSubmitPacket (seq : UInt32) (status : Int32) (actualLen : UInt32)
    (respData : Bytes) (isoPackets : List IsoPacketDescriptor) (isIso : Bool) : Bytes :=
  let packetCount : UInt32 := if isIso then UInt32.ofNat isoPackets.length else 0 - 1
  retSubmitHeader seq status actualLen packetCount ++ respData ++
    (if isIso then isoPackets.flatMap IsoPacketDescriptor.encode else [])

/-- What the host reads off a RET_SUBMIT. -/
structure RetSubmit where
  seq : UInt32
  status : Int32
  actualLength : UInt32
  payload : Bytes
  packets : List IsoPacketDescriptor

/-- The number of descriptors behind the payload: none when the count is the
marker of an ordinary transfer. -/
def descriptorCount (bytes : Bytes) : Nat :=
  let count := readBE32 (bytes.drop 32)
  if count = 0 - 1 then 0 else count.toNat

/-- The host's reading: the payload stands between the header and the
descriptors. -/
def readRetSubmit (bytes : Bytes) : RetSubmit :=
  let count := descriptorCount bytes
  let body := bytes.drop retSubmitHeaderSize
  let size := body.length - count * isoPacketDescriptorSize
  { seq := readBE32 (bytes.drop 4)
    status := (readBE32 (bytes.drop 20)).toInt32
    actualLength := readBE32 (bytes.drop 24)
    payload := body.take size
    packets := readRecords isoPacketDescriptorSize IsoPacketDescriptor.decode count
      (body.drop size) }

/-- What makes a response self-consistent, given the bytes each packet got. -/
structure RetSubmit.Consistent (r : RetSubmit) (samples : List Bytes) : Prop where
  actual : r.actualLength.toNat = r.payload.length
  total : (r.packets.map fun p => p.actualLength.toNat).sum = r.payload.length
  bounded : ∀ p ∈ r.packets, p.actualLength ≤ p.length
  split : splitBy (r.packets.map fun p => p.actualLength.toNat) r.payload = samples

/-! ## The command reader -/

def maximumTransferSize : UInt32 := 16 * 1024 * 1024
def maxIsoPackets : Nat := 1024

structure EndpointDescriptor where
  bmAttributes : UInt8
  wMaxPacketSize : UInt16

def EndpointDescriptor.isochronous (e : EndpointDescriptor) : Bool :=
  e.bmAttributes &&& 0x03 == 0x01

/-- Why a submission ends the connection. -/
inductive IsoError
  | transferLength (length : UInt32)
  | packetCount (count : Nat)
  | notIsochronous
  | isoTransferLength (length : UInt32)
  | zeroMaxPacketSize
  | reservedTransactionCount
  | zeroLength (index : Nat)
  | exceedsCapacity (index : Nat) (length capacity : UInt32)
  | exceedsTransfer (index : Nat) (offset : UInt32) (packetEnd : Nat) (length : UInt32)
  | overlaps (index : Nat)
  | compactLength (compact : Nat) (length : UInt32)
  deriving DecidableEq

def endpointServiceCapacity (e : EndpointDescriptor) : Except IsoError UInt32 :=
  let packetBytes := (e.wMaxPacketSize &&& 0x07ff).toUInt32
  let additionalTransactions := ((e.wMaxPacketSize >>> 11) &&& 0x03).toUInt32
  if packetBytes = 0 then .error .zeroMaxPacketSize
  else if additionalTransactions = 3 then .error .reservedTransactionCount
  else .ok (packetBytes * (additionalTransactions + 1))

/-- The loop of `validateIsoEndpointSubmission`.  The sums of the source are of
64 bits and stay below `2 ^ 33`. -/
def validateIsoPackets (xferLen capacity : UInt32) :
    Nat → Nat → Nat → List IsoPacketDescriptor → Except IsoError Unit
  | _, _, _, [] => .ok ()
  | index, compact, previousEnd, packet :: packets =>
    let packetEnd := packet.offset.toNat + packet.length.toNat
    let compact := compact + packet.length.toNat
    if packet.length = 0 then .error (.zeroLength index)
    else if capacity < packet.length then
      .error (.exceedsCapacity index packet.length capacity)
    else if xferLen.toNat < packetEnd then
      .error (.exceedsTransfer index packet.offset packetEnd xferLen)
    else if packet.offset.toNat < previousEnd then .error (.overlaps index)
    else if xferLen.toNat < compact then .error (.compactLength compact xferLen)
    else validateIsoPackets xferLen capacity (index + 1) compact packetEnd packets

/-- `validateIsoEndpointSubmission`; `none` is the nil descriptor. -/
def validateIsoEndpointSubmission (endpoint : Option EndpointDescriptor)
    (xferLen : UInt32) (packets : List IsoPacketDescriptor) : Except IsoError Unit :=
  match endpoint with
  | none => .error .notIsochronous
  | some e =>
    if !e.isochronous then .error .notIsochronous
    else if maximumTransferSize < xferLen then .error (.isoTransferLength xferLen)
    else
      match endpointServiceCapacity e with
      | .error err => .error err
      | .ok capacity => validateIsoPackets xferLen capacity 0 0 0 packets

/-- A CMD_SUBMIT of direction IN, and what the server knows of its endpoint:
whether it is active, its descriptor, and whether it has a worker. -/
structure Command where
  (seq ep xferLen : UInt32)
  packets : List IsoPacketDescriptor
  active : Bool
  descriptor : Option EndpointDescriptor
  worker : Bool
  now : Time

namespace Command

/-- `activeBinding`; endpoint zero is active and has none. -/
def activeBinding (cmd : Command) : Option EndpointDescriptor × Bool :=
  if cmd.ep = 0 then (none, true) else (cmd.descriptor, cmd.active)

def descriptorIso (cmd : Command) : Bool :=
  cmd.activeBinding.2 && cmd.activeBinding.1.any EndpointDescriptor.isochronous

def isIso (cmd : Command) : Bool := !cmd.packets.isEmpty || cmd.descriptorIso

def rejectEndpoint (cmd : Command) : Bool :=
  (decide (cmd.ep ≠ 0) && !cmd.activeBinding.2) || (cmd.isIso && (decide (cmd.ep = 0) ||
      !cmd.activeBinding.1.any EndpointDescriptor.isochronous))

/-- The arguments of `enqueueIsoInBinding`. -/
def submission (cmd : Command) : Submission :=
  ⟨cmd.seq, cmd.xferLen, [], cmd.packets, cmd.now, 0⟩

end Command

/-- What `handleUrbStream` does with a submission of direction IN. -/
inductive Route
  /-- The connection ends. -/
  | fail (err : IsoError)
  /-- The response is written at once. -/
  | reply (bytes : Bytes)
  /-- The submission goes to the worker. -/
  | enqueue
  /-- The submission is not isochronous. -/
  | other

/-- `handleUrbStream` up to the queue of the worker. -/
def route (cmd : Command) : Route :=
  if maximumTransferSize < cmd.xferLen then .fail (.transferLength cmd.xferLen)
  else if maxIsoPackets < cmd.packets.length then .fail (.packetCount cmd.packets.length)
  else if cmd.rejectEndpoint then
    .reply (buildRetSubmitPacket cmd.seq errPipe 0 []
      (cmd.packets.map fun p => { p with actualLength := 0, status := errPipe }) cmd.isIso)
  else if !cmd.isIso then .other
  else
    match validateIsoEndpointSubmission cmd.activeBinding.1 cmd.xferLen cmd.packets with
    | .error err => .fail err
    | .ok () =>
      -- an ISO request without packet descriptors has no service slots
      if cmd.packets.isEmpty then .reply (buildRetSubmitPacket cmd.seq 0 0 [] [] true)
      else .enqueue

/-- The response to a submission the queue has no room for. -/
def Command.refusal (cmd : Command) : Bytes :=
  buildRetSubmitPacket cmd.seq errNoSpace 0 [] cmd.packets cmd.isIso

/-! ## Sampling -/

/-- The local variables of `processIsoIn`. -/
structure Sampler where
  seq : UInt32 := 0
  /-- The array behind `mediaBuffer`. -/
  media : Bytes := []
  /-- `len(mediaBuffer)`. -/
  (size used : Nat := 0)
  actualLengths : Nat → UInt32 := fun _ => 0
  sampled : List Bytes := []

inductive DeviceRead
  /-- `TryReadMicrophonePacket`: what it wrote into the destination, and what it
  returned. -/
  | fast (written : Bytes) (n : Int) (ok : Bool)
  /-- `HandleTransfer`. -/
  | transfer (packetData : Bytes)

/-- The destination after writing over its first bytes. -/
def overwrite (destination written : Bytes) : Bytes :=
  written.take destination.length ++ destination.drop written.length

/-- The read of one packet: the destination after it, and the bytes it counts. -/
def readDevice (destination : Bytes) : DeviceRead → Bytes × Nat
  | .fast written n ok =>
    let filled := overwrite destination written
    let n := min n.toNat destination.length
    if ok then (filled, n)
    else
      let n := if n = 0 then destination.length else n
      (List.replicate n 0 ++ filled.drop n, n)
  | .transfer packetData =>
    if packetData.length = 0 then
      (List.replicate destination.length 0, destination.length)
    else
      let n := min packetData.length destination.length
      (packetData.take n ++ destination.drop n, n)

namespace Sampler

/-- The start of `processIsoIn`. -/
def start (s : Sampler) (job : EndpointJob) : Sampler :=
  let size := job.xferLen.toNat
  { seq := job.seq
    media := if s.media.length < size then List.replicate size 0 else s.media
    size := size
    used := 0
    actualLengths := fun i => if i < job.packets.length then 0 else s.actualLengths i
    sampled := [] }

/-- The bytes of a packet after the clip against the buffer. -/
def room (s : Sampler) (packetLength : Nat) : Nat :=
  if s.size < s.used + packetLength then s.size - s.used else packetLength

/-- Whether the loop breaks at a packet. -/
def full (s : Sampler) (packetLength : Nat) : Bool :=
  decide (0 < packetLength) && decide (s.room packetLength = 0)

/-- Whether the loop reads the device for a packet. -/
def reads (s : Sampler) (packetLength : Nat) : Bool :=
  decide (0 < s.room packetLength)

/-- The part of the loop body which samples packet `index`. -/
def samplePacket (s : Sampler) (index packetLength : Nat) (read : DeviceRead) : Sampler :=
  if s.reads packetLength then
    let destination := (s.media.drop s.used).take (s.room packetLength)
    let r := readDevice destination read
    { s with
      media := s.media.take s.used ++ r.1 ++ s.media.drop (s.used + s.room packetLength)
      used := s.used + r.2
      actualLengths := Function.update s.actualLengths index (UInt32.ofNat r.2)
      sampled := s.sampled ++ [r.1.take r.2] }
  else { s with sampled := s.sampled ++ [[]] }

/-- The descriptors of the response. -/
def completedPackets (s : Sampler) (packets : List IsoPacketDescriptor) :
    List IsoPacketDescriptor :=
  packets.zipIdx.map fun pi =>
    { pi.1 with actualLength := min pi.1.length (s.actualLengths pi.2), status := 0 }

/-- The response of `processIsoIn`. -/
def response (s : Sampler) (packets : List IsoPacketDescriptor) : Bytes :=
  buildRetSubmitPacket s.seq 0 (UInt32.ofNat s.used) ((s.media.take s.size).take s.used)
    (s.completedPackets packets) true

end Sampler

/-! ## Both threads -/

structure IsoIn where
  thread : Thread
  sampler : Sampler

namespace IsoIn

/-- What happens at an isochronous IN endpoint. -/
inductive Act
  | submit (cmd : Command)
  | unlinkAt (seq : UInt32) (now : Time)
  | reset
  | worker (env : Env) (read : DeviceRead)

def config (interval : Duration) : Config := newConfig .isoIn interval

/-- A worker whose media buffer has the given array. -/
def new (media : Bytes) : IsoIn := ⟨Thread.new, { media := media }⟩

/-- One call of the command reader. -/
def reader (interval : Duration) (s : IsoIn) (r : ReaderOp) : IsoIn × EndpointWorker.Out :=
  let t := EndpointWorker.step (config interval) s.thread.worker r.op
  ({ s with thread := ⟨t.1, s.thread.pc⟩ }, t.2)

/-- The command reader takes a submission. -/
def submit (interval : Duration) (s : IsoIn) (cmd : Command) : IsoIn × Option Bytes :=
  match route cmd with
  | .fail _ => (s, none)
  | .other => (s, none)
  | .reply bytes => (s, some bytes)
  | .enqueue =>
    if !cmd.worker then (s, some cmd.refusal)
    else
      let r := s.reader interval (.enqueue cmd.submission)
      (r.1, if r.2 = .answer true then none else some cmd.refusal)

def packetLength (s : IsoIn) (idx packet : Nat) : Nat :=
  (((s.thread.worker.slots idx).packets[packet]?).getD {}).length.toNat

/-- What the goroutine sees of the world, given its buffer: the loop breaks when
the buffer is full, and the context is read after `HandleTransfer` only. -/
def view (s : IsoIn) (env : Env) (read : DeviceRead) : Env :=
  match s.thread.pc with
  | .sampling idx packet _ =>
    { env with
      full := s.sampler.full (s.packetLength idx packet)
      ended := match read with
        | .fast _ _ _ => false
        | .transfer _ => env.ended && s.sampler.reads (s.packetLength idx packet) }
  | _ => env

/-- What a step of the goroutine does to its local variables; `pc` is where it
goes. -/
def resample (s : IsoIn) (read : DeviceRead) (t : Thread) : Sampler :=
  match s.thread.pc, t.pc with
  | .claiming, .deadline idx _ _ => s.sampler.start (t.worker.slots idx)
  | .sampling _ _ _, .finishing _ _ _ => s.sampler
  | .sampling idx packet _, _ =>
    s.sampler.samplePacket packet (s.packetLength idx packet) read
  | _, _ => s.sampler

/-- What a step of the goroutine writes, given the answer of its call. -/
def written (s : IsoIn) (call : Option (EndpointWorker.Op × EndpointWorker.Out)) : Option Bytes :=
  match s.thread.pc, call with
  | .completing idx, some (_, .answer true) =>
    some (s.sampler.response (s.thread.worker.slots idx).packets)
  | _, _ => none

/-- One step, with what it writes to the connection. -/
def step (interval : Duration) (s : IsoIn) : Act → IsoIn × Option Bytes
  | .submit cmd => s.submit interval cmd
  | .unlinkAt seq now => ((s.reader interval (.unlinkAt seq now)).1, none)
  | .reset => ((s.reader interval .reset).1, none)
  | .worker env read =>
    let r := Thread.step (config interval) s.thread (.worker (s.view env read))
    (⟨r.1, s.resample read r.1⟩, s.written r.2)

end IsoIn

end Viiper.Ports.Endpoint
