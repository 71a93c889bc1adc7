import Viiper.Verified.BlockRing
import Viiper.Verified.GoTypes
import Viiper.Verified.Run

/-!
# The microphone jitter buffer

`device/internal/microphonebuffer`: complete client PCM frames go into a bounded ring, and
USB packets of one fewer, the nominal number, or one additional sample-frame come out.  A
clock servo chooses the size; when the queue cannot serve it the largest legal one is used,
and when it can serve none the buffer waits to be primed again.

Byte counts are naturals, read off 64-bit `int` parameters.  The product which gives the
capacity is taken in 64 bits, as `New` takes it, and the servo works in `int64`.
-/

namespace Viiper.Ports.Microphone

open Verified Go

/-- Largest allocation `make` accepts: the 48-bit heap address space. -/
def maxAlloc : Int64 := 281474976710656

def occupancyFilterShift : Int64 := 6
def servoGainPPMPerMS : Int64 := 2000
def servoLimitPPM : Int64 := 10000
def servoPulseScale : Int64 := 1000000
def recoveryClientFrames : Int64 := 2

/-- The fields `New` computes and nothing changes. -/
structure Geometry where
  (capacity packetSize pcmFrameSize frameSize targetSize recoverySize : Nat)
  (queueCenter lowRailSize highRailSize nominalPacketFrames : Int64)

/-- The occupancy filter and the accumulated clock correction. -/
structure Servo where
  filteredQueueQ16 : Int64
  filterInitialized : Bool
  (servoAccumulator servoRatePPM : Int64)

/-- Gap statistics of one side of the buffer. -/
structure Gaps where
  last : Time
  (minGap maxGap : Duration)
  (fastGaps lateGaps : UInt64)

structure Buffer where
  geometry : Geometry
  ring : RingBuffer UInt8
  servo : Servo
  (primed needsReprime : Bool)
  underruns : UInt64
  (reprimes droppedBytes packetsRead zeroPackets overflowEvents shortPackets longPackets : UInt64)
  (lowWaterBytes highWaterBytes : Int)
  queueFrames : UInt64
  (queueGaps readGaps : Gaps)

namespace Buffer

/-- The index of the oldest byte. -/
def head (b : Buffer) : Nat := b.ring.head

/-- The number of queued bytes. -/
def size (b : Buffer) : Nat := b.ring.count

/-- The queued bytes, oldest first. -/
def queued (b : Buffer) : Bytes := b.ring.window b.geometry.capacity

end Buffer

/-- The geometry `New` derives from its parameters, or `none` where it panics:
on sizes it rejects, and in `make` when the 64-bit product is not a length. -/
def newGeometry (packetSize pcmFrameSize frameSize targetFrames
    maximumFrames : Int64) : Option Geometry :=
  if packetSize ≤ 0 ∨ pcmFrameSize ≤ 0 ∨ packetSize % pcmFrameSize ≠ 0 ∨
      frameSize ≤ 0 ∨ frameSize % packetSize ≠ 0 then none
  else if targetFrames ≤ 0 ∨ maximumFrames < targetFrames then none
  else
    let capacity := frameSize * maximumFrames
    if capacity < 0 ∨ maxAlloc < capacity then none
    else some
      { capacity := capacity.toInt.toNat
        packetSize := packetSize.toInt.toNat
        pcmFrameSize := pcmFrameSize.toInt.toNat
        frameSize := frameSize.toInt.toNat
        targetSize := (frameSize * targetFrames).toInt.toNat
        recoverySize :=
          (frameSize * min targetFrames recoveryClientFrames).toInt.toNat
        queueCenter := frameSize * targetFrames - frameSize / 2
        lowRailSize :=
          max pcmFrameSize (frameSize * targetFrames - frameSize * 3 / 2)
        highRailSize :=
          min (capacity - pcmFrameSize) (frameSize * targetFrames + frameSize / 2)
        nominalPacketFrames := packetSize / pcmFrameSize }

def Servo.zero : Servo := ⟨0, false, 0, 0⟩

def Gaps.zero : Gaps := ⟨0, 0, 0, 0, 0⟩

/-- A buffer of the given geometry with everything else at its zero value. -/
def Buffer.fresh (g : Geometry) : Buffer where
  geometry := g
  ring := ⟨fun _ => 0, 0, 0⟩
  servo := .zero
  primed := false
  needsReprime := false
  underruns := 0
  reprimes := 0
  droppedBytes := 0
  packetsRead := 0
  zeroPackets := 0
  overflowEvents := 0
  shortPackets := 0
  longPackets := 0
  lowWaterBytes := -1
  highWaterBytes := 0
  queueFrames := 0
  queueGaps := .zero
  readGaps := .zero

def new (packetSize pcmFrameSize frameSize targetFrames maximumFrames : Int64) : Option Buffer :=
  (newGeometry packetSize pcmFrameSize frameSize targetFrames maximumFrames).map Buffer.fresh

/-- One gap observation; `recordQueueTime` and `recordReadTime` differ in the
two thresholds. -/
def Gaps.record (fastBelow lateAbove : Duration) (g : Gaps) (now : Time) : Gaps :=
  if g.last = 0 then { g with last := now }
  else
    let gap := now - g.last
    { last := now
      minGap := if g.minGap = 0 ∨ gap < g.minGap then gap else g.minGap
      maxGap := if gap > g.maxGap then gap else g.maxGap
      fastGaps := if gap < fastBelow then g.fastGaps + 1 else g.fastGaps
      lateGaps := if gap > lateAbove then g.lateGaps + 1 else g.lateGaps }

namespace Servo

def filteredQueueBytes (s : Servo) : Int64 :=
  if !s.filterInitialized then 0
  else (s.filteredQueueQ16 + (1 : Int64) <<< (15 : Int64)) >>> 16

/-- The correction rate `nextPacketSize` derives from the filtered occupancy,
before it is limited. -/
def rawRate (g : Geometry) (filtered : Int64) : Int64 :=
  let bytesPerMillisecond := max 1 (Int64.ofNat g.frameSize / 10)
  let deadband := bytesPerMillisecond
  if filtered < g.lowRailSize then -servoLimitPPM
  else if g.highRailSize < filtered then servoLimitPPM
  else if g.queueCenter + deadband < filtered then
    (filtered - g.queueCenter - deadband) * servoGainPPMPerMS / bytesPerMillisecond
  else if filtered < g.queueCenter - deadband then
    -((g.queueCenter - deadband - filtered) * servoGainPPMPerMS / bytesPerMillisecond)
  else 0

/-- The rate limited to `servoLimitPPM` either way. -/
def limitRate (rate : Int64) : Int64 :=
  if servoLimitPPM < rate then servoLimitPPM
  else if rate < -servoLimitPPM then -servoLimitPPM
  else rate

/-- The state updates of `nextPacketSize`. -/
def observe (g : Geometry) (size : Nat) (s : Servo) : Servo :=
  let currentQ16 := Int64.ofNat (size - g.packetSize) <<< 16
  let initial := if !s.filterInitialized then g.queueCenter <<< 16
    else s.filteredQueueQ16
  let filtered := initial + (currentQ16 - initial) >>> occupancyFilterShift
  let s := { s with filteredQueueQ16 := filtered, filterInitialized := true }
  let rate := limitRate (rawRate g s.filteredQueueBytes)
  { s with
    servoRatePPM := rate
    servoAccumulator := s.servoAccumulator + rate * g.nominalPacketFrames }

/-- The size `nextPacketSize` returns from the updated servo. -/
def packetSize (g : Geometry) (s : Servo) : Nat :=
  if servoPulseScale ≤ s.servoAccumulator then g.packetSize + g.pcmFrameSize
  else if s.servoAccumulator ≤ -servoPulseScale then
    g.packetSize - g.pcmFrameSize
  else g.packetSize

end Servo

namespace Buffer

def recordQueueTime (b : Buffer) (now : Time) : Buffer :=
  { b with
    queueFrames := b.queueFrames + 1
    queueGaps := b.queueGaps.record 5000000 15000000 now }

def recordReadTime (b : Buffer) (now : Time) : Buffer :=
  { b with readGaps := b.readGaps.record 500000 1500000 now }

def recordWatermark (b : Buffer) : Buffer :=
  if !b.primed then b
  else
    { b with
      lowWaterBytes :=
        if b.lowWaterBytes < 0 ∨ (b.size : Int) < b.lowWaterBytes then b.size
        else b.lowWaterBytes
      highWaterBytes :=
        if (b.size : Int) > b.highWaterBytes then b.size
        else b.highWaterBytes }

def resetServo (b : Buffer) : Buffer := { b with servo := .zero }

def discard (b : Buffer) (count : Nat) : Buffer :=
  { b with ring := b.ring.discardBlock b.geometry.capacity count }

def write (b : Buffer) (src : Bytes) : Buffer :=
  { b with ring := b.ring.writeBlock b.geometry.capacity src }

/-- `read`: the bytes copied out, and the buffer without them. -/
def read (b : Buffer) (count : Nat) : Bytes × Buffer :=
  (b.ring.readBlock b.geometry.capacity count, b.discard count)

/-- The overflow branch of `QueueFrame`. -/
def makeRoom (b : Buffer) (length : Nat) : Buffer :=
  let overflow := b.size + length - b.geometry.capacity
  if overflow > 0 then
    let b := b.discard overflow
    { b with
      droppedBytes := b.droppedBytes + UInt64.ofNat overflow
      overflowEvents := b.overflowEvents + 1 }
  else b

/-- The priming branch of `QueueFrame`. -/
def prime (b : Buffer) : Buffer :=
  let primeSize := if b.needsReprime then b.geometry.recoverySize
    else b.geometry.targetSize
  if !b.primed ∧ b.size ≥ primeSize then
    { b with
      primed := true
      reprimes := if b.needsReprime then b.reprimes + 1 else b.reprimes
      needsReprime := false }
  else b

def queueFrame (b : Buffer) (frame : Bytes) (now : Time) : Buffer × Bool :=
  if frame.length ≠ b.geometry.frameSize then (b, false)
  else
    let b := b.recordQueueTime now
    let b := b.makeRoom frame.length
    let b := b.write frame
    let b := b.prime
    (b.recordWatermark, true)

def nextPacketSize (b : Buffer) : Nat × Buffer :=
  let servo := b.servo.observe b.geometry b.size
  (servo.packetSize b.geometry, { b with servo })

def commitPacketSize (b : Buffer) (packetSize : Nat) : Buffer :=
  if packetSize = b.geometry.packetSize - b.geometry.pcmFrameSize then
    { b with
      servo :=
        { b.servo with
          servoAccumulator := b.servo.servoAccumulator + servoPulseScale }
      shortPackets := b.shortPackets + 1 }
  else if packetSize = b.geometry.packetSize + b.geometry.pcmFrameSize then
    { b with
      servo :=
        { b.servo with
          servoAccumulator := b.servo.servoAccumulator - servoPulseScale }
      longPackets := b.longPackets + 1 }
  else b

/-- The size `ReadPacket` can serve when the servo asked for `actualSize`. -/
def servable (b : Buffer) (actualSize : Nat) : Option Nat :=
  let shortSize := b.geometry.packetSize - b.geometry.pcmFrameSize
  if b.size < actualSize then
    if b.size ≥ b.geometry.packetSize then some b.geometry.packetSize
    else if b.size ≥ shortSize then some shortSize
    else none
  else some actualSize

/-- The underrun branch of `ReadPacket`, with its defensive trim. -/
def underrun (b : Buffer) : Buffer :=
  let size := b.size - b.size % b.geometry.pcmFrameSize
  let b :=
    { b with
      primed := false
      needsReprime := true
      underruns := b.underruns + 1
      ring :=
        { b.ring with
          count := size
          head := if size = 0 then 0 else b.ring.head } }
  b.resetServo.recordWatermark

/-- The success branch of `ReadPacket`. -/
def deliver (b : Buffer) (actualSize : Nat) (now : Time) : Bytes × Buffer :=
  let b := b.commitPacketSize actualSize
  let (out, b) := b.read actualSize
  let b := b.recordReadTime now
  let b := { b with packetsRead := b.packetsRead + 1 }
  (out, b.recordWatermark)

/-- `ReadPacket`: the destination afterwards, the length and the verdict. -/
def readPacket (b : Buffer) (dst : Bytes) (now : Time) : Buffer × Bytes × Nat × Bool :=
  if dst.length < b.geometry.packetSize + b.geometry.pcmFrameSize then
    (b, dst, 0, false)
  else if !b.primed then (b, dst, 0, false)
  else
    let (wanted, b) := b.nextPacketSize
    match b.servable wanted with
    | none => (b.underrun, dst, 0, false)
    | some actualSize =>
      let (out, b) := b.deliver actualSize now
      (b, out ++ dst.drop actualSize, actualSize, true)

def recordZeroPacket (b : Buffer) : Buffer :=
  { b with zeroPackets := b.zeroPackets + 1 }

def reset (b : Buffer) : Buffer :=
  let b :=
    { b with
      ring := { b.ring with head := 0, count := 0 }
      primed := false
      needsReprime := false }
  let b := b.resetServo
  let b :=
    { b with
      queueGaps := { b.queueGaps with last := 0 }
      readGaps := { b.readGaps with last := 0 } }
  b.recordWatermark

end Buffer

/-- The calls a controller makes; `now` is what `time.Now` returns. -/
inductive Op where
  | queueFrame (frame : Bytes) (now : Time)
  | readPacket (dst : Bytes) (now : Time)
  | recordZeroPacket
  | reset

/-- The answers; a read returns its destination, the length and the verdict. -/
inductive Answer where
  | queued (accepted : Bool)
  | packet (dst : Bytes) (length : Nat) (ok : Bool)
  | done

/-- One call. -/
def step (b : Buffer) : Op → Buffer × Answer
  | .queueFrame frame now =>
    let (b, accepted) := b.queueFrame frame now
    (b, .queued accepted)
  | .readPacket dst now =>
    let (b, dst, length, ok) := b.readPacket dst now
    (b, .packet dst length ok)
  | .recordZeroPacket => (b.recordZeroPacket, .done)
  | .reset => (b.reset, .done)

end Viiper.Ports.Microphone
