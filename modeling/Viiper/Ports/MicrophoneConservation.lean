import Mathlib.Algebra.Order.Ring.Int
import Mathlib.Tactic.Ring
import Viiper.Ports.MicrophoneBuffer

/-!
# The microphone buffer conserves PCM

The buffer is a queue of bytes with four things that can happen to it: a client frame
arrives and may push the oldest bytes out, a packet of one of three sizes is delivered,
everything is cleared, or nothing changes.  `Move` says so, with the counters.

The account of a run follows from the moves alone: the bytes which left the queue, in the
order in which they left, followed by the bytes still queued, are the accepted frames in
order.  So each accepted byte was delivered, pushed out or cleared at most once, and always
from the front.
-/

namespace Viiper.Ports.Microphone

open Verified Go Run List RingBuffer Buffer

/-- The three packet sizes USB Audio accepts. -/
inductive PacketKind where
  | short
  | nominal
  | long
deriving DecidableEq

variable {g : Geometry} {kind : PacketKind} (evs : List (Event Buffer Op Answer))

namespace Geometry

def packetBytes (g : Geometry) : PacketKind → Nat
  | .short => g.packetSize - g.pcmFrameSize
  | .nominal => g.packetSize
  | .long => g.packetSize + g.pcmFrameSize

/-- What a geometry built without wrapping satisfies. -/
structure Admitted (g : Geometry) : Prop where
  pcm_pos : 0 < g.pcmFrameSize
  packet_pos : 0 < g.packetSize
  pcm_dvd_packet : g.pcmFrameSize ∣ g.packetSize
  pcm_dvd_frame : g.pcmFrameSize ∣ g.frameSize
  pcm_dvd_capacity : g.pcmFrameSize ∣ g.capacity
  capacity_pos : 0 < g.capacity
  frame_le_capacity : g.frameSize ≤ g.capacity

theorem Admitted.pcm_le_packet (h : g.Admitted) : g.pcmFrameSize ≤ g.packetSize :=
  Nat.le_of_dvd h.packet_pos h.pcm_dvd_packet

theorem Admitted.pcm_dvd_packetBytes (h : g.Admitted)
    (kind : PacketKind) : g.pcmFrameSize ∣ g.packetBytes kind := by
  cases kind with
  | short => exact Nat.dvd_sub h.pcm_dvd_packet (dvd_refl _)
  | nominal => exact h.pcm_dvd_packet
  | long => exact Nat.dvd_add h.pcm_dvd_packet (dvd_refl _)

/-- The three sizes differ. -/
theorem Admitted.packetBytes_inj (h : g.Admitted) {kind' : PacketKind}
    (heq : g.packetBytes kind = g.packetBytes kind') : kind = kind' := by
  have hpos := h.pcm_pos
  have hle := h.pcm_le_packet
  cases kind <;> cases kind' <;> simp only [packetBytes] at heq <;>
    first | rfl | omega

end Geometry

/-! ## What `New` admits -/

private theorem toNat_dvd {a b : Int} (ha : 0 < a) (hb : 0 < b)
    (h : b.tmod a = 0) : a.toNat ∣ b.toNat := by
  have hdvd : a ∣ b := Int.dvd_of_tmod_eq_zero h
  have hcast : ((a.toNat : Int)) ∣ (b.toNat : Int) := by
    rwa [Int.toNat_of_nonneg ha.le, Int.toNat_of_nonneg hb.le]
  exact Int.natCast_dvd_natCast.1 hcast

/-- The checks of `New`, and a capacity which does not wrap, make the geometry
admitted. -/
theorem newGeometry_admitted {packetSize pcmFrameSize frameSize targetFrames maximumFrames : Int64}
    (hnew : newGeometry packetSize pcmFrameSize frameSize targetFrames maximumFrames = some g)
    (hfit : frameSize.toInt * maximumFrames.toInt < 2 ^ 63) : g.Admitted := by
  simp only [newGeometry, ite_eq_iff, reduceCtorEq, and_false, false_or] at hnew
  obtain ⟨hsizes, hframes, -, hnew⟩ := hnew
  cases hnew
  simp only [not_or, not_not, Int64.lt_iff_toInt_lt,
    Int64.le_iff_toInt_le, ← Int64.toInt_inj, Int64.toInt_mod,
    Int64.toInt_zero, Int.not_le, Int.not_lt] at hsizes hframes
  obtain ⟨hpacket, hpcm, hmod, hframe, hmod'⟩ := hsizes
  have hone : 1 ≤ maximumFrames.toInt := by omega
  have hcap : frameSize.toInt ≤ frameSize.toInt * maximumFrames.toInt :=
    le_mul_of_one_le_right hframe.le hone
  have hprod : (frameSize * maximumFrames).toInt = frameSize.toInt * maximumFrames.toInt := by
    rw [Int64.toInt_mul]
    exact Int.bmod_eq_of_le (by omega) (by omega)
  have hpf := (toNat_dvd hpcm hpacket hmod).trans (toNat_dvd hpacket hframe hmod')
  have hnat : (frameSize.toInt * maximumFrames.toInt).toNat =
      frameSize.toInt.toNat * maximumFrames.toInt.toNat :=
    Int.toNat_mul hframe.le (by omega)
  constructor
  · exact Int.pos_iff_toNat_pos.1 hpcm
  · exact Int.pos_iff_toNat_pos.1 hpacket
  · exact toNat_dvd hpcm hpacket hmod
  · exact hpf
  · simp only [hprod, hnat]
    exact Dvd.dvd.mul_right hpf _
  · simp only [hprod]
    omega
  · simp only [hprod]
    omega

/-! ## What the calls do to the ring and the counters -/

/-- The part of the state the account is about. -/
structure Core where
  geometry : Geometry
  ring : RingBuffer UInt8
  (droppedBytes packetsRead shortPackets longPackets : UInt64)

namespace Buffer

def core (b : Buffer) : Core :=
  ⟨b.geometry, b.ring, b.droppedBytes, b.packetsRead, b.shortPackets, b.longPackets⟩

@[simp] theorem core_recordWatermark (b : Buffer) : b.recordWatermark.core = b.core := by
  unfold recordWatermark
  split <;> rfl

@[simp] theorem core_prime (b : Buffer) : b.prime.core = b.core := by
  simp only [prime]
  split <;> split <;> rfl

/-- Discarding the overflow and counting it; without overflow this changes
nothing. -/
theorem core_makeRoom (b : Buffer) (length : Nat) : (b.makeRoom length).core =
      { b.core with
        ring := b.ring.discardBlock b.geometry.capacity (b.size + length - b.geometry.capacity)
        droppedBytes := b.droppedBytes +
          UInt64.ofNat (b.size + length - b.geometry.capacity) } := by
  simp only [makeRoom]
  split
  · rfl
  have hzero : b.size + length - b.geometry.capacity = 0 := by omega
  rw [hzero]
  simp [discardBlock, core]

theorem core_queueFrame (b : Buffer) {frame : Bytes} (now : Time)
    (hlen : frame.length = b.geometry.frameSize) :
    (b.queueFrame frame now).2 ∧ (b.queueFrame frame now).1.core =
        { b.core with
          ring := (b.ring.discardBlock b.geometry.capacity
            (b.size + frame.length - b.geometry.capacity)).writeBlock b.geometry.capacity frame
          droppedBytes := b.droppedBytes +
            UInt64.ofNat (b.size + frame.length - b.geometry.capacity) } := by
  have hroom := core_makeRoom (b.recordQueueTime now) frame.length
  have hwrite : ∀ c : Buffer, (c.write frame).core =
      { c.core with ring := c.core.ring.writeBlock c.core.geometry.capacity frame } :=
    fun _ => rfl
  simp only [queueFrame, hlen, ne_eq, not_true_eq_false, if_false, true_and]
  rw [← hlen, core_recordWatermark, core_prime, hwrite, hroom]
  rfl

/-- Whatever the servo computes, it asks for one of the three sizes, and the
queue and its counters are untouched. -/
theorem nextPacketSize_spec (b : Buffer) :
    ∃ kind b', b.nextPacketSize = (b.geometry.packetBytes kind, b') ∧ b'.core = b.core := by
  have hkind : ∃ kind, b.nextPacketSize.1 = b.geometry.packetBytes kind := by
    simp only [nextPacketSize, Servo.packetSize]
    split
    · exact ⟨.long, rfl⟩
    · split
      · exact ⟨.short, rfl⟩
      · exact ⟨.nominal, rfl⟩
  obtain ⟨kind, hkind⟩ := hkind
  refine ⟨kind, b.nextPacketSize.2, Prod.ext hkind rfl, ?_⟩
  simp only [nextPacketSize, core]

/-- What is served is one of the three sizes and is there. -/
theorem servable_some {b : Buffer} {n : Nat}
    (h : b.servable (b.geometry.packetBytes kind) = some n) :
    n ≤ b.size ∧ ∃ kind', n = b.geometry.packetBytes kind' := by
  simp only [servable] at h
  split at h
  · split at h
    · cases h
      exact ⟨by assumption, .nominal, rfl⟩
    · split at h
      · cases h
        exact ⟨by assumption, .short, rfl⟩
      · cases h
  · cases h
    exact ⟨by omega, kind, rfl⟩

theorem core_commitPacketSize (b : Buffer) (hg : b.geometry.Admitted) (kind : PacketKind) :
    (b.commitPacketSize (b.geometry.packetBytes kind)).core =
      { b.core with
        shortPackets := b.shortPackets + if kind = .short then 1 else 0
        longPackets := b.longPackets + if kind = .long then 1 else 0 } := by
  have hshort : b.geometry.packetBytes kind =
      b.geometry.packetSize - b.geometry.pcmFrameSize ↔ kind = .short :=
    ⟨fun h => hg.packetBytes_inj (h.trans rfl), fun h => h ▸ rfl⟩
  have hlong : b.geometry.packetBytes kind =
      b.geometry.packetSize + b.geometry.pcmFrameSize ↔ kind = .long :=
    ⟨fun h => hg.packetBytes_inj (h.trans rfl), fun h => h ▸ rfl⟩
  simp only [commitPacketSize, hshort, hlong]
  cases kind with
  | _ => simp [core]

theorem core_deliver (b : Buffer) (hg : b.geometry.Admitted) (kind : PacketKind) (now : Time) :
    (b.deliver (b.geometry.packetBytes kind) now).1 =
        b.ring.readBlock b.geometry.capacity (b.geometry.packetBytes kind) ∧
      (b.deliver (b.geometry.packetBytes kind) now).2.core =
        { b.core with
          ring := b.ring.discardBlock b.geometry.capacity (b.geometry.packetBytes kind)
          packetsRead := b.packetsRead + 1
          shortPackets := b.shortPackets + if kind = .short then 1 else 0
          longPackets := b.longPackets + if kind = .long then 1 else 0 } := by
  have hcommit := core_commitPacketSize b hg kind
  have hread : ∀ (c : Buffer) (n : Nat), (c.deliver n now).1 =
        (c.commitPacketSize n).core.ring.readBlock (c.commitPacketSize n).core.geometry.capacity n ∧
      (c.deliver n now).2.core =
        { (c.commitPacketSize n).core with
          ring := (c.commitPacketSize n).core.ring.discardBlock
            (c.commitPacketSize n).core.geometry.capacity n
          packetsRead := (c.commitPacketSize n).core.packetsRead + 1 } := by
    intro c n
    simp only [deliver, core_recordWatermark]
    exact ⟨rfl, rfl⟩
  rw [(hread b _).1, (hread b _).2, hcommit]
  exact ⟨rfl, rfl⟩

/-- Aligned queues lose nothing to the defensive trim; an empty one restarts
at cell zero. -/
theorem core_underrun (b : Buffer) (halign : b.geometry.pcmFrameSize ∣ b.size) : b.underrun.core =
      { b.core with
        ring :=
          { b.ring with head := if b.size = 0 then 0 else b.ring.head } } := by
  have hmod : b.size % b.geometry.pcmFrameSize = 0 := Nat.mod_eq_zero_of_dvd halign
  simp only [underrun, core_recordWatermark, hmod, Nat.sub_zero]
  rfl

end Buffer

/-! ## The queue behind the buffer -/

/-- What the account reads: the queued bytes and the counters. -/
structure View where
  queue : Bytes
  (dropped reads shorts longs : UInt64)

/-- What one call did to the queue: a frame arrived and pushed `lost` out, a
packet was delivered, the queue was cleared, or nothing happened. -/
inductive Label where
  | accepted (lost frame : Bytes)
  | delivered (out : Bytes)
  | cleared (rest : Bytes)
  | idle

/-- The queue as an abstract machine. -/
inductive Move (g : Geometry) : View → Label → View → Prop
  | accept {v : View} (lost kept frame : Bytes) :
      v.queue = lost ++ kept → frame.length = g.frameSize → Move g v (.accepted lost frame)
          { v with
            queue := kept ++ frame
            dropped := v.dropped + UInt64.ofNat lost.length }
  | deliver {v : View} (kind : PacketKind) (out rest : Bytes) :
      v.queue = out ++ rest → out.length = g.packetBytes kind → Move g v (.delivered out)
          { v with
            queue := rest
            reads := v.reads + 1
            shorts := v.shorts + if kind = .short then 1 else 0
            longs := v.longs + if kind = .long then 1 else 0 }
  | clear {v : View} : Move g v (.cleared v.queue) { v with queue := [] }
  | idle {v : View} : Move g v .idle v

def Core.view (c : Core) : View :=
  ⟨c.ring.window c.geometry.capacity, c.droppedBytes, c.packetsRead, c.shortPackets, c.longPackets⟩

def Buffer.view (b : Buffer) : View := b.core.view

/-- What a call did, read off the call, its answer and the queue before it. -/
def label (e : Event Buffer Op Answer) : Label :=
  match e.op, e.out with
  | .queueFrame frame _, .queued true =>
    .accepted (e.pre.queued.take (e.pre.size + frame.length - e.pre.geometry.capacity)) frame
  | .readPacket _ _, .packet dst length true => .delivered (dst.take length)
  | .reset, _ => .cleared e.pre.queued
  | _, _ => .idle

/-- The ring is well formed and holds whole sample-frames. -/
structure Core.Sound (c : Core) : Prop where
  admitted : c.geometry.Admitted
  wf : c.ring.WF c.geometry.capacity
  aligned : c.geometry.pcmFrameSize ∣ c.ring.count

theorem fresh_sound (hg : g.Admitted) : (fresh g).core.Sound where
  admitted := hg
  wf := ⟨hg.capacity_pos, Nat.zero_le _⟩
  aligned := dvd_zero _

/-- What a call must establish: the buffer it leaves is sound, of the same
geometry, and the queue made the labelled move. -/
structure Refines (c : Core) (l : Label) (c' : Core) : Prop where
  sound : c'.Sound
  geometry : c'.geometry = c.geometry
  move : Move c.geometry c.view l c'.view

theorem Refines.stay {c : Core} (h : c.Sound) : Refines c .idle c :=
  ⟨h, rfl, .idle⟩

namespace Buffer

variable {b : Buffer}

/-- An accepted frame pushes out exactly what does not fit. -/
theorem refines_queueFrame (h : b.core.Sound) {frame : Bytes} (now : Time)
    (hlen : frame.length = b.geometry.frameSize) :
    Refines b.core (.accepted (b.queued.take (b.size + frame.length - b.geometry.capacity)) frame)
      (b.queueFrame frame now).1.core := by
  have hcap : 0 < b.geometry.capacity := h.admitted.capacity_pos
  have hframe : b.geometry.frameSize ≤ b.geometry.capacity :=
    h.admitted.frame_le_capacity
  rw [(core_queueFrame b now hlen).2]
  generalize hover : b.size + frame.length - b.geometry.capacity = overflow
  have hoverle : overflow ≤ b.size := by omega
  have hfit : (b.ring.discardBlock b.geometry.capacity overflow).count +
      frame.length ≤ b.geometry.capacity := by
    rw [count_discardBlock]
    change b.size - overflow + frame.length ≤ _
    omega
  have hlost : (b.queued.take overflow).length = overflow := by
    simp only [queued, length_take, length_window]
    exact Nat.min_eq_left hoverle
  refine ⟨⟨h.admitted, ?_, ?_⟩, rfl, ?_⟩
  · exact (RingBuffer.WF.discardBlock h.wf overflow).writeBlock hfit
  · -- everything in sight is a whole number of sample-frames
    have hdvdOver : b.geometry.pcmFrameSize ∣ overflow := by
      rw [← hover, hlen]
      exact Nat.dvd_sub (Nat.dvd_add h.aligned h.admitted.pcm_dvd_frame) h.admitted.pcm_dvd_capacity
    have hcount : ((b.ring.discardBlock b.geometry.capacity overflow).writeBlock
        b.geometry.capacity frame).count = b.ring.count - overflow + frame.length := by
      rw [writeBlock_count, count_discardBlock]
    rw [hcount, hlen]
    exact Nat.dvd_add (Nat.dvd_sub h.aligned hdvdOver) h.admitted.pcm_dvd_frame
  · have hmove := Move.accept (g := b.geometry) (v := b.core.view)
      (b.queued.take overflow) (b.queued.drop overflow) frame
      (take_append_drop _ _).symm hlen
    rw [hlost] at hmove
    have hqueue : ((b.ring.discardBlock b.geometry.capacity overflow).writeBlock
        b.geometry.capacity frame).window b.geometry.capacity =
          b.queued.drop overflow ++ frame := by
      rw [window_writeBlock _ hcap hfit, window_discardBlock]
      rfl
    rw [← hqueue] at hmove
    exact hmove

/-- A delivered packet is the oldest bytes of the queue. -/
theorem refines_deliver (h : b.core.Sound) (hle : b.geometry.packetBytes kind ≤ b.size)
    (now : Time) :
    Refines b.core (.delivered (b.queued.take (b.geometry.packetBytes kind)))
      (b.deliver (b.geometry.packetBytes kind) now).2.core := by
  rw [(core_deliver b h.admitted kind now).2]
  refine ⟨⟨h.admitted, h.wf.discardBlock _, ?_⟩, rfl, ?_⟩
  · change b.geometry.pcmFrameSize ∣ (b.ring.discardBlock _ _).count
    rw [count_discardBlock]
    exact Nat.dvd_sub h.aligned (h.admitted.pcm_dvd_packetBytes kind)
  · have hmove := Move.deliver (g := b.geometry) (v := b.core.view) kind
      (b.queued.take (b.geometry.packetBytes kind))
      (b.queued.drop (b.geometry.packetBytes kind))
      (take_append_drop _ _).symm
      (by
        simp only [queued, length_take, length_window]
        exact Nat.min_eq_left hle)
    have hqueue : (b.ring.discardBlock b.geometry.capacity
        (b.geometry.packetBytes kind)).window b.geometry.capacity =
          b.queued.drop (b.geometry.packetBytes kind) := by
      rw [window_discardBlock]
      rfl
    rw [← hqueue] at hmove
    exact hmove

/-- An underrun leaves the queue as it is. -/
theorem refines_underrun (h : b.core.Sound) : Refines b.core .idle b.underrun.core := by
  have hcap : 0 < b.geometry.capacity := h.admitted.capacity_pos
  rw [core_underrun b h.aligned]
  have hqueue : ({ b.ring with
        head := if b.size = 0 then 0 else b.ring.head } :
        RingBuffer UInt8).window b.geometry.capacity =
      b.ring.window b.geometry.capacity := by
    by_cases hzero : b.size = 0
    · rw [window_eq_nil _ (r := b.ring) hzero]
      exact window_eq_nil _ hzero
    · rw [if_neg hzero]
  refine ⟨⟨h.admitted, ⟨?_, h.wf.count_le⟩, h.aligned⟩, rfl, ?_⟩
  · change (if b.size = 0 then 0 else b.ring.head) < b.geometry.capacity
    split
    · exact hcap
    · exact h.wf.head_lt
  · convert Move.idle using 1
    exact congrArg (fun q => ({ b.core.view with queue := q } : View)) hqueue

theorem refines_reset (h : b.core.Sound) : Refines b.core (.cleared b.queued) b.reset.core := by
  exact ⟨⟨h.admitted, ⟨h.admitted.capacity_pos, Nat.zero_le _⟩, dvd_zero _⟩,
    rfl, Move.clear⟩

/-- The outcomes of `ReadPacket`: refused, an underrun, or a packet. -/
theorem readPacket_cases (b : Buffer) (dst : Bytes) (now : Time) :
    b.readPacket dst now = (b, dst, 0, false) ∨ ∃ b' : Buffer, b'.core = b.core ∧
        (b.readPacket dst now = (b'.underrun, dst, 0, false) ∨
          ∃ kind, b'.geometry.packetBytes kind ≤ b'.size ∧ b.readPacket dst now =
              ((b'.deliver (b'.geometry.packetBytes kind) now).2,
                (b'.deliver (b'.geometry.packetBytes kind) now).1 ++
                  dst.drop (b'.geometry.packetBytes kind),
                b'.geometry.packetBytes kind, true)) := by
  obtain ⟨wanted, b', hnext, hcore⟩ := nextPacketSize_spec b
  have hgeo : b'.geometry = b.geometry := congrArg Core.geometry hcore
  simp only [readPacket, hnext]
  split
  · exact .inl rfl
  split
  · exact .inl rfl
  refine .inr ⟨b', hcore, ?_⟩
  rw [← hgeo]
  cases hserve : b'.servable (b'.geometry.packetBytes wanted) with
  | none => exact .inl rfl
  | some n =>
    obtain ⟨hle, kind, rfl⟩ := servable_some hserve
    exact .inr ⟨kind, hle, rfl⟩

end Buffer

/-- **Every call is one move of the queue.** -/
theorem step_refines {b : Buffer} (h : b.core.Sound) (op : Op) :
    Refines b.core (label (event step b op)) (step b op).1.core := by
  cases op with
  | queueFrame frame now =>
    by_cases hlen : frame.length = b.geometry.frameSize
    · have hok := (core_queueFrame b now hlen).1
      simp only [label, event, step, hok]
      exact refines_queueFrame h now hlen
    · have hreject : b.queueFrame frame now = (b, false) := by
        simp [queueFrame, hlen]
      simp only [label, event, step, hreject]
      exact .stay h
  | readPacket dst now =>
    rcases readPacket_cases b dst now with hr | ⟨b', hcore, hr | ⟨kind, hle, hr⟩⟩
    · simp only [label, event, step, hr]
      exact .stay h
    · simp only [label, event, step, hr]
      rw [← hcore] at h ⊢
      exact refines_underrun h
    · rw [← hcore] at h ⊢
      have hout : (b'.deliver (b'.geometry.packetBytes kind) now).1 =
          b'.queued.take (b'.geometry.packetBytes kind) := by
        rw [(core_deliver b' h.admitted kind now).1]
        exact readBlock_eq_take _ h.wf hle
      have hlen : (b'.queued.take (b'.geometry.packetBytes kind)).length =
          b'.geometry.packetBytes kind := by
        rw [← hout, (core_deliver b' h.admitted kind now).1, length_readBlock]
      simp only [label, event, step, hr, hout]
      rw [take_left' hlen]
      exact refines_deliver h hle now
  | recordZeroPacket =>
    exact .stay h
  | reset => exact refines_reset h

/-! ## The account of a run -/

/-- How bytes leave the queue. -/
inductive Fate where
  | delivered
  | overflowed
  | cleared
deriving DecidableEq

/-- Bytes a call accepted. -/
def Label.arrived : Label → Bytes
  | .accepted _ frame => frame
  | _ => []

/-- Bytes which left the queue in a call, with their fate. -/
def Label.departed : Label → List (Fate × Bytes)
  | .accepted lost _ => [(.overflowed, lost)]
  | .delivered out => [(.delivered, out)]
  | .cleared rest => [(.cleared, rest)]
  | .idle => []

/-- The blocks which left with the given fate. -/
def blocksOf (fate : Fate) (blocks : List (Fate × Bytes)) : List Bytes :=
  (blocks.filter (fun x => x.1 = fate)).map Prod.snd

/-- Bytes of a list of blocks, in order. -/
def bytesOf (blocks : List (Fate × Bytes)) : Bytes := (blocks.map Prod.snd).flatten

/-- The frames accepted along a run, concatenated. -/
def accepted (evs : List (Event Buffer Op Answer)) : Bytes :=
  evs.flatMap fun e => (label e).arrived

/-- Everything that left the queue along a run, in the order it left. -/
def departures (evs : List (Event Buffer Op Answer)) : List (Fate × Bytes) :=
  evs.flatMap fun e => (label e).departed

/-- The delivered packets of a run. -/
def packets (evs : List (Event Buffer Op Answer)) : List Bytes :=
  blocksOf .delivered (departures evs)

/-- How many of the packets have the size of the given kind. -/
def countKind (g : Geometry) (kind : PacketKind) (ps : List Bytes) : Nat :=
  ps.countP fun p => p.length = g.packetBytes kind

/-- The packet counters are the counts, modulo their 64 bits, and every packet
has one of the three sizes. -/
structure Tally (g : Geometry) (ps : List Bytes) (reads shorts longs : UInt64) : Prop where
  reads : reads = UInt64.ofNat ps.length
  shorts : shorts = UInt64.ofNat (countKind g .short ps)
  longs : longs = UInt64.ofNat (countKind g .long ps)
  sizes : ∀ p ∈ ps, ∃ kind, p.length = g.packetBytes kind

/-- The account: bytes in equal bytes out plus bytes held, and the counters
say how many bytes and packets that were. -/
structure Account (g : Geometry) (evs : List (Event Buffer Op Answer)) (v : View) : Prop where
  balance : accepted evs = bytesOf (departures evs) ++ v.queue
  dropped : v.dropped = UInt64.ofNat (blocksOf .overflowed (departures evs)).flatten.length
  tally : Tally g (packets evs) v.reads v.shorts v.longs

theorem Account.empty (g : Geometry) : Account g [] ⟨[], 0, 0, 0, 0⟩ :=
  ⟨rfl, rfl, rfl, rfl, rfl, by simp [packets, blocksOf, departures]⟩

theorem departures_snoc (e : Event Buffer Op Answer) :
    departures (evs ++ [e]) = departures evs ++ (label e).departed := by
  simp [departures]

attribute [local simp] Label.arrived Label.departed bytesOf blocksOf

theorem bytesOf_append (xs ys : List (Fate × Bytes)) :
    bytesOf (xs ++ ys) = bytesOf xs ++ bytesOf ys := by
  simp

theorem blocksOf_append (fate : Fate) (xs ys : List (Fate × Bytes)) :
    blocksOf fate (xs ++ ys) = blocksOf fate xs ++ blocksOf fate ys := by
  simp

theorem packets_snoc (e : Event Buffer Op Answer) :
    packets (evs ++ [e]) = packets evs ++ blocksOf .delivered (label e).departed := by
  rw [packets, departures_snoc, blocksOf_append]
  rfl

theorem countKind_append (g : Geometry) (kind : PacketKind) (ps qs : List Bytes) :
    countKind g kind (ps ++ qs) = countKind g kind ps + countKind g kind qs :=
  countP_append

theorem countKind_singleton (hg : g.Admitted) {out : Bytes} (hlen : out.length = g.packetBytes kind)
    (kind' : PacketKind) : countKind g kind' [out] = if kind = kind' then 1 else 0 := by
  by_cases hk : kind = kind'
  · subst hk
    simp [countKind, hlen]
  · have hne : g.packetBytes kind ≠ g.packetBytes kind' :=
      fun h => hk (hg.packetBytes_inj h)
    simp [countKind, hlen, hk, hne]

/-- One more packet. -/
theorem Tally.deliver (hg : g.Admitted) {ps : List Bytes} {reads shorts longs : UInt64}
    (h : Tally g ps reads shorts longs) {out : Bytes} (hlen : out.length = g.packetBytes kind) :
    Tally g (ps ++ [out]) (reads + 1) (shorts + if kind = .short then 1 else 0)
      (longs + if kind = .long then 1 else 0) where
  reads := by
    rw [length_append, UInt64.ofNat_add, ← h.reads]
    rfl
  shorts := by
    rw [countKind_append, UInt64.ofNat_add, ← h.shorts, countKind_singleton hg hlen]
    by_cases hk : kind = .short <;> simp [hk]
  longs := by
    rw [countKind_append, UInt64.ofNat_add, ← h.longs, countKind_singleton hg hlen]
    by_cases hk : kind = .long <;> simp [hk]
  sizes := by
    intro p hp
    rw [mem_append, mem_singleton] at hp
    rcases hp with hp | rfl
    · exact h.sizes p hp
    · exact ⟨kind, hlen⟩

theorem Tally.total (hg : g.Admitted) {ps : List Bytes}
    (hsizes : ∀ p ∈ ps, ∃ kind, p.length = g.packetBytes kind) :
    (ps.flatten.length : Int) = g.packetSize * ps.length +
      g.pcmFrameSize * (countKind g .long ps - countKind g .short ps) := by
  induction ps with
  | nil => simp [countKind]
  | cons p ps ih =>
    have ih := ih fun q hq => hsizes q (mem_cons_of_mem _ hq)
    obtain ⟨kind, hlen⟩ := hsizes p mem_cons_self
    have hsplit : ∀ kind', countKind g kind' (p :: ps) =
        (if kind = kind' then 1 else 0) + countKind g kind' ps := by
      intro kind'
      rw [← countKind_singleton hg hlen kind', ← countKind_append]
      rfl
    have hle := hg.pcm_le_packet
    rw [flatten_cons, length_append, hsplit, hsplit, length_cons, hlen]
    push_cast
    rw [ih]
    cases kind with
    | short =>
      simp only [Geometry.packetBytes, reduceCtorEq, if_false, if_true]
      push_cast [hle]
      ring
    | nominal =>
      simp only [Geometry.packetBytes, reduceCtorEq, if_false]
      ring
    | long =>
      simp only [Geometry.packetBytes, reduceCtorEq, if_false, if_true]
      push_cast
      ring

theorem Account.move (hg : g.Admitted) {evs : List (Event Buffer Op Answer)} {v v' : View}
    {e : Event Buffer Op Answer} (h : Account g evs v) (hm : Move g v (label e) v') :
    Account g (evs ++ [e]) v' := by
  generalize hl : label e = l at hm
  have hpackets : packets (evs ++ [e]) =
      packets evs ++ blocksOf .delivered l.departed := hl ▸ packets_snoc evs e
  have hin : accepted (evs ++ [e]) = accepted evs ++ l.arrived :=
    by simp [accepted, hl]
  have hout : departures (evs ++ [e]) = departures evs ++ l.departed :=
    hl ▸ departures_snoc evs e
  cases hm with
  | accept lost kept frame hqueue hlen =>
    constructor
    · rw [hin, hout, bytesOf_append, h.balance, hqueue]
      simp
    · rw [hout, blocksOf_append, flatten_append, length_append, UInt64.ofNat_add, ← h.dropped]
      simp
    · rw [hpackets]
      exact (append_nil (packets evs)).symm ▸ h.tally
  | deliver kind out rest hqueue hlen =>
    constructor
    · rw [hin, hout, bytesOf_append, h.balance, hqueue]
      simp
    · rw [hout, blocksOf_append]
      simpa using h.dropped
    · rw [hpackets]
      exact h.tally.deliver hg hlen
  | _ =>
    constructor
    · rw [hin, hout, bytesOf_append, h.balance]
      simp
    · rw [hout, blocksOf_append]
      simpa using h.dropped
    · rw [hpackets]
      exact (append_nil (packets evs)).symm ▸ h.tally

theorem account_run (hg : g.Admitted) (ops : List Op) :
    (final step (fresh g) ops).core.Sound ∧ (final step (fresh g) ops).geometry = g ∧
      Account g (trace step (fresh g) ops) (final step (fresh g) ops).view := by
  refine @history_run _ _ _ step (fun evs b => b.core.Sound ∧ b.geometry = g ∧ Account g evs b.view)
    (fresh g) ⟨fresh_sound hg, rfl, ?_⟩ ?_ ops
  · exact Account.empty g
  · rintro evs b op ⟨hs, rfl, hacc⟩
    have href := step_refines hs op
    exact ⟨href.sound, href.geometry, hacc.move hg href.move⟩

/-- **The buffer conserves PCM.**  For parameters `New` admits and whose
capacity does not wrap, and for every run: what left the queue in the order it
left, followed by what is queued, is what was accepted; overflow is counted
byte for byte; the ring stays in bounds and holds whole sample-frames; and the
packet counters account for every delivered byte. -/
theorem pcm_conserved {packetSize pcmFrameSize frameSize targetFrames maximumFrames : Int64}
    {b : Buffer} (hnew : new packetSize pcmFrameSize frameSize targetFrames maximumFrames = some b)
    (hfit : frameSize.toInt * maximumFrames.toInt < 2 ^ 63) (ops : List Op) :
    let evs := trace step b ops
    let s := final step b ops
    accepted evs = bytesOf (departures evs) ++ s.queued ∧ s.droppedBytes =
        UInt64.ofNat (blocksOf .overflowed (departures evs)).flatten.length ∧
      (s.size % s.geometry.pcmFrameSize = 0 ∧ s.size ≤ s.geometry.capacity ∧
        s.head < s.geometry.capacity ∧ s.geometry = b.geometry) ∧
      let shorts := countKind b.geometry .short (packets evs)
      let longs := countKind b.geometry .long (packets evs)
      s.packetsRead = UInt64.ofNat (packets evs).length ∧
        s.shortPackets = UInt64.ofNat shorts ∧ s.longPackets = UInt64.ofNat longs ∧
        ((packets evs).flatten.length : Int) = s.geometry.packetSize * (packets evs).length +
          s.geometry.pcmFrameSize * (longs - shorts) := by
  intro evs s
  obtain ⟨g, hgeo, rfl⟩ := Option.map_eq_some_iff.1 hnew
  have hg := newGeometry_admitted hgeo hfit
  obtain ⟨hs, hsame, hacc⟩ := account_run hg ops
  refine ⟨?_, hacc.dropped, ⟨Nat.mod_eq_zero_of_dvd hs.aligned, hs.wf.count_le,
    hs.wf.head_lt, hsame⟩, hacc.tally.reads, hacc.tally.shorts, hacc.tally.longs, ?_⟩
  · exact hacc.balance
  · rw [show s.geometry = g from hsame]
    exact Tally.total hg hacc.tally.sizes

/-- Three frames into a buffer of two, with a packet read in between. -/
def overflowRun : List Op :=
  [.queueFrame [1, 2, 3, 4, 5, 6, 7, 8] 5, .readPacket [0, 0, 0, 0, 0, 0] 6,
    .queueFrame [11, 12, 13, 14, 15, 16, 17, 18] 7,
    .queueFrame [21, 22, 23, 24, 25, 26, 27, 28] 8]

theorem overflowRun_conserved :
    ∃ b, new 4 2 8 1 2 = some b ∧ (final step b overflowRun).droppedBytes = 4 ∧
      accepted (trace step b overflowRun) = bytesOf (departures (trace step b overflowRun)) ++
          (final step b overflowRun).queued := by
  obtain ⟨b, hb⟩ : ∃ b, new 4 2 8 1 2 = some b := ⟨_, rfl⟩
  refine ⟨b, hb, ?_, (pcm_conserved hb (by decide) overflowRun).1⟩
  cases hb
  decide +kernel

/-- The capacity is a 64-bit product: `New` admits a client frame of `2 ^ 32`
bytes and a maximum of `2 ^ 32` frames, and builds a buffer without cells. -/
theorem wrapped_capacity_has_no_cell : ∃ b, new 4294967296 1 4294967296 1 4294967296 = some b ∧
      ¬(b.head < b.geometry.capacity) :=
  ⟨_, rfl, by decide⟩

end Viiper.Ports.Microphone
