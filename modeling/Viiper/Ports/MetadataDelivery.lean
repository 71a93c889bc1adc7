import Viiper.Ports.MetadataLine
import Viiper.Verified.BlockRing

/-!
# The metadata transfer delivers its block and never wedges

The host sees packets only.  `wire` reads them off a run: a packet is what the
last admission copied out when a delivered resolution is recorded, together
with the offset at which it was selected.  The host's memory is obtained from
the packets alone, by storing each payload where the packet's header says.
-/

namespace Viiper.Ports.Metadata

open Verified Go Run List RingBuffer

/-! ## The host's reading of a packet -/

/-- Whether the packet is one of several. -/
def isFragment (bytes : Bytes) : Bool := bytes.getD 1 0 &&& flagFragment != 0

/-- Whether the packet announces the total length instead of an offset. -/
def isInitial (bytes : Bytes) : Bool := bytes.getD 1 0 &&& flagInitFragment != 0

/-- The two-byte field which holds the total length or the offset. -/
def totalLengthOrOffset (bytes : Bytes) : Nat :=
  (bytes.getD 4 0 &&& 0x7f).toNat + 128 * (bytes.getD 5 0).toNat

/-- Where the payload belongs. -/
def payloadStart (bytes : Bytes) : Nat :=
  if isFragment bytes && !isInitial bytes then totalLengthOrOffset bytes else 0

/-- The bytes behind the header. -/
def payload (bytes : Bytes) : Bytes :=
  bytes.drop (if isFragment bytes then metadataFragmentHeaderSize
    else singlePacketHeaderSize)

/-- The host stores a payload where the header says. -/
def receive (memory : Nat → Option UInt8) (bytes : Bytes) : Nat → Option UInt8 :=
  RingBuffer.copyInto memory (payloadStart bytes) ((payload bytes).map some)

/-- What the packet says, selected at offset `start`, as a fragment. -/
structure Carries (b : Block) (start : Nat) (bytes : Bytes) : Prop where
  start_lt : start < b.total
  fragment : isFragment bytes
  initial : isInitial bytes = decide (start = 0)
  header : totalLengthOrOffset bytes = if start = 0 then b.total else start
  payload_eq : payload bytes =
    (b.data.drop start).take (min (b.total - start) metadataFragmentPayloadCapacity)

/-- The packets of a transfer: the whole block, a fragment, or Complete. -/
inductive Sent (b : Block) (start : Nat) (bytes : Bytes) : Prop
  | single : b.total ≤ 60 → start = 0 → isFragment bytes = false →
      payload bytes = b.data → Sent b start bytes
  | fragment : 60 < b.total → Carries b start bytes → Sent b start bytes
  | complete : 60 < b.total → start = b.total →
      bytes = encodeMetadataCompleteHeader b.sequence b.total → Sent b start bytes

private theorem low_bits : ∀ m < 128, ((0x80 ||| UInt8.ofNat m) &&& 0x7f : UInt8).toNat = m := by
  decide

/-- The length field survives its encoding. -/
theorem totalLengthOrOffset_encode (a₀ a₁ a₂ a₃ : UInt8) {x : Nat}
    (hx : x ≤ metadataMaximumBoundLength) (rest : Bytes) :
    totalLengthOrOffset ([a₀, a₁, a₂, a₃, 0x80 ||| UInt8.ofNat (x % 128),
      UInt8.ofNat (x / 128)] ++ rest) = x := by
  have hlow := low_bits (x % 128) (Nat.mod_lt _ (by decide))
  have hx : x ≤ 16383 := hx
  have hhigh : (UInt8.ofNat (x / 128)).toNat = x / 128 := by
    exact Nat.mod_eq_of_lt (by omega)
  have hval : totalLengthOrOffset ([a₀, a₁, a₂, a₃, 0x80 ||| UInt8.ofNat (x % 128),
      UInt8.ofNat (x / 128)] ++ rest) = ((0x80 ||| UInt8.ofNat (x % 128)) &&& 0x7f : UInt8).toNat +
          128 * (UInt8.ofNat (x / 128)).toNat := rfl
  rw [hval, hlow, hhigh]
  exact Nat.mod_add_div x 128

private theorem fragment_flags : ∀ initial ack : Bool,
    ((flagFragment ||| flagSystem ||| (if initial then flagInitFragment else 0) |||
        (if ack then flagAcknowledge else 0)) &&& flagFragment != 0) ∧
      ((flagFragment ||| flagSystem ||| (if initial then flagInitFragment else 0) |||
        (if ack then flagAcknowledge else 0)) &&& flagInitFragment != 0) = initial := by
  decide

/-- The packet selected at offset `start` says so. -/
theorem carries_selectFragment (b : Block) (p : PostState) (nowMS : UInt64) (ack : Bool)
    (hlt : p.offset < b.total) :
    Carries b p.offset (selectFragment b.sequence b.data p nowMS ack).wire := by
  have hkind : (fragmentKind b.data.length p.offset = .initialFragment) = (p.offset = 0) := by
    unfold fragmentKind
    split
    · simp_all
    · split <;> simp_all
  have hbound : b.data.length ≤ metadataMaximumBoundLength := b.length_le
  have hlt' : p.offset < b.data.length := hlt
  obtain ⟨hfrag, hinit⟩ := fragment_flags (p.offset = 0) ack
  simp only [selectFragment, hkind]
  refine ⟨hlt, hfrag, hinit, totalLengthOrOffset_encode _ _ _ _ (by split <;> omega) _, ?_⟩
  have hlen := fragmentPayloadLength_eq_min b.total p.offset
  rw [payload, if_pos (by exact hfrag)]
  change (b.data.drop p.offset).take (fragmentPayloadLength b.total p.offset) = _
  rw [hlen]
  rfl

/-- A packet in hand, and later delivered, is one the host can read. -/
theorem Packet.sent {b : Block} {p : PostState} {r : PacketRecord} (h : Packet b p r)
    (hfresh : b.total ≤ 60 → p.offset = 0) : Sent b p.offset r.wire := by
  cases h with
  | single nowMS hshort =>
    have hflag : isFragment b.singleWire = false := by
      change (flagSystem &&& flagFragment != 0) = false
      decide
    refine .single hshort (hfresh hshort) hflag ?_
    rw [payload, hflag]
    rfl
  | complete nowMS hlong hend hfinal => exact .complete hlong hend rfl
  | fragment nowMS ack hlong hlt himp =>
    exact .fragment hlong (carries_selectFragment b p nowMS ack hlt)

/-! ## What the host holds -/

/-- The host holds the first `n` bytes of the block, and nothing which is not
in the block. -/
structure Holds (b : Block) (memory : Nat → Option UInt8) (n : Nat) : Prop where
  filled : ∀ i < n, memory i = b.data[i]?
  faithful : ∀ i x, memory i = some x → b.data[i]? = some x

variable {b : Block} {evs : List (Event MetadataTransfer Op Answer)}

theorem Holds.nothing (b : Block) : Holds b (fun _ => none) 0 :=
  ⟨by simp, by simp⟩

variable {memory : Nat → Option UInt8}

theorem Holds.mono {m n : Nat} (h : Holds b memory n) (hmn : m ≤ n) : Holds b memory m :=
  ⟨fun i hi => h.filled i (Nat.lt_of_lt_of_le hi hmn), h.faithful⟩

/-- A host which holds everything holds exactly the block. -/
theorem Holds.all (h : Holds b memory b.total) (i : Nat) : memory i = b.data[i]? := by
  by_cases hi : i < b.total
  · exact h.filled i hi
  have hnone : b.data[i]? = none := getElem?_eq_none (Nat.not_lt.1 hi)
  rw [hnone]
  refine Option.eq_none_iff_forall_not_mem.2 fun x hx => ?_
  have hsome := h.faithful i x hx
  cases hnone.symm.trans hsome

/-- Storing a slice of the block at its own place. -/
theorem Holds.store {start n : Nat} (h : Holds b memory start) (hn : start + n ≤ b.total) :
    Holds b (copyInto memory start (((b.data.drop start).take n).map some)) (start + n) := by
  have hlen : (((b.data.drop start).take n).map some).length = n := by
    have htotal : b.data.length = b.total := rfl
    simp only [length_map, length_take, length_drop]
    omega
  have hin : ∀ j < n, copyInto memory start
      (((b.data.drop start).take n).map some) (start + j) = b.data[start + j]? := by
    intro j hj
    have hj' : start + j < b.data.length := by
      have htotal : b.data.length = b.total := rfl
      omega
    rw [copyInto_hit memory start _ (by rw [hlen]; exact hj)]
    simp [getElem?_eq_getElem hj']
  constructor
  · intro i hi
    by_cases hold : i < start
    · rw [copyInto_miss memory (.inl hold)]
      exact h.filled i hold
    · obtain ⟨j, rfl⟩ := Nat.exists_eq_add_of_le (Nat.not_lt.1 hold)
      exact hin j (by omega)
  · intro i x hx
    by_cases hout : i < start ∨ start + n ≤ i
    · rw [copyInto_miss memory (by rw [hlen]; exact hout)] at hx
      exact h.faithful i x hx
    · obtain ⟨j, rfl⟩ := Nat.exists_eq_add_of_le (show start ≤ i by omega)
      rw [hin j (by omega)] at hx
      exact hx

/-- **Receiving a fragment extends what the host holds**, up to where the
fragment ends. -/
theorem Holds.receive {start : Nat} {bytes : Bytes} (h : Holds b memory start)
    (hc : Carries b start bytes) :
    Holds b (receive memory bytes)
      (start + min (b.total - start) metadataFragmentPayloadCapacity) := by
  have hplace : payloadStart bytes = start := by
    unfold payloadStart
    rw [hc.fragment, hc.initial, hc.header]
    by_cases h0 : start = 0
    · simp [h0]
    · simp [h0]
  rw [Metadata.receive, hplace, hc.payload_eq]
  have hlt := hc.start_lt
  exact h.store (by omega)

theorem receive_complete (memory : Nat → Option UInt8) (sequence : UInt8) (n : Nat) :
    receive memory (encodeMetadataCompleteHeader sequence n) = memory := by
  have hflag : isFragment (encodeMetadataCompleteHeader sequence n) := by
    change ((flagFragment ||| flagSystem) &&& flagFragment != 0)
    decide
  have hpay : payload (encodeMetadataCompleteHeader sequence n) = [] := by
    rw [payload, if_pos hflag]
    rfl
  funext i
  rw [receive, hpay]
  refine copyInto_miss memory ?_
  simp only [map_nil, length_nil]
  omega

theorem Holds.receive_single {bytes : Bytes} (h : Holds b memory 0)
    (hflag : isFragment bytes = false)
    (hpay : payload bytes = b.data) : Holds b (Metadata.receive memory bytes) b.total := by
  have hplace : payloadStart bytes = 0 := by simp [payloadStart, hflag]
  have hslice : b.data = (b.data.drop 0).take b.total := by
    exact (take_length).symm
  have hstore := h.store (n := b.total) (by omega)
  rw [Nat.zero_add, ← hslice] at hstore
  rw [Metadata.receive, hplace, hpay]
  exact hstore

/-! ## The wire along a run -/

/-- The offset of the last selection, the bytes copied last, and the packets
delivered so far with the offsets of their selections. -/
structure Wire where
  selectedAt : Nat
  copied : Bytes
  packets : List (Nat × Bytes)

def Wire.observe (w : Wire) (e : Event MetadataTransfer Op Answer) : Wire :=
  match label e with
  | .selected => { w with selectedAt := e.pre.offset }
  | .copied bytes => { w with copied := bytes }
  | .delivered => { w with packets := w.packets ++ [(w.selectedAt, w.copied)] }
  | _ => w

attribute [local simp] Wire.observe

/-- What went over the wire in a run. -/
def wire (evs : List (Event MetadataTransfer Op Answer)) : Wire :=
  evs.foldl Wire.observe ⟨0, [], []⟩

/-- The host's memory after the delivered packets. -/
def hostMemory (packets : List (Nat × Bytes)) : Nat → Option UInt8 :=
  packets.foldl (fun memory packet => receive memory packet.2) fun _ => none

theorem wire_snoc (evs : List (Event MetadataTransfer Op Answer))
    (e : Event MetadataTransfer Op Answer) : wire (evs ++ [e]) = (wire evs).observe e := by
  simp [wire]

/-- The host acknowledged the whole block. -/
def FullyAcknowledged (b : Block) (evs : List (Event MetadataTransfer Op Answer)) : Prop :=
  ∃ before a after, evs = before ++ a :: after ∧ label a = .acknowledged b.total

/-- A Complete packet was delivered after the host acknowledged the whole
block. -/
def Completed (b : Block) (evs : List (Event MetadataTransfer Op Answer)) : Prop :=
  ∃ before d after, evs = before ++ d :: after ∧ FullyAcknowledged b before ∧
    label d = .delivered ∧ d.pre.claimRecord.kind = .complete ∧
    d.pre.claimRecord.wire = encodeMetadataCompleteHeader b.sequence b.total

theorem FullyAcknowledged.append
    (h : FullyAcknowledged b evs) (more : List (Event MetadataTransfer Op Answer)) :
    FullyAcknowledged b (evs ++ more) := by
  obtain ⟨before, a, after, rfl, ha⟩ := h
  exact ⟨before, a, after ++ more, by simp, ha⟩

theorem Completed.append (h : Completed b evs) (more : List (Event MetadataTransfer Op Answer)) :
    Completed b (evs ++ more) := by
  obtain ⟨before, d, after, rfl, hrest⟩ := h
  exact ⟨before, d, after ++ more, by simp, hrest⟩

/-- How the history of a run and its state belong together. -/
structure Tracked (b : Block) (evs : List (Event MetadataTransfer Op Answer))
    (l : Line) : Prop where
  selected : l.claim ≠ none ∨ l.retry ≠ none → (wire evs).selectedAt = l.post.offset
  copied : ∀ r, l.claim = some r → l.admitted → (wire evs).copied = r.wire
  sent : ∀ packet ∈ (wire evs).packets, Sent b packet.1 packet.2
  holds : Holds b (hostMemory (wire evs).packets) l.post.offset
  short : b.total ≤ 60 → l.post.done = false → l.post.offset = 0
  final : l.post.finalAcknowledged → FullyAcknowledged b evs
  done : 60 < b.total → l.post.done → Completed b evs

namespace Tracked

variable {l : Line} {e : Event MetadataTransfer Op Answer}

theorem start (b : Block) (l : Line) (hclaim : l.claim = none) (hretry : l.retry = none)
    (hpost : l.post = ⟨0, 0, 0, false, false⟩) : Tracked b [] l where
  selected := by simp [hclaim, hretry]
  copied := by simp [hclaim]
  sent := by simp [wire]
  holds := by
    rw [hpost]
    exact Holds.nothing b
  short := by simp [hpost]
  final := by simp [hpost]
  done := by simp [hpost]

/-- A step which delivers nothing, and leaves or rewinds the progress, keeps the
account. -/
theorem keep {l' : Line} (h : Tracked b evs l)
    (hpackets : ((wire evs).observe e).packets = (wire evs).packets)
    (hselected : l'.claim ≠ none ∨ l'.retry ≠ none →
      ((wire evs).observe e).selectedAt = l'.post.offset)
    (hcopied : ∀ r, l'.claim = some r → l'.admitted → ((wire evs).observe e).copied = r.wire)
    (hoffset : l'.post.offset ≤ l.post.offset) (hdone : l'.post.done = l.post.done)
    (hfinal : l'.post.finalAcknowledged →
      l.post.finalAcknowledged ∨ label e = .acknowledged b.total) :
    Tracked b (evs ++ [e]) l' where
  selected := by
    rw [wire_snoc]
    exact hselected
  copied := by
    rw [wire_snoc]
    exact hcopied
  sent := by
    rw [wire_snoc, hpackets]
    exact h.sent
  holds := by
    rw [wire_snoc, hpackets]
    exact h.holds.mono hoffset
  short := by
    intro hs hd
    have := h.short hs (hdone ▸ hd)
    omega
  final := by
    intro hf
    rcases hfinal hf with hf | hlab
    · exact (h.final hf).append [e]
    · exact ⟨evs, e, [], rfl, hlab⟩
  done := fun hlong hd => (h.done hlong (hdone ▸ hd)).append [e]

/-- Delivery: the packet in hand goes over the wire. -/
theorem deliver (h : Tracked b evs l) (hs : Sound b l) {r : PacketRecord} (hr : l.claim = some r)
    (hadm : l.admitted) (hlab : label e = .delivered) (hpre : e.pre.line = l) :
    Tracked b (evs ++ [e]) (l.deliver r) := by
  have hbusy : l.claim ≠ none ∨ l.retry ≠ none := .inl (by simp [hr])
  obtain ⟨-, -, hdone⟩ := hs.busy hbusy
  have hretry : l.retry = none := hs.exclusive (by simp [hr])
  have hp := hs.claim_ok r hr
  have hwire : wire (evs ++ [e]) =
      { wire evs with
        packets := (wire evs).packets ++ [(l.post.offset, r.wire)] } := by
    rw [wire_snoc]
    unfold Wire.observe
    rw [hlab, ← h.selected hbusy, ← h.copied r hr hadm]
  have hsent : Sent b l.post.offset r.wire := hp.sent fun hshort => h.short hshort hdone
  have hhost : hostMemory (wire (evs ++ [e])).packets =
      receive (hostMemory (wire evs).packets) r.wire := by
    rw [hwire]
    simp [hostMemory]
  refine ⟨?_, by simp, ?_, ?_, ?_, ?_, ?_⟩
  · intro hb
    rcases hb with hb | hb
    · exact absurd rfl hb
    · exact absurd hretry hb
  · rw [hwire]
    intro packet hmem
    rw [mem_append, mem_singleton] at hmem
    rcases hmem with hmem | rfl
    · exact h.sent packet hmem
    · exact hsent
  · rw [hhost]
    cases hp with
    | single nowMS hshort =>
      have hzero := h.short hshort hdone
      cases hsent with
      | single _ _ hflag hpay =>
        exact Holds.receive_single (hzero ▸ h.holds) hflag hpay
      | _ => omega
    | complete nowMS hlong hend hfinal =>
      change Holds b (receive _ (encodeMetadataCompleteHeader _ _)) l.post.offset
      rw [receive_complete]
      exact h.holds
    | fragment nowMS ack hlong hlt himp =>
      have hc := carries_selectFragment b l.post nowMS ack hlt
      have hlen := fragmentPayloadLength_eq_min b.total l.post.offset
      change Holds b _ (l.post.offset + fragmentPayloadLength b.total l.post.offset)
      rw [hlen]
      exact h.holds.receive hc
  · intro hshort hd
    cases hp with
    | single nowMS => cases hd
    | _ => omega
  · intro hf
    cases hp with
    | fragment nowMS ack hlong hlt himp => cases hf
    | _ => exact (h.final hf).append [e]
  · intro hlong hd
    cases hp with
    | single nowMS hshort => omega
    | complete nowMS _ hend hfinal =>
      have hclaim : e.pre.claimRecord = selectComplete b.sequence b.data l.post nowMS := by
        have hopt : e.pre.line.claim =
            some (selectComplete b.sequence b.data l.post nowMS) := by
          rw [hpre]
          exact hr
        unfold MetadataTransfer.line at hopt
        split at hopt
        · exact Option.some.inj hopt
        · cases hopt
      refine ⟨evs, e, [], rfl, h.final hfinal, hlab, ?_, ?_⟩
      · rw [hclaim]
        rfl
      · rw [hclaim]
        rfl
    | fragment nowMS ack _ hlt himp =>
      exact absurd hd (by simp [selectFragment, hdone])

/-- Every move keeps history and state together. -/
theorem move {l' : Line} (h : Tracked b evs l) (hs : Sound b l) (hpre : e.pre.line = l)
    (hm : Move b l (label e) l') : Tracked b (evs ++ [e]) l' := by
  generalize hlab : label e = lab at hm
  have hoff : e.pre.offset = l.post.offset := hpre ▸ rfl
  cases hm with
  | select r halive hclaim hretry hdone harmed hr =>
    refine h.keep (by simp [hlab]) ?_ ?_ (Nat.le_refl _) rfl .inl
    · intro _
      simp [hlab, hoff]
    · intro r' _ hadm
      cases hadm
  | reclaim r halive hclaim hretry =>
    have hw : (wire evs).observe e = wire evs := by simp [hlab]
    refine h.keep (by rw [hw]) ?_ ?_ (Nat.le_refl _) rfl .inl
    · intro _
      rw [hw]
      exact h.selected (.inr (by simp [hretry]))
    · intro r' _ hadm
      cases hadm
  | copy r r' halive hclaim hadm hcases =>
    have hp := (hs.move (.copy r r' halive hclaim hadm hcases)).claim_ok r' rfl
    refine h.keep (by simp [hlab]) ?_ ?_ (Nat.le_refl _) rfl .inl
    · intro _
      have hsel := h.selected (.inl (by simp [hclaim]))
      simpa [hlab] using hsel
    · intro r'' hr'' _
      cases hr''
      simp only [Wire.observe, hlab]
      rw [← hp.length_wire, take_length]
  | release r hclaim =>
    have hw : (wire evs).observe e = wire evs := by simp [hlab]
    refine h.keep (by rw [hw]) ?_ ?_ (Nat.le_refl _) rfl .inl
    · intro _
      rw [hw]
      exact h.selected (.inl (by simp [hclaim]))
    · intro r' hr'
      cases hr'
  | deliver r hclaim hadm => exact h.deliver hs hclaim hadm hlab hpre
  | advance n hacc hge =>
    have hw : (wire evs).observe e = wire evs := by simp [hlab]
    refine h.keep (by rw [hw]) ?_ ?_ (Nat.le_refl _) rfl ?_
    · intro hb
      rw [hw]
      exact h.selected (by simpa using hb)
    · intro r' _ hadm
      exact absurd hadm (by simp [hacc.free])
    · intro hf
      have hn : n = b.total := by simpa using hf
      exact .inr (hn ▸ hlab)
  | rewind n hacc hlt =>
    have hw : (wire evs).observe e = wire evs := by simp [hlab]
    refine h.keep (by rw [hw]) ?_ ?_ (Nat.le_of_lt hlt) rfl ?_
    · intro hb
      simp at hb
    · intro r' hr'
      cases hr'
    · intro hf
      have hn : n = b.total := by simpa using hf
      exact .inr (hn ▸ hlab)
  | _ =>
    have hw : (wire evs).observe e = wire evs := by simp [hlab]
    exact h.keep (by rw [hw]) (by rw [hw]; exact h.selected)
      (by rw [hw]; exact h.copied) (Nat.le_refl _) rfl .inl

end Tracked

end Viiper.Ports.Metadata
