import Viiper.Ports.MetadataTransfer

/-!
# The metadata transfer as a labelled machine

`Line` keeps of a transfer what its progress depends on: the committed
progress, the packet in hand, the packet retained for a retry, and the three
flags.  `Move` lists what a call can do to it, and `step_refines` shows that
every call is one of these moves.

A packet in hand is determined by the block and the committed progress, except
for its time stamp and for whether it asks for an acknowledgement: `Packet` is
that relation.  It survives an acknowledgement because the code carries the
accepted progress into the packet, and a rewind because the packet is dropped.
-/

namespace Viiper.Ports.Metadata

open Verified Go Run PacketRecord MetadataTransfer

/-- A bound metadata block and the sequence number of its transfer. -/
structure Block where
  sequence : UInt8
  data : Bytes
  sequence_ne : sequence ≠ 0
  length_pos : 0 < data.length
  length_le : data.length ≤ metadataMaximumBoundLength

namespace Block

def total (b : Block) : Nat := b.data.length

/-- Image of the packet which carries a whole block. -/
def singleWire (b : Block) : Bytes :=
  [messageNumberMetadataRequest, flagSystem, b.sequence, UInt8.ofNat b.total] ++ b.data

end Block

variable {b : Block}

/-- The packets which may be in hand at progress `p`. -/
inductive Packet (b : Block) (p : PostState) : PacketRecord → Prop
  | single (nowMS : UInt64) : b.total ≤ 60 → Packet b p
        { wire := b.singleWire
          size := singlePacketHeaderSize + b.total
          kind := .single
          acknowledgement := false
          selectedAtMS := nowMS
          post := { p with offset := b.total, sentEnd := b.total, done := true } }
  | complete (nowMS : UInt64) : 60 < b.total → p.offset = b.total →
      p.finalAcknowledged → Packet b p (selectComplete b.sequence b.data p nowMS)
  | fragment (nowMS : UInt64) (ack : Bool) : 60 < b.total → p.offset < b.total →
      (fragmentKind b.total p.offset ≠ .middleFragment → ack) →
      Packet b p (selectFragment b.sequence b.data p nowMS ack)

/-- A block of at most 60 bytes always encodes. -/
theorem selectSingle_ok (b : Block) (p : PostState) (nowMS : UInt64) (hshort : b.total ≤ 60) :
    ∃ r, selectSingle b.sequence b.data p nowMS = .ok r ∧ Packet b p r := by
  refine ⟨_, ?_, .single nowMS hshort⟩
  have hvalid : SinglePacketHeader.validate
      ⟨dataClassCommand, messageNumberMetadataRequest, true, false, 0, b.sequence,
        b.data.length⟩ = .ok () := by
    have hlen : ¬(60 < b.data.length) := Nat.not_lt.2 hshort
    simp [SinglePacketHeader.validate, dataClassCommand, dataClassAudio,
      messageNumberMetadataRequest, flagExpansion, b.sequence_ne,
      singlePacketHeaderSize, hlen]
  have htype : dataClassCommand <<< 5 ||| messageNumberMetadataRequest =
      messageNumberMetadataRequest := by decide
  have hflags : (0 : UInt8) ||| flagSystem ||| 0 = flagSystem := by decide
  simp only [selectSingle, SinglePacketHeader.encode, hvalid, htype, if_true,
    Bool.false_eq_true, if_false, hflags]
  rfl

theorem fragmentPayloadLength_eq_min (total start : Nat) :
    fragmentPayloadLength total start = min (total - start) 58 := by
  unfold fragmentPayloadLength metadataFragmentPayloadCapacity
  split <;> omega

theorem fragmentPayloadLength_le (total start : Nat) :
    fragmentPayloadLength total start ≤ total - start := by
  rw [fragmentPayloadLength_eq_min]
  omega

variable {r : PacketRecord} {p : PostState}

/-- Asking for an acknowledgement later gives the packet which asked for it
from the start. -/
theorem Packet.upgrade (h : Packet b p r) (hkind : r.kind = .middleFragment)
    (hack : r.acknowledgement = false) :
    Packet b p
      { r with
        acknowledgement := true
        wire := r.wire.modify 1 (· ||| flagAcknowledge) } := by
  cases h with
  | fragment nowMS ack hlong hlt himp =>
    have hfalse : ack = false := hack
    subst hfalse
    have hmid : fragmentKind b.data.length p.offset = .middleFragment := hkind
    have heq : selectFragment b.sequence b.data p nowMS true =
        { selectFragment b.sequence b.data p nowMS false with
          acknowledgement := true
          wire := (selectFragment b.sequence b.data p nowMS false).wire.modify 1
            (· ||| flagAcknowledge) } := by
      simp [selectFragment, hmid, encodeMetadataFragmentHeader]
    rw [← heq]
    exact .fragment nowMS true hlong hlt fun _ => rfl
  | _ => cases hkind

theorem Packet.length_wire (h : Packet b p r) : r.wire.length = r.size := by
  cases h with
  | single nowMS hshort =>
    simp [Block.singleWire, Block.total, singlePacketHeaderSize]
    omega
  | complete nowMS => rfl
  | fragment nowMS ack hlong hlt himp =>
    have hle := fragmentPayloadLength_le b.data.length p.offset
    simp only [selectFragment, List.length_append, List.length_take,
      List.length_drop, Nat.min_eq_left hle]
    rfl

theorem Packet.acknowledged (h : Packet b p r) (hlong : 60 < b.total) {n : Nat}
    (hoff : p.offset ≤ n) (hsent : n ≤ p.offset) :
    Packet b { p with acknowledgedEnd := n, finalAcknowledged := n == b.total }
      (acknowledged r n (n == b.total)) := by
  cases h with
  | single nowMS hshort => omega
  | complete nowMS _ hend =>
    have hfull : n = b.total := by omega
    exact .complete nowMS hlong hend (by simpa using hfull)
  | fragment nowMS ack _ hlt himp =>
    have hpart : (n == b.total) = false := by simp; omega
    have heq : acknowledged (selectFragment b.sequence b.data p nowMS ack) n (n == b.total) =
        selectFragment b.sequence b.data
          { p with acknowledgedEnd := n, finalAcknowledged := n == b.total } nowMS ack := by
      simp [selectFragment, acknowledged, hpart]
    rw [heq]
    exact .fragment nowMS ack hlong hlt himp

/-! ## The machine -/

/-- What the progress of a transfer depends on. -/
structure Line where
  post : PostState
  (faulted armed admitted : Bool)
  (claim retry : Option PacketRecord)

namespace Line

/-- The progress of the packet `r` in hand is committed. -/
@[simp] def deliver (l : Line) (r : PacketRecord) : Line :=
  { l with
    post := r.post
    armed := r.acknowledgement || l.armed
    claim := none
    admitted := false }

/-- Acknowledged progress, which the packets not yet delivered learn of. -/
@[simp] def advance (b : Block) (l : Line) (n : Nat) : Line :=
  { l with
    post := { l.post with acknowledgedEnd := n, finalAcknowledged := n == b.total }
    armed := false
    claim := l.claim.map (acknowledged · n (n == b.total))
    retry := l.retry.map (acknowledged · n (n == b.total)) }

/-- The transfer goes on from `n`, and what was selected behind it is dropped. -/
@[simp] def rewind (b : Block) (l : Line) (n : Nat) : Line :=
  { l with
    post := ⟨n, n, n, n == b.total, l.post.done⟩
    armed := false
    claim := none
    retry := none }

end Line

/-- What a call did, as far as the two ends can see it. -/
inductive Label where
  | quiet
  | selected
  | reclaimed
  | copied (bytes : Bytes)
  | released
  | delivered
  | acknowledged (bytes : Nat)

/-- What `Acknowledge` checks before it accepts `n` bytes. -/
structure Line.Accepts (b : Block) (l : Line) (n : Nat) : Prop where
  alive : l.faulted = false
  free : l.admitted = false
  long : 60 < b.total
  running : l.post.done = false
  started : l.post.sentEnd ≠ 0
  above : l.post.acknowledgedEnd ≤ n
  below : n ≤ l.post.sentEnd
  bounded : n ≤ b.total

/-- What a call can do. -/
inductive Move (b : Block) : Line → Label → Line → Prop
  | quiet {l : Line} : Move b l .quiet l
  | timeout {l : Line} : l.armed →
      Move b l .quiet { l with faulted := true, armed := false }
  | select {l : Line} (r : PacketRecord) : l.faulted = false → l.claim = none →
      l.retry = none → l.post.done = false → l.armed = false → Packet b l.post r →
        Move b l .selected { l with claim := some r, admitted := false }
  | reclaim {l : Line} (r : PacketRecord) : l.faulted = false → l.claim = none → l.retry = some r →
        Move b l .reclaimed { l with claim := some r, retry := none, admitted := false }
  | copy {l : Line} (r r' : PacketRecord) : l.faulted = false → l.claim = some r →
      l.admitted = false →
      (r' = r ∨ r.kind = .middleFragment ∧ r.acknowledgement = false ∧ r' = { r with
          acknowledgement := true
          wire := r.wire.modify 1 (· ||| flagAcknowledge) }) →
        Move b l (.copied (r'.wire.take r'.size)) { l with claim := some r', admitted := true }
  | release {l : Line} (r : PacketRecord) : l.claim = some r →
      Move b l .released { l with claim := none, admitted := false, retry := some r }
  | deliver {l : Line} (r : PacketRecord) : l.claim = some r → l.admitted →
      Move b l .delivered (l.deliver r)
  | advance {l : Line} (n : Nat) : l.Accepts b n → l.post.offset ≤ n →
      Move b l (.acknowledged n) (l.advance b n)
  | rewind {l : Line} (n : Nat) : l.Accepts b n → n < l.post.offset →
      Move b l (.acknowledged n) (l.rewind b n)

/-- The progress invariant. -/
structure Sound (b : Block) (l : Line) : Prop where
  acknowledged_le : l.post.acknowledgedEnd ≤ l.post.offset
  sent_eq : l.post.sentEnd = l.post.offset
  offset_le : l.post.offset ≤ b.total
  claim_ok : ∀ r, l.claim = some r → Packet b l.post r
  retry_ok : ∀ r, l.retry = some r → Packet b l.post r
  exclusive : l.claim ≠ none → l.retry = none
  admitted_claim : l.admitted → l.claim ≠ none
  armed_idle : l.armed → l.claim = none ∧ l.retry = none ∧ l.post.done = false
  armed_sent : l.armed → 60 < b.total ∧ 0 < l.post.offset
  final_full : l.post.finalAcknowledged → l.post.acknowledgedEnd = b.total
  done_idle : l.post.done →
    l.claim = none ∧ l.retry = none ∧ l.faulted = false ∧ l.post.offset = b.total
  faulted_idle : l.faulted → l.claim = none ∧ l.retry = none ∧ l.armed = false
  waiting : 60 < b.total → l.post.offset = b.total → l.post.done = false →
    l.post.finalAcknowledged ∨ l.armed ∨ l.faulted

/-- A packet for a block of several fragments leaves the packet's progress
where the next packet starts. -/
theorem Packet.post_spec (h : Packet b p r) (hle : p.offset ≤ b.total)
    (hsent : p.sentEnd = p.offset) :
    r.post.acknowledgedEnd = p.acknowledgedEnd ∧ p.offset ≤ r.post.offset ∧
      r.post.sentEnd = r.post.offset ∧ r.post.offset ≤ b.total := by
  cases h with
  | single nowMS hshort => exact ⟨rfl, hle, rfl, Nat.le_refl _⟩
  | complete nowMS hlong hend hfinal => exact ⟨rfl, Nat.le_refl _, hsent, hle⟩
  | fragment nowMS ack hlong hlt himp =>
    have hbound := fragmentPayloadLength_le b.total p.offset
    refine ⟨rfl, Nat.le_add_right _ _, rfl, ?_⟩
    change p.offset + fragmentPayloadLength b.total p.offset ≤ b.total
    omega

namespace Sound

variable {l : Line}

theorem start (b : Block) :
    Sound b ⟨⟨0, 0, 0, false, false⟩, false, false, false, none, none⟩ := by
  constructor
  case waiting => exact fun hlong hend => absurd hend (by simp only; omega)
  all_goals simp

theorem timeout (h : Sound b l) (harmed : l.armed) :
    Sound b { l with faulted := true, armed := false } :=
  { h with
    armed_idle := by simp
    armed_sent := by simp
    done_idle := fun hdone => absurd hdone (by simp [(h.armed_idle harmed).2.2])
    faulted_idle := fun _ =>
      ⟨(h.armed_idle harmed).1, (h.armed_idle harmed).2.1, rfl⟩
    waiting := fun _ _ _ => .inr (.inr rfl) }

/-- Taking a packet in hand, selected afresh or retained. -/
theorem takeUp (h : Sound b l) {retry : Option PacketRecord} (halive : l.faulted = false)
    (hdone : l.post.done = false) (harmed : l.armed = false) (hretry : retry = none)
    (hr : Packet b l.post r) (admitted : Bool) :
    Sound b { l with claim := some r, retry := retry, admitted := admitted } :=
  { h with
    claim_ok := by
      rintro _ ⟨⟩
      exact hr
    retry_ok := fun r' hr' => absurd (hretry.symm.trans hr') (by simp)
    exclusive := fun _ => hretry
    admitted_claim := fun _ => by simp
    armed_idle := fun ha => absurd ha (by simp [harmed])
    done_idle := fun hd => absurd hd (by simp [hdone])
    faulted_idle := fun hf => absurd hf (by simp [halive]) }

/-- While a packet is in hand or retained the transfer is alive and running
and no acknowledgement is awaited. -/
theorem busy (h : Sound b l) (hbusy : l.claim ≠ none ∨ l.retry ≠ none) :
    l.faulted = false ∧ l.armed = false ∧ l.post.done = false := by
  have hidle : l.claim = none → l.retry ≠ none := fun hc hr => hbusy.elim (· hc) (· hr)
  refine ⟨?_, ?_, ?_⟩
  · by_contra hf
    obtain ⟨hc, hr, -⟩ := h.faulted_idle (by simpa using hf)
    exact hidle hc hr
  · by_contra ha
    obtain ⟨hc, hr, -⟩ := h.armed_idle (by simpa using ha)
    exact hidle hc hr
  · by_contra hd
    obtain ⟨hc, hr, -⟩ := h.done_idle (by simpa using hd)
    exact hidle hc hr

theorem release (h : Sound b l) (hr : l.claim = some r) :
    Sound b { l with claim := none, admitted := false, retry := some r } := by
  obtain ⟨halive, harmed, hdone⟩ := h.busy (.inl (by simp [hr]))
  exact
    { h with
      claim_ok := by simp
      retry_ok := by
        rintro _ ⟨⟩
        exact h.claim_ok r hr
      exclusive := fun hc => absurd rfl hc
      admitted_claim := by simp
      armed_idle := fun ha => absurd ha (by simp [harmed])
      done_idle := fun hd => absurd hd (by simp [hdone])
      faulted_idle := fun hf => absurd hf (by simp [halive]) }

/-- Delivery commits the packet's progress; a fragment which reaches the end
asked for an acknowledgement. -/
theorem deliver (h : Sound b l) (hr : l.claim = some r) : Sound b (l.deliver r) := by
  obtain ⟨halive, harmed, hdone⟩ := h.busy (.inl (by simp [hr]))
  have hretry : l.retry = none := h.exclusive (by simp [hr])
  have hp := h.claim_ok r hr
  obtain ⟨hack, hmono, hsent, hle⟩ := hp.post_spec h.offset_le h.sent_eq
  have hend : r.post.done → r.post.offset = b.total ∧ r.acknowledgement = false := by
    intro hd
    cases hp with
    | single nowMS hshort => exact ⟨rfl, rfl⟩
    | complete nowMS hlong hoff hfinal => exact ⟨hoff, rfl⟩
    | fragment nowMS ack hlong hlt himp =>
      exact absurd hd (by simp [selectFragment, hdone])
  exact
    { acknowledged_le := by
        change r.post.acknowledgedEnd ≤ r.post.offset
        have := h.acknowledged_le
        omega
      sent_eq := hsent
      offset_le := hle
      claim_ok := by simp
      retry_ok := fun r' hr' => absurd (hretry.symm.trans hr') (by simp)
      exclusive := fun hc => absurd rfl hc
      admitted_claim := by simp
      armed_idle := by
        intro ha
        refine ⟨rfl, hretry, ?_⟩
        by_contra hd
        have := (hend (by simpa using hd)).2
        simp [this, harmed] at ha
      armed_sent := by
        intro ha
        simp only [Line.deliver, harmed, Bool.or_false] at ha
        cases hp with
        | fragment nowMS ack hlong hlt himp =>
          have hlen := fragmentPayloadLength_eq_min b.total l.post.offset
          refine ⟨hlong, ?_⟩
          change 0 < l.post.offset + fragmentPayloadLength b.total l.post.offset
          omega
        | _ => cases ha
      final_full := by
        intro hf
        cases hp with
        | fragment nowMS ack hlong hlt himp => exact absurd hf (by simp [selectFragment])
        | _ => exact h.final_full hf
      done_idle := fun hd => ⟨rfl, hretry, halive, (hend hd).1⟩
      faulted_idle := fun hf => absurd hf (by simp [halive])
      waiting := by
        intro hlong hoff hd
        cases hp with
        | single nowMS hshort => omega
        | complete nowMS _ hoff' hfinal => exact .inl hfinal
        | fragment nowMS ack _ hlt himp =>
          have hstop : l.post.offset + fragmentPayloadLength b.total l.post.offset = b.total := hoff
          have hkind : fragmentKind b.total l.post.offset ≠ .middleFragment := by
            unfold fragmentKind
            split <;> simp
          refine .inr (.inl ?_)
          change (ack || l.armed)
          rw [himp hkind, Bool.true_or] }

theorem advance (h : Sound b l) {n : Nat} (hacc : l.Accepts b n) (hoff : l.post.offset ≤ n) :
    Sound b (l.advance b n) := by
  have hsent : n ≤ l.post.offset := h.sent_eq ▸ hacc.below
  have hmap {o : Option PacketRecord} (ho : ∀ r, o = some r → Packet b l.post r) (r : PacketRecord)
      (hr : o.map (acknowledged · n (n == b.total)) = some r) :
      Packet b (l.advance b n).post r := by
    obtain ⟨r', hr', rfl⟩ := Option.map_eq_some_iff.1 hr
    exact (ho r' hr').acknowledged hacc.long hoff hsent
  exact
    { h with
      acknowledged_le := hsent
      claim_ok := hmap h.claim_ok
      retry_ok := hmap h.retry_ok
      exclusive := by
        intro hc
        have := h.exclusive fun hnone => hc (by simp [hnone])
        simp [this]
      admitted_claim := fun ha => absurd ha (by simp [hacc.free])
      armed_idle := by simp
      armed_sent := by simp
      final_full := by simp
      done_idle := fun hd => absurd hd (by simp [hacc.running])
      faulted_idle := fun hf => absurd hf (by simp [hacc.alive])
      waiting := by
        intro _ hend _
        have hend : l.post.offset = b.total := hend
        exact .inl (beq_iff_eq.2 (by omega)) }

theorem rewind {n : Nat} (hacc : l.Accepts b n) : Sound b (l.rewind b n) := by
  constructor
  case waiting => exact fun _ hend _ => .inl (beq_iff_eq.2 hend)
  all_goals simp [hacc.free, hacc.running, hacc.alive, hacc.bounded]

/-- **Every move keeps the progress invariant.** -/
theorem move {l' : Line} {label : Label} (h : Sound b l) (hm : Move b l label l') : Sound b l' := by
  cases hm with
  | quiet => exact h
  | timeout harmed => exact h.timeout harmed
  | select r halive hclaim hretry hdone harmed hr =>
    exact h.takeUp halive hdone harmed hretry hr false
  | reclaim r halive hclaim hretry =>
    obtain ⟨-, harmed, hdone⟩ := h.busy (.inr (by simp [hretry]))
    exact h.takeUp halive hdone harmed rfl (h.retry_ok r hretry) false
  | copy r r' halive hclaim hadm hcases =>
    obtain ⟨-, harmed, hdone⟩ := h.busy (.inl (by simp [hclaim]))
    have hretry : l.retry = none := h.exclusive (by simp [hclaim])
    have hr := h.claim_ok r hclaim
    refine h.takeUp halive hdone harmed hretry ?_ true
    rcases hcases with rfl | ⟨hkind, hack, rfl⟩
    · exact hr
    · exact hr.upgrade hkind hack
  | release r hclaim => exact h.release hclaim
  | deliver r hclaim hadm => exact h.deliver hclaim
  | advance n hacc hoff => exact h.advance hacc hoff
  | rewind n hacc hoff => exact rewind hacc

end Sound

/-- Acknowledged progress is never taken back. -/
theorem Move.acknowledged_mono {l l' : Line} {label : Label} (h : Sound b l)
    (hm : Move b l label l') : l.post.acknowledgedEnd ≤ l'.post.acknowledgedEnd := by
  cases hm with
  | deliver r hclaim hadm =>
    exact Nat.le_of_eq ((h.claim_ok r hclaim).post_spec h.offset_le h.sent_eq).1.symm
  | advance _ hacc | rewind _ hacc => exact hacc.above
  | _ => exact Nat.le_refl _

/-! ## The code makes these moves -/

/-- The transfer runs over the given block. -/
structure MetadataTransfer.Over (b : Block) (t : MetadataTransfer) : Prop where
  sequence : t.sequence = b.sequence
  data : t.metadata.data = b.data
  valid : t.valid

theorem MetadataTransfer.Over.total {t : MetadataTransfer} (h : t.Over b) : t.total = b.total :=
  congrArg List.length h.data

def MetadataTransfer.line (t : MetadataTransfer) : Line where
  post := t.currentPost
  faulted := t.faulted
  armed := t.ackDeadlineArmed
  admitted := t.claimAdmitted
  claim := if t.hasClaim then some t.claimRecord else none
  retry := if t.retryPending then some t.retryRecord else none

/-- What a call did, read off the call and its answer. -/
def label (e : Event MetadataTransfer Op Answer) : Label :=
  match e.op, e.out with
  | .claim _, .claim (.ok _) => .selected
  | .claimRetry _, .claim (.ok _) => .reclaimed
  | .admitAndCopy _ _ _, .admission (.ok a) => .copied (a.dst.take a.size)
  | .resolve _ outcome _, .done (.ok _) =>
    if outcome = metadataPacketDelivered then .delivered else .released
  | .acknowledge ack _, .acknowledgement (.ok _) =>
    .acknowledged ack.contiguousPayloadBytes
  | _, _ => .quiet

/-- What a call must establish. -/
structure Refines (b : Block) (t : MetadataTransfer) (l : Label)
    (t' : MetadataTransfer) : Prop where
  body : t'.Over b
  move : Move b t.line l t'.line

namespace MetadataTransfer

variable {t : MetadataTransfer}

/-- A transfer which has observed the clock. -/
def seen (t : MetadataTransfer) (nowMS : UInt64) : MetadataTransfer :=
  { t with lastNowMS := nowMS }

theorem hasClaim_of_claimValid {c : PacketClaim} (hc : t.claimValid c) : t.hasClaim := by
  by_contra hno
  simp [claimValid, hno] at hc

/-- Dropping the packet in hand changes the claim fields only. -/
theorem dropClaim_spec (t : MetadataTransfer) : ∃ admitted admittedAt token record, t.dropClaim =
        { t with
          hasClaim := false
          claimAdmitted := admitted
          claimAdmittedAtMS := admittedAt
          claimToken := token
          claimRecord := record } ∧
      (t.claimAdmitted = false → admitted = false) := by
  unfold dropClaim
  split
  · exact ⟨_, _, _, _, rfl, fun _ => rfl⟩
  rename_i hno
  refine ⟨t.claimAdmitted, t.claimAdmittedAtMS, t.claimToken, t.claimRecord, ?_, id⟩
  rw [← Bool.eq_false_iff.2 hno]

variable (h : t.Over b)

include h

theorem Over.seen (nowMS : UInt64) : (t.seen nowMS).Over b :=
  ⟨h.sequence, h.data, h.valid⟩

theorem observe_eq {nowMS : UInt64} (hclock : t.lastNowMS ≤ nowMS) :
    t.observeAndCheckTimeout nowMS = (t.seen nowMS).checkTimeout nowMS := by
  have hok : t.validateClock nowMS = .ok () := if_neg (UInt64.not_lt.2 hclock)
  unfold observeAndCheckTimeout
  rw [if_neg (by simp [h.valid]), hok]
  rfl

/-- The outcomes of observing the clock: an error which leaves the line alone,
the armed deadline passing, or nothing but the clock reading. -/
theorem observe_cases (nowMS : UInt64) :
    (∃ t' err, t.observeAndCheckTimeout nowMS = (t', .error err) ∧ Refines b t .quiet t') ∨
      (t.faulted = false ∧ t.lastNowMS ≤ nowMS ∧
        t.observeAndCheckTimeout nowMS = (t.seen nowMS, .ok ())) := by
  by_cases hclock : nowMS < t.lastNowMS
  · have herr : t.validateClock nowMS =
        .error (.nonMonotonicMetadataClock nowMS t.lastNowMS) := if_pos hclock
    unfold observeAndCheckTimeout
    rw [if_neg (by simp [h.valid]), herr]
    exact .inl ⟨t, _, rfl, h, .quiet⟩
  · rw [observe_eq h (UInt64.not_lt.1 hclock)]
    unfold checkTimeout
    split
    · exact .inl ⟨_, _, rfl, h.seen nowMS, .quiet⟩
    rename_i hfault
    split
    next hlate => exact .inl ⟨_, _, rfl, ⟨h.sequence, h.data, h.valid⟩, Move.timeout hlate.1⟩
    · exact .inr ⟨Bool.eq_false_iff.2 hfault, UInt64.not_lt.1 hclock, rfl⟩

/-- Whatever `selectPacket` returns is a packet for the current progress. -/
theorem selectPacket_packet (hs : t.offset ≤ b.total) {nowMS : UInt64}
    (hr : t.selectPacket nowMS = .ok r) : Packet b t.currentPost r := by
  simp only [selectPacket, h.total, h.data, h.sequence] at hr
  split at hr
  next hshort =>
    obtain ⟨r', hr', hp⟩ := selectSingle_ok b t.currentPost nowMS hshort
    cases hr'.symm.trans hr
    exact hp
  rename_i hlong
  split at hr
  next hend =>
    split at hr
    · cases hr
    next hfinal =>
      cases hr
      exact .complete nowMS (by omega) hend (by simpa [currentPost] using hfinal)
  next hend =>
    cases hr
    refine .fragment nowMS _ (by omega) (Nat.lt_of_le_of_ne hs hend) fun hmid => ?_
    simp only [decide_eq_true_eq]
    change fragmentKind b.total t.offset ≠ .middleFragment at hmid
    unfold fragmentKind at hmid ⊢
    split
    · exact .inl rfl
    · split
      · exact .inr (.inl rfl)
      · simp_all

/-- `Claim`: refused, or a packet is selected. -/
theorem refines_claim (hs : Sound b t.line) (nowMS : UInt64) :
    Refines b t (label (event step t (.claim nowMS))) (t.claim nowMS).1 := by
  simp only [event, step, claim]
  rcases observe_cases h nowMS with ⟨t', err, hobs, href⟩ | ⟨halive, hclock, hobs⟩
  · rw [hobs]
    exact href
  · have hstay : Refines b t .quiet (t.seen nowMS) := ⟨h.seen nowMS, .quiet⟩
    rw [hobs]
    dsimp only
    split
    · exact hstay
    rename_i hclaim
    split
    · exact hstay
    rename_i hretry
    split
    · exact hstay
    rename_i hdone
    split
    · exact hstay
    rename_i harmed
    cases hsel : (t.seen nowMS).selectPacket nowMS with
    | error err => exact hstay
    | ok r =>
      have hp := selectPacket_packet (h.seen nowMS) hs.offset_le hsel
      exact ⟨⟨h.sequence, h.data, h.valid⟩, Move.select r halive (if_neg hclaim) (if_neg hretry)
          (Bool.eq_false_iff.2 hdone) (Bool.eq_false_iff.2 harmed) hp⟩

/-- `ClaimRetry`: refused, or the retained packet is in hand again. -/
theorem refines_claimRetry (nowMS : UInt64) :
    Refines b t (label (event step t (.claimRetry nowMS))) (t.claimRetry nowMS).1 := by
  simp only [event, step, claimRetry]
  rcases observe_cases h nowMS with ⟨t', err, hobs, href⟩ | ⟨halive, hclock, hobs⟩
  · rw [hobs]
    exact href
  · have hstay : Refines b t .quiet (t.seen nowMS) := ⟨h.seen nowMS, .quiet⟩
    rw [hobs]
    dsimp only
    split
    · exact hstay
    rename_i hclaim
    split
    · exact hstay
    rename_i hretry
    exact ⟨⟨h.sequence, h.data, h.valid⟩,
      Move.reclaim t.retryRecord halive (if_neg hclaim) (if_pos (by simpa [seen] using hretry))⟩

/-- `AdmitAndCopy`: refused, or the packet in hand is copied out, perhaps asking
for an acknowledgement it did not ask for before. -/
theorem refines_admitAndCopy (hs : Sound b t.line) (c : PacketClaim)
    (dst : Bytes) (nowMS : UInt64) :
    Refines b t (label (event step t (.admitAndCopy c dst nowMS)))
      (t.admitAndCopy c dst nowMS).1 := by
  simp only [event, step, admitAndCopy]
  split
  · exact ⟨h, .quiet⟩
  rename_i hc
  split
  · exact ⟨h, .quiet⟩
  rename_i hadm
  split
  · exact ⟨h, .quiet⟩
  rcases observe_cases h nowMS with ⟨t', err, hobs, href⟩ | ⟨halive, hclock, hobs⟩
  · rw [hobs]
    exact href
  rw [hobs]
  dsimp only
  have hhas : t.hasClaim := hasClaim_of_claimValid (by simpa using hc)
  have hup : (t.seen nowMS).upgradeACK nowMS = t.claimRecord ∨
      t.claimRecord.kind = .middleFragment ∧ t.claimRecord.acknowledgement = false ∧
        (t.seen nowMS).upgradeACK nowMS =
          { t.claimRecord with
            acknowledgement := true
            wire := t.claimRecord.wire.modify 1 (· ||| flagAcknowledge) } := by
    unfold upgradeACK
    split
    next hmid => exact .inr ⟨hmid.1, hmid.2.1, rfl⟩
    · exact .inl rfl
  generalize (t.seen nowMS).upgradeACK nowMS = r at hup
  have hm : Move b t.line _ _ :=
    .copy t.claimRecord r halive (if_pos hhas) (Bool.eq_false_iff.2 hadm) hup
  -- the upgraded packet is a packet, so its image has its size
  have hlen := ((hs.move hm).claim_ok r rfl).length_wire
  have htake : (r.wire.take r.size ++ dst.drop r.size).take r.size = r.wire.take r.size := by
    rw [← hlen, List.take_length, List.take_left]
  have hline : ({ t.line with claim := some r, admitted := true } : Line) =
      line
        { t.seen nowMS with
          claimRecord := r
          claimAdmitted := true
          claimAdmittedAtMS := nowMS } := by
    simp only [line, seen, hhas, if_true]
    rfl
  simp only [label, htake]
  exact ⟨⟨h.sequence, h.data, h.valid⟩, hline ▸ hm⟩

/-- `Resolve`: refused, retained for a retry, or committed. -/
theorem refines_resolve (c : PacketClaim) (outcome : UInt8) (completedMS : UInt64) :
    Refines b t (label (event step t (.resolve c outcome completedMS)))
      (t.resolve c outcome completedMS).1 := by
  simp only [event, step, resolve]
  split
  · exact ⟨h, .quiet⟩
  rename_i hc
  have hhas : t.line.claim = some t.claimRecord :=
    if_pos (hasClaim_of_claimValid (by simpa using hc))
  split
  · exact ⟨h, .quiet⟩
  split
  · exact ⟨h, .quiet⟩
  rename_i hnot
  split
  next hdel =>
    simp only [label, hdel, if_false]
    exact ⟨⟨h.sequence, h.data, h.valid⟩, Move.release t.claimRecord hhas⟩
  next hdel =>
    have hdel := not_not.1 hdel
    have hadm : t.claimAdmitted := by
      by_contra hne
      exact hnot ⟨hdel, by simpa using hne⟩
    simp only [label, hdel, if_true]
    exact ⟨⟨h.sequence, h.data, h.valid⟩, Move.deliver t.claimRecord hhas hadm⟩

theorem validateAcknowledgement_accepts (halive : t.faulted = false)
    {ack : Acknowledgement} {d : Disposition} (hok : t.validateAcknowledgement ack = .ok d) :
    t.line.Accepts b ack.contiguousPayloadBytes ∧
      (d = .rewind ↔ ack.contiguousPayloadBytes < t.offset) := by
  unfold validateAcknowledgement at hok
  split at hok
  · cases hok
  rename_i hadm
  rw [h.total] at hok
  split at hok
  · cases hok
  rename_i hno
  simp only [not_or, Nat.not_le, Nat.not_lt, ne_eq, not_not] at hno
  obtain ⟨hlong, hdone, hstart, -, -, -, -, habove, hbelow, hbound⟩ := hno
  refine ⟨⟨halive, Bool.eq_false_iff.2 hadm, hlong, Bool.eq_false_iff.2 hdone,
    hstart, habove, hbelow, hbound⟩, ?_⟩
  split at hok
  next hlt =>
    cases hok
    exact ⟨fun _ => hlt, fun _ => rfl⟩
  next hge =>
    split at hok
    · cases hok
      exact ⟨fun hd => (by cases hd), fun hlt => absurd hlt hge⟩
    · cases hok
      exact ⟨fun hd => (by cases hd), fun hlt => absurd hlt hge⟩

/-- The rewinding branch of `Acknowledge`. -/
theorem line_rewindTo (hadm : t.claimAdmitted = false) (n : Nat) (nowMS : UInt64) :
    ((t.acceptAcknowledgement nowMS).rewindTo n).line = t.line.rewind b n ∧
      ((t.acceptAcknowledgement nowMS).rewindTo n).Over b := by
  have htotal : b.total = t.metadata.data.length := h.total.symm
  obtain ⟨admitted, admittedAt, token, record, hdrop, hkeep⟩ := dropClaim_spec
    { t.acceptAcknowledgement nowMS with offset := n, sentEnd := n }
  unfold rewindTo Line.rewind
  rw [htotal, hdrop, hkeep hadm]
  refine ⟨?_, h.sequence, h.data, h.valid⟩
  rw [show t.line = ⟨t.currentPost, t.faulted, t.ackDeadlineArmed, false,
    t.line.claim, t.line.retry⟩ from by rw [← hadm]; rfl]
  rfl

/-- The other branch of `Acknowledge`. -/
theorem line_advanceTo (n : Nat) (nowMS : UInt64) :
    ((t.acceptAcknowledgement nowMS).advanceTo n).line = t.line.advance b n := by
  have htotal : b.total = t.metadata.data.length := h.total.symm
  have hmap (kept : Bool) (f : PacketRecord → PacketRecord) (r : PacketRecord) :
      (if kept then some r else none).map f =
        if kept then some (if kept then f r else r) else none := by
    cases kept <;> rfl
  simp only [line, Line.advance, htotal, hmap]
  rfl

/-- `Acknowledge`: refused, or accepted with or without a rewind. -/
theorem refines_acknowledge (ack : Acknowledgement) (nowMS : UInt64) :
    Refines b t (label (event step t (.acknowledge ack nowMS))) (t.acknowledge ack nowMS).1 := by
  simp only [event, step, acknowledge]
  rcases observe_cases h nowMS with ⟨t', err, hobs, href⟩ | ⟨halive, hclock, hobs⟩
  · rw [hobs]
    exact href
  · rw [hobs]
    dsimp only
    cases hok : (t.seen nowMS).validateAcknowledgement ack with
    | error err => exact ⟨h.seen nowMS, .quiet⟩
    | ok d =>
      obtain ⟨hacc, hrewind⟩ :=
        validateAcknowledgement_accepts (h.seen nowMS) halive hok
      dsimp only
      split
      next hd =>
        obtain ⟨hline, hover⟩ := line_rewindTo (h.seen nowMS) hacc.free
          ack.contiguousPayloadBytes nowMS
        refine ⟨hover, ?_⟩
        rw [hline]
        exact Move.rewind (b := b) (l := t.line) _ hacc (hrewind.1 hd)
      next hd =>
        refine ⟨⟨h.sequence, h.data, h.valid⟩, ?_⟩
        have hge : t.line.post.offset ≤ ack.contiguousPayloadBytes :=
          Nat.not_lt.1 fun hlt => hd (hrewind.2 hlt)
        have hm := Move.advance (b := b) (l := t.line) _ hacc hge
        have hline := line_advanceTo (h.seen nowMS) ack.contiguousPayloadBytes nowMS
        rw [hline]
        exact hm

end MetadataTransfer

/-- **Every call is a move.** -/
theorem step_refines {t : MetadataTransfer} (h : t.Over b) (hs : Sound b t.line)
    (op : Op) : Refines b t (label (event step t op)) (step t op).1 := by
  cases op with
  | claim nowMS => exact refines_claim h hs nowMS
  | claimRetry nowMS => exact refines_claimRetry h nowMS
  | admitAndCopy c dst nowMS => exact refines_admitAndCopy h hs c dst nowMS
  | resolve c outcome completedMS => exact refines_resolve h c outcome completedMS
  | acknowledge ack nowMS => exact refines_acknowledge h ack nowMS
  | previewAcknowledgement ack nowMS => exact ⟨h, .quiet⟩
  | poll nowMS =>
    rcases observe_cases h nowMS with
      ⟨t', err, hobs, href⟩ | ⟨-, -, hobs⟩
    · simp only [label, event, step, hobs]
      exact href
    · simp only [label, event, step, hobs]
      exact ⟨h.seen nowMS, .quiet⟩

end Viiper.Ports.Metadata
