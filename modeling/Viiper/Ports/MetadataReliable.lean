import Viiper.Ports.MetadataDelivery

/-!
# Every run of the metadata transfer

The progress invariant and the history of the wire together give the account of
a run between two resets.  That the transfer never wedges is read off the
invariant alone: a transfer which is neither done nor faulted has a packet in
hand, or can take one up, or awaits an acknowledgement under an armed deadline.
-/

namespace Viiper.Ports.Metadata

open Verified Go Run MetadataTransfer

variable {b : Block} {t : MetadataTransfer} {evs : List (Event MetadataTransfer Op Answer)}

/-- The claim handed out last, after this answer. -/
def Answer.handed (handed : Option PacketClaim) : Answer → Option PacketClaim
  | .claim (.ok c) => some c
  | _ => handed

/-- The claim handed out last in a run. -/
def handedOut (evs : List (Event MetadataTransfer Op Answer)) : Option PacketClaim :=
  evs.foldl (fun handed e => e.out.handed handed) none

theorem handedOut_snoc (e : Event MetadataTransfer Op Answer) :
    handedOut (evs ++ [e]) = e.out.handed (handedOut evs) := by
  rw [handedOut, List.foldl_append]
  rfl

namespace MetadataTransfer

/-- The packet in hand can be admitted, and resolved, by this claim. -/
def Resolvable (t : MetadataTransfer) (c : PacketClaim) : Prop :=
  (t.claimAdmitted = false → ∀ dst nowMS, t.lastNowMS ≤ nowMS →
      t.claimRecord.size ≤ dst.length → ∃ a, (t.admitAndCopy c dst nowMS).2 = .ok a) ∧
    (∀ completedMS, (t.resolve c metadataPacketDeferred completedMS).2 = .ok ()) ∧
    (t.claimAdmitted →
      ∀ completedMS, (t.resolve c metadataPacketDelivered completedMS).2 = .ok ())

/-- An acknowledgement is awaited: before the deadline the full progress can be
acknowledged, and from the deadline on the transfer faults. -/
def Awaiting (t : MetadataTransfer) : Prop :=
  t.ackDeadlineArmed ∧ ∀ nowMS, t.lastNowMS ≤ nowMS →
    (nowMS < t.ackDeadlineMS → ∃ ack d, ack.contiguousPayloadBytes = t.sentEnd ∧
      (t.acknowledge ack nowMS).2 = .ok d) ∧
    (t.ackDeadlineMS ≤ nowMS → (t.observeAndCheckTimeout nowMS).1.faulted)

/-- What keeps a transfer moving, if this claim was handed out last. -/
inductive Live (handed : Option PacketClaim) (t : MetadataTransfer) : Prop
  | inHand {c : PacketClaim} :
      t.hasClaim → handed = some c → t.Resolvable c → Live handed t
  | retained : (∀ nowMS, t.lastNowMS ≤ nowMS → ∃ c, (t.claimRetry nowMS).2 = .ok c) →
      Live handed t
  | selectable : (∀ nowMS, t.lastNowMS ≤ nowMS → ∃ c, (t.claim nowMS).2 = .ok c) → Live handed t
  | awaiting : t.Awaiting → Live handed t

/-- A packet in hand is that of the claim handed out last. -/
def Bears (handed : Option PacketClaim) (t : MetadataTransfer) : Prop :=
  t.hasClaim → ∃ c, handed = some c ∧ t.claimValid c

/-- Reading the clock keeps the packet in hand. -/
theorem observe_claim (t : MetadataTransfer) (nowMS : UInt64) :
    (t.observeAndCheckTimeout nowMS).1.hasClaim = t.hasClaim ∧
      (t.observeAndCheckTimeout nowMS).1.claimValid = t.claimValid := by
  unfold observeAndCheckTimeout checkTimeout
  split
  · exact ⟨rfl, rfl⟩
  split
  · exact ⟨rfl, rfl⟩
  split
  · exact ⟨rfl, rfl⟩
  · split <;> exact ⟨rfl, rfl⟩

theorem claimFromRecord_valid (t : MetadataTransfer) (record : PacketRecord) :
    (t.claimFromRecord record).1.claimValid (t.claimFromRecord record).2 := by
  simp [claimValid, claimFromRecord, bump_ne_zero]

/-- Admission keeps what a claim says of its packet. -/
theorem claimValid_admitted {c : PacketClaim} (hvalid : t.claimValid c) (nowMS : UInt64) :
    claimValid { t with
      claimRecord := t.upgradeACK nowMS
      claimAdmitted := true
      claimAdmittedAtMS := nowMS } c := by
  have hframe : (t.upgradeACK nowMS).kind = t.claimRecord.kind ∧
      (t.upgradeACK nowMS).size = t.claimRecord.size ∧
      (t.upgradeACK nowMS).selectedAtMS = t.claimRecord.selectedAtMS := by
    unfold upgradeACK
    split <;> exact ⟨rfl, rfl, rfl⟩
  simp only [claimValid, hframe, Bool.and_eq_true, Bool.true_or] at hvalid ⊢
  obtain ⟨⟨hfields, -⟩, hselected⟩ := hvalid
  exact ⟨⟨hfields, trivial⟩, hselected⟩

variable {handed : Option PacketClaim} (h : t.Bears handed)

include h

theorem Bears.observe (nowMS : UInt64) : (t.observeAndCheckTimeout nowMS).1.Bears handed := by
  obtain ⟨hhas, hvalid⟩ := observe_claim t nowMS
  rw [Bears, hhas, hvalid]
  exact h

theorem Bears.claim (nowMS : UInt64) :
    (t.claim nowMS).1.Bears ((Answer.claim (t.claim nowMS).2).handed handed) := by
  have hobs := h.observe nowMS
  unfold MetadataTransfer.claim
  generalize t.observeAndCheckTimeout nowMS = res at hobs
  rcases res with ⟨t', err | _⟩
  · exact hobs
  dsimp only
  split
  · exact hobs
  split
  · exact hobs
  split
  · exact hobs
  split
  · exact hobs
  cases t'.selectPacket nowMS with
  | error err => exact hobs
  | ok r => exact fun _ => ⟨_, rfl, claimFromRecord_valid t' r⟩

theorem Bears.claimRetry (nowMS : UInt64) :
    (t.claimRetry nowMS).1.Bears ((Answer.claim (t.claimRetry nowMS).2).handed handed) := by
  have hobs := h.observe nowMS
  unfold MetadataTransfer.claimRetry
  generalize t.observeAndCheckTimeout nowMS = res at hobs
  rcases res with ⟨t', err | _⟩
  · exact hobs
  dsimp only
  split
  · exact hobs
  split
  · exact hobs
  · exact fun _ => ⟨_, rfl, claimFromRecord_valid t' t'.retryRecord⟩

theorem Bears.admitAndCopy (c : PacketClaim) (dst : Bytes)
    (nowMS : UInt64) : (t.admitAndCopy c dst nowMS).1.Bears handed := by
  have hobs := h.observe nowMS
  unfold MetadataTransfer.admitAndCopy
  generalize t.observeAndCheckTimeout nowMS = res at hobs
  split
  · exact h
  split
  · exact h
  split
  · exact h
  rcases res with ⟨t', err | _⟩
  · exact hobs
  · intro hhas
    obtain ⟨c, hheld, hvalid⟩ := hobs hhas
    exact ⟨c, hheld, claimValid_admitted hvalid nowMS⟩

theorem Bears.resolve (c : PacketClaim) (outcome : UInt8)
    (completedMS : UInt64) : (t.resolve c outcome completedMS).1.Bears handed := by
  have hclear : ∀ t' : MetadataTransfer, t'.clearClaim.Bears handed :=
    fun _ hc => absurd hc (by simp [clearClaim])
  unfold MetadataTransfer.resolve
  split
  · exact h
  split
  · exact h
  split
  · exact h
  dsimp only
  split
  · exact hclear _
  · exact hclear _

theorem Bears.acknowledge (ack : Acknowledgement) (nowMS : UInt64) :
    (t.acknowledge ack nowMS).1.Bears handed := by
  have hobs := h.observe nowMS
  unfold MetadataTransfer.acknowledge
  generalize t.observeAndCheckTimeout nowMS = res at hobs
  rcases res with ⟨t', err | _⟩
  · exact hobs
  dsimp only
  cases t'.validateAcknowledgement ack with
  | error err => exact hobs
  | ok d =>
    dsimp only
    split
    · obtain ⟨_, _, _, _, hdrop, -⟩ := dropClaim_spec
        { t'.acceptAcknowledgement nowMS with
          offset := ack.contiguousPayloadBytes
          sentEnd := ack.contiguousPayloadBytes }
      unfold rewindTo
      rw [hdrop]
      intro hc
      cases hc
    · intro hhas
      have hclaim : t'.hasClaim := hhas
      obtain ⟨c, hheld, hvalid⟩ := hobs hclaim
      refine ⟨c, hheld, ?_⟩
      -- of the packet's record only the progress changes
      simpa [claimValid, advanceTo, acceptAcknowledgement, PacketRecord.acknowledged, hclaim]
        using hvalid

end MetadataTransfer

theorem bears_step {handed : Option PacketClaim} (h : t.Bears handed) (op : Op) :
    (step t op).1.Bears ((step t op).2.handed handed) := by
  cases op with
  | claim nowMS => exact h.claim nowMS
  | claimRetry nowMS => exact h.claimRetry nowMS
  | admitAndCopy c dst nowMS => exact h.admitAndCopy c dst nowMS
  | resolve c outcome completedMS => exact h.resolve c outcome completedMS
  | acknowledge ack nowMS => exact h.acknowledge ack nowMS
  | previewAcknowledgement ack nowMS => exact h
  | poll nowMS => exact h.observe nowMS

/-! ## No wedge -/

namespace MetadataTransfer

variable (h : t.Over b)

include h

/-- The clock check passes before an armed deadline. -/
theorem observe_ok {nowMS : UInt64} (hclock : t.lastNowMS ≤ nowMS)
    (halive : t.faulted = false) (hearly : ¬(t.ackDeadlineArmed ∧ t.ackDeadlineMS ≤ nowMS)) :
    t.observeAndCheckTimeout nowMS = (t.seen nowMS, .ok ()) := by
  rw [observe_eq h hclock]
  unfold checkTimeout
  rw [if_neg (show ¬((t.seen nowMS).faulted) from Bool.eq_false_iff.1 halive),
    if_neg (show ¬((t.seen nowMS).ackDeadlineArmed ∧
      (t.seen nowMS).ackDeadlineMS ≤ nowMS) from hearly)]

/-- From an armed deadline on the transfer faults. -/
theorem observe_late {nowMS : UInt64} (hclock : t.lastNowMS ≤ nowMS)
    (harmed : t.ackDeadlineArmed) (hlate : t.ackDeadlineMS ≤ nowMS) :
    (t.observeAndCheckTimeout nowMS).1.faulted := by
  rw [observe_eq h hclock]
  unfold checkTimeout
  split
  · assumption
  · rw [if_pos (show (t.seen nowMS).ackDeadlineArmed ∧
      (t.seen nowMS).ackDeadlineMS ≤ nowMS from ⟨harmed, hlate⟩)]

theorem resolvable (halive : t.faulted = false) (hquiet : t.ackDeadlineArmed = false)
    {c : PacketClaim} (hvalid : t.claimValid c) : t.Resolvable c := by
  have hvalid : ¬((!t.claimValid c)) := by
    rw [hvalid]
    decide
  refine ⟨fun hfree dst nowMS hclock hroom => ?_, fun completedMS => ?_,
    fun hadm completedMS => ?_⟩
  · have hobs := observe_ok h hclock halive (fun hlate => Bool.eq_false_iff.1 hquiet hlate.1)
    unfold admitAndCopy
    rw [if_neg hvalid, if_neg (Bool.eq_false_iff.1 hfree), if_neg (Nat.not_lt.2 hroom), hobs]
    exact ⟨_, rfl⟩
  · unfold resolve
    rw [if_neg hvalid, if_neg (by decide), if_neg (by simp [metadataPacketDeferred,
      metadataPacketDelivered])]
    rw [if_pos (by decide)]
  · unfold resolve
    rw [if_neg hvalid, if_neg (by decide), if_neg (by simp [hadm])]
    rw [if_neg (by decide)]

theorem awaiting (hs : Sound b t.line) (halive : t.faulted = false)
    (harmed : t.ackDeadlineArmed) : t.Awaiting := by
  obtain ⟨hclaim, -, hdone⟩ := hs.armed_idle harmed
  obtain ⟨hlong, hpos⟩ := hs.armed_sent harmed
  have hack : t.acknowledgedEnd ≤ t.offset := hs.acknowledged_le
  have hsent : t.sentEnd = t.offset := hs.sent_eq
  have hle : t.offset ≤ b.total := hs.offset_le
  have hpos : 0 < t.offset := hpos
  have hadm : ¬((t.seen 0).claimAdmitted) := fun hadm => hs.admitted_claim hadm hclaim
  refine ⟨harmed, fun nowMS hclock => ⟨fun hearly => ?_, observe_late h hclock harmed⟩⟩
  let ack : Acknowledgement :=
    ⟨t.generation, t.transferEpoch, messageNumberMetadataRequest, t.sequence, t.sentEnd, 0⟩
  have hobs := observe_ok h hclock halive (fun hlate => absurd hearly (UInt64.not_lt.2 hlate.2))
  have hval : ∃ d, (t.seen nowMS).validateAcknowledgement ack = .ok d ∧ d ≠ .rewind := by
    unfold validateAcknowledgement
    split
    · contradiction
    split
    next hrefuse =>
      have htotal : (t.seen nowMS).total = b.total := h.total
      have hdone : t.done = false := hdone
      rw [htotal] at hrefuse
      simp only [seen, ack, ne_eq, not_true_eq_false, false_or, hdone,
        Bool.false_eq_true] at hrefuse
      omega
    rw [if_neg (show ¬(ack.contiguousPayloadBytes < (t.seen nowMS).offset)
      from Nat.not_lt.2 (Nat.le_of_eq hsent.symm))]
    split
    · exact ⟨_, rfl, by simp⟩
    · exact ⟨_, rfl, by simp⟩
  obtain ⟨d, hd, hne⟩ := hval
  refine ⟨ack, d, rfl, ?_⟩
  unfold acknowledge
  rw [hobs]
  dsimp only
  rw [hd]
  dsimp only
  rw [if_neg hne]

/-- A transfer with nothing in hand, nothing retained and nothing awaited can
select its next packet. -/
theorem selectPacket_ok (hs : Sound b t.line) (halive : t.faulted = false)
    (hdone : t.done = false) (hquiet : t.ackDeadlineArmed = false) (nowMS : UInt64) :
    ∃ r, t.selectPacket nowMS = .ok r := by
  unfold selectPacket
  rw [h.total, h.data, h.sequence]
  by_cases hshort : b.total ≤ 60
  · rw [if_pos hshort]
    obtain ⟨r, hr, -⟩ := selectSingle_ok b t.currentPost nowMS hshort
    exact ⟨r, hr⟩
  · rw [if_neg hshort]
    by_cases hend : t.offset = b.total
    · rw [if_pos hend]
      have hfinal : t.finalAcknowledged := by
        rcases hs.waiting (by omega) hend hdone with hf | ha | hf
        · exact hf
        · exact absurd ha (Bool.eq_false_iff.1 hquiet)
        · exact absurd hf (Bool.eq_false_iff.1 halive)
      rw [if_neg (by simp [hfinal])]
      exact ⟨_, rfl⟩
    · rw [if_neg hend]
      exact ⟨_, rfl⟩

end MetadataTransfer

/-- **A sound transfer is done, faulted or live.** -/
theorem Sound.live {handed : Option PacketClaim} (hs : Sound b t.line) (h : t.Over b)
    (hbears : t.Bears handed) (hdone : t.done = false) (halive : t.faulted = false) :
    t.Live handed := by
  by_cases hclaim : t.hasClaim
  · have hquiet : t.ackDeadlineArmed = false := by
      refine Bool.eq_false_iff.2 fun harmed => ?_
      have hidle := (hs.armed_idle harmed).1
      simp [line, hclaim] at hidle
    obtain ⟨c, hhanded, hvalid⟩ := hbears hclaim
    exact .inHand hclaim hhanded (resolvable h halive hquiet hvalid)
  by_cases harmed : t.ackDeadlineArmed
  · exact .awaiting (awaiting h hs halive harmed)
  have hearly : ∀ nowMS, ¬(t.ackDeadlineArmed ∧ t.ackDeadlineMS ≤ nowMS) :=
    fun _ hlate => harmed hlate.1
  by_cases hretry : t.retryPending
  · refine .retained fun nowMS hclock => ?_
    unfold claimRetry
    rw [observe_ok h hclock halive (hearly nowMS)]
    dsimp only
    rw [if_neg (show ¬((t.seen nowMS).hasClaim) from hclaim),
      if_neg (show ¬((!(t.seen nowMS).retryPending)) by
        simp [seen, hretry])]
    exact ⟨_, rfl⟩
  · refine .selectable fun nowMS hclock => ?_
    obtain ⟨r, hr⟩ := selectPacket_ok (h.seen nowMS) hs halive hdone
      (Bool.eq_false_iff.2 harmed) nowMS
    unfold claim
    rw [observe_ok h hclock halive (hearly nowMS)]
    dsimp only
    rw [if_neg (show ¬((t.seen nowMS).hasClaim) from hclaim),
      if_neg (show ¬((t.seen nowMS).retryPending) from hretry),
      if_neg (show ¬((t.seen nowMS).done) from Bool.eq_false_iff.1 hdone),
      if_neg (show ¬((t.seen nowMS).ackDeadlineArmed) from harmed), hr]
    exact ⟨_, rfl⟩

/-! ## Runs -/

/-- The states a transfer epoch starts from: a new transfer, or a successful
reset after any run of the epoch before. -/
inductive Started : MetadataTransfer → Prop
  | new {p : Profile} {address : Nat} {metadata : BoundCompiledMetadata}
      {sequence : UInt8} {generation transferEpoch nowMS : UInt64}
      {t : MetadataTransfer} :
      p.newMetadataTransfer address metadata sequence generation transferEpoch nowMS =
        .ok t → Started t
  | reset {t₀ t : MetadataTransfer} (ops : List Op) {sequence : UInt8}
      {generation transferEpoch nowMS : UInt64} :
      Started t₀ →
      (final step t₀ ops).reset sequence generation transferEpoch nowMS = (t, .ok ()) → Started t

/-- What the invariants say of a run over a block. -/
structure Good (b : Block) (evs : List (Event MetadataTransfer Op Answer))
    (t : MetadataTransfer) : Prop where
  body : t.Over b
  sound : Sound b t.line
  tracked : Tracked b evs t.line
  bears : t.Bears (handedOut evs)

theorem Good.step (h : Good b evs t) (op : Op) :
    Good b (evs ++ [event step t op]) (Metadata.step t op).1 := by
  have href := step_refines h.body h.sound op
  refine ⟨href.body, h.sound.move href.move, h.tracked.move h.sound rfl href.move, ?_⟩
  rw [handedOut_snoc]
  exact bears_step h.bears op

theorem Good.run (h : Good b [] t) (ops : List Op) :
    Good b (trace Metadata.step t ops) (final Metadata.step t ops) :=
  history_run h (fun _ _ op hg => hg.step op) ops

/-- Acknowledged progress along a run. -/
theorem Good.acknowledged_mono (h : Good b evs t) (ops : List Op) :
    t.acknowledgedEnd ≤ (final Metadata.step t ops).acknowledgedEnd := by
  induction ops generalizing evs t with
  | nil => exact Nat.le_refl _
  | cons op ops ih =>
    have href := step_refines h.body h.sound op
    have hone : t.acknowledgedEnd ≤ (Metadata.step t op).1.acknowledgedEnd :=
      href.move.acknowledged_mono h.sound
    exact Nat.le_trans hone (ih (h.step op))

theorem good_begin (b : Block) (address : Nat) {metadata : BoundCompiledMetadata}
    (hdata : metadata.data = b.data) (generation transferEpoch nowMS nextToken : UInt64) :
    Good b [] (begin address metadata b.sequence generation transferEpoch nowMS nextToken) where
  body := ⟨rfl, hdata, rfl⟩
  sound := Sound.start b
  tracked := Tracked.start b _ rfl rfl rfl
  bears := fun hc => by cases hc

/-- Every epoch starts over a block of admitted length. -/
theorem Started.good (h : Started t) :
    ∃ b : Block, b.data = t.metadata.data ∧ b.sequence = t.sequence ∧ Good b [] t := by
  induction h with
  | @new p address metadata sequence generation transferEpoch nowMS t hnew =>
    simp only [Profile.newMetadataTransfer, ite_eq_iff, reduceCtorEq, and_false, false_or] at hnew
    obtain ⟨-, hmeta, -, hseq, -, -, hnew⟩ := hnew
    cases hnew
    simp only [not_or, Nat.not_lt] at hmeta
    exact ⟨⟨sequence, metadata.data, hseq, Nat.pos_of_ne_zero hmeta.2.2.1, hmeta.2.2.2⟩, rfl, rfl,
      good_begin _ address rfl generation transferEpoch nowMS 0⟩
  | @reset t₀ t ops sequence generation transferEpoch nowMS _ hreset ih =>
    obtain ⟨b, -, -, hgood⟩ := ih
    have hover := (hgood.run ops).body
    unfold MetadataTransfer.reset at hreset
    split at hreset
    · cases hreset
    split at hreset
    · cases hreset
    simp only [ite_eq_iff, Prod.mk.injEq, reduceCtorEq, and_false, false_or] at hreset
    obtain ⟨hseq, -, -, rfl, -⟩ := hreset
    let b' : Block := ⟨sequence, b.data, hseq, b.length_pos, b.length_le⟩
    exact ⟨b', hover.data.symm, rfl, good_begin b' _ hover.data generation transferEpoch nowMS _⟩

/-- **Metadata transfer is complete and never wedges.**  Along every run between
two resets the progress is ordered and acknowledged progress never decreases;
every packet on the wire is the one its header says, selected at the offset it
carries; a transfer of several fragments is done only when a Complete packet was
delivered after the host acknowledged the whole block, and the host then holds
exactly the block; and a transfer neither done nor faulted is live. -/
theorem metadata_transfer_reliable {t₀ : MetadataTransfer} (h : Started t₀) (ops : List Op) :
    ∃ b : Block, b.data = t₀.metadata.data ∧ b.sequence = t₀.sequence ∧
      (let evs := trace step t₀ ops
       let t := final step t₀ ops
       (t.acknowledgedEnd ≤ t.offset ∧ t.offset = t.sentEnd ∧ t.sentEnd ≤ t.total) ∧
       (∀ more, t.acknowledgedEnd ≤ (final step t more).acknowledgedEnd) ∧
       (∀ packet ∈ (wire evs).packets, Sent b packet.1 packet.2) ∧
       (60 < b.total → t.done →
         Completed b evs ∧ ∀ i, hostMemory (wire evs).packets i = b.data[i]?) ∧
       (t.done = false → t.faulted = false → t.Live (handedOut evs))) := by
  obtain ⟨b, hdata, hseq, hgood⟩ := h.good
  have hrun := hgood.run ops
  refine ⟨b, hdata, hseq, ⟨hrun.sound.acknowledged_le, hrun.sound.sent_eq.symm, ?_⟩,
    hrun.acknowledged_mono, hrun.tracked.sent, fun hlong hdone => ?_,
    fun hdone halive => hrun.sound.live hrun.body hrun.bears hdone halive⟩
  · have hle : (final step t₀ ops).offset ≤ b.total := hrun.sound.offset_le
    have hsent : (final step t₀ ops).sentEnd = (final step t₀ ops).offset :=
      hrun.sound.sent_eq
    rw [hsent, hrun.body.total]
    exact hle
  · obtain ⟨-, -, -, hend⟩ := hrun.sound.done_idle hdone
    exact ⟨hrun.tracked.done hlong hdone, (hend ▸ hrun.tracked.holds).all⟩

/-! A block of a hundred bytes.  The host loses part of the first fragment and
acknowledges thirty bytes only, so the transfer rewinds. -/

def hundredBytes : BoundCompiledMetadata :=
  { identity := 7
    profileIssuance := 9
    issuance := some 1
    data := (List.range 100).map UInt8.ofNat
    valid := true }

def hundredStart : MetadataTransfer := begin 3 hundredBytes 1 1 1 0 0

/-- Claim a packet, copy it out and deliver it. -/
def hundredSend (token : UInt64) (kind : MetadataPacketKind) (size : Nat) (ack : Bool) : List Op :=
  let c : PacketClaim := ⟨some 3, token, 1, 1, messageNumberMetadataRequest, 1, kind, size, ack, 1⟩
  [.claim 1, .admitAndCopy c (List.replicate 64 0) 1, .resolve c metadataPacketDelivered 1]

def hundredAck (bytes : Nat) : Op :=
  .acknowledge ⟨1, 1, messageNumberMetadataRequest, 1, bytes, 0⟩ 1

def hundredRun : List Op :=
  hundredSend 1 .initialFragment 64 true ++ [hundredAck 30] ++
    hundredSend 2 .middleFragment 64 false ++ hundredSend 3 .finalFragment 18 true ++
    [hundredAck 100] ++ hundredSend 4 .complete 6 false

theorem hundredStart_started : Started hundredStart :=
  @Started.new ⟨true, 7, 9⟩ 3 hundredBytes 1 1 1 0 _ (by decide +kernel)

theorem hundredRun_reliable :
    Started hundredStart ∧ (final step hundredStart hundredRun).done ∧
      ∀ i, hostMemory (wire (trace step hundredStart hundredRun)).packets i =
        hundredBytes.data[i]? := by
  have hdone : (final step hundredStart hundredRun).done := by decide +kernel
  obtain ⟨b, hdata, -, -, -, -, hfull, -⟩ :=
    metadata_transfer_reliable hundredStart_started hundredRun
  have hlong : 60 < b.total := by
    change 60 < b.data.length
    rw [hdata]
    decide
  refine ⟨hundredStart_started, hdone, fun i => ?_⟩
  rw [(hfull hlong hdone).2 i, hdata]
  rfl

end Viiper.Ports.Metadata
