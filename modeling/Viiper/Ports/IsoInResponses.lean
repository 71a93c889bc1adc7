import Viiper.Ports.EndpointOwnership
import Viiper.Ports.IsoIn

/-!
# Every isochronous IN response is self-consistent

A response tells its payload length twice, in its header and in the sum of its
descriptors, and the host cuts the payload at the lengths of the descriptors.
The responses of the worker agree: the invariant `Filled` follows the sampling
loop packet by packet.  So do the responses which the command reader writes on
the spot, as long as it writes the descriptors itself; when the queue refuses a
submission it sends back the descriptors of the host.
-/

namespace Viiper.Ports.Endpoint

open Verified Go Run Framing Function UInt32 IsoIn EndpointWorker
open List hiding splitBy

variable {c : Config} {w : EndpointWorker} {sampler : Sampler} {packets : List IsoPacketDescriptor}
  {k : Nat} {interval : Duration}

/-! ## The host's reading -/

/-- The header gives back its fields. -/
theorem read_retSubmitHeader (seq : UInt32) (status : Int32) (actualLen count : UInt32)
    (rest : Bytes) :
    let wire := retSubmitHeader seq status actualLen count ++ rest
    readBE32 (wire.drop 4) = seq ∧ readBE32 (wire.drop 20) = status.toUInt32 ∧
      readBE32 (wire.drop 24) = actualLen ∧ readBE32 (wire.drop 32) = count :=
  -- all parts have fixed lengths, so each field is found by computation
  ⟨readBE32_be32 seq _, readBE32_be32 status.toUInt32 _, readBE32_be32 actualLen _,
    readBE32_be32 count _⟩

def carried (isIso : Bool) (packets : List IsoPacketDescriptor) : List IsoPacketDescriptor :=
  if isIso then packets else []

theorem readRetSubmit_build (seq : UInt32) (status : Int32) (actualLen : UInt32) (respData : Bytes)
    (hcount : packets.length ≤ maxIsoPackets) (isIso : Bool) :
    readRetSubmit (buildRetSubmitPacket seq status actualLen respData packets isIso) =
      ⟨seq, status, actualLen, respData, carried isIso packets⟩ := by
  have hbytes : buildRetSubmitPacket seq status actualLen respData packets isIso =
      retSubmitHeader seq status actualLen (if isIso then ofNat packets.length else 0 - 1) ++
        (respData ++ (carried isIso packets).flatMap IsoPacketDescriptor.encode) := by
    unfold buildRetSubmitPacket carried
    cases isIso <;> simp [append_assoc]
  have hlength := length_flatMap_records IsoPacketDescriptor.length_encode (carried isIso packets)
  have hrecords := readRecords_flatMap IsoPacketDescriptor.length_encode
    IsoPacketDescriptor.decode_encode (carried isIso packets) []
  rw [append_nil] at hrecords
  rw [hbytes]
  generalize (carried isIso packets).flatMap IsoPacketDescriptor.encode = tail at hlength hrecords ⊢
  generalize hword : (if isIso then ofNat packets.length else 0 - 1 : UInt32) = word
  obtain ⟨hseq, hstatus, hactual, hword'⟩ :=
    read_retSubmitHeader seq status actualLen word (respData ++ tail)
  have hbody : (retSubmitHeader seq status actualLen word ++ (respData ++ tail)).drop
      retSubmitHeaderSize = respData ++ tail :=
    drop_left' rfl
  have hn : descriptorCount (retSubmitHeader seq status actualLen word ++ (respData ++ tail)) =
      (carried isIso packets).length := by
    unfold descriptorCount
    rw [hword', ← hword]
    cases isIso with
    | false => rfl
    | true =>
      have hsmall : packets.length ≤ 1024 := hcount
      have hnat : (ofNat packets.length).toNat = packets.length := by
        exact Nat.mod_eq_of_lt (by omega)
      have hne : ofNat packets.length ≠ 0 - 1 := by
        intro heq
        rw [heq] at hnat
        have hlast : (0 - 1 : UInt32).toNat = 4294967295 := rfl
        omega
      simp only [if_true, if_neg hne]
      exact hnat
  have hsize : (respData ++ tail).length - (carried isIso packets).length *
      isoPacketDescriptorSize = respData.length := by
    rw [length_append, hlength]
    omega
  unfold readRetSubmit
  simp only [hn, hbody, hsize, hseq, hstatus, hactual, take_left, drop_left, hrecords]
  rfl

/-- A response without payload is consistent when its descriptors say so. -/
theorem consistent_empty (seq : UInt32) (status : Int32)
    (hzero : ∀ p ∈ packets, p.actualLength = 0) :
    (RetSubmit.mk seq status 0 [] packets).Consistent (packets.map fun _ => []) where
  actual := rfl
  total := by
    have hall : packets.map (fun p => p.actualLength.toNat) = packets.map fun _ => 0 :=
      map_congr_left fun p hp => by rw [hzero p hp]; rfl
    rw [hall]
    simp
  bounded := by
    intro p hp
    rw [hzero p hp]
    exact UInt32.zero_le
  split := by
    induction packets with
    | nil => rfl
    | cons p packets ih =>
      rw [map_cons, splitBy, take_nil, drop_nil,
        ih fun q hq => hzero q (mem_cons_of_mem _ hq), map_cons]

/-! ## The sampling loop -/

/-- The bytes counted lie in the destination. -/
theorem readDevice_spec (destination : Bytes) (read : DeviceRead) :
    (readDevice destination read).1.length = destination.length ∧
      (readDevice destination read).2 ≤ destination.length := by
  have hover : ∀ written : Bytes, (overwrite destination written).length = destination.length := by
    simp only [overwrite, length_append, length_take, length_drop]
    omega
  cases read with
  | fast written n ok =>
    have hmin : min n.toNat destination.length ≤ destination.length := Nat.min_le_right _ _
    dsimp only [readDevice]
    split
    · exact ⟨hover written, hmin⟩
    split
    · simp only [length_append, length_replicate, length_drop, hover]
      omega
    · simp only [length_append, length_replicate, length_drop, hover]
      omega
  | transfer packetData =>
    dsimp only [readDevice]
    split
    · simp
    simp only [length_append, length_take, length_drop]
    omega

/-- Bytes asked for by a list of descriptors. -/
def requested (packets : List IsoPacketDescriptor) : Nat :=
  (packets.map fun p => p.length.toNat).sum

/-- The sampler after the first `k` packets. -/
structure Filled (s : Sampler) (packets : List IsoPacketDescriptor) (k : Nat) : Prop where
  fits : s.size ≤ s.media.length
  small : s.size < 2 ^ 32
  room : s.used + requested (packets.drop k) ≤ s.size
  count : s.sampled.length = k
  media : s.media.take s.used = s.sampled.flatten
  lengths : ∀ i < packets.length, s.actualLengths i = UInt32.ofNat ((s.sampled[i]?).getD []).length
  bounded : ∀ (i : Nat) (p : IsoPacketDescriptor), packets[i]? = some p →
    ((s.sampled[i]?).getD []).length ≤ p.length.toNat

namespace Filled

variable {s : Sampler}

theorem used_eq (h : Filled s packets k) : s.used = s.sampled.flatten.length := by
  have hroom := h.room
  have hfits := h.fits
  rw [← h.media, length_take]
  omega

theorem start (s : Sampler) (job : EndpointJob) (hjob : requested job.packets ≤ job.xferLen.toNat) :
    Filled (s.start job) job.packets 0 where
  fits := by
    show job.xferLen.toNat ≤ (if s.media.length < job.xferLen.toNat then
      replicate job.xferLen.toNat 0 else s.media).length
    split
    · simp
    · omega
  small := job.xferLen.toNat_lt
  room := by
    show 0 + requested (job.packets.drop 0) ≤ job.xferLen.toNat
    rw [drop_zero, Nat.zero_add]
    exact hjob
  count := rfl
  media := rfl
  lengths := fun i hi => if_pos hi
  bounded := fun i p _ => Nat.zero_le _

variable {p : IsoPacketDescriptor}

theorem room_eq (h : Filled s packets k)
    (hp : packets[k]? = some p) : s.used + p.length.toNat ≤ s.size ∧
      s.room p.length.toNat = p.length.toNat := by
  obtain ⟨hk, rfl⟩ := List.getElem?_eq_some_iff.1 hp
  have hroom := h.room
  rw [drop_eq_getElem_cons hk, requested, map_cons, sum_cons] at hroom
  refine ⟨by omega, ?_⟩
  unfold Sampler.room
  rw [if_neg (by omega)]

/-- The loop does not break. -/
theorem not_full (h : Filled s packets k)
    (hp : packets[k]? = some p) : s.full p.length.toNat = false := by
  unfold Sampler.full
  rw [(h.room_eq hp).2, Bool.and_eq_false_iff]
  by_cases hz : p.length.toNat = 0
  · exact .inl (by simp [hz])
  · exact .inr (by simp [hz])

/-- The samples of all packets after one more. -/
theorem sampled_snoc (h : Filled s packets k) (piece : Bytes) (i : Nat) :
    ((s.sampled ++ [piece])[i]?).getD [] = if i = k then piece else (s.sampled[i]?).getD [] := by
  rw [← h.count, getElem?_append]
  grind

theorem snoc {s' : Sampler} (h : Filled s packets k) (hp : packets[k]? = some p) (piece : Bytes)
    (hpiece : piece.length ≤ p.length.toNat) (hsize : s'.size = s.size)
    (hlen : s'.media.length = s.media.length) (hused : s'.used = s.used + piece.length)
    (hmedia : s'.media.take s'.used = s.media.take s.used ++ piece)
    (hlengths : ∀ i, s'.actualLengths i = if i = k then ofNat piece.length else s.actualLengths i)
    (hsampled : s'.sampled = s.sampled ++ [piece]) : Filled s' packets (k + 1) where
  fits := by rw [hsize, hlen]; exact h.fits
  small := by rw [hsize]; exact h.small
  room := by
    obtain ⟨hk, rfl⟩ := List.getElem?_eq_some_iff.1 hp
    have hroom := h.room
    rw [drop_eq_getElem_cons hk, requested, map_cons, sum_cons] at hroom
    change s.used + (_ + requested (packets.drop (k + 1))) ≤ s.size at hroom
    omega
  count := by rw [hsampled, length_append, h.count]; rfl
  media := by rw [hmedia, hsampled, h.media, flatten_append]; simp
  lengths := by
    intro i hi
    rw [hlengths i, hsampled, h.sampled_snoc, h.lengths i hi, apply_ite length,
      apply_ite ofNat]
  bounded := by
    intro i q hq
    rw [hsampled, h.sampled_snoc]
    split
    next hik =>
      obtain rfl := Option.mem_unique hp (hik ▸ hq)
      exact hpiece
    · exact h.bounded i q hq

theorem samplePacket (h : Filled s packets k) (hp : packets[k]? = some p) (read : DeviceRead) :
    Filled (s.samplePacket k p.length.toNat read) packets (k + 1) := by
  obtain ⟨hfit, hroom⟩ := h.room_eq hp
  have hfits := h.fits
  unfold Sampler.samplePacket
  split
  next hreads =>
    rw [hroom]
    dsimp only
    generalize hdest : (s.media.drop s.used).take p.length.toNat = destination
    have hlen : destination.length = p.length.toNat := by
      rw [← hdest, length_take, length_drop]
      omega
    obtain ⟨hr1, hr2⟩ := readDevice_spec destination read
    generalize readDevice destination read = r at hr1 hr2
    have hpiece : (r.1.take r.2).length = r.2 := by
      rw [length_take]
      omega
    have hhead : (s.media.take s.used).length = s.used := by
      rw [length_take]
      omega
    refine h.snoc hp (r.1.take r.2) (by omega) rfl ?_ ?_ ?_ ?_ rfl
    · simp only [length_append, length_take, length_drop]
      omega
    · show s.used + r.2 = s.used + (r.1.take r.2).length
      rw [hpiece]
    · show (s.media.take s.used ++ r.1 ++ s.media.drop (s.used + p.length.toNat)).take
        (s.used + r.2) = _
      rw [append_assoc, take_append, hhead,
        take_of_length_le (by omega), Nat.add_sub_cancel_left,
        take_append_of_le_length (by omega)]
    · intro i
      show update s.actualLengths k (ofNat r.2) i = _
      rw [hpiece]
      exact update_apply ..
  · refine h.snoc hp [] (Nat.zero_le _) rfl rfl rfl ?_ ?_ rfl
    · rw [append_nil]
    · intro i
      by_cases hik : i = k
      · obtain ⟨hk, -⟩ := List.getElem?_eq_some_iff.1 hp
        rw [if_pos hik, hik]
        rw [h.lengths k hk, getElem?_eq_none (by rw [h.count])]
        rfl
      · rw [if_neg hik]

theorem completed_length (h : Filled s packets packets.length) :
    (s.completedPackets packets).map (fun p => p.actualLength.toNat) =
      s.sampled.map length := by
  refine ext_getElem (by simp [Sampler.completedPackets, h.count]) fun i hi hi' => ?_
  have hip : i < packets.length := by simpa [Sampler.completedPackets] using hi
  have his : i < s.sampled.length := by simpa using hi'
  have hle := h.bounded i packets[i] (getElem?_eq_getElem hip)
  have hlen := h.lengths i hip
  rw [getElem?_eq_getElem his, Option.getD_some] at hle hlen
  have hlt : packets[i].length.toNat < 2 ^ 32 := toNat_lt _
  have hnat : (ofNat s.sampled[i].length).toNat = s.sampled[i].length := by
    exact Nat.mod_eq_of_lt (by omega)
  have hmin : min packets[i].length (ofNat s.sampled[i].length) = ofNat s.sampled[i].length :=
    UInt32.le_antisymm Std.min_le_right (Std.le_min_iff.2
      ⟨UInt32.le_iff_toNat_le.2 (by rw [hnat]; exact hle), UInt32.le_refl _⟩)
  simp only [Sampler.completedPackets, getElem_map, getElem_zipIdx, Nat.zero_add,
    hlen, hmin, hnat]

theorem consistent (h : Filled s packets packets.length) (hcount : packets.length ≤ maxIsoPackets) :
    (readRetSubmit (s.response packets)).Consistent s.sampled := by
  have hused := h.used_eq
  have hroom := h.room
  have hsmall := h.small
  have hclen : (s.completedPackets packets).length ≤ maxIsoPackets := by
    simpa [Sampler.completedPackets] using hcount
  have hpayload : (s.media.take s.size).take s.used = s.sampled.flatten := by
    rw [take_take, Nat.min_eq_left (by omega), h.media]
  unfold Sampler.response
  rw [readRetSubmit_build _ _ _ _ hclen, hpayload]
  constructor
  · show (ofNat s.used).toNat = _
    rw [toNat_ofNat', Nat.mod_eq_of_lt (by omega), hused]
  · show ((s.completedPackets packets).map fun p => p.actualLength.toNat).sum = _
    rw [h.completed_length, length_flatten]
  · intro p hp
    obtain ⟨pi, -, rfl⟩ := mem_map.1 hp
    exact Std.min_le_left
  · show splitBy ((s.completedPackets packets).map fun p => p.actualLength.toNat) _ = _
    rw [h.completed_length]
    exact splitBy_flatten s.sampled

end Filled

/-! ## What the worker holds -/

/-- What an admission fixes of a job. -/
def EndpointJob.content (job : EndpointJob) : UInt32 × UInt32 × List IsoPacketDescriptor :=
  (job.seq, job.xferLen, job.packets)

variable {idx : Nat} {cmd : Command}

namespace Line

variable {l l' : Line} {label : Label}

theorem Move.content (hmove : Move c l label l') (hpartition : l.Partition) {i : Nat}
    (hold : i ∈ l.held) (hi : i ∈ l'.held) : (l'.slots i).content = (l.slots i).content := by
  obtain ⟨_, _, _, _, _, heq⟩ := hmove.rewrites hpartition hold hi
  rw [heq]
  rfl

theorem Move.inFlight_keep (hmove : Move c l label l') (hkeep : ∀ t, label ≠ .released t)
    (hidx : l.inFlight = some idx) : l'.inFlight = some idx := by
  cases hmove with
  | keep | enqueue | cancel | remove | reset | retain
  | respond | sideEffect | reanchor => exact hidx
  | claim hfree hqueue =>
    cases hfree.symm.trans hidx
  | release hflight => exact absurd rfl (hkeep _)

end Line

/-- A submission whose packets fit its transfer. -/
structure Proper (xferLen : UInt32) (packets : List IsoPacketDescriptor) : Prop where
  fits : requested packets ≤ xferLen.toNat
  count : packets.length ≤ maxIsoPackets

namespace EndpointWorker

/-- All held jobs are proper. -/
def Stocked (w : EndpointWorker) : Prop :=
  ∀ i ∈ w.line.held, Proper (w.slots i).xferLen (w.slots i).packets

/-- A call which does not finish the job in flight leaves it where it is. -/
theorem Sound.call_frame (h : w.Sound) {op : Op}
    (hop : ∀ i completed retain now, op ≠ .finish i completed retain now)
    (hidx : w.inFlight = some idx) :
    (step c w op).1.inFlight = some idx ∧
      ((step c w op).1.slots idx).packets = (w.slots idx).packets := by
  obtain ⟨-, hmove⟩ := step_refines (c := c) h op
  have hkeep : ∀ t, label (event (step c) w op) ≠ .released t := by
    intro t hlab
    have hmade := label_madeBy (c := c) (w := w) op
    rw [hlab] at hmade
    cases op with
    | finish i completed retain now => exact hop i completed retain now rfl
    | _ => exact hmade
  have hflight := hmove.inFlight_keep hkeep hidx
  have hcontent := hmove.content h.partition (Line.mem_held_of_inFlight hidx)
    (Line.mem_held_of_inFlight hflight)
  exact ⟨hflight, congrArg (fun x => x.2.2) hcontent⟩

theorem Stocked.step (hstock : w.Stocked) (h : w.Sound) (op : Op)
    (hnew : ∀ r, op = .enqueue r → Proper r.xferLen r.packets) : (step c w op).1.Stocked := by
  obtain ⟨-, hmove⟩ := step_refines (c := c) h op
  intro i hi
  have hsame : i ∈ w.line.held → Proper ((EndpointWorker.step c w op).1.slots i).xferLen
        ((EndpointWorker.step c w op).1.slots i).packets := by
    intro hold
    have hcontent := hmove.content h.partition hold hi
    have hx : ((EndpointWorker.step c w op).1.slots i).xferLen = (w.slots i).xferLen :=
      congrArg (fun x => x.2.1) hcontent
    have hp : ((EndpointWorker.step c w op).1.slots i).packets = (w.slots i).packets :=
      congrArg (fun x => x.2.2) hcontent
    rw [hx, hp]
    exact hstock i hold
  by_cases hop : ∃ r, op = .enqueue r
  · obtain ⟨r, rfl⟩ := hop
    by_cases hold : i ∈ w.line.held
    · exact hsame hold
    -- the slot which the admission took
    have hadmitted : ((EndpointWorker.step c w (.enqueue r)).1.slots i).xferLen = r.xferLen ∧
        ((EndpointWorker.step c w (.enqueue r)).1.slots i).packets = r.packets := by
      change i ∈ (enqueueWithGeneration c w r).1.line.held at hi
      change ((enqueueWithGeneration c w r).1.slots i).xferLen = _ ∧
        ((enqueueWithGeneration c w r).1.slots i).packets = _
      unfold enqueueWithGeneration at hi ⊢
      split at hi
      · exact absurd hi hold
      rename_i idx hlast
      obtain ⟨free, hfree⟩ := getLast?_eq_some_iff.1 hlast
      have hqueue : (w.order.push endpointQueueCapacity idx).window
          endpointQueueCapacity = w.queue ++ [idx] :=
        RingBuffer.window_push w.order idx (h.queue_length_lt hfree)
      have hi' : i ∈ (w.queue ++ [idx]) ++ w.inFlight.toList := hqueue ▸ hi
      have hidx : i = idx := by
        by_contra hne
        apply hold
        show i ∈ w.queue ++ w.inFlight.toList
        simp only [mem_append, mem_singleton, hne, or_false] at hi' ⊢
        exact hi'
      subst hidx
      dsimp only [setSlot]
      rw [update_self]
      exact ⟨rfl, rfl⟩
    rw [hadmitted.1, hadmitted.2]
    exact hnew r rfl
  · refine hsame ((hmove.held_cases hi).resolve_right fun hnew => hop ?_)
    have hmade := label_madeBy (c := c) (w := w) op
    rw [hnew.1] at hmade
    cases op with
    | enqueue r => exact ⟨r, rfl⟩
    | _ => exact absurd hmade id

end EndpointWorker

/-! ## Validation -/

/-- Validated packets fit the transfer. -/
theorem validateIsoPackets_fits {xferLen capacity : UInt32} {index compact previousEnd : Nat}
    (h : validateIsoPackets xferLen capacity index compact previousEnd packets = .ok ())
    (hcompact : compact ≤ xferLen.toNat) : compact + requested packets ≤ xferLen.toNat := by
  induction packets generalizing index compact previousEnd with
  | nil => exact hcompact
  | cons packet packets ih =>
    simp only [validateIsoPackets, ite_eq_iff, reduceCtorEq, and_false, false_or] at h
    obtain ⟨-, -, -, -, hle, h⟩ := h
    have hrest := ih h (Nat.not_lt.1 hle)
    rw [requested, map_cons, sum_cons, ← Nat.add_assoc]
    exact hrest

theorem validateIsoEndpointSubmission_fits {endpoint : Option EndpointDescriptor} {xferLen : UInt32}
    (h : validateIsoEndpointSubmission endpoint xferLen packets = .ok ()) :
    requested packets ≤ xferLen.toNat := by
  unfold validateIsoEndpointSubmission at h
  split at h
  · cases h
  simp only [ite_eq_iff, reduceCtorEq, and_false, false_or] at h
  obtain ⟨-, -, h⟩ := h
  split at h
  · cases h
  have hfits := validateIsoPackets_fits h (Nat.zero_le _)
  rwa [Nat.zero_add] at hfits

/-- What goes to the worker is isochronous and proper. -/
theorem route_enqueue (h : route cmd = .enqueue) : cmd.isIso ∧ Proper cmd.xferLen cmd.packets := by
  unfold route at h
  split at h
  · cases h
  simp only [ite_eq_iff, reduceCtorEq, and_false, false_or] at h
  obtain ⟨hcount, -, hiso, h⟩ := h
  split at h
  · cases h
  rename_i hvalid
  exact ⟨by simpa using hiso, validateIsoEndpointSubmission_fits hvalid, Nat.not_lt.1 hcount⟩

/-- A response on the spot is consistent. -/
theorem route_reply {bytes : Bytes} (h : route cmd = .reply bytes) :
    (readRetSubmit bytes).Consistent (cmd.packets.map fun _ => []) := by
  unfold route at h
  split at h
  · cases h
  split at h
  · cases h
  rename_i hcount
  split at h
  · cases h
    have hlen : (cmd.packets.map fun p =>
        { p with actualLength := 0, status := errPipe }).length ≤ maxIsoPackets := by
      rw [length_map]
      exact Nat.not_lt.1 hcount
    rw [readRetSubmit_build _ _ _ _ hlen]
    by_cases hiso : cmd.isIso
    · rw [hiso]
      have hclear : ∀ p ∈ cmd.packets.map (fun p =>
          { p with actualLength := 0, status := errPipe }), p.actualLength = 0 := by
        intro p hp
        obtain ⟨q, -, rfl⟩ := mem_map.1 hp
        rfl
      have hzero := consistent_empty cmd.seq errPipe hclear
      rw [map_map] at hzero
      exact hzero
    · have hnil : cmd.packets = [] := by
        have hor := Bool.eq_false_iff.2 hiso
        rw [Command.isIso, Bool.or_eq_false_iff] at hor
        simpa using hor.1
      rw [Bool.eq_false_iff.2 hiso, hnil]
      exact consistent_empty cmd.seq errPipe (by simp [carried])
  · split at h
    · cases h
    split at h
    · cases h
    split at h
    next hnil =>
      cases h
      rw [readRetSubmit_build _ _ _ _ (Nat.zero_le _), isEmpty_iff.1 hnil]
      exact consistent_empty cmd.seq 0 (by simp [carried])
    · cases h

/-! ## Where the goroutine stands -/

namespace IsoIn

/-- The goroutine has sampled `k` packets of the job in flight. -/
structure Sampling (w : EndpointWorker) (sampler : Sampler) (idx k : Nat) : Prop where
  inFlight : w.inFlight = some idx
  filled : Filled sampler (w.slots idx).packets k

/-- A wait for a phase. -/
def Waiting (w : EndpointWorker) (sampler : Sampler) (idx : Nat) : Task → Prop
  | .isoInPacket k count =>
    k < count ∧ count = (w.slots idx).packets.length ∧ Sampling w sampler idx k
  | .isoInEnd => Sampling w sampler idx (w.slots idx).packets.length
  | _ => False

def Place (w : EndpointWorker) (sampler : Sampler) : Pc → Prop
  | .claiming => True
  | .parked => True
  | .finishing _ _ _ => True
  | .stopped => True
  | .deadline idx _ task => Waiting w sampler idx task
  | .sleeping idx _ task => Waiting w sampler idx task
  | .woken idx _ task => Waiting w sampler idx task
  | .confirming idx _ task _ => Waiting w sampler idx task
  | .sampling idx k count =>
    k < count ∧ count = (w.slots idx).packets.length ∧ Sampling w sampler idx k
  | .completing idx => Sampling w sampler idx (w.slots idx).packets.length
  | _ => False

structure Good (s : IsoIn) : Prop where
  sound : s.thread.worker.Sound
  stocked : s.thread.worker.Stocked
  place : Place s.thread.worker s.sampler s.thread.pc

/-- The goroutine gets to a place. -/
def Reaches (s : IsoIn) (read : DeviceRead) (t : Thread) : Prop :=
  Place t.worker (s.resample read t) t.pc

/-- A call which leaves the job in flight alone. -/
def Frame (w w' : EndpointWorker) : Prop :=
  ∀ idx, w.inFlight = some idx →
    w'.inFlight = some idx ∧ (w'.slots idx).packets = (w.slots idx).packets

section Frame

variable {w' : EndpointWorker} (hf : Frame w w')

include hf

theorem Sampling.frame (h : Sampling w sampler idx k) : Sampling w' sampler idx k := by
  obtain ⟨hflight, hpackets⟩ := hf idx h.inFlight
  exact ⟨hflight, hpackets.symm ▸ h.filled⟩

theorem Waiting.frame {task : Task} (h : Waiting w sampler idx task) :
    Waiting w' sampler idx task := by
  cases task with
  | isoInPacket k count =>
    obtain ⟨hlt, hcount, hs⟩ := h
    exact ⟨hlt, hcount.trans (by rw [(hf idx hs.inFlight).2]), hs.frame hf⟩
  | isoInEnd =>
    have hs : Sampling w sampler idx (w.slots idx).packets.length := h
    show Sampling w' sampler idx (w'.slots idx).packets.length
    rw [(hf idx hs.inFlight).2]
    exact hs.frame hf
  | interrupt | isoOutStart | isoOutEnd => exact h.elim

theorem Place.frame {pc : Pc} (h : Place w sampler pc) : Place w' sampler pc := by
  cases pc with
  | deadline idx phase task | sleeping idx phase task | woken idx phase task
  | confirming idx phase task s => exact Waiting.frame hf h
  | sampling idx k count => exact @Waiting.frame w sampler idx w' hf (.isoInPacket k count) h
  | completing idx => exact @Waiting.frame w sampler idx w' hf .isoInEnd h
  | claiming | parked | finishing | stopped => trivial
  | attempting | preparing | answering | rechecking
  | starting | consuming | handling => exact h.elim

end Frame

theorem isoInNext_deadline (idx k count : Nat) :
    ∃ phase task, isoInNext idx k count = .deadline idx phase task := by
  unfold isoInNext
  split <;> exact ⟨_, _, rfl⟩

/-- The head of the sampling loop. -/
theorem waiting_isoInNext (hle : k ≤ (w.slots idx).packets.length) (h : Sampling w sampler idx k) :
    Place w sampler (isoInNext idx k (w.slots idx).packets.length) := by
  unfold isoInNext
  split
  next hlt => exact ⟨hlt, rfl, h⟩
  next hnot =>
    have hk : k = (w.slots idx).packets.length := by omega
    show Sampling w sampler idx (w.slots idx).packets.length
    rw [← hk]
    exact h

/-- The goroutine admits nothing. -/
theorem request_ne_enqueue (pc : Pc) (env : Env) (r : EndpointWorker.Submission) :
    request pc env ≠ some (.enqueue r) := by
  cases pc <;> simp only [request, ne_eq] <;> (try split) <;> simp

/-- The goroutine finishes a job in one place. -/
theorem request_finish {pc : Pc} {env : Env} {completed retain : Bool} {now : Time}
    (h : request pc env = some (.finish idx completed retain now)) :
    pc = .finishing idx completed retain := by
  cases pc <;> simp only [request] at h <;> (try split at h) <;> simp_all

section Worker

variable {s : IsoIn}

theorem Good.worker_calls (h : Good s) (interval : Duration) (env : Env) :
    (Thread.step (config interval) s.thread (.worker env)).1.worker.Sound ∧
      (Thread.step (config interval) s.thread (.worker env)).1.worker.Stocked ∧
      ((∀ idx completed retain, s.thread.pc ≠ .finishing idx completed retain) →
        Frame s.thread.worker (Thread.step (config interval) s.thread (.worker env)).1.worker) := by
  cases hreq : request s.thread.pc env with
  | none =>
    rw [(Thread.step_silent hreq).2]
    exact ⟨h.sound, h.stocked, fun _ idx hidx => ⟨hidx, rfl⟩⟩
  | some op =>
    rw [(Thread.step_call hreq).2]
    refine ⟨(step_refines h.sound op).1, h.stocked.step h.sound op ?_, ?_⟩
    · rintro r rfl
      exact absurd hreq (request_ne_enqueue _ _ r)
    · intro hpc idx hidx
      refine h.sound.call_frame ?_ hidx
      rintro i completed retain now rfl
      exact hpc _ _ _ (request_finish hreq)

theorem claimNext_inFlight (h : w.claimNext.2 = some idx) : w.claimNext.1.inFlight = some idx := by
  unfold claimNext at h ⊢
  split
  next i hflight =>
    rw [hflight] at h
    cases h
    exact hflight
  next hflight =>
    rw [hflight] at h
    dsimp only at h
    split at h
    · cases h
    rename_i hcount
    rw [if_neg hcount]
    exact h

theorem Good.place_claiming (h : Good s) (hpc : s.thread.pc = .claiming) (env : Env)
    (read : DeviceRead) :
    s.Reaches read (Thread.step (config interval) s.thread (.worker env)).1 := by
  obtain ⟨-, hstock, -⟩ := h.worker_calls interval env
  by_cases hend : env.ended
  · have hreq : request s.thread.pc env = none := by rw [hpc, request, if_pos hend]
    rw [(Thread.step_silent hreq).2, hpc]
    trivial
  have hreq : request s.thread.pc env = some .claimNext := by rw [hpc, request, if_neg hend]
  have hclaim : EndpointWorker.step (config interval) s.thread.worker .claimNext =
      (s.thread.worker.claimNext.1, .index s.thread.worker.claimNext.2) := rfl
  have hflight := @claimNext_inFlight s.thread.worker
  rw [(Thread.step_call hreq).2, hclaim] at hstock ⊢
  generalize s.thread.worker.claimNext = claimed at hstock hflight ⊢
  obtain ⟨w, idx⟩ := claimed
  rw [hpc]
  cases idx with
  | none => trivial
  | some idx =>
    have hflight : w.inFlight = some idx := hflight rfl
    have hproper := hstock idx (Line.mem_held_of_inFlight hflight)
    obtain ⟨phase, task, hnext⟩ := isoInNext_deadline idx 0 (w.slots idx).packets.length
    have hsampler : s.resample read ⟨w, isoInNext idx 0 (w.slots idx).packets.length⟩ =
        s.sampler.start (w.slots idx) := by
      unfold resample
      rw [hpc, hnext]
    show Place w (s.resample read ⟨w, isoInNext idx 0 (w.slots idx).packets.length⟩) _
    rw [hsampler]
    exact waiting_isoInNext (Nat.zero_le _) ⟨hflight, Filled.start s.sampler _ hproper.fits⟩

/-- The goroutine samples a packet. -/
theorem Good.place_sampling (h : Good s) {count : Nat} (hpc : s.thread.pc = .sampling idx k count)
    (env : Env) (read : DeviceRead) :
    s.Reaches read (Thread.step (config interval) s.thread (.worker (s.view env read))).1 := by
  have hplace := h.place
  rw [hpc] at hplace
  obtain ⟨hlt, hcount, hs⟩ := hplace
  obtain ⟨p, hp⟩ : ∃ p, (s.thread.worker.slots idx).packets[k]? = some p :=
    ⟨_, getElem?_eq_getElem (hcount ▸ hlt)⟩
  have hlen : s.packetLength idx k = p.length.toNat := by
    unfold packetLength
    rw [hp]
    rfl
  have hfull : (s.view env read).full = false := by
    unfold view
    rw [hpc]
    dsimp only
    rw [hlen]
    exact hs.filled.not_full hp
  have hreq : request s.thread.pc (s.view env read) = none := by
    rw [hpc]
    rfl
  rw [(Thread.step_silent hreq).2]
  by_cases hend : (s.view env read).ended
  · have hpc' : resume (config interval) s.thread.worker s.thread.pc (s.view env read)
        .done = .finishing idx false false := by
      rw [hpc, resume, if_pos hend]
    rw [hpc']
    trivial
  · have hpc' : resume (config interval) s.thread.worker s.thread.pc (s.view env read)
        .done = isoInNext idx (k + 1) count := by
      rw [hpc, resume, if_neg hend, if_neg (Bool.eq_false_iff.1 hfull)]
    have hsampler : s.resample read ⟨s.thread.worker, isoInNext idx (k + 1) count⟩ =
        s.sampler.samplePacket k (s.packetLength idx k) read := by
      obtain ⟨phase, task, hnext⟩ := isoInNext_deadline idx (k + 1) count
      unfold resample
      rw [hpc, hnext]
    subst hcount
    unfold Reaches
    rw [hpc', hsampler, hlen]
    exact waiting_isoInNext hlt ⟨hs.inFlight, hs.filled.samplePacket hp read⟩

/-- Outside the two loops' heads the goroutine keeps its place, goes on with the
same task, or gives up. -/
theorem place_resume {pc : Pc} (hclaim : pc ≠ .claiming)
    (hsample : ∀ idx k count, pc ≠ .sampling idx k count) (h : Place w sampler pc) (env : Env)
    (out : EndpointWorker.Out) : Place w sampler (resume c w pc env out) := by
  cases pc with
  | claiming => exact absurd rfl hclaim
  | sampling idx k count => exact absurd rfl (hsample idx k count)
  | parked =>
    dsimp only [resume]
    split <;> trivial
  | deadline idx phase task =>
    cases out with
    | deadline d =>
      cases d with
      | some d => exact h
      | none => trivial
    | _ => trivial
  | sleeping idx phase task =>
    dsimp only [resume]
    cases env.wait with
    | cancelled => trivial
    | _ => exact h
  | woken idx phase task =>
    cases out with
    | deadline d =>
      cases d with
      | some d =>
        dsimp only [resume]
        split
        · exact h
        · exact h
      | none => trivial
    | _ => trivial
  | confirming idx phase task service =>
    cases out with
    | answer ok =>
      cases ok with
      | true =>
        cases task with
        | interrupt | isoOutStart | isoOutEnd => exact h.elim
        | _ => exact h
      | false => trivial
    | _ => trivial
  | completing idx =>
    cases out with
    | answer ok =>
      cases ok with
      | _ => trivial
    | _ => trivial
  | finishing | stopped => trivial
  | attempting | preparing | answering | rechecking
  | starting | consuming | handling => exact h.elim

/-- Every step of the goroutine leaves it at a place. -/
theorem Good.place_worker (h : Good s) (env : Env) (read : DeviceRead) :
    s.Reaches read (Thread.step (config interval) s.thread (.worker (s.view env read))).1 := by
  by_cases hclaim : s.thread.pc = .claiming
  · have hview : s.view env read = env := by
      unfold view
      rw [hclaim]
    rw [hview]
    exact h.place_claiming hclaim env read
  by_cases hsample : ∃ idx k count, s.thread.pc = .sampling idx k count
  · obtain ⟨idx, k, count, hpc⟩ := hsample
    exact h.place_sampling hpc env read
  have hsample' : ∀ idx k count, s.thread.pc ≠ .sampling idx k count :=
    fun idx k count hpc => hsample ⟨idx, k, count, hpc⟩
  have hsame : ∀ t, s.resample read t = s.sampler := by
    intro t
    unfold resample
    split
    next hpc _ => exact absurd hpc hclaim
    · rfl
    next hpc _ => exact absurd hpc (hsample' _ _ _)
    · rfl
  have hplace : Place (Thread.step (config interval) s.thread
      (.worker (s.view env read))).1.worker s.sampler s.thread.pc := by
    have hframe := (h.worker_calls interval (s.view env read)).2.2
    by_cases hfin : ∃ idx completed retain, s.thread.pc = .finishing idx completed retain
    · obtain ⟨idx, completed, retain, hpc⟩ := hfin
      rw [hpc]
      trivial
    · exact h.place.frame (hframe fun idx completed retain hpc =>
        hfin ⟨idx, completed, retain, hpc⟩)
  unfold Reaches
  rw [hsame]
  cases hreq : request s.thread.pc (s.view env read) with
  | none =>
    rw [(Thread.step_silent hreq).2] at hplace ⊢
    exact place_resume hclaim hsample' hplace _ _
  | some op =>
    rw [(Thread.step_call hreq).2] at hplace ⊢
    exact place_resume hclaim hsample' hplace _ _

theorem Good.step (h : Good s) (act : Act) : Good (step interval s act).1 := by
  -- the reader leaves the goroutine where it is
  have hreader : ∀ r : ReaderOp,
      (∀ q, r = .enqueue q → Proper q.xferLen q.packets) → Good (s.reader interval r).1 := by
    intro r hr
    refine ⟨(step_refines h.sound r.op).1,
      h.stocked.step h.sound r.op ?_, h.place.frame fun idx hidx => ?_⟩
    · intro q hq
      cases r with
      | enqueue q' =>
        cases hq
        exact hr q rfl
      | unlinkAt | reset => cases hq
    · refine h.sound.call_frame ?_ hidx
      intro i completed retain now hop
      cases r <;> cases hop
  cases act with
  | submit cmd =>
    show Good (s.submit interval cmd).1
    unfold submit
    split
    · exact h
    · exact h
    · exact h
    rename_i hroute
    split
    · exact h
    refine hreader (.enqueue cmd.submission) ?_
    rintro q hq
    cases hq
    exact (route_enqueue hroute).2
  | unlinkAt seq now => exact hreader (.unlinkAt seq now) (by simp)
  | reset => exact hreader .reset (by simp)
  | worker env read =>
    obtain ⟨hsound, hstock, -⟩ := h.worker_calls interval (s.view env read)
    exact ⟨hsound, hstock, h.place_worker env read⟩

end Worker

theorem good_new (media : Bytes) : Good (new media) where
  sound := new_sound
  stocked := by
    intro i hi
    cases hi
  place := trivial

/-! ## Every response -/

abbrev IsoEvent := Event IsoIn Act (Option Bytes)

/-- The bytes which the packets of a response got: none, when the command reader
answers. -/
def samplesOf (e : IsoEvent) : List Bytes :=
  match e.op with
  | .submit cmd => cmd.packets.map fun _ => []
  | _ => e.pre.sampler.sampled

/-- A submission which finds no worker or no free slot arrives with clear descriptors. -/
def Clean (e : IsoEvent) : Prop :=
  ∀ cmd, e.op = .submit cmd → route cmd = .enqueue →
    cmd.worker = false ∨ e.pre.thread.worker.free = [] → ∀ p ∈ cmd.packets, p.actualLength = 0

/-- Whether a submission arrives with clear descriptors. -/
def Act.clear : Act → Bool
  | .submit cmd => cmd.packets.all fun p => p.actualLength == 0
  | _ => true

theorem clean_of_clear {s : IsoIn} {acts : List Act} (h : ∀ act ∈ acts, act.clear) :
    ∀ e ∈ trace (step interval) s acts, Clean e := by
  intro e he cmd hcmd _ _ p hp
  obtain ⟨before, act, after, rfl, rfl⟩ := mem_trace he
  have hact := h act (by simp)
  rw [show act = .submit cmd from hcmd] at hact
  simpa using all_eq_true.1 hact p hp

theorem Good.response {s : IsoIn} (h : Good s) (act : Act)
    (hclean : Clean (event (IsoIn.step interval) s act)) {bytes : Bytes}
    (hout : (IsoIn.step interval s act).2 = some bytes) :
    (readRetSubmit bytes).Consistent (samplesOf (event (IsoIn.step interval) s act)) := by
  cases act with
  | unlinkAt | reset => cases hout
  | worker env read =>
    change s.written _ = some bytes at hout
    unfold written at hout
    split at hout
    next hpc _ =>
      cases hout
      have hplace := h.place
      rw [hpc] at hplace
      have hs : Sampling s.thread.worker s.sampler _ _ := hplace
      have hproper := h.stocked _ (Line.mem_held_of_inFlight hs.inFlight)
      exact hs.filled.consistent hproper.count
    · cases hout
  | submit cmd =>
    change (s.submit interval cmd).2 = some bytes at hout
    have hrefused : route cmd = .enqueue → cmd.worker = false ∨ s.thread.worker.free = [] →
        (readRetSubmit cmd.refusal).Consistent (cmd.packets.map fun _ => []) := by
      intro hroute hno
      -- a refusal sends back the descriptors of the host
      rw [Command.refusal, readRetSubmit_build _ _ _ _ (route_enqueue hroute).2.count,
        (route_enqueue hroute).1]
      exact consistent_empty cmd.seq errNoSpace (hclean cmd rfl hroute hno)
    unfold submit at hout
    split at hout
    · cases hout
    · cases hout
    next hroute =>
      cases hout
      exact route_reply hroute
    next hroute =>
      split at hout
      next hworker =>
        cases hout
        exact hrefused hroute (.inl (by simpa using hworker))
      · dsimp only at hout
        split at hout
        · cases hout
        next hanswer =>
          cases hout
          refine hrefused hroute (.inr (getLast?_eq_none_iff.1 ?_))
          cases hlast : s.thread.worker.free.getLast? with
          | none => rfl
          | some idx =>
            refine absurd ?_ hanswer
            show EndpointWorker.Out.answer (enqueueWithGeneration _ s.thread.worker _).2 = _
            rw [enqueueWithGeneration, hlast]

end IsoIn

/-- **Every isochronous IN response is self-consistent**, in every run in which
the submissions which find no worker or no free slot arrive with clear descriptors. -/
theorem isoIn_responses_consistent (interval : Duration) (media : Bytes) (acts : List IsoIn.Act)
    (hclean : ∀ e ∈ trace (IsoIn.step interval) (IsoIn.new media) acts, IsoIn.Clean e) :
    ∀ e ∈ trace (IsoIn.step interval) (IsoIn.new media) acts, ∀ bytes,
      e.out = some bytes → (readRetSubmit bytes).Consistent (IsoIn.samplesOf e) := by
  have hall := @invariant_trace _ _ _ (step interval) IsoIn.Good
    (fun e => IsoIn.Clean e → ∀ bytes, e.out = some bytes →
      (readRetSubmit bytes).Consistent (samplesOf e))
    (fun s act h => h.step act) (fun s act h hc bytes hout => h.response act hc hout)
    (new media) (good_new media) acts
  exact fun e he => hall e he (hclean e he)

/-! One microphone endpoint.  The device gives three bytes for the first packet
and nothing for the second, which is then filled with silence. -/

def microphoneEndpoint : EndpointDescriptor := ⟨0x05, 192⟩

def microphoneSubmit (seq : UInt32) (packets : List IsoPacketDescriptor) : Command :=
  ⟨seq, 1, 8, packets, true, some microphoneEndpoint, true, 1000⟩

/-- Wait for a phase: ask for the deadline, sleep, wake, confirm. -/
def microphoneWait (now : Time) : List IsoIn.Act :=
  List.replicate 4 (.worker { now := now } (.transfer []))

def microphoneRun : List IsoIn.Act :=
  [.submit (microphoneSubmit 9 [⟨0, 4, 0, 0⟩, ⟨4, 2, 0, 0⟩]),
    .worker { now := 1000 } (.transfer [])] ++
  microphoneWait 1000 ++ [.worker { now := 1000 } (.fast [1, 2, 3] 3 true)] ++
  microphoneWait 1001000 ++ [.worker { now := 1001000 } (.transfer [])] ++
  microphoneWait 2001000

def microphoneEnd : IsoIn.Act := .worker { now := 2001000 } (.transfer [])

theorem microphoneRun_consistent :
    (∀ e ∈ trace (IsoIn.step 1000000) (IsoIn.new []) (microphoneRun ++ [microphoneEnd]),
        IsoIn.Clean e) ∧
      ∃ bytes, (IsoIn.step 1000000 (final (IsoIn.step 1000000) (IsoIn.new [])
          microphoneRun) microphoneEnd).2 = some bytes ∧
        (readRetSubmit bytes).Consistent [[1, 2, 3], [0, 0]] := by
  have hclean : ∀ e ∈ trace (step 1000000) (new [])
      (microphoneRun ++ [microphoneEnd]), IsoIn.Clean e :=
    clean_of_clear (by decide)
  have hsome : (step 1000000 (final (step 1000000) (new [])
      microphoneRun) microphoneEnd).2.isSome := by decide +kernel
  obtain ⟨bytes, hbytes⟩ := Option.isSome_iff_exists.1 hsome
  refine ⟨hclean, bytes, hbytes, ?_⟩
  have hall := isoIn_responses_consistent 1000000 [] (microphoneRun ++ [microphoneEnd])
    hclean (event (step 1000000) (final (step 1000000) (new [])
      microphoneRun) microphoneEnd) (by rw [trace_snoc]; simp) bytes hbytes
  exact hall

/-- The queue takes sixty-four submissions; the one after is refused with the
lengths which the host left in its descriptors. -/
def overfullRun : List IsoIn.Act :=
  List.replicate 64 (.submit (microphoneSubmit 1 [⟨0, 4, 0, 0⟩]))

def overfullSubmit : Command := microphoneSubmit 2 [⟨0, 4, 7, 0⟩]

theorem refusal_not_consistent :
    validateIsoEndpointSubmission overfullSubmit.descriptor overfullSubmit.xferLen
        overfullSubmit.packets = .ok () ∧
      ∃ bytes, (IsoIn.step 1000000 (final (IsoIn.step 1000000) (IsoIn.new [])
          overfullRun) (.submit overfullSubmit)).2 = some bytes ∧
        ∀ samples, ¬(readRetSubmit bytes).Consistent samples := by
  have hout : (step 1000000 (final (step 1000000) (new [])
      overfullRun) (.submit overfullSubmit)).2 = some overfullSubmit.refusal := by
    decide +kernel
  refine ⟨by decide +kernel, overfullSubmit.refusal, hout, fun samples h => ?_⟩
  have htotal := h.total
  exact absurd htotal (by decide)

end Viiper.Ports.Endpoint
