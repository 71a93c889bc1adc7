import Viiper.Ports.FeedbackRefinement
import Viiper.Verified.Simulation

/-!
# Laws of the feedback runtime

The two contracts of the arbitration, over whole runs from the zero value and
with arbitrary times.
-/

namespace Viiper.Ports.Feedback

open Verified Run List

namespace Runtime

/-! ## Notices -/

section Notices

variable {e : RuntimeEvent} {δ : Delivery}

theorem notice_of_claimedBy (h : claimedBy e = some δ) : notice e = .claimed δ := by
  rw [notice, h]

theorem notice_of_admittedBy (h : admittedBy e = some δ) : notice e = .admitted δ := by
  have hclaim : claimedBy e = none := by
    unfold admittedBy at h
    split at h
    next hop _ => rw [claimedBy, hop]
    · cases h
  rw [notice, hclaim, h]

theorem admittedBy_of_notice (h : notice e = .admitted δ) : admittedBy e = some δ := by
  unfold notice at h
  split at h
  · cases h
  next hadmitted =>
    cases h
    exact hadmitted
  · cases h
  · cases h

theorem deliveredBy_of_notice (h : notice e = .delivered δ) : deliveredBy e = some δ := by
  unfold notice at h
  split at h
  · cases h
  · cases h
  next hdelivered =>
    cases h
    exact hdelivered
  · cases h

end Notices

/-! ## A preempted effect -/

/-- A rumble frame of the first generation, live for a millisecond. -/
def rumble (sequence : UInt64) : Frame :=
  { version := version1
    source := sourceXboxOneVirtualDevice
    command := commandApply
    actuators := actuatorAll
    bodyLow := 1000
    sequence := sequence
    deviceGeneration := 1
    transportGeneration := 1
    ownershipEpoch := 1
    timestampMicroseconds := 100
    timeToLiveMicroseconds := 1000 }

def profileRumble : Publication := ⟨publicationOriginProfileEffect, rumble 1⟩

def gameRumble : Publication := ⟨publicationOriginNativeGame, rumble 1⟩

/-- A profile effect is published and claimed. -/
def effectRun : List Op :=
  [.acquireWriter 1 1, .publish profileRumble, .claim 100 0]

/-- The game preempts it: the effect completes, its stop is claimed, admitted
and delivered, and the game's frame is claimed. -/
def preemptRun : List Op :=
  [.publish gameRumble, .complete 0 1 true 110, .claim 110 0,
    .admitClaim 0 2 110, .complete 0 2 true 120, .claim 120 0]

/-! ## Only the rightful winner is admitted -/

variable {evs : List RuntimeEvent}

section Rightful

variable {runtime : Runtime}

theorem step_slot (runtime : Runtime) {op : Op} (hop : ∀ p, op ≠ .publish p) :
    (step runtime op).1.slot = runtime.slot := by
  cases op with
  | publish p => exact absurd rfl (hop p)
  | acquireWriter device transport =>
    show (runtime.acquireWriter device transport).1.slot = _
    unfold acquireWriter
    split
    · rfl
    · split <;> rfl
  | retireWriter writer =>
    show (runtime.retireWriter writer).1.slot = _
    unfold retireWriter
    split
    · rfl
    · split <;> rfl
  | claim now writer =>
    show (runtime.claim now writer).1.slot = _
    unfold claim
    split
    · rfl
    · unfold reserve
      split <;> exact (reevaluate_sameDesk runtime now).slot
  | admitClaim writer token now =>
    show (runtime.admitClaim writer token now).1.slot = _
    unfold admitClaim
    split
    · rfl
    split
    · rfl
    rw [← (reevaluate_sameDesk runtime now).slot]
    unfold pin
    split
    · rfl
    split
    · rfl
    · dsimp only
      split <;> rfl
  | complete writer token delivered now =>
    show (runtime.complete writer token delivered now).1.slot = _
    unfold complete
    split
    · rfl
    split
    · rfl
    dsimp only
    split <;> exact (reevaluate_sameDesk _ now).slot

/-- The state together with what its slots have accepted. -/
structure Account (evs : List RuntimeEvent) (runtime : Runtime) : Prop where
  coherent : runtime.Coherent
  reached : ∀ q ∈ evs.filterMap acceptedBy, runtime.Reached q

theorem Account.zero : Account [] {} where
  coherent := coherent_zero
  reached := by intro q hq; cases hq

theorem acceptedBy_eq_none {op : Op} (hop : ∀ p, op ≠ .publish p) :
    acceptedBy (event step runtime op) = none := by
  cases op with
  | publish p => exact absurd rfl (hop p)
  | _ => rfl

theorem Account.after (h : Account evs runtime)
    (op : Op) : Account (evs ++ [event step runtime op]) (step runtime op).1 := by
  have hcoherent := (step_refines h.coherent op).1
  by_cases hpublish : ∃ p, op = .publish p
  · obtain ⟨p, rfl⟩ := hpublish
    have heffect := publish_effect runtime p
    change Account (evs ++ [⟨runtime, .publish p,
      .answer (runtime.publish p).2, (runtime.publish p).1⟩])
      (runtime.publish p).1
    change (runtime.publish p).1.Coherent at hcoherent
    generalize runtime.publish p = r at heffect hcoherent ⊢
    cases heffect with
    | refused =>
      refine ⟨hcoherent, ?_⟩
      simpa [acceptedBy] using h.reached
    | filed hvalid hlater =>
      refine ⟨hcoherent, fun q hq => ?_⟩
      rw [filterMap_append, mem_append] at hq
      rcases hq with hq | hq
      · exact (h.reached q hq).setSlot hvalid hlater
      · obtain rfl : q = p := by simpa [acceptedBy] using hq
        exact reached_setSlot runtime hvalid
  · have hop : ∀ p, op ≠ .publish p := fun p heq => hpublish ⟨p, heq⟩
    have hslot := step_slot runtime hop
    refine ⟨hcoherent, fun q hq => ?_⟩
    rw [filterMap_append, filterMap_cons_none (acceptedBy_eq_none hop),
      filterMap_nil, append_nil] at hq
    rw [Reached, hslot]
    exact h.reached q hq

theorem account_run (ops : List Op) : Account (trace step {} ops) (final step {} ops) :=
  history_run Account.zero (fun _ _ op h => h.after op) ops

/-- What a successful `Admit` has checked of its lease. -/
theorem admitClaim_true {writer : Nat} {token now : UInt64}
    (h : (runtime.admitClaim writer token now).2) :
    ∃ lease, runtime.writers[writer]? = some lease ∧ runtime.activeWriter = some writer ∧
      lease.deviceGeneration = lease.inFlightDelivery.deviceGeneration ∧
      lease.transportGeneration =
        lease.inFlightDelivery.transportGeneration := by
  unfold admitClaim at h
  split at h
  · cases h
  rename_i lease hexact
  obtain ⟨hcurrent, _⟩ := exactClaim_eq_some hexact
  obtain ⟨hlease, hactive, _⟩ := currentWriter_eq_some hcurrent
  split at h
  · cases h
  unfold pin at h
  split at h
  · cases h
  rename_i hcond
  simp only [not_or, not_not] at hcond
  obtain ⟨_, _, hsame, hdevice, htransport⟩ := hcond
  exact ⟨lease, hlease, hactive, hsame ▸ hdevice, hsame ▸ htransport⟩

/-- **Only the rightful winner is admitted.**  A frame admitted at `now` is
the frame of the publication with the highest origin among the live ones of
the newest target; the writer is bound to that target and is the only active
one; and no frame is older than one its own slot accepted before. -/
theorem admitted_frame_is_rightful (ops : List Op) (writer : Nat) (token now : UInt64)
    (δ : Delivery)
    (h : admittedBy (event step (final step {} ops) (.admitClaim writer token now)) = some δ)
    (hframe : δ.disposition = .frame) :
    (∃ p lease, (final step {} ops).Rightful now p ∧ δ = frameDelivery p δ.deliveryEpoch ∧
      (final step {} ops).writers[writer]? = some lease ∧
      lease.deviceGeneration = p.frame.deviceGeneration ∧
      lease.transportGeneration = p.frame.transportGeneration) ∧
    (∀ (i : Nat) (lease : WriterLease),
      (final step {} ops).writers[i]? = some lease → lease.active →
      i = writer) ∧
    ∀ q ∈ (trace step {} ops).filterMap acceptedBy, q.origin = δ.origin →
      q.frame.watermark ≤ δ.frame.watermark := by
  have haccount := account_run ops
  generalize final step {} ops = runtime at h haccount ⊢
  obtain ⟨_, hmove⟩ := step_refines haccount.coherent (.admitClaim writer token now)
  rw [notice_of_admittedBy h] at hmove
  obtain ⟨p, hwinner, hδ, _⟩ := hmove.admitted_frame hframe
  have hrightful : runtime.Rightful now p := selectWinner_rightful hwinner
  have htrue : (runtime.admitClaim writer token now).2 := by
    cases hb : (runtime.admitClaim writer token now).2 with
    | true => rfl
    | false => simp [admittedBy, event, step, hb] at h
  obtain ⟨lease, hlease, hactive, hdevice, htransport⟩ := admitClaim_true htrue
  have hreserved : lease.inFlightDelivery = δ := by
    simpa [admittedBy, event, step, htrue, reservation_eq hlease] using h
  have hepoch : δ.deliveryEpoch = _ := congrArg Delivery.deliveryEpoch hδ
  rw [hreserved] at hdevice htransport
  refine ⟨⟨p, lease, hrightful, hepoch ▸ hδ, hlease, ?_, ?_⟩, ?_, ?_⟩
  · rw [hdevice, hδ]; rfl
  · rw [htransport, hδ]; rfl
  · intro i other hother hlive
    have hi := haccount.coherent.sole i other hother hlive
    rw [hactive] at hi
    exact (Option.some.inj hi).symm
  · intro q hq horigin
    have hp : δ.origin = p.origin ∧ δ.frame = p.frame := by rw [hδ]; exact ⟨rfl, rfl⟩
    rw [hp.2]
    rcases (haccount.reached q hq).of_mem haccount.coherent.filed hrightful.contends.held
      (horigin.trans hp.1) with rfl | hlt
    · exact le_refl _
    · exact hlt.le

theorem preemptRun_admits_game : (∃ p lease,
      (final step {} (effectRun ++ .admitClaim 0 1 100 :: preemptRun)).Rightful 120 p ∧
      frameDelivery gameRumble 2 = frameDelivery p 2 ∧
      (final step {} (effectRun ++ .admitClaim 0 1 100 :: preemptRun)).writers[0]? = some lease ∧
      lease.deviceGeneration = p.frame.deviceGeneration ∧
      lease.transportGeneration = p.frame.transportGeneration) :=
  (admitted_frame_is_rightful (effectRun ++ .admitClaim 0 1 100 :: preemptRun) 0 3 120
    (frameDelivery gameRumble 2) (by decide +kernel) rfl).1

end Rightful

/-! ## Stop before successor -/

section Stop

variable {runtime : Runtime}

/-- What is known since a frame of `epoch` was admitted for `p`: its stop is
still owed, or it was admitted and delivered. -/
inductive Since (p : Publication) (epoch : UInt64) (evs : List RuntimeEvent)
    (runtime : Runtime) : Prop
  | owed (hcoherent : runtime.Coherent) (howed : Obliged p epoch runtime.office)
      (hstop : runtime.office.reservation = some ⟨stopDelivery p epoch, true⟩ →
        ∃ a ∈ evs, admittedBy a = some (stopDelivery p epoch))
  | stopped (evs₁ evs₂ evs₃ : List RuntimeEvent) (a c : RuntimeEvent)
      (hevs : evs = evs₁ ++ a :: evs₂ ++ c :: evs₃)
      (hadmitted : admittedBy a = some (stopDelivery p epoch))
      (hdelivered : deliveredBy c = some (stopDelivery p epoch))
      (hcoherent : c.post.Coherent) (hretired : Retired epoch c.post.office)

theorem Since.after {p : Publication} {epoch : UInt64} (h : Since p epoch evs runtime) (op : Op) :
    Since p epoch (evs ++ [event step runtime op]) (step runtime op).1 := by
  cases h with
  | stopped evs₁ evs₂ evs₃ a c hevs hadmitted hdelivered hcoherent hretired =>
    refine .stopped evs₁ evs₂ (evs₃ ++ [event step runtime op]) a c ?_
      hadmitted hdelivered hcoherent hretired
    rw [hevs]
    simp
  | owed hcoherent howed hstop =>
    obtain ⟨hnext, hmove⟩ := step_refines hcoherent op
    rcases howed.move hmove with howed' | ⟨hnotice, hreserved, hretired⟩
    · refine .owed hnext howed' fun hreserved => ?_
      rcases hmove.reservation_admitted hreserved with hold | hnew
      · obtain ⟨a, ha, hadmitted⟩ := hstop hold
        exact ⟨a, mem_append_left _ ha, hadmitted⟩
      · exact ⟨_, by simp, admittedBy_of_notice hnew⟩
    · -- the stop is delivered here; its admission is in the history
      obtain ⟨a, ha, hadmitted⟩ := hstop hreserved
      obtain ⟨evs₁, evs₂, rfl⟩ := append_of_mem ha
      exact .stopped evs₁ evs₂ [] a _ rfl hadmitted (deliveredBy_of_notice hnotice) hnext hretired

/-- Once an epoch is closed, no claim or admission of it ever happens. -/
theorem closed_epoch_unclaimable {epoch : UInt64} (hcoherent : runtime.Coherent)
    (hretired : Retired epoch runtime.office) (ops : List Op) :
    ∀ e ∈ trace step runtime ops, ∀ δ,
      claimedBy e = some δ ∨ admittedBy e = some δ → epoch < δ.deliveryEpoch := by
  refine invariant_trace (I := fun runtime => runtime.Coherent ∧ Retired epoch runtime.office)
    (fun runtime op h => ?_) (fun runtime op h δ hδ => ?_)
    ⟨hcoherent, hretired⟩ ops
  · obtain ⟨hnext, hmove⟩ := step_refines h.1 op
    exact ⟨hnext, h.2.move hmove⟩
  · obtain ⟨_, hmove⟩ := step_refines h.1 op
    refine h.2.later hmove ?_
    rcases hδ with hδ | hδ
    · exact .inl (notice_of_claimedBy hδ)
    · exact .inr (notice_of_admittedBy hδ)

/-- The epochs claimed so far do not decrease and were issued. -/
structure Ascending (evs : List RuntimeEvent) (runtime : Runtime) : Prop where
  coherent : runtime.Coherent
  issued : ∀ δ ∈ evs.filterMap claimedBy, δ.deliveryEpoch ≤ runtime.nextDeliveryEpoch
  ascending : (evs.filterMap claimedBy).Pairwise (fun δ δ' => δ.deliveryEpoch ≤ δ'.deliveryEpoch)

theorem Ascending.after (h : Ascending evs runtime) (op : Op) :
    Ascending (evs ++ [event step runtime op]) (step runtime op).1 := by
  obtain ⟨hnext, hmove⟩ := step_refines h.coherent op
  have hissued : runtime.nextDeliveryEpoch ≤
      (step runtime op).1.nextDeliveryEpoch := hmove.issued_le
  cases hclaim : claimedBy (event step runtime op) with
  | none =>
    have hsame : (evs ++ [event step runtime op]).filterMap claimedBy =
        evs.filterMap claimedBy := by
      simp [filterMap_append, hclaim]
    refine ⟨hnext, ?_, ?_⟩
    · rw [hsame]
      intro δ hδ
      exact UInt64.le_trans (h.issued δ hδ) hissued
    · rw [hsame]
      exact h.ascending
  | some new =>
    have hgrown : (evs ++ [event step runtime op]).filterMap claimedBy =
        evs.filterMap claimedBy ++ [new] := by
      simp [filterMap_append, hclaim]
    rw [notice_of_claimedBy hclaim] at hmove
    have hnew : new.deliveryEpoch = (step runtime op).1.nextDeliveryEpoch :=
      hmove.claimed_epoch
    refine ⟨hnext, ?_, ?_⟩
    · rw [hgrown]
      intro δ hδ
      rw [mem_append, mem_singleton] at hδ
      rcases hδ with hδ | rfl
      · exact UInt64.le_trans (h.issued δ hδ) hissued
      · rw [hnew]
        exact UInt64.le_refl _
    · rw [hgrown, pairwise_append]
      refine ⟨h.ascending, pairwise_singleton _ _, fun δ hδ δ' hδ' => ?_⟩
      rw [mem_singleton] at hδ'
      rw [hδ', hnew]
      exact UInt64.le_trans (h.issued δ hδ) hissued

theorem ascending_run (ops : List Op) : Ascending (trace step {} ops) (final step {} ops) := by
  refine history_run ⟨coherent_zero, ?_, List.Pairwise.nil⟩ (fun _ _ op h => h.after op) ops
  intro δ hδ
  cases hδ

theorem coherent_run (ops : List Op) : (final step {} ops).Coherent :=
  invariant_final (I := Coherent) (fun _ op h => (step_refines h op).1) coherent_zero ops

/-- Every run is a run of the tenure protocol, with the publications elected. -/
theorem runtime_refines_office (ops : List Op) :
    LabelledRun (fun _ _ => True) (fun o l o' => Office.Move l.1 o l.2 o') (office {})
      ((trace step {} ops).map fun e => (e.pre.choice e.op, notice e)) (final step {} ops).office :=
  labelledRun_run (I := Coherent) office _ (fun _ op h => step_refines h op) coherent_zero ops

/-- Since the admission of a frame of some epoch, however the run continues:
that epoch's stop is still owed, or it was admitted and then delivered. -/
theorem since_admission {first : Op} {δ : Delivery} (hcoherent : runtime.Coherent)
    (h : admittedBy (event step runtime first) = some δ) (hframe : δ.disposition = .frame)
    (ops : List Op) :
    ∃ p, δ = frameDelivery p δ.deliveryEpoch ∧
      Since p δ.deliveryEpoch (trace step (step runtime first).1 ops)
        (final step (step runtime first).1 ops) := by
  obtain ⟨hnext, hmove⟩ := step_refines hcoherent first
  rw [notice_of_admittedBy h] at hmove
  obtain ⟨p, _, hδ, htenure⟩ := hmove.admitted_frame hframe
  have hepoch : δ.deliveryEpoch = (step runtime first).1.office.issued :=
    congrArg Delivery.deliveryEpoch hδ
  refine ⟨p, hepoch ▸ hδ, history_run ?_ (fun _ _ op hs => hs.after op) ops⟩
  refine .owed hnext ⟨hepoch.symm, p, .refl p, .inl htenure⟩ fun hreserved => ?_
  -- the reservation is the frame just admitted, not a stop
  have hsame := hmove.admitted_reservation.symm.trans hreserved
  have hstop : δ = stopDelivery p δ.deliveryEpoch := by simpa using hsame
  rw [hstop] at hframe
  cases hframe

/-- **Stop before successor.**  Between the admissions of two frames of
different delivery epochs, a stop of the first epoch, with the same origin and
target, was admitted and then completed as delivered; however the run continues
after that completion, no delivery of that epoch is claimed again; and the
epochs of the deliveries claimed in a run never decrease. -/
theorem stop_delivered_before_successor (before between : List Op) (first second : Op)
    (δ₁ δ₂ : Delivery) (h₁ : admittedBy (event step (final step {} before) first) = some δ₁)
    (hframe₁ : δ₁.disposition = .frame)
    (h₂ : admittedBy (event step (final step {} (before ++ first :: between)) second) = some δ₂)
    (hframe₂ : δ₂.disposition = .frame) (hne : δ₂.deliveryEpoch ≠ δ₁.deliveryEpoch) :
    (∃ ops₁ opA ops₂ opC ops₃ stop, between = ops₁ ++ opA :: ops₂ ++ opC :: ops₃ ∧
      stop.disposition = .stop ∧ stop.deliveryEpoch = δ₁.deliveryEpoch ∧
      stop.origin = δ₁.origin ∧
      stop.deviceGeneration = δ₁.deviceGeneration ∧
      stop.transportGeneration = δ₁.transportGeneration ∧
      admittedBy (event step (final step {} (before ++ first :: ops₁)) opA) = some stop ∧
      deliveredBy (event step (final step {} (before ++ first :: ops₁ ++ opA :: ops₂)) opC) =
          some stop ∧
      ∀ later, ∀ e ∈ trace step (final step {}
          (before ++ first :: ops₁ ++ opA :: ops₂ ++ [opC])) later,
        ∀ δ, claimedBy e = some δ → δ.deliveryEpoch ≠ δ₁.deliveryEpoch) ∧
    δ₁.deliveryEpoch < δ₂.deliveryEpoch ∧
    ∀ ops, ((trace step {} ops).filterMap claimedBy).Pairwise
      (fun δ δ' => δ.deliveryEpoch ≤ δ'.deliveryEpoch) := by
  have hsplit : ∀ ops, final step {} (before ++ first :: ops) =
      final step (step (final step {} before) first).1 ops := by
    intro ops
    rw [final_append, final_cons]
  obtain ⟨p, hp, hsince⟩ :=
    since_admission (coherent_run before) h₁ hframe₁ between
  rw [hsplit] at h₂
  cases hsince with
  | owed hcoherent howed =>
    -- a frame admitted now is of the epoch still owed
    obtain ⟨_, hmove⟩ := step_refines hcoherent second
    rw [notice_of_admittedBy h₂] at hmove
    obtain ⟨q, _, hq, _⟩ := hmove.admitted_frame hframe₂
    rcases howed.move hmove with howed' | ⟨hnotice, _⟩
    · have hepoch : δ₂.deliveryEpoch = _ := congrArg Delivery.deliveryEpoch hq
      exact absurd (hepoch.trans howed'.issued) hne
    · cases hnotice
  | stopped evs₁ evs₂ evs₃ a c hevs hadmitted hdelivered hcoherent hretired =>
    obtain ⟨opsA, opC, ops₃, hbetween, hevsA, rfl, _⟩ :=
      trace_eq_append_cons hevs
    obtain ⟨ops₁, opA, ops₂, rfl, _, rfl, _⟩ :=
      trace_eq_append_cons hevsA.symm
    have hclosed := closed_epoch_unclaimable hcoherent hretired
    refine ⟨⟨ops₁, opA, ops₂, opC, ops₃, stopDelivery p δ₁.deliveryEpoch,
      hbetween, rfl, rfl, ?_, ?_, ?_, ?_, ?_, ?_⟩, ?_,
      fun ops => (ascending_run ops).ascending⟩
    · rw [hp]; rfl
    · rw [hp]; rfl
    · rw [hp]; rfl
    · rw [hsplit]
      exact hadmitted
    · rw [append_assoc, cons_append, hsplit]
      exact hdelivered
    · intro later e he δ hδ
      rw [append_assoc, append_assoc, cons_append, hsplit, ← append_assoc, final_snoc] at he
      exact (UInt64.ne_of_lt (hclosed later e he δ (.inl hδ))).symm
    · rw [hbetween, final_append, final_cons] at h₂
      refine hclosed (ops₃ ++ [second]) _ ?_ δ₂ (.inr h₂)
      rw [trace_snoc]
      exact mem_append_right _ (mem_singleton.2 rfl)

theorem preemptRun_stops_effect : ∃ ops₁ opA ops₂ opC ops₃ stop,
      preemptRun = ops₁ ++ opA :: ops₂ ++ opC :: ops₃ ∧
      stop.disposition = .stop ∧ stop.deliveryEpoch = 1 ∧
      stop.origin = publicationOriginProfileEffect ∧
      stop.deviceGeneration = 1 ∧ stop.transportGeneration = 1 ∧
      admittedBy (event step (final step {}
        (effectRun ++ .admitClaim 0 1 100 :: ops₁)) opA) = some stop ∧
      deliveredBy (event step (final step {}
        (effectRun ++ .admitClaim 0 1 100 :: ops₁ ++ opA :: ops₂)) opC) = some stop ∧
      ∀ later, ∀ e ∈ trace step (final step {}
          (effectRun ++ .admitClaim 0 1 100 :: ops₁ ++ opA :: ops₂ ++ [opC]))
          later,
        ∀ δ, claimedBy e = some δ → δ.deliveryEpoch ≠ 1 :=
  (stop_delivered_before_successor effectRun preemptRun (.admitClaim 0 1 100) (.admitClaim 0 3 120)
    (frameDelivery profileRumble 1) (frameDelivery gameRumble 2)
    (by decide +kernel) rfl (by decide +kernel) rfl (by decide)).1

end Stop

end Runtime

end Viiper.Ports.Feedback
