import Viiper.Ports.FeedbackRuntime

/-!
# Tenure of the feedback writer

What the runtime is for, without slots, leases and revisions.  An office is
vacant, held by a publication whose delivery epoch is the last one issued, or
being vacated by a stop of that epoch.  One reservation may be outstanding
against it.

A holder whose frame was never admitted may be dropped or replaced at once.  A
holder which may have actuated leaves only through `Office.Move.close`: the
delivery of its admitted stop.  This is the whole protocol; the laws below are
laws of these moves.
-/

namespace Viiper.Ports.Feedback

open Verified.Go

/-- Who holds the writer's attention. -/
inductive Tenure
  | vacant
  | holding (publication : Publication) (actuated : Bool)
  | stopping (publication : Publication)

/-- The claim outstanding against the current event. -/
structure Reservation where
  delivery : Delivery
  admitted : Bool

structure Office where
  /-- The delivery epoch last issued. -/
  issued : UInt64
  tenure : Tenure
  reservation : Option Reservation

/-- What happens to a delivery, as its writer sees it. -/
inductive Notice
  | silent
  | claimed (delivery : Delivery)
  | admitted (delivery : Delivery)
  | delivered (delivery : Delivery)

/-- Two publications of one holder: what the frame asks for may change, its
origin, source, target and ownership epoch stay. -/
structure SameHolder (p q : Publication) : Prop where
  origin : p.origin = q.origin
  source : p.frame.source = q.frame.source
  device : p.frame.deviceGeneration = q.frame.deviceGeneration
  transport : p.frame.transportGeneration = q.frame.transportGeneration
  epoch : p.frame.ownershipEpoch = q.frame.ownershipEpoch

theorem SameHolder.refl (p : Publication) : SameHolder p p := ⟨rfl, rfl, rfl, rfl, rfl⟩

theorem SameHolder.trans {p q r : Publication} (hpq : SameHolder p q)
    (hqr : SameHolder q r) : SameHolder p r :=
  ⟨hpq.origin.trans hqr.origin, hpq.source.trans hqr.source, hpq.device.trans hqr.device,
    hpq.transport.trans hqr.transport, hpq.epoch.trans hqr.epoch⟩

/-- The winner is not the holder `p`. -/
def Ousted (winner : Option Publication) (p : Publication) : Prop :=
  ∀ w, winner = some w → ¬SameHolder w p

variable {n : Notice} {winner : Option Publication} {p : Publication} {δ : Delivery}

namespace Office

def event (o : Office) : Option Delivery :=
  match o.tenure with
  | .vacant => none
  | .holding p _ => some (frameDelivery p o.issued)
  | .stopping p => some (stopDelivery p o.issued)

/-- An admitted frame may have actuated. -/
def actuate (o : Office) : Office :=
  match o.tenure with
  | .holding p _ => { o with tenure := .holding p true }
  | _ => o

/-- One evaluation of the office against the elected winner.  No owner starts
once the epochs are used up. -/
inductive Reelect (winner : Option Publication) : Office → Office → Prop
  | stopping {o : Office} {p : Publication} : o.tenure = .stopping p → Reelect winner o o
  | vacant {o : Office} :
      o.tenure = .vacant → winner = none ∨ o.issued + 1 = 0 → Reelect winner o o
  | confirmed {o : Office} {p : Publication} {actuated : Bool} :
      o.tenure = .holding p actuated → winner = some p → Reelect winner o o
  | refreshed {o : Office} {p w : Publication} {actuated : Bool} :
      o.tenure = .holding p actuated → winner = some w → SameHolder w p →
        p.frame.watermark < w.frame.watermark →
        Reelect winner o { o with tenure := .holding w actuated }
  | started {o : Office} {w : Publication} :
      (o.tenure = .vacant ∨ ∃ p, o.tenure = .holding p false ∧ Ousted winner p) →
        winner = some w → o.issued + 1 ≠ 0 →
        Reelect winner o { o with issued := o.issued + 1, tenure := .holding w false }
  | dropped {o : Office} {p : Publication} : o.tenure = .holding p false → Ousted winner p →
        winner = none ∨ o.issued + 1 = 0 → Reelect winner o { o with tenure := .vacant }
  | retired {o : Office} {p : Publication} : o.tenure = .holding p true → Ousted winner p →
        Reelect winner o { o with tenure := .stopping p }

/-- The steps of the protocol. -/
inductive Move (winner : Option Publication) : Office → Notice → Office → Prop
  | keep {o : Office} : Move winner o .silent o
  | release {o : Office} :
      Move winner o .silent { o with reservation := none }
  | evaluate {o o' : Office} : Reelect winner o o' → Move winner o .silent o'
  | claim {o m : Office} {δ : Delivery} : Reelect winner o m → m.event = some δ →
        Move winner o (.claimed δ) { m with reservation := some ⟨δ, false⟩ }
  | admission {o m : Office} {δ : Delivery} : Reelect winner o m → m.event = some δ →
        m.reservation = some ⟨δ, false⟩ →
        Move winner o (.admitted δ) { m.actuate with reservation := some ⟨δ, true⟩ }
  | giveUp {o o' : Office} :
      Reelect winner { o with reservation := none } o' → Move winner o .silent o'
  | deliver {o o' : Office} {δ : Delivery} : o.reservation = some ⟨δ, true⟩ →
        Reelect winner { o with reservation := none } o' →
        Move winner o (.delivered δ) o'
  | close {o o' : Office} {p : Publication} : o.tenure = .stopping p →
        o.reservation = some ⟨stopDelivery p o.issued, true⟩ →
        Reelect winner { o with reservation := none, tenure := .vacant } o' →
        Move winner o (.delivered (stopDelivery p o.issued)) o'

/-! ## One evaluation -/

section Reelect

variable {o o' : Office}

theorem Reelect.reservation_eq (h : Reelect winner o o') : o'.reservation = o.reservation := by
  cases h <;> rfl

/-- Epochs are only ever issued upwards. -/
theorem Reelect.issued_le (h : Reelect winner o o') : o.issued ≤ o'.issued := by
  cases h with
  | started _ _ hepoch => exact UInt64.le_of_lt (lt_add_one_of_ne_zero hepoch)
  | _ => exact UInt64.le_refl _

/-- Whoever holds the office after an evaluation was elected by it. -/
theorem Reelect.holder_elected (h : Reelect winner o o') {actuated : Bool}
    (hp : o'.tenure = .holding p actuated) : winner = some p := by
  cases h with
  | stopping ht | vacant ht => rw [ht] at hp; cases hp
  | confirmed ht hw =>
    cases ht.symm.trans hp
    exact hw
  | refreshed _ hw | started _ hw =>
    cases hp
    exact hw
  | dropped | retired => cases hp

end Reelect

theorem actuate_issued (o : Office) : o.actuate.issued = o.issued := by
  unfold actuate
  split <;> rfl

/-! ## What a notice says -/

section Notice

variable {o o' : Office}

theorem event_epoch (h : o.event = some δ) : δ.deliveryEpoch = o.issued := by
  unfold event at h
  split at h
  · cases h
  · cases h; rfl
  · cases h; rfl

/-- Only an occupied office offers a frame, and it is its holder's. -/
theorem event_frame (h : o.event = some δ) (hf : δ.disposition = .frame) :
    ∃ p actuated, o.tenure = .holding p actuated ∧ δ = frameDelivery p o.issued := by
  unfold event at h
  split at h
  · cases h
  next p actuated ht => exact ⟨p, actuated, ht, (Option.some.inj h).symm⟩
  · cases h
    cases hf

/-- Only an office being vacated offers a stop, and it is its holder's. -/
theorem event_stop (h : o.event = some δ) (hs : δ.disposition = .stop) :
    ∃ p, o.tenure = .stopping p ∧ δ = stopDelivery p o.issued := by
  unfold event at h
  split at h
  · cases h
  · cases h
    cases hs
  next p ht => exact ⟨p, ht, (Option.some.inj h).symm⟩

theorem event_disposition (h : o.event = some δ) : δ.disposition ≠ .none := by
  unfold event at h
  split at h
  · cases h
  · cases h
    show DeliveryDisposition.frame ≠ .none
    decide
  · cases h
    show DeliveryDisposition.stop ≠ .none
    decide

theorem Move.issued_le (h : Move winner o n o') : o.issued ≤ o'.issued := by
  cases h with
  | keep | release => exact UInt64.le_refl _
  | evaluate hr | giveUp hr | deliver _ hr | close _ _ hr | claim hr => exact hr.issued_le
  | admission hr =>
    rw [actuate_issued]
    exact hr.issued_le

theorem Move.claimed_epoch (h : Move winner o (.claimed δ) o') : δ.deliveryEpoch = o'.issued := by
  cases h with
  | claim _ hevent => exact event_epoch hevent

/-- **An admitted frame is the frame of the winner** elected in the same
step, and from then on its holder may have actuated. -/
theorem Move.admitted_frame (h : Move winner o (.admitted δ) o') (hf : δ.disposition = .frame) :
    ∃ p, winner = some p ∧ δ = frameDelivery p o'.issued ∧ o'.tenure = .holding p true := by
  cases h with
  | admission hr hevent hres =>
    rename_i m
    obtain ⟨p, actuated, ht, rfl⟩ := event_frame hevent hf
    have hm : m.actuate = { m with tenure := .holding p true } := by
      rw [actuate, ht]
    refine ⟨p, hr.holder_elected ht, ?_, ?_⟩
    · rw [hm]
    · rw [hm]

theorem Move.admitted_reservation (h : Move winner o (.admitted δ) o') :
    o'.reservation = some ⟨δ, true⟩ := by
  cases h with
  | admission => rfl

/-- A reservation is admitted by a notice of its admission and by nothing
else. -/
theorem Move.reservation_admitted (h : Move winner o n o') (hr : o'.reservation = some ⟨δ, true⟩) :
    o.reservation = some ⟨δ, true⟩ ∨ n = .admitted δ := by
  cases h with
  | keep => exact .inl hr
  | release | claim => cases hr
  | evaluate he => exact .inl (he.reservation_eq ▸ hr)
  | admission =>
    cases hr
    exact .inr rfl
  | giveUp he | deliver _ he | close _ _ he =>
    cases he.reservation_eq.symm.trans hr

end Notice

end Office

/-! ## An actuated epoch is closed by its stop -/

/-- A stop names its holder's origin and target only. -/
theorem SameHolder.stopDelivery_eq {q : Publication} (h : SameHolder p q)
    (epoch : UInt64) : stopDelivery p epoch = stopDelivery q epoch := by
  simp only [stopDelivery, h.origin, h.device, h.transport]

/-- Epoch `epoch` was admitted for `p` and its stop is still owed. -/
structure Obliged (p : Publication) (epoch : UInt64) (o : Office) : Prop where
  issued : o.issued = epoch
  holder : ∃ q, SameHolder q p ∧ (o.tenure = .holding q true ∨ o.tenure = .stopping q)

def Retired (epoch : UInt64) (o : Office) : Prop :=
  (o.issued = epoch ∧ o.tenure = .vacant) ∨ epoch < o.issued

section Laws

variable {o o' : Office} {epoch : UInt64}

theorem Obliged.congr (h : Obliged p epoch o) (hissued : o'.issued = o.issued)
    (htenure : o'.tenure = o.tenure) : Obliged p epoch o' :=
  ⟨hissued.trans h.issued, htenure ▸ h.holder⟩

/-- An evaluation refreshes or retires an actuated holder; it cannot replace
it. -/
theorem Obliged.reelect (h : Obliged p epoch o)
    (hr : Office.Reelect winner o o') : Obliged p epoch o' := by
  obtain ⟨hissued, q, hq, ht⟩ := h
  cases hr with
  | stopping | vacant | confirmed => exact ⟨hissued, q, hq, ht⟩
  | refreshed hold _ hsame =>
    rcases ht with ht | ht <;> rw [hold] at ht <;> cases ht
    exact ⟨hissued, _, hsame.trans hq, .inl rfl⟩
  | started hold =>
    rcases hold with hold | ⟨r, hold, -⟩ <;> rcases ht with ht | ht <;>
      rw [hold] at ht <;> cases ht
  | dropped hold =>
    rcases ht with ht | ht <;> rw [hold] at ht <;> cases ht
  | retired hold =>
    rcases ht with ht | ht <;> rw [hold] at ht <;> cases ht
    exact ⟨hissued, q, hq, .inr rfl⟩

theorem Obliged.actuate (h : Obliged p epoch o) : Obliged p epoch o.actuate := by
  obtain ⟨hissued, q, hq, ht⟩ := h
  refine ⟨(Office.actuate_issued o).trans hissued, q, hq, ?_⟩
  rcases ht with ht | ht
  · left; rw [Office.actuate, ht]
  · right; rw [Office.actuate, ht]; exact ht

theorem Retired.reelect (h : Retired epoch o)
    (hr : Office.Reelect winner o o') : Retired epoch o' := by
  rcases h with ⟨hissued, ht⟩ | hlt
  · cases hr with
    | stopping | vacant | confirmed => exact .inl ⟨hissued, ht⟩
    | refreshed hold | dropped hold | retired hold =>
      rw [hold] at ht; cases ht
    | started _ _ hepoch => exact .inr (hissued ▸ lt_add_one_of_ne_zero hepoch)
  · exact .inr (UInt64.lt_of_lt_of_le hlt hr.issued_le)

/-- What a closed epoch leaves behind offers only later epochs. -/
theorem Retired.event (h : Retired epoch o)
    (hevent : o.event = some δ) : epoch < δ.deliveryEpoch := by
  rcases h with ⟨_, ht⟩ | hlt
  · rw [Office.event, ht] at hevent
    cases hevent
  · rw [Office.event_epoch hevent]
    exact hlt

/-- **Stop before successor, one step.**  An actuated epoch stays open until
its admitted stop is delivered, and that delivery closes it. -/
theorem Obliged.move (h : Obliged p epoch o) (hmove : Office.Move winner o n o') :
    Obliged p epoch o' ∨ (n = .delivered (stopDelivery p epoch) ∧
        o.reservation = some ⟨stopDelivery p epoch, true⟩ ∧
        Retired epoch o') := by
  cases hmove with
  | keep => exact .inl h
  | release => exact .inl (h.congr rfl rfl)
  | evaluate hr => exact .inl (h.reelect hr)
  | claim hr => exact .inl ((h.reelect hr).congr rfl rfl)
  | admission hr => exact .inl ((h.reelect hr).actuate.congr rfl rfl)
  | giveUp hr | deliver _ hr =>
    have hcleared : Obliged p epoch { o with reservation := none } :=
      h.congr rfl rfl
    exact .inl (hcleared.reelect hr)
  | close ht hres hr =>
    rename_i r
    obtain ⟨hissued, q, hq, hold⟩ := h
    have hrq : r = q := by
      rcases hold with hold | hold <;> rw [ht] at hold <;> cases hold
      rfl
    have hstop : stopDelivery r o.issued = stopDelivery p epoch := by
      rw [hrq, hissued, hq.stopDelivery_eq]
    right
    refine ⟨by rw [hstop], by rw [hres, hstop], ?_⟩
    have hvacant : Retired epoch { o with reservation := none, tenure := .vacant } :=
      .inl ⟨hissued, rfl⟩
    exact hvacant.reelect hr

/-- **A closed epoch never returns**: it stays closed. -/
theorem Retired.move (h : Retired epoch o)
    (hmove : Office.Move winner o n o') : Retired epoch o' := by
  cases hmove with
  | keep | release => exact h
  | evaluate hr => exact h.reelect hr
  | claim hr =>
    have hnext := h.reelect hr
    exact hnext
  | giveUp hr | deliver _ hr =>
    have hcleared : Retired epoch { o with reservation := none } := h
    exact hcleared.reelect hr
  | admission hr hevent =>
    rw [Retired, Office.actuate_issued]
    have hlt := (Retired.reelect h hr).event hevent
    exact .inr (Office.event_epoch hevent ▸ hlt)
  | close ht _ hr =>
    have hlt : epoch < o.issued := by
      rcases h with ⟨_, hv⟩ | hlt
      · rw [ht] at hv; cases hv
      · exact hlt
    have hvacant : Retired epoch { o with reservation := none, tenure := .vacant } := .inr hlt
    exact hvacant.reelect hr

/-- Everything claimed or admitted after an epoch was closed is of a later
epoch. -/
theorem Retired.later (h : Retired epoch o) (hmove : Office.Move winner o n o')
    (hn : n = .claimed δ ∨ n = .admitted δ) : epoch < δ.deliveryEpoch := by
  cases hmove with
  | keep | release | evaluate | giveUp | deliver | close =>
    rcases hn with hn | hn <;> cases hn
  | claim hr hevent | admission hr hevent =>
    rcases hn with hn | hn <;> cases hn
    exact (h.reelect hr).event hevent

end Laws

end Viiper.Ports.Feedback
