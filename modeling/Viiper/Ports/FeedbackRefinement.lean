import Viiper.Ports.FeedbackElection
import Viiper.Ports.FeedbackTenure

/-!
# The runtime refines the tenure protocol

`office` forgets slots, leases and revisions: it reads the flags
`hasOwner`/`stopping`/`ownerMayHaveActuated` as a tenure and the active
writer's in-flight fields as the reservation.  `Coherent` is what makes that
reading faithful: the current event is the event of the tenure, the owner's
delivery epoch is the one last issued, an active lease is the active writer's,
and the slot of the owner's origin is not behind the owner.
-/

namespace Viiper.Ports.Feedback

open Verified Go Run

namespace Runtime

variable {runtime : Runtime} {writer : Nat} {lease : WriterLease}

/-! ## The office of a runtime -/

def tenure (runtime : Runtime) : Tenure :=
  if runtime.hasOwner then
    if runtime.stopping then .stopping runtime.owner
    else .holding runtime.owner runtime.ownerMayHaveActuated
  else .vacant

/-- The claim a lease has in flight. -/
def leaseReservation (lease : WriterLease) : Option Reservation :=
  if lease.inFlightClaimToken = 0 then none
  else some ⟨lease.inFlightDelivery, lease.inFlightAdmitted⟩

/-- The claim in flight at the active writer. -/
def outstanding (runtime : Runtime) : Option Reservation :=
  (runtime.activeWriter.bind fun writer => runtime.writers[writer]?).bind leaseReservation

def office (runtime : Runtime) : Office :=
  ⟨runtime.nextDeliveryEpoch, runtime.tenure, runtime.outstanding⟩

/-- The current event. -/
def offered (runtime : Runtime) : Option Delivery :=
  if runtime.hasEvent then some runtime.currentEvent else none

structure Coherent (runtime : Runtime) : Prop where
  offers : runtime.offered = runtime.office.event
  owned : runtime.stopping → runtime.hasOwner
  current : runtime.hasOwner → runtime.ownerDeliveryEpoch = runtime.nextDeliveryEpoch
  sole : ∀ (i : Nat) (lease : WriterLease), runtime.writers[i]? = some lease →
    lease.active → runtime.activeWriter = some i
  filed : runtime.Filed
  held : runtime.hasOwner → runtime.Reached runtime.owner

theorem coherent_zero : Coherent {} where
  offers := rfl
  owned := by intro h; cases h
  current := by intro h; cases h
  sole := by intro i lease h; simp at h
  filed := by
    intro o p ho hp
    unfold slot at hp
    split at hp
    · cases hp
    · split at hp
      · cases hp
      · split at hp <;> cases hp
  held := by intro h; cases h

/-- Evaluation touches neither slots nor leases. -/
structure SameDesk (runtime runtime' : Runtime) : Prop where
  slots : runtime'.slots = runtime.slots
  slot : runtime'.slot = runtime.slot
  writers : runtime'.writers = runtime.writers
  activeWriter : runtime'.activeWriter = runtime.activeWriter
  writerGeneration : runtime'.nextWriterGeneration = runtime.nextWriterGeneration

theorem SameDesk.refl (runtime : Runtime) : SameDesk runtime runtime :=
  ⟨rfl, rfl, rfl, rfl, rfl⟩

theorem SameDesk.trans {r₁ r₂ r₃ : Runtime} (h₁ : SameDesk r₁ r₂)
    (h₂ : SameDesk r₂ r₃) : SameDesk r₁ r₃ :=
  ⟨h₂.slots.trans h₁.slots, h₂.slot.trans h₁.slot, h₂.writers.trans h₁.writers,
    h₂.activeWriter.trans h₁.activeWriter,
    h₂.writerGeneration.trans h₁.writerGeneration⟩

/-! ## Evaluation -/

theorem startOwner_sameDesk (runtime : Runtime) (p : Publication) :
    SameDesk runtime (runtime.startOwner p) := by
  unfold startOwner
  dsimp only
  split
  · exact .refl _
  · exact ⟨rfl, rfl, rfl, rfl, rfl⟩

theorem reevaluate_sameDesk (runtime : Runtime) (now : UInt64) :
    SameDesk runtime (runtime.reevaluate now) := by
  unfold reevaluate
  split
  · exact .refl _
  split
  · exact startOwner_sameDesk _ _
  · exact .refl _
  · split
    · split
      · exact ⟨rfl, rfl, rfl, rfl, rfl⟩
      · exact .refl _
    · split
      · have hcleared : SameDesk runtime runtime.clearOwner :=
          ⟨rfl, rfl, rfl, rfl, rfl⟩
        exact hcleared.trans (startOwner_sameDesk _ _)
      · exact ⟨rfl, rfl, rfl, rfl, rfl⟩
  · split
    · exact ⟨rfl, rfl, rfl, rfl, rfl⟩
    · exact ⟨rfl, rfl, rfl, rfl, rfl⟩

theorem sameRuntimeOwnership_iff {left right : Publication} :
    sameRuntimeOwnership left right = true ↔ SameHolder left right := by
  simp only [sameRuntimeOwnership, Bool.and_eq_true, beq_iff_eq]
  constructor
  · rintro ⟨⟨⟨⟨horigin, hsource⟩, hdevice⟩, htransport⟩, hepoch⟩
    exact ⟨horigin, hsource, hdevice, htransport, hepoch⟩
  · intro h
    exact ⟨⟨⟨⟨h.origin, h.source⟩, h.device⟩, h.transport⟩, h.epoch⟩

theorem tenure_vacant (h : runtime.hasOwner = false) : runtime.tenure = .vacant := by
  simp [tenure, h]

theorem tenure_holding (h : runtime.hasOwner) (hs : runtime.stopping = false) :
    runtime.tenure = .holding runtime.owner runtime.ownerMayHaveActuated := by
  simp [tenure, h, hs]

theorem tenure_stopping (h : runtime.hasOwner)
    (hs : runtime.stopping) : runtime.tenure = .stopping runtime.owner := by
  simp [tenure, h, hs]

section Owner

variable (h : runtime.Coherent)

include h

/-- A new owner takes the next epoch, unless the epochs are used up. -/
theorem startOwner_refines (hvacant : runtime.hasOwner = false) {winner : Publication}
    (hreached : runtime.Reached winner) :
    (runtime.startOwner winner).Coherent ∧ Office.Reelect (some winner) runtime.office
        (runtime.startOwner winner).office := by
  have ht : runtime.office.tenure = .vacant := tenure_vacant hvacant
  unfold startOwner
  dsimp only
  split
  next hepoch => exact ⟨h, .vacant ht (.inr hepoch)⟩
  next hepoch =>
    refine ⟨⟨rfl, fun _ => rfl, fun _ => rfl, h.sole, h.filed, fun _ => hreached⟩, ?_⟩
    exact .started (.inl ht) rfl hepoch

theorem clearOwner_coherent (hs : runtime.stopping = false) : runtime.clearOwner.Coherent := by
  refine ⟨rfl, fun hstop => ?_, fun hown => ?_, h.sole, h.filed, fun hown => ?_⟩
  · exact absurd (hs.symm.trans hstop) (by decide)
  · cases hown
  · cases hown

/-- Dropping the owner and starting another is one evaluation. -/
theorem replaceUnadmittedOwner_refines (hown : runtime.hasOwner) (hs : runtime.stopping = false)
    (hact : runtime.ownerMayHaveActuated = false) {winner : Publication}
    (hreached : runtime.Reached winner) (hother : Ousted (some winner) runtime.owner) :
    (runtime.replaceUnadmittedOwner winner).Coherent ∧ Office.Reelect (some winner) runtime.office
        (runtime.replaceUnadmittedOwner winner).office := by
  have ht : runtime.office.tenure = .holding runtime.owner false := by
    show runtime.tenure = _
    rw [tenure_holding hown hs, hact]
  refine ⟨(startOwner_refines (clearOwner_coherent h hs) rfl hreached).1, ?_⟩
  unfold replaceUnadmittedOwner startOwner
  dsimp only
  split
  next hepoch => exact .dropped ht hother (.inr hepoch)
  next hepoch => exact .started (.inr ⟨_, ht, hother⟩) rfl hepoch

/-- An actuated owner is retired: its epoch is offered a stop. -/
theorem beginStop_refines (hown : runtime.hasOwner)
    (hs : runtime.stopping = false) (hact : runtime.ownerMayHaveActuated)
    {winner : Option Publication} (hother : Ousted winner runtime.owner) :
    runtime.beginStop.Coherent ∧ Office.Reelect winner runtime.office runtime.beginStop.office := by
  have ht : runtime.office.tenure = .holding runtime.owner true := by
    show runtime.tenure = _
    rw [tenure_holding hown hs, hact]
  have hto : runtime.beginStop.tenure = .stopping runtime.owner :=
    tenure_stopping hown rfl
  refine ⟨⟨?_, fun _ => hown, h.current, h.sole, h.filed, h.held⟩, ?_⟩
  · show some (stopDelivery runtime.owner runtime.ownerDeliveryEpoch) = _
    rw [h.current hown, Office.event, show runtime.beginStop.office.tenure = _ from hto]
    rfl
  · have hoffice : runtime.beginStop.office =
        { runtime.office with tenure := .stopping runtime.owner } := by
      show (⟨_, runtime.beginStop.tenure, _⟩ : Office) = _
      rw [hto]
      rfl
    rw [hoffice]
    exact .retired ht hother

/-- **`reevaluate` is one evaluation of the office** against the winner of
`selectWinner`. -/
theorem reevaluate_refines (now : UInt64) :
    (runtime.reevaluate now).Coherent ∧ Office.Reelect (runtime.selectWinner now) runtime.office
        (runtime.reevaluate now).office := by
  unfold reevaluate
  split
  next hs => exact ⟨h, .stopping (tenure_stopping (h.owned hs) hs)⟩
  next hs =>
    rw [Bool.not_eq_true] at hs
    split
    next winner hown hwin =>
      rw [hwin]
      exact startOwner_refines h hown (h.filed.reached (selectWinner_rightful hwin).contends.held)
    next hown hwin => exact ⟨h, .vacant (tenure_vacant hown) (.inl hwin)⟩
    next winner hown hwin =>
      have hmem := (selectWinner_rightful hwin).contends.held
      have hreached := h.filed.reached hmem
      rw [hwin]
      have ht : runtime.office.tenure = _ := tenure_holding hown hs
      split
      next hsame =>
        rw [sameRuntimeOwnership_iff] at hsame
        split
        next hne =>
          -- a fresh frame of the same owner: same epoch, new event
          refine ⟨⟨?_, h.owned, h.current, h.sole, h.filed, fun _ => hreached⟩, ?_⟩
          · show some (frameDelivery winner runtime.ownerDeliveryEpoch) = _
            rw [h.current hown]
            simp [Office.event, office, tenure, setFrameEvent, setEvent, hown, hs]
          · have hto : (setFrameEvent { runtime with owner := winner }).office =
                { runtime.office with
                  tenure := .holding winner runtime.ownerMayHaveActuated } := by
              simp [office, tenure, setFrameEvent, setEvent, hown, hs, outstanding]
            rw [hto]
            have hlater := (h.held hown).of_mem h.filed hmem hsame.origin.symm
            exact .refreshed ht rfl hsame (hlater.resolve_left hne)
        next heq =>
          rw [not_not] at heq
          exact ⟨h, .confirmed ht (congrArg some heq)⟩
      next hsame =>
        have hother : Ousted (some winner) runtime.owner := by
          rintro w ⟨⟩
          rwa [sameRuntimeOwnership_iff] at hsame
        split
        next hact =>
          rw [Bool.not_eq_true'] at hact
          exact replaceUnadmittedOwner_refines h hown hs hact hreached hother
        next hact =>
          rw [Bool.not_eq_true', Bool.not_eq_false] at hact
          exact beginStop_refines h hown hs hact hother
    next hown hwin =>
      have hother : Ousted (runtime.selectWinner now) runtime.owner := by
        intro w hw
        cases hwin.symm.trans hw
      split
      next hact =>
        rw [Bool.not_eq_true'] at hact
        refine ⟨clearOwner_coherent h hs, .dropped ?_ hother (.inl hwin)⟩
        show runtime.tenure = _
        rw [tenure_holding hown hs, hact]
      next hact =>
        rw [Bool.not_eq_true', Bool.not_eq_false] at hact
        exact beginStop_refines h hown hs hact hother

end Owner

/-! ## Leases -/

theorem currentWriter_eq_some (h : runtime.currentWriter writer = some lease) :
    runtime.writers[writer]? = some lease ∧
      runtime.activeWriter = some writer ∧ lease.active := by
  unfold currentWriter at h
  split at h
  · cases h
  rename_i found hfound
  split at h
  next hcond =>
    cases h
    exact ⟨hfound, hcond.2.1, hcond.1⟩
  · cases h

theorem exactClaim_eq_some {token : UInt64} (h : runtime.exactClaim writer token = some lease) :
    runtime.currentWriter writer = some lease ∧ lease.inFlightClaimToken ≠ 0 := by
  unfold exactClaim at h
  split at h
  · cases h
  rename_i found hfound
  split at h
  next hcond =>
    cases h
    exact ⟨hfound, hcond.2.1 ▸ hcond.1⟩
  · cases h

theorem getElem?_setWriter_self (hlease : runtime.writers[writer]? = some lease)
    (lease' : WriterLease) : (runtime.setWriter writer lease').writers[writer]? = some lease' := by
  obtain ⟨hlt, _⟩ := List.getElem?_eq_some_iff.1 hlease
  show (runtime.writers.set writer lease')[writer]? = _
  rw [List.getElem?_set_self hlt]

section Lease

variable (hlease : runtime.writers[writer]? = some lease)
  (hactive : runtime.activeWriter = some writer)

include hactive

/-- The lease a pointer denotes is the only one a write through it changes. -/
theorem sole_setWriter (h : runtime.Coherent) (lease' : WriterLease) :
    ∀ (i : Nat) (l : WriterLease), (runtime.setWriter writer lease').writers[i]? = some l →
      l.active → runtime.activeWriter = some i := by
  intro i l hl hlive
  by_cases hi : writer = i
  · rw [← hi]
    exact hactive
  · have hl' : (runtime.writers.set writer lease')[i]? = some l := hl
    rw [List.getElem?_set_ne hi] at hl'
    exact h.sole i l hl' hlive

theorem Coherent.setWriter (h : runtime.Coherent)
    (lease' : WriterLease) : (runtime.setWriter writer lease').Coherent :=
  ⟨h.offers, h.owned, h.current, sole_setWriter hactive h lease', h.filed, h.held⟩

include hlease

theorem outstanding_eq : runtime.outstanding = leaseReservation lease := by
  rw [outstanding, hactive, Option.bind_some, hlease, Option.bind_some]

theorem office_setWriter (lease' : WriterLease) : (runtime.setWriter writer lease').office =
      { runtime.office with reservation := leaseReservation lease' } := by
  show (⟨_, _, (runtime.setWriter writer lease').outstanding⟩ : Office) = _
  rw [outstanding_eq (getElem?_setWriter_self hlease lease') hactive]
  rfl

/-- Resolving a claim frees the reservation. -/
theorem office_resolved (delivered : Bool) :
    (runtime.setWriter writer (resolvedLease lease delivered)).office =
      { runtime.office with reservation := none } := by
  rw [office_setWriter hlease hactive]
  rfl

end Lease

/-! ## The methods -/

/-- What an event tells the writer. -/
def notice (e : RuntimeEvent) : Notice :=
  match claimedBy e, admittedBy e, deliveredBy e with
  | some δ, _, _ => .claimed δ
  | none, some δ, _ => .admitted δ
  | none, none, some δ => .delivered δ
  | none, none, none => .silent

/-- The publication a method would elect. -/
def choice (runtime : Runtime) : Op → Option Publication
  | .claim now _ | .admitClaim _ _ now | .complete _ _ _ now =>
    runtime.selectWinner now
  | _ => none

/-- The call is one move of the tenure protocol and keeps the state coherent. -/
def Refined (runtime : Runtime) (op : Op) : Prop :=
  (step runtime op).1.Coherent ∧ Office.Move (runtime.choice op) runtime.office
    (notice (event step runtime op)) (step runtime op).1.office

theorem offered_of_hasEvent (h : runtime.hasEvent) :
    runtime.offered = some runtime.currentEvent := by
  rw [offered, if_pos h]

/-- `Publish` writes slots only. -/
theorem setSlot_eq (runtime : Runtime) (o : PublicationOrigin) (p : Publication) :
    ∃ profile audio game preview, runtime.setSlot o p =
      { runtime with
        profileSlot := profile, audioSlot := audio, gameSlot := game, previewSlot := preview } := by
  unfold setSlot
  split
  · exact ⟨_, _, _, _, rfl⟩
  split
  · exact ⟨_, _, _, _, rfl⟩
  · split <;> exact ⟨_, _, _, _, rfl⟩

theorem office_setSlot (runtime : Runtime) (o : PublicationOrigin) (p : Publication) :
    (runtime.setSlot o p).office = runtime.office := by
  obtain ⟨_, _, _, _, heq⟩ := setSlot_eq runtime o p
  rw [heq]
  rfl

theorem pin_false {now : UInt64} (hpin : (runtime.pin writer lease now).2 = false) :
    (runtime.pin writer lease now).1 = runtime := by
  unfold pin at hpin ⊢
  split
  · rfl
  rename_i hcond
  rw [if_neg hcond] at hpin
  split
  · rfl
  rename_i hfresh
  rw [if_neg hfresh] at hpin
  split at hpin <;> cases hpin

theorem reservation_eq (hlease : runtime.writers[writer]? = some lease) :
    runtime.reservation writer = some lease.inFlightDelivery := by
  rw [reservation, hlease, Option.map_some]

/-- A delivered stop of the current event vacates the office. -/
theorem office_finishStop (runtime : Runtime) :
    runtime.finishStop.office = { runtime.office with tenure := .vacant } := rfl

variable (h : runtime.Coherent)

include h

theorem Coherent.setSlot {p : Publication} (hvalid : publicationOriginValid p.origin)
    (hlater : ∀ current, runtime.slot p.origin = some current →
      current.frame.watermark < p.frame.watermark) : (runtime.setSlot p.origin p).Coherent := by
  have hfiled := h.filed.setSlot hvalid
  have hheld (hown : runtime.hasOwner) := (h.held hown).setSlot hvalid hlater
  obtain ⟨_, _, _, _, heq⟩ := setSlot_eq runtime p.origin p
  rw [heq] at hfiled hheld ⊢
  exact ⟨h.offers, h.owned, h.current, h.sole, hfiled, hheld⟩

theorem publish_refines (p : Publication) : Refined runtime (.publish p) := by
  have heffect := publish_effect runtime p
  show (runtime.publish p).1.Coherent ∧ Office.Move _ _ .silent (runtime.publish p).1.office
  generalize runtime.publish p = r at heffect ⊢
  cases heffect with
  | refused => exact ⟨h, .keep⟩
  | filed hvalid hlater =>
    refine ⟨h.setSlot hvalid hlater, ?_⟩
    rw [office_setSlot]
    exact .keep

theorem acquireWriter_refines (device transport : UInt64) :
    Refined runtime (.acquireWriter device transport) := by
  show (runtime.acquireWriter device transport).1.Coherent ∧
    Office.Move _ _ .silent (runtime.acquireWriter device transport).1.office
  unfold acquireWriter
  split
  · exact ⟨h, .keep⟩
  split
  · exact ⟨h, .keep⟩
  rename_i hfree
  rw [not_or, Bool.not_eq_true, Option.isSome_eq_false_iff, Option.isNone_iff_eq_none] at hfree
  refine ⟨⟨h.offers, h.owned, h.current, ?_, h.filed, h.held⟩, ?_⟩
  · -- no lease was active, so only the new one is
    intro i l hl hlive
    rcases Nat.lt_or_ge i runtime.writers.length with hi | hi
    · rw [List.getElem?_append_left hi] at hl
      have := h.sole i l hl hlive
      cases hfree.1.symm.trans this
    · rw [List.getElem?_append_right hi, List.getElem?_singleton] at hl
      split at hl
      · have hi' : runtime.writers.length = i := by omega
        exact congrArg some hi'
      · cases hl
  · have hbefore : runtime.outstanding = none := by
      rw [outstanding, hfree.1]; rfl
    refine (congrArg (Office.Move _ _ .silent) ?_).mpr .keep
    show (⟨_, _, outstanding _⟩ : Office) = ⟨_, _, runtime.outstanding⟩
    rw [hbefore, outstanding_eq List.getElem?_concat_length rfl]
    rfl

theorem retireWriter_refines (writer : Nat) : Refined runtime (.retireWriter writer) := by
  show (runtime.retireWriter writer).1.Coherent ∧
    Office.Move _ _ .silent (runtime.retireWriter writer).1.office
  unfold retireWriter
  split
  · exact ⟨h, .keep⟩
  rename_i lease hcurrent
  split
  · exact ⟨h, .keep⟩
  obtain ⟨hlease, hactive, _⟩ := currentWriter_eq_some hcurrent
  refine ⟨⟨h.offers, h.owned, h.current, ?_, h.filed, h.held⟩, .release⟩
  intro i l hl hlive
  have hi := sole_setWriter hactive h _ i l hl hlive
  cases hactive.symm.trans hi
  rw [getElem?_setWriter_self hlease] at hl
  cases hl
  cases hlive

theorem claim_refines (now : UInt64) (writer : Nat) : Refined runtime (.claim now writer) := by
  have hnotice : notice (event step runtime (.claim now writer)) =
      if (runtime.claim now writer).2.2.1 = .none then .silent
      else .claimed (runtime.claim now writer).2.1 := by
    by_cases hd : (runtime.claim now writer).2.2.1 = .none <;>
      simp [notice, claimedBy, admittedBy, deliveredBy, event, step, hd]
  rw [Refined, hnotice]
  dsimp only [step, choice]
  unfold claim
  split
  · exact ⟨h, .keep⟩
  rename_i lease hcurrent
  obtain ⟨hlease, hactive, _⟩ := currentWriter_eq_some hcurrent
  obtain ⟨hmid, hreelect⟩ := reevaluate_refines h now
  have hdesk := reevaluate_sameDesk runtime now
  rw [← hdesk.writers] at hlease
  rw [← hdesk.activeWriter] at hactive
  generalize runtime.reevaluate now = mid at hmid hreelect hlease hactive ⊢
  unfold reserve
  split
  · exact ⟨hmid, .evaluate hreelect⟩
  rename_i hcond
  rw [not_or, Bool.not_eq_false] at hcond
  have hevent : mid.office.event = some mid.currentEvent := by
    rw [← hmid.offers, offered_of_hasEvent hcond.1]
  refine ⟨hmid.setWriter hactive _, ?_⟩
  rw [if_neg (Office.event_disposition hevent), office_setWriter hlease hactive]
  have hreservation : ∀ token : UInt64, token ≠ 0 → leaseReservation
        { lease with
          nextClaimToken := token
          inFlightClaimToken := token
          inFlightEventRevision := mid.currentEventRevision
          inFlightDelivery := mid.currentEvent
          inFlightAdmitted := false } =
        some ⟨mid.currentEvent, false⟩ := by
    intro token htoken
    rw [leaseReservation, if_neg htoken]
  rw [hreservation _ (bump_ne_zero _)]
  exact .claim hreelect hevent

/-- An admitted frame marks its owner. -/
theorem markActuated_refines {p : Publication}
    {actuated : Bool} (ht : runtime.office.tenure = .holding p actuated) :
    Coherent { runtime with ownerMayHaveActuated := true } ∧
      office { runtime with ownerMayHaveActuated := true } =
        runtime.office.actuate := by
  have hactuate : runtime.office.actuate = { runtime.office with tenure := .holding p true } := by
    rw [Office.actuate, ht]
  change runtime.tenure = _ at ht
  unfold tenure at ht
  split at ht
  next hown =>
    split at ht
    · cases ht
    rename_i hs
    rw [Bool.not_eq_true] at hs
    cases ht
    have hto : tenure { runtime with ownerMayHaveActuated := true } =
        .holding runtime.owner true := tenure_holding hown hs
    have hoffice : office { runtime with ownerMayHaveActuated := true } =
        runtime.office.actuate := by
      rw [hactuate, office, hto]
      rfl
    refine ⟨⟨?_, h.owned, h.current, h.sole, h.filed, h.held⟩, hoffice⟩
    have hoffers : runtime.offered = runtime.office.event := h.offers
    show runtime.offered = _
    rw [hoffers, hoffice, hactuate, Office.event, Office.event]
    rw [show runtime.office.tenure = _ from tenure_holding hown hs]
  · cases ht

/-- The office after the last check of `Admit`. -/
theorem pin_office {now : UInt64}
    (hlease : runtime.writers[writer]? = some lease) (hactive : runtime.activeWriter = some writer)
    (htoken : lease.inFlightClaimToken ≠ 0) (hpin : (runtime.pin writer lease now).2) :
    runtime.office.event = some lease.inFlightDelivery ∧ (runtime.pin writer lease now).1.Coherent ∧
      (runtime.pin writer lease now).1.office =
        { runtime.office.actuate with
          reservation := some ⟨lease.inFlightDelivery, true⟩ } := by
  unfold pin at hpin ⊢
  split at hpin
  · cases hpin
  rename_i hcond
  rw [if_neg hcond]
  simp only [not_or, not_not, Bool.not_eq_false] at hcond
  obtain ⟨hhas, _, hsame, _⟩ := hcond
  have hevent : runtime.office.event = some lease.inFlightDelivery := by
    rw [← h.offers, offered_of_hasEvent hhas, hsame]
  refine ⟨hevent, ?_⟩
  split at hpin
  · cases hpin
  rename_i hfresh
  rw [if_neg hfresh]
  have hnext := h.setWriter hactive { lease with inFlightAdmitted := true }
  have hpinned := office_setWriter hlease hactive { lease with inFlightAdmitted := true }
  have hreservation : leaseReservation { lease with inFlightAdmitted := true } =
        some ⟨lease.inFlightDelivery, true⟩ := by
    rw [leaseReservation, if_neg htoken]
  rw [hreservation] at hpinned
  generalize runtime.setWriter writer { lease with inFlightAdmitted := true }
    = pinned at hnext hpinned ⊢
  split
  next hframe =>
    rw [hsame] at hframe
    obtain ⟨p, actuated, ht, _⟩ := Office.event_frame hevent hframe
    have htp : pinned.office.tenure = .holding p actuated := by
      rw [hpinned]
      exact ht
    obtain ⟨hcoherent, hoffice⟩ := markActuated_refines hnext htp
    refine ⟨hcoherent, ?_⟩
    rw [hoffice, hpinned, Office.actuate, Office.actuate, ht]
  · -- a stop leaves the tenure alone
    rename_i hstop
    refine ⟨hnext, ?_⟩
    have hact : runtime.office.actuate = runtime.office := by
      unfold Office.actuate
      split
      next p actuated ht =>
        rw [Office.event, ht] at hevent
        rw [hsame, ← Option.some.inj hevent] at hstop
        exact absurd rfl hstop
      · rfl
    rw [hpinned, hact]

theorem admitClaim_refines (writer : Nat) (token now : UInt64) :
    Refined runtime (.admitClaim writer token now) := by
  dsimp only [Refined, event, step, choice]
  unfold admitClaim
  split
  · exact ⟨h, .keep⟩
  rename_i lease hexact
  obtain ⟨hcurrent, htoken⟩ := exactClaim_eq_some hexact
  obtain ⟨hlease, hactive, _⟩ := currentWriter_eq_some hcurrent
  split
  · exact ⟨h, .keep⟩
  rename_i hadmitted
  rw [Bool.not_eq_true] at hadmitted
  obtain ⟨hmid, hreelect⟩ := reevaluate_refines h now
  have hdesk := reevaluate_sameDesk runtime now
  have hlease' := hdesk.writers ▸ hlease
  have hactive' := hdesk.activeWriter.trans hactive
  generalize runtime.reevaluate now = mid at hmid hreelect hlease' hactive' ⊢
  cases hpin : (mid.pin writer lease now).2 with
  | false =>
    rw [pin_false hpin]
    exact ⟨hmid, .evaluate hreelect⟩
  | true =>
    obtain ⟨hevent, hcoherent, hoffice⟩ :=
      pin_office hmid hlease' hactive' htoken hpin
    refine ⟨hcoherent, ?_⟩
    have hnotice : notice ⟨runtime, .admitClaim writer token now,
        .answer true, (mid.pin writer lease now).1⟩ = .admitted lease.inFlightDelivery := by
      simp only [notice, claimedBy, admittedBy, reservation_eq hlease]
    have hreserved : mid.office.reservation = some ⟨lease.inFlightDelivery, false⟩ := by
      show mid.outstanding = _
      rw [outstanding_eq hlease' hactive', leaseReservation, if_neg htoken, hadmitted]
    rw [hnotice, hoffice]
    exact .admission hreelect hevent hreserved

theorem finishStop_coherent : runtime.finishStop.Coherent :=
  ⟨rfl, (fun hs => by cases hs), (fun hown => by cases hown), h.sole, h.filed,
    fun hown => by cases hown⟩

theorem complete_refines (writer : Nat) (token : UInt64) (delivered : Bool) (now : UInt64) :
    Refined runtime (.complete writer token delivered now) := by
  dsimp only [Refined, event, step, choice]
  unfold complete
  split
  · exact ⟨h, by cases delivered <;> exact .keep⟩
  rename_i lease hexact
  obtain ⟨hcurrent, htoken⟩ := exactClaim_eq_some hexact
  obtain ⟨hlease, hactive, _⟩ := currentWriter_eq_some hcurrent
  split
  · exact ⟨h, by cases delivered <;> exact .keep⟩
  rename_i hpinned
  dsimp only
  have hreleased := office_resolved hlease hactive delivered
  have hcoherent := h.setWriter hactive (resolvedLease lease delivered)
  have hreserved (hd : delivered) : runtime.office.reservation =
      some ⟨lease.inFlightDelivery, true⟩ := by
    have hadmitted : lease.inFlightAdmitted := by
      cases hl : lease.inFlightAdmitted with
      | true => rfl
      | false => exact absurd ⟨hd, hl⟩ hpinned
    show runtime.outstanding = _
    rw [outstanding_eq hlease hactive, leaseReservation, if_neg htoken, hadmitted]
  have hnotice (hd : delivered) (post : Runtime) :
      notice ⟨runtime, .complete writer token delivered now,
        .answer true, post⟩ = .delivered lease.inFlightDelivery := by
    simp only [hd, notice, claimedBy, admittedBy, deliveredBy, reservation_eq hlease]
  split
  next hstop =>
    obtain ⟨hd, hdisposition, hhas, _, hsame⟩ := hstop
    have hevent : runtime.office.event = some lease.inFlightDelivery := by
      rw [← h.offers, offered_of_hasEvent hhas, hsame]
    obtain ⟨p, ht, hdelivery⟩ := Office.event_stop hevent hdisposition
    obtain ⟨hnext, hreelect⟩ :=
      reevaluate_refines (finishStop_coherent hcoherent) now
    rw [office_finishStop, hreleased] at hreelect
    refine ⟨hnext, ?_⟩
    rw [hnotice hd, hdelivery]
    exact .close ht (by rw [hreserved hd, hdelivery]) hreelect
  · obtain ⟨hnext, hreelect⟩ := reevaluate_refines hcoherent now
    rw [hreleased] at hreelect
    refine ⟨hnext, ?_⟩
    cases hd : delivered with
    | false =>
      subst hd
      exact .giveUp hreelect
    | true =>
      subst hd
      rw [hnotice rfl]
      exact .deliver (hreserved rfl) hreelect

/-- **Every method is one move of the tenure protocol**, whatever its
arguments, and keeps the state coherent. -/
theorem step_refines (op : Op) : (step runtime op).1.Coherent ∧
      Office.Move (runtime.choice op) runtime.office
        (notice (event step runtime op)) (step runtime op).1.office := by
  cases op with
  | publish p => exact publish_refines h p
  | acquireWriter device transport => exact acquireWriter_refines h device transport
  | retireWriter writer => exact retireWriter_refines h writer
  | claim now writer => exact claim_refines h now writer
  | admitClaim writer token now => exact admitClaim_refines h writer token now
  | complete writer token delivered now => exact complete_refines h writer token delivered now

end Runtime

end Viiper.Ports.Feedback
