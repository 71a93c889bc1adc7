import Viiper.Ports.DualSensePeaks

/-!
# Runs of the DualSense input scheduler

The log of a run says which states were received, which of them were transitions, and
which reports were committed; an entry's `ordinal` is the position of its state.

The results are about calm runs: no call retires the presentation generation or overflows
the ring, and a state which repeats the peak value of a trigger repeats its physical
status.  The last condition is needed: the scheduler writes a status which settles later
into the saved state of the peak, which is then queued again behind transitions received
after it.
-/

namespace Viiper.Ports.DualSense

open Verified Go Run List Option Scheduler

/-! ## The log of a run -/

/-- The ordinal of the state a call received, if it was a transition. -/
def acceptedTransition (e : Event Scheduler Op Answer) : Option Nat :=
  (accepted e).bind fun next =>
    if inputStateHasTransition e.pre.previous next then some (e.pre.receiveOrdinal + 1) else none

def logOf (evs : List (Event Scheduler Op Answer)) : Log where
  received := evs.filterMap accepted
  transitions := evs.filterMap acceptedTransition
  committed := (evs.filterMap committed).map (·.entry)

/-- `Steady`, as a check. -/
def steady (trigger : Side → InputTriggerEpoch) (next : InputState) : Bool :=
  [Side.left, .right].all fun t =>
    !(trigger t).active || triggerValue next t != (trigger t).peak ||
      triggerPhysicalStatusMatches (trigger t).peakState next t

/-- The call does not retire the generation or overflow the ring, and a state it makes
the scheduler receive is steady. -/
def Scheduler.calm (s : Scheduler) (op : Op) : Bool :=
  op.keeps && (s.step op).1.overflows == s.overflows &&
    (accepted (event Scheduler.step s op)).all (steady s.trigger)

/-- A state the call makes the scheduler receive has only buttons the controller has. -/
def Scheduler.known (s : Scheduler) (op : Op) : Bool :=
  (accepted (event Scheduler.step s op)).all (!inputStateControlsInvalid ·)

variable {s s' : Scheduler} {evs : List (Event Scheduler Op Answer)} {next : InputState}
  {c : ActiveClaim} {e : Event Scheduler Op Answer} {op : Op} {now : Time}

theorem steady_iff {trigger : Side → InputTriggerEpoch} :
    steady trigger next = true ↔ Steady trigger next := by
  simp only [steady, all_cons, all_nil, Bool.and_true, Bool.and_eq_true, Steady]
  constructor
  · rintro ⟨hl, hr⟩ t hactive hvalue
    cases t <;> simp_all
  · intro h
    constructor
    · have := h .left
      grind
    · have := h .right
      grind

/-! ## The invariant along a run -/

/-- What a run has established. -/
structure History (evs : List (Event Scheduler Op Answer)) (s : Scheduler) : Prop where
  shape : s.Shape
  inv : Inv s.view (logOf evs) s.previous
  ordinal : s.receiveOrdinal = (logOf evs).received.length

theorem made_received {g : Log} (hordinal : s.receiveOrdinal = g.received.length)
    (next : InputState) (now : Time) :
    Made ((s.receive next now).received next now) (s.receive next now).trigger g s.previous next :=
  ⟨rfl, congrArg (· + 1) hordinal, rfl, rfl, fun _ => rfl⟩

/-- A state which is no transition neither presses nor releases a trigger. -/
theorem no_transition {previous : Option InputState}
    (h : inputStateHasTransition previous next = false) (t : Side) :
    previous.any (triggerValue · t != 0) = (triggerValue next t != 0) := by
  cases previous with
  | none => cases t <;> simp_all [inputStateHasTransition, inputStateNonNeutral, triggerValue]
  | some p =>
    simp only [inputStateHasTransition, Bool.or_eq_false_iff] at h
    cases t
    · have := h.1.1.1.2
      simp only [triggerValue, any_some]
      grind
    · have := h.1.1.2
      simp only [triggerValue, any_some]
      grind

theorem Scheduler.schedule_plain (h : inputStateHasTransition s.previous next = false) :
    (s.receive next now).schedule next now =
      { s.receive next now with latest := some ((s.receive next now).received next now) } := by
  simp only [schedule]
  rw [if_neg (by simpa [receive] using h)]

theorem History.receive {g : Log} (hs : s.Shape) (h : Inv s.view g s.previous)
    (hordinal : s.receiveOrdinal = g.received.length) (hsteady : Steady s.trigger next)
    (hoverflows : ((s.receive next now).schedule next now).overflows = s.overflows) :
    (((s.receive next now).schedule next now).settle s.previous next).Shape ∧
      Inv (((s.receive next now).schedule next now).settle s.previous next).view
        (g.receive next (inputStateHasTransition s.previous next)) (some next) := by
  have hmade := made_received hordinal next now
  obtain ⟨start, hk, hreceived⟩ := h.arrive hsteady (fun t => by rw [← hordinal]; rfl) hmade
  cases htransition : inputStateHasTransition s.previous next with
  | true =>
    have hs1 : (s.receive next now).Shape := { hs with }
    obtain ⟨hshape, t, v, v', hk1, hk2, hview⟩ :=
      schedule_transition hs1 htransition hoverflows
    obtain ⟨hk', htrigger, hmono, hsecured⟩ := hk.kept hk1
    obtain ⟨hk'', htrigger', hmono', hsecured'⟩ := hk'.kept hk2
    refine ⟨{ hshape with }, ?_⟩
    have hinv := h.transition hmade hreceived hk'' (htrigger'.trans htrigger) fun t' ht' => ?_
    · have hsettle : (((s.receive next now).schedule next now).settle s.previous next).view =
          { ((s.receive next now).schedule next now).view with
            trigger := settled ((s.receive next now).schedule next now).view.trigger s.previous
              next } := rfl
      rw [hsettle, hview, htrigger'.trans htrigger]
      exact hinv
    · -- the peak of one trigger is secured by the first call, of the other by the second
      by_cases htt : t' = t
      · subst htt
        exact (hsecured ht').imp_left (hmono' t')
      · obtain rfl : t' = t.other := by
          cases t <;> cases t' <;> first | rfl | exact absurd rfl htt
        have := hsecured' (by rw [htrigger]; exact ht')
        rwa [htrigger] at this
  | false =>
    rw [schedule_plain htransition]
    exact ⟨{ hs with latest := by rintro x ⟨⟩; rfl },
      h.latch hmade hreceived hk (no_transition htransition)⟩

theorem logOf_shift (h : accepted e = none) :
    logOf (evs ++ [e]) = (logOf evs).commit ((committed e).map (·.entry)) := by
  cases hc : committed e <;> simp [logOf, Log.commit, acceptedTransition, h, hc]

theorem logOf_receive (h : accepted e = some next) (hc : committed e = none)
    (hordinal : e.pre.receiveOrdinal = (logOf evs).received.length) :
    logOf (evs ++ [e]) =
      (logOf evs).receive next (inputStateHasTransition e.pre.previous next) := by
  cases ht : inputStateHasTransition e.pre.previous next <;>
    simp [logOf, Log.receive, acceptedTransition, h, hc, ht, hordinal]

theorem history_step (h : History evs s) (hcalm : s.calm op) :
    History (evs ++ [event step s op]) (s.step op).1 := by
  simp only [calm, Bool.and_eq_true, beq_iff_eq] at hcalm
  obtain ⟨⟨hkeep, hoverflows⟩, hsteady⟩ := hcalm
  cases step_happens h.shape hkeep with
  | @receive next now haccepted hcommitted hpost =>
    change (s.step op).1 = _ at hpost
    rw [haccepted, all_some, steady_iff] at hsteady
    rw [hpost] at hoverflows
    obtain ⟨hshape, hinv⟩ :=
      History.receive h.shape h.inv h.ordinal hsteady hoverflows
    rw [hpost]
    refine ⟨hshape, ?_, ?_⟩ <;> rw [logOf_receive haccepted hcommitted h.ordinal]
    · exact hinv
    · change ((s.receive next now).schedule next now).receiveOrdinal = _
      rw [schedule_receiveOrdinal]
      simpa [receive, Log.receive] using h.ordinal
  | shift haccepted hshape hshift _ hprevious hordinal hsame =>
    refine ⟨hshape, ?_, ?_⟩ <;> rw [logOf_shift haccepted]
    · exact hprevious ▸ h.inv.shift hshift
    · exact hordinal.trans h.ordinal

theorem history_new (edge : Bool) (now : Time) : History [] (newScheduler edge now) where
  shape := ⟨⟨Nat.zero_lt_succ 63, Nat.zero_le _⟩,
    by simp [ring, newScheduler, RingBuffer.window], by simp [newScheduler],
    by simp [newScheduler], by simp [newScheduler]⟩
  inv := inv_new edge now
  ordinal := rfl

/-! ## What the reports carry -/

structure Known (v : View) : Prop where
  entry : ∀ x ∈ v.entries, inputStateControlsInvalid x.state = false
  peak : ∀ t, (v.trigger t).active →
    inputStateControlsInvalid (v.trigger t).peakState = false

theorem Known.shift {v v' : View} {o} (h : Known v) (hs : Shift v v' o) : Known v' := by
  constructor
  · intro y hy
    obtain ⟨x, hx, hxy⟩ := hs.old hy
    exact hxy.state ▸ h.entry x hx
  · intro t ht
    obtain ⟨-, hactive, -, hstate, -⟩ := hs.trigger_frame t
    exact hstate ▸ h.peak t (hactive ▸ ht)

theorem Known.kept {v v' : View} {t : Side} {e : ScheduledInputState} (h : Known v)
    (hk : Kept v t e v') : Known v' := by
  -- the entries of a line which grew by one
  have hjoin : ∀ x : ScheduledInputState, inputStateControlsInvalid x.state = false →
      Known { v with line := v.line ++ [x], latest := none } := by
    intro x hx
    refine ⟨fun y hy => ?_, h.peak⟩
    rw [mem_entries] at hy
    have hold := h.entry y
    rw [mem_entries] at hold
    grind
  cases hk with
  | inactive | shown | upcoming | waiting => exact h
  | @recovered x hx hrep =>
    refine ⟨fun y hy => h.entry y ?_, h.peak⟩
    rw [mem_entries] at hy ⊢
    grind
  | @raised i x hactive hx hepoch hlayout =>
    refine ⟨fun y hy => ?_, h.peak⟩
    rcases mem_entries.1 hy with hy | hy
    · rcases mem_or_eq_of_mem_set hy with hy | rfl
      · exact h.entry y (mem_entries.2 (.inl hy))
      · exact valid_setTriggerPeak (h.entry x (mem_entries.2 (.inl (mem_of_getElem? hx)))) _ _ _
    · exact h.entry y (mem_entries.2 (.inr hy))
  | @promoted x hactive hx hrep =>
    refine hjoin _ ?_
    rw [invalid_copy]
    exact h.entry x (mem_entries.2 (.inr (.inr (.inl hx))))
  | saved generation hactive => exact hjoin _ (h.peak t hactive)

/-- The reports of the claim and of the retry slot carry the values of their entries. -/
structure Printed (s : Scheduler) : Prop where
  claim : ∀ c ∈ s.claim, ∀ t : Side, c.report[t.offset]? = some (c.entry.value t)
  retry : ∀ r ∈ s.retry, ∀ t : Side, r.report[t.offset]? = some (r.entry.value t)

theorem offers_enqueue (s : Scheduler) (e : ScheduledInputState) :
    (s.enqueueTransition e).offers = s.offers := by
  unfold enqueueTransition
  split <;> rfl

theorem offers_preserve (s : Scheduler) (t : Side) (e : ScheduledInputState) :
    (s.preserveTriggerPeakBeforeTransition t e).offers = s.offers := by
  unfold preserveTriggerPeakBeforeTransition
  simp only
  split_ifs <;> try rfl
  · cases hc : s.claim <;> simp [offers, hc]
  · split
    · rfl
    · split <;> exact offers_enqueue _ _

/-- Receiving a state touches neither report. -/
theorem offers_schedule (s : Scheduler) (next : InputState) (now : Time) :
    (s.schedule next now).offers = s.offers := by
  unfold schedule preservePeaks
  simp only
  split_ifs <;> first
    | simp only [offers_enqueue, offers_preserve]
    | rfl

theorem Printed.of_offers (h : Printed s) (heq : s'.offers = s.offers) : Printed s' := by
  simp only [offers, Prod.mk.injEq] at heq
  refine ⟨fun c hc t => ?_, fun r hr => h.retry r (heq.2 ▸ hr)⟩
  rw [mem_def.1 hc, map_some] at heq
  obtain ⟨c', hc', hcc⟩ := map_eq_some_iff.1 heq.1.symm
  simp only [Prod.mk.injEq] at hcc
  rw [← hcc.1, ← hcc.2]
  exact h.claim c' hc' t

theorem Printed.resolve {o} (h : Printed s) (hr : Scheduler.Resolves s s' o) : Printed s' := by
  cases hr with
  | stale => exact h
  | commit hc => exact ⟨by simp [commitClaim], h.retry⟩
  | @defer c hc =>
    unfold deferClaim
    split_ifs
    · refine ⟨by simp, fun r hr => ?_⟩
      obtain rfl := some.inj hr
      exact h.claim c hc
    · exact ⟨by simp, h.retry⟩
    · exact ⟨by simp, h.retry⟩

theorem claim_mem (hs : s.Shape) (hc : s.claim = some c) : c.entry ∈ s.view.entries := by
  have hnone := hs.exclusive (by simp [hc])
  rw [mem_entries]
  cases hsec : c.secured with
  | true =>
    rw [view_of_secured hc hnone hsec]
    exact .inl mem_cons_self
  | false =>
    rw [view_of_loose hc hnone hsec]
    exact .inr (.inl rfl)

theorem Printed.claims {out} (hs : s.Shape) (h : Printed s) (hknown : Known s'.view)
    (hc : Scheduler.Claims s now s' out) : Printed s' := by
  have hs' := hs.beginClaim hc
  cases hc with
  | busy => exact h
  | @claimed c hfree hentry _ n hretry hreport =>
    refine ⟨?_, ?_⟩
    · intro c' hc' t
      obtain rfl := some.inj hc'
      cases hr : s.retry with
      | some r =>
        have hselect : (s.selectState now).2 = r.entry := by simp [selectState, hr]
        rw [hretry r hr, hentry, hselect]
        exact h.retry r hr t
      | none =>
        obtain ⟨battery, sequence, packetSequence, timestamp, heq⟩ := hreport hr
        rw [heq]
        exact encode_trigger (hknown.entry _ (claim_mem hs' rfl)) _ _ _ _ _ t
    · have hnone := hs'.exclusive rfl
      intro r hr
      cases hnone.symm.trans hr

theorem Known.receive (hs : s.Shape) (h : Known s.view) (hsteady : Steady s.trigger next)
    (hnext : inputStateControlsInvalid next = false)
    (hoverflows : ((s.receive next now).schedule next now).overflows = s.overflows) :
    Known (((s.receive next now).schedule next now).settle s.previous next).view := by
  have hs1 : (s.receive next now).Shape := { hs with }
  have h1 : Known (s.receive next now).view := by
    refine ⟨h.entry, fun t ht => ?_⟩
    change (receiveTrigger (s.trigger t) s.previous next now _ t).active = true at ht
    change inputStateControlsInvalid
      (receiveTrigger (s.trigger t) s.previous next now _ t).peakState = false
    rcases @receiveTrigger_cases s.previous s.trigger next now (s.receiveOrdinal + 1) hsteady t with
      ⟨-, heq⟩ | ⟨-, -, -, heq⟩ | ⟨-, -, heq⟩ <;> rw [heq] at ht ⊢
    · exact hnext
    · exact hnext
    · exact h.peak t ht
  -- the end of the call only ends epochs
  suffices hschedule : Known ((s.receive next now).schedule next now).view by
    refine ⟨hschedule.entry, fun t ht => ?_⟩
    change (settled _ s.previous next t).active = true at ht
    change inputStateControlsInvalid (settled ((s.receive next now).schedule next now).trigger
      s.previous next t).peakState = false
    unfold settled at ht ⊢
    split at ht
    · cases ht
    next hkeep =>
      rw [if_neg hkeep]
      exact hschedule.peak t ht
  cases htransition : inputStateHasTransition s.previous next with
  | true =>
    obtain ⟨-, t, v, v', hk1, hk2, hview⟩ :=
      schedule_transition hs1 htransition hoverflows
    have h2 := (h1.kept hk1).kept hk2
    rw [hview]
    refine ⟨fun y hy => ?_, h2.peak⟩
    rw [mem_entries] at hy
    have hold := h2.entry y
    rw [mem_entries] at hold
    have hnew : inputStateControlsInvalid
        ((s.receive next now).received next now).inOrder.state = false := hnext
    grind
  | false =>
    rw [schedule_plain htransition]
    refine ⟨fun y hy => ?_, h1.peak⟩
    rcases mem_entries.1 hy with hy | hy | hy | hy
    · exact h1.entry y (mem_entries.2 (.inl hy))
    · exact h1.entry y (mem_entries.2 (.inr (.inl hy)))
    · obtain rfl := some.inj hy
      exact hnext
    · exact h1.entry y (mem_entries.2 (.inr (.inr (.inr hy))))

/-- What a run of states with known controls has established. -/
structure Carried (evs : List (Event Scheduler Op Answer)) (s : Scheduler) : Prop where
  history : History evs s
  known : Known s.view
  printed : Printed s
  commits : ∀ c ∈ evs.filterMap committed, ∀ t : Side, c.report[t.offset]? = some (c.entry.value t)

theorem committed_claim (h : committed e = some c) : e.pre.claim = some c := by
  unfold committed at h
  split at h
  · exact h
  · exact h
  · cases h

theorem carried_step (h : Carried evs s) (hcalm : s.calm op) (hknown : s.known op) :
    Carried (evs ++ [event step s op]) (s.step op).1 := by
  have hhistory := history_step h.history hcalm
  have hcommits : ∀ c ∈ (evs ++ [event step s op]).filterMap committed, ∀ t : Side,
      c.report[t.offset]? = some (c.entry.value t) := by
    intro c hc t
    rw [filterMap_append, mem_append] at hc
    rcases hc with hc | hc
    · exact h.commits c hc t
    · obtain ⟨e, he, hce⟩ := mem_filterMap.1 hc
      obtain rfl := mem_singleton.1 he
      exact h.printed.claim c (committed_claim hce) t
  simp only [calm, Bool.and_eq_true, beq_iff_eq] at hcalm
  obtain ⟨⟨hkeep, hoverflows⟩, hsteady⟩ := hcalm
  cases step_happens h.history.shape hkeep with
  | @receive next now haccepted hcommitted hpost =>
    change (s.step op).1 = _ at hpost
    rw [haccepted, all_some, steady_iff] at hsteady
    rw [known, haccepted, all_some, Bool.not_eq_true'] at hknown
    rw [hpost] at hoverflows
    refine ⟨hhistory, ?_, ?_, hcommits⟩ <;> rw [hpost]
    · exact h.known.receive h.history.shape hsteady hknown hoverflows
    · exact h.printed.of_offers (offers_schedule (s.receive next now) next now)
  | shift haccepted hshape hshift hturns =>
    have hknown' := h.known.shift hshift
    refine ⟨hhistory, hknown', ?_, hcommits⟩
    cases hturns with
    | same hsame => exact h.printed.of_offers hsame
    | claims hclaims => exact h.printed.claims h.history.shape hknown' hclaims
    | resolves hresolves => exact h.printed.resolve hresolves

/-- The values of a trigger in the received states. -/
def values (evs : List (Event Scheduler Op Answer)) (t : Side) : List UInt8 :=
  (evs.filterMap accepted).map (triggerValue · t)

/-- A claim which is committed does not overtake a peak which waits. -/
theorem not_waits_of_claim (hs : s.Shape) {t : Side} {a b : Nat} {peak : UInt8}
    (hc : s.claim = some c) (hlate : b < c.entry.ordinal) : ¬ Waits s.view t a b peak := by
  rintro ⟨hloose, k, x, hx, -, hxb, -, hahead⟩
  have hnone := hs.exclusive (by simp [hc])
  cases hsec : c.secured with
  | false =>
    rw [view_of_loose hc hnone hsec] at hloose
    exact absurd (hloose c.entry rfl) (Nat.not_le_of_lt hlate)
  | true =>
    rw [view_of_secured hc hnone hsec] at hx hahead
    cases k with
    | zero =>
      obtain rfl : c.entry = x := by simpa using hx
      omega
    | succ k => exact absurd (hahead 0 c.entry (by omega) rfl) (Nat.not_le_of_lt hlate)

theorem carried_new (edge : Bool) (now : Time) : Carried [] (newScheduler edge now) where
  history := history_new edge now
  known := by
    constructor
    · simp only [mem_entries, view, line, loose, ring, newScheduler, RingBuffer.window]
      rintro x (hx | hx | hx | rfl)
      · simp at hx
      · simp at hx
      · simp at hx
      · exact (by decide : inputStateControlsInvalid neutralInputState = false)
    · simp [view, newScheduler]
  printed := ⟨by simp [newScheduler], by simp [newScheduler]⟩
  commits := by simp

/-- Where an element of a filtered list comes from. -/
private theorem filterMap_split {α β : Type*} {f : α → Option β} {l : List α} {xs ys : List β}
    {y : β} (h : l.filterMap f = xs ++ y :: ys) :
    ∃ l₁ x l₂, l = l₁ ++ x :: l₂ ∧ l₁.filterMap f = xs ∧ f x = some y := by
  obtain ⟨l₁, l₂, rfl, h₁, h₂⟩ := filterMap_eq_append_iff.1 h
  obtain ⟨m, x, r, rfl, hm, hx, -⟩ := filterMap_eq_cons_iff.1 h₂
  refine ⟨l₁ ++ m, x, r, by simp, ?_, hx⟩
  rw [filterMap_append, h₁, filterMap_eq_nil_iff.2 hm, append_nil]

/-- **The highest value of a press is presented before its release.**  In a calm run of
states with known controls, take a press of a trigger, from position `a` to the release
at position `b` of the received states.  Before any report is committed which was
received with the release or later, a report received during the press is committed which
carries the highest value of the press. -/
theorem peak_presented (edge : Bool) (now : Time) (ops : List Op)
    (hrun : Allowed Scheduler.step (fun _ s op => s.calm op ∧ s.known op) []
      (newScheduler edge now) ops)
    (t : Side) (a b : Nat) (peak : UInt8)
    (hpressed : Pressed (values (trace Scheduler.step (newScheduler edge now) ops) t) a b peak)
    (hreleased : (values (trace Scheduler.step (newScheduler edge now) ops) t)[b]? = some 0)
    (before : List ActiveClaim) (c : ActiveClaim) (after : List ActiveClaim)
    (hc : (trace Scheduler.step (newScheduler edge now) ops).filterMap committed =
      before ++ c :: after)
    (hlate : b < c.entry.ordinal) :
    ∃ d ∈ before, a < d.entry.ordinal ∧ d.entry.ordinal ≤ b ∧ d.report[t.offset]? = some peak := by
  -- the run up to the commit
  obtain ⟨evs, e, rest, hevs, hbefore, he⟩ := filterMap_split hc
  obtain ⟨ops₁, op, ops₂, hops, rfl, rfl, -⟩ := trace_eq_append_cons hevs
  rw [hops, allowed_append] at hrun
  have hcarried : Carried (trace step (newScheduler edge now) ops₁)
      (final step (newScheduler edge now) ops₁) :=
    history_induction (carried_new edge now) (fun _ _ _ h hok => carried_step h hok.1 hok.2) ops₁
      hrun.1
  have hclaim := committed_claim he
  have hinv := hcarried.history.inv
  -- the press is over by then, since the report was received after it
  have hlength : b < (logOf (trace step (newScheduler edge now) ops₁)).received.length := by
    refine Nat.lt_of_lt_of_le hlate (hinv.order.bound c.entry ?_)
    exact claim_mem hcarried.history.shape hclaim
  have hvalues : values (trace step (newScheduler edge now) ops) t =
      (logOf (trace step (newScheduler edge now) ops₁)).values t ++
        values (event step (final step (newScheduler edge now) ops₁) op :: rest) t := by
    rw [hevs]
    simp [values, Log.values, logOf]
  rw [hvalues] at hpressed hreleased
  rw [Pressed.append _ (by rw [length_values]; omega)] at hpressed
  rw [getElem?_append_left (by rwa [length_values])] at hreleased
  rcases hinv.past t a b peak hpressed hreleased with ⟨d, hd, had, hdb, hvalue⟩ | hwaits
  · obtain ⟨d, hmem, rfl⟩ := mem_map.1 hd
    refine ⟨d, hbefore ▸ hmem, had, hdb, ?_⟩
    rw [hcarried.commits d hmem t, hvalue]
  · exact absurd hwaits (not_waits_of_claim hcarried.history.shape hclaim hlate)

/-- A state with the given left trigger status, trigger values and buttons. -/
def statusState (status l2 r2 : UInt8) (buttons : UInt32) : InputState :=
  { neutralInputState with
    l2 := l2
    r2 := r2
    buttons := buttons
    physicalMetadataValid := true
    physicalInputMetadata := (Vector.replicate 15 0).set Side.left.status status }

def receiveOp (state : InputState) : Op := .update (some state) 0 0

/-- Claim and commit one report. -/
def presentOps (token : UInt64) : List Op := [.beginClaim 0 0 64, .complete token true 0]

/-- A press of the right trigger to 100 between two claims. -/
def pressRun : List Op :=
  receiveOp (statusState 0 0 10 0) :: presentOps 1 ++
    [receiveOp (statusState 0 0 100 0), receiveOp (statusState 0 0 50 0),
      receiveOp (statusState 0 0 0 0)] ++ presentOps 2 ++ presentOps 3

def pressCommits : List ActiveClaim :=
  (trace Scheduler.step (newScheduler false 0) pressRun).filterMap committed

theorem peak_presented_pressRun : ∃ d ∈ pressCommits.take 2,
      0 < d.entry.ordinal ∧ d.entry.ordinal ≤ 3 ∧ d.report[Side.right.offset]? = some 100 := by
  have hvalues : values (trace step (newScheduler false 0) pressRun) .right =
      [10, 100, 50, 0] := by decide +kernel
  have hlength : 2 < pressCommits.length := by decide +kernel
  have hlate : ∀ h : 2 < pressCommits.length, 3 < (pressCommits.get ⟨2, h⟩).entry.ordinal := by
    decide +kernel
  have hcommits : pressCommits =
      pressCommits.take 2 ++ pressCommits.get ⟨2, hlength⟩ :: pressCommits.drop 3 := by
    rw [get_eq_getElem, ← drop_eq_getElem_cons, take_append_drop]
  refine peak_presented false 0 pressRun (by decide +kernel) .right 0 3 100 ?_ ?_ _ _ _ hcommits
    (hlate hlength)
  · rw [hvalues]
    refine ⟨by decide, .inl rfl, ?_, 1, by decide, by decide, rfl⟩
    intro i v _ hi hv
    have hcases : i = 0 ∨ i = 1 ∨ i = 2 := by omega
    rcases hcases with rfl | rfl | rfl <;> cases hv <;> decide
  · rw [hvalues]
    rfl

/-- The left trigger stays at its peak while its status settles, and the right trigger is
pressed again in the meantime. -/
def peakLostRun : List Op :=
  receiveOp (statusState 0 255 200 0) :: presentOps 1 ++
    receiveOp (statusState 0 255 0 0) :: presentOps 2 ++
    receiveOp (statusState 0 255 10 0) :: presentOps 3 ++
    [receiveOp (statusState 1 255 100 0), receiveOp (statusState 1 250 50 0),
      receiveOp (statusState 1 250 0 0)] ++ presentOps 4 ++ presentOps 5

/-- The second press of the right trigger reaches 100, and no report of the run carries
100: the saved left peak, which has the right trigger of the first press, stands in. -/
theorem settled_peak_lost : peakLostRun.all Op.keeps ∧
    (final Scheduler.step (newScheduler false 0) peakLostRun).overflows = 0 ∧
    values (trace Scheduler.step (newScheduler false 0) peakLostRun) .right =
      [200, 0, 10, 100, 50, 0] ∧
    ((trace Scheduler.step (newScheduler false 0) peakLostRun).filterMap committed).map
      (·.report[Side.right.offset]?) = [some 200, some 0, some 10, some 200, some 0] := by
  decide +kernel

/-! ## Transitions -/

/-- The ordered work and the claim, in the order of presentation. -/
def Scheduler.pending (s : Scheduler) : List ScheduledInputState :=
  (s.claim.map (·.entry)).toList ++ (s.retry.map (·.entry)).toList ++ s.ring

/-- The report a call offered to the endpoint. -/
def offered (e : Event Scheduler Op Answer) : Option Bytes :=
  match e.out with
  | .claimed (some (report, _)) => some report
  | _ => none

/-- The report a call deferred. -/
def deferred (e : Event Scheduler Op Answer) : Option ActiveClaim :=
  match e.op, e.out with
  | .complete _ false _, .resolved true => e.pre.claim
  | .resolve _ _ .defer _, .resolved true => e.pre.claim
  | _, _ => none

/-- The claim of a continuous state is no transition. -/
theorem own_pending {g : Log} {previous : Option InputState} (hs : s.Shape)
    (h : Inv s.view g previous) : g.own s.pending = g.own s.line := by
  cases hc : s.claim with
  | none => simp [pending, line, hc]
  | some c =>
    have hnone := hs.exclusive (by simp [hc])
    cases hsec : c.secured with
    | true => simp [pending, line, hc, hnone, Option.filter, hsec]
    | false =>
      have hview := view_of_loose hc hnone hsec
      have hordered : c.entry.ordered = false := h.order.loose c.entry (by rw [hview]; rfl)
      have hcontinuous := h.order.continuous c.entry (claim_mem hs hc) hordered
      have hpending : s.pending = [c.entry] ++ s.line := by
        simp [pending, line, hc, hnone, hsec]
      rw [hpending, Log.own_append, Log.own_eq_nil (.inr hcontinuous), nil_append]

theorem Scheduler.resolveClaimAt_defer (hc : s.claim = some c) (token generation : UInt64)
    (completedAt : Time) (htrue : (s.resolveClaimAt token generation .defer completedAt).2) :
    (s.resolveClaimAt token generation .defer completedAt).1 = s.deferClaim c := by
  unfold resolveClaimAt at htrue ⊢
  simp only [hc] at htrue ⊢
  split_ifs at htrue ⊢ <;> rfl

/-- A failed ordered report waits in the retry slot. -/
theorem deferred_retry (h : deferred (event step s op) = some c) (hsecured : c.secured) :
    (s.step op).1.claim = none ∧ ∃ r, (s.step op).1.retry = some r ∧ r.report = c.report := by
  have hpost : (s.step op).1 = s.deferClaim c := by
    unfold deferred at h
    split at h
    next hop hout =>
      obtain rfl : op = _ := hop
      exact resolveClaimAt_defer h _ _ _ (Answer.resolved.inj hout)
    next hop hout =>
      obtain rfl : op = _ := hop
      exact resolveClaimAt_defer h _ _ _ (Answer.resolved.inj hout)
    · cases h
  have hordered : (c.entry.ordered || c.requiresOrderedRecovery) := hsecured
  rw [hpost, deferClaim, if_pos hordered]
  exact ⟨rfl, _, rfl, rfl⟩

theorem Scheduler.Claims.eq_of_none (h : Scheduler.Claims s now s' none) : s' = s := by
  cases h
  rfl

theorem Scheduler.Resolves.eq_of_free {o : Option ActiveClaim} (h : Scheduler.Resolves s s' o)
    (hfree : s.claim = none) : s' = s := by
  cases h with
  | stale => rfl
  | commit hc | defer hc => exact absurd (hfree.symm.trans hc) (by simp)

/-- The retry slot is emptied by nothing but a claim. -/
theorem retry_stays (hs : s.Shape) (hkeep : op.keeps) {r : Retry} (hfree : s.claim = none)
    (hr : s.retry = some r) (hoffered : offered (event step s op) = none) :
    (s.step op).1.claim = none ∧ (s.step op).1.retry = some r := by
  have hoffers : (event step s op).post.offers = s.offers := by
    cases step_happens hs hkeep with
    | @receive next now _ _ hpost =>
      rw [hpost]
      exact offers_schedule (s.receive next now) next now
    | shift _ _ _ hturns =>
      cases hturns with
      | same h => exact h
      | @claims now out h hout =>
        cases out with
        | none => rw [h.eq_of_none]; rfl
        | some answer => cases (by simpa only [offered, hout] using hoffered)
      | resolves h => rw [h.eq_of_free hfree]; rfl
  simp only [offers, Prod.mk.injEq, hfree, hr, map_none, map_eq_none_iff] at hoffers
  exact hoffers

/-- A waiting retry is what the next claim offers. -/
theorem offered_retry {r : Retry} {report : Bytes} (hr : s.retry = some r)
    (h : offered (event step s op) = some report) : report = r.report := by
  cases op with
  | beginClaim now battery destination =>
    have hclaims := s.beginClaim_claims now battery destination
    simp only [offered, event, step] at h
    generalize s.beginClaim now battery destination = answer at hclaims h
    cases answer with
    | mk s' out =>
      cases hclaims with
      | busy => cases h
      | claimed _ _ _ n hretry => exact (some.inj h).symm.trans (hretry r hr)
  | _ => cases h

/-- The retry slot through calls which claim nothing. -/
theorem retry_waits {r : Retry} (ops : List Op) : ∀ (evs : List (Event Scheduler Op Answer))
    (s : Scheduler), History evs s →
    Allowed step (fun _ s op => s.calm op) evs s ops →
    s.claim = none → s.retry = some r → (∀ e ∈ trace step s ops, offered e = none) →
    (final step s ops).retry = some r := by
  induction ops with
  | nil => exact fun _ _ _ _ _ hr _ => hr
  | cons op ops ih =>
    intro evs s hs hrun hfree hr hnone
    obtain ⟨hcalm, hrun⟩ := hrun
    have hkeep : op.keeps := by
      simp only [calm, Bool.and_eq_true] at hcalm
      exact hcalm.1.1
    have hstays := retry_stays hs.shape hkeep hfree hr (hnone _ mem_cons_self)
    exact ih _ _ (history_step hs hcalm) hrun hstays.1 hstays.2
      fun e he => hnone e (mem_cons_of_mem _ he)

/-- **Transitions are linear and lossless.**  In a calm run the transitions are numbered as
they were received; those committed, followed by those in the claim, the retry slot and
the ring, are all of them in this order; no report older than a committed transition is
committed after it; and an ordered report which failed is what the next claim offers. -/
theorem transitions_linear (edge : Bool) (now : Time) (ops : List Op)
    (hrun : Allowed Scheduler.step (fun _ s op => s.calm op) []
      (newScheduler edge now) ops) :
    let g := logOf (trace step (newScheduler edge now) ops)
    g.transitions.Pairwise (· < ·) ∧
    g.own g.committed ++ g.own (final step (newScheduler edge now) ops).pending =
      g.transitions ∧
    (g.committed.Pairwise fun c d => c.ordinal ∈ g.transitions → c.ordinal ≤ d.ordinal) ∧
    ∀ evs₁ e₁ evs₂ e₂ evs₃ c report,
      trace step (newScheduler edge now) ops = evs₁ ++ e₁ :: (evs₂ ++ e₂ :: evs₃) →
      deferred e₁ = some c → c.secured → (∀ e ∈ evs₂, offered e = none) →
      offered e₂ = some report → report = c.report := by
  have hhistory : ∀ ops, Allowed step (fun _ s op => s.calm op) []
      (newScheduler edge now) ops → History (trace step (newScheduler edge now) ops)
        (final step (newScheduler edge now) ops) :=
    history_induction (history_new edge now) fun _ _ _ h hcalm => history_step h hcalm
  have hall := hhistory ops hrun
  have horder := hall.inv.order
  refine ⟨horder.increasing, ?_, horder.history, ?_⟩
  · rw [own_pending hall.shape hall.inv]
    exact horder.linear
  · intro evs₁ e₁ evs₂ e₂ evs₃ c report hevs hdeferred hsecured hnone hoffered
    obtain ⟨ops₁, op₁, ops₂, rfl, rfl, rfl, hrest⟩ := trace_eq_append_cons hevs
    obtain ⟨ops₂, op₂, ops₃, rfl, rfl, rfl, -⟩ := trace_eq_append_cons hrest.symm
    obtain ⟨hrun₁, hcalm, hrun₂⟩ := allowed_append.1 hrun
    have hrun₂ := (allowed_append.1 hrun₂).1
    obtain ⟨hfree, r, hr, hreport⟩ := deferred_retry hdeferred hsecured
    have hwaits := retry_waits ops₂ _ _ (history_step (hhistory ops₁ hrun₁) hcalm) hrun₂ hfree hr
      hnone
    rw [← hreport]
    exact offered_retry hwaits hoffered

/-- A press whose first report fails. -/
def deferRun : List Op :=
  [receiveOp (statusState 0 0 10 0), .beginClaim 0 0 64, .complete 1 false 0,
    receiveOp (statusState 0 0 0 0)] ++ presentOps 2

theorem transitions_linear_deferRun :
    (logOf (trace Scheduler.step (newScheduler false 0) deferRun)).transitions = [1, 2] ∧
    (logOf (trace Scheduler.step (newScheduler false 0) deferRun)).own
        (logOf (trace Scheduler.step (newScheduler false 0) deferRun)).committed ++
      (logOf (trace Scheduler.step (newScheduler false 0) deferRun)).own
        (final Scheduler.step (newScheduler false 0) deferRun).pending =
      (logOf (trace Scheduler.step (newScheduler false 0) deferRun)).transitions :=
  ⟨by decide +kernel, (transitions_linear false 0 deferRun (by decide +kernel)).2.1⟩

/-- A button is pressed while the left trigger stays at its peak, then the status
settles. -/
def peakReplaysRun : List Op :=
  receiveOp (statusState 0 1 0 0) :: presentOps 1 ++
    receiveOp (statusState 0 255 0 0) :: presentOps 2 ++
    receiveOp (statusState 0 255 0 0x20) :: presentOps 3 ++
    [receiveOp (statusState 1 255 0 0x20), receiveOp (statusState 1 250 0 0x20),
      receiveOp (statusState 1 250 0 0x30)] ++ presentOps 4 ++ presentOps 5

/-- The second state is continuous.  It is committed after the third, a transition, and
takes the button of the third back. -/
theorem settled_peak_replays : peakReplaysRun.all Op.keeps ∧
    (final Scheduler.step (newScheduler false 0) peakReplaysRun).overflows = 0 ∧
    (logOf (trace Scheduler.step (newScheduler false 0) peakReplaysRun)).transitions = [1, 3, 6] ∧
    (logOf (trace Scheduler.step (newScheduler false 0) peakReplaysRun)).committed.map
        (fun c => (c.ordinal, c.state.buttons &&& 0x30)) =
      [(1, 0), (2, 0), (3, 0x20), (2, 0), (6, 0x30)] := by
  decide +kernel

end Viiper.Ports.DualSense
