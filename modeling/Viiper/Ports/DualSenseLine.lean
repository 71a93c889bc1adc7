import Viiper.Ports.DualSenseInput

/-!
# What waits to be presented

The ordered work of the scheduler is in three places: the ring, the retry slot, and
the claim, if a failed send would put it into the retry slot.  Read in the order in
which they are presented they form one `line`.  A claimed continuous state is
`loose`: it may be dropped.

`Scheduler.view` forgets where an entry is and keeps the line.  Claiming ordered work
and deferring it do not change the view at all; a commit takes the first entry of the
line, or the loose one; and what keeps a trigger's peak adds to the line or raises one
entry of it.
-/

namespace Viiper.Ports.DualSense

open Verified Go List Option Scheduler RingBuffer

/-- The entry as the retry slot would hold it. -/
def ScheduledInputState.inOrder (e : ScheduledInputState) : ScheduledInputState :=
  { e with ordered := true }

@[simp] theorem inOrder_ordinal (e : ScheduledInputState) : e.inOrder.ordinal = e.ordinal := rfl
@[simp] theorem inOrder_sampleQueueAge (e : ScheduledInputState) :
    e.inOrder.sampleQueueAge = e.sampleQueueAge := rfl

/-- A failed send would put the claim into the retry slot. -/
def ActiveClaim.secured (c : ActiveClaim) : Bool :=
  c.entry.ordered || c.requiresOrderedRecovery

/-- The entry of the idle report, which presents the last report again. -/
def ScheduledInputState.again (e : ScheduledInputState) (now : Time) : ScheduledInputState :=
  { e with receivedAt := now, sampleQueueAge := false }

@[simp] theorem again_ordered (e : ScheduledInputState) (now : Time) :
    (e.again now).ordered = e.ordered := rfl

/-- The scheduler without the places of its entries. -/
structure View where
  line : List ScheduledInputState
  (loose latest : Option ScheduledInputState)
  presented : ScheduledInputState
  trigger : Side → InputTriggerEpoch

/-- Everything a report can still be made of. -/
def View.entries (v : View) : List ScheduledInputState :=
  v.line ++ v.loose.toList ++ v.latest.toList ++ [v.presented]

def Scheduler.line (s : Scheduler) : List ScheduledInputState :=
  ((s.claim.filter (·.secured)).map (·.entry)).toList ++ (s.retry.map (·.entry)).toList ++ s.ring

def Scheduler.loose (s : Scheduler) : Option ScheduledInputState :=
  (s.claim.filter (!·.secured)).map (·.entry)

def Scheduler.view (s : Scheduler) : View :=
  ⟨s.line, s.loose, s.latest, s.lastPresented, s.trigger⟩

/-- What every scheduler keeps which never overflowed. -/
structure Scheduler.Shape (s : Scheduler) : Prop where
  wf : s.transitions.WF dualSenseInputTransitionCapacity
  ring : ∀ x ∈ s.ring, x.ordered
  retry : ∀ r ∈ s.retry, r.entry.ordered
  exclusive : s.claim.isSome → s.retry = none
  latest : ∀ x ∈ s.latest, x.ordered = false

/-! ## Steps which receive nothing -/

/-- One step of the view, and the entry it commits. -/
inductive Shift (v : View) : View → Option ScheduledInputState → Prop
  | still : Shift v v none
  | takeLatest {x} (hline : v.line = []) (hloose : v.loose = none) (hlatest : v.latest = some x) :
      Shift v { v with loose := some x, latest := none } none
  | repeatLoose (now : Time) (hline : v.line = []) (hloose : v.loose = none)
      (hpresented : v.presented.ordered = false) :
      Shift v { v with loose := some (v.presented.again now) } none
  | repeatOrdered (now : Time) (hline : v.line = []) (hloose : v.loose = none)
      (hpresented : v.presented.ordered) :
      Shift v { v with line := [v.presented.again now] } none
  | commitHead {e rest} (hline : v.line = e :: rest) (hloose : v.loose = none) : Shift v
        { v with
          line := rest, presented := e, trigger := fun t => commitTrigger (v.trigger t) e t }
        (some e)
  | deferHead {e rest} (hline : v.line = e :: rest) :
      Shift v { v with line := e.inOrder :: rest } none
  | commitLoose {e} (hloose : v.loose = some e) : Shift v
        { v with
          loose := none, presented := e, trigger := fun t => commitTrigger (v.trigger t) e t }
        (some e)
  | dropLoose : Shift v { v with loose := none } none
  | returnLoose {e} (hline : v.line = []) (hlatest : v.latest = none) (hloose : v.loose = some e) :
      Shift v { v with loose := none, latest := some e } none

/-- The same state, perhaps offered again. -/
structure SameEntry (x y : ScheduledInputState) : Prop where
  ordinal : x.ordinal = y.ordinal
  state : x.state = y.state
  epoch : x.epoch = y.epoch
  ordered : y.ordered = false → x.ordered = false

theorem SameEntry.value {x y : ScheduledInputState} (h : SameEntry x y) : x.value = y.value := by
  funext t
  simp only [ScheduledInputState.value, h.state]

theorem mem_entries {v : View} {x : ScheduledInputState} :
    x ∈ v.entries ↔ x ∈ v.line ∨ v.loose = some x ∨ v.latest = some x ∨ x = v.presented := by
  simp [View.entries]

/-- A shift makes no new entries. -/
theorem Shift.old {v v' : View} {o} (h : Shift v v' o) {y : ScheduledInputState}
    (hy : y ∈ v'.entries) : ∃ x ∈ v.entries, SameEntry x y := by
  have hsame : ∀ x : ScheduledInputState, SameEntry x x := fun x => ⟨rfl, rfl, rfl, id⟩
  rw [mem_entries] at hy
  simp only [mem_entries]
  cases h with
  | still => exact ⟨y, hy, hsame y⟩
  | takeLatest | commitHead | commitLoose | dropLoose | returnLoose =>
    exact ⟨y, by grind, hsame y⟩
  | repeatLoose now hline hloose hp =>
    rcases hy with hy | hy | hy | hy
    · exact ⟨y, .inl hy, hsame y⟩
    · obtain rfl := some.inj hy
      exact ⟨v.presented, by simp, rfl, rfl, rfl, id⟩
    · exact ⟨y, .inr (.inr (.inl hy)), hsame y⟩
    · exact ⟨y, .inr (.inr (.inr hy)), hsame y⟩
  | repeatOrdered now hline hloose hp =>
    rcases hy with hy | hy | hy | hy
    · obtain rfl := mem_singleton.1 hy
      exact ⟨v.presented, by simp, rfl, rfl, rfl, id⟩
    · exact ⟨y, .inr (.inl hy), hsame y⟩
    · exact ⟨y, .inr (.inr (.inl hy)), hsame y⟩
    · exact ⟨y, .inr (.inr (.inr hy)), hsame y⟩
  | @deferHead e rest hline =>
    rcases hy with hy | hy | hy | hy
    · rcases mem_cons.1 hy with rfl | hy
      · exact ⟨e, by simp [hline], rfl, rfl, rfl, by simp [ScheduledInputState.inOrder]⟩
      · exact ⟨y, by simp [hline, hy], hsame y⟩
    · exact ⟨y, .inr (.inl hy), hsame y⟩
    · exact ⟨y, .inr (.inr (.inl hy)), hsame y⟩
    · exact ⟨y, .inr (.inr (.inr hy)), hsame y⟩

theorem Shift.committed_mem {v v' : View} {e : ScheduledInputState} (h : Shift v v' (some e)) :
    e ∈ v.entries := by
  rw [mem_entries]
  cases h with
  | commitHead hline hloose => simp [hline]
  | commitLoose hloose => simp [hloose]

variable {s' : Scheduler} {s : Scheduler} {now : Time}

namespace Scheduler

theorem ring_eq_nil (h : s.transitions.count = 0) : s.ring = [] :=
  window_eq_nil _ h

theorem view_of_free (hfree : s.claim = none) :
    s.view = ⟨(s.retry.map (·.entry)).toList ++ s.ring, none, s.latest, s.lastPresented,
      s.trigger⟩ := by
  simp [view, line, loose, hfree]

theorem view_of_secured {c : ActiveClaim} (hc : s.claim = some c) (hretry : s.retry = none)
    (hsecured : c.secured) :
    s.view = ⟨c.entry :: s.ring, none, s.latest, s.lastPresented, s.trigger⟩ := by
  simp [view, line, loose, hc, hretry, Option.filter, hsecured]

theorem view_of_loose {c : ActiveClaim} (hc : s.claim = some c) (hretry : s.retry = none)
    (hloose : c.secured = false) :
    s.view = ⟨s.ring, some c.entry, s.latest, s.lastPresented, s.trigger⟩ := by
  simp [view, line, loose, hc, hretry, hloose]

/-- What `selectState` takes, and what it leaves. -/
inductive Selected (s : Scheduler) (now : Time) : Scheduler × ScheduledInputState → Prop
  | retry {r : Retry} (hr : s.retry = some r) : Selected s now ({ s with retry := none }, r.entry)
  | ring {x rest} {left : RingBuffer ScheduledInputState} (hr : s.retry = none)
      (hring : s.ring = x :: rest) (hwf : left.WF dualSenseInputTransitionCapacity)
      (hleft : left.window dualSenseInputTransitionCapacity = rest) :
      Selected s now ({ s with transitions := left }, x)
  | latest {x} (hr : s.retry = none) (hring : s.ring = []) (hlatest : s.latest = some x) :
      Selected s now ({ s with latest := none }, x)
  | idle (hr : s.retry = none) (hring : s.ring = []) : Selected s now (s, s.lastPresented.again now)

theorem selectState_selected (hs : s.Shape) (now : Time) : Selected s now (s.selectState now) := by
  unfold selectState
  split
  · next r hr => exact .retry hr
  next hr =>
    split
    next hcount =>
      have hwf : ((s.transitions.clearFront {}).pop dualSenseInputTransitionCapacity).WF
          dualSenseInputTransitionCapacity :=
        RingBuffer.WF.pop (r := s.transitions.clearFront {}) ⟨hs.wf.head_lt, hs.wf.count_le⟩
      refine .ring hr ?_ hwf rfl
      rw [window_pop_clearFront _ _ hs.wf]
      exact window_eq_cons _ (Nat.pos_of_ne_zero hcount) hs.wf.head_lt
    next hcount =>
      have hring := ring_eq_nil (s := s) (by simpa using hcount)
      split
      · next x hx => exact .latest hr hring hx
      · exact .idle hr hring

/-- The claim `beginClaim` makes of the selected entry. -/
inductive Claims (s : Scheduler) (now : Time) : Scheduler → Option (Bytes × UInt64) → Prop
  | busy : Claims s now s none
  | claimed {c : ActiveClaim} (hfree : s.claim = none) (hentry : c.entry = (s.selectState now).2)
      (hrecovery : c.requiresOrderedRecovery = false) (n : UInt64)
      (hretry : ∀ r, s.retry = some r → c.report = r.report)
      (hreport : s.retry = none → ∃ battery sequence packetSequence timestamp,
        c.report = encodeUSBInputReportInto c.entry.state battery sequence packetSequence
          timestamp s.edge) :
      Claims s now { (s.selectState now).1 with claim := some c, nextClaimToken := n }
        (some (c.report, n))

theorem beginClaim_claims (s : Scheduler) (now : Time) (battery : UInt8) (destination : Nat) :
    Claims s now (s.beginClaim now battery destination).1
      (s.beginClaim now battery destination).2 := by
  unfold beginClaim
  split
  · exact .busy
  next hbusy =>
  have hclaim : s.claim = none := by
    simp only [Bool.or_eq_true, not_or, not_isSome_iff_eq_none] at hbusy
    exact hbusy.2
  refine .claimed hclaim ?_ ?_ _ ?_ ?_
  · split <;> rfl
  · split <;> rfl
  · intro r hr
    simp [hr]
  · intro hr
    simp only [hr]
    exact ⟨_, _, _, _, rfl⟩

theorem Shape.beginClaim (hs : s.Shape) {out} (h : Claims s now s' out) : s'.Shape := by
  cases h with
  | busy => exact hs
  | claimed hfree =>
    have hsel := selectState_selected hs now
    generalize s.selectState now = p at hsel
    cases hsel with
    | retry hr => exact { hs with retry := by simp, exclusive := fun _ => rfl }
    | ring hr hring hwf hleft =>
      refine { hs with wf := hwf, ring := fun y hy => hs.ring y ?_, exclusive := fun _ => hr }
      rw [hring]
      exact mem_cons_of_mem _ (hleft ▸ hy)
    | latest hr => exact { hs with latest := by simp, exclusive := fun _ => hr }
    | idle hr => exact { hs with exclusive := fun _ => hr }

/-- Ordered work is claimed where it stands; anything else only if there is none. -/
theorem Claims.shift {out} (hs : s.Shape)
    (h : Claims s now s' out) : Shift s.view s'.view none := by
  cases h with
  | busy => exact .still
  | @claimed c hfree hentry hrecovery n =>
    have hsel := selectState_selected hs now
    generalize s.selectState now = p at hsel hentry ⊢
    have hsecured : c.secured = p.2.ordered := by
      simp [ActiveClaim.secured, hrecovery, hentry]
    rw [view_of_free hfree]
    cases hsel with
    | @retry r hr =>
      rw [view_of_secured rfl rfl (hsecured.trans (hs.retry r hr)), hr, hentry]
      exact .still
    | @ring x rest left hr hring hwf hleft =>
      have hordered : c.secured := hsecured.trans (hs.ring x (by simp [hring]))
      have hview := view_of_secured
        (s := { s with transitions := left, claim := some c, nextClaimToken := n }) rfl hr
        hordered
      rw [hview, hr, hring, hentry, ← hleft]
      exact .still
    | @latest x hr hring hlatest =>
      have hview := view_of_loose
        (s := { s with latest := none, claim := some c, nextClaimToken := n }) rfl hr
        (hsecured.trans (hs.latest x hlatest))
      have hring' : ring
          { s with latest := none, claim := some c, nextClaimToken := n } = [] := hring
      rw [hview, hring', hr, hring, hentry]
      exact .takeLatest rfl rfl hlatest
    | idle hr hring =>
      have hring' : ring { s with claim := some c, nextClaimToken := n } = [] := hring
      rw [hr, hring]
      by_cases hordered : s.lastPresented.ordered
      · have hview := view_of_secured (s := { s with claim := some c, nextClaimToken := n }) rfl hr
          (hsecured.trans hordered)
        rw [hview, hring', hentry]
        exact .repeatOrdered now rfl rfl hordered
      · rw [Bool.not_eq_true] at hordered
        have hview := view_of_loose (s := { s with claim := some c, nextClaimToken := n }) rfl hr
          (hsecured.trans hordered)
        rw [hview, hring', hentry]
        exact .repeatLoose now rfl rfl hordered

/-- Resolving a claim without retiring it. -/
inductive Resolves (s : Scheduler) : Scheduler → Option ActiveClaim → Prop
  | stale : Resolves s s none
  | commit {c : ActiveClaim} (hc : s.claim = some c) : Resolves s (s.commitClaim c) (some c)
  | defer {c : ActiveClaim} (hc : s.claim = some c) : Resolves s (s.deferClaim c) none

theorem Resolves.shape {o} (hs : s.Shape) (h : Resolves s s' o) : s'.Shape := by
  cases h with
  | stale => exact hs
  | commit hc => exact { hs with exclusive := by simp [commitClaim] }
  | @defer c hc =>
    unfold deferClaim
    split
    · exact { hs with retry := by simp, exclusive := by simp }
    next hloose =>
    simp only [Bool.or_eq_true, not_or, Bool.not_eq_true] at hloose
    split
    · exact { hs with latest := by simp [hloose.1], exclusive := by simp }
    · exact { hs with exclusive := by simp }

theorem Resolves.shift {o} (hs : s.Shape) (h : Resolves s s' o) :
    Shift s.view s'.view (o.map (·.entry)) := by
  cases h with
  | stale => exact .still
  | @commit c hc =>
    have hretry := hs.exclusive (by simp [hc])
    have hview : (s.commitClaim c).view = ⟨s.ring, none, s.latest, c.entry,
        fun t => commitTrigger (s.trigger t) c.entry t⟩ := by
      simp [view, line, loose, ring, commitClaim, hretry]
    rw [hview]
    cases hsec : c.secured with
    | true =>
      rw [view_of_secured hc hretry hsec]
      exact .commitHead rfl rfl
    | false =>
      rw [view_of_loose hc hretry hsec]
      exact .commitLoose rfl
  | @defer c hc =>
    have hretry := hs.exclusive (by simp [hc])
    unfold deferClaim
    split
    next hsec =>
      rw [view_of_secured hc hretry hsec, view_of_free rfl]
      exact .deferHead rfl
    next hsec =>
      rw [view_of_loose hc hretry (by simpa [ActiveClaim.secured] using hsec)]
      split
      next hidle =>
        simp only [Bool.and_eq_true, beq_iff_eq, isNone_iff_eq_none] at hidle
        have hring := ring_eq_nil hidle.1.2
        have hview := view_of_free (s := { s with claim := none, latest := some c.entry }) rfl
        have hring' : ring { s with claim := none, latest := some c.entry } = [] :=
          hring
        rw [hview, hring', hretry, hring]
        exact .returnLoose rfl hidle.2 rfl
      · have hview := view_of_free (s := { s with claim := none }) rfl
        rw [hview, hretry]
        exact .dropLoose

end Scheduler

/-! ## Keeping a peak -/

/-- What keeping the peak of trigger `t` before the transition `e` does to the view. -/
inductive Kept (v : View) (t : Side) (e : ScheduledInputState) : View → Prop
  | inactive (h : (v.trigger t).active = false ∨ (v.trigger t).peak = 0) : Kept v t e v
  | shown (hpeak : (v.trigger t).peak ≤ (v.trigger t).presentedPeak) : Kept v t e v
  | upcoming (h : entryRepresentsTruthfulPeak e (v.trigger t) t) : Kept v t e v
  | waiting {x} (hx : x ∈ v.line) (h : entryRepresentsTruthfulPeak x (v.trigger t) t) :
      Kept v t e v
  | recovered {x} (hx : v.loose = some x)
      (h : entryRepresentsTruthfulPeak x (v.trigger t) t) :
      Kept v t e { v with line := x :: v.line, loose := none }
  | raised {i x} (hactive : (v.trigger t).active) (hx : v.line[i]? = some x)
      (hepoch : x.epoch t = (v.trigger t).id)
      (hlayout : physicalMetadataLayoutsMatch x.state (v.trigger t).peakState) :
      Kept v t e { v with line := v.line.set i (anchored x (v.trigger t) t) }
  | promoted {x} (hactive : (v.trigger t).active) (hx : v.latest = some x)
      (h : entryRepresentsPeak x (v.trigger t).id (v.trigger t).peak t) :
      Kept v t e
        { v with
          line := v.line ++ [{ x with
            state := copyTriggerPhysicalStatus x.state (v.trigger t).peakState t
            ordered := true }]
          latest := none }
  | saved (generation : UInt64) (hactive : (v.trigger t).active)
      (hshown : (v.trigger t).peak ≤ (v.trigger t).presentedPeak →
        triggerPhysicalStatusMatches (v.trigger t).presentedPeakState (v.trigger t).peakState t =
          false)
      (hupcoming : entryRepresentsTruthfulPeak e (v.trigger t) t = false)
      (hline : ∀ x ∈ v.line, entryRepresentsTruthfulPeak x (v.trigger t) t = false) :
      Kept v t e
        { v with
          line := v.line ++ [(savedPeak v.trigger generation t).inOrder], latest := none }

namespace Scheduler

theorem overflows_le_enqueue (s : Scheduler) (e : ScheduledInputState) :
    s.overflows ≤ (s.enqueueTransition e).overflows := by
  unfold enqueueTransition
  split
  · exact Nat.le_succ _
  · exact Nat.le_refl _

/-- A transition is queued at the end of the line, unless the ring is full. -/
theorem enqueue_view (hs : s.Shape) {e : ScheduledInputState}
    (h : (s.enqueueTransition e).overflows = s.overflows) :
    (s.enqueueTransition e).Shape ∧ (s.enqueueTransition e).view =
      { s.view with line := s.view.line ++ [e.inOrder], latest := none } := by
  have hlt : s.transitions.count < dualSenseInputTransitionCapacity := by
    refine Nat.lt_of_le_of_ne hs.wf.count_le fun hfull => ?_
    simp [enqueueTransition, hfull] at h
  have hwindow := window_push s.transitions e.inOrder hlt
  have heq : s.enqueueTransition e =
      { s with
        latest := none
        transitions := s.transitions.push dualSenseInputTransitionCapacity e.inOrder } := by
    simp only [enqueueTransition, if_neg (Nat.ne_of_lt hlt)]
    rfl
  rw [heq]
  refine ⟨{ hs with wf := hs.wf.push hlt _, ring := ?_, latest := by simp }, ?_⟩
  · intro x hx
    rw [ring, hwindow] at hx
    rcases mem_append.1 hx with hx | hx
    · exact hs.ring x hx
    · rw [mem_singleton.1 hx]
      rfl
  · simp [view, line, loose, ring, hwindow]

/-- The anchor is a press of the epoch in the ring. -/
theorem anchor_eq_some {t : Side} {offset : Nat} {x : ScheduledInputState}
    (h : s.anchor t = some (offset, x)) :
    s.ring[offset]? = some x ∧ x.epoch t = (s.trigger t).id ∧
      physicalMetadataLayoutsMatch x.state (s.trigger t).peakState := by
  unfold anchor at h
  simp only at h
  split at h
  · cases h
  next i hi =>
  split at h
  · cases h
  next y hy =>
  split at h
  · cases h
  cases h
  obtain ⟨hlt, hp, -⟩ := findIdx?_eq_some_iff_getElem.1 hi
  have hget : s.ring[offset] = x := by
    rw [getElem?_eq_getElem hlt] at hy
    exact some.inj hy
  rw [hget] at hp
  simp only [Bool.and_eq_true, beq_iff_eq, pendingInitialCanAnchorPeak] at hp
  exact ⟨hy, hp.1.1, hp.2.1⟩

theorem overflows_le_preserve (s : Scheduler) (t : Side) (e : ScheduledInputState) :
    s.overflows ≤ (s.preserveTriggerPeakBeforeTransition t e).overflows := by
  unfold preserveTriggerPeakBeforeTransition
  simp only
  split_ifs <;> try exact Nat.le_refl _
  split
  · exact Nat.le_refl _
  · split <;> exact overflows_le_enqueue _ _

/-- A press in the ring is raised in place. -/
theorem raise_kept (hs : s.Shape) {t : Side} {e x : ScheduledInputState} {i : Nat}
    (hactive : (s.trigger t).active)
    (hget : s.ring[i]? = some x) (hepoch : x.epoch t = (s.trigger t).id)
    (hlayout : physicalMetadataLayoutsMatch x.state (s.trigger t).peakState) :
    ({ s with
      transitions := s.transitions.setAt dualSenseInputTransitionCapacity i
        (anchored x (s.trigger t) t) } : Scheduler).Shape ∧
    Kept s.view t e ({ s with
      transitions := s.transitions.setAt dualSenseInputTransitionCapacity i
        (anchored x (s.trigger t) t) } : Scheduler).view := by
  have hlt : i < s.transitions.count := by
    have := (List.getElem?_eq_some_iff.1 hget).1
    simpa [ring] using this
  have hset := window_setAt s.transitions (anchored x (s.trigger t) t) hlt hs.wf.count_le
  refine ⟨{ hs with wf := ⟨hs.wf.head_lt, hs.wf.count_le⟩, ring := ?_ }, ?_⟩
  · intro y hy
    rw [ring, hset] at hy
    rcases mem_or_eq_of_mem_set hy with hy | rfl
    · exact hs.ring y hy
    · exact hs.ring x (mem_of_getElem? hget)
  · generalize hheld : ((s.claim.filter (·.secured)).map (·.entry)).toList ++
      (s.retry.map (·.entry)).toList = held
    have hline : s.line = held ++ s.ring := by rw [← hheld, line]
    have hview : ({ s with
        transitions := s.transitions.setAt dualSenseInputTransitionCapacity i
          (anchored x (s.trigger t) t) } : Scheduler).view =
        { s.view with line := s.view.line.set (held.length + i) (anchored x (s.trigger t) t) } := by
      simp only [view, line, loose, ring, hset, hheld,
        set_append_right _ _ (Nat.le_add_right _ _), Nat.add_sub_cancel_left]
    rw [hview]
    refine .raised hactive ?_ hepoch hlayout
    change s.line[held.length + i]? = some x
    rw [hline, getElem?_append_right (Nat.le_add_right _ _), Nat.add_sub_cancel_left]
    exact hget

/-- Keeping a peak is one of the cases of `Kept`. -/
theorem preserve_kept (hs : s.Shape) {t : Side} {e : ScheduledInputState}
    (h : (s.preserveTriggerPeakBeforeTransition t e).overflows = s.overflows) :
    (s.preserveTriggerPeakBeforeTransition t e).Shape ∧
      Kept s.view t e (s.preserveTriggerPeakBeforeTransition t e).view := by
  unfold preserveTriggerPeakBeforeTransition at h ⊢
  simp only at h ⊢
  split_ifs at h ⊢ with hdone hnext hclaim hretry hring
  · refine ⟨hs, ?_⟩
    simp only [Bool.or_eq_true, Bool.not_eq_true', beq_iff_eq, Bool.and_eq_true,
      decide_eq_true_eq] at hdone
    rcases hdone with hdone | hdone
    · exact .inactive hdone
    · exact .shown hdone.1
  · exact ⟨hs, .upcoming hnext⟩
  · -- the claim carries the peak: from now on a failed send is recovered in order
    obtain ⟨c, hc⟩ : ∃ c, s.claim = some c := by
      cases hc : s.claim with
      | none => simp [hc] at hclaim
      | some c => exact ⟨c, rfl⟩
    have hretry := hs.exclusive (by simp [hc])
    simp only [hc, any_some] at hclaim
    have hview := view_of_secured (s := { s with
      claim := s.claim.map ({ · with requiresOrderedRecovery := true }) })
      (c := { c with requiresOrderedRecovery := true }) (by simp [hc]) hretry
      (by simp [ActiveClaim.secured])
    refine ⟨{ hs with exclusive := fun _ => hretry }, ?_⟩
    rw [hview]
    cases hsec : c.secured with
    | true =>
      rw [view_of_secured hc hretry hsec]
      exact .waiting mem_cons_self hclaim
    | false =>
      rw [view_of_loose hc hretry hsec]
      exact .recovered rfl hclaim
  · refine ⟨hs, ?_⟩
    obtain ⟨r, hr⟩ : ∃ r, s.retry = some r := by
      cases hr : s.retry with
      | none => simp [hr] at hretry
      | some r => exact ⟨r, rfl⟩
    simp only [hr, any_some] at hretry
    exact .waiting (x := r.entry) (by simp [view, line, hr]) hretry
  · obtain ⟨x, hx, hrep⟩ := any_eq_true.1 hring
    exact ⟨hs, .waiting (x := x) (by simp [view, line, hx]) hrep⟩
  · have hline : ∀ x ∈ s.line, entryRepresentsTruthfulPeak x (s.trigger t) t = false := by
      intro x hx
      simp only [line, mem_append, mem_toList, map_eq_some_iff, filter_eq_some_iff] at hx
      rw [← Bool.not_eq_true]
      intro hrep
      rcases hx with (⟨c, ⟨hc, -⟩, rfl⟩ | ⟨r, hr, rfl⟩) | hx
      · exact hclaim (by simp [hc, hrep])
      · exact hretry (by simp [hr, hrep])
      · exact hring (any_eq_true.2 ⟨x, hx, hrep⟩)
    simp only [Bool.or_eq_true, Bool.not_eq_true', beq_iff_eq, Bool.and_eq_true,
      decide_eq_true_eq, not_or, Bool.not_eq_false, not_and, Bool.not_eq_true] at hdone hnext
    split at h
    next i x hanchor =>
      obtain ⟨hget, hepoch, hlayout⟩ := anchor_eq_some hanchor
      exact raise_kept hs hdone.1.1 hget hepoch hlayout
    · split at h
      next x hx =>
        simp only [filter_eq_some_iff, Bool.and_eq_true] at hx
        obtain ⟨hshape, hview⟩ := enqueue_view hs h
        rw [hview]
        exact ⟨hshape, .promoted hdone.1.1 hx.1 hx.2.1⟩
      · obtain ⟨hshape, hview⟩ := enqueue_view hs h
        rw [hview]
        exact ⟨hshape, .saved s.generation hdone.1.1 hdone.2 hnext hline⟩

/-- Both peaks are kept, one after the other. -/
theorem preservePeaks_kept (hs : s.Shape) {e : ScheduledInputState}
    (h : (s.preservePeaks e).overflows = s.overflows) :
    (s.preservePeaks e).Shape ∧
      ∃ t v, Kept s.view t e v ∧ Kept v t.other e (s.preservePeaks e).view := by
  -- two calls in a row, the first of which does not overflow either
  have htwo : ∀ t : Side, ((s.preserveTriggerPeakBeforeTransition t
      e).preserveTriggerPeakBeforeTransition t.other e).overflows = s.overflows →
      ((s.preserveTriggerPeakBeforeTransition t
        e).preserveTriggerPeakBeforeTransition t.other e).Shape ∧
      ∃ v, Kept s.view t e v ∧ Kept v t.other e ((s.preserveTriggerPeakBeforeTransition t
        e).preserveTriggerPeakBeforeTransition t.other e).view := by
    intro t h
    have h1 := overflows_le_preserve s t e
    have h2 := overflows_le_preserve (s.preserveTriggerPeakBeforeTransition t e) t.other e
    obtain ⟨hs1, hk1⟩ := preserve_kept (t := t) (e := e) hs (by omega)
    obtain ⟨hs2, hk2⟩ := preserve_kept (t := t.other) (e := e) hs1 (by omega)
    exact ⟨hs2, _, hk1, hk2⟩
  -- a trigger which is not active has no peak to keep
  have hskip : ∀ (s : Scheduler) (t : Side), (s.trigger t).active = false →
      s.preserveTriggerPeakBeforeTransition t e = s := by
    intro s t h
    simp [preserveTriggerPeakBeforeTransition, h]
  have hguard : ∀ (s : Scheduler) (t : Side),
      (if (s.trigger t).active then s.preserveTriggerPeakBeforeTransition t e else s) =
        s.preserveTriggerPeakBeforeTransition t e := by
    intro s t
    split
    · rfl
    · next hoff => exact (hskip s t (by simpa using hoff)).symm
  unfold preservePeaks at h ⊢
  simp only [hguard] at h ⊢
  split_ifs at h ⊢
  · obtain ⟨hshape, v, hv⟩ := htwo .right h
    exact ⟨hshape, .right, v, hv⟩
  · obtain ⟨hshape, v, hv⟩ := htwo .left h
    exact ⟨hshape, .left, v, hv⟩

theorem overflows_le_preservePeaks (s : Scheduler) (e : ScheduledInputState) :
    s.overflows ≤ (s.preservePeaks e).overflows := by
  unfold preservePeaks
  simp only
  split_ifs <;> first
    | exact Nat.le_refl _
    | exact overflows_le_preserve _ _ _
    | exact Nat.le_trans (overflows_le_preserve _ _ _) (overflows_le_preserve _ _ _)

/-- A transition is queued behind the peaks which had to be kept. -/
theorem schedule_transition (hs : s.Shape) {next : InputState}
    (htransition : inputStateHasTransition s.previous next)
    (h : (s.schedule next now).overflows = s.overflows) :
    (s.schedule next now).Shape ∧ ∃ t v v', Kept s.view t (s.received next now) v ∧
      Kept v t.other (s.received next now) v' ∧ (s.schedule next now).view =
        { v' with line := v'.line ++ [(s.received next now).inOrder], latest := none } := by
  simp only [schedule, htransition, if_true] at h ⊢
  have h1 := overflows_le_preservePeaks s (s.received next now)
  have h2 := overflows_le_enqueue (s.preservePeaks (s.received next now)) (s.received next now)
  obtain ⟨hs1, t, v, hk1, hk2⟩ := preservePeaks_kept hs (e := s.received next now) (by omega)
  obtain ⟨hs2, hview⟩ := enqueue_view hs1 (e := s.received next now) (by omega)
  exact ⟨hs2, t, v, _, hk1, hk2, hview⟩

@[simp] theorem enqueue_receiveOrdinal (s : Scheduler) (e : ScheduledInputState) :
    (s.enqueueTransition e).receiveOrdinal = s.receiveOrdinal := by
  unfold enqueueTransition
  split <;> rfl

@[simp] theorem preserve_receiveOrdinal (s : Scheduler) (t : Side) (e : ScheduledInputState) :
    (s.preserveTriggerPeakBeforeTransition t e).receiveOrdinal = s.receiveOrdinal := by
  unfold preserveTriggerPeakBeforeTransition
  simp only
  split_ifs <;> try rfl
  split
  · rfl
  · split <;> exact enqueue_receiveOrdinal _ _

theorem schedule_receiveOrdinal (s : Scheduler) (next : InputState) (now : Time) :
    (s.schedule next now).receiveOrdinal = s.receiveOrdinal := by
  unfold schedule preservePeaks
  simp only
  split_ifs <;> simp

end Scheduler

/-! ## One call -/

open Verified.Run

/-- The state a call made the scheduler receive. -/
def accepted (e : Event Scheduler Op Answer) : Option InputState :=
  match e.op, e.out with
  | .update state _ _, .accepted true => some (coherent state)
  | _, _ => none

/-- The report a call committed. -/
def committed (e : Event Scheduler Op Answer) : Option ActiveClaim :=
  match e.op, e.out with
  | .complete _ true _, .resolved true => e.pre.claim
  | .resolve _ _ .commit _, .resolved true => e.pre.claim
  | _, _ => none

/-- The claimed and the deferred report, without the flag which a kept peak sets. -/
def Scheduler.offers (s : Scheduler) : Option (ScheduledInputState × Bytes) × Option Retry :=
  (s.claim.map fun c => (c.entry, c.report), s.retry)

/-- How a call which receives nothing changes the two reports. -/
inductive Turns (e : Event Scheduler Op Answer) : Prop
  | same (h : e.post.offers = e.pre.offers)
  | claims {now : Time} {out : Option (Bytes × UInt64)}
      (h : Scheduler.Claims e.pre now e.post out) (hout : e.out = .claimed out)
  | resolves (h : Scheduler.Resolves e.pre e.post (committed e))

/-- A call receives a state, or moves the view by one shift. -/
inductive Happens (e : Event Scheduler Op Answer) : Prop
  | receive {next : InputState} {now : Time} (haccepted : accepted e = some next)
      (hcommitted : committed e = none)
      (hpost : e.post = ((e.pre.receive next now).schedule next now).settle e.pre.previous next)
  | shift (haccepted : accepted e = none) (hshape : e.post.Shape)
      (hshift : Shift e.pre.view e.post.view ((committed e).map (·.entry))) (hturns : Turns e)
      (hprevious : e.post.previous = e.pre.previous)
      (hordinal : e.post.receiveOrdinal = e.pre.receiveOrdinal)
      (hoverflows : e.post.overflows = e.pre.overflows)

/-- Resolving a claim leaves the received states alone. -/
theorem Scheduler.Resolves.frame {o} (h : Scheduler.Resolves s s' o) :
    s'.previous = s.previous ∧ s'.receiveOrdinal = s.receiveOrdinal ∧
      s'.overflows = s.overflows := by
  cases h with
  | stale | commit => exact ⟨rfl, rfl, rfl⟩
  | defer hc =>
    unfold deferClaim
    split_ifs <;> exact ⟨rfl, rfl, rfl⟩

theorem Scheduler.Claims.frame {out} (h : Scheduler.Claims s now s' out) :
    s'.previous = s.previous ∧ s'.receiveOrdinal = s.receiveOrdinal ∧
      s'.overflows = s.overflows := by
  cases h with
  | busy => exact ⟨rfl, rfl, rfl⟩
  | claimed =>
    unfold selectState
    split
    · exact ⟨rfl, rfl, rfl⟩
    split
    · exact ⟨rfl, rfl, rfl⟩
    · split <;> exact ⟨rfl, rfl, rfl⟩

theorem Scheduler.resolveClaimAt_resolves (s : Scheduler) (token generation : UInt64)
    (outcome : Outcome) (hkeep : outcome ≠ .retire) (completedAt : Time) :
    Scheduler.Resolves s (s.resolveClaimAt token generation outcome completedAt).1
      (if outcome = .commit ∧ (s.resolveClaimAt token generation outcome completedAt).2
        then s.claim else none) := by
  unfold resolveClaimAt
  split
  · next hc => simpa using .stale
  next c hc =>
    split
    · simpa using .stale
    cases outcome with
    | retire => exact absurd rfl hkeep
    | commit => simpa [hc] using .commit hc
    | defer => simpa using .defer hc
    | undefined => simpa using .stale

/-- Every call which does not retire the presentation generation. -/
theorem step_happens (hs : s.Shape) {op : Op} (hkeep : op.keeps) : Happens (event step s op) := by
  -- how a resolution ends up in the record
  have hresolve : ∀ {s' : Scheduler} {o : Option ActiveClaim}, Scheduler.Resolves s s' o →
      accepted (event step s op) = none →
      (event step s op).post = s' → committed (event step s op) = o →
      Happens (event step s op) := by
    intro s' o h ha hpost ho
    obtain ⟨h1, h2, h3⟩ := h.frame
    refine .shift ha ?_ ?_ (.resolves ?_) ?_ ?_ ?_ <;> rw [hpost]
    · exact h.shape hs
    · rw [ho]
      exact h.shift hs
    · rw [ho]
      exact h
    · exact h1
    · exact h2
    · exact h3
  cases op with
  | beginReceiveGeneration => exact .shift rfl { hs with } .still (.same rfl) rfl rfl rfl
  | update state generation now =>
    by_cases hstale : generation ≠ 0 ∧ generation ≠ s.generation
    · have hstep : s.step (.update state generation now) = (s, .accepted false) := by
        simp [step, updateAt, hstale]
      refine .shift ?_ ?_ ?_ (.same ?_) ?_ ?_ ?_ <;> simp only [event, hstep]
      · rfl
      · exact hs
      · exact .still
    · have hstep : s.step (.update state generation now) =
          (((s.receive (coherent state) now).schedule (coherent state) now).settle s.previous
            (coherent state), .accepted true) := by
        simp [step, updateAt, hstale]
      exact @Happens.receive _ (coherent state) now (by simp [accepted, event, hstep])
        (by simp [committed, event]) (by simp [event, hstep])
  | beginClaim now battery destination =>
    have h := beginClaim_claims s now battery destination
    obtain ⟨h1, h2, h3⟩ := h.frame
    exact .shift rfl (hs.beginClaim h) (h.shift hs) (.claims h rfl) h1 h2 h3
  | complete token presented completedAt =>
    refine hresolve (s.resolveClaimAt_resolves token ((s.claim.map (·.generation)).getD 0)
      (if presented then .commit else .defer) (by split <;> simp) completedAt) rfl rfl ?_
    cases presented with
    | false => simp [committed, event]
    | true =>
      simp only [committed, event, step, if_true, true_and]
      cases (s.resolveClaimAt token ((s.claim.map (·.generation)).getD 0) .commit
        completedAt).2 <;> rfl
  | resolve token generation outcome completedAt =>
    refine hresolve (s.resolveClaimAt_resolves token generation outcome
      (by simpa [Op.keeps] using hkeep) completedAt) rfl rfl ?_
    simp only [committed, event, step]
    cases (s.resolveClaimAt token generation outcome completedAt).2 <;> cases outcome <;> rfl
  | retire generation retiredAt => simp [Op.keeps] at hkeep

end Viiper.Ports.DualSense
