import Mathlib.Data.List.GetD
import Mathlib.Tactic.Linarith
import Viiper.Ports.EndpointLine

/-!
# The worker refines the line of jobs

`EndpointWorker.line` reads the ring out as a list and forgets nothing else.
While the ring's indices are in bounds and the slots are partitioned, every
call of the worker is one move of the line.
-/

namespace Viiper.Ports.Endpoint

open Verified Go Run Function List RingBuffer

namespace EndpointWorker

def line (w : EndpointWorker) : Line :=
  ⟨w.slots, w.queue, w.free, w.inFlight, w.generation, w.cursor, w.enqueued⟩

/-- The ring is in bounds and the slots are partitioned. -/
structure Sound (w : EndpointWorker) : Prop where
  ring : w.order.WF endpointQueueCapacity
  partition : w.line.Partition

/-- The first queued slot of a sequence number. -/
def queuedVictim (w : EndpointWorker) (seq : UInt32) : Option Nat :=
  (w.queue.findIdx? fun idx => (w.slots idx).seq == seq).map fun position => w.queue.getD position 0

/-- The slot `unlinkAt` acts on when it returns true. -/
def unlinkVictim (w : EndpointWorker) (seq : UInt32) : Option Nat :=
  match w.inFlight with
  | some idx =>
    if unlinkable (w.slots idx) seq then some idx else w.queuedVictim seq
  | none => w.queuedVictim seq

/-- What an observer sees of a call. -/
def label (e : WorkerEvent) : Label :=
  match e.op, e.out with
  | .enqueue _, .answer true => .admitted e.pre.enqueued
  | .unlinkAt seq _, .answer true =>
    .unlinked (e.pre.slots ((e.pre.unlinkVictim seq).getD 0)).ticket
  | .reset, _ => .reset
  | .claimNext, .index (some idx) =>
    if e.pre.inFlight = none then .claimed (e.pre.slots idx).ticket
    else .quiet
  | .finish idx _ retain now, _ =>
    if e.pre.inFlight = some idx then
      if retain ∧ (e.pre.slots idx).cancelled = false ∧
          (e.pre.slots idx).generation = e.pre.generation then
        .retained (e.pre.slots idx).ticket now
      else .released (e.pre.slots idx).ticket
    else .quiet
  | .markResponseStarted idx _, .answer true =>
    .started (e.pre.slots idx).ticket true
  | .admitPreparedResponse idx _ _ _, .admission .accepted =>
    .started (e.pre.slots idx).ticket true
  | .beginSideEffect idx, .answer true =>
    .started (e.pre.slots idx).ticket false
  | _, _ => .quiet

/-! ## Reading the ring -/

variable {idx : Nat}

section Reading

variable {w : EndpointWorker}

theorem le_reflowAnchor (c : Config) (anchor now : Time) : anchor ≤ reflowAnchor c anchor now := by
  unfold reflowAnchor
  split
  next h => linarith [h.1, h.2]
  · exact Int.le_refl _

theorem le_reservationStart (c : Config) {cursor : Time} (now : Time) :
    cursor ≤ reservationStart c (some cursor) now := by
  show cursor ≤ if _ then _ else _
  split
  next h => linarith [h.1, h.2]
  · exact Int.le_refl _

theorem currentActive_iff : w.currentActive idx = true ↔
      w.inFlight = some idx ∧ w.line.Active idx := by
  simp [currentActive, Line.Active, line, and_assoc]

theorem Sound.queue_length_lt (h : w.Sound) {free : List Nat}
    (hfree : w.free = free ++ [idx]) : w.order.count < endpointQueueCapacity := by
  have hlen := h.partition.length_eq
  rw [length_range] at hlen
  have hcount : w.queue.length = w.order.count := length_window _ _
  simp only [line, hfree, length_append, length_singleton, hcount] at hlen
  omega

end Reading

/-! ## The methods -/

section Methods

variable {c : Config} {w : EndpointWorker}

/-! ### What an observer sees of each call -/

theorem label_enqueue (r : Submission) : label (event (step c) w (.enqueue r)) =
      if (enqueueWithGeneration c w r).2 then .admitted w.enqueued else .quiet := by
  show label ⟨w, .enqueue r, .answer (enqueueWithGeneration c w r).2, _⟩ = _
  cases (enqueueWithGeneration c w r).2 <;> rfl

theorem label_unlinkAt (seq : UInt32) (now : Time) : label (event (step c) w (.unlinkAt seq now)) =
      if (unlinkAt c w seq now).2 then
        .unlinked (w.slots ((w.unlinkVictim seq).getD 0)).ticket
      else .quiet := by
  show label ⟨w, .unlinkAt seq now, .answer (unlinkAt c w seq now).2, _⟩ = _
  cases (unlinkAt c w seq now).2 <;> rfl

theorem label_claimNext : label (event (step c) w .claimNext) =
      match w.claimNext.2 with
      | some idx =>
        if w.inFlight = none then .claimed (w.slots idx).ticket else .quiet
      | none => .quiet := by
  show label ⟨w, .claimNext, .index w.claimNext.2, _⟩ = _
  cases w.claimNext.2 <;> rfl

theorem label_finish (idx : Nat) (completed retain : Bool) (now : Time) :
    label (event (step c) w (.finish idx completed retain now)) =
      if w.inFlight = some idx then
        if retain ∧ (w.slots idx).cancelled = false ∧ (w.slots idx).generation = w.generation then
          .retained (w.slots idx).ticket now
        else .released (w.slots idx).ticket
      else .quiet := rfl

theorem label_markResponseStarted (idx : Nat) (admits : Bool) :
    label (event (step c) w (.markResponseStarted idx admits)) =
      if (w.markResponseStartedWithAdmission idx admits).2 then
        .started (w.slots idx).ticket true
      else .quiet := by
  show label ⟨w, .markResponseStarted idx admits,
    .answer (w.markResponseStartedWithAdmission idx admits).2, _⟩ = _
  cases (w.markResponseStartedWithAdmission idx admits).2 <;> rfl

theorem label_admitPreparedResponse (idx : Nat) (ended owns copies : Bool) :
    label (event (step c) w (.admitPreparedResponse idx ended owns copies)) =
      if (w.admitPreparedResponse idx ended owns copies).2 = .accepted then
        .started (w.slots idx).ticket true
      else .quiet := by
  show label ⟨w, .admitPreparedResponse idx ended owns copies,
    .admission (w.admitPreparedResponse idx ended owns copies).2, _⟩ = _
  cases (w.admitPreparedResponse idx ended owns copies).2 <;> rfl

theorem label_beginSideEffect (idx : Nat) : label (event (step c) w (.beginSideEffect idx)) =
      if (w.beginSideEffect idx).2 then .started (w.slots idx).ticket false
      else .quiet := by
  show label ⟨w, .beginSideEffect idx, .answer (w.beginSideEffect idx).2, _⟩ = _
  cases (w.beginSideEffect idx).2 <;> rfl

/-! ### Each call is a move -/

/-- The call keeps the ring in bounds and is one move of the line. -/
def Refined (c : Config) (w : EndpointWorker) (op : Op) : Prop :=
  (step c w op).1.order.WF endpointQueueCapacity ∧
    Line.Move c w.line (label (event (step c) w op)) (step c w op).1.line

theorem admittedJob_admissible (c : Config) (w : EndpointWorker)
    (r : Submission) : Admissible c w.line (admittedJob c w r) where
  ticket := rfl
  generation := rfl
  cancelled := rfl
  responseStarted := rfl
  sideEffectStarted := rfl
  window := rfl
  duration := ⟨r.packets, rfl⟩
  behind := by
    intro cursor hcursor
    have hcursor' : w.cursor = some cursor := hcursor
    show cursor ≤ reservationStart c w.cursor r.now
    rw [hcursor']
    exact le_reservationStart c r.now

/-- The loop of `reset` releases the queued slots in order. -/
theorem drainQueue_line (n : Nat) (w : EndpointWorker)
    (hring : w.order.WF endpointQueueCapacity) (hn : w.order.count = n) :
    (drainQueue n w).order.WF endpointQueueCapacity ∧ (drainQueue n w).line =
        { w.line with
          slots := w.queue.foldl (fun slots idx =>
            update slots idx (releasedJob (slots idx))) w.slots
          queue := []
          free := w.free ++ w.queue } := by
  induction n generalizing w with
  | zero =>
    have hqueue : w.queue = [] := window_eq_nil _ hn
    refine ⟨hring, ?_⟩
    show w.line = _
    rw [hqueue, append_nil, line, hqueue]
    rfl
  | succ n ih =>
    have hqueue : w.queue = w.order.front ::
        (w.order.pop endpointQueueCapacity).window endpointQueueCapacity :=
      window_eq_cons w.order (by omega) hring.head_lt
    obtain ⟨hring', hline⟩ := ih
      (w.popQueuedLocked.2.releaseSlotLocked w.popQueuedLocked.1) hring.pop
      (by show w.order.count - 1 = n; omega)
    refine ⟨hring', ?_⟩
    show (drainQueue n _).line = _
    rw [hline, hqueue]
    simp only [popQueuedLocked, releaseSlotLocked, setSlot, line, queue,
      foldl_cons, append_assoc, singleton_append]

theorem enqueue_refused {r : Submission} (h : (enqueueWithGeneration c w r).2 = false) :
    (enqueueWithGeneration c w r).1 = w := by
  unfold enqueueWithGeneration at h ⊢
  split at h
  · rfl
  · cases h

theorem unlinkQueued_refused {seq : UInt32} {now : Time}
    (h : (unlinkQueued c w seq now).2 = false) : (unlinkQueued c w seq now).1 = w := by
  unfold unlinkQueued at h ⊢
  split at h
  · rfl
  · cases h

theorem unlinkAt_refused {seq : UInt32} {now : Time}
    (h : (unlinkAt c w seq now).2 = false) : (unlinkAt c w seq now).1 = w := by
  unfold unlinkAt at h ⊢
  split at h
  · dsimp only at h ⊢
    split at h
    · cases h
    next hunlinkable =>
      rw [if_neg hunlinkable]
      exact unlinkQueued_refused h
  · exact unlinkQueued_refused h

theorem markResponseStarted_refused {admits : Bool}
    (h : (w.markResponseStartedWithAdmission idx admits).2 ≠ true) :
    (w.markResponseStartedWithAdmission idx admits).1 = w := by
  unfold markResponseStartedWithAdmission at h ⊢
  split
  · rfl
  split
  · rfl
  rename_i hactive hadmits
  rw [if_neg hactive, if_neg hadmits] at h
  exact absurd rfl h

theorem admitPreparedResponse_refused {ended owns copies : Bool}
    (h : (w.admitPreparedResponse idx ended owns copies).2 ≠ .accepted) :
    (w.admitPreparedResponse idx ended owns copies).1 = w := by
  unfold admitPreparedResponse at h ⊢
  split
  · rfl
  split
  · rfl
  split
  · rfl
  rename_i hended hactive hcopies
  rw [if_neg hended, if_neg hactive, if_neg hcopies] at h
  exact absurd rfl h

/-- The calls an observer may take a label for. -/
def madeBy : Label → Op → Prop
  | .quiet, _ => True
  | .admitted _, .enqueue _ => True
  | .unlinked _, .unlinkAt _ _ => True
  | .reset, .reset => True
  | .claimed _, .claimNext => True
  | .started _ true, .markResponseStarted _ _ => True
  | .started _ true, .admitPreparedResponse _ _ _ _ => True
  | .started _ false, .beginSideEffect _ => True
  | .retained _ now, .finish _ _ _ now' => now' = now
  | .released _, .finish _ _ _ _ => True
  | _, _ => False

theorem label_madeBy (op : Op) : madeBy (label (event (step c) w op)) op := by
  cases op with
  | enqueue r => rw [label_enqueue]; split <;> trivial
  | unlinkAt seq now => rw [label_unlinkAt]; split <;> trivial
  | claimNext =>
    rw [label_claimNext]
    split
    · split <;> trivial
    · trivial
  | finish idx completed retain now =>
    rw [label_finish]
    split
    · split
      · rfl
      · trivial
    · trivial
  | markResponseStarted idx admits =>
    rw [label_markResponseStarted]; split <;> trivial
  | admitPreparedResponse idx ended owns copies =>
    rw [label_admitPreparedResponse]; split <;> trivial
  | beginSideEffect idx => rw [label_beginSideEffect]; split <;> trivial
  | reset | currentActive | phaseDeadline => trivial

variable (h : w.Sound)

include h

theorem enqueue_refines (r : Submission) : Refined c w (.enqueue r) := by
  rw [Refined, label_enqueue]
  dsimp only [step]
  unfold enqueueWithGeneration
  split
  · exact ⟨h.ring, .keep⟩
  rename_i idx hlast
  obtain ⟨free, hfree⟩ := getLast?_eq_some_iff.1 hlast
  have hlt := h.queue_length_lt hfree
  refine ⟨h.ring.push hlt idx, ?_⟩
  have hqueue : (w.order.push endpointQueueCapacity idx).window
      endpointQueueCapacity = w.queue ++ [idx] :=
    window_push w.order idx hlt
  have hmove := Line.Move.enqueue (c := c) (l := w.line) hfree (admittedJob_admissible c w r)
  rw [show w.line.queue ++ [idx] = _ from hqueue.symm] at hmove
  rw [hfree, dropLast_concat]
  exact hmove

theorem claimNext_refines : Refined c w .claimNext := by
  rw [Refined, label_claimNext]
  dsimp only [step]
  unfold claimNext
  split
  next idx hflight =>
    have hbusy : w.inFlight ≠ none := by rw [hflight]; simp
    refine ⟨h.ring, ?_⟩
    dsimp only
    rw [if_neg hbusy]
    exact .keep
  next hflight =>
    split
    · exact ⟨h.ring, .keep⟩
    rename_i hcount
    have hqueue := window_eq_cons w.order (Nat.pos_of_ne_zero hcount) h.ring.head_lt
    exact ⟨h.ring.pop, .claim hflight hqueue⟩

theorem unlinkQueued_refines (seq : UInt32) (now : Time) :
    (unlinkQueued c w seq now).1.order.WF endpointQueueCapacity ∧ Line.Move c w.line
        (if (unlinkQueued c w seq now).2 then
          .unlinked (w.slots ((w.queuedVictim seq).getD 0)).ticket
          else .quiet)
        (unlinkQueued c w seq now).1.line := by
  unfold unlinkQueued queuedVictim
  split
  · exact ⟨h.ring, .keep⟩
  rename_i position hfind
  obtain ⟨hlt, _, _⟩ := findIdx?_eq_some_iff_getElem.1 hfind
  have hcount : w.queue.length = w.order.count := length_window _ _
  refine ⟨h.ring.removeAt position, ?_⟩
  rw [hfind]
  have hsplit : w.queue = w.queue.take position ++
      w.queue.getD position 0 :: w.queue.drop (position + 1) := by
    rw [getD_eq_getElem _ _ hlt, getElem_cons_drop hlt, take_append_drop]
  have hqueue : (w.order.removeAt endpointQueueCapacity position).window endpointQueueCapacity =
        w.queue.take position ++ w.queue.drop (position + 1) := by
    rw [window_removeAt w.order (hcount ▸ hlt) h.ring, ← eraseIdx_eq_take_drop_succ]
    rfl
  have hdrop : ((w.order.removeAt endpointQueueCapacity position).window
      endpointQueueCapacity).drop position = w.queue.drop (position + 1) := by
    rw [hqueue, drop_left' (length_take_of_le (Nat.le_of_lt hlt))]
  have hmove := Line.Move.remove (c := c) (l := w.line) hsplit (le_reflowAnchor c _ now)
  rw [← hqueue, ← hdrop] at hmove
  exact hmove

theorem unlinkAt_refines (seq : UInt32) (now : Time) : Refined c w (.unlinkAt seq now) := by
  rw [Refined, label_unlinkAt]
  dsimp only [step]
  unfold unlinkAt
  split
  next idx hflight =>
    dsimp only
    split
    next hunlinkable =>
      have hvictim : w.unlinkVictim seq = some idx := by
        rw [unlinkVictim, hflight]
        exact if_pos hunlinkable
      simp only [unlinkable, Bool.and_eq_true, Bool.not_eq_true'] at hunlinkable
      obtain ⟨⟨⟨_, hresponse⟩, heffect⟩, hcancelled⟩ := hunlinkable
      rw [hvictim]
      exact ⟨h.ring, .cancel hflight hcancelled hresponse heffect (le_reflowAnchor c _ now)⟩
    next hunlinkable =>
      have hvictim : w.unlinkVictim seq = w.queuedVictim seq := by
        rw [unlinkVictim, hflight]
        exact if_neg hunlinkable
      rw [hvictim]
      exact unlinkQueued_refines h seq now
  next hflight =>
    have hvictim : w.unlinkVictim seq = w.queuedVictim seq := by
      rw [unlinkVictim, hflight]
    rw [hvictim]
    exact unlinkQueued_refines h seq now

theorem drainQueue_refines {slots : Nat → EndpointJob}
    (hslots : w.line.resetSlots = w.queue.foldl (fun slots idx =>
      update slots idx (releasedJob (slots idx))) slots) :
    let w' := drainQueue w.order.count
      { w with slots := slots, generation := w.generation + 1, cursor := none }
    w'.order.WF endpointQueueCapacity ∧ Line.Move c w.line .reset w'.line := by
  obtain ⟨hring, hline⟩ := drainQueue_line w.order.count
    { w with slots := slots, generation := w.generation + 1, cursor := none } h.ring rfl
  have hmove := Line.Move.reset (c := c) (l := w.line)
  rw [hslots] at hmove
  exact ⟨hring, (congrArg (Line.Move c w.line .reset) hline).mpr hmove⟩

theorem reset_refines : Refined c w .reset := by
  show w.reset.order.WF _ ∧ Line.Move c w.line .reset w.reset.line
  unfold reset
  split
  next idx hflight =>
    refine drainQueue_refines h ?_
    rw [Line.resetSlots, show w.line.inFlight = some idx from hflight]
    rfl
  next hflight =>
    refine drainQueue_refines h ?_
    rw [Line.resetSlots, show w.line.inFlight = none from hflight]
    rfl

theorem finish_refines (idx : Nat) (completed retain : Bool) (now : Time) :
    Refined c w (.finish idx completed retain now) := by
  rw [Refined, label_finish]
  dsimp only [step]
  unfold finishCurrentWithRetention
  split
  next hflight =>
    dsimp only
    split
    next hretain => exact ⟨h.ring, .retain hflight hretain.2 (le_reflowAnchor c _ now)⟩
    · exact ⟨h.ring, .release hflight⟩
  · exact ⟨h.ring, .keep⟩

theorem mark_refines (idx : Nat) (admits : Bool) :
    Refined c w (.markResponseStarted idx admits) := by
  rw [Refined, label_markResponseStarted]
  dsimp only [step]
  unfold markResponseStartedWithAdmission
  split
  · exact ⟨h.ring, .keep⟩
  rename_i hactive
  split
  · exact ⟨h.ring, .keep⟩
  rw [Bool.not_eq_false, currentActive_iff] at hactive
  exact ⟨h.ring, .respond hactive.1 hactive.2⟩

theorem admitPrepared_refines (idx : Nat) (ended owns copies : Bool) :
    Refined c w (.admitPreparedResponse idx ended owns copies) := by
  rw [Refined, label_admitPreparedResponse]
  dsimp only [step]
  unfold admitPreparedResponse
  split
  · exact ⟨h.ring, .keep⟩
  split
  · exact ⟨h.ring, .keep⟩
  rename_i hactive
  split
  · exact ⟨h.ring, .keep⟩
  rw [not_or, Bool.not_eq_false, currentActive_iff] at hactive
  exact ⟨h.ring, .respond hactive.1.1 hactive.1.2⟩

theorem beginSideEffect_refines (idx : Nat) : Refined c w (.beginSideEffect idx) := by
  rw [Refined, label_beginSideEffect]
  dsimp only [step]
  unfold beginSideEffect
  split
  · exact ⟨h.ring, .keep⟩
  rename_i hactive
  rw [Bool.not_eq_false, currentActive_iff] at hactive
  exact ⟨h.ring, .sideEffect hactive.1 hactive.2⟩

theorem phaseDeadline_refines (idx phase : Nat) (now : Time) :
    Refined c w (.phaseDeadline idx phase now) := by
  show (phaseDeadline c w idx phase now).1.order.WF endpointQueueCapacity ∧
    Line.Move c w.line .quiet (phaseDeadline c w idx phase now).1.line
  unfold phaseDeadline
  split
  · exact ⟨h.ring, .keep⟩
  rename_i hactive
  rw [Bool.not_eq_false, currentActive_iff] at hactive
  dsimp only
  split
  · exact ⟨h.ring, .keep⟩
  split
  next hlate =>
    refine ⟨h.ring, .reanchor hactive.1 hactive.2 ?_ (le_reflowAnchor c _ now)⟩
    exact Int.lt_of_lt_of_le hlate.1 hlate.2
  · exact ⟨h.ring, .keep⟩

/-- **Every call is one move of the line**, and keeps the worker sound. -/
theorem step_refines (op : Op) : (step c w op).1.Sound ∧
      Line.Move c w.line (label (event (step c) w op)) (step c w op).1.line := by
  have hmove : Refined c w op := by
    cases op with
    | enqueue r => exact enqueue_refines h r
    | unlinkAt seq now => exact unlinkAt_refines h seq now
    | reset => exact reset_refines h
    | claimNext => exact claimNext_refines h
    | finish idx completed retain now => exact finish_refines h idx completed retain now
    | currentActive idx => exact ⟨h.ring, .keep⟩
    | markResponseStarted idx admits => exact mark_refines h idx admits
    | admitPreparedResponse idx ended owns copies =>
      exact admitPrepared_refines h idx ended owns copies
    | beginSideEffect idx => exact beginSideEffect_refines h idx
    | phaseDeadline idx phase now => exact phaseDeadline_refines h idx phase now
  exact ⟨⟨hmove.1, h.partition.move hmove.2⟩, hmove.2⟩

end Methods

theorem new_sound : new.Sound where
  ring := ⟨by decide, by decide⟩
  partition := by
    show ((range 64).map (fun i => 64 - 1 - i) ++ [] ++ []).Perm _
    decide +kernel

/-- Every state a new worker reaches is sound. -/
theorem sound_run (c : Config) (ops : List Op) : (final (step c) new ops).Sound :=
  invariant_final (I := Sound) (fun _ op h => (step_refines h op).1) new_sound ops

end EndpointWorker

end Viiper.Ports.Endpoint
