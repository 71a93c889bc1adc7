import Mathlib.Data.List.Nodup
import Viiper.Ports.EndpointWorker

/-!
# The line of jobs at an endpoint

The worker without its ring: a list of queued slots, a list of free slots and
at most one slot in flight.  `Line.Move` lists what can happen to it, with the
label an observer would attach; every call of the worker is one of these moves.

Two facts hold of every move and carry everything else: the slots stay
partitioned into free, queued and in flight, and a reflow rewrites the service
windows of the jobs it passes and nothing else.
-/

namespace Viiper.Ports.Endpoint

open Verified Go Function List
open EndpointWorker (reflowJob releasedJob)

structure Line where
  slots : Nat → EndpointJob
  (queue free : List Nat)
  inFlight : Option Nat
  generation : UInt64
  cursor : Option Time
  enqueued : Nat

/-- What an observer of the endpoint sees, by ticket. -/
inductive Label
  | quiet
  | admitted (ticket : Nat)
  | unlinked (ticket : Nat)
  | reset
  | claimed (ticket : Nat)
  | started (ticket : Nat) (response : Bool)
  | retained (ticket : Nat) (now : Time)
  | released (ticket : Nat)
  deriving DecidableEq

/-! ## Reflow -/

/-- The reflow loop over a list of slots. -/
def reflow (slots : Nat → EndpointJob) (anchor : Time) (idxs : List Nat) :
    (Nat → EndpointJob) × Time :=
  idxs.foldl reflowJob (slots, anchor)

/-- Two jobs which differ in their service window only. -/
structure SameJob (a b : EndpointJob) : Prop where
  seq : a.seq = b.seq
  duration : a.duration = b.duration
  generation : a.generation = b.generation
  packets : a.packets = b.packets
  cancelled : a.cancelled = b.cancelled
  responseStarted : a.responseStarted = b.responseStarted
  sideEffectStarted : a.sideEffectStarted = b.sideEffectStarted
  ticket : a.ticket = b.ticket

/-- The first job is the second with its window and its marks rewritten. -/
def EndpointJob.Rewrites (a b : EndpointJob) : Prop :=
  ∃ serviceAt serviceEnd cancelled response effect, a = { b with
    serviceAt := serviceAt
    serviceEnd := serviceEnd
    cancelled := cancelled
    responseStarted := response
    sideEffectStarted := effect }

theorem EndpointJob.Rewrites.refl (a : EndpointJob) : a.Rewrites a := ⟨_, _, _, _, _, rfl⟩

theorem EndpointJob.Rewrites.trans {a b c : EndpointJob} (hab : a.Rewrites b)
    (hbc : b.Rewrites c) : a.Rewrites c := by
  obtain ⟨_, _, _, _, _, rfl⟩ := hab
  obtain ⟨_, _, _, _, _, rfl⟩ := hbc
  exact ⟨_, _, _, _, _, rfl⟩

variable {idx : Nat}

/-- Rewriting one slot keeps every field the new job shares with the old one. -/
theorem update_field {β : Type} (f : EndpointJob → β) {slots : Nat → EndpointJob}
    {job : EndpointJob} (h : f job = f (slots idx)) (i : Nat) :
    f (update slots idx job i) = f (slots i) := by
  by_cases hi : i = idx
  · rw [hi, update_self, h]
  · rw [update_of_ne hi]

section Reflow

variable {slots : Nat → EndpointJob} {anchor : Time} {idxs : List Nat}

/-- A reflow does not touch the slots it does not pass. -/
theorem reflow_frame {i : Nat} (h : i ∉ idxs) : (reflow slots anchor idxs).1 i = slots i := by
  induction idxs generalizing slots anchor with
  | nil => rfl
  | cons idx idxs ih =>
    rw [mem_cons, not_or] at h
    have hrest := @ih (reflowJob (slots, anchor) idx).1 (reflowJob (slots, anchor) idx).2 h.2
    refine hrest.trans ?_
    exact update_of_ne h.1 _ _

/-- A reflow changes service windows only. -/
theorem reflow_eq (i : Nat) : ∃ serviceAt serviceEnd, (reflow slots anchor idxs).1 i =
      { slots i with serviceAt := serviceAt, serviceEnd := serviceEnd } := by
  induction idxs generalizing slots anchor with
  | nil => exact ⟨_, _, rfl⟩
  | cons idx idxs ih =>
    obtain ⟨at_, end_, hrest⟩ :=
      @ih (reflowJob (slots, anchor) idx).1 (reflowJob (slots, anchor) idx).2
    refine ⟨at_, end_, hrest.trans ?_⟩
    by_cases hi : i = idx
    · simp [reflowJob, hi]
    · simp [reflowJob, hi]

theorem reflow_same (i : Nat) : SameJob ((reflow slots anchor idxs).1 i) (slots i) := by
  obtain ⟨_, _, heq⟩ := @reflow_eq slots anchor idxs i
  rw [heq]
  exact ⟨rfl, rfl, rfl, rfl, rfl, rfl, rfl, rfl⟩

theorem reflow_rewrites (i : Nat) : ((reflow slots anchor idxs).1 i).Rewrites (slots i) := by
  obtain ⟨_, _, heq⟩ := @reflow_eq slots anchor idxs i
  rw [heq]
  exact ⟨_, _, _, _, _, rfl⟩

theorem update_rewrites {job : EndpointJob} (h : job.Rewrites (slots idx)) (i : Nat) :
    (update slots idx job i).Rewrites (slots i) := by
  rw [update_apply]
  split
  next hi => exact hi ▸ h
  · exact .refl _

end Reflow

/-! ## Moves -/

/-- What admission guarantees of a new job. -/
structure Admissible (c : Config) (l : Line) (job : EndpointJob) : Prop where
  ticket : job.ticket = l.enqueued
  generation : job.generation = l.generation
  cancelled : job.cancelled = false
  responseStarted : job.responseStarted = false
  sideEffectStarted : job.sideEffectStarted = false
  window : job.serviceEnd = job.serviceAt + job.duration
  duration : ∃ packets, job.duration = EndpointWorker.jobDuration c packets
  behind : ∀ cursor, l.cursor = some cursor → cursor ≤ job.serviceAt

namespace Line

/-- The job in flight is neither cancelled nor of an older generation. -/
def Active (l : Line) (idx : Nat) : Prop :=
  (l.slots idx).cancelled = false ∧ (l.slots idx).generation = l.generation

/-- Move the queued jobs behind a new anchor. -/
def reflowQueue (l : Line) (slots : Nat → EndpointJob) (anchor : Time) : Line :=
  { l with
    slots := (reflow slots anchor l.queue).1
    cursor := some (reflow slots anchor l.queue).2 }

/-- The slots after a reset: the job in flight is cancelled, the queued ones
are released. -/
def resetSlots (l : Line) : Nat → EndpointJob :=
  l.queue.foldl (fun slots idx => update slots idx (releasedJob (slots idx))) (match l.inFlight with
      | some idx =>
        update l.slots idx { l.slots idx with cancelled := true }
      | none => l.slots)

inductive Move (c : Config) : Line → Label → Line → Prop
  | keep {l : Line} : Move c l .quiet l
  | enqueue {l : Line} {free : List Nat} {idx : Nat} {job : EndpointJob} :
      l.free = free ++ [idx] → Admissible c l job → Move c l (.admitted l.enqueued)
          { l with
            slots := update l.slots idx job
            free := free
            queue := l.queue ++ [idx]
            cursor := some job.serviceEnd
            enqueued := l.enqueued + 1 }
  | cancel {l : Line} {idx : Nat} {anchor : Time} :
      l.inFlight = some idx → (l.slots idx).cancelled = false →
        (l.slots idx).responseStarted = false →
        (l.slots idx).sideEffectStarted = false →
        (l.slots idx).serviceAt ≤ anchor →
        Move c l (.unlinked (l.slots idx).ticket) (l.reflowQueue (update l.slots idx
            { l.slots idx with cancelled := true }) anchor)
  | remove {l : Line} {before after : List Nat} {idx : Nat} {anchor : Time} :
      l.queue = before ++ idx :: after → (l.slots idx).serviceAt ≤ anchor →
        Move c l (.unlinked (l.slots idx).ticket)
          { l with
            slots := (reflow (update l.slots idx (releasedJob (l.slots idx))) anchor after).1
            queue := before ++ after
            free := l.free ++ [idx]
            cursor := some (reflow (update l.slots idx
              (releasedJob (l.slots idx))) anchor after).2 }
  | reset {l : Line} : Move c l .reset
        { l with
          slots := l.resetSlots
          queue := []
          free := l.free ++ l.queue
          generation := l.generation + 1
          cursor := none }
  | claim {l : Line} {idx : Nat} {rest : List Nat} : l.inFlight = none → l.queue = idx :: rest →
        Move c l (.claimed (l.slots idx).ticket) { l with queue := rest, inFlight := some idx }
  | retain {l : Line} {idx : Nat} {now anchor : Time} : l.inFlight = some idx → l.Active idx →
        now + c.interval + (l.slots idx).duration ≤ anchor →
        Move c l (.retained (l.slots idx).ticket now) (l.reflowQueue (update l.slots idx
            { l.slots idx with
              serviceAt := now + c.interval
              serviceEnd := now + c.interval + (l.slots idx).duration }) anchor)
  | release {l : Line} {idx : Nat} : l.inFlight = some idx →
        Move c l (.released (l.slots idx).ticket)
          { l with
            slots := update l.slots idx (releasedJob (l.slots idx))
            free := l.free ++ [idx]
            inFlight := none }
  | respond {l : Line} {idx : Nat} : l.inFlight = some idx → l.Active idx →
        Move c l (.started (l.slots idx).ticket true)
          { l with
            slots := update l.slots idx { l.slots idx with responseStarted := true } }
  | sideEffect {l : Line} {idx : Nat} : l.inFlight = some idx → l.Active idx →
        Move c l (.started (l.slots idx).ticket false)
          { l with
            slots := update l.slots idx { l.slots idx with sideEffectStarted := true } }
  | reanchor {l : Line} {idx : Nat} {shift : Duration} {anchor : Time} :
      l.inFlight = some idx → l.Active idx → 0 < shift → (l.slots idx).serviceEnd + shift ≤ anchor →
        Move c l .quiet (l.reflowQueue (update l.slots idx
            { l.slots idx with
              serviceAt := (l.slots idx).serviceAt + shift
              serviceEnd := (l.slots idx).serviceEnd + shift }) anchor)

/-- The line with a new job at its end. -/
def enroll (l : Line) (free : List Nat) (idx : Nat) (job : EndpointJob) : Line :=
  { l with
    slots := update l.slots idx job
    free := free
    queue := l.queue ++ [idx]
    cursor := some job.serviceEnd
    enqueued := l.enqueued + 1 }

/-- The line without a queued job, and those behind it moved up. -/
def withdraw (l : Line) (before after : List Nat) (idx : Nat) (anchor : Time) : Line :=
  let moved := reflow (update l.slots idx (releasedJob (l.slots idx))) anchor after
  { l with
    slots := moved.1
    queue := before ++ after
    free := l.free ++ [idx]
    cursor := some moved.2 }

/-! ## The partition -/

/-- Every slot index is free, queued or in flight, and only one of them. -/
def Partition (l : Line) : Prop :=
  (l.free ++ l.queue ++ l.inFlight.toList).Perm (List.range endpointQueueCapacity)

/-- **The slots stay partitioned**, whatever happens. -/
theorem Partition.move {c : Config} {l l' : Line} {label : Label}
    (h : l.Partition) (hmove : Move c l label l') : l'.Partition := by
  cases hmove with
  | keep | cancel | retain | respond | sideEffect
  | reanchor => exact h
  | @enqueue free idx job hfree hjob =>
    refine List.Perm.trans ?_ h
    rw [hfree]
    refine List.Perm.append_right _ ?_
    rw [append_assoc]
    exact List.Perm.append_left _ (perm_append_comm)
  | @remove before after idx anchor hqueue hanchor =>
    refine List.Perm.trans ?_ h
    rw [hqueue]
    refine List.Perm.append_right _ ?_
    rw [append_assoc]
    refine List.Perm.append_left _ ?_
    show (idx :: (before ++ after)).Perm _
    exact perm_middle.symm
  | reset =>
    refine List.Perm.trans ?_ h
    simp
  | @claim idx rest hfree hqueue =>
    refine List.Perm.trans ?_ h
    rw [hqueue, hfree, append_assoc, append_assoc]
    refine List.Perm.append_left _ ?_
    rw [Option.toList_none, append_nil]
    exact (perm_append_comm : (rest ++ [idx]).Perm ([idx] ++ rest))
  | release hflight =>
    refine List.Perm.trans ?_ h
    rw [hflight]
    simp only [Option.toList_none, append_nil, Option.toList_some, append_assoc]
    exact List.Perm.append_left _ perm_append_comm

theorem Partition.nodup {l : Line} (h : l.Partition) :
    (l.free ++ l.queue ++ l.inFlight.toList).Nodup :=
  h.nodup_iff.2 nodup_range

/-- The slots of the queued jobs and of the job in flight. -/
def held (l : Line) : List Nat := l.queue ++ l.inFlight.toList

theorem mem_held_of_inFlight {l : Line} (h : l.inFlight = some idx) : idx ∈ l.held := by
  simp [held, h]

theorem mem_held_of_queue {l : Line} (h : idx ∈ l.queue) : idx ∈ l.held :=
  mem_append_left _ h

variable {before after : List Nat}

/-- Taking a job out of the queue leaves jobs of the queue. -/
theorem mem_queue_of_removal {l : Line} {i : Nat} (hqueue : l.queue = before ++ idx :: after)
    (hi : i ∈ before ++ after) : i ∈ l.queue := by
  rw [hqueue]
  simp only [mem_append, mem_cons] at hi ⊢
  tauto

theorem mem_queue_removed {l : Line}
    (hqueue : l.queue = before ++ idx :: after) : idx ∈ l.queue := by
  rw [hqueue]
  simp

theorem foldl_released_frame {idxs : List Nat} (slots : Nat → EndpointJob)
    {i : Nat} (h : i ∉ idxs) :
    idxs.foldl (fun slots idx => update slots idx (releasedJob (slots idx))) slots i = slots i := by
  induction idxs generalizing slots with
  | nil => rfl
  | cons idx idxs ih =>
    rw [mem_cons, not_or] at h
    rw [foldl_cons, ih _ h.2]
    exact update_of_ne h.1 _ _

section Partition

variable {l : Line} {i : Nat} (h : l.Partition)

include h

theorem Partition.held_nodup : l.held.Nodup := by
  have hnodup := h.nodup
  rw [append_assoc] at hnodup
  exact List.Nodup.of_append_right hnodup

theorem Partition.queue_nodup : l.queue.Nodup :=
  List.Nodup.of_append_left h.held_nodup

theorem Partition.not_free (hi : i ∈ l.held) : i ∉ l.free := by
  intro hf
  have hnodup := h.nodup
  rw [append_assoc] at hnodup
  exact disjoint_of_nodup_append hnodup hf hi

/-- The slot an admission takes is not in use. -/
theorem Partition.ne_free {free : List Nat} (hfree : l.free = free ++ [idx])
    (hi : i ∈ l.held) : i ≠ idx := by
  intro hne
  apply h.not_free hi
  rw [hfree, hne]
  simp

theorem Partition.not_queued (hidx : l.inFlight = some idx) : idx ∉ l.queue := by
  intro hq
  exact disjoint_of_nodup_append h.held_nodup hq (by simp [hidx])

/-- The job taken out was in the queue once, and so are those which stay. -/
theorem Partition.removal (hqueue : l.queue = before ++ idx :: after) :
    idx ∉ before ++ after ∧ (before ++ after).Nodup := by
  have hnodup := h.queue_nodup
  rw [hqueue, nodup_middle] at hnodup
  exact ⟨hnodup.notMem, hnodup.of_cons⟩

/-- The job taken out is not held any more. -/
theorem Partition.ne_removed (hqueue : l.queue = before ++ idx :: after)
    (hi : i ∈ before ++ after ++ l.inFlight.toList) : i ≠ idx := by
  rintro rfl
  rcases mem_append.1 hi with hq | hf
  · exact (h.removal hqueue).1 hq
  · exact h.not_queued (by simpa using hf) (mem_queue_removed hqueue)

/-- Rewriting the job in flight leaves the queued jobs alone. -/
theorem Partition.update_inFlight (hidx : l.inFlight = some idx) (job : EndpointJob)
    (hi : i ∈ l.queue) : update l.slots idx job i = l.slots i :=
  update_of_ne (fun hne : i = idx => h.not_queued hidx (hne ▸ hi)) _ _

/-- Filling a free slot leaves the held jobs alone. -/
theorem Partition.update_free {free : List Nat} (hfree : l.free = free ++ [idx])
    (job : EndpointJob) (hi : i ∈ l.held) : update l.slots idx job i = l.slots i :=
  update_of_ne (h.ne_free hfree hi) _ _

/-- Taking a job out of the queue leaves the job in flight alone. -/
theorem Partition.removal_inFlight (hqueue : l.queue = before ++ idx :: after)
    (hi : l.inFlight = some i) (job : EndpointJob) (anchor : Time) :
    (reflow (update l.slots idx job) anchor after).1 i = l.slots i := by
  have hnot := h.not_queued hi
  rw [hqueue, mem_append, mem_cons, not_or, not_or] at hnot
  rw [reflow_frame hnot.2.2, update_of_ne hnot.2.1]

theorem Partition.resetSlots_inFlight (hidx : l.inFlight = some idx) :
    l.resetSlots idx = { l.slots idx with cancelled := true } := by
  rw [resetSlots, foldl_released_frame _ (h.not_queued hidx), hidx]
  exact update_self ..

end Partition

section Held

variable {c : Config} {l l' : Line} {label : Label} {i : Nat}

/-- Only an admission brings a job in. -/
theorem Move.held_cases (hmove : Move c l label l') (hi : i ∈ l'.held) :
    i ∈ l.held ∨ label = .admitted l.enqueued ∧ Admissible c l (l'.slots i) := by
  cases hmove with
  | keep | cancel | retain | reanchor | respond
  | sideEffect => exact .inl hi
  | @enqueue free idx job hfree hjob =>
    by_cases hne : i = idx
    · refine .inr ⟨rfl, ?_⟩
      show Admissible c l (update l.slots idx job i)
      rw [hne, update_self]
      exact hjob
    · left
      simp only [held, mem_append, mem_singleton] at hi ⊢
      tauto
  | remove hqueue hanchor =>
    rcases mem_append.1 hi with hq | hf
    · exact .inl (mem_held_of_queue (mem_queue_of_removal hqueue hq))
    · exact .inl (mem_append_right _ hf)
  | reset => exact .inl (mem_append_right _ (by simpa [held] using hi))
  | claim hfree hqueue =>
    refine .inl (mem_held_of_queue ?_)
    rw [hqueue]
    simpa [held, or_comm] using hi
  | release hflight => exact .inl (mem_held_of_queue (by simpa [held] using hi))

/-- As long as a job is held, only its window and its marks are rewritten. -/
theorem Move.rewrites (hmove : Move c l label l') (hpartition : l.Partition)
    (hold : i ∈ l.held) (hi : i ∈ l'.held) : (l'.slots i).Rewrites (l.slots i) := by
  cases hmove with
  | keep | claim => exact .refl _
  | @enqueue free idx job hfree hjob =>
    show (update l.slots idx job i).Rewrites _
    rw [hpartition.update_free hfree job hold]
    exact .refl _
  | cancel | retain | reanchor =>
    exact (reflow_rewrites i).trans (update_rewrites ⟨_, _, _, _, _, rfl⟩ i)
  | respond | sideEffect => exact update_rewrites ⟨_, _, _, _, _, rfl⟩ i
  | remove hqueue hanchor =>
    refine (reflow_rewrites i).trans ?_
    rw [update_of_ne (hpartition.ne_removed hqueue hi)]
    exact .refl _
  | reset =>
    show (l.resetSlots i).Rewrites _
    rw [hpartition.resetSlots_inFlight (by simpa [held] using hi)]
    exact ⟨_, _, _, _, _, rfl⟩
  | @release idx hflight =>
    show (update l.slots idx _ i).Rewrites _
    rw [hpartition.update_inFlight hflight _ (by simpa [held] using hi)]
    exact .refl _

end Held

end Line

end Viiper.Ports.Endpoint
