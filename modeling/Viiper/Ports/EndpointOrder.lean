import Viiper.Ports.EndpointRefinement
import Viiper.Verified.Ledger

/-!
# Slots and admission order of an endpoint worker

What a worker does with its sixty-four slots, over whole runs: no slot is lost
or handed out twice, and the jobs reach the worker goroutine in the order in
which the reader had them admitted, apart from those it unlinked or reset while
they waited.

The account is kept on the abstract line: `Line.Account` reads the ledger of
the queue in tickets, and every move keeps it.
-/

namespace Viiper.Ports.Endpoint

open Verified Run Function List

def Label.claims : Label → List Nat
  | .claimed ticket => [ticket]
  | _ => []

namespace Line

/-- The tickets of the queued jobs, oldest first. -/
def queuedTickets (l : Line) : List Nat :=
  l.queue.map fun i => (l.slots i).ticket

/-- The tickets which left the queue without being claimed. -/
def drops (l : Line) : Label → List Nat
  | .unlinked ticket => if ticket ∈ l.queuedTickets then [ticket] else []
  | .reset => l.queuedTickets
  | _ => []

section Tickets

variable {c : Config} {l l' : Line} {label : Label}

theorem foldl_released_ticket (idxs : List Nat) (slots : Nat → EndpointJob) (i : Nat) :
    (idxs.foldl (fun slots idx => update slots idx
      (EndpointWorker.releasedJob (slots idx))) slots i).ticket =
      (slots i).ticket := by
  induction idxs generalizing slots with
  | nil => rfl
  | cons idx idxs ih =>
    rw [foldl_cons, ih]
    exact update_field EndpointJob.ticket (by rfl) i

/-- **A slot in use is never given to another job.** -/
theorem Move.ticket_eq (hmove : Move c l label l') {i : Nat} (hi : i ∉ l.free) :
    (l'.slots i).ticket = (l.slots i).ticket := by
  cases hmove with
  | keep | claim => rfl
  | @enqueue free idx job hfree hjob =>
    have hne : i ≠ idx := by
      intro h
      apply hi
      rw [hfree, h]
      simp
    exact congrArg EndpointJob.ticket (update_of_ne hne _ _)
  | cancel | retain | reanchor | remove =>
    exact (reflow_same i).ticket.trans (update_field EndpointJob.ticket (by rfl) i)
  | release | respond | sideEffect => exact update_field EndpointJob.ticket (by rfl) i
  | reset =>
    refine (foldl_released_ticket _ _ i).trans ?_
    cases l.inFlight with
    | none => rfl
    | some idx => exact update_field EndpointJob.ticket (by rfl) i

theorem queuedTickets_congr (hqueue : l'.queue = l.queue)
    (hticket : ∀ i ∈ l.queue, (l'.slots i).ticket = (l.slots i).ticket) :
    l'.queuedTickets = l.queuedTickets := by
  rw [queuedTickets, hqueue]
  exact map_congr_left hticket

end Tickets

/-! ## The account -/

/-- The ledger of the queue; the job in flight was claimed. -/
structure Account (served dropped : List Nat) (l : Line) : Prop where
  ledger : Ledger served l.queuedTickets dropped l.enqueued
  claimed : ∀ idx, l.inFlight = some idx → (l.slots idx).ticket ∈ served

namespace Account

variable {c : Config} {l l' : Line} {label : Label} {served dropped : List Nat}

theorem ticket_not_queued (h : Account served dropped l) {idx : Nat}
    (hflight : l.inFlight = some idx) : (l.slots idx).ticket ∉ l.queuedTickets :=
  disjoint_of_nodup_append h.ledger.nodup (h.claimed idx hflight)

/-- A change which keeps the queue and claims nothing keeps the account. -/
theorem of_same (h : Account served dropped l)
    (hticket : ∀ i ∈ l.held, (l'.slots i).ticket = (l.slots i).ticket) (hqueue : l'.queue = l.queue)
    (hflight : ∀ idx, l'.inFlight = some idx → l.inFlight = some idx)
    (hcount : l'.enqueued = l.enqueued) : Account served dropped l' where
  ledger := by
    rw [hcount, queuedTickets_congr hqueue fun i hi =>
      hticket i (mem_held_of_queue hi)]
    exact h.ledger
  claimed := by
    intro idx hidx
    rw [hticket idx (mem_held_of_inFlight (hflight idx hidx))]
    exact h.claimed idx (hflight idx hidx)

/-- **Every move keeps the account**: what it claims is appended to the served
tickets, what it drops to the dropped ones. -/
theorem move (h : Account served dropped l) (hpartition : l.Partition) (hmove : Move c l label l') :
    Account (served ++ label.claims) (dropped ++ l.drops label) l' := by
  have hticket : ∀ i ∈ l.held, (l'.slots i).ticket = (l.slots i).ticket :=
    fun i hi => hmove.ticket_eq (hpartition.not_free hi)
  have hkeep : ∀ idx, l.inFlight = some idx → (l'.slots idx).ticket ∈ served := by
    intro idx hidx
    rw [hticket idx (mem_held_of_inFlight hidx)]
    exact h.claimed idx hidx
  cases hmove with
  | keep | retain | respond | sideEffect | reanchor =>
    rw [show Label.claims _ = [] from rfl, show l.drops _ = [] from rfl, append_nil, append_nil]
    exact h.of_same hticket rfl (fun _ hidx => hidx) rfl
  | cancel hflight =>
    have hdrops : l.drops (.unlinked (l.slots _).ticket) = [] :=
      if_neg (h.ticket_not_queued hflight)
    rw [show Label.claims _ = [] from rfl, hdrops, append_nil, append_nil]
    exact h.of_same hticket rfl (fun _ hidx => hidx) rfl
  | release hflight =>
    rw [show Label.claims _ = [] from rfl, show l.drops _ = [] from rfl, append_nil, append_nil]
    exact h.of_same hticket rfl (fun _ hidx => by cases hidx) rfl
  | @enqueue free idx job hfree hjob =>
    rw [show Label.claims _ = [] from rfl, show l.drops _ = [] from rfl, append_nil, append_nil]
    refine ⟨?_, fun i hidx => hkeep i hidx⟩
    have hqueued : queuedTickets (l.enroll free idx job) = l.queuedTickets ++ [l.enqueued] := by
      rw [queuedTickets, enroll, map_append, map_singleton]
      have hnew : (update l.slots idx job idx).ticket = l.enqueued := by
        rw [update_self, hjob.ticket]
      exact congrArg₂ (fun a b => a ++ [b]) (map_congr_left fun i hi =>
        hticket i (mem_held_of_queue hi)) hnew
    have harrive := h.ledger.arrive
    rw [← hqueued] at harrive
    exact harrive
  | @remove before after idx anchor hqueue hanchor =>
    have hmem := mem_queue_removed hqueue
    have hdrops : l.drops (.unlinked (l.slots idx).ticket) =
        [(l.slots idx).ticket] := if_pos (mem_map_of_mem hmem)
    rw [show Label.claims _ = [] from rfl, hdrops, append_nil]
    refine ⟨?_, hkeep⟩
    have hold : l.queuedTickets = before.map (fun i => (l.slots i).ticket) ++
        [(l.slots idx).ticket] ++ after.map (fun i => (l.slots i).ticket) := by
      rw [queuedTickets, hqueue]
      simp
    have hledger := h.ledger
    rw [hold] at hledger
    have hnew := hledger.drop
    rw [← map_append] at hnew
    rw [← map_congr_left fun i hi =>
      hticket i (mem_held_of_queue (mem_queue_of_removal hqueue hi))] at hnew
    exact hnew
  | reset =>
    rw [show Label.claims _ = [] from rfl, append_nil]
    refine ⟨?_, hkeep⟩
    have hledger := h.ledger
    rw [← append_nil l.queuedTickets, ← nil_append l.queuedTickets] at hledger
    exact hledger.drop
  | claim hflight hqueue =>
    rw [show l.drops _ = [] from rfl, append_nil]
    have hledger := h.ledger
    rw [queuedTickets, hqueue, map_cons] at hledger
    refine ⟨hledger.serve, fun i hidx => ?_⟩
    cases hidx
    exact mem_append_right _ (mem_singleton.2 rfl)

end Account

end Line

namespace EndpointWorker

/-- The tickets of the queued jobs, oldest first. -/
def queuedTickets (w : EndpointWorker) : List Nat := w.line.queuedTickets

/-- The slots which hold a job. -/
def held (w : EndpointWorker) : List Nat := w.queue ++ w.inFlight.toList

/-- The job a call took from the queue, by ticket. -/
def claimedBy (e : WorkerEvent) : List Nat := (label e).claims

/-- The queued jobs a call unlinked or reset, by ticket. -/
def droppedBy (e : WorkerEvent) : List Nat := e.pre.line.drops (label e)

/-- The ledger holds along every run. -/
theorem account_run (c : Config) (ops : List Op) :
    Line.Account ((trace (step c) new ops).flatMap claimedBy)
      ((trace (step c) new ops).flatMap droppedBy) (final (step c) new ops).line := by
  have hrun := @history_run _ _ _ (step c) (fun evs w => w.Sound ∧
      Line.Account (evs.flatMap claimedBy) (evs.flatMap droppedBy) w.line) new
    ⟨new_sound, ⟨Ledger.empty, fun _ hidx => by cases hidx⟩⟩ ?_ ops
  · exact hrun.2
  · intro evs w op h
    obtain ⟨hsound, hmove⟩ := step_refines (c := c) h.1 op
    refine ⟨hsound, ?_⟩
    rw [flatMap_append, flatMap_append, flatMap_singleton, flatMap_singleton]
    exact h.2.move h.1.partition hmove

section Capacity

variable {c : Config} {w : EndpointWorker}

/-- A full set of held jobs is an empty free stack. -/
theorem Sound.free_eq_nil_iff (h : w.Sound) :
    w.free = [] ↔ w.held.length = endpointQueueCapacity := by
  have hlen := h.partition.length_eq
  rw [length_range, append_assoc, length_append] at hlen
  have hheld : (w.line.queue ++ w.line.inFlight.toList).length = w.held.length :=
    rfl
  have hfree : w.line.free.length = w.free.length := rfl
  rw [← length_eq_zero_iff]
  omega

theorem enqueue_eq_false_iff {r : Submission} :
    (enqueueWithGeneration c w r).2 = false ↔ w.free = [] := by
  unfold enqueueWithGeneration
  split
  next hlast => simpa using getLast?_eq_none_iff.1 hlast
  next idx hlast =>
    obtain ⟨free, hfree⟩ := getLast?_eq_some_iff.1 hlast
    simp [hfree]

/-- A successful admission takes a slot nobody holds and touches no other. -/
theorem Sound.enqueue_fresh (h : w.Sound) {r : Submission} (hok : (enqueueWithGeneration c w r).2) :
    ∃ idx, idx ∉ w.held ∧ (enqueueWithGeneration c w r).1.held.Perm (idx :: w.held) ∧
      ∀ i ∈ w.held, (enqueueWithGeneration c w r).1.slots i = w.slots i := by
  unfold enqueueWithGeneration at hok ⊢
  split at hok
  · cases hok
  rename_i idx hlast
  obtain ⟨free, hfree⟩ := getLast?_eq_some_iff.1 hlast
  have hfresh : idx ∉ w.held := fun hheld =>
    h.partition.not_free hheld (by show idx ∈ w.free; rw [hfree]; simp)
  have hqueue : (w.order.push endpointQueueCapacity idx).window
      endpointQueueCapacity = w.queue ++ [idx] :=
    RingBuffer.window_push w.order idx (h.queue_length_lt hfree)
  refine ⟨idx, hfresh, ?_, fun i hi => ?_⟩
  · show ((w.order.push endpointQueueCapacity idx).window
      endpointQueueCapacity ++ w.inFlight.toList).Perm _
    rw [hqueue, append_assoc]
    exact perm_middle
  · exact update_of_ne (fun hne : i = idx => hfresh (hne ▸ hi)) _ _

end Capacity

/-- **The slots of an endpoint worker, over every run.**  At every state the
sixty-four indices are free, queued or in flight, each in exactly one place.
Admission fails exactly when sixty-four jobs are held; it takes a slot nobody
holds, and no call gives a held slot to another job.  The jobs claimed, then the
jobs still queued, are all jobs admitted, in order, without those unlinked or
reset while queued. -/
theorem slots_partitioned_in_admission_order (c : Config) (ops : List Op) :
    let w := final (step c) new ops
    let evs := trace (step c) new ops
    (w.free ++ w.queue ++ w.inFlight.toList).Perm (range endpointQueueCapacity) ∧
    (∀ r, (enqueueWithGeneration c w r).2 = false ↔ w.held.length = endpointQueueCapacity) ∧
    (∀ r, (enqueueWithGeneration c w r).2 → ∃ idx, idx ∉ w.held ∧
        (enqueueWithGeneration c w r).1.held.Perm (idx :: w.held) ∧
        ∀ i ∈ w.held, (enqueueWithGeneration c w r).1.slots i = w.slots i) ∧
    (∀ op, ∀ i ∈ w.held, ((step c w op).1.slots i).ticket = (w.slots i).ticket) ∧
    evs.flatMap claimedBy ++ w.queuedTickets = (range w.enqueued).filter
        fun ticket => decide (ticket ∉ evs.flatMap droppedBy) := by
  intro w evs
  have hsound : w.Sound := sound_run c ops
  refine ⟨hsound.partition, ?_, ?_, ?_, (account_run c ops).ledger.balance⟩
  · intro r
    rw [enqueue_eq_false_iff, hsound.free_eq_nil_iff]
  · intro r hok
    exact hsound.enqueue_fresh hok
  · intro op i hi
    have hmove := (step_refines (c := c) hsound op).2
    exact hmove.ticket_eq (hsound.partition.not_free hi)

end EndpointWorker

end Viiper.Ports.Endpoint
