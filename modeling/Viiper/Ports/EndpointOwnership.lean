import Viiper.Ports.EndpointOrder
import Viiper.Ports.EndpointThread

/-!
# Who owns a job: the host which unlinks it, or the response

A submission ends in one of two ways: the host takes it back, and `unlinkAt` says so, or
the worker commits to it with a side effect or a response, and the host is told that it was
too late.  Two threads call the methods, in any order and possibly with a stale slot index,
and slots are recycled; jobs are told apart by their tickets.

Three facts about a ticket are permanent: that its job has left the queue (`Gone`), that it
can no longer start (`Dead`), and that it has started (`Begun`).  Their common form `Spent`
says nothing about a slot unless it is in flight, which is why it survives recycling.

That a job is answered once is not a fact about the methods, since a second call of
`markResponseStarted` would succeed, but about the goroutine, which after a success goes on
to finish the job.
-/

namespace Viiper.Ports.Endpoint

open Verified Go Run Function List EndpointWorker

variable {c : Config} {idx ticket : Nat}

/-- A job only ever becomes cancelled, or started. -/
structure Ages (a b : EndpointJob) : Prop where
  cancelled : a.cancelled → b.cancelled
  responseStarted : a.responseStarted → b.responseStarted
  sideEffectStarted : a.sideEffectStarted → b.sideEffectStarted

theorem Ages.refl (a : EndpointJob) : Ages a a := ⟨id, id, id⟩

theorem Ages.of_same {a b c : EndpointJob} (h : Ages a b) (hsame : SameJob c b) : Ages a c :=
  ⟨fun ha => hsame.cancelled.trans (h.cancelled ha),
    fun ha => hsame.responseStarted.trans (h.responseStarted ha),
    fun ha => hsame.sideEffectStarted.trans (h.sideEffectStarted ha)⟩

namespace Line

variable {l l' : Line} {label : Label}

/-! ## What a move does to queue and flight -/

section Move

variable (hmove : Move c l label l')

include hmove

theorem Move.queue_cases {i : Nat}
    (hi : i ∈ l'.queue) : i ∈ l.queue ∨ (l'.slots i).ticket = l.enqueued := by
  cases hmove with
  | keep | cancel | retain | release | respond
  | sideEffect | reanchor => exact .inl hi
  | @enqueue free idx job hfree hjob =>
    rcases mem_append.1 hi with hold | hnew
    · exact .inl hold
    right
    rw [mem_singleton.1 hnew]
    show (update l.slots idx job idx).ticket = l.enqueued
    rw [update_self, hjob.ticket]
  | remove hqueue hanchor => exact .inl (mem_queue_of_removal hqueue hi)
  | reset => cases hi
  | claim hfree hqueue =>
    left
    rw [hqueue]
    exact mem_cons_of_mem _ hi

theorem Move.inFlight_cases (hidx : l'.inFlight = some idx) :
    l.inFlight = some idx ∨ idx ∈ l.queue := by
  cases hmove with
  | keep | enqueue | cancel | remove | reset | retain
  | respond | sideEffect | reanchor => exact .inl hidx
  | claim hfree hqueue =>
    cases hidx
    right
    rw [hqueue]
    exact mem_cons_self ..
  | release hflight => cases hidx

theorem Move.inFlight_of_started {response : Bool}
    (hlabel : label = .started ticket response) : l'.inFlight = l.inFlight := by
  cases hmove with
  | respond | sideEffect => rfl
  | _ => cases hlabel

theorem Move.enqueued_le : l.enqueued ≤ l'.enqueued := by
  cases hmove with
  | enqueue => exact Nat.le_succ _
  | keep | cancel | remove | reset | claim | retain
  | release | respond | sideEffect | reanchor => exact le_refl _

/-- While a job stays in flight it ages. -/
theorem Move.ages (hpartition : l.Partition)
    (hidx : l.inFlight = some idx) (hidx' : l'.inFlight = some idx) :
    Ages (l.slots idx) (l'.slots idx) := by
  -- the slot rewritten by a move on the job in flight is this one
  have hself : ∀ {i : Nat} (job : EndpointJob), l.inFlight = some i →
      Ages (l.slots i) job → Ages (l.slots idx) (update l.slots i job idx) := by
    intro i job hi hages
    obtain rfl := Option.mem_unique hidx hi
    rw [update_self]
    exact hages
  cases hmove with
  | keep | claim => exact .refl _
  | release hflight => cases hidx'
  | @enqueue free i job hfree hjob =>
    show Ages _ (update l.slots i job idx)
    rw [hpartition.update_free hfree job (mem_held_of_inFlight hidx)]
    exact .refl _
  | @remove before after i anchor hqueue hanchor =>
    show Ages _ ((reflow _ anchor after).1 idx)
    rw [hpartition.removal_inFlight hqueue hidx]
    exact .refl _
  | cancel hflight =>
    refine Ages.of_same ?_ (reflow_same idx)
    exact hself _ hflight ⟨fun _ => rfl, id, id⟩
  | retain hflight | reanchor hflight =>
    refine Ages.of_same ?_ (reflow_same idx)
    exact hself _ hflight ⟨id, id, id⟩
  | respond hflight => exact hself _ hflight ⟨id, fun _ => rfl, id⟩
  | sideEffect hflight => exact hself _ hflight ⟨id, id, fun _ => rfl⟩
  | reset =>
    show Ages _ (l.resetSlots idx)
    rw [hpartition.resetSlots_inFlight hidx]
    exact ⟨fun _ => rfl, id, id⟩

end Move

/-! ## Permanent facts about a ticket -/

/-- The job of this ticket was admitted and has left the queue; if it is in
flight it satisfies `P`. -/
structure Spent (P : EndpointJob → Prop) (ticket : Nat) (l : Line) : Prop where
  admitted : ticket < l.enqueued
  unqueued : ticket ∉ l.queuedTickets
  inFlight : ∀ idx, l.inFlight = some idx → (l.slots idx).ticket = ticket → P (l.slots idx)

/-- The job was unlinked or reset. -/
def Dead : Nat → Line → Prop := Spent fun job => job.cancelled

/-- The job started its side effect or its response. -/
def Begun : Nat → Line → Prop :=
  Spent fun job => job.responseStarted ∨ job.sideEffectStarted

namespace Spent

variable {P : EndpointJob → Prop}

/-- Once out of the queue, a job is in flight only where it was. -/
theorem same_flight (h : Spent P ticket l) (hpartition : l.Partition) (hmove : Move c l label l')
    (hidx : l'.inFlight = some idx) (hticket : (l'.slots idx).ticket = ticket) :
    l.inFlight = some idx ∧ (l.slots idx).ticket = ticket := by
  have hheld : idx ∈ l.held := by
    rcases hmove.inFlight_cases hidx with hf | hq
    · exact mem_held_of_inFlight hf
    · exact mem_held_of_queue hq
  rw [hmove.ticket_eq (hpartition.not_free hheld)] at hticket
  rcases hmove.inFlight_cases hidx with hf | hq
  · exact ⟨hf, hticket⟩
  · exact absurd (mem_map.2 ⟨idx, hq, hticket⟩) h.unqueued

/-- **A permanent fact stays**, whatever happens to the slots. -/
theorem move (hP : ∀ {a b}, Ages a b → P a → P b) (h : Spent P ticket l)
    (hpartition : l.Partition) (hmove : Move c l label l') : Spent P ticket l' where
  admitted := lt_of_lt_of_le h.admitted hmove.enqueued_le
  unqueued := by
    intro hmem
    obtain ⟨i, hi, hticket⟩ := mem_map.1 hmem
    rcases hmove.queue_cases hi with hold | hnew
    · rw [hmove.ticket_eq (hpartition.not_free (mem_held_of_queue hold))] at hticket
      exact h.unqueued (mem_map.2 ⟨i, hold, hticket⟩)
    · have hlt := h.admitted
      omega
  inFlight := by
    intro idx hidx hticket
    obtain ⟨hold, hticket'⟩ := h.same_flight hpartition hmove hidx hticket
    exact hP (hmove.ages hpartition hold hidx) (h.inFlight idx hold hticket')

end Spent

theorem Dead.move (h : Dead ticket l) (hpartition : l.Partition)
    (hmove : Move c l label l') : Dead ticket l' :=
  Spent.move (fun hages ha => hages.cancelled ha) h hpartition hmove

theorem Begun.move (h : Begun ticket l) (hpartition : l.Partition)
    (hmove : Move c l label l') : Begun ticket l' :=
  Spent.move (fun hages ha =>
    ha.imp hages.responseStarted hages.sideEffectStarted) h hpartition hmove

theorem Dead.not_started (h : Dead ticket l) (hmove : Move c l label l')
    (response : Bool) : label ≠ .started ticket response := by
  intro hlabel
  have hcontra : ∀ {idx : Nat}, l.inFlight = some idx → l.Active idx →
      (l.slots idx).ticket = ticket → False := by
    intro idx hflight hactive hticket
    have hcancelled := h.inFlight idx hflight hticket
    cases hactive.1.symm.trans hcancelled
  cases hmove with
  | respond hflight hactive | sideEffect hflight hactive =>
    exact hcontra hflight hactive (Label.started.inj hlabel).1
  | _ => cases hlabel

/-- A job which has started is not unlinked. -/
theorem Begun.not_unlinked (h : Begun ticket l) (hmove : Move c l label l') :
    label ≠ .unlinked ticket := by
  intro hlabel
  cases hmove with
  | cancel hflight _ hresponse heffect =>
    have hbegun := h.inFlight _ hflight (Label.unlinked.inj hlabel)
    rw [hresponse, heffect] at hbegun
    simp at hbegun
  | @remove before after idx anchor hqueue hanchor =>
    exact h.unqueued (mem_map.2 ⟨idx, mem_queue_removed hqueue, Label.unlinked.inj hlabel⟩)
  | _ => cases hlabel

/-! ## How the facts come about -/

section Established

variable {served dropped : List Nat} (haccount : Account served dropped l)
  (hpartition : l.Partition) (hmove : Move c l label l')

include haccount hpartition hmove

/-- The tickets of queue and flight after a move, for a job which was in
flight. -/
theorem Account.leaves_queue (hidx : l.inFlight = some idx) (hqueue : l'.queue = l.queue) :
    (l.slots idx).ticket < l'.enqueued ∧ (l.slots idx).ticket ∉ l'.queuedTickets := by
  refine ⟨lt_of_lt_of_le (haccount.ledger.served_lt (haccount.claimed idx hidx))
    hmove.enqueued_le, ?_⟩
  rw [queuedTickets_congr hqueue fun i hi =>
    hmove.ticket_eq (hpartition.not_free (mem_held_of_queue hi))]
  exact haccount.ticket_not_queued hidx

theorem dead_of_unlinked (hlabel : label = .unlinked ticket) : Dead ticket l' := by
  have hout := fun {idx : Nat} (hidx : l.inFlight = some idx) =>
    haccount.leaves_queue hpartition hmove hidx
  have hticket := fun i (hi : i ∈ l.held) =>
    hmove.ticket_eq (hpartition.not_free hi)
  cases hmove with
  | @cancel idx anchor hflight hcancelled hresponse heffect hanchor =>
    rw [← Label.unlinked.inj hlabel]
    refine ⟨(hout hflight rfl).1, (hout hflight rfl).2, fun i hi _ => ?_⟩
    obtain rfl := Option.mem_unique hflight hi
    refine (reflow_same idx).cancelled.trans ?_
    rw [update_self]
  | @remove before after idx anchor hqueue hanchor =>
    rw [← Label.unlinked.inj hlabel]
    have hqueued : (l.slots idx).ticket ∈ l.queuedTickets :=
      mem_map_of_mem (mem_queue_removed hqueue)
    refine ⟨haccount.ledger.waiting_lt hqueued, ?_, fun i hi heq => ?_⟩
    · -- tickets in the queue are distinct, so only this job had this one
      have hnodup := List.Nodup.of_append_right haccount.ledger.nodup
      rw [queuedTickets, hqueue, map_append, map_cons] at hnodup
      have hrest := (nodup_middle.1 hnodup).notMem
      rw [← map_append] at hrest
      intro hin
      obtain ⟨i, hi, heq⟩ := mem_map.1 hin
      have hold := mem_queue_of_removal hqueue hi
      rw [hticket i (mem_held_of_queue hold)] at heq
      exact hrest (mem_map.2 ⟨i, hi, heq⟩)
    · have hi' : l.inFlight = some i := hi
      rw [hticket i (mem_held_of_inFlight hi')] at heq
      exact absurd (heq ▸ hqueued) (haccount.ticket_not_queued hi')
  | _ => cases hlabel

theorem begun_of_started {response : Bool} (hlabel : label = .started ticket response) :
    Begun ticket l' := by
  have hout := fun {idx : Nat} (hidx : l.inFlight = some idx) =>
    haccount.leaves_queue hpartition hmove hidx
  cases hmove with
  | @respond idx hflight hactive =>
    rw [← (Label.started.inj hlabel).1]
    refine ⟨(hout hflight rfl).1, (hout hflight rfl).2, fun i hi _ => .inl ?_⟩
    obtain rfl := Option.mem_unique hflight hi
    show (update l.slots idx _ idx).responseStarted
    rw [update_self]
  | @sideEffect idx hflight hactive =>
    rw [← (Label.started.inj hlabel).1]
    refine ⟨(hout hflight rfl).1, (hout hflight rfl).2, fun i hi _ => .inr ?_⟩
    obtain rfl := Option.mem_unique hflight hi
    show (update l.slots idx _ idx).sideEffectStarted
    rw [update_self]
  | _ => cases hlabel

omit haccount in
theorem dead_of_reset (hlabel : label = .reset) (hlt : ticket < l.enqueued) : Dead ticket l' := by
  cases hmove with
  | reset =>
    refine ⟨hlt, by simp [queuedTickets], fun idx hidx _ => ?_⟩
    have hidx' : l.inFlight = some idx := hidx
    show (l.resetSlots idx).cancelled
    rw [hpartition.resetSlots_inFlight hidx']
  | _ => cases hlabel

end Established

end Line

namespace EndpointWorker

variable {w : EndpointWorker}

/-! ## Runs of the methods -/

theorem dead_never_started (hsound : w.Sound) (hdead : Line.Dead ticket w.line)
    (ops : List Op) : ∀ e ∈ trace (step c) w ops, ∀ response,
      label e ≠ .started ticket response := by
  refine invariant_trace (I := fun w => w.Sound ∧ Line.Dead ticket w.line) ?_ ?_ ⟨hsound, hdead⟩ ops
  · intro w op h
    obtain ⟨hsound', hmove⟩ := step_refines (c := c) h.1 op
    exact ⟨hsound', h.2.move h.1.partition hmove⟩
  · intro w op h response
    exact h.2.not_started (step_refines (c := c) h.1 op).2 response

theorem begun_never_unlinked (hsound : w.Sound) (hbegun : Line.Begun ticket w.line)
    (ops : List Op) : ∀ e ∈ trace (step c) w ops, label e ≠ .unlinked ticket := by
  refine invariant_trace (I := fun w => w.Sound ∧ Line.Begun ticket w.line)
    ?_ ?_ ⟨hsound, hbegun⟩ ops
  · intro w op h
    obtain ⟨hsound', hmove⟩ := step_refines (c := c) h.1 op
    exact ⟨hsound', h.2.move h.1.partition hmove⟩
  · intro w op h
    exact h.2.not_unlinked (step_refines (c := c) h.1 op).2

theorem markResponseStarted_active {admits : Bool}
    (h : (w.markResponseStartedWithAdmission idx admits).2) : w.currentActive idx := by
  by_contra hactive
  rw [Bool.not_eq_true] at hactive
  rw [markResponseStartedWithAdmission, if_pos hactive] at h
  cases h

theorem admitPreparedResponse_active {ended owns copies : Bool}
    (h : (w.admitPreparedResponse idx ended owns copies).2 = .accepted) : w.currentActive idx := by
  by_contra hactive
  rw [Bool.not_eq_true] at hactive
  rw [admitPreparedResponse] at h
  split at h
  · cases h
  · rw [if_pos (.inl hactive)] at h
    cases h

/-- The two calls which start a response. -/
theorem response_cases {op : Op} (h : label (event (step c) w op) = .started ticket true) :
    ∃ idx, w.inFlight = some idx ∧ (w.slots idx).ticket = ticket ∧
      ((∃ admits, op = .markResponseStarted idx admits ∧ (step c w op).2 = .answer true) ∨
      ∃ ended owns copies, op = .admitPreparedResponse idx ended owns copies ∧
        (step c w op).2 = .admission .accepted) := by
  have hmade := label_madeBy (c := c) (w := w) op
  rw [h] at hmade
  cases op with
  | markResponseStarted idx admits =>
    rw [label_markResponseStarted] at h
    split at h
    next hout =>
      have hactive := currentActive_iff.1 (markResponseStarted_active hout)
      exact ⟨idx, hactive.1, (Label.started.inj h).1, .inl ⟨admits, rfl, congrArg Out.answer hout⟩⟩
    · cases h
  | admitPreparedResponse idx ended owns copies =>
    rw [label_admitPreparedResponse] at h
    split at h
    next hout =>
      have hactive := currentActive_iff.1 (admitPreparedResponse_active hout)
      exact ⟨idx, hactive.1, (Label.started.inj h).1,
        .inr ⟨ended, owns, copies, rfl, congrArg Out.admission hout⟩⟩
    · cases h
  | _ => exact hmade.elim

/-- A finish which retains nothing leaves no job in flight. -/
theorem finish_inFlight (hidx : w.inFlight = some idx) (completed : Bool) (now : Time) :
    (finishCurrentWithRetention c w idx completed false now).inFlight = none := by
  rw [finishCurrentWithRetention, if_pos hidx]
  simp

end EndpointWorker

namespace Thread

variable {t : Thread}

/-! ## Runs of the goroutine -/

theorem resume_mark {pc : Pc} {env : Env} {admits : Bool}
    (h : request pc env = some (.markResponseStarted idx admits)) (w : EndpointWorker) :
    ∃ completed, resume c w pc env (.answer true) = .finishing idx completed false := by
  cases pc with
  | answering | completing =>
    simp only [request, Option.some.injEq, Op.markResponseStarted.injEq] at h
    rw [← h.1]
    exact ⟨env.written, rfl⟩
  | claiming | rechecking =>
    simp only [request] at h
    split at h <;> cases h
  | _ => cases h

theorem resume_prepared {pc : Pc} {env : Env} {ended owns copies : Bool}
    (h : request pc env = some (.admitPreparedResponse idx ended owns copies))
    (w : EndpointWorker) :
    ∃ completed, resume c w pc env (.admission .accepted) = .finishing idx completed false := by
  cases pc with
  | preparing i n s =>
    simp only [request, Option.some.injEq, Op.admitPreparedResponse.injEq] at h
    rw [← h.1]
    exact ⟨env.written && env.resolved, rfl⟩
  | claiming | rechecking =>
    simp only [request] at h
    split at h <;> cases h
  | _ => cases h

/-- A response start is made by the goroutine, for the job in flight. -/
theorem response_request {act : Act} (h : label (event (step c) t act) = .started ticket true) :
    ∃ env op idx, act = .worker env ∧ request t.pc env = some op ∧
      t.worker.inFlight = some idx ∧ (t.worker.slots idx).ticket = ticket ∧
      ((∃ admits, op = .markResponseStarted idx admits ∧
        (EndpointWorker.step c t.worker op).2 = .answer true) ∨
      ∃ ended owns copies, op = .admitPreparedResponse idx ended owns copies ∧
        (EndpointWorker.step c t.worker op).2 = .admission .accepted) := by
  cases act with
  | reader r =>
    obtain ⟨idx, _, _, hop | hop⟩ := response_cases (c := c) (w := t.worker) h
    · obtain ⟨admits, hop, _⟩ := hop
      cases r <;> cases hop
    · obtain ⟨ended, owns, copies, hop, _⟩ := hop
      cases r <;> cases hop
  | worker env =>
    cases hrequest : request t.pc env with
    | none =>
      rw [label, (step_silent (c := c) hrequest).1] at h
      cases h
    | some op =>
      rw [label, (step_call (c := c) hrequest).1] at h
      obtain ⟨idx, hflight, hticket, hop⟩ := response_cases h
      exact ⟨env, op, idx, rfl, hrequest, hflight, hticket, hop⟩

/-- After a response start the goroutine goes on to finish the job. -/
theorem response_settles {act : Act} (h : label (event (step c) t act) = .started ticket true) :
    ∃ idx, t.worker.inFlight = some idx ∧ (t.worker.slots idx).ticket = ticket ∧
      (∀ completed retain, t.pc ≠ .finishing idx completed retain) ∧
      ∃ completed, (step c t act).1.pc = .finishing idx completed false := by
  obtain ⟨env, op, idx, rfl, hrequest, hflight, hticket, hop⟩ := response_request h
  refine ⟨idx, hflight, hticket, ?_, ?_⟩
  · intro completed retain hpc
    rw [hpc] at hrequest
    cases hrequest
    rcases hop with ⟨_, hop, _⟩ | ⟨_, _, _, hop, _⟩ <;> cases hop
  · rw [(step_call (c := c) hrequest).2]
    rcases hop with ⟨admits, rfl, hout⟩ | ⟨ended, owns, copies, rfl, hout⟩
    · dsimp only
      rw [hout]
      exact resume_mark hrequest _
    · dsimp only
      rw [hout]
      exact resume_prepared hrequest _

/-- A job which is finished and not retained leaves the flight. -/
theorem finishing_releases {completed : Bool} {env : Env}
    (hpc : t.pc = .finishing idx completed false) (hidx : t.worker.inFlight = some idx) :
    (step c t (.worker env)).1.worker.inFlight = none := by
  have hrequest : request t.pc env =
      some (.finish idx completed false env.now) := by rw [hpc]; rfl
  rw [(step_call (c := c) hrequest).2]
  exact finish_inFlight hidx completed env.now

/-- The job started its response: it is no longer held, or about to be
finished. -/
structure Answered (ticket : Nat) (t : Thread) : Prop where
  spent : Line.Spent (fun _ => True) ticket t.worker.line
  finishing : ∀ idx, t.worker.inFlight = some idx → (t.worker.slots idx).ticket = ticket →
    ∃ completed, t.pc = .finishing idx completed false

theorem Answered.step (h : Answered ticket t) (hsound : t.worker.Sound) (act : Act) :
    Answered ticket (Thread.step c t act).1 := by
  have hmove := (step_refines (c := c) hsound act).2
  refine ⟨Line.Spent.move (fun _ _ => trivial) h.spent hsound.partition hmove, ?_⟩
  intro idx hidx hticket
  obtain ⟨hold, hticket'⟩ := h.spent.same_flight hsound.partition hmove hidx hticket
  obtain ⟨completed, hpc⟩ := h.finishing idx hold hticket'
  cases act with
  | reader r => exact ⟨completed, hpc⟩
  | worker env =>
    cases (finishing_releases hpc hold).symm.trans hidx

theorem Answered.not_again (h : Answered ticket t) (act : Act) :
    label (event (Thread.step c) t act) ≠ .started ticket true := by
  intro hlabel
  obtain ⟨idx, hflight, hticket, hpc, _⟩ := response_settles hlabel
  obtain ⟨completed, hfinishing⟩ := h.finishing idx hflight hticket
  exact hpc completed false hfinishing

/-- The tickets whose response a step started. -/
def respondedBy (e : ThreadEvent) : List Nat :=
  match label e with
  | .started ticket true => [ticket]
  | _ => []

theorem mem_respondedBy {e : ThreadEvent} :
    ticket ∈ respondedBy e ↔ label e = .started ticket true := by
  unfold respondedBy
  split
  next t hlabel =>
    rw [hlabel, mem_singleton]
    simp [eq_comm]
  next hlabel => simpa using hlabel ticket

/-- A response start makes its job answered. -/
theorem answered_of_started {served dropped : List Nat} (hsound : t.worker.Sound)
    (haccount : Line.Account served dropped t.worker.line) {act : Act}
    (h : label (event (step c) t act) = .started ticket true) :
    Answered ticket (step c t act).1 := by
  have hmove := (step_refines (c := c) hsound act).2
  have hbegun := Line.begun_of_started haccount hsound.partition hmove h
  obtain ⟨idx, hflight, _, _, completed, hpc⟩ := response_settles h
  refine ⟨⟨hbegun.admitted, hbegun.unqueued, fun _ _ _ => trivial⟩, ?_⟩
  intro i hi _
  have hsame : t.worker.inFlight = some i := (hmove.inFlight_of_started h).symm.trans hi
  obtain rfl := Option.mem_unique hflight hsame
  exact ⟨completed, hpc⟩

/-- **A job is answered at most once.** -/
theorem responses_nodup (c : Config) (acts : List Act) :
    ((trace (step c) new acts).flatMap respondedBy).Nodup := by
  have hrun := @history_run _ _ _ (step c) (fun evs t => t.worker.Sound ∧
      (∃ served dropped, Line.Account served dropped t.worker.line) ∧
      (evs.flatMap respondedBy).Nodup ∧
      ∀ ticket ∈ evs.flatMap respondedBy, Answered ticket t) new
    ⟨new_sound, ⟨[], [], ⟨Ledger.empty, fun _ hidx => by cases hidx⟩⟩,
      nodup_nil, fun _ hmem => by cases hmem⟩ ?_ acts
  · exact hrun.2.2.1
  · rintro evs t act ⟨hsound, ⟨served, dropped, haccount⟩, hnodup, hanswered⟩
    obtain ⟨hsound', hmove⟩ := step_refines (c := c) hsound act
    refine ⟨hsound', ⟨_, _, haccount.move hsound.partition hmove⟩, ?_, ?_⟩
    · rw [flatMap_append, flatMap_singleton, nodup_append]
      refine ⟨hnodup, ?_, ?_⟩
      · unfold respondedBy
        split <;> simp
      · rintro ticket hold _ hnew rfl
        exact (hanswered ticket hold).not_again act (mem_respondedBy.1 hnew)
    · intro ticket hmem
      rw [flatMap_append, flatMap_singleton, mem_append] at hmem
      rcases hmem with hold | hnew
      · exact (hanswered ticket hold).step hsound act
      · exact answered_of_started hsound haccount (mem_respondedBy.1 hnew)

end Thread

open EndpointWorker (Op WorkerEvent) in
/-- **Unlink and completion are mutually exclusive.**  In every interleaving of
calls, with any arguments: a job which `unlinkAt` took back never starts a side
effect or a response, a job which started one is not taken back, and a job
admitted before a reset starts nothing after it.  In every interleaving of the
reader with the goroutine, whose calls are such an interleaving, a job starts at
most one response. -/
theorem unlink_excludes_completion (c : Config) :
    (∀ (ops : List Op) (evs₁ : List WorkerEvent) (e : WorkerEvent)
        (evs₂ : List WorkerEvent) (ticket : Nat),
      trace (EndpointWorker.step c) EndpointWorker.new ops = evs₁ ++ e :: evs₂ →
      (EndpointWorker.label e = .unlinked ticket → ∀ e' ∈ evs₂, ∀ response,
        EndpointWorker.label e' ≠ .started ticket response) ∧
      (∀ response, EndpointWorker.label e = .started ticket response →
        ∀ e' ∈ evs₂, EndpointWorker.label e' ≠ .unlinked ticket) ∧
      (EndpointWorker.label e = .reset → ticket < e.pre.enqueued → ∀ e' ∈ evs₂, ∀ response,
          EndpointWorker.label e' ≠ .started ticket response)) ∧
    ∀ acts : List Act, (∃ ops, (trace (Thread.step c) Thread.new acts).filterMap Thread.call =
        trace (EndpointWorker.step c) EndpointWorker.new ops) ∧
      ((trace (Thread.step c) Thread.new acts).flatMap Thread.respondedBy).Nodup := by
  refine ⟨?_, fun acts => ⟨Thread.calls_eq_trace c acts Thread.new, Thread.responses_nodup c acts⟩⟩
  intro ops evs₁ e evs₂ ticket hsplit
  obtain ⟨ops₁, op, ops₂, _, _, rfl, rfl⟩ := trace_eq_append_cons hsplit
  have hsound := sound_run c ops₁
  have haccount := account_run c ops₁
  obtain ⟨hsound', hmove⟩ := step_refines (c := c) hsound op
  refine ⟨?_, ?_, ?_⟩
  · intro hlabel
    exact dead_never_started hsound'
      (Line.dead_of_unlinked haccount hsound.partition hmove hlabel) ops₂
  · intro response hlabel
    exact begun_never_unlinked hsound'
      (Line.begun_of_started haccount hsound.partition hmove hlabel) ops₂
  · intro hlabel hlt
    exact dead_never_started hsound'
      (Line.dead_of_reset hsound.partition hmove hlabel hlt) ops₂

/-- An ISO-OUT transfer of one packet, unlinked after its side effect started. -/
def isoOutRun : List Act :=
  [.reader (.enqueue ⟨7, 4, [1, 2, 3, 4], [⟨0, 4, 0, 0⟩], 100, 0⟩)] ++
  List.replicate 6 (.worker { now := 100 }) ++
  [.reader (.unlinkAt 7 101)] ++
  List.replicate 7 (.worker { now := 110 })

/-- The transfer is answered once, and the unlink comes too late. -/
theorem isoOutRun_answered_once :
    (trace (Thread.step ⟨.isoOut, 10⟩) Thread.new isoOutRun).map Thread.label =
      [.admitted 0, .claimed 0, .quiet, .quiet, .quiet, .quiet, .started 0 false,
        .quiet, .quiet, .quiet, .quiet, .quiet, .quiet, .started 0 true,
        .released 0] ∧
    ((trace (Thread.step ⟨.isoOut, 10⟩) Thread.new isoOutRun).flatMap Thread.respondedBy).Nodup :=
  ⟨by decide +kernel, ((unlink_excludes_completion ⟨.isoOut, 10⟩).2 isoOutRun).2⟩

end Viiper.Ports.Endpoint
