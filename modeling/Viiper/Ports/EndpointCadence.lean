import Viiper.Ports.EndpointOwnership
import Viiper.Ports.EndpointPacing

/-!
# No catch-up burst on an interrupt endpoint

An interrupt endpoint answers at most once an interval.  The goroutine waits for
the deadline of its job and is granted the service at a clock reading less than
one interval later; a job later than that is moved to the present, with the queue
behind it.  However late the goroutine runs, and however many submissions have
piled up, the deadlines of the jobs it answers are an interval apart.

`Steady` is the invariant: where the goroutine stands, what it remembers of its
wait, and that the line is behind every service made so far.
-/

namespace Viiper.Ports.Endpoint

open Verified Go Run Timeline List Option Thread

/-! ## The methods -/

variable {s : Service Time} {idx : Nat} {p : Nat × Service Time} {c : Config} {ticket : Nat}
  {w : EndpointWorker}

namespace EndpointWorker

/-- The deadline an interrupt job is given: it is where the job now stands, and
less than an interval in the past. -/
theorem phaseDeadline_spec (hkind : c.kind = .interruptIn) (hpos : 0 < c.interval)
    (hsound : w.Sound) {now d : Time} (h : (phaseDeadline c w idx 0 now).2 = some d) :
    now < d + c.interval ∧ ((phaseDeadline c w idx 0 now).1.slots idx).serviceAt = d := by
  have hafter : reanchorAfter c (w.slots idx) = c.interval := by
    rw [reanchorAfter, hkind, if_neg (by decide)]
  unfold phaseDeadline at h ⊢
  split at h
  · cases h
  rename_i hactive
  rw [Bool.not_eq_false] at hactive
  have hnot : idx ∉ w.queue :=
    hsound.partition.not_queued (currentActive_iff.1 hactive).1
  rw [if_neg (by simp [hactive])]
  simp only [hkind, hafter, reduceCtorEq, false_and, if_false, Nat.cast_zero,
    Int.zero_mul, Int.add_zero] at h ⊢
  split at h
  next hlate =>
    rw [if_pos hlate]
    simp only [some.injEq] at h
    subst h
    refine ⟨by linarith, ?_⟩
    show ((reflow _ _ w.queue).1 idx).serviceAt = now
    rw [reflow_frame hnot]
    show (Function.update w.slots idx _ idx).serviceAt = now
    rw [Function.update_self]
    linarith
  next hlate =>
    rw [if_neg hlate]
    simp only [some.injEq] at h
    subst h
    refine ⟨?_, rfl⟩
    by_contra hge
    exact hlate ⟨hpos, by linarith⟩

/-- Admission and unlinking do not move the job in flight. -/
theorem serviceAt_of_reader (hsound : w.Sound) {r : ReaderOp} (hr : r ≠ .reset) :
    (step c w r.op).1.inFlight = w.inFlight ∧ ∀ idx, w.inFlight = some idx →
      ((step c w r.op).1.slots idx).serviceAt = (w.slots idx).serviceAt := by
  have hmove := (step_refines (c := c) hsound r.op).2
  cases r with
  | reset => exact absurd rfl hr
  | enqueue r =>
    cases hout : (enqueueWithGeneration c w r).2 with
    | false =>
      have hsame : (step c w (.enqueue r)).1 = w := enqueue_refused hout
      exact ⟨congrArg inFlight hsame, fun idx _ => by
        rw [show (step c w (ReaderOp.enqueue r).op).1 = w from hsame]⟩
    | true =>
      have hlabel : label (event (step c) w (.enqueue r)) = .admitted w.enqueued := by
        rw [label_enqueue, hout]
        rfl
      exact Line.Move.serviceAt_of_reader hmove hsound.partition (.inl hlabel)
  | unlinkAt seq now =>
    cases hout : (unlinkAt c w seq now).2 with
    | false =>
      have hsame : (step c w (.unlinkAt seq now)).1 = w := unlinkAt_refused hout
      exact ⟨congrArg inFlight hsame, fun idx _ => by
        rw [show (step c w (ReaderOp.unlinkAt seq now).op).1 = w from hsame]⟩
    | true =>
      have hlabel := label_unlinkAt (c := c) (w := w) seq now
      rw [hout, if_pos rfl] at hlabel
      exact Line.Move.serviceAt_of_reader hmove hsound.partition (.inr hlabel)

end EndpointWorker

/-! ## The goroutine -/

/-- The job which is being served, and what is remembered of its wait. -/
def Pc.serving : Pc → Option (Nat × Service Time)
  | .confirming idx _ _ s => some (idx, s)
  | .attempting idx _ s => some (idx, s)
  | .preparing idx _ s => some (idx, s)
  | .answering idx _ _ s => some (idx, s)
  | .rechecking idx _ _ s => some (idx, s)
  | _ => none

/-- The part of the program an interrupt endpoint runs. -/
def Pc.Interrupt : Pc → Prop
  | .deadline _ phase task => phase = 0 ∧ task = .interrupt
  | .sleeping _ phase task => phase = 0 ∧ task = .interrupt
  | .woken _ phase task => phase = 0 ∧ task = .interrupt
  | .confirming _ phase task _ => phase = 0 ∧ task = .interrupt
  | .sampling _ _ _ => False
  | .starting _ => False
  | .consuming _ => False
  | .handling _ => False
  | .completing _ => False
  | _ => True

section Program

variable {pc : Pc} {env : Env} {out : EndpointWorker.Out}

theorem retry_interrupt (idx n : Nat) (s : Service Time) : (retry idx n s).Interrupt := by
  unfold retry
  split <;> trivial

theorem attempt_interrupt (idx n : Nat) (s : Service Time) (env : Env) :
    (attempt idx n s env).Interrupt := by
  unfold attempt
  split
  · split
    · exact retry_interrupt idx n s
    · split <;> trivial
  · trivial
  · trivial
  · trivial
  · split <;> trivial

theorem retry_serving {n : Nat} (h : (retry idx n s).serving = some p) : p = (idx, s) := by
  unfold retry at h
  split at h
  · exact (some.inj h).symm
  · cases h

theorem attempt_serving {n : Nat} (h : (attempt idx n s env).serving = some p) : p = (idx, s) := by
  unfold attempt at h
  split at h
  · split at h
    · exact retry_serving h
    · split at h
      · cases h
      · exact (some.inj h).symm
  · exact (some.inj h).symm
  · exact (some.inj h).symm
  · exact (some.inj h).symm
  split at h
  · cases h
  · exact (some.inj h).symm

/-- An interrupt endpoint stays in its part of the program. -/
theorem resume_interrupt (hkind : c.kind = .interruptIn) (h : pc.Interrupt) :
    (resume c w pc env out).Interrupt := by
  fun_cases resume c w pc env out
  all_goals first
    | trivial
    | exact h
    | exact h.elim
    | exact retry_interrupt _ _ _
    | exact attempt_interrupt _ _ _ _
    | (rw [process, hkind]; exact ⟨rfl, rfl⟩)
    | (rw [h.2]; trivial)

/-- A service is remembered from one step to the next, or granted by this
one. -/
theorem resume_serving (hprogram : pc.Interrupt) (hkind : c.kind = .interruptIn)
    (h : (resume c w pc env out).serving = some (idx, s)) :
    pc.serving = some (idx, s) ∨ ∃ d, pc = .woken idx 0 .interrupt ∧ out = .deadline (some d) ∧
        d ≤ env.now ∧ s = ⟨d, env.now⟩ := by
  revert h
  fun_cases resume c w pc env out
  all_goals intro h
  -- most steps forget the service, keep it as it is, or are of another endpoint
  all_goals first
    | (cases h; done)
    | exact .inl h
    | exact hprogram.elim
    | (rw [process, hkind] at h; cases h)
    | (left; rw [retry_serving h]; rfl)
    | (left; rw [attempt_serving h]; rfl)
    | skip
  case case12 i phase task d hlate =>
    rw [hprogram.1, hprogram.2]
    simp only [Pc.serving, some.injEq, Prod.mk.injEq] at h
    exact .inr ⟨d, by rw [h.1], rfl, not_lt.1 hlate, h.2.symm⟩
  case case14 i phase task s' =>
    rw [hprogram.2] at h
    exact .inl h

end Program

/-- The clock reading of a step, if it makes one. -/
def Act.reading : Act → Option Time
  | .reader _ => none
  | .worker env => some env.now

namespace Thread

open EndpointWorker (Out)

variable {t : Thread} {ss : List (Service Time)} {clock : Time}

/-- A service granted at most one interval late, and not in the future. -/
structure Punctual (interval : Duration) (clock : Time) (s : Service Time) : Prop where
  due : s.deadline ≤ s.reading
  late : s.reading < s.deadline + interval
  past : s.reading ≤ clock

theorem Punctual.mono {interval : Duration} {clock clock' : Time} (h : Punctual interval clock s)
    (hle : clock ≤ clock') : Punctual interval clock' s :=
  ⟨h.due, h.late, h.past.trans hle⟩

/-- The waits which ended with a service. -/
def grantedBy (e : ThreadEvent) : List (Service Time) :=
  match e.op, e.pre.pc, e.out with
  | .worker _, .confirming _ _ _ s, some (_, .answer true) => [s]
  | _, _, _ => []

/-- The service during which a response was started. -/
def respondedAt (e : ThreadEvent) : List (Service Time) :=
  match label e with
  | .started _ true => (e.pre.pc.serving.map Prod.snd).toList
  | _ => []

/-- The invariant of an interrupt endpoint which made the services `ss`, by the
time `clock`. -/
structure Steady (c : Config) (ss : List (Service Time)) (clock : Time) (t : Thread) : Prop where
  sound : t.worker.Sound
  booked : t.worker.line.Booked
  uniform : t.worker.line.Uniform c
  fresh : t.worker.line.Fresh
  program : t.pc.Interrupt
  punctual : ∀ s ∈ ss, Punctual c.interval clock s
  spaced : ss.Pairwise fun a b => a.deadline + c.interval ≤ b.deadline
  behind : ∀ s ∈ ss, t.worker.line.Behind (s.deadline + c.interval)
  unanswered : ∀ idx, t.worker.inFlight = some idx → (t.worker.slots idx).responseStarted →
    ∃ completed, t.pc = .finishing idx completed false
  waited : ∀ idx s, t.pc.serving = some (idx, s) → Punctual c.interval clock s
  serving : ∀ idx s, t.pc.serving = some (idx, s) → t.worker.inFlight = some idx →
    (t.worker.slots idx).cancelled = false →
    (t.worker.slots idx).serviceAt = s.deadline

/-! ### What the observer's labels say about the program -/

theorem label_reset {act : Act} (h : label (event (step c) t act) = .reset) :
    act = .reader .reset := by
  rcases label_madeBy (c := c) (t := t) act with hquiet | ⟨op, hmade, hact⟩
  · cases h.symm.trans hquiet
  · rw [h] at hmade
    have hop : op = .reset := by
      cases op with
      | reset => rfl
      | _ => exact hmade.elim
    rcases hact with ⟨r, rfl, hr⟩ | ⟨env, _, hrequest⟩
    · rw [hop] at hr
      cases r <;> cases hr
      rfl
    · rw [hop] at hrequest
      revert hrequest
      fun_cases request t.pc env <;> intro hrequest <;> cases hrequest

theorem label_retained {act : Act} {now : Time}
    (h : label (event (step c) t act) = .retained ticket now) : act.reading = some now := by
  rcases label_madeBy (c := c) (t := t) act with hquiet | ⟨op, hmade, hact⟩
  · cases h.symm.trans hquiet
  · rw [h] at hmade
    obtain ⟨idx, completed, retain, hop⟩ :
        ∃ idx completed retain, op = .finish idx completed retain now := by
      cases op with
      | finish idx completed retain at' => exact ⟨idx, completed, retain, by rw [hmade]⟩
      | _ => exact hmade.elim
    rcases hact with ⟨r, _, hr⟩ | ⟨env, rfl, hrequest⟩
    · rw [hop] at hr
      cases r <;> cases hr
    · rw [hop] at hrequest
      revert hrequest
      fun_cases request t.pc env <;> intro hrequest <;> cases hrequest
      rfl

/-- On an interrupt endpoint a response is started during a service. -/
theorem response_serving (hprogram : t.pc.Interrupt) {act : Act}
    (h : label (event (step c) t act) = .started ticket true) :
    ∃ idx s, t.worker.inFlight = some idx ∧ t.pc.serving = some (idx, s) := by
  obtain ⟨env, op, idx, rfl, hrequest, hflight, _, hop⟩ := response_request h
  refine ⟨idx, ?_⟩
  cases hpc : t.pc with
  | answering _ _ _ s | preparing _ _ s =>
    refine ⟨s, hflight, ?_⟩
    rw [hpc] at hrequest
    cases hrequest
    rcases hop with ⟨_, hop, _⟩ | ⟨_, _, _, hop, _⟩ <;> cases hop
    rfl
  | completing i =>
    rw [hpc] at hprogram
    exact hprogram.elim
  | _ =>
    rw [hpc] at hrequest
    rcases hop with ⟨_, hop, _⟩ | ⟨_, _, _, hop, _⟩
    all_goals
      rw [hop] at hrequest
      simp only [request] at hrequest
      first
        | cases hrequest
        | (split at hrequest <;> cases hrequest)

/-- While a service goes on, the goroutine leaves the worker alone. -/
theorem serving_keeps_worker {env : Env} {p' : Nat × Service Time} (hpre : t.pc.serving = some p)
    (hpost : (step c t (.worker env)).1.pc.serving = some p') :
    (step c t (.worker env)).1.worker = t.worker := by
  cases hrequest : request t.pc env with
  | none => rw [(step_silent (c := c) hrequest).2]
  | some op =>
    rw [(step_call (c := c) hrequest).2] at hpost ⊢
    cases hpc : t.pc with
    | confirming idx phase task s =>
      rw [hpc] at hrequest
      cases hrequest
      rfl
    | rechecking idx n prepared s =>
      rw [hpc] at hrequest
      simp only [request] at hrequest
      split at hrequest <;> cases hrequest
      rfl
    | preparing idx n s =>
      rw [hpc] at hrequest hpost
      cases hrequest
      refine EndpointWorker.admitPreparedResponse_refused fun haccepted => ?_
      dsimp only [EndpointWorker.step] at hpost
      rw [haccepted] at hpost
      cases hpost
    | answering idx n gated s =>
      rw [hpc] at hrequest hpost
      cases hrequest
      refine EndpointWorker.markResponseStarted_refused fun haccepted => ?_
      dsimp only [EndpointWorker.step] at hpost
      rw [haccepted] at hpost
      cases hpost
    | _ =>
      rw [hpc] at hpre hrequest
      first
        | (cases hrequest; done)
        | cases hpre

/-- A service is remembered from before a step, or granted by it, at the deadline
of the job in flight. -/
theorem service_cases (hkind : c.kind = .interruptIn) (hprogram : t.pc.Interrupt) {env : Env}
    (hs : (step c t (.worker env)).1.pc.serving = some (idx, s)) :
    t.pc.serving = some (idx, s) ∨
      ∃ d, (EndpointWorker.phaseDeadline c t.worker idx 0 env.now).2 = some d ∧
        (step c t (.worker env)).1.worker =
          (EndpointWorker.phaseDeadline c t.worker idx 0 env.now).1 ∧
        d ≤ env.now ∧ s = ⟨d, env.now⟩ := by
  cases hrequest : request t.pc env with
  | none =>
    rw [(step_silent (c := c) hrequest).2] at hs
    rcases resume_serving hprogram hkind hs with hold | ⟨d, _, hd, _⟩
    · exact .inl hold
    · cases hd
  | some op =>
    rw [(step_call (c := c) hrequest).2] at hs ⊢
    rcases resume_serving hprogram hkind hs with hold | ⟨d, hwoken, hd, hdue, hs'⟩
    · exact .inl hold
    rw [hwoken] at hrequest
    cases hrequest
    exact .inr ⟨d, Out.deadline.inj hd, rfl, hdue, hs'⟩

/-- A step starts a response, or has none to show. -/
theorem response_or_none (e : ThreadEvent) :
    (∃ ticket, label e = .started ticket true) ∨ respondedAt e = [] ∧ respondedBy e = [] := by
  by_cases h : ∃ ticket, label e = .started ticket true
  · exact .inl h
  · rw [not_exists] at h
    simp [respondedAt, respondedBy, h]

/-! ### The invariant -/

namespace Steady

variable (h : Steady c ss clock t) {act : Act}

include h

/-- The service of a response is the one the goroutine waited for: its deadline is
where the job in flight stands, an interval behind every service before it. -/
theorem response (hlabel : label (event (step c) t act) = .started ticket true) :
    ∃ idx s, t.worker.inFlight = some idx ∧ respondedAt (event (step c) t act) = [s] ∧
      t.pc.serving = some (idx, s) ∧ (t.worker.slots idx).serviceAt = s.deadline ∧
      ∀ a ∈ ss, a.deadline + c.interval ≤ s.deadline := by
  have hmove := (step_refines (c := c) h.sound act).2
  obtain ⟨idx, s, hflight, hserving⟩ := response_serving h.program hlabel
  have hactive := hmove.active_of_started hlabel hflight
  have hstart := h.serving idx s hserving hflight hactive.1
  refine ⟨idx, s, hflight, ?_, hserving, hstart, fun a ha => ?_⟩
  · rw [respondedAt, hlabel]
    show (t.pc.serving.map Prod.snd).toList = [s]
    rw [hserving]
    rfl
  · -- a job which has answered is being finished, not answered again
    have hpending : (t.worker.slots idx).responseStarted = false := by
      by_contra hne
      rw [Bool.not_eq_false] at hne
      obtain ⟨completed, hpc⟩ := h.unanswered idx hflight hne
      rw [hpc] at hserving
      cases hserving
    rw [← hstart]
    exact (h.behind a ha).inFlight idx hflight hactive.1 hpending

/-- A job which has answered is about to be finished after a step. -/
theorem unanswered_step (hflight : (step c t act).1.worker.inFlight = some idx)
    (hresponse : ((step c t act).1.worker.slots idx).responseStarted) :
    ∃ completed, (step c t act).1.pc = .finishing idx completed false := by
  have hmove := (step_refines (c := c) h.sound act).2
  rcases hmove.response_cases h.sound.partition h.fresh hflight hresponse with
    ⟨hold, hdone⟩ | ⟨ticket, hlabel⟩
  · obtain ⟨completed, hpc⟩ := h.unanswered idx hold hdone
    cases act with
    | reader r => exact ⟨completed, hpc⟩
    | worker env =>
      cases (finishing_releases hpc hold).symm.trans hflight
  · obtain ⟨i, hi, _, _, completed, hpc⟩ := response_settles hlabel
    have hsame : t.worker.inFlight = some idx :=
      (hmove.inFlight_of_started hlabel).symm.trans hflight
    obtain rfl := mem_unique hi hsame
    exact ⟨completed, hpc⟩

/-- The line is behind every service made so far, after a step. -/
theorem behind_step (hpos : 0 < c.interval) (hact : act ≠ .reader .reset)
    (hclock : clock ≤ act.reading.getD clock) (hs : s ∈ ss ++ respondedAt (event (step c) t act)) :
    (step c t act).1.worker.line.Behind (s.deadline + c.interval) := by
  have hmove := (step_refines (c := c) h.sound act).2
  rcases mem_append.1 hs with hold | hnew
  · refine (h.behind s hold).move hpos h.sound.partition h.booked hmove
      (fun hlabel => hact (label_reset hlabel)) ?_
    intro ticket now hlabel
    rw [label_retained hlabel, getD_some] at hclock
    have hpast := h.punctual s hold
    linarith [hpast.due, hpast.past]
  · rcases response_or_none (event (step c) t act) with ⟨ticket, hlabel⟩ | ⟨hnone, _⟩
    · obtain ⟨idx, s', hflight, hresponse, _, hstart, _⟩ := h.response hlabel
      rw [hresponse, mem_singleton] at hnew
      rw [hnew, ← hstart]
      exact Line.behind_of_started h.booked h.uniform hmove hlabel hflight
    · rw [hnone] at hnew
      cases hnew

/-- A wait which ends with a service was punctual. -/
theorem granted (hs : s ∈ grantedBy (event (step c) t act)) : Punctual c.interval clock s := by
  unfold grantedBy at hs
  split at hs
  next idx phase task s' _ _ hpc _ =>
    rw [mem_singleton.1 hs]
    have hpc' : t.pc = .confirming idx phase task s' := hpc
    exact h.waited idx s' (by rw [hpc']; rfl)
  · cases hs

/-- Every response start has its service. -/
theorem length_respondedAt : (respondedAt (event (step c) t act)).length =
      (respondedBy (event (step c) t act)).length := by
  rcases response_or_none (event (step c) t act) with ⟨ticket, hlabel⟩ | ⟨hat, hby⟩
  · obtain ⟨_, s, _, hresponse, _⟩ := h.response hlabel
    rw [hresponse, respondedBy, hlabel]
    rfl
  · rw [hat, hby]
    rfl

variable (hkind : c.kind = .interruptIn) (hpos : 0 < c.interval)

include hkind hpos

/-- What is remembered of a wait after a step. -/
theorem waited_step
    (hclock : clock ≤ act.reading.getD clock) (hs : (step c t act).1.pc.serving = some (idx, s)) :
    Punctual c.interval (act.reading.getD clock) s := by
  cases act with
  | reader r => exact h.waited idx s hs
  | worker env =>
    rcases service_cases hkind h.program hs with hold | ⟨d, hd, _, hdue, rfl⟩
    · exact (h.waited idx s hold).mono hclock
    have hspec := EndpointWorker.phaseDeadline_spec hkind hpos h.sound hd
    exact ⟨hdue, hspec.1, le_refl _⟩

theorem serving_step
    (hact : act ≠ .reader .reset) (hs : (step c t act).1.pc.serving = some (idx, s))
    (hflight : (step c t act).1.worker.inFlight = some idx)
    (hcancelled : ((step c t act).1.worker.slots idx).cancelled = false) :
    ((step c t act).1.worker.slots idx).serviceAt = s.deadline := by
  cases act with
  | reader r =>
    have hmove := (step_refines (c := c) h.sound (.reader r)).2
    obtain ⟨hsame, hstart⟩ := EndpointWorker.serviceAt_of_reader (c := c) h.sound
      (r := r) (fun hr => hact (by rw [hr]))
    have hold : t.worker.inFlight = some idx := hsame.symm.trans hflight
    have hpending : (t.worker.slots idx).cancelled = false := by
      by_contra hne
      rw [Bool.not_eq_false] at hne
      have hages := hmove.ages h.sound.partition hold hflight
      exact absurd ((hages.cancelled hne).symm.trans hcancelled) (by simp)
    exact (hstart idx hold).trans (h.serving idx s hs hold hpending)
  | worker env =>
    rcases service_cases hkind h.program hs with hold | ⟨d, hd, hworker, _, rfl⟩
    · rw [serving_keeps_worker hold hs] at hflight hcancelled ⊢
      exact h.serving idx s hold hflight hcancelled
    · rw [hworker]
      exact (EndpointWorker.phaseDeadline_spec hkind hpos h.sound hd).2

/-- **Every step but a reset keeps the invariant.** -/
theorem step (hact : act ≠ .reader .reset) (hclock : clock ≤ act.reading.getD clock) :
    Steady c (ss ++ respondedAt (event (step c) t act))
      (act.reading.getD clock) (step c t act).1 := by
  obtain ⟨hsound, hmove⟩ := step_refines (c := c) h.sound act
  have hnew : ∀ s ∈ respondedAt (event (Thread.step c) t act),
      Punctual c.interval clock s ∧ ∀ a ∈ ss, a.deadline + c.interval ≤ s.deadline := by
    intro s hs
    rcases response_or_none (event (Thread.step c) t act) with ⟨ticket, hlabel⟩ | ⟨hnone, _⟩
    · obtain ⟨idx, s', _, hresponse, hserving, _, hbehind⟩ := h.response hlabel
      rw [hresponse, mem_singleton] at hs
      rw [hs]
      exact ⟨h.waited idx s' hserving, hbehind⟩
    · rw [hnone] at hs
      cases hs
  exact {
    sound := hsound
    booked := h.booked.move hpos h.sound.partition hmove
    uniform := h.uniform.move hkind h.sound.partition hmove
    fresh := h.fresh.move h.sound.partition hmove
    program := by
      cases act with
      | reader r => exact h.program
      | worker env =>
        cases hrequest : request t.pc env with
        | none =>
          rw [(step_silent (c := c) hrequest).2]
          exact resume_interrupt hkind h.program
        | some op =>
          rw [(step_call (c := c) hrequest).2]
          exact resume_interrupt hkind h.program
    punctual := by
      intro s hs
      rcases mem_append.1 hs with hold | hs
      · exact (h.punctual s hold).mono hclock
      · exact (hnew s hs).1.mono hclock
    spaced := by
      rw [pairwise_append]
      refine ⟨h.spaced, ?_, fun a ha s hs => (hnew s hs).2 a ha⟩
      unfold respondedAt
      split
      · cases (event (Thread.step c) t act).pre.pc.serving <;> simp
      · exact List.Pairwise.nil
    behind := fun s hs => h.behind_step hpos hact hclock hs
    unanswered := fun idx hflight hresponse => h.unanswered_step hflight hresponse
    waited := fun idx s hs => h.waited_step hkind hpos hclock hs
    serving := fun idx s hs hflight hcancelled =>
      h.serving_step hkind hpos hact hs hflight hcancelled }

end Steady

theorem new_steady (c : Config) (clock : Time) : Steady c [] clock new where
  sound := EndpointWorker.new_sound
  booked := EndpointWorker.new_booked
  uniform := fun i hi => by cases hi
  fresh := fun i hi => by cases hi
  program := trivial
  punctual := fun s hs => by cases hs
  spaced := List.Pairwise.nil
  behind := fun s hs => by cases hs
  unanswered := fun idx hidx => by cases hidx
  waited := fun idx s hs => by cases hs
  serving := fun idx s hs => by cases hs

/-- The invariant along a run whose clock never goes back. -/
theorem Steady.run (hkind : c.kind = .interruptIn) (hpos : 0 < c.interval)
    (acts : List Act) (h : Steady c ss clock t) (hreset : Act.reader .reset ∉ acts)
    (hclock : (clock :: acts.filterMap Act.reading).Pairwise (· ≤ ·)) :
    (∃ clock', Steady c (ss ++ (trace (Thread.step c) t acts).flatMap respondedAt)
      clock' (final (Thread.step c) t acts)) ∧
    ∀ e ∈ trace (Thread.step c) t acts, (∀ s ∈ grantedBy e, s.deadline ≤ s.reading ∧
        s.reading < s.deadline + c.interval) ∧
      (respondedAt e).length = (respondedBy e).length := by
  induction acts generalizing ss clock t with
  | nil => exact ⟨⟨clock, by simpa using h⟩, fun e he => by cases he⟩
  | cons act acts ih =>
    rw [mem_cons, not_or] at hreset
    have hact : act ≠ .reader .reset := fun heq => hreset.1 heq.symm
    obtain ⟨hle, hrest⟩ : clock ≤ act.reading.getD clock ∧
        (act.reading.getD clock :: acts.filterMap Act.reading).Pairwise (· ≤ ·) := by
      cases act with
      | reader r => exact ⟨le_refl _, hclock⟩
      | worker env =>
        exact ⟨rel_of_pairwise_cons hclock (mem_cons_self ..), hclock.of_cons⟩
    obtain ⟨⟨clock', hfinal⟩, hevents⟩ :=
      ih (h.step hkind hpos hact hle) hreset.2 hrest
    refine ⟨⟨clock', ?_⟩, ?_⟩
    · rw [trace_cons, flatMap_cons, ← append_assoc]
      exact hfinal
    · intro e he
      rw [trace_cons, mem_cons] at he
      rcases he with rfl | he
      · refine ⟨fun s hs => ?_, h.length_respondedAt⟩
        exact ⟨(h.granted hs).due, (h.granted hs).late⟩
      · exact hevents e he

end Thread

/-- **No catch-up burst.**  On an interrupt endpoint which is not reset, with a
clock which never goes back, whatever the lateness of the timer, the wakes, the
submissions, the unlinks and the retained retries: a wait is granted at a reading
less than one interval after its deadline, the deadlines of the responses are an
interval apart, and at most `n + 1` responses are serviced in `n` intervals. -/
theorem no_catch_up_burst (c : Config) (hkind : c.kind = .interruptIn)
    (hpos : 0 < c.interval) (acts : List Act) (hreset : Act.reader .reset ∉ acts)
    (hclock : (acts.filterMap Act.reading).Pairwise (· ≤ ·)) :
    let evs := trace (step c) new acts
    let services := evs.flatMap respondedAt
    (∀ e ∈ evs, ∀ s ∈ grantedBy e, s.deadline ≤ s.reading ∧ s.reading < s.deadline + c.interval) ∧
    services.length = (evs.flatMap respondedBy).length ∧
    (services.Pairwise fun a b => a.deadline + c.interval ≤ b.deadline) ∧
    ∀ (start : Time) (n : Nat), (services.filter fun s => decide (start ≤ s.reading ∧
        s.reading ≤ start + n * c.interval)).length ≤ n + 1 := by
  -- any start of the clock before the first reading will do
  obtain ⟨clock, hstart⟩ : ∃ clock : Time,
      (clock :: acts.filterMap Act.reading).Pairwise (· ≤ ·) := by
    cases hreadings : acts.filterMap Act.reading with
    | nil => exact ⟨0, pairwise_singleton _ _⟩
    | cons first rest =>
      rw [hreadings] at hclock
      refine ⟨first, pairwise_cons.2 ⟨fun r hr => ?_, hclock⟩⟩
      rcases mem_cons.1 hr with rfl | hr
      · exact le_refl _
      · exact rel_of_pairwise_cons hclock hr
  obtain ⟨⟨clock', hfinal⟩, hevents⟩ :=
    (Thread.new_steady c clock).run hkind hpos acts hreset hstart
  refine ⟨fun e he => (hevents e he).1, ?_, hfinal.spaced, ?_⟩
  · rw [length_flatMap, length_flatMap]
    exact congrArg sum (map_congr_left fun e he => (hevents e he).2)
  · intro start n
    refine length_services_le hpos (hfinal.spaced.sublist filter_sublist) ?_ start n ?_
    · intro s hs
      have hpunctual := hfinal.punctual s (mem_of_mem_filter hs)
      exact ⟨hpunctual.due, hpunctual.late⟩
    · intro s hs
      exact of_decide_eq_true (mem_filter.1 hs).2

/-- Three submissions at once to an endpoint of interval ten, whose goroutine
comes round three intervals late and then as often as it can. -/
def lateRun : List Act :=
  [.reader (.enqueue ⟨1, 8, [], [], 100, 0⟩), .reader (.enqueue ⟨2, 8, [], [], 100, 0⟩),
    .reader (.enqueue ⟨3, 8, [], [], 100, 0⟩)] ++
  List.replicate 8 (.worker { now := 135 }) ++
  List.replicate 4 (.worker { now := 136 }) ++
  List.replicate 6 (.worker { now := 150 }) ++
  List.replicate 8 (.worker { now := 155 })

/-- The endpoint does not make up for its lateness: three responses in twenty. -/
theorem lateRun_services : Act.reader .reset ∉ lateRun ∧
    (lateRun.filterMap Act.reading).Pairwise (· ≤ ·) ∧
    (trace (Thread.step ⟨.interruptIn, 10⟩) Thread.new lateRun).flatMap
      Thread.respondedAt = [⟨135, 135⟩, ⟨145, 150⟩, ⟨155, 155⟩] ∧
    ((trace (Thread.step ⟨.interruptIn, 10⟩) Thread.new lateRun).flatMap
      Thread.respondedAt).Pairwise fun a b => a.deadline + 10 ≤ b.deadline :=
  ⟨by decide, by decide, by decide +kernel, (no_catch_up_burst ⟨.interruptIn, 10⟩ rfl
      (newConfig_interval_pos .interruptIn 10) lateRun (by decide)
      (by decide)).2.2.1⟩

end Viiper.Ports.Endpoint
