import Viiper.Ports.EndpointRefinement
import Viiper.Verified.Timeline
import Viiper.Verified.Simulation

/-!
# The goroutine of an endpoint worker

`run`, `waitForPhase` and the four `process…` functions, as a program over the methods of
the worker.  `Pc` is where the goroutine stands, with the local variables it needs there; a
step makes at most one call of a locked method, so that the command reader may strike
between any two of them.  What the goroutine asks of the clock, the device, the context and
the socket is in `Env`.

Conventions of the port:

* a read of the context right before a call is part of the step which makes the call;
* the contents of the responses and the telemetry are left out: they decide no branch.
  Where the amount of media does, `Env.full` decides;
* `WaitUntil` may return for any of its three reasons at any time;
* a wait which succeeds is remembered as a `Service`, its deadline and its clock reading,
  until the job is finished.  No branch reads it.
-/

namespace Viiper.Ports.Endpoint

open Verified Go Run Timeline
open EndpointWorker (Op Out WorkerEvent Submission)

/-- `endpointWaitResult`. -/
inductive WaitResult
  | deadline | wake | cancelled
  deriving DecidableEq

/-- Which interface of the device supplies an interrupt report. -/
inductive Supply
  | prepared | presentation | legacy | builder | transfer
  deriving DecidableEq

/-- What the world answers during one step of the goroutine. -/
structure Env where
  /-- `w.clock.Now()`. -/
  now : Time
  /-- `w.ctx.Err() != nil`. -/
  ended : Bool := false
  /-- `w.clock.WaitUntil`. -/
  wait : WaitResult := .deadline
  supply : Supply := .builder
  /-- `SelectInputPresentation` has a claim. -/
  available : Bool := true
  /-- The claim is valid and fits. -/
  wellFormed : Bool := true
  /-- `presentationClaimFits && hasAdmissionSource`. -/
  gated : Bool := false
  /-- `CanAdmitInputPresentation`. -/
  admits : Bool := true
  /-- `OwnsInputPresentationEndpoint`. -/
  owns : Bool := true
  /-- `AdmitAndCopyInputPresentation`. -/
  copies : Bool := true
  /-- `ResolveInputPresentation`. -/
  resolved : Bool := true
  /-- The response was written without an error. -/
  written : Bool := true
  /-- `HandleIsoOutTransfer`. -/
  accepted : Bool := true
  /-- The media buffer has no room for the packet. -/
  full : Bool := false
  deriving DecidableEq

/-- What a wait for a phase is for. -/
inductive Task
  | interrupt
  | isoInPacket (packet count : Nat)
  | isoInEnd
  | isoOutStart
  | isoOutEnd
  deriving DecidableEq

inductive Pc
  /-- The head of the loop of `run`. -/
  | claiming
  /-- Waiting for a wake with nothing queued. -/
  | parked
  /-- `waitForPhase`, about to ask for its deadline. -/
  | deadline (idx phase : Nat) (task : Task)
  /-- `waitForPhase`, in `WaitUntil`. -/
  | sleeping (idx phase : Nat) (task : Task)
  /-- `waitForPhase`, about to check the time it woke at. -/
  | woken (idx phase : Nat) (task : Task)
  /-- `waitForPhase`, about to return `currentActive`. -/
  | confirming (idx phase : Nat) (task : Task) (s : Service Time)
  /-- `processInterruptIn`, at the head of its loop. -/
  | attempting (idx attempt : Nat) (s : Service Time)
  /-- `processInterruptIn`, in the write of a prepared response. -/
  | preparing (idx attempt : Nat) (s : Service Time)
  /-- `processInterruptIn`, in the write of any other response. -/
  | answering (idx attempt : Nat) (gated : Bool) (s : Service Time)
  /-- `processInterruptIn`, after a write which was refused. -/
  | rechecking (idx attempt : Nat) (prepared : Bool) (s : Service Time)
  /-- `processIsoIn`, sampling a packet. -/
  | sampling (idx packet count : Nat)
  /-- `processIsoOut`, before the device callback. -/
  | starting (idx : Nat)
  /-- `processIsoOut`, in the device callback. -/
  | consuming (idx : Nat)
  /-- `processGenericIn`, in the device callback. -/
  | handling (idx : Nat)
  /-- The write of an ISO or generic response. -/
  | completing (idx : Nat)
  /-- `run`, about to finish the job. -/
  | finishing (idx : Nat) (completed retain : Bool)
  | stopped
  deriving DecidableEq

/-! ## The program -/

/-- The loop head of `processIsoIn`. -/
def isoInNext (idx packet count : Nat) : Pc :=
  if packet < count then .deadline idx packet (.isoInPacket packet count)
  else .deadline idx count .isoInEnd

/-- The switch of `run`. -/
def process (c : Config) (w : EndpointWorker) (idx : Nat) : Pc :=
  match c.kind with
  | .interruptIn => .deadline idx 0 .interrupt
  | .isoIn => isoInNext idx 0 (w.slots idx).packets.length
  | .isoOut => .deadline idx 0 .isoOutStart
  | .genericIn => .handling idx

/-- Where a successful `waitForPhase` returns to. -/
def granted (idx : Nat) (s : Service Time) : Task → Pc
  | .interrupt => .attempting idx 0 s
  | .isoInPacket packet count => .sampling idx packet count
  | .isoInEnd => .completing idx
  | .isoOutStart => .starting idx
  | .isoOutEnd => .completing idx

/-- The end of the loop body of `processInterruptIn`: two attempts, then the
request is retained. -/
def retry (idx attempt : Nat) (s : Service Time) : Pc :=
  if attempt + 1 < 2 then .attempting idx (attempt + 1) s
  else .finishing idx false true

/-- The method the goroutine calls where it stands, if any. -/
def request : Pc → Env → Option Op
  | .claiming, env => if env.ended then none else some .claimNext
  | .deadline idx phase _, env => some (.phaseDeadline idx phase env.now)
  | .woken idx phase _, env => some (.phaseDeadline idx phase env.now)
  | .confirming idx _ _ _, _ => some (.currentActive idx)
  | .preparing idx _ _, env =>
    some (.admitPreparedResponse idx env.ended env.owns env.copies)
  | .answering idx _ gated _, env =>
    some (.markResponseStarted idx (!gated || env.admits))
  | .rechecking idx _ prepared _, env =>
    if prepared && env.ended then none else some (.currentActive idx)
  | .starting idx, _ => some (.beginSideEffect idx)
  | .completing idx, _ => some (.markResponseStarted idx true)
  | .finishing idx completed retain, env =>
    some (.finish idx completed retain env.now)
  | _, _ => none

/-- One attempt of `processInterruptIn`, up to its write. -/
def attempt (idx n : Nat) (s : Service Time) (env : Env) : Pc :=
  match env.supply with
  | .prepared =>
    if env.available = false then retry idx n s
    else if env.wellFormed = false then .finishing idx false false
    else .preparing idx n s
  | .presentation => .answering idx n env.gated s
  | .legacy | .builder => .answering idx n false s
  | .transfer =>
    if env.ended then .finishing idx false false else .answering idx n false s

/-- Where the goroutine goes on, given the answer of its call and the worker
after it. -/
def resume (c : Config) (w : EndpointWorker) : Pc → Env → Out → Pc
  | .claiming, _, .index (some idx) => process c w idx
  | .claiming, _, .index none => .parked
  | .claiming, _, _ => .stopped
  | .parked, env, _ => if env.ended then .stopped else .claiming
  | .deadline idx phase task, _, .deadline (some _) => .sleeping idx phase task
  | .deadline idx _ _, _, _ => .finishing idx false false
  | .sleeping idx phase task, env, _ =>
    match env.wait with
    | .cancelled => .finishing idx false false
    | .wake => .deadline idx phase task
    | .deadline => .woken idx phase task
  | .woken idx phase task, env, .deadline (some d) =>
    -- a deadline which moved back while the timer fired is waited for again
    if env.now < d then .deadline idx phase task
    else .confirming idx phase task ⟨d, env.now⟩
  | .woken idx _ _, _, _ => .finishing idx false false
  | .confirming idx _ task s, _, .answer true => granted idx s task
  | .confirming idx _ _ _, _, _ => .finishing idx false false
  | .attempting idx n s, env, _ => attempt idx n s env
  | .preparing idx _ _, env, .admission .accepted =>
    .finishing idx (env.written && env.resolved) false
  | .preparing idx n s, env, .admission .deferred =>
    if env.resolved = false then .finishing idx false false
    else .rechecking idx n true s
  | .preparing idx n s, _, _ => .rechecking idx n true s
  | .answering idx _ _ _, env, .answer true => .finishing idx env.written false
  | .answering idx n _ s, _, _ => .rechecking idx n false s
  | .rechecking idx n _ s, _, .answer true => retry idx n s
  | .rechecking idx _ _ _, _, _ => .finishing idx false false
  | .sampling idx packet count, env, _ =>
    if env.ended then .finishing idx false false
    else if env.full then .deadline idx count .isoInEnd
    else isoInNext idx (packet + 1) count
  | .starting idx, _, .answer true => .consuming idx
  | .starting idx, _, _ => .finishing idx false false
  | .consuming idx, env, _ =>
    if env.accepted then .deadline idx (w.slots idx).packets.length .isoOutEnd
    else .finishing idx false false
  | .handling idx, env, _ =>
    if env.ended then .finishing idx false false else .completing idx
  | .completing idx, env, .answer true => .finishing idx env.written false
  | .completing idx, _, _ => .finishing idx false false
  | .finishing _ _ _, _, _ => .claiming
  | .stopped, _, _ => .stopped

/-! ## The two threads -/

/-- What the command reader calls. -/
inductive ReaderOp
  | enqueue (r : Submission)
  | unlinkAt (seq : UInt32) (now : Time)
  | reset
  deriving DecidableEq

def ReaderOp.op : ReaderOp → Op
  | .enqueue r => .enqueue r
  | .unlinkAt seq now => .unlinkAt seq now
  | .reset => .reset

inductive Act
  | reader (r : ReaderOp)
  | worker (env : Env)
  deriving DecidableEq

structure Thread where
  worker : EndpointWorker
  pc : Pc

namespace Thread

/-- The state `newEndpointWorkerWithClock` starts `run` in. -/
def new : Thread := ⟨EndpointWorker.new, .claiming⟩

/-- One step of either thread, with the call it made. -/
def step (c : Config) (t : Thread) : Act → Thread × Option (Op × Out)
  | .reader r =>
    let s := EndpointWorker.step c t.worker r.op
    (⟨s.1, t.pc⟩, some (r.op, s.2))
  | .worker env =>
    match request t.pc env with
    | some op =>
      let s := EndpointWorker.step c t.worker op
      (⟨s.1, resume c s.1 t.pc env s.2⟩, some (op, s.2))
    | none => (⟨t.worker, resume c t.worker t.pc env .done⟩, none)

abbrev ThreadEvent := Event Thread Act (Option (Op × Out))

/-- The call a step made on the worker. -/
def call (e : ThreadEvent) : Option WorkerEvent :=
  e.out.map fun r => ⟨e.pre.worker, r.1, r.2, e.post.worker⟩

/-- What an observer sees of a step. -/
def label (e : ThreadEvent) : Label :=
  match call e with
  | some e' => EndpointWorker.label e'
  | none => .quiet

/-! ## What a step does -/

section Step

variable {c : Config} {t : Thread}

theorem step_call {env : Env} {op : Op} (h : request t.pc env = some op) :
    call (event (step c) t (.worker env)) = some (event (EndpointWorker.step c) t.worker op) ∧
      (step c t (.worker env)).1 = ⟨(EndpointWorker.step c t.worker op).1,
          resume c (EndpointWorker.step c t.worker op).1 t.pc env
            (EndpointWorker.step c t.worker op).2⟩ := by
  have hstep : step c t (.worker env) = (⟨(EndpointWorker.step c t.worker op).1,
        resume c (EndpointWorker.step c t.worker op).1 t.pc env
          (EndpointWorker.step c t.worker op).2⟩,
        some (op, (EndpointWorker.step c t.worker op).2)) := by
    simp only [step, h]
  exact ⟨by rw [call, event, hstep]; rfl, by rw [hstep]⟩

theorem step_silent {env : Env} (h : request t.pc env = none) :
    call (event (step c) t (.worker env)) = none ∧ (step c t (.worker env)).1 =
        ⟨t.worker, resume c t.worker t.pc env .done⟩ := by
  have hstep : step c t (.worker env) = (⟨t.worker, resume c t.worker t.pc env .done⟩, none) := by
    simp only [step, h]
  exact ⟨by rw [call, event, hstep]; rfl, by rw [hstep]⟩

/-- A step makes one call, and the worker is as the call leaves it, or it makes
none and leaves the worker alone. -/
theorem step_cases (act : Act) : (∃ op, call (event (step c) t act) =
        some (event (EndpointWorker.step c) t.worker op) ∧
      (step c t act).1.worker = (EndpointWorker.step c t.worker op).1) ∨
    (call (event (step c) t act) = none ∧ (step c t act).1.worker = t.worker) := by
  cases act with
  | reader r => exact .inl ⟨r.op, rfl, rfl⟩
  | worker env =>
    cases h : request t.pc env with
    | some op =>
      obtain ⟨hcall, hpost⟩ := step_call (c := c) h
      exact .inl ⟨op, hcall, by rw [hpost]⟩
    | none =>
      obtain ⟨hcall, hpost⟩ := step_silent (c := c) h
      exact .inr ⟨hcall, by rw [hpost]⟩

/-- **Every step of the two threads is a move of the line.** -/
theorem step_refines (h : t.worker.Sound) (act : Act) : (step c t act).1.worker.Sound ∧
      Line.Move c t.worker.line (label (event (step c) t act)) (step c t act).1.worker.line := by
  rcases step_cases (c := c) (t := t) act with ⟨op, hcall, hpost⟩ | ⟨hcall, hpost⟩
  · rw [label, hcall, hpost]
    exact EndpointWorker.step_refines h op
  · rw [label, hcall, hpost]
    exact ⟨h, .keep⟩

/-- What an observer sees of a step is of a call the reader made, or of the one
the goroutine makes where it stands. -/
theorem label_madeBy (act : Act) : label (event (step c) t act) = .quiet ∨
      ∃ op, EndpointWorker.madeBy (label (event (step c) t act)) op ∧
        ((∃ r, act = .reader r ∧ op = r.op) ∨
          ∃ env, act = .worker env ∧ request t.pc env = some op) := by
  cases act with
  | reader r =>
    exact .inr ⟨r.op, EndpointWorker.label_madeBy r.op, .inl ⟨r, rfl, rfl⟩⟩
  | worker env =>
    cases h : request t.pc env with
    | none =>
      left
      rw [label, (step_silent (c := c) h).1]
    | some op =>
      right
      rw [label, (step_call (c := c) h).1]
      exact ⟨op, EndpointWorker.label_madeBy op, .inr ⟨env, rfl, h⟩⟩

end Step

/-- The calls a run makes are a run of the worker. -/
theorem calls_eq_trace (c : Config) (acts : List Act) (t : Thread) :
    ∃ ops, (trace (step c) t acts).filterMap call = trace (EndpointWorker.step c) t.worker ops := by
  induction acts generalizing t with
  | nil => exact ⟨[], rfl⟩
  | cons act acts ih =>
    obtain ⟨ops, hops⟩ := ih (step c t act).1
    rcases step_cases (c := c) (t := t) act with ⟨op, hcall, hpost⟩ | ⟨hcall, hpost⟩
    · refine ⟨op :: ops, ?_⟩
      rw [trace_cons, List.filterMap_cons, hcall, hops, hpost]
      rfl
    · refine ⟨ops, ?_⟩
      rw [trace_cons, List.filterMap_cons, hcall, hops, hpost]

/-- Every interleaving of the two threads is a run of the line. -/
theorem threads_refine_line (c : Config) (acts : List Act) :
    LabelledRun (fun _ _ => True) (Line.Move c) new.worker.line
      ((trace (step c) new acts).map label) (final (step c) new acts).worker.line :=
  labelledRun_run (I := (·.worker.Sound)) (·.worker.line) label
    (fun _ act h => step_refines h act) EndpointWorker.new_sound acts

end Thread

end Viiper.Ports.Endpoint
