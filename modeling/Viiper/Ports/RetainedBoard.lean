import Viiper.Ports.RetainedArbiter

/-!
# The board: what the lanes hold, as lists

The abstract state of the retained scheduler.  A lane is the list of its jobs; a job
is named by its ingress ordinal, which is given once.  On this board every section
of the scheduler is one of four edits — a job is appended, rewritten, dropped, or a
whole board is swept — together with what it does to the callers.

`Move` says once what a step can do.
-/

namespace Viiper.Ports.Retained

open Verified List Scheduler

/-- The system with its lanes as lists. -/
abbrev Board := System (List Slot)

def Scheduler.mapLanes {Q R : Type} (f : Lane → Q → R) (s : Scheduler Q) : Scheduler R :=
  { lanes := fun lane => f lane (s.lanes lane)
    nextOrdinal := s.nextOrdinal
    closed := s.closed
    cancelled := s.cancelled
    failed := s.failed
    retirement := s.retirement
    framingSequences := s.framingSequences
    started := s.started
    importActivated := s.importActivated
    admissionOpen := s.admissionOpen
    activation := s.activation
    resetFence := s.resetFence
    resetDrained := s.resetDrained
    resetActive := s.resetActive
    bindingGeneration := s.bindingGeneration
    lifecycleCompletionPending := s.lifecycleCompletionPending
    activeConfiguration := s.activeConfiguration
    activeAlternateSetting := s.activeAlternateSetting
    lastReadinessEpoch := s.lastReadinessEpoch
    endpointNextService := s.endpointNextService }

/-- The board of a scheduler: its lanes read out, all else as it is. -/
def System.view (cfg : Config) (s : SlotSystem) : Board :=
  { toScheduler := s.toScheduler.mapLanes fun lane q => q.jobs (cfg.depth lane)
    pc := s.pc
    retiring := s.retiring
    calls := s.calls
    reader := s.reader
    commands := s.commands
    shutDown := s.shutDown }

/-! ## Edits -/

def rewriteJob (k : Nat) (g : Slot → Slot) (jobs : List Slot) : List Slot :=
  jobs.map fun x => if x.ingressOrdinal = k then g x else x

def dropJob (k : Nat) (jobs : List Slot) : List Slot :=
  jobs.filter fun x => x.ingressOrdinal ≠ k

/-- A job after a sweep. -/
def sweptSlot (scope : Scope) (x : Slot) : Option Slot :=
  if !scope.covers x || x.state == .admitted || x.state == .terminal ||
      x.state == .lifecycleRetired then some x
  else if x.state == .rawQueued then none
  else some (retireSlot x)

/-- A sweep collects this job for retirement. -/
def collects (scope : Scope) (x : Slot) : Bool :=
  scope.covers x && x.state != .admitted && x.state != .terminal &&
    x.state != .lifecycleRetired && x.state != .rawQueued

/-- A retirement by its job's ordinal and ticket. -/
def Retirement.key (r : Retirement) : Nat × Ticket := (r.ref.ingressOrdinal, r.ticket)

/-- A job by its ordinal and ticket. -/
def Slot.key (x : Slot) : Nat × Ticket := (x.ingressOrdinal, x.ticket)

def allJobs (lanes : Lane → List Slot) : List Slot := Lane.all.flatMap lanes

/-- The first job with an ordinal. -/
def findJob (k : Nat) (jobs : List Slot) : Option Slot :=
  jobs.find? fun x => x.ingressOrdinal = k

namespace System

variable (b : Board)

def edit (f : List Slot → List Slot) : Board :=
  { b with lanes := fun lane => f (b.lanes lane) }

def all : List Slot := allJobs b.lanes

/-- The job with an ordinal. -/
def find (k : Nat) : Option Slot := findJob k b.all

def queued (sequence : UInt32) : Bool := b.all.any (·.sequence == sequence)

/-- The board after a sweep: `todo` is what it collected, for `c` to retire. -/
def sweptBoard (c : Caller) (scope : Scope) (todo : List Retirement) (reason : RetireReason) :
    Board :=
  (b.edit (List.filterMap (sweptSlot scope))).setRetiring c { todo := todo, reason := reason }

/-- What a sweep collects, by lane and in each from the newest job back. -/
def collected (scope : Scope) : List Slot :=
  Lane.all.flatMap fun lane => ((b.lanes lane).filter (collects scope)).reverse

end System

section Edits

variable {lanes : Lane → List Slot} {jobs : List Slot} {k o : Nat} {g : Slot → Slot}
  {scope : Scope} {x y : Slot}

theorem mem_allJobs : x ∈ allJobs lanes ↔ ∃ lane, x ∈ lanes lane := by
  rw [allJobs, mem_flatMap]
  exact ⟨fun ⟨lane, _, hx⟩ => ⟨lane, hx⟩, fun ⟨lane, hx⟩ => ⟨lane, Lane.mem_all lane, hx⟩⟩

theorem allJobs_rewrite :
    allJobs (fun lane => rewriteJob k g (lanes lane)) = rewriteJob k g (allJobs lanes) :=
  (map_flatMap ..).symm

theorem allJobs_drop : allJobs (fun lane => dropJob k (lanes lane)) = dropJob k (allJobs lanes) :=
  (filter_flatMap ..).symm

theorem allJobs_sweep : allJobs (fun lane => (lanes lane).filterMap (sweptSlot scope)) =
      (allJobs lanes).filterMap (sweptSlot scope) :=
  (filterMap_flatMap ..).symm

/-- A new job is one more among all. -/
theorem allJobs_push (lane : Lane) :
    (allJobs (Function.update lanes lane (lanes lane ++ [x]))).Perm (x :: allJobs lanes) := by
  have hperm : ∀ l : List Slot, (l ++ [x]).Perm (x :: l) := fun l => perm_append_comm
  cases lane
  · show (lanes .control ++ [x] ++ (lanes .interruptIn ++ (lanes .interruptOut ++ []))).Perm _
    exact (hperm _).append_right _
  · show (lanes .control ++ (lanes .interruptIn ++ [x] ++ (lanes .interruptOut ++ []))).Perm _
    exact (((hperm _).append_right _).append_left _).trans perm_middle
  · show (lanes .control ++ (lanes .interruptIn ++ (lanes .interruptOut ++ [x] ++ []))).Perm _
    refine ((((hperm _).append_right _).append_left _).append_left _).trans ?_
    exact (perm_middle.append_left _).trans perm_middle

theorem mem_rewrite : y ∈ rewriteJob k g jobs ↔
      (∃ x ∈ jobs, x.ingressOrdinal = k ∧ y = g x) ∨ (y ∈ jobs ∧ y.ingressOrdinal ≠ k) := by
  rw [rewriteJob, mem_map]
  constructor
  · rintro ⟨x, hx, rfl⟩
    by_cases hk : x.ingressOrdinal = k
    · exact .inl ⟨x, hx, hk, by rw [if_pos hk]⟩
    · rw [if_neg hk]
      exact .inr ⟨hx, hk⟩
  · rintro (⟨x, hx, hk, rfl⟩ | ⟨hy, hk⟩)
    · exact ⟨x, hx, by rw [if_pos hk]⟩
    · exact ⟨y, hy, by rw [if_neg hk]⟩

theorem mem_drop : y ∈ dropJob k jobs ↔ y ∈ jobs ∧ y.ingressOrdinal ≠ k := by
  rw [dropJob, mem_filter, decide_eq_true_eq]

/-- A sweep keeps a job, drops it if it is raw, or takes its ticket. -/
theorem sweptSlot_cases (scope : Scope) (x : Slot) :
    (sweptSlot scope x = some x ∧ collects scope x = false) ∨
      (sweptSlot scope x = none ∧ x.state = .rawQueued ∧ scope.covers x ∧
        collects scope x = false) ∨
      (sweptSlot scope x = some (retireSlot x) ∧ collects scope x) := by
  unfold sweptSlot collects
  cases hc : scope.covers x <;> cases hs : x.state <;> simp

theorem mem_sweep : y ∈ jobs.filterMap (sweptSlot scope) ↔
      (y ∈ jobs ∧ sweptSlot scope y = some y ∧ collects scope y = false) ∨
        ∃ x ∈ jobs, collects scope x ∧ y = retireSlot x := by
  rw [mem_filterMap]
  constructor
  · rintro ⟨x, hx, hy⟩
    rcases sweptSlot_cases scope x with ⟨h, hc⟩ | ⟨h, -⟩ | ⟨h, hc⟩
    · cases h.symm.trans hy
      exact .inl ⟨hx, h, hc⟩
    · cases h.symm.trans hy
    · cases h.symm.trans hy
      exact .inr ⟨x, hx, hc, rfl⟩
  · rintro (⟨hy, h, -⟩ | ⟨x, hx, hc, rfl⟩)
    · exact ⟨y, hy, h⟩
    · refine ⟨x, hx, ?_⟩
      rcases sweptSlot_cases scope x with ⟨-, h⟩ | ⟨-, -, -, h⟩ | ⟨h, -⟩
      · cases h.symm.trans hc
      · cases h.symm.trans hc
      · exact h

/-- A sweep renames no job. -/
theorem sweptSlot_ordinal {x y : Slot} (h : sweptSlot scope x = some y) :
    y.ingressOrdinal = x.ingressOrdinal := by
  rcases sweptSlot_cases scope x with ⟨h', -⟩ | ⟨h', -⟩ | ⟨h', -⟩
  all_goals rw [h'] at h
  · cases h
    rfl
  · cases h
  cases h
  rfl

theorem mem_tail_filterMap {f : Slot → Option Slot} (h : y ∈ (jobs.filterMap f).tail) :
    ∃ x ∈ jobs.tail, f x = some y := by
  cases jobs with
  | nil => cases h
  | cons a rest =>
    rw [tail_cons, ← mem_filterMap]
    rw [filterMap_cons] at h
    split at h
    · exact mem_of_mem_tail h
    · exact h

theorem mem_tail_drop (h : y ∈ (dropJob k jobs).tail) : y ∈ jobs.tail := by
  cases jobs with
  | nil => cases h
  | cons a rest =>
    unfold dropJob at h
    rw [filter_cons] at h
    split at h
    · exact mem_of_mem_filter h
    · exact mem_of_mem_filter (mem_of_mem_tail h)

theorem findJob_mem (h : findJob k jobs = some x) : x ∈ jobs ∧ x.ingressOrdinal = k :=
  ⟨mem_of_find?_eq_some h, by simpa using find?_some h⟩

theorem findJob_eq_some (hnodup : (jobs.map Slot.ingressOrdinal).Nodup) :
    findJob k jobs = some x ↔ x ∈ jobs ∧ x.ingressOrdinal = k := by
  refine ⟨findJob_mem, fun ⟨hx, hk⟩ => ?_⟩
  rcases h : findJob k jobs with _ | y
  · exact absurd (by simpa using hk) (find?_eq_none.1 h x hx)
  obtain ⟨hy, hyk⟩ := findJob_mem h
  rw [inj_on_of_nodup_map hnodup hy hx (hyk.trans hk.symm)]

theorem findJob_eq_none : findJob k jobs = none ↔ ∀ x ∈ jobs, x.ingressOrdinal ≠ k := by
  rw [findJob, find?_eq_none]
  simp

end Edits

/-! ## Callers -/

namespace Pc

/-- The admitted job in the hands of the token's holder. -/
def admission? : Pc → Option Admission
  | .sending a | .completing a _ | .settling a _ _ => some a
  | _ => none

/-- The holder of the token is between the admission of a lifecycle response and the
end of its completion. -/
def barrier : Pc → Bool
  | .sending a | .completing a _ | .settling a _ _ => a.lifecycleTerminalSuccess
  | .sweeping _ _ | .swept _ | .routing _ _ => true
  | _ => false

/-- The holder of the token has tickets to retire. -/
def waits : Pc → Bool
  | .failed | .swept _ | .drained _ => true
  | _ => false

/-- Neither of these, and not about to send. -/
def plain : Pc → Bool
  | .idle | .polling _ | .sampling _ | .selecting _ | .sequencing _ _ | .preparing _ _ _
  | .pended _ _ _ | .failing _ | .drainChecking _ | .drainSweeping _ => true
  | _ => false

def isPreparing : Pc → Bool
  | .preparing _ _ _ => true
  | _ => false

/-- The slot a place in a round refers to. -/
def ref? : Pc → Option Ref
  | .sequencing _ ref | .preparing _ ref _ | .pended _ ref _ | .failing ref => some ref
  | .sending a | .completing a _ | .settling a _ _ => some a.ref
  | _ => none

end Pc

/-- What the reader holds: nothing, a reserved sequence, or a reply to write. -/
inductive Hand
  | empty
  | reserved (sequence : UInt32)
  | replying (sequence : UInt32)

namespace ReaderPc

def hand : ReaderPc → Hand
  | .reading | .stopped => .empty
  | .framed h => .reserved h.seq
  | .unlinking sequence | .finishing sequence _ => .reserved sequence
  | .enqueueing e => .reserved e.sequence
  | .replying sequence _ => .replying sequence

def waits : ReaderPc → Bool
  | .unlinking _ => true
  | _ => false

end ReaderPc

def CallPc.waits : CallPc → Bool
  | .retiring _ => true
  | _ => false

/-- The caller is in the middle of its retirements. -/
def System.waits {Q : Type} (s : System Q) : Caller → Bool
  | .service => s.pc.waits
  | .reader => s.reader.waits
  | .other n => (s.calls n).waits

/-! ## Moves -/

/-- The token's holder moves on without touching a job. -/
inductive QuietPc (done : Prop) : Pc → Pc → Prop
  | keep (pc : Pc) : QuietPc done pc pc
  | plain {pc pc' : Pc} : pc.plain → pc'.plain → pc'.isPreparing = false →
      QuietPc done pc pc'
  | finish {pc : Pc} : done → pc = .failed ∨ (∃ reset, pc = .drained reset) → QuietPc done pc .idle
  | routing (lifecycle : ControlLifecycle) (published : Bool) :
      done → QuietPc done (.swept lifecycle) (.routing lifecycle published)
  | unswept {lifecycle : ControlLifecycle} {successor : Nat} :
      lifecycleScope lifecycle successor = none →
        QuietPc done (.sweeping lifecycle successor) (.routing lifecycle false)

/-- The reader moves on without touching a job or a reservation. -/
def QuietReader (done : Prop) (r r' : ReaderPc) : Prop :=
  r' = r ∨ (r ≠ .stopped ∧ r'.hand = r.hand ∧ r'.waits = false ∧ (r.waits → done))

/-- A call moves on without touching a job. -/
inductive QuietCall (closed done : Prop) : CallPc → CallPc → Prop
  | keep (pc : CallPc) : QuietCall closed done pc pc
  | start (reason : RetireReason) : closed → QuietCall closed done .idle (.cancelling reason)
  | cancelled (reason : RetireReason) :
      QuietCall closed done (.cancelling reason) (.sweeping reason)
  | finish (kind : CallKind) : done → QuietCall closed done (.retiring kind) .idle

/-- A step which touches no job, no reservation and no routing. -/
structure Calm (b b' : Board) : Prop where
  lanes : b'.lanes = b.lanes
  nextOrdinal : b'.nextOrdinal = b.nextOrdinal
  framingSequences : b'.framingSequences = b.framingSequences
  bindingGeneration : b'.bindingGeneration = b.bindingGeneration
  lifecycleCompletionPending : b'.lifecycleCompletionPending = b.lifecycleCompletionPending
  activeConfiguration : b'.activeConfiguration = b.activeConfiguration
  activeAlternateSetting : b'.activeAlternateSetting = b.activeAlternateSetting
  retiring : b'.retiring = b.retiring
  commands : b'.commands = b.commands
  closed : b.closed → b'.closed
  pc : QuietPc ((b.retiring .service).todo = []) b.pc b'.pc
  reader : QuietReader ((b.retiring .reader).todo = []) b.reader b'.reader
  calls : ∀ n, QuietCall (b'.closed) ((b.retiring (.other n)).todo = [])
    (b.calls n) (b'.calls n)
  shutDown : b'.shutDown → b.shutDown ∨ ∃ n, b.calls n = .retiring .shutdown

theorem Calm.refl (b : Board) : Calm b b where
  lanes := rfl
  nextOrdinal := rfl
  framingSequences := rfl
  bindingGeneration := rfl
  lifecycleCompletionPending := rfl
  activeConfiguration := rfl
  activeAlternateSetting := rfl
  retiring := rfl
  commands := rfl
  closed := id
  pc := .keep _
  reader := .inl rfl
  calls := fun _ => .keep _
  shutDown := .inl

/-- A label which tells of no submission. -/
def Label.silent : Label → Bool
  | .quiet | .refused _ => true
  | _ => false

/-- An unlink's caller before and after it: the reader, or a call. -/
inductive UnlinkBy (b : Board) : Caller → Bool → Board → Prop
  | reader {h : Header} {owes : Bool} {reader : ReaderPc} :
      b.reader = .framed h → reader.hand = .reserved h.seq → reader.waits = owes →
        UnlinkBy b .reader owes { b with reader := reader }
  | call {n : Nat} {owes : Bool} {pc : CallPc} :
      b.calls n = .idle → pc = (if owes then .retiring .unlink else .idle) →
        UnlinkBy b (.other n) owes (b.setCall n pc)

/-- A sweep's caller before and after it. -/
inductive SweepBy (cfg : Config) (b : Board) : Caller → Scope → RetireReason → Board → Prop
  | lifecycle {lifecycle : ControlLifecycle} {successor : Nat} {reason : RetireReason} :
      b.pc = .sweeping lifecycle successor →
        lifecycleScope lifecycle successor = some (.lifecycle lifecycle successor, reason) →
        SweepBy cfg b .service (.lifecycle lifecycle successor) reason (b.setPc (.swept lifecycle))
  | drain {reset : ImportResetLease} : b.pc = .drainSweeping reset →
        SweepBy cfg b .service (.session cfg.session) .deviceReset (b.setPc (.drained reset))
  | call {n : Nat} {scope : Scope} {reason : RetireReason} : b.calls n = .idle →
        SweepBy cfg b (.other n) scope reason (b.setCall n (.retiring .retire))
  | shutdown {n : Nat} {reason : RetireReason} : b.calls n = .sweeping reason →
        SweepBy cfg b (.other n) (.session cfg.session) reason (b.setCall n (.retiring .shutdown))

/-- Who enqueues: someone without a reservation, or the reader with its own. -/
def EnqueueBy (b : Board) (e : Envelope) (requireReservation : Bool) (command : Option Nat)
    (reader : ReaderPc) : Prop :=
  (requireReservation = false ∧ command = none ∧ reader = b.reader) ∨
    (requireReservation ∧ command = some b.commands ∧ b.reader = .enqueueing e ∧
      reader = .reading)

/-- The lifecycle of a settled response is applied. -/
def applies (cfg : Config) (b : Board) (a : Admission) (delivered completed : Bool) : Bool :=
  delivered && completed && a.lifecycleTerminalSuccess && cfg.controlLifecycle.isSome &&
    b.bindingGeneration != maxUint64

def System.IsHead (b : Board) (lane : Lane) (x : Slot) : Prop := (b.lanes lane).head? = some x

/-- What the owner's ticket for a job has to satisfy. -/
structure Accepts (cfg : Config) (b : Board) (lane : Lane) (k : Nat) (ticket : Ticket) : Prop where
  valid : ticket.valid
  ownerID : ticket.ownerID = cfg.ownerIdentity
  sessionGeneration : ticket.sessionGeneration = cfg.session
  lane : ticket.lane = some lane
  fresh : ∀ y ∈ b.all, y.ingressOrdinal ≠ k → y.ticket.valid →
    sameCapability y.ticket ticket = false

/-- **What a step can do.** -/
inductive Move (cfg : Config) : Board → Label → Board → Prop
  | calm {b b' : Board} {l : Label} : l.silent → Calm b b' → Move cfg b l b'
  | enqueue {b : Board} {lane : Lane} {e : Envelope} {requireReservation : Bool}
      {command : Option Nat} {reader : ReaderPc} :
      validateEnvelope cfg e → e.lane = some lane →
      b.refusal cfg e requireReservation (b.queued e.sequence) = none →
      EnqueueBy b e requireReservation command reader →
        Move cfg b (.enqueued (b.nextOrdinal + 1) e.sequence command)
          { b with
            lanes := Function.update b.lanes lane
              (b.lanes lane ++ [slotFor cfg (b.stamp cfg e) (b.nextOrdinal + 1)])
            nextOrdinal := b.nextOrdinal + 1
            framingSequences := if requireReservation then
              b.framingSequences.filter (· != e.sequence) else b.framingSequences
            reader := reader }
  | stage {b : Board} {round : Round} {ref : Ref} {x : Slot} {resolved : ControlLifecycle}
      {ticket : Ticket} :
      b.pc = .selecting round → b.IsHead ref.lane x → x.ingressOrdinal = ref.ingressOrdinal →
      x.state = .rawQueued → Accepts cfg b ref.lane ref.ingressOrdinal ticket →
        Move cfg b (.staged (requestForSlot (b.refresh cfg resolved x)) ticket)
          ((b.edit (rewriteJob ref.ingressOrdinal fun y =>
            ticketSlot ticket (b.refresh cfg resolved y))).setPc (.sequencing round ref))
  | unstage {b : Board} {round : Round} {ref : Ref} {x : Slot} :
      b.pc = .selecting round → b.IsHead ref.lane x → x.ingressOrdinal = ref.ingressOrdinal →
      x.state = .rawQueued → Move cfg b .quiet ((b.edit (dropJob ref.ingressOrdinal)).setPc .idle)
  | sequence {b : Board} {round : Round} {ref : Ref} :
      b.pc = .sequencing round ref → ref.ingressOrdinal ≤ b.nextOrdinal → Move cfg b .quiet (b.setPc
          (.preparing round ref (((b.find ref.ingressOrdinal).map (·.sequence)).getD 0)))
  | refuse {b : Board} {round : Round} {ref : Ref} {sequence : UInt32} {x : Slot}
      {outcome : Outcome} {cancelled : Bool} {pc : Pc} :
      b.pc = .preparing round ref sequence → b.IsHead ref.lane x →
      x.ingressOrdinal = ref.ingressOrdinal → x.state.staged →
      (outcome = .failed ∧ pc = .failing ref) ∨ (outcome = .dropped ∧ pc = .selecting round) →
        Move cfg b (.prepared ref.ingressOrdinal x.ticket outcome)
          { b with cancelled := cancelled, pc := pc }
  | pend {b : Board} {round : Round} {ref : Ref} {sequence : UInt32} {x : Slot}
      {epoch : Nat} {retryAt : Option Int} :
      b.pc = .preparing round ref sequence → b.IsHead ref.lane x →
      x.ingressOrdinal = ref.ingressOrdinal → x.state.staged →
        Move cfg b (.prepared ref.ingressOrdinal x.ticket .pending)
          ((b.edit (rewriteJob ref.ingressOrdinal (pendSlot epoch retryAt))).setPc
            (.pended round ref epoch))
  | admits {b : Board} {round : Round} {ref : Ref} {sequence : UInt32} {x : Slot}
      {selection : Selection} {lifecycle : Bool} {nextService : Lane → Option Int} :
      b.pc = .preparing round ref sequence → b.IsHead ref.lane x →
      x.ingressOrdinal = ref.ingressOrdinal → x.state.staged →
      selection.sendable cfg.maximumResponseLength →
      lifecycle = (x.controlLifecycle.accepted && selection.result == .success) →
      (lifecycle → b.lifecycleCompletionPending = false) →
        Move cfg b (.prepared ref.ingressOrdinal x.ticket (.admitted lifecycle))
          { b.edit (rewriteJob ref.ingressOrdinal admitSlot) with
            lifecycleCompletionPending := b.lifecycleCompletionPending || lifecycle
            endpointNextService := nextService
            pc := .sending ⟨ref, sequence, x.ticket, selection, lifecycle⟩ }
  | claim {b : Board} {ref : Ref} {x : Slot} :
      b.pc = .failing ref → b.find ref.ingressOrdinal = some x → x.state.staged →
        Move cfg b .quiet (((b.edit (rewriteJob ref.ingressOrdinal retireSlot)).setRetiring .service
            { todo := [⟨ref, x.ticket⟩], reason := .prepareFailure }).setPc .failed)
  | claimNone {b : Board} {ref : Ref} : b.pc = .failing ref → Move cfg b .quiet
          ((b.setRetiring .service { todo := [], reason := .prepareFailure }).setPc .failed)
  | send {b : Board} {a : Admission} {delivered : Bool} : b.pc = .sending a →
        Move cfg b (.sent a.ref.ingressOrdinal a.sequence a.selection)
          (b.setPc (.completing a delivered))
  | complete {b : Board} {a : Admission} {delivered completed : Bool} :
      b.pc = .completing a delivered →
        Move cfg b (.completed a.ref.ingressOrdinal a.ticket delivered completed)
          (b.setPc (.settling a delivered completed))
  | settle {b : Board} {a : Admission} {delivered completed : Bool} {x : Slot} :
      b.pc = .settling a delivered completed → b.find a.ref.ingressOrdinal = some x →
      x.state = .admitted → applies cfg b a delivered completed = false → Move cfg b .quiet
          ((b.edit (dropJob a.ref.ingressOrdinal)).setPc
            (if a.lifecycleTerminalSuccess then .routing x.controlLifecycle false else .idle))
  | rotate {b : Board} {a : Admission} {delivered completed : Bool} {x : Slot} :
      b.pc = .settling a delivered completed → b.find a.ref.ingressOrdinal = some x →
      x.state = .admitted → applies cfg b a delivered completed →
        Move cfg b (.rotated x.controlLifecycle (b.bindingGeneration + 1))
          { b.edit (dropJob a.ref.ingressOrdinal) with
            bindingGeneration := b.bindingGeneration + 1
            pc := .sweeping x.controlLifecycle (b.bindingGeneration + 1) }
  | sweep {b b₁ : Board} {c : Caller} {scope : Scope} {reason : RetireReason}
      {todo : List Retirement} :
      SweepBy cfg b c scope reason b₁ →
      todo.map Retirement.key = (b.collected scope).map Slot.key →
        Move cfg b .quiet (b₁.sweptBoard c scope todo reason)
  | unlinkRaw {b b₁ : Board} {c : Caller} {x : Slot} :
      UnlinkBy b c false b₁ → b.find x.ingressOrdinal = some x → x.state = .rawQueued →
        Move cfg b (.unlinked x.ingressOrdinal x.sequence)
          ((b₁.edit (dropJob x.ingressOrdinal)).setRetiring c { todo := [], reason := .unlink })
  | unlinkStaged {b b₁ : Board} {c : Caller} {x : Slot} {ref : Ref} :
      UnlinkBy b c true b₁ → b.find x.ingressOrdinal = some x → x.state.staged →
      ref.ingressOrdinal = x.ingressOrdinal → Move cfg b (.unlinked x.ingressOrdinal x.sequence)
          ((b₁.edit (rewriteJob x.ingressOrdinal retireSlot)).setRetiring c
            { todo := [⟨ref, x.ticket⟩], reason := .unlink })
  | retire {b : Board} {c : Caller} {r : Retirement} {rest : List Retirement} {failed : Bool} :
      (b.retiring c).todo = r :: rest → (b.retiring c).called = false →
        Move cfg b (.retired r.ref.ingressOrdinal r.ticket (b.retiring c).reason)
          (b.setRetiring c { b.retiring c with called := true, failed := failed })
  | release {b : Board} {c : Caller} {r : Retirement} {rest : List Retirement} :
      (b.retiring c).todo = r :: rest → (b.retiring c).called → Move cfg b .quiet
          ((b.edit (dropJob r.ref.ingressOrdinal)).setRetiring c
            { b.retiring c with todo := rest, called := false })
  | route {b : Board} {lifecycle : ControlLifecycle} {published : Bool} {b' : Board} {l : Label} :
      b.pc = .routing lifecycle published → b.route cfg lifecycle published = (b', l) →
        Move cfg b l b'
  | frame {b : Board} {h : Header} :
      b.reader = .reading → h.seq ∉ b.framingSequences → b.queued h.seq = false →
        Move cfg b (.framed (b.commands + 1) h.seq)
          { b with
            framingSequences := h.seq :: b.framingSequences
            reader := .framed h
            commands := b.commands + 1 }
  | finish {b : Board} {sequence : UInt32} {reply : Reply} : b.reader = .finishing sequence reply →
        Move cfg b .quiet
          { b with
            framingSequences := b.framingSequences.filter (· != sequence)
            reader := .replying sequence reply }
  | reply {b : Board} {sequence : UInt32} {reply : Reply} {reader : ReaderPc} :
      b.reader = .replying sequence reply → reader = .reading ∨ reader = .stopped →
        Move cfg b (.replied b.commands sequence reply) { b with reader := reader }
  | abandon {b : Board} {sequence : UInt32} {failed : Bool} {l : Label} :
      l.silent → b.reader.hand = .reserved sequence →
      (b.reader.waits → (b.retiring .reader).todo = []) → Move cfg b l
          { b with
            failed := failed
            framingSequences := b.framingSequences.filter (· != sequence)
            reader := .stopped }

end Viiper.Ports.Retained
