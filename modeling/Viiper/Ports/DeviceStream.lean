import Viiper.Verified.Run

/-!
# The device stream coordinator

`deviceStreamCoordinator` gives each virtual device one current API stream.  A stream
claims its device, waits for the handler it displaced, runs its own and ends its lease;
when no stream is left, timers finalize the stream state and then remove the device.

The coordinator is a map by key: its state is one `Slot` per key, and a critical section
is one step on one slot.  Timers may be late: `fire` is the critical section of a timer's
function, which may have waited for the lock while the timer was stopped.
-/

namespace Viiper.Ports.DeviceStream

open Verified.Run

/-- `deviceStreamOwnership`.  `pointer` tells the records of one key apart; a
completion channel is named by the lease which made it, a timer by its place
among the timers of the key. -/
structure Ownership where
  pointer : Nat
  generation : UInt64 := 0
  active : Bool := false
  (conn done finalizeTimer cleanupTimer : Option Nat := none)
  finalized : Bool := false

/-- The record if it is not terminal: `deleteTerminalStateLocked`, for the record in
the map. -/
def Ownership.unlessTerminal (o : Ownership) : Option Ownership :=
  if o.active || o.conn.isSome || o.done.isSome || o.finalizeTimer.isSome ||
    o.cleanupTimer.isSome then some o else none

/-- `deviceStreamLease`. -/
structure Lease where
  generation : UInt64
  previousDone : Option Nat

/-- Where the goroutine of a lease is: in `waitForTurn` before its `select` and
between that and the lock, after it with either answer, in the handler, or
behind it. -/
inductive Place
  | waiting
  | released
  | granted
  | refused
  | running
  | returned
deriving DecidableEq

/-- Which call used up `finishOnce`, and so closed the completion channel. -/
inductive Ending
  | finished
  | abandoned
deriving DecidableEq

/-- The callback of a timer, with the lease whose `finish` armed it;
`scheduleCleanup` arms a cleanup without a lease. -/
inductive Purpose
  | finalize (lease : Nat)
  | cleanup (lease : Option Nat)
deriving DecidableEq

/-- What the function of a timer captured.  No operation reads `claims`, the
number of claims made before the timer was armed. -/
structure Timer where
  purpose : Purpose
  pointer : Nat
  generation : UInt64
  claims : Nat
deriving DecidableEq

/-- A callback which was run: by which timer's function, and after how many
claims. -/
structure Call where
  purpose : Purpose
  timer : Timer
  claims : Nat
deriving DecidableEq

/-- Everything about one key.  `records` counts the records made; `cancelled` is
the state of the device's context.  A timer is `armed` until it fires or is
stopped, and has `ran` once its function had the lock.  `started` and `calls` are
the handlers started and the callbacks run so far, which no operation reads. -/
structure Slot where
  state : Option Ownership := none
  records : Nat := 0
  leases : List Lease := []
  place : Nat → Place := fun _ => .waiting
  ending : Nat → Option Ending := fun _ => none
  timers : List Timer := []
  (armed ran : List Nat := [])
  cancelled : Bool := false
  started : List Nat := []
  calls : List Call := []

/-- What an operation returns to its caller. -/
inductive Answer
  | none
  | lease (lease : Nat) (closes : Option Nat)
  | noLease
  | turn (ok : Bool)

namespace Slot

variable (s : Slot)

/-- `state != nil && state.active`. -/
def active : Bool := (s.state.map (·.active)).getD false

/-- The condition under which a lease is current. -/
def current (l : Nat) (lease : Lease) : Bool :=
  match s.state with
  | none => false
  | some o => o.active && o.generation == lease.generation && o.done == some l

def stop (t : Option Nat) : Slot := { s with armed := s.armed.filter (some · != t) }

def goto (l : Nat) (p : Place) : Slot :=
  { s with
    place := Function.update s.place l p
    started := s.started ++ if p = .running then [l] else [] }

/-- The record of the key, made if there is none. -/
def record : Slot × Ownership :=
  match s.state with
  | some o => (s, o)
  | none =>
    let o : Ownership := { pointer := s.records }
    ({ s with state := some o, records := s.records + 1 }, o)

/-- The rest of a claim, on the record of the key. -/
def claim (o : Ownership) (conn : Option Nat) : Slot :=
  { (s.stop o.cleanupTimer).stop o.finalizeTimer with
    state := some { o with
      generation := o.generation + 1, active := true, conn := conn
      done := some s.leases.length
      finalizeTimer := none, cleanupTimer := none, finalized := false }
    leases := s.leases ++ [⟨o.generation + 1, o.done⟩] }

/-- `claimWithPolicy`; the answer names the connection which is closed. -/
def claimWithPolicy (conn : Option Nat) (replace : Bool) : Slot × Answer :=
  if !replace && s.active then (s, .noLease)
  else (s.record.1.claim s.record.2 conn,
    .lease s.leases.length (if s.record.2.done.isSome then s.record.2.conn else none))

/-- The `select` of `waitForTurn`; `byDone` is the branch it takes. -/
def select (l : Nat) (lease : Lease) (byDone : Bool) : Slot :=
  match lease.previousDone with
  | none => s.goto l .released
  | some p =>
    if byDone then if (s.ending p).isSome then s.goto l .released else s
    else if s.cancelled then s.goto l .refused else s

/-- The rest of `waitForTurn`, under the lock. -/
def checkTurn (l : Nat) (lease : Lease) : Slot × Answer :=
  (s.goto l (if s.current l lease then .granted else .refused), .turn (s.current l lease))

/-- The dispatcher looks at the context and starts the handler. -/
def start (l : Nat) : Slot := s.goto l (if s.cancelled then .refused else .running)

/-- `finishOnce` is used up, and the completion channel closed. -/
def settle (l : Nat) (e : Ending) : Slot :=
  { s with ending := Function.update s.ending l (some e) }

def finishCurrent (l : Nat) (o : Ownership) : Slot :=
  { s.settle l .finished with
    state := some { o with
      active := false, conn := none, done := none
      finalizeTimer := some s.timers.length, cleanupTimer := some (s.timers.length + 1) }
    timers := s.timers ++ [⟨.finalize l, o.pointer, o.generation, s.leases.length⟩] ++
      [⟨.cleanup (some l), o.pointer, o.generation, s.leases.length⟩]
    armed := s.armed ++ [s.timers.length, s.timers.length + 1] }

def abandonCurrent (l : Nat) (o : Ownership) : Slot :=
  { s.settle l .abandoned with
    state := Ownership.unlessTerminal { o with active := false, conn := none, done := none } }

/-- `finish` and `abandon`. -/
def leave (l : Nat) (lease : Lease) (e : Ending) : Slot :=
  if (s.ending l).isSome then s
  else
    match s.state with
    | none => s.settle l e
    | some o =>
      if !s.current l lease then s.settle l e
      else
        match e with
        | .finished => s.finishCurrent l o
        | .abandoned => s.abandonCurrent l o

/-- The rest of `scheduleCleanup`, on the record of the key. -/
def schedule (o : Ownership) : Slot :=
  { s.stop o.cleanupTimer with
    state := some { o with generation := o.generation + 1, cleanupTimer := some s.timers.length }
    timers := s.timers ++ [⟨.cleanup none, o.pointer, o.generation + 1, s.leases.length⟩]
    armed := (s.stop o.cleanupTimer).armed ++ [s.timers.length] }

def scheduleCleanup : Slot :=
  if s.record.2.active then s.record.1 else s.record.1.schedule s.record.2

/-- The end of a timer's function: it runs the callbacks `forced` and then, unless
the context is done, its own. -/
def conclude (x : Timer) (o : Ownership) (forced : List Purpose) : Slot :=
  { s with
    state := o.unlessTerminal
    calls := s.calls ++ (forced ++ if s.cancelled then [] else [x.purpose]).map
      fun p => ⟨p, x, s.leases.length⟩ }

/-- A timer's function for the record which it was armed for. -/
def expire (x : Timer) (o : Ownership) : Slot :=
  match x.purpose with
  | .finalize _ =>
    if o.finalized then s
    else s.conclude x { o with finalizeTimer := none, finalized := true } []
  | .cleanup none => s.conclude x { o with cleanupTimer := none } []
  | .cleanup (some l) =>
    if o.finalized then s.conclude x { o with cleanupTimer := none } []
    -- cleanup forces a finalization which is still pending
    else (s.stop o.finalizeTimer).conclude x
      { o with cleanupTimer := none, finalizeTimer := none, finalized := true } [.finalize l]

def fire (t : Nat) : Slot :=
  match s.timers[t]? with
  | none => s
  | some x =>
    if s.ran.contains t then s
    else
      let s := { s.stop (some t) with ran := s.ran ++ [t] }
      match s.state with
      | none => s
      | some o =>
        if o.pointer != x.pointer || o.active || o.generation != x.generation then s
        else s.expire x o

end Slot

/-- The critical sections, and the steps of the goroutine of a lease. -/
inductive Op
  | claim (conn : Option Nat) (replace : Bool)
  | select (lease : Nat) (byDone : Bool)
  | checkTurn (lease : Nat)
  | start (lease : Nat)
  | handlerReturns (lease : Nat)
  | leave (lease : Nat) (e : Ending)
  | scheduleCleanup
  | fire (timer : Nat)
  | cancel

def Slot.at (s : Slot) (l : Nat) (p : Place) (f : Lease → Slot × Answer) : Slot × Answer :=
  match s.leases[l]? with
  | none => (s, .none)
  | some lease => if s.place l = p then f lease else (s, .none)

/-- A step on one key.  A goroutine which is somewhere else does not take it. -/
def step (s : Slot) : Op → Slot × Answer
  | .claim conn replace => s.claimWithPolicy conn replace
  | .select l byDone => s.at l .waiting fun lease => (s.select l lease byDone, .none)
  | .checkTurn l => s.at l .released fun lease => s.checkTurn l lease
  | .start l => s.at l .granted fun _ => (s.start l, .none)
  | .handlerReturns l => s.at l .running fun _ => (s.goto l .returned, .none)
  | .leave l e => (((s.leases[l]?).map fun lease => s.leave l lease e).getD s, .none)
  | .scheduleCleanup => (s.scheduleCleanup, .none)
  | .fire t => (s.fire t, .none)
  | .cancel => ({ s with cancelled := true }, .none)

/-- The coordinator: one slot per key. -/
def coordinator {Key : Type} [DecidableEq Key] (w : Key → Slot) (op : Key × Op) :
    (Key → Slot) × Answer := each step w op

end Viiper.Ports.DeviceStream
