import Mathlib.Algebra.Ring.Nat
import Mathlib.Data.Vector.Defs

/-!
# The retained USB contract

The values which pass between the retained USB/IP transport and the owner of a device:
`internal/retainedusb`.

Conventions of the port:

* a value of a Go enumeration outside its range is `none`, or a constructor of its own
  where the code tells it from the others;
* `uint64` identities and generations, which are compared and never computed with, are
  natural numbers.  Where one is counted up the code refuses at the maximum;
* a zero `time.Time` is `none`.
-/

namespace Viiper.Ports.Retained

def maxUint64 : Nat := 2 ^ 64 - 1
def maximumQueueDepth : Nat := 64
def maximumBufferedRequestBytes : Nat := 16 * 1024 * 1024

/-- One mutually ordered submission plane. -/
inductive Lane
  | control | interruptIn | interruptOut
  deriving DecidableEq

/-- The lanes in the order of `Lane.Index`. -/
def Lane.all : List Lane := [.control, .interruptIn, .interruptOut]

@[simp] theorem Lane.mem_all (lane : Lane) : lane ∈ Lane.all := by
  cases lane <;> decide

inductive Direction
  | dirOut | dirIn
  deriving DecidableEq

/-- One interface alternate-setting endpoint binding. -/
structure Route where
  (interfaceNumber alternateSetting endpointAddress : UInt8 := 0)
  deriving DecidableEq

namespace Route

def validInterruptIn (route : Route) : Bool :=
  route.endpointAddress &&& 0x80 != 0 && route.endpointAddress &&& 0x0f != 0 &&
    route.endpointAddress &&& 0x70 == 0

def validInterruptOut (route : Route) : Bool :=
  route.endpointAddress &&& 0x80 == 0 && route.endpointAddress &&& 0x0f != 0 &&
    route.endpointAddress &&& 0x70 == 0

end Route

/-- Storage and routing policy, fixed at construction. -/
structure Limits where
  queueDepth : Lane → Nat
  bufferedRequestBytes : Nat
  (maximumControlOut maximumControlResponse maximumInterruptIn maximumInterruptOut : Nat)
  (interruptInRoute interruptOutRoute : Route)

def Limits.valid (limits : Limits) : Bool :=
  Lane.all.all (fun lane =>
    limits.queueDepth lane != 0 && limits.queueDepth lane ≤ maximumQueueDepth) &&
  limits.bufferedRequestBytes ≤ maximumBufferedRequestBytes &&
  limits.maximumControlOut ≤ maximumBufferedRequestBytes &&
  limits.maximumControlResponse ≤ maximumBufferedRequestBytes &&
  limits.maximumInterruptIn != 0 &&
  limits.maximumInterruptIn ≤ maximumBufferedRequestBytes &&
  limits.maximumInterruptOut != 0 &&
  limits.maximumInterruptOut ≤ maximumBufferedRequestBytes &&
  limits.interruptInRoute.validInterruptIn &&
  limits.interruptOutRoute.validInterruptOut &&
  limits.queueDepth .control * limits.maximumControlOut +
    limits.queueDepth .interruptOut * limits.maximumInterruptOut ≤ limits.bufferedRequestBytes

theorem Limits.queueDepth_pos {limits : Limits} (h : limits.valid) (lane : Lane) :
    0 < limits.queueDepth lane := by
  simp only [Limits.valid, Bool.and_eq_true, List.all_eq_true] at h
  obtain ⟨⟨⟨⟨⟨⟨⟨⟨⟨⟨hdepth, -⟩, -⟩, -⟩, -⟩, -⟩, -⟩, -⟩, -⟩, -⟩, -⟩ := h
  have := (hdepth lane (Lane.mem_all lane)).1
  simp only [bne_iff_ne, ne_eq] at this
  omega

/-- The staging view of one host submission. -/
structure Request where
  lane : Option Lane
  direction : Option Direction
  (sessionGeneration bindingGeneration ingressOrdinal : Nat)
  sequence : UInt32
  transferLength : Nat
  setup : Vector UInt8 8
  route : Route
  data : List UInt8
  deriving DecidableEq

/-- An owner-authenticated, lane- and session-bound staged request. -/
structure Ticket where
  (ownerID token generation sessionGeneration : Nat := 0)
  lane : Option Lane := none
  deriving DecidableEq

def Ticket.valid (ticket : Ticket) : Bool :=
  ticket.ownerID != 0 && ticket.token != 0 && ticket.generation != 0 &&
    ticket.sessionGeneration != 0 && ticket.lane.isSome

theorem Ticket.ne_zero {ticket : Ticket} (h : ticket.valid) : ticket ≠ {} := by
  rintro rfl
  exact absurd h (by decide)

/-- The response kind selected by the owner; `invalid` is every undefined value. -/
inductive Result
  | pending | data | success | stall | invalid
  deriving DecidableEq

structure Preparation where
  result : Result
  actualLength : Nat := 0
  retryAt : Option Int := none
  readinessEpoch : Nat := 0

inductive RetireReason
  | unlink | endpointReset | interfaceReset | configurationChange | deviceReset | connectionClose
  | prepareFailure | invariantFailure | ownerRequested
  deriving DecidableEq

/-- The outer capability for one retained import. -/
structure ImportLease where
  (authorityID deviceID ownerID importToken sessionGeneration : Nat := 0)
  deriving DecidableEq

def ImportLease.valid (lease : ImportLease) : Bool :=
  lease.authorityID != 0 && lease.deviceID != 0 && lease.ownerID != 0 &&
    lease.importToken != 0 && lease.sessionGeneration != 0

/-- The capability for one reversible reset of a claimed import. -/
structure ImportResetLease where
  importLease : ImportLease := {}
  (resetToken resetGeneration : Nat := 0)
  deriving DecidableEq

def ImportResetLease.valid (lease : ImportResetLease) : Bool :=
  lease.importLease.valid && lease.resetToken != 0 && lease.resetGeneration != 0

inductive ImportRetirementReason
  | inputHistoryOverflow
  deriving DecidableEq

/-- A request of the owner to end the import. -/
structure ImportRetirementRequest where
  lease : ImportLease := {}
  reason : Option ImportRetirementReason := none
  deriving DecidableEq

def ImportRetirementRequest.valid (request : ImportRetirementRequest) : Bool :=
  request.lease.valid && request.reason.isSome

end Viiper.Ports.Retained
