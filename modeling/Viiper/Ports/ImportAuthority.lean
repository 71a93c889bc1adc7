import Viiper.Ports.ImportStages

/-!
# The retained import authority

The table of active sessions, the counters of the capabilities it issues, and
the goroutines which call it.  `Authority.step` interleaves their steps; a run
is a list of operations.
-/

namespace Viiper.Ports.ImportSession

open Function

open Retained (ImportLease ImportResetLease)

/-! ## The authority -/

/-- `retainedImportAuthority`, with every session it has issued and every
goroutine which calls it.  The key of a session is the order in which it was
issued. -/
structure Authority where
  identity : Nat
  active : Nat → Option Nat := fun _ => none
  (nextImportToken nextSessionGeneration : Nat)
  nextResetToken : Nat := 0
  sessions : Nat → Option Session := fun _ => none
  issued : Nat := 0
  calls : Nat → Pc := fun _ => .idle

/-- `^uint64(0)`. -/
def lastCounter : Nat := 2 ^ 64 - 1

def newRetainedImportAuthority (identity lastImportToken lastSessionGeneration : UInt64) :
    Except Errors Authority :=
  if identity = 0 then .error [.invalid]
  else .ok { identity := identity.toNat, nextImportToken := lastImportToken.toNat,
             nextSessionGeneration := lastSessionGeneration.toNat }

namespace Authority

def claimAvailability (a : Authority) (deviceID : Nat) : Errors :=
  match (a.active deviceID).bind a.sessions with
  | some current => if current.quarantined then [.quarantined] else [.busy]
  | none =>
    if a.nextImportToken = lastCounter ∨ a.nextSessionGeneration = lastCounter then
      [.counterExhausted]
    else []

/-- Goroutine `c` stands at `pc`. -/
def moveTo (a : Authority) (c : Nat) (pc : Pc) : Authority :=
  { a with calls := update a.calls c pc }

/-- `reserve` up to its first lock section. -/
def beginReserve (a : Authority) (w : World) (deviceID : Nat) : Option Nat → Pc
  | none => .done (.reserve deviceID none [.invalid])
  | some owner =>
    if deviceID = 0 ∨ !w.live then .done (.reserve deviceID none [.invalid])
    else if a.claimAvailability deviceID = [] then .identity deviceID owner
    else .done (.reserve deviceID none (a.claimAvailability deviceID))

/-- Where `reserve` goes with the sampled identity. -/
def afterIdentity (deviceID owner : Nat) (answer : Answer Nat) : Pc :=
  let answered := invokeRetainedImportStep "owner identity" 0 answer
  if answered.2 = [] ∧ answered.1 ≠ 0 then .observe deviceID owner answered.1
  else
    .done (.reserve deviceID none
      (lifecycleError "owner identity" (Errors.orElse answered.2 [.invalid])))

/-- The capability issued next. -/
def nextLease (a : Authority) (deviceID ownerID : Nat) : ImportLease :=
  { authorityID := a.identity, deviceID, ownerID, importToken := a.nextImportToken + 1,
    sessionGeneration := a.nextSessionGeneration + 1 }

/-- The section of `reserve` which issues the capability. -/
def claim (a : Authority) (c deviceID owner ownerID : Nat) : Authority :=
  if a.claimAvailability deviceID = [] then
    { a with
      active := update a.active deviceID (some a.issued)
      nextImportToken := a.nextImportToken + 1
      nextSessionGeneration := a.nextSessionGeneration + 1
      sessions := update a.sessions a.issued
        (some { lease := a.nextLease deviceID ownerID, ownerReference := owner })
      issued := a.issued + 1
      calls := update a.calls c (.done (.reserve deviceID (some a.issued) [])) }
  else a.moveTo c (.done (.reserve deviceID none (a.claimAvailability deviceID)))

def isActive (a : Authority) (i : Nat) (s : Session) : Bool :=
  a.active s.lease.deviceID == some i

def apply (a : Authority) (c i : Nat) (s : Session) (e : Effect) : Authority × Note :=
  ({ a with
      active := if e.frees then update a.active s.lease.deviceID none else a.active
      sessions := update a.sessions i (some e.session)
      calls := update a.calls c e.pc }, e.note)

/-- `issueReset` is refused. -/
def resetBlocked (a : Authority) (i : Nat) (s : Session) : Bool :=
  !a.isActive i s || s.state != .claimed || s.closeStarted || s.quarantined ||
    s.released || s.issuedReset.valid || s.activeReset.valid

def issueReset (a : Authority) (w : World) (c i : Nat) (s : Session)
    (lease : ImportLease) : Authority :=
  if !s.authenticates a.identity lease ∨ !w.live then
    a.moveTo c (.done (.issueReset i {} [.resetRejected]))
  else if a.nextResetToken = lastCounter ∨ s.nextResetGeneration = lastCounter then
    a.moveTo c (.done (.issueReset i {} [.counterExhausted]))
  else if a.resetBlocked i s then a.moveTo c (.done (.issueReset i {} [.resetRejected]))
  else
    let reset : ImportResetLease :=
      ⟨lease, a.nextResetToken + 1, s.nextResetGeneration + 1⟩
    { a with
      nextResetToken := a.nextResetToken + 1
      sessions := update a.sessions i
        (some { s with nextResetGeneration := s.nextResetGeneration + 1,
                       issuedReset := reset })
      calls := update a.calls c (.done (.issueReset i reset [])) }

def visit (a : Authority) (w : World) (c i : Nat) (s : Session) : Pc → Authority × Note
  | .entry (.issueReset _ lease) => (a.issueReset w c i s lease, .quiet)
  | .entry m => a.apply c i s (m.enter a.identity w (a.isActive i s) i s)
  | .visit _ v => a.apply c i s (v.step w (a.isActive i s) i s)
  | .drive _ d => a.apply c i s (d.step w (a.isActive i s) i s)
  | _ => (a, .quiet)

/-- One step of goroutine `c`. -/
def advance (a : Authority) (c : Nat) (w : World) : Authority × Note :=
  match a.calls c with
  | .idle => (a, .quiet)
  | .done r => (a.moveTo c .idle, .returned c r)
  | .entry (.reserve deviceID owner) => (a.moveTo c (a.beginReserve w deviceID owner), .quiet)
  | .identity deviceID owner =>
    (a.moveTo c (afterIdentity deviceID owner w.identity), .ownerIdentity w.identity)
  | .observe deviceID owner ownerID =>
    (a.moveTo c (if w.observer = [] then .claim deviceID owner ownerID
      else .done (.reserve deviceID none w.observer)), .quiet)
  | .claim deviceID owner ownerID => (a.claim c deviceID owner ownerID, .quiet)
  | .entry m =>
    match m.session.bind fun i => (a.sessions i).map fun s => (i, s) with
    | some (i, s) => a.visit w c i s (.entry m)
    | none => (a.moveTo c (.done m.foreign), .quiet)
  | .visit i v =>
    match a.sessions i with
    | some s => a.visit w c i s (.visit i v)
    | none => (a, .quiet)
  | .drive i d =>
    match a.sessions i with
    | some s => a.visit w c i s (.drive i d)
    | none => (a, .quiet)

/-- A store into the admission of a reservation. -/
def setAdmission (a : Authority) (i : Nat) (admissionOpen : Bool) (activation : Activation) :
    Authority :=
  { a with
    sessions := update a.sessions i
      ((a.sessions i).map fun s => { s with admissionOpen, activation }) }

inductive Op
  /-- an idle goroutine calls a method -/
  | call (c : Nat) (m : Method)
  /-- a goroutine takes its next step -/
  | advance (c : Nat) (w : World)
  /-- the scheduler stores into the admission of a reservation -/
  | store (i : Nat) (admissionOpen : Bool) (activation : Activation)

/-- One step of the system. -/
def step (a : Authority) : Op → Authority × Note
  | .call c m =>
    if a.calls c = .idle then (a.moveTo c (.entry m), .quiet) else (a, .quiet)
  | .advance c w => a.advance c w
  | .store i admissionOpen activation =>
    (a.setAdmission i admissionOpen activation, .quiet)

end Authority

end Viiper.Ports.ImportSession
