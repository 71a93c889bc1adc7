import Mathlib.Algebra.Ring.Nat
import Viiper.Verified.Run
import Viiper.Verified.Tenure
import Mathlib.Data.List.Nodup

/-!
# The virtual bus

`virtualbus.VirtualBus` gives devices addresses on a USB bus.  An `Add` makes a new
incarnation of a device, with a token of its own; a removal marks the incarnation under the
lock of the bus, waits without it until no operation holds a lease, and then takes it out
and cancels its context.

Every critical section is one step.  The locks of a lifecycle are taken in the step of the
critical section which follows them: until then only a goroutine which they keep out could
tell the difference.
-/

namespace Viiper.Ports.VirtualBus

/-- `usbip.ExportMeta`; the names are kept as texts. -/
structure ExportMeta where
  (path usbBusID : String)
  (busID devID : Nat)
deriving DecidableEq

/-- `DeviceMeta`.  A context is named by the lifecycle made by the same Add.
`ours` tells whether `Bus` is this bus; `safe` is the answer of
`registrationSnapshotDeviceIdentitySafe`, which compares dynamic types. -/
structure DeviceMeta (δ : Type) where
  dev : Option δ
  exportMeta : ExportMeta
  ours : Bool
  context : Option Nat
  registrationToken : Nat
  lifecycle : Option Nat
  safe : Bool
deriving DecidableEq

/-- `registrationLifecycle`.  `cancelled` is the state of its context. -/
structure RegistrationLifecycle (δ : Type) where
  dev : δ
  exportMeta : ExportMeta
  token : Nat
  active : Bool := true
  (removing removalDone cancelled : Bool := false)

/-- `busDevice`; `lifecycle` is the place of its lifecycle among all of them. -/
structure BusDevice (δ : Type) where
  dev : δ
  exportMeta : ExportMeta
  (registrationToken lifecycle : Nat)
  published : Bool

/-- `VirtualBus`, with the lifecycles of all its incarnations. -/
structure Bus (δ : Type) where
  busID : Nat
  nextRegistrationToken : Nat := 0
  allocatedDevIDs : List Nat := []
  devices : List (BusDevice δ) := []
  lifecycles : List (RegistrationLifecycle δ) := []
  emptyCtx : Option Nat := none
  /-- How many empty-bus contexts were made. -/
  emptyContexts : Nat := 0
  (closed closeDone : Bool := false)

inductive Error where
  | invalidDevice
  | emptyAddressRange
  | busClosed (busID : Nat)
  | tokenExhausted (busID : Nat)
  | deviceRegistered
  | aliasRegistered
  | noAddress (busID maxDeviceID : Nat)
  | invalidRegistration
  | invalidRegistrationIdentity
  | deviceNotFound (deviceID : String) (busID : Nat)
  | invalidEmptyContext
deriving DecidableEq

def maxUint64 : Nat := 2 ^ 64 - 1

def basepath : String := "/sys/devices/pci0000:00/0000:00:08.1/0000:00:04:00.3/usb"

namespace Bus

variable {δ : Type} [DecidableEq δ] (vb : Bus δ)

/-! ## Registrations -/

def nextAvailableDeviceIDLocked (maxDeviceID : Nat) : Option Nat :=
  (List.range' 1 maxDeviceID).find? fun deviceID => decide (deviceID ∉ vb.allocatedDevIDs)

def deviceMetaLocked (device : BusDevice δ) : DeviceMeta δ where
  dev := some device.dev
  exportMeta := device.exportMeta
  ours := true
  context := some device.lifecycle
  registrationToken := device.registrationToken
  lifecycle := some device.lifecycle
  safe := true

/-- The registration which an Add at `devID` makes. -/
def newRegistration (dev : δ) (published : Bool) (exportBusID : Option String)
    (devID : Nat) : BusDevice δ :=
  let busDevID := exportBusID.getD s!"{vb.busID}-{devID}"
  { dev := dev
    exportMeta :=
      { path := s!"{basepath}{vb.busID}/{busDevID}"
        usbBusID := busDevID
        busID := vb.busID
        devID := devID }
    registrationToken := vb.nextRegistrationToken + 1
    lifecycle := vb.lifecycles.length
    published := published }

/-- `addRegistration`.  `dev` is `none` for a device without an identity to
compare, `exportBusID` for the empty text. -/
def addRegistration (dev : Option δ) (published : Bool) (maxDeviceID : Nat)
    (exportBusID : Option String) : Bus δ × Except Error (DeviceMeta δ) :=
  match dev with
  | none => (vb, .error .invalidDevice)
  | some dev =>
  if maxDeviceID = 0 then (vb, .error .emptyAddressRange)
  else if vb.closed then (vb, .error (.busClosed vb.busID))
  else if vb.nextRegistrationToken = maxUint64 then (vb, .error (.tokenExhausted vb.busID))
  else if let some d := vb.devices.find? fun d =>
      d.dev = dev || some d.exportMeta.usbBusID = exportBusID then
    (vb, .error (if d.dev = dev then .deviceRegistered else .aliasRegistered))
  else
    match vb.nextAvailableDeviceIDLocked maxDeviceID with
    | none => (vb, .error (.noAddress vb.busID maxDeviceID))
    | some devID =>
      let device := vb.newRegistration dev published exportBusID devID
      ({ vb with
          allocatedDevIDs := devID :: vb.allocatedDevIDs
          nextRegistrationToken := vb.nextRegistrationToken + 1
          emptyCtx := none
          devices := vb.devices ++ [device]
          lifecycles := vb.lifecycles ++
            [{ dev := dev, exportMeta := device.exportMeta
               token := vb.nextRegistrationToken + 1 }] },
        .ok (deviceMetaLocked device))

def removingLocked (device : BusDevice δ) : Bool :=
  (vb.lifecycles[device.lifecycle]?).any (·.removing)

def registrationActiveLocked (device : BusDevice δ) : Bool :=
  (vb.lifecycles[device.lifecycle]?).any fun l => l.active && !l.removing

def deviceDiscoverableLocked (device : BusDevice δ) : Bool :=
  device.published && vb.registrationActiveLocked device

/-- `registrationIdentityMatchesLocked`; the lifecycle of another bus is not
among those of this one. -/
def registrationIdentityMatchesLocked (snapshot : DeviceMeta δ) : Bool :=
  (snapshot.lifecycle.bind (vb.lifecycles[·]?)).any fun l =>
    some l.dev = snapshot.dev && l.exportMeta = snapshot.exportMeta &&
      snapshot.lifecycle = snapshot.context && l.token = snapshot.registrationToken

def authenticatesRegistrationLocked (snapshot : DeviceMeta δ) : Bool :=
  vb.registrationIdentityMatchesLocked snapshot &&
    (snapshot.lifecycle.bind (vb.lifecycles[·]?)).any fun l => l.active && !l.removing

/-- The fields of a snapshot which the calls look at before they take the lock. -/
def wellFormed (snapshot : DeviceMeta δ) : Bool :=
  snapshot.ours && snapshot.dev.isSome && snapshot.registrationToken != 0

def authenticatesRegistration (snapshot : DeviceMeta δ) : Bool :=
  wellFormed snapshot && snapshot.context.isSome && snapshot.safe && !vb.closed &&
    vb.authenticatesRegistrationLocked snapshot

def publishRegistration (snapshot : DeviceMeta δ) : Bus δ × Except Error Bool :=
  if !wellFormed snapshot ∨ snapshot.context = none then (vb, .error .invalidRegistration)
  else if !snapshot.safe then (vb, .error .invalidRegistrationIdentity)
  else if vb.closed then (vb, .ok false)
  else if vb.authenticatesRegistrationLocked snapshot ∧
      vb.devices.any fun d => some d.lifecycle = snapshot.lifecycle then
    ({ vb with
        devices := vb.devices.map fun d =>
          if some d.lifecycle = snapshot.lifecycle then { d with published := true } else d },
      .ok true)
  else (vb, .ok false)

/-! ## Discovery -/

def getAllDeviceMetas : List (DeviceMeta δ) :=
  (vb.devices.filter vb.deviceDiscoverableLocked).map deviceMetaLocked

/-- `GetDeviceByID`, `GetDeviceImportSnapshot` and `GetDeviceContext` return the first
discoverable device which they look for. -/
def discover (wanted : BusDevice δ → Bool) : Option (BusDevice δ) :=
  vb.devices.find? fun d => vb.deviceDiscoverableLocked d && wanted d

def getDeviceByID (deviceID : Nat) : Option δ :=
  (vb.discover fun d => d.exportMeta.devID = deviceID).map (·.dev)

def getDeviceImportSnapshot (deviceID : Nat) : Option (DeviceMeta δ) :=
  (vb.discover fun d => d.exportMeta.devID = deviceID).map deviceMetaLocked

def getDeviceContext (dev : δ) : Option Nat :=
  (vb.discover fun d => d.dev = dev).map (·.lifecycle)

def getBusEmptyContext : Bus δ × Option Nat :=
  if vb.closed ∨ vb.devices ≠ [] then (vb, none)
  else
    match vb.emptyCtx with
    | some ctx => (vb, some ctx)
    | none =>
      ({ vb with emptyCtx := some vb.emptyContexts, emptyContexts := vb.emptyContexts + 1 },
        some vb.emptyContexts)

/-! ## Removal -/

/-- `markRegistrationRemovalLocked`, for some lifecycles at once. -/
def markRegistrationRemovalLocked (marked : List Nat) : Bus δ :=
  { vb with
    lifecycles := vb.lifecycles.mapIdx fun i l =>
      if i ∈ marked then { l with removing := true } else l }

/-- The critical section of `finishMarkedRegistrationRemoval`. -/
def finishMarkedRegistrationRemoval (lifecycle : Nat) : Bus δ :=
  match vb.devices.find? fun d => d.lifecycle = lifecycle with
  | none => vb
  | some device =>
    { vb with
      allocatedDevIDs := vb.allocatedDevIDs.filter (· ≠ device.exportMeta.devID)
      devices := vb.devices.filter fun d => d.lifecycle ≠ lifecycle
      lifecycles := vb.lifecycles.mapIdx fun i l =>
        if i = lifecycle then { l with active := false, cancelled := true } else l }

/-- `close(lifecycle.removalDone)`. -/
def closeRemovalDone (lifecycle : Nat) : Bus δ :=
  { vb with
    lifecycles := vb.lifecycles.mapIdx fun i l =>
      if i = lifecycle then { l with removalDone := true } else l }

/-- Whether `removalDone` of the lifecycle is closed. -/
def removalDone (lifecycle : Nat) : Bool := (vb.lifecycles[lifecycle]?).any (·.removalDone)

end Bus

/-! ## Goroutines -/

/-- `markedRegistrationRemoval`. -/
structure Marked (δ : Type) where
  snapshot : DeviceMeta δ
  lifecycle : Nat
deriving DecidableEq

/-- What a removal reports: the snapshot it removed, or that it removed one. -/
inductive Remover where
  | byID
  | present
deriving DecidableEq

/-- What a goroutine does with the incarnations it has marked. -/
inductive After (δ : Type) where
  | removal (k : Remover) (marked : Marked δ)
  | close (marked : List (Marked δ)) (waiting : List Nat)
deriving DecidableEq

/-- Where a goroutine stands in a call: `finishing` inside
`finishMarkedRegistrationRemoval` of the head of `todo`, past its critical
section if `removed`; `joining` and `draining` at `<-done`; `releasing` and
`signalling` at the end of a close, with what it took. -/
inductive Pc (δ : Type) where
  | idle
  | finishing (removed : Bool) (todo : List (Marked δ)) (k : After δ)
  | joining (k : Remover) (marked : Marked δ)
  | draining (waiting : List Nat) (marked : List (Marked δ))
  | releasing (taken : Option (List (Marked δ)))
  | signalling (taken : Option (List (Marked δ)))
  | joiningClose
  | acquiring (snapshot : DeviceMeta δ)
deriving DecidableEq

/-- A bus with the goroutines which call it, the leases they hold, and the table
of bus numbers. -/
structure World (δ : Type) where
  bus : Bus δ
  calls : Nat → Pc δ
  (leases allocatedBusIds : List Nat)

/-- The calls which take more than one step. -/
inductive Call (δ : Type) where
  | removeByID (deviceID : String)
  | removeIfPresent (dev : Option δ)
  | removeRegistration (snapshot : DeviceMeta δ)
  | closeIfEmpty (expected : Option Nat)
  | closeAndTake
  | acquire (snapshot : DeviceMeta δ)

inductive Op (δ : Type) where
  | add (dev : Option δ) (published : Bool) (maxDeviceID : Nat) (exportBusID : Option String)
  | publish (snapshot : DeviceMeta δ)
  | getBusEmptyContext
  | call (g : Nat) (c : Call δ)
  | run (g : Nat)
  /-- `Release` of a lease on the lifecycle. -/
  | release (lifecycle : Nat)
  /-- `New` or `NewWithBusID` of another bus. -/
  | newBus (busID : Nat)

/-- What a step returns; `stays` when the goroutine has to wait, `goes` when its
call is not over. -/
inductive Answer (δ : Type) where
  | stays
  | goes
  | added (r : Except Error (DeviceMeta δ))
  | published (r : Except Error Bool)
  | emptyContext (ctx : Option Nat)
  | snapshot (r : Except Error (DeviceMeta δ))
  | removed (r : Except Error Bool)
  | closedEmpty (r : Except Error Bool)
  /-- `CloseAndTakeRegistrations`; `none` is its nil slice. -/
  | taken (r : Option (List (DeviceMeta δ)))
  | lease (lifecycle : Option Nat)
  /-- The bus number was deleted from the table. -/
  | released
  | done
deriving DecidableEq

namespace World

variable {δ : Type} [DecidableEq δ] (w : World δ)

/-- The goroutine moves to `pc`, and the bus becomes `vb`. -/
def goto (g : Nat) (pc : Pc δ) (vb : Bus δ := w.bus) : World δ :=
  { w with bus := vb, calls := Function.update w.calls g pc }

/-- A removal joins the removal of the device, or marks it. -/
def removeSelected (g : Nat) (k : Remover) (device : BusDevice δ) : World δ × Answer δ :=
  let marked : Marked δ := ⟨Bus.deviceMetaLocked device, device.lifecycle⟩
  if w.bus.removingLocked device then (w.goto g (.joining k marked), .goes)
  else
    (w.goto g (.finishing false [marked] (.removal k marked))
      (w.bus.markRegistrationRemovalLocked [device.lifecycle]), .goes)

/-- The loop of a removal skips what is neither marked nor active. -/
def selectable (device : BusDevice δ) : Bool :=
  w.bus.removingLocked device || w.bus.registrationActiveLocked device

/-- `RemoveDeviceRegistrationByIDSnapshot`, up to its wait. -/
def removeByID (g : Nat) (deviceID : String) : World δ × Answer δ :=
  match w.bus.devices.find? fun d =>
      d.published && toString d.exportMeta.devID = deviceID && w.selectable d with
  | none => (w, .snapshot (.error (.deviceNotFound deviceID w.bus.busID)))
  | some device => w.removeSelected g .byID device

/-- `RemoveIfPresent`, up to its wait. -/
def removeIfPresent (g : Nat) (dev : Option δ) : World δ × Answer δ :=
  match dev with
  | none => (w, .removed (.error .invalidDevice))
  | some dev =>
    match w.bus.devices.find? fun d => d.dev = dev && w.selectable d with
    | none => (w, .removed (.ok false))
    | some device => w.removeSelected g .present device

/-- `RemoveRegistrationIfPresent`, up to its wait. -/
def removeRegistration (g : Nat) (snapshot : DeviceMeta δ) : World δ × Answer δ :=
  if !Bus.wellFormed snapshot ∨ snapshot.lifecycle = none then
    (w, .removed (.error .invalidRegistration))
  else if !snapshot.safe then (w, .removed (.error .invalidRegistrationIdentity))
  else if !w.bus.registrationIdentityMatchesLocked snapshot then (w, .removed (.ok false))
  else
    match snapshot.lifecycle with
    | none => (w, .removed (.ok false))
    | some lifecycle =>
      if !w.bus.authenticatesRegistrationLocked snapshot then
        (w.goto g (.joining .present ⟨snapshot, lifecycle⟩), .goes)
      else
        match w.bus.devices.find? fun d => d.lifecycle = lifecycle with
        | none => (w, .removed (.ok false))
        | some device => w.removeSelected g .present device

/-- `CloseIfEmptyContext`, up to the deletion of the bus number. -/
def closeIfEmpty (g : Nat) (expected : Option Nat) : World δ × Answer δ :=
  if expected = none then (w, .closedEmpty (.error .invalidEmptyContext))
  else if w.bus.closed ∨ w.bus.devices ≠ [] ∨ w.bus.emptyCtx ≠ expected then
    (w, .closedEmpty (.ok false))
  else (w.goto g (.releasing none) { w.bus with closed := true, emptyCtx := none }, .goes)

/-- `CloseAndTakeRegistrations`, up to its first wait. -/
def closeAndTake (g : Nat) : World δ × Answer δ :=
  if w.bus.closed then (w.goto g .joiningClose, .goes)
  else
    let free := w.bus.devices.filter fun d => !w.bus.removingLocked d
    let marked := free.map fun d => (⟨Bus.deviceMetaLocked d, d.lifecycle⟩ : Marked δ)
    let waiting := (w.bus.devices.filter w.bus.removingLocked).map (·.lifecycle)
    (w.goto g (.finishing false marked (.close marked waiting))
      { w.bus.markRegistrationRemovalLocked (marked.map (·.lifecycle)) with
        closed := true, emptyCtx := none }, .goes)

/-- `AcquireRegistrationOperation`, up to its read lock. -/
def acquire (g : Nat) (snapshot : DeviceMeta δ) : World δ × Answer δ :=
  if w.bus.authenticatesRegistration snapshot ∧ snapshot.lifecycle.isSome then
    (w.goto g (.acquiring snapshot), .goes)
  else (w, .lease none)

/-- A goroutine which makes no call starts one. -/
def start (g : Nat) : Call δ → World δ × Answer δ
  | .removeByID deviceID => w.removeByID g deviceID
  | .removeIfPresent dev => w.removeIfPresent g dev
  | .removeRegistration snapshot => w.removeRegistration g snapshot
  | .closeIfEmpty expected => w.closeIfEmpty g expected
  | .closeAndTake => w.closeAndTake g
  | .acquire snapshot => w.acquire g snapshot

/-- A goroutine goes on with its call. -/
def resume (g : Nat) : World δ × Answer δ :=
  match w.calls g with
  | .idle => (w, .stays)
  | .finishing false (m :: todo) k =>
    -- the write lock waits for the leases
    if m.lifecycle ∈ w.leases then (w, .stays)
    else
      (w.goto g (.finishing true (m :: todo) k)
        (w.bus.finishMarkedRegistrationRemoval m.lifecycle), .goes)
  | .finishing true (m :: todo) k =>
    (w.goto g (.finishing false todo k) (w.bus.closeRemovalDone m.lifecycle), .goes)
  | .finishing _ [] (.removal .byID m) => (w.goto g .idle, .snapshot (.ok m.snapshot))
  | .finishing _ [] (.removal .present _) => (w.goto g .idle, .removed (.ok true))
  | .finishing _ [] (.close marked waiting) => (w.goto g (.draining waiting marked), .goes)
  | .joining k m =>
    if !w.bus.removalDone m.lifecycle then (w, .stays)
    else
      match k with
      | .byID => (w.goto g .idle, .snapshot (.ok m.snapshot))
      | .present => (w.goto g .idle, .removed (.ok false))
  | .draining (l :: waiting) marked =>
    if w.bus.removalDone l then (w.goto g (.draining waiting marked), .goes)
    else (w, .stays)
  | .draining [] marked =>
    (w.goto g (.releasing (some marked)) { w.bus with allocatedDevIDs := [] }, .goes)
  | .releasing taken =>
    ({ w.goto g (.signalling taken) with
        allocatedBusIds := w.allocatedBusIds.filter (· ≠ w.bus.busID) }, .released)
  | .signalling taken =>
    (w.goto g .idle { w.bus with closeDone := true },
      match taken with
      | none => .closedEmpty (.ok true)
      | some marked => .taken (some (marked.map (·.snapshot))))
  | .joiningClose => if w.bus.closeDone then (w.goto g .idle, .taken none) else (w, .stays)
  | .acquiring snapshot =>
    match snapshot.lifecycle with
    | none => (w.goto g .idle, .lease none)
    | some l =>
      if !w.bus.closed ∧ w.bus.authenticatesRegistrationLocked snapshot then
        ({ w.goto g .idle with leases := l :: w.leases }, .lease (some l))
      else (w.goto g .idle, .lease none)

def step (op : Op δ) : World δ × Answer δ :=
  match op with
  | .add dev published maxDeviceID exportBusID =>
    let r := w.bus.addRegistration dev published maxDeviceID exportBusID
    ({ w with bus := r.1 }, .added r.2)
  | .publish snapshot =>
    let r := w.bus.publishRegistration snapshot
    ({ w with bus := r.1 }, .published r.2)
  | .getBusEmptyContext =>
    let r := w.bus.getBusEmptyContext
    ({ w with bus := r.1 }, .emptyContext r.2)
  | .call g c => if w.calls g = .idle then w.start g c else (w, .stays)
  | .run g => w.resume g
  | .release lifecycle => ({ w with leases := w.leases.erase lifecycle }, .done)
  | .newBus busID => ({ w with allocatedBusIds := busID :: w.allocatedBusIds }, .done)

end World

/-- A new bus, which nobody calls yet. -/
def newWorld (δ : Type) (busID : Nat) : World δ where
  bus := { busID := busID }
  calls := fun _ => .idle
  leases := []
  allocatedBusIds := [busID]

end Viiper.Ports.VirtualBus
