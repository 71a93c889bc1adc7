import Viiper.Ports.VirtualBusLedger

/-!
# Removals from the bus

A removal belongs to the call which marked the incarnation: until that call
returns, it is the only one which owns it, and it stands at the stage which the
flags of the lifecycle tell.  `step_move` is the one inversion of a step;
`Inv` relates the history of a run to its state.
-/

namespace Viiper.Ports.VirtualBus

open Verified Function List World

variable {δ : Type} {w w' : World δ} {d : BusDevice δ} {i g : Nat}

/-! ## What a goroutine owns -/

/-- How far the removal of an incarnation has got. -/
inductive Stage where
  | marked | removed | finished

def After.owns : After δ → List (Marked δ)
  | .removal _ m => [m]
  | .close marked _ => marked

def After.waiting : After δ → Option (List Nat)
  | .removal _ _ => none
  | .close _ waiting => some waiting

variable {vb : Bus δ} {pc : Pc δ}

namespace Pc

/-- The incarnations the call has marked and not yet returned. -/
def owns : Pc δ → List (Marked δ)
  | .finishing _ _ k => k.owns
  | .draining _ marked => marked
  | .releasing taken => taken.getD []
  | .signalling taken => taken.getD []
  | _ => []

/-- The incarnations whose snapshots the call may return. -/
def cites : Pc δ → List (Marked δ)
  | .joining .byID m => [m]
  | pc => pc.owns

/-- Those whose removal is still under way. -/
def todo : Pc δ → List (Marked δ)
  | .finishing _ todo _ => todo
  | _ => []

/-- The first of them is out of the bus. -/
def passed : Pc δ → Bool
  | .finishing removed _ _ => removed
  | _ => false

/-- The stage of the incarnation at `i` when `todo` is still to be removed, and
the first of them is out of the bus if `removed`. -/
def stage (owns : List (Marked δ)) (i : Nat) (removed : Bool) : List (Marked δ) → Option Stage
  | [] => if i ∈ owns.map (·.lifecycle) then some .finished else none
  | m :: todo =>
    if i = m.lifecycle then some (if removed then .removed else .marked)
    else stage owns i false todo

/-- The stage of the incarnation in the hands of the call. -/
def drives (pc : Pc δ) (i : Nat) : Option Stage := stage pc.owns i pc.passed pc.todo

/-- What a close still waits for. -/
def waits : Pc δ → Option (List Nat)
  | .finishing _ todo k => k.waiting.map (todo.map (·.lifecycle) ++ ·)
  | .draining waiting _ => some waiting
  | _ => none

/-- The call closes the bus; the value tells whether it has deleted the bus
number. -/
def closing (pc : Pc δ) (_ : Unit) : Option Bool :=
  match pc with
  | .finishing _ _ k => k.waiting.map fun _ => false
  | .draining _ _ | .releasing _ => some false
  | .signalling _ => some true
  | _ => none

/-- The first incarnation of a call which finishes its removals. -/
theorem drives_first {r : Bool} {m : Marked δ} {todo : List (Marked δ)} {k : After δ}
    (h : pc = .finishing r (m :: todo) k) :
    pc.drives m.lifecycle = some (if r then .removed else .marked) := by
  rw [h]
  exact if_pos rfl

theorem stage_false (owns : List (Marked δ)) (i : Nat) (todo : List (Marked δ)) :
    stage owns i false todo =
      if i ∈ todo.map (·.lifecycle) then some .marked
      else if i ∈ owns.map (·.lifecycle) then some .finished else none := by
  induction todo with
  | nil => rfl
  | cons m todo ih =>
    by_cases hi : i = m.lifecycle
    · simp [stage, hi]
    · simp [stage, hi, ih]

end Pc

/-- The snapshot of the incarnation at `place`. -/
def metaOf (place : Nat) (l : RegistrationLifecycle δ) : DeviceMeta δ where
  dev := some l.dev
  exportMeta := l.exportMeta
  ours := true
  context := some place
  registrationToken := l.token
  lifecycle := some place
  safe := true

/-- The snapshot was made by this bus for the incarnation at `place`. -/
def Bus.Minted (vb : Bus δ) (a : DeviceMeta δ) (place : Nat) : Prop :=
  ∃ l, vb.lifecycles[place]? = some l ∧ a = metaOf place l

theorem Bus.Ledger.minted (h : vb.Ledger)
    (hd : d ∈ vb.devices) : vb.Minted (Bus.deviceMetaLocked d) d.lifecycle := by
  obtain ⟨l, hl, hb⟩ := h.backed d hd
  exact ⟨l, hl, by rw [metaOf, Bus.deviceMetaLocked, hb.dev, hb.exportMeta, hb.token]⟩

/-- Lifecycles are added, and their flags change. -/
def Bus.Grows (vb vb' : Bus δ) : Prop :=
  ∀ (i : Nat) (l : RegistrationLifecycle δ), vb.lifecycles[i]? = some l →
    ∃ l', vb'.lifecycles[i]? = some l' ∧ metaOf i l' = metaOf i l

theorem Bus.Minted.grows {vb' : Bus δ} (hg : vb.Grows vb') {a : DeviceMeta δ} {place : Nat}
    (h : vb.Minted a place) : vb'.Minted a place := by
  obtain ⟨l, hl, rfl⟩ := h
  obtain ⟨l', hl', heq⟩ := hg place l hl
  exact ⟨l', hl', heq.symm⟩

/-- A change of flags is such a change. -/
theorem Bus.Grows.flags {vb' : Bus δ} {f : Nat → RegistrationLifecycle δ → RegistrationLifecycle δ}
    (h : vb'.lifecycles = vb.lifecycles.mapIdx f) (hf : ∀ i l, metaOf i (f i l) = metaOf i l) :
    vb.Grows vb' :=
  fun i l hl => ⟨f i l, by rw [h, getElem?_mapIdx, hl]; rfl, hf i l⟩

/-- What holds of every goroutine. -/
structure Pc.Ok (pc : Pc δ) (vb : Bus δ) : Prop where
  single : (pc.owns.map (·.lifecycle)).Nodup
  nodup : (pc.todo.map (·.lifecycle)).Nodup
  owned : ∀ m ∈ pc.todo, m ∈ pc.owns
  minted : ∀ m ∈ pc.cites, vb.Minted m.snapshot m.lifecycle
  covers : ∀ ls, pc.waits = some ls → ∀ d ∈ vb.devices, d.lifecycle ∈ ls

attribute [local simp] Pc.todo Pc.owns Pc.cites Pc.waits After.owns

theorem Pc.Ok.idle (vb : Bus δ) : (Pc.idle : Pc δ).Ok vb :=
  ⟨nodup_nil, nodup_nil, by simp, by simp, by simp⟩

/-- A goroutine does not mind that others mark and remove. -/
theorem Pc.Ok.other {vb' : Bus δ} (h : pc.Ok vb) (hg : vb.Grows vb')
    (hd : pc.waits = none ∨ ∀ d' ∈ vb'.devices, ∃ d ∈ vb.devices, d.lifecycle = d'.lifecycle) :
    pc.Ok vb' where
  single := h.single
  nodup := h.nodup
  owned := h.owned
  minted := fun m hm => (h.minted m hm).grows hg
  covers := fun ls hls d' hd' => by
    rcases hd with hnone | hd
    · cases hnone.symm.trans hls
    obtain ⟨d, hmem, heq⟩ := hd d' hd'
    exact heq ▸ h.covers ls hls d hmem

/-! ## The account of an incarnation -/

/-- The flags of an incarnation, the stage of the one call which owns its
removal, and how often its removal was credited. -/
inductive Account : Option (RegistrationLifecycle δ) → Option Stage → Nat → Prop
  | unknown : Account none none 0
  | free {l : RegistrationLifecycle δ} (ha : l.active) (hr : l.removing = false) :
      Account (some l) none 0
  | marked {l : RegistrationLifecycle δ} (ha : l.active) (hr : l.removing) :
      Account (some l) (some .marked) 0
  | removed {l : RegistrationLifecycle δ} (ha : l.active = false) (hd : l.removalDone = false) :
      Account (some l) (some .removed) 0
  | finished {l : RegistrationLifecycle δ} (hd : l.removalDone) :
      Account (some l) (some .finished) 0
  | credited {l : RegistrationLifecycle δ} (hd : l.removalDone) : Account (some l) none 1

/-- Whether the bus is closed, whether `closeDone` is, what the one call which
closes it has done, and how often the bus number was deleted. -/
inductive Closure : Bool → Bool → Option Bool → Nat → Prop
  | opened : Closure false false none 0
  | closing : Closure true false (some false) 0
  | released : Closure true false (some true) 1
  | closed : Closure true true none 1

/-- The invariant of the bus, without its history: `credits` counts the credited
removals, `releases` the deletions of the bus number. -/
structure Inv (w : World δ) (credits : Nat → Nat) (releases : Nat) : Prop where
  ledger : w.bus.Ledger
  ok : ∀ g, (w.calls g).Ok w.bus
  leased : ∀ l ∈ w.leases, ∃ k, w.bus.lifecycles[l]? = some k ∧ k.active
  account : ∀ i, ∃ o, Sole Pc.drives w.calls i o ∧ Account w.bus.lifecycles[i]? o (credits i)
  closer : ∃ o, Sole Pc.closing w.calls () o ∧ Closure w.bus.closed w.bus.closeDone o releases

namespace Inv

theorem grows_refl (vb : Bus δ) : vb.Grows vb := fun _ l hl => ⟨l, hl, rfl⟩

theorem grows_mark (vb : Bus δ) (marked : List Nat) :
    vb.Grows (vb.markRegistrationRemovalLocked marked) := by
  refine .flags rfl fun i l => ?_
  split <;> rfl

theorem new (busID : Nat) : Inv (newWorld δ busID) (fun _ => 0) 0 where
  ledger := .new busID
  ok := fun _ => .idle _
  leased := by simp [newWorld]
  account := fun i => ⟨none, .vacant fun _ => rfl, by simpa [newWorld] using .unknown⟩
  closer := ⟨none, .vacant fun _ => rfl, .opened⟩

variable {credits : Nat → Nat} {releases : Nat} (h : Inv w credits releases)

include h

/-- A call which owns an incarnation knows its flags. -/
theorem owned {stage : Stage} (hd : (w.calls g).drives i = some stage) :
    Account w.bus.lifecycles[i]? (some stage) (credits i) := by
  obtain ⟨o, hsole, hacc⟩ := h.account i
  rwa [hsole.eq_some hd] at hacc

theorem marked (hd : (w.calls g).drives i = some .marked) : ∃ d ∈ w.bus.devices, d.lifecycle = i ∧
      ∀ l, w.bus.lifecycles[i]? = some l → l.active ∧ l.removing := by
  have hacc := h.owned hd
  generalize hl : w.bus.lifecycles[i]? = l, credits i = n at hacc
  cases hacc with
  | marked ha hr =>
    obtain ⟨d, hd, hkey⟩ := h.ledger.registered i _ hl ha
    refine ⟨d, hd, hkey, fun l hl' => ?_⟩
    obtain rfl := Option.some.inj hl'
    exact ⟨ha, hr⟩

theorem closing_iff {b : Bool} (hc : (w.calls g).closing () = some b) :
    w.bus.closed ∧ w.bus.closeDone = false := by
  obtain ⟨o, hsole, hclosure⟩ := h.closer
  rw [hsole.eq_some hc] at hclosure
  generalize w.bus.closed = c, w.bus.closeDone = d at hclosure
  cases hclosure <;> exact ⟨rfl, rfl⟩

/-- While the bus is open nobody waits for its end. -/
theorem waits_none (hopen : w.bus.closed = false) (g : Nat) : (w.calls g).waits = none := by
  have hnone : ∀ b, (w.calls g).closing () = some b → False := fun b hb =>
    absurd (hopen.symm.trans (h.closing_iff hb).1) (by decide)
  cases hpc : w.calls g with
  | finishing r todo k =>
    cases k with
    | removal k m => rfl
    | close marked waiting => exact (hnone false (by rw [hpc]; rfl)).elim
  | draining waiting marked => exact (hnone false (by rw [hpc]; rfl)).elim
  | _ => rfl

/-- The incarnation is out of the bus. -/
theorem gone (hgone : ∀ l, w.bus.lifecycles[i]? = some l → l.active = false) :
    ∀ d ∈ w.bus.devices, d.lifecycle ≠ i := by
  rintro d hd rfl
  obtain ⟨l, hl, hb⟩ := h.ledger.backed d hd
  exact absurd ((hgone l hl).symm.trans hb.active) (by decide)

theorem gone_of_done (hdone : w.bus.removalDone i) : ∀ d ∈ w.bus.devices, d.lifecycle ≠ i := by
  refine h.gone fun l hl => (h.ledger.sane i l hl).finished ?_
  simpa [Bus.removalDone, hl] using hdone

/-- The goroutine moves, and nothing changes for the incarnation. -/
theorem account_same {pc : Pc δ} {l : Option (RegistrationLifecycle δ)}
    (hl : l = w.bus.lifecycles[i]?) (hsame : pc.drives i = (w.calls g).drives i) :
    ∃ o, Sole Pc.drives (update w.calls g pc) i o ∧ Account l o (credits i + 0) := by
  obtain ⟨o, hsole, hacc⟩ := h.account i
  exact ⟨o, hsole.same hsame, hl ▸ hacc⟩

/-- The call which owns the incarnation moves on. -/
theorem account_turn {n : Nat} {pc : Pc δ} {stage : Stage}
    {l : Option (RegistrationLifecycle δ)} (hold : (w.calls g).drives i = some stage)
    (hnew : Account w.bus.lifecycles[i]? (some stage) (credits i) →
      Account l (pc.drives i) (credits i + n)) :
    ∃ o, Sole Pc.drives (update w.calls g pc) i o ∧ Account l o (credits i + n) := by
  obtain ⟨o, hsole, -⟩ := h.account i
  exact ⟨_, hsole.turn hold pc, hnew (h.owned hold)⟩

/-- A call marks incarnations which are free. -/
theorem account_mark (marked : List (Marked δ))
    (k : After δ) (hidle : w.calls g = .idle) (howns : k.owns = marked)
    (hfree : ∀ m ∈ marked, ∃ l, w.bus.lifecycles[m.lifecycle]? = some l ∧ l.active ∧
      l.removing = false) (i : Nat) :
    ∃ o, Sole Pc.drives (update w.calls g (.finishing false marked k)) i o ∧
      Account (w.bus.markRegistrationRemovalLocked (marked.map (·.lifecycle))).lifecycles[i]? o
        (credits i + 0) := by
  have hdrives : (Pc.finishing false marked k).drives i =
      if i ∈ marked.map (·.lifecycle) then some .marked else none := by
    change Pc.stage k.owns i false marked = _
    rw [Pc.stage_false, howns]
    split <;> rfl
  have hget : (w.bus.markRegistrationRemovalLocked (marked.map (·.lifecycle))).lifecycles[i]? =
      (w.bus.lifecycles[i]?).map fun l =>
        if i ∈ marked.map (·.lifecycle) then { l with removing := true } else l := by
    rw [Bus.markRegistrationRemovalLocked, getElem?_mapIdx]
  by_cases hi : i ∈ marked.map (·.lifecycle)
  · obtain ⟨m, hm, rfl⟩ := mem_map.1 hi
    obtain ⟨l, hl, ha, hr⟩ := hfree m hm
    obtain ⟨o, hsole, hacc⟩ := h.account m.lifecycle
    rw [hl] at hacc
    obtain ⟨rfl, hn⟩ : o = none ∧ credits m.lifecycle = 0 := by
      generalize credits m.lifecycle = n at hacc
      cases hacc with
      | free => exact ⟨rfl, rfl⟩
      | marked _ hr' => exact absurd (hr.symm.trans hr') (by decide)
      | removed ha' => exact absurd (ha.symm.trans ha') (by decide)
      | finished hd | credited hd =>
        exact absurd (ha.symm.trans ((h.ledger.sane _ l hl).finished hd)) (by decide)
    refine ⟨_, hsole.take g (.finishing false marked k), ?_⟩
    rw [hdrives, if_pos hi, hget, hl, Option.map_some, if_pos hi, hn]
    exact .marked ha rfl
  · refine h.account_same ?_ ?_
    · rw [hget]
      cases w.bus.lifecycles[i]? <;> simp [hi]
    · rw [hdrives, if_neg hi, hidle]
      rfl

theorem free_of_not_removing (hd : d ∈ w.bus.devices) (hfree : w.bus.removingLocked d = false) :
    ∃ l, w.bus.lifecycles[d.lifecycle]? = some l ∧ l.active ∧ l.removing = false := by
  obtain ⟨l, hl, hb⟩ := h.ledger.backed d hd
  exact ⟨l, hl, hb.active, by simpa [Bus.removingLocked, hl] using hfree⟩

/-- A call returns, and what it owns is credited to it. -/
theorem account_credit (g : Nat) (vb : Bus δ)
    (htodo : (w.calls g).todo = []) (hl : vb.lifecycles = w.bus.lifecycles)
    (hn : ((w.calls g).owns.map (·.lifecycle)).Nodup) (i : Nat) :
    ∃ o, Sole Pc.drives (update w.calls g .idle) i o ∧
      Account vb.lifecycles[i]? o (credits i + ((w.calls g).owns.map (·.lifecycle)).count i) := by
  have hdrives : (w.calls g).drives i =
      if i ∈ (w.calls g).owns.map (·.lifecycle) then some .finished else none := by
    rw [Pc.drives, htodo]
    rfl
  rw [hl]
  by_cases hi : i ∈ (w.calls g).owns.map (·.lifecycle)
  · rw [if_pos hi] at hdrives
    refine h.account_turn hdrives fun hacc => ?_
    rw [count_eq_one_of_mem hn hi]
    generalize hk : w.bus.lifecycles[i]? = k, hc : credits i = n at hacc
    cases hacc with
    | finished hd => exact .credited hd
  · rw [count_eq_zero_of_not_mem hi]
    refine h.account_same rfl ?_
    rw [hdrives, if_neg hi]
    rfl

end Inv

/-! ## Steps -/

/-- A call which owns nothing. -/
def Pc.Light : Pc δ → Prop
  | .joining _ _ | .joiningClose | .acquiring _ => True
  | _ => False

theorem Pc.Light.closing (h : pc.Light) (u : Unit) : pc.closing u = none := by
  cases pc <;> first
    | exact h.elim
    | rfl

theorem Pc.Light.drives (h : pc.Light) (i : Nat) : pc.drives i = none := by
  cases pc <;> first
    | exact h.elim
    | rfl

/-- The incarnations whose removal the call reports as its own when it returns. -/
def Pc.credit : Pc δ → List Nat
  | .finishing _ [] (.removal _ m) => [m.lifecycle]
  | .signalling taken => (taken.getD []).map (·.lifecycle)
  | _ => []

def World.credit (w : World δ) : Op δ → List Nat
  | .run g => (w.calls g).credit
  | _ => []

/-- The answers which do not tell of a change of the ledger. -/
def Answer.Plain : Answer δ → Prop
  | .added (.ok _) | .taken (some _) | .lease (some _) | .released | .snapshot (.ok _)
  | .removed (.ok true) => False
  | _ => True

/-- How a removal reports what it has removed. -/
def Remover.report (k : Remover) (m : Marked δ) : Answer δ :=
  match k with
  | .byID => .snapshot (.ok m.snapshot)
  | .present => .removed (.ok true)

/-- How often the answer tells of a deletion of the bus number. -/
def Answer.releases : Answer δ → Nat
  | .released => 1
  | _ => 0

theorem Answer.Plain.releases {a : Answer δ} (h : a.Plain) : a.releases = 0 := by
  cases a <;> first
    | exact h.elim
    | rfl

theorem Remover.report_releases (k : Remover) (m : Marked δ) : (k.report m).releases = 0 := by
  cases k <;> rfl

/-- The close takes every registration which no other call has marked. -/
def Bus.takes [DecidableEq δ] (vb : Bus δ) : List (Marked δ) :=
  (vb.devices.filter fun d => !vb.removingLocked d).map
    fun d => ⟨Bus.deviceMetaLocked d, d.lifecycle⟩

variable [DecidableEq δ]

/-- What one step does, what it answers, and which removals are credited. -/
inductive Move (w : World δ) : World δ → Answer δ → List Nat → Prop
  | stay {a : Answer δ} (ha : a.Plain) : Move w w a []
  | add {d : δ} {maxDeviceID devID : Nat} (published : Bool) (exportBusID : Option String)
      (ha : w.bus.Admits d maxDeviceID devID) {device : BusDevice δ}
      (hdevice : device = w.bus.newRegistration d published exportBusID devID) :
      Move w { w with bus := w.bus.withRegistration device }
        (.added (.ok (Bus.deviceMetaLocked device))) []
  | publish (p : BusDevice δ → Bool) {a : Answer δ} (ha : a.Plain) :
      Move w { w with bus := { w.bus with
        devices := w.bus.devices.map fun d => if p d then { d with published := true } else d } }
        a []
  | aside (ctx : Option Nat) (contexts : Nat) (leases table : List Nat) {a : Answer δ}
      (hsub : ∀ l ∈ leases, l ∈ w.leases) (htable : ∀ b ∈ w.allocatedBusIds, b ∈ table)
      (ha : a.Plain) :
      Move w { w with
        bus := { w.bus with emptyCtx := ctx, emptyContexts := contexts }
        leases := leases, allocatedBusIds := table } a []
  | mark {g : Nat} (k : Remover) {d : BusDevice δ} (hidle : w.calls g = .idle)
      (hd : d ∈ w.bus.devices) (hfree : w.bus.removingLocked d = false) :
      Move w (w.goto g (.finishing false [⟨Bus.deviceMetaLocked d, d.lifecycle⟩]
          (.removal k ⟨Bus.deviceMetaLocked d, d.lifecycle⟩))
        (w.bus.markRegistrationRemovalLocked [d.lifecycle])) .goes []
  | close {g : Nat} (hidle : w.calls g = .idle) (hopen : w.bus.closed = false) :
      Move w (w.goto g (.finishing false w.bus.takes (.close w.bus.takes
          ((w.bus.devices.filter w.bus.removingLocked).map (·.lifecycle))))
        { w.bus.markRegistrationRemovalLocked (w.bus.takes.map (·.lifecycle)) with
          closed := true, emptyCtx := none }) .goes []
  | closeEmpty {g : Nat} (hidle : w.calls g = .idle) (hopen : w.bus.closed = false)
      (hempty : w.bus.devices = []) :
      Move w (w.goto g (.releasing none) { w.bus with closed := true, emptyCtx := none }) .goes []
  | finish {g : Nat} {m : Marked δ} {todo : List (Marked δ)} {k : After δ}
      (hpc : w.calls g = .finishing false (m :: todo) k) (hlease : m.lifecycle ∉ w.leases) :
      Move w (w.goto g (.finishing true (m :: todo) k)
        (w.bus.finishMarkedRegistrationRemoval m.lifecycle)) .goes []
  | signal {g : Nat} {m : Marked δ} {todo : List (Marked δ)} {k : After δ}
      (hpc : w.calls g = .finishing true (m :: todo) k) :
      Move w (w.goto g (.finishing false todo k) (w.bus.closeRemovalDone m.lifecycle)) .goes []
  | start {g : Nat} {pc : Pc δ} (hidle : w.calls g = .idle) (hpc : pc.Light)
      (hcites : ∀ m ∈ pc.cites, ∃ d ∈ w.bus.devices, m = ⟨Bus.deviceMetaLocked d, d.lifecycle⟩) :
      Move w (w.goto g pc) .goes []
  | back {g : Nat} {a : Answer δ} (hpc : (w.calls g).Light)
      (ha : a.Plain ∨ ∃ m, w.calls g = .joining .byID m ∧
        w.bus.removalDone m.lifecycle ∧ a = Remover.byID.report m) :
      Move w (w.goto g .idle) a []
  | drain {g : Nat} {r : Bool} {marked : List (Marked δ)} {waiting : List Nat}
      (hpc : w.calls g = .finishing r [] (.close marked waiting)) :
      Move w (w.goto g (.draining waiting marked)) .goes []
  | drained {g l : Nat} {marked : List (Marked δ)} {waiting : List Nat}
      (hpc : w.calls g = .draining (l :: waiting) marked)
      (hdone : w.bus.removalDone l) : Move w (w.goto g (.draining waiting marked)) .goes []
  | clear {g : Nat} {marked : List (Marked δ)} (hpc : w.calls g = .draining [] marked) :
      Move w (w.goto g (.releasing (some marked)) { w.bus with allocatedDevIDs := [] }) .goes []
  | release {g : Nat} {taken : Option (List (Marked δ))} (hpc : w.calls g = .releasing taken) :
      Move w { w.goto g (.signalling taken) with
        allocatedBusIds := w.allocatedBusIds.filter (· ≠ w.bus.busID) } .released []
  | closed {g : Nat} {taken : Option (List (Marked δ))} {a : Answer δ}
      (hpc : w.calls g = .signalling taken)
      (ha : taken = none ∧ a.Plain ∨
        ∃ marked, taken = some marked ∧ a = .taken (some (marked.map (·.snapshot)))) :
      Move w (w.goto g .idle { w.bus with closeDone := true }) a ((taken.getD []).map (·.lifecycle))
  | credit {g : Nat} {r : Bool} {k : Remover} {m : Marked δ}
      (hpc : w.calls g = .finishing r [] (.removal k m)) :
      Move w (w.goto g .idle) (k.report m) [m.lifecycle]
  | lease {g l : Nat} {s : DeviceMeta δ} (hpc : w.calls g = .acquiring s)
      (hl : s.lifecycle = some l) (hopen : w.bus.closed = false)
      (hauth : w.bus.authenticatesRegistrationLocked s) :
      Move w { w.goto g .idle with leases := l :: w.leases } (.lease (some l)) []

section StepMove

variable (w : World δ)

theorem move_removeSelected (hidle : w.calls g = .idle) (k : Remover) (hd : d ∈ w.bus.devices) :
    Move w (w.removeSelected g k d).1 (w.removeSelected g k d).2 [] := by
  unfold removeSelected
  split
  · refine .start hidle trivial fun m hm => ⟨d, hd, ?_⟩
    cases k with
    | byID => exact mem_singleton.1 hm
    | present => cases hm
  · exact .mark k hidle hd (by simp_all)

theorem move_start (hidle : w.calls g = .idle) (c : Call δ) :
    Move w (w.start g c).1 (w.start g c).2 [] := by
  cases c with
  | removeByID deviceID =>
    simp only [start, removeByID]
    split
    · exact .stay trivial
    · exact move_removeSelected w hidle _ (mem_of_find?_eq_some ‹_›)
  | removeIfPresent dev =>
    simp only [start, removeIfPresent]
    cases dev with
    | none => exact .stay trivial
    | some dev =>
      dsimp only
      split
      · exact .stay trivial
      · exact move_removeSelected w hidle _ (mem_of_find?_eq_some ‹_›)
  | removeRegistration snapshot =>
    simp only [start, removeRegistration]
    split
    · exact .stay trivial
    split
    · exact .stay trivial
    split
    · exact .stay trivial
    split
    · exact .stay trivial
    split
    · exact .start hidle trivial (by simp)
    split
    · exact .stay trivial
    · exact move_removeSelected w hidle _ (mem_of_find?_eq_some ‹_›)
  | closeIfEmpty expected =>
    simp only [start, closeIfEmpty]
    split
    · exact .stay trivial
    split
    · exact .stay trivial
    next hopen =>
      simp only [not_or, ne_eq, not_not] at hopen
      exact .closeEmpty hidle (by simpa using hopen.1) hopen.2.1
  | closeAndTake =>
    simp only [start, closeAndTake]
    split
    · exact .start hidle trivial (by simp)
    · exact .close hidle (by simp_all)
  | acquire snapshot =>
    simp only [start, acquire]
    split
    · exact .start hidle trivial (by simp)
    · exact .stay trivial

theorem move_resume (g : Nat) : Move w (w.resume g).1 (w.resume g).2 (w.calls g).credit := by
  have hlight : ∀ {pc : Pc δ} {a : Answer δ}, w.calls g = pc → pc.Light → a.Plain →
      Move w (w.goto g .idle) a [] := fun hpc hl ha => .back (hpc ▸ hl) (.inl ha)
  unfold resume
  cases hpc : w.calls g with
  | idle => exact .stay trivial
  | finishing r todo k =>
    cases todo with
    | cons m todo =>
      cases r with
      | false =>
        dsimp only
        split
        · exact .stay trivial
        · exact .finish hpc ‹_›
      | true => exact .signal hpc
    | nil =>
      cases k with
      | removal k m => cases r <;> cases k <;> exact .credit hpc
      | close marked waiting => cases r <;> exact .drain hpc
  | joining k m =>
    dsimp only
    split
    · exact .stay trivial
    rename_i hdone
    cases k with
    | byID =>
      exact .back (hpc ▸ trivial) (.inr ⟨m, hpc, by simpa using hdone, rfl⟩)
    | present => exact hlight hpc trivial trivial
  | draining waiting marked =>
    cases waiting with
    | nil => exact .clear hpc
    | cons l waiting =>
      dsimp only
      split
      · exact .drained hpc ‹_›
      · exact .stay trivial
  | releasing taken => exact .release hpc
  | signalling taken =>
    cases taken with
    | none => exact .closed hpc (.inl ⟨rfl, trivial⟩)
    | some marked => exact .closed hpc (.inr ⟨marked, rfl, rfl⟩)
  | joiningClose =>
    dsimp only
    split
    · exact hlight hpc trivial trivial
    · exact .stay trivial
  | acquiring snapshot =>
    dsimp only
    split
    · exact hlight hpc trivial trivial
    rename_i l hl
    split
    next hauth => exact .lease hpc hl (by simpa using hauth.1) hauth.2
    · exact hlight hpc trivial trivial

theorem step_move (op : Op δ) : Move w (w.step op).1 (w.step op).2 (w.credit op) := by
  cases op with
  | add dev published maxDeviceID exportBusID =>
    simp only [step]
    rcases w.bus.addRegistration_cases dev published maxDeviceID exportBusID with
      ⟨err, heq⟩ | ⟨d, devID, rfl, ha, heq⟩
    · rw [heq]
      exact .stay trivial
    · rw [heq]
      exact .add published exportBusID ha rfl
  | publish snapshot =>
    simp only [step, Bus.publishRegistration]
    split
    · exact .stay trivial
    split
    · exact .stay trivial
    split
    · exact .stay trivial
    split
    · have hmove := Move.publish (w := w) (fun d => decide (some d.lifecycle = snapshot.lifecycle))
        (a := .published (.ok true)) trivial
      simpa only [decide_eq_true_eq, credit] using hmove
    · exact .stay trivial
  | getBusEmptyContext =>
    simp only [step, Bus.getBusEmptyContext]
    split
    · exact .stay trivial
    split
    · exact .stay trivial
    · exact .aside _ _ w.leases w.allocatedBusIds (fun _ h => h) (fun _ h => h) trivial
  | call g c =>
    simp only [step]
    split
    · exact move_start w ‹_› c
    · exact .stay trivial
  | run g => exact move_resume w g
  | release lifecycle =>
    exact .aside w.bus.emptyCtx w.bus.emptyContexts _ w.allocatedBusIds
      (fun _ h => mem_of_mem_erase h) (fun _ h => h) trivial
  | newBus busID =>
    exact .aside w.bus.emptyCtx w.bus.emptyContexts w.leases _ (fun _ h => h)
      (fun _ h => mem_cons_of_mem _ h) trivial

end StepMove

theorem takes_minted (h : vb.Ledger) {m : Marked δ} (hm : m ∈ vb.takes) :
    ∃ d ∈ vb.devices, vb.removingLocked d = false ∧ m = ⟨Bus.deviceMetaLocked d, d.lifecycle⟩ ∧
      vb.Minted m.snapshot m.lifecycle := by
  obtain ⟨d, hd, rfl⟩ := mem_map.1 hm
  obtain ⟨hd, hfree⟩ := mem_filter.1 hd
  exact ⟨d, hd, by simpa using hfree, rfl, h.minted hd⟩

theorem takes_nodup (h : vb.Ledger) : (vb.takes.map (·.lifecycle)).Nodup := by
  rw [Bus.takes, map_map]
  exact h.places.sublist (filter_sublist.map _)

/-! ## Every step keeps the invariant -/

namespace Inv

variable {credits : Nat → Nat} {releases : Nat} {a : Answer δ} {cs : List Nat}
  (h : Inv w credits releases) (hm : Move w w' a cs)

include h hm

theorem step_ledger : w'.bus.Ledger := by
  have hl := h.ledger
  cases hm with
  | add published exportBusID ha hdevice => exact hdevice ▸ hl.add ha published exportBusID
  | publish p ha => exact hl.publish p
  | aside | closeEmpty | closed => exact { hl with }
  | mark k hidle hd hfree => exact hl.mark _
  | close hidle hopen => exact { hl.mark _ with }
  | finish hpc hlease =>
    obtain ⟨d, hd, hkey, hflags⟩ := h.marked (Pc.drives_first hpc)
    have hw := hl.without hd (hkey ▸ fun l hl => (hflags l hl).2)
    rw [← hl.finish_eq hd, hkey] at hw
    exact hw
  | signal hpc =>
    refine hl.signal fun l hget => ?_
    have hacc := h.owned (Pc.drives_first hpc)
    rw [hget] at hacc
    generalize credits _ = n at hacc
    cases hacc with
    | removed ha hd => exact ha
  | clear hpc =>
    have hempty : w.bus.devices = [] := by
      refine eq_nil_iff_forall_not_mem.2 fun d hd => ?_
      simpa using (h.ok _).covers [] (by rw [hpc]; rfl) d hd
    exact
      { hl with
        allocated := fun id => by simp [goto, hempty] }
  | _ => exact hl

/-- Lifecycles stay what they are; only an Add brings a new device. -/
theorem follows : w.bus.Grows w'.bus ∧ (w.bus.closed = false ∨
      ∀ d' ∈ w'.bus.devices, ∃ d ∈ w.bus.devices, d.lifecycle = d'.lifecycle) := by
  have hsame : ∀ d' ∈ w.bus.devices, ∃ d ∈ w.bus.devices, d.lifecycle = d'.lifecycle :=
    fun d' hd' => ⟨d', hd', rfl⟩
  cases hm with
  | add published exportBusID ha hdevice =>
    refine ⟨fun i l hl => ⟨l, ?_, rfl⟩, .inl ha.opened⟩
    rw [Bus.withRegistration, List.getElem?_append_left (List.getElem?_eq_some_iff.1 hl).1]
    exact hl
  | publish p ha =>
    refine ⟨grows_refl _, .inr fun d' hd' => ?_⟩
    obtain ⟨d, hd, rfl⟩ := mem_map.1 hd'
    exact ⟨d, hd, by split <;> rfl⟩
  | mark | close => exact ⟨grows_mark _ _, .inr hsame⟩
  | finish hpc hlease =>
    obtain ⟨d, hd, hkey, -⟩ := h.marked (Pc.drives_first hpc)
    simp only [goto, ← hkey, h.ledger.finish_eq hd]
    refine ⟨.flags rfl fun i l => by split <;> rfl, .inr fun d' hd' => ?_⟩
    exact ⟨d', (mem_filter.1 hd').1, rfl⟩
  | signal hpc => exact ⟨.flags rfl fun i l => by split <;> rfl, .inr hsame⟩
  | _ => exact ⟨grows_refl _, .inr hsame⟩

theorem step_ok (g : Nat) : (w'.calls g).Ok w'.bus := by
  obtain ⟨hgrows, hfollow⟩ := h.follows hm
  have hother : ∀ g, (w.calls g).Ok w'.bus := fun g =>
    (h.ok g).other hgrows (hfollow.imp (fun hopen => h.waits_none hopen g) id)
  have hgoto : ∀ {g' : Nat} {pc : Pc δ}, w'.calls = update w.calls g' pc →
      pc.Ok w'.bus → (w'.calls g).Ok w'.bus := by
    intro g' pc hcalls hpc
    rw [hcalls]
    rw [update_apply]
    split
    · exact hpc
    · exact hother g
  cases hm with
  | @mark g' k d hidle hd hfree =>
    refine hgoto rfl ⟨by simp, by simp, by simp, ?_, by simp [After.waiting]⟩
    simpa using (h.ledger.minted hd).grows hgrows
  | @close g' hidle hopen =>
    refine hgoto rfl
      ⟨takes_nodup h.ledger, takes_nodup h.ledger, fun _ hm => hm, fun m hm => ?_, ?_⟩
    · obtain ⟨-, -, -, -, hminted⟩ := takes_minted h.ledger hm
      exact hminted.grows hgrows
    · rintro ls ⟨⟩ d hd
      rw [mem_append]
      cases hr : w.bus.removingLocked d with
      | true => exact .inr (mem_map_of_mem (mem_filter.2 ⟨hd, hr⟩))
      | false =>
        refine .inl ?_
        rw [Bus.takes, map_map]
        exact mem_map_of_mem (mem_filter.2 ⟨hd, by simp [hr]⟩)
  | @finish g' m todo k hpc hlease =>
    have hold := hother g'
    rw [hpc] at hold
    exact hgoto rfl ⟨hold.single, hold.nodup, hold.owned, hold.minted, hold.covers⟩
  | @signal g' m todo k hpc =>
    have hold := h.ok g'
    have hnew := hother g'
    rw [hpc] at hold hnew
    refine hgoto rfl ⟨hold.single, (nodup_cons.1 hold.nodup).2,
      fun m' hm' => hold.owned m' (mem_cons_of_mem _ hm'), hnew.minted, ?_⟩
    intro ls hls d hd
    cases k with
    | removal k m' => cases hls
    | close marked waiting =>
      cases hls
      have hin := hold.covers _ rfl d hd
      have hne : d.lifecycle ≠ m.lifecycle := by
        refine h.gone (fun l hl => ?_) d hd
        have hacc := h.owned (Pc.drives_first hpc)
        rw [hl] at hacc
        generalize credits _ = n at hacc
        cases hacc with
        | removed ha hd => exact ha
      simpa [hne] using hin
  | @drain g' r marked waiting hpc =>
    have hold := h.ok g'
    rw [hpc] at hold
    refine hgoto rfl ⟨hold.single, nodup_nil, by simp, hold.minted, ?_⟩
    rintro ls ⟨⟩ d hd
    simpa using hold.covers _ rfl d hd
  | @drained g' l marked waiting hpc hdone =>
    have hold := h.ok g'
    rw [hpc] at hold
    refine hgoto rfl ⟨hold.single, nodup_nil, by simp, hold.minted, ?_⟩
    rintro ls ⟨⟩ d hd
    have hin := hold.covers _ rfl d hd
    simpa [h.gone_of_done hdone d hd] using hin
  | @clear g' _ hpc | @release g' _ hpc =>
    have hold := hother g'
    rw [hpc] at hold
    exact hgoto rfl
      ⟨hold.single, nodup_nil, by simp, hold.minted, by simp⟩
  | @closeEmpty g' hidle hopen hempty =>
    exact hgoto rfl ⟨nodup_nil, nodup_nil, by simp, by simp, by simp⟩
  | @start g' pc hidle hpc hcites =>
    have hminted : ∀ m ∈ pc.cites, w.bus.Minted m.snapshot m.lifecycle := fun m hm => by
      obtain ⟨d, hd, rfl⟩ := hcites m hm
      exact h.ledger.minted hd
    refine hgoto rfl ?_
    cases pc <;> first
      | exact hpc.elim
      | exact ⟨nodup_nil, nodup_nil, by simp, hminted, by simp⟩
  | closed | credit | back | lease => exact hgoto rfl (.idle _)
  | _ => exact hother g

theorem step_leased : ∀ l ∈ w'.leases, ∃ k, w'.bus.lifecycles[l]? = some k ∧ k.active := by
  have hflags : ∀ (f : Nat → RegistrationLifecycle δ → RegistrationLifecycle δ)
      (_ : ∀ i k, i ∈ w.leases → (f i k).active = k.active), ∀ l ∈ w.leases,
      ∃ k, (w.bus.lifecycles.mapIdx f)[l]? = some k ∧ k.active := by
    intro f hf l hl
    obtain ⟨k, hk, ha⟩ := h.leased l hl
    exact ⟨f l k, by rw [getElem?_mapIdx, hk]; rfl, (hf l k hl).trans ha⟩
  cases hm with
  | add published exportBusID ha hdevice =>
    intro l hl
    obtain ⟨k, hk, hactive⟩ := h.leased l hl
    refine ⟨k, ?_, hactive⟩
    rw [Bus.withRegistration, List.getElem?_append_left (List.getElem?_eq_some_iff.1 hk).1]
    exact hk
  | aside ctx contexts leases table hsub htable ha => exact fun l hl => h.leased l (hsub l hl)
  | mark k | close | signal => exact hflags _ fun i k _ => by split <;> rfl
  | @finish g m todo k hpc hlease =>
    obtain ⟨d, hd, hkey, -⟩ := h.marked (Pc.drives_first hpc)
    simp only [goto, ← hkey, h.ledger.finish_eq hd]
    refine hflags _ fun i k hi => ?_
    rw [if_neg (fun heq => hlease (by rw [← hkey, ← heq]; exact hi))]
  | lease hpc hl hopen hauth =>
    intro l hmem
    rcases mem_cons.1 hmem with rfl | hmem
    · simp only [Bus.authenticatesRegistrationLocked, hl, Option.bind_some,
        Bool.and_eq_true, Option.any_eq_true] at hauth
      obtain ⟨k, hk, hactive⟩ := hauth.2
      exact ⟨k, hk, hactive.1⟩
    · exact h.leased l hmem
  | _ => exact h.leased

theorem step_account (i : Nat) : ∃ o, Sole Pc.drives w'.calls i o ∧
      Account w'.bus.lifecycles[i]? o (credits i + cs.count i) := by
  have hkeep : ∀ {g : Nat} {pc : Pc δ}, pc.drives i = (w.calls g).drives i →
      ∃ o, Sole Pc.drives (update w.calls g pc) i o ∧
        Account w.bus.lifecycles[i]? o (credits i + 0) := h.account_same rfl
  cases hm with
  | stay | publish | aside => exact h.account i
  | @add d maxDeviceID devID published exportBusID ha device hdevice =>
    obtain ⟨o, hsole, hacc⟩ := h.account i
    refine ⟨o, hsole, ?_⟩
    simp only [Bus.withRegistration]
    rw [getElem?_append]
    split
    · exact hacc
    rw [getElem?_eq_none (by omega)] at hacc
    generalize credits i = n at hacc
    cases hacc
    by_cases hi : i = w.bus.lifecycles.length
    · rw [hi, Nat.sub_self, getElem?_cons_zero]
      exact .free rfl rfl
    · rw [getElem?_eq_none (by simp; omega)]
      exact .unknown
  | @mark g k d hidle hd hfree =>
    refine h.account_mark [⟨Bus.deviceMetaLocked d, d.lifecycle⟩] (.removal k _) hidle rfl
      (fun m hm => ?_) i
    rw [mem_singleton.1 hm]
    exact h.free_of_not_removing hd hfree
  | close hidle hopen =>
    refine h.account_mark w.bus.takes (.close w.bus.takes _) hidle rfl (fun m hm => ?_) i
    obtain ⟨d, hd, hfree, rfl, -⟩ := takes_minted h.ledger hm
    exact h.free_of_not_removing hd hfree
  | closeEmpty hidle hopen hempty => exact hkeep (by rw [hidle]; rfl)
  | @finish g m todo k hpc hlease =>
    obtain ⟨d, hd, hkey, -⟩ := h.marked (Pc.drives_first hpc)
    simp only [goto, ← hkey, h.ledger.finish_eq hd, Bus.without, getElem?_mapIdx]
    by_cases hi : i = d.lifecycle
    · subst hi
      refine h.account_turn (hkey ▸ Pc.drives_first hpc) fun hacc => ?_
      rw [hkey, Pc.drives_first rfl]
      generalize hl : w.bus.lifecycles[d.lifecycle]? = l, hc : credits d.lifecycle = n at hacc
      cases hacc with
      | @marked l ha hr =>
        rw [← hkey, hl, Option.map_some, if_pos rfl, hc]
        refine Account.removed (l := { l with active := false, cancelled := true }) rfl
          (Bool.eq_false_iff.2 fun hdone => ?_)
        exact absurd (ha.symm.trans ((h.ledger.sane _ l hl).finished hdone)) (by decide)
    · refine h.account_same ?_ ?_
      · cases w.bus.lifecycles[i]? <;> simp [hi]
      · rw [hpc]
        exact (if_neg (hkey ▸ hi)).trans (if_neg (hkey ▸ hi)).symm
  | @signal g m todo k hpc =>
    have hnodup : m.lifecycle ∉ todo.map (·.lifecycle) := by
      have hold := (h.ok g).nodup
      rw [hpc] at hold
      exact (nodup_cons.1 hold).1
    have howned : m ∈ k.owns := by
      have hold := (h.ok g).owned m
      rw [hpc] at hold
      exact hold (mem_cons_self ..)
    simp only [goto, Bus.closeRemovalDone, getElem?_mapIdx]
    by_cases hi : i = m.lifecycle
    · subst hi
      refine h.account_turn (Pc.drives_first hpc) fun hacc => ?_
      have hdrives : (Pc.finishing false todo k).drives m.lifecycle = some .finished := by
        change Pc.stage k.owns m.lifecycle false todo = _
        rw [Pc.stage_false, if_neg hnodup, if_pos (mem_map_of_mem howned)]
      rw [hdrives]
      generalize hl : w.bus.lifecycles[m.lifecycle]? = l, hc : credits m.lifecycle = n at hacc
      cases hacc with
      | removed ha hd => exact .finished (by simp)
    · refine h.account_same ?_ ?_
      · cases w.bus.lifecycles[i]? <;> simp [hi]
      · rw [hpc]
        exact (if_neg hi).symm
  | start hidle hpc hcites => exact hkeep (by rw [hidle, hpc.drives]; rfl)
  | back hpc ha => exact hkeep (by rw [hpc.drives]; rfl)
  | drain hpc | drained hpc | clear hpc | release hpc | lease hpc => exact hkeep (by rw [hpc]; rfl)
  | @closed g taken a hpc ha =>
    have hacc := h.account_credit g { w.bus with closeDone := true }
      (by rw [hpc]; rfl) rfl (h.ok g).single i
    rw [hpc] at hacc
    exact hacc
  | @credit g r k m hpc =>
    have hacc := h.account_credit g w.bus (by rw [hpc]; rfl) rfl (h.ok g).single i
    rw [hpc] at hacc
    exact hacc

theorem step_closer : ∃ o, Sole Pc.closing w'.calls () o ∧
      Closure w'.bus.closed w'.bus.closeDone o (releases + a.releases) := by
  obtain ⟨o, hsole, hclosure⟩ := h.closer
  -- a step which neither closes the bus nor ends its closing
  have hkeep : ∀ {g : Nat} {pc : Pc δ} {n : Nat}, n = 0 → pc.closing () = (w.calls g).closing () →
      ∃ o, Sole Pc.closing (update w.calls g pc) () o ∧
        Closure w.bus.closed w.bus.closeDone o (releases + n) := by
    rintro g pc _ rfl hsame
    exact ⟨o, hsole.same hsame, hclosure⟩
  -- a step of the call which closes it
  have hturn : ∀ {g : Nat} {pc : Pc δ} {b c : Bool} {n : Nat}, (w.calls g).closing () = some b →
      (Closure w.bus.closed w.bus.closeDone (some b) releases →
        Closure w.bus.closed c (pc.closing ()) (releases + n)) →
      ∃ o, Sole Pc.closing (update w.calls g pc) () o ∧
        Closure w.bus.closed c o (releases + n) := by
    intro g pc b c n hb hnew
    exact ⟨_, hsole.turn hb pc, hnew (hsole.eq_some hb ▸ hclosure)⟩
  -- a step which starts to close it
  have hopen : ∀ {g : Nat} {pc : Pc δ}, w.bus.closed = false → pc.closing () = some false →
      ∃ o, Sole Pc.closing (update w.calls g pc) () o ∧
        Closure true w.bus.closeDone o (releases + 0) := by
    intro g pc hc hpc
    rw [hc] at hclosure
    generalize w.bus.closeDone = d, releases = n at hclosure ⊢
    cases hclosure
    exact ⟨_, hsole.take g pc, hpc ▸ .closing⟩
  cases hm with
  | stay ha | publish _ ha | aside _ _ _ _ _ _ ha => exact ha.releases ▸ h.closer
  | add published exportBusID ha hdevice => exact h.closer
  | mark k hidle hd hfree => exact hkeep rfl (by rw [hidle]; rfl)
  | close _ hc | closeEmpty _ hc => exact hopen hc rfl
  | finish hpc hlease =>
    obtain ⟨d, hd, hkey, -⟩ := h.marked (Pc.drives_first hpc)
    simp only [goto, ← hkey, h.ledger.finish_eq hd]
    exact hkeep rfl (by rw [hpc]; rfl)
  | signal hpc | drain hpc | drained hpc | clear hpc | lease hpc =>
    exact hkeep rfl (by rw [hpc]; rfl)
  | start hidle hpc hcites => exact hkeep rfl (by rw [hidle, hpc.closing]; rfl)
  | back hpc ha =>
    refine hkeep ?_ (by rw [hpc.closing]; rfl)
    rcases ha with ha | ⟨m, -, -, rfl⟩
    · exact ha.releases
    · rfl
  | release hpc =>
    refine hturn (c := w.bus.closeDone) (by rw [hpc]; rfl) fun hold => ?_
    generalize w.bus.closed = c, w.bus.closeDone = d, releases = n at hold ⊢
    cases hold
    exact .released
  | @closed g taken a hpc ha =>
    have hzero : a.releases = 0 := by
      rcases ha with ⟨-, ha⟩ | ⟨_, -, rfl⟩
      · exact ha.releases
      · rfl
    rw [hzero]
    refine hturn (by rw [hpc]; rfl) fun hold => ?_
    generalize w.bus.closed = c, w.bus.closeDone = d, releases = n at hold ⊢
    cases hold
    exact .closed
  | credit hpc => exact hkeep (Remover.report_releases _ _) (by rw [hpc]; rfl)

theorem step : Inv w' (fun i => credits i + cs.count i) (releases + a.releases) :=
  ⟨h.step_ledger hm, h.step_ok hm, h.step_leased hm, h.step_account hm, h.step_closer hm⟩

end Inv

end Viiper.Ports.VirtualBus
