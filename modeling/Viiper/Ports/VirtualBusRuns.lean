import Viiper.Ports.VirtualBusRemoval

/-!
# Runs of the bus

The history of a run: which registrations were added, which removals were
credited to a call, when the bus was closed and what that close took.
-/

namespace Viiper.Ports.VirtualBus

open Verified Run Function List World Bus

variable {δ : Type} [DecidableEq δ] {w w' : World δ} {s : DeviceMeta δ} {a : Answer δ}
  {cs : List Nat}

abbrev BusEvent (δ : Type) := Event (World δ) (Op δ) (Answer δ)

/-- The incarnations which the answer of a call at `pc` reports as removed by the call itself:
those of the snapshots it returns, or the one which it has marked.  A call which has only
waited for the removal of another one reports none. -/
def Answer.reports (pc : Pc δ) (a : Answer δ) : List Nat :=
  match pc, a with
  | .joining _ _, _ => []
  | _, .snapshot (.ok s) => s.lifecycle.toList
  | _, .taken (some ss) => ss.filterMap (·.lifecycle)
  | pc, .removed (.ok true) => pc.owns.map (·.lifecycle)
  | _, _ => []

def reports (ev : BusEvent δ) : List Nat :=
  match ev.op with
  | .run g => ev.out.reports (ev.pre.calls g)
  | _ => []

/-- How often the incarnation was reported as removed. -/
def credits (evs : List (BusEvent δ)) (i : Nat) : Nat :=
  (evs.map fun ev => (reports ev).count i).sum

/-- How often the bus number was deleted. -/
def releases (evs : List (BusEvent δ)) : Nat := (evs.map fun ev => ev.out.releases).sum

def Answer.registration : Answer δ → Option (DeviceMeta δ)
  | .added (.ok a) => some a
  | _ => none

/-- What the successful Adds returned. -/
def added (evs : List (BusEvent δ)) : List (DeviceMeta δ) :=
  evs.filterMap fun ev => ev.out.registration

/-- The removal of the incarnation was marked. -/
def Bus.markedFor (vb : Bus δ) (a : DeviceMeta δ) : Bool :=
  (a.lifecycle.bind (vb.lifecycles[·]?)).any (·.removing)

/-- A step has closed the bus and taken `marked`; every Add was in time for it, or
its incarnation was already marked by another call. -/
def Took (evs : List (BusEvent δ)) (marked : List (Marked δ)) : Prop :=
  ∃ ev ∈ evs, ev.pre.bus.closed = false ∧ ev.post.bus.closed ∧ marked = ev.pre.bus.takes ∧
    ∀ a ∈ added evs, a ∈ marked.map (·.snapshot) ∨ ev.pre.bus.markedFor a

def Pc.taken : Pc δ → Option (List (Marked δ))
  | .finishing _ _ (.close marked _) => some marked
  | .draining _ marked => some marked
  | .releasing taken => taken
  | .signalling taken => taken
  | _ => none

/-- The call of the goroutine still holds what it has taken, or has returned it. -/
def Returned (evs : List (BusEvent δ)) (w : World δ) (g : Nat) (marked : List (Marked δ)) : Prop :=
  (w.calls g).taken = some marked ∨ ∃ ev ∈ evs, ev.pre.calls g ≠ .idle ∧ ev.post.calls g = .idle ∧
    ev.out = .taken (some (marked.map (·.snapshot)))

/-- What the history of a run tells about its state. -/
structure History (busID : Nat) (evs : List (BusEvent δ)) (w : World δ) : Prop where
  inv : Inv w (credits evs) (releases evs)
  number : w.bus.busID = busID
  table : releases evs = 0 → busID ∈ w.allocatedBusIds
  minted : ∀ a ∈ added evs, ∃ i, w.bus.Minted a i
  tokens : ((added evs).map (·.registrationToken)).Pairwise (· < ·)
  bound : ∀ a ∈ added evs, a.registrationToken ≤ w.bus.nextRegistrationToken
  shut : ∀ ev ∈ evs, ev.post.bus.closed → w.bus.closed
  taking : ∀ g marked, (w.calls g).taken = some marked → Took evs marked
  took : ∀ ev ∈ evs, ∀ removed, ev.out = .taken (some removed) →
    ∃ marked, removed = marked.map (·.snapshot) ∧ Took evs marked
  returned : ∀ ev ∈ evs, ∀ g, ev.op = .call g .closeAndTake → ev.pre.calls g = .idle →
    ev.pre.bus.closed = false → Took evs ev.pre.bus.takes ∧ Returned evs w g ev.pre.bus.takes

theorem History.new (busID : Nat) : History busID [] (newWorld δ busID) where
  inv := .new busID
  number := rfl
  table := fun _ => mem_singleton_self _
  minted := by simp [added]
  tokens := by simp [added]
  bound := by simp [added]
  shut := by simp
  taking := by simp [newWorld, Pc.taken]
  took := by simp
  returned := by simp

section Step

variable {busID : Nat} {evs : List (BusEvent δ)}

section Move

variable (hm : Move w w' a cs)

include hm

/-- A step keeps the bus number and does not open the bus again. -/
theorem Move.bus_kept {c : Nat → Nat} {r : Nat} (h : Inv w c r) :
    w'.bus.busID = w.bus.busID ∧ (w.bus.closed → w'.bus.closed) ∧
      w.bus.nextRegistrationToken ≤ w'.bus.nextRegistrationToken := by
  cases hm with
  | add published exportBusID ha hdevice => exact ⟨rfl, id, Nat.le_succ _⟩
  | close | closeEmpty => exact ⟨rfl, fun _ => rfl, Nat.le_refl _⟩
  | finish hpc hlease =>
    obtain ⟨d, hd, hkey, -⟩ := h.marked (Pc.drives_first hpc)
    simp only [goto, ← hkey, h.ledger.finish_eq hd]
    exact ⟨rfl, id, Nat.le_refl _⟩
  | _ => exact ⟨rfl, id, Nat.le_refl _⟩

/-- What an answer tells if it is not plain. -/
inductive Told (w w' : World δ) : Answer δ → List Nat → Prop
  | plain {a : Answer δ} (ha : a.Plain) : Told w w' a []
  | added {device : BusDevice δ} (hopen : w.bus.closed = false)
      (hbus : w'.bus = w.bus.withRegistration device)
      (htoken : device.registrationToken = w.bus.nextRegistrationToken + 1)
      (hplace : device.lifecycle = w.bus.lifecycles.length) :
      Told w w' (.added (.ok (deviceMetaLocked device))) []
  | taken {g : Nat} {marked : List (Marked δ)} (hpc : w.calls g = .signalling (some marked)) :
      Told w w' (.taken (some (marked.map (·.snapshot)))) (marked.map (·.lifecycle))
  | removal {g : Nat} {r : Bool} {k : Remover} {m : Marked δ}
      (hpc : w.calls g = .finishing r [] (.removal k m)) : Told w w' (k.report m) [m.lifecycle]
  | joined {g : Nat} {m : Marked δ} (hpc : w.calls g = .joining .byID m)
      (hdone : w.bus.removalDone m.lifecycle) : Told w w' (Remover.byID.report m) []
  | lease {l : Nat} {snapshot : DeviceMeta δ} (hl : snapshot.lifecycle = some l)
      (hauth : w.bus.authenticatesRegistrationLocked snapshot) (hheld : l ∈ w'.leases) :
      Told w w' (.lease (some l)) []
  | released : Told w w' .released []

theorem Move.told : Told w w' a cs := by
  cases hm with
  | stay ha | publish _ ha | aside _ _ _ _ _ _ ha => exact .plain ha
  | add published exportBusID ha hdevice =>
    exact .added ha.opened rfl (hdevice ▸ rfl) (hdevice ▸ rfl)
  | closed hpc ha =>
    rcases ha with ⟨rfl, ha⟩ | ⟨marked, rfl, rfl⟩
    · exact .plain ha
    · exact .taken hpc
  | back hpc ha =>
    rcases ha with ha | ⟨m, hjoin, hdone, rfl⟩
    · exact .plain ha
    · exact .joined hjoin hdone
  | credit hpc => exact .removal hpc
  | lease hpc hl hopen hauth => exact .lease hl hauth mem_cons_self
  | release hpc => exact .released
  | _ => exact .plain trivial

/-- A registration which a step answers with was made by it on an open bus. -/
theorem Move.registered {b : DeviceMeta δ} (hb : a.registration = some b) :
    (w.bus.closed = false ∧ w'.bus.closed = false) ∧
      (w.bus.nextRegistrationToken < b.registrationToken ∧
        b.registrationToken ≤ w'.bus.nextRegistrationToken) ∧ ∃ i, w'.bus.Minted b i := by
  cases hm.told with
  | plain ha =>
    cases a with
    | added r => cases r with
      | ok a => exact ha.elim
      | error err => cases hb
    | _ => cases hb
  | @added device hopen hbus htoken hplace =>
    cases hb
    rw [hbus]
    refine ⟨⟨hopen, hopen⟩, ⟨Nat.le_of_eq htoken.symm, Nat.le_of_eq htoken⟩, device.lifecycle,
      { dev := device.dev, exportMeta := device.exportMeta
        token := w.bus.nextRegistrationToken + 1 }, ?_, ?_⟩
    · rw [hplace, withRegistration, getElem?_concat_length]
    · rw [deviceMetaLocked, metaOf, htoken]
  | @removal _ _ k => cases k <;> cases hb
  | _ => cases hb

/-- One goroutine moves: what it has taken stays with it, unless it starts to close the bus
or returns. -/
theorem Move.taking : w'.calls = w.calls ∨ ∃ g pc, w'.calls = update w.calls g pc ∧
    (pc.taken = (w.calls g).taken ∨
      (w.calls g).taken = none ∧ pc.taken = some w.bus.takes ∧
        w.bus.closed = false ∧ w'.bus.closed ∨
      pc = .idle ∧ ∀ marked, (w.calls g).taken = some marked →
        a = .taken (some (marked.map (·.snapshot)))) := by
  cases hm with
  | stay | add | publish | aside => exact .inl rfl
  | mark _ hidle | closeEmpty hidle => exact .inr ⟨_, _, rfl, .inl (by rw [hidle]; rfl)⟩
  | close hidle hopen => exact .inr ⟨_, _, rfl, .inr (.inl ⟨by rw [hidle]; rfl, rfl, hopen, rfl⟩)⟩
  | @start g pc hidle hpc =>
    refine .inr ⟨g, pc, rfl, .inl ?_⟩
    rw [hidle]
    cases pc <;> first | exact hpc.elim | rfl
  | @finish _ _ _ k hpc | @signal _ _ _ k hpc =>
    exact .inr ⟨_, _, rfl, .inl (by rw [hpc]; cases k <;> rfl)⟩
  | drain hpc | drained hpc | clear hpc | release hpc | lease hpc | credit hpc =>
    exact .inr ⟨_, _, rfl, .inl (by rw [hpc]; rfl)⟩
  | @back g _ hpc =>
    refine .inr ⟨g, .idle, rfl, .inl ?_⟩
    generalize w.calls g = pc at hpc
    cases pc <;> first | exact hpc.elim | rfl
  | closed hpc ha =>
    refine .inr ⟨_, .idle, rfl, .inr (.inr ⟨rfl, fun marked ht => ?_⟩)⟩
    rw [hpc] at ht
    rcases ha with ⟨rfl, -⟩ | ⟨_, rfl, rfl⟩ <;> cases ht
    rfl

/-- A call which takes what a close has marked got it from that close. -/
theorem Move.taken {g : Nat} {marked : List (Marked δ)} (ht : (w'.calls g).taken = some marked) :
    (∃ g, (w.calls g).taken = some marked) ∨
      w.bus.closed = false ∧ w'.bus.closed ∧ marked = w.bus.takes := by
  rcases hm.taking with hsame | ⟨g', pc, hcalls, hpc⟩
  · exact .inl ⟨g, hsame ▸ ht⟩
  rw [hcalls, update_apply] at ht
  split at ht
  · rcases hpc with heq | ⟨-, heq, hclose⟩ | ⟨rfl, -⟩
    · exact .inl ⟨g', heq.symm.trans ht⟩
    · exact .inr ⟨hclose.1, hclose.2, Option.some.inj (ht.symm.trans heq)⟩
    · cases ht
  · exact .inl ⟨g, ht⟩

/-- A call keeps what it has taken until it returns it. -/
theorem Move.taken_kept {g : Nat} {marked : List (Marked δ)}
    (ht : (w.calls g).taken = some marked) :
    (w'.calls g).taken = some marked ∨
      w'.calls g = .idle ∧ a = .taken (some (marked.map (·.snapshot))) := by
  rcases hm.taking with hsame | ⟨g', pc, hcalls, hpc⟩
  · exact .inl (hsame ▸ ht)
  rw [hcalls, update_apply]
  split
  next heq =>
    subst heq
    rcases hpc with heq | ⟨hnone, -⟩ | ⟨rfl, hout⟩
    · exact .inl (heq.trans ht)
    · cases ht.symm.trans hnone
    · exact .inr ⟨rfl, hout marked ht⟩
  · exact .inl ht

/-- The number is deleted only by the step which tells so. -/
theorem Move.table (hzero : a.releases = 0) {b : Nat}
    (hb : b ∈ w.allocatedBusIds) : b ∈ w'.allocatedBusIds := by
  cases hm with
  | aside ctx contexts leases table hsub htable ha => exact htable b hb
  | release hpc => cases hzero
  | _ => exact hb

/-- The answer of a close is what it has taken. -/
theorem Move.answers {removed : List (DeviceMeta δ)} (ha : a = .taken (some removed)) :
    ∃ g marked, (w.calls g).taken = some marked ∧ removed = marked.map (·.snapshot) := by
  cases hm.told with
  | plain hp =>
    rw [ha] at hp
    exact hp.elim
  | @taken g marked hpc =>
    cases ha
    exact ⟨g, marked, by rw [hpc]; rfl, rfl⟩
  | @removal _ _ k => cases k <;> cases ha
  | _ => cases ha

end Move

/-- What a call reports is what its place in the program says it has removed. -/
theorem reports_eq {c : Nat → Nat} {r : Nat} (h : Inv w c r) (op : Op δ) :
    reports (event World.step w op) = w.credit op := by
  cases op with
  | run g =>
    show (w.resume g).2.reports (w.calls g) = (w.calls g).credit
    have hkeys : ∀ m ∈ (w.calls g).cites, m.snapshot.lifecycle = some m.lifecycle := fun m hm => by
      obtain ⟨l, -, hmeta⟩ := (h.ok g).minted m hm
      rw [hmeta]
      rfl
    unfold resume
    cases hpc : w.calls g with
    | finishing removed todo k =>
      rw [hpc] at hkeys
      cases todo with
      | cons m todo =>
        cases removed with
        | false => dsimp only; split <;> rfl
        | true => rfl
      | nil =>
        cases k with
        | removal k m =>
          have hkey := hkeys m (mem_singleton_self m)
          cases removed <;> cases k <;>
            simp [Answer.reports, Pc.credit, Pc.owns, After.owns, hkey]
        | close marked waiting => cases removed <;> rfl
    | draining waiting marked =>
      cases waiting with
      | nil => rfl
      | cons l waiting => dsimp only; split <;> rfl
    | signalling taken =>
      cases taken with
      | none => rfl
      | some marked =>
        rw [hpc] at hkeys
        have hall : marked.filterMap (·.snapshot.lifecycle) = marked.filterMap (some ·.lifecycle) :=
          filterMap_congr hkeys
        show (marked.map (·.snapshot)).filterMap (·.lifecycle) = marked.map (·.lifecycle)
        simpa [filterMap_map] using hall
    | joiningClose => dsimp only; split <;> rfl
    | acquiring snapshot =>
      dsimp only
      split
      · rfl
      · split <;> rfl
    | _ => rfl
  | _ => rfl

/-- The step which closes the bus takes every incarnation nobody has marked. -/
theorem History.closes (h : History busID evs w) (b : DeviceMeta δ) (hb : b ∈ added evs) :
    b ∈ w.bus.takes.map (·.snapshot) ∨ w.bus.markedFor b := by
  obtain ⟨i, l, hl, rfl⟩ := h.minted b hb
  cases hr : l.removing with
  | true => exact .inr (by simp [markedFor, metaOf, hl, hr])
  | false =>
    have hactive : l.active := by
      by_contra ha
      have := (h.inv.ledger.sane i l hl).marked (by simpa using ha)
      simp [hr] at this
    obtain ⟨d, hd, rfl⟩ := h.inv.ledger.registered i l hl hactive
    obtain ⟨l', hl', heq⟩ := h.inv.ledger.minted hd
    obtain rfl := Option.mem_unique hl hl'
    refine .inl (mem_map.2 ⟨⟨deviceMetaLocked d, d.lifecycle⟩, ?_, heq⟩)
    exact mem_map_of_mem (mem_filter.2 ⟨hd, by simp [removingLocked, hl, hr]⟩)

/-- What was taken before the bus is closed stays taken. -/
theorem Took.snoc {marked : List (Marked δ)} {ev : BusEvent δ} (h : Took evs marked)
    (hnone : ev.out.registration = none) : Took (evs ++ [ev]) marked := by
  obtain ⟨ev', hev, hpre, hpost, heq, hall⟩ := h
  refine ⟨ev', mem_append_left _ hev, hpre, hpost, heq, fun b hb => hall b ?_⟩
  simpa [added, hnone] using hb

theorem History.step (h : History busID evs w) (op : Op δ) :
    History busID (evs ++ [event World.step w op]) (w.step op).1 := by
  have hm := step_move w op
  have hcredits : credits (evs ++ [event World.step w op]) =
      fun i => credits evs i + (w.credit op).count i := by
    funext i
    simp [credits, reports_eq h.inv]
  have hreleases : releases (evs ++ [event World.step w op]) =
      releases evs + (w.step op).2.releases := by
    simp [releases]
  have hadded : added (evs ++ [event World.step w op]) =
      added evs ++ (w.step op).2.registration.toList := by
    cases hr : (w.step op).2.registration <;> simp [added, hr]
  have hmem : ∀ b ∈ added (evs ++ [event World.step w op]),
      b ∈ added evs ∨ (w.step op).2.registration = some b := by
    simp [hadded]
  obtain ⟨hnumber, hclosed, hnext⟩ := hm.bus_kept h.inv
  obtain ⟨hgrows, -⟩ := h.inv.follows hm
  -- an Add is impossible once a close has taken something
  have htook : ∀ {marked}, Took evs marked → Took (evs ++ [event World.step w op]) marked := by
    intro marked ht
    refine ht.snoc (Option.eq_none_iff_forall_ne_some.2 fun b hb => ?_)
    obtain ⟨ev, hev, -, hpost, -⟩ := ht
    cases (h.shut ev hev hpost).symm.trans (hm.registered hb).1.1
  have htaking : ∀ g marked, ((w.step op).1.calls g).taken = some marked →
      Took (evs ++ [event World.step w op]) marked := by
    intro g marked ht
    rcases hm.taken ht with ⟨g', ht'⟩ | ⟨hopen, hshut, rfl⟩
    · exact htook (h.taking g' marked ht')
    refine ⟨event World.step w op, by simp, hopen, hshut, rfl, fun b hb => ?_⟩
    rcases hmem b hb with hb | hb
    · exact h.closes b hb
    · cases hshut.symm.trans (hm.registered hb).1.2
  refine
    { inv := by rw [hcredits, hreleases]; exact h.inv.step hm
      number := hnumber.trans h.number
      table := fun hz => ?_
      minted := fun b hb => ?_
      tokens := ?_
      bound := fun b hb => ?_
      shut := fun ev hev hpost => ?_
      taking := htaking
      took := fun ev hev removed hout => ?_
      returned := fun ev hev g hop hidle hopen => ?_ }
  · rw [hreleases] at hz
    exact hm.table (by omega) (h.table (by omega))
  · rcases hmem b hb with hb | hb
    · obtain ⟨i, hi⟩ := h.minted b hb
      exact ⟨i, hi.grows hgrows⟩
    · exact (hm.registered hb).2.2
  · rw [hadded, map_append, pairwise_append]
    refine ⟨h.tokens, by cases (w.step op).2.registration <;> simp, fun t ht t' ht' => ?_⟩
    obtain ⟨b, hb, rfl⟩ := mem_map.1 ht
    obtain ⟨b', hb', rfl⟩ := mem_map.1 ht'
    have hnew := (hm.registered (Option.mem_toList.1 hb')).2.1.1
    exact Nat.lt_of_le_of_lt (h.bound b hb) hnew
  · rcases hmem b hb with hb | hb
    · exact Nat.le_trans (h.bound b hb) hnext
    · exact (hm.registered hb).2.1.2
  · rcases mem_append.1 hev with hev | hev
    · exact hclosed (h.shut ev hev hpost)
    · rw [mem_singleton.1 hev] at hpost
      exact hpost
  · rcases mem_append.1 hev with hev | hev
    · obtain ⟨marked, heq, ht⟩ := h.took ev hev removed hout
      exact ⟨marked, heq, htook ht⟩
    · rw [mem_singleton.1 hev] at hout
      obtain ⟨g, marked, ht, heq⟩ := hm.answers hout
      exact ⟨marked, heq, htook (h.taking g marked ht)⟩
  · rcases mem_append.1 hev with hev | hev
    · obtain ⟨ht, hreturned⟩ := h.returned ev hev g hop hidle hopen
      refine ⟨htook ht, ?_⟩
      rcases hreturned with ht | ⟨ev', hev', hrest⟩
      · rcases hm.taken_kept ht with hkept | ⟨hback, hout⟩
        · exact .inl hkept
        refine .inr ⟨event World.step w op, by simp, fun hfree => ?_, hback, hout⟩
        rw [show w.calls g = .idle from hfree] at ht
        cases ht
      · exact .inr ⟨ev', mem_append_left _ hev', hrest⟩
    · obtain rfl := mem_singleton.1 hev
      obtain rfl : op = _ := hop
      have hw : w.calls g = .idle ∧ w.bus.closed = false := ⟨hidle, hopen⟩
      have ht : ((w.step (.call g .closeAndTake)).1.calls g).taken = some w.bus.takes := by
        simp [World.step, start, closeAndTake, goto, hw, Pc.taken, Bus.takes]
      exact ⟨htaking g _ ht, .inl ht⟩

theorem history_run (busID : Nat) (ops : List (Op δ)) :
    History busID (trace step (newWorld δ busID) ops) (final step (newWorld δ busID) ops) :=
  Run.history_run (History.new busID) (fun _ _ op h => h.step op) ops

end Step

/-! ## The ledger -/

/-- What is listed is what the lookups find by id and by device, and it authenticates
as long as the bus is open. -/
theorem lookups_agree (busID : Nat) (ops : List (Op δ)) :
    let vb := (final step (newWorld δ busID) ops).bus
    s ∈ vb.getAllDeviceMetas ↔ vb.getDeviceImportSnapshot s.exportMeta.devID = some s ∧
      vb.getDeviceByID s.exportMeta.devID = s.dev ∧ s.dev.bind vb.getDeviceContext = s.lifecycle ∧
      vb.authenticatesRegistration s = !vb.closed := by
  intro vb
  have h : vb.Ledger := (history_run busID ops).inv.ledger
  constructor
  · intro hs
    obtain ⟨d, hd, rfl⟩ := mem_map.1 hs
    obtain ⟨hin, hshown⟩ := mem_filter.1 hd
    obtain ⟨l, hl, hb⟩ := h.backed d hin
    have hid := discover_key h.ids hin hshown
    refine ⟨congrArg (Option.map _) hid, congrArg (Option.map _) hid,
      congrArg (Option.map _) (discover_key h.devs hin hshown), ?_⟩
    -- the snapshot names its own lifecycle, which is active and not marked
    have hlife : (deviceMetaLocked d).lifecycle.bind (vb.lifecycles[·]?) = some l := hl
    have hopen : (l.active && !l.removing) := by
      rw [deviceDiscoverableLocked, registrationActiveLocked, hl, Bool.and_eq_true] at hshown
      exact hshown.2
    have hmatch : vb.registrationIdentityMatchesLocked (deviceMetaLocked d) := by
      rw [registrationIdentityMatchesLocked, hlife]
      simp [deviceMetaLocked, hb.dev, hb.exportMeta, hb.token]
    have hauth : vb.authenticatesRegistrationLocked (deviceMetaLocked d) := by
      rw [authenticatesRegistrationLocked, hmatch, hlife]
      exact hopen
    have htoken : d.registrationToken = d.lifecycle + 1 := hb.token.symm.trans (h.tokens _ l hl)
    have hform : wellFormed (deviceMetaLocked d) := by
      simp [wellFormed, deviceMetaLocked, htoken]
    rw [authenticatesRegistration, hauth, hform]
    simp [deviceMetaLocked]
  · rintro ⟨hs, -⟩
    obtain ⟨d, hd, rfl⟩ := Option.map_eq_some_iff.1 hs
    have hshown := find?_some hd
    rw [Bool.and_eq_true] at hshown
    exact mem_map.2 ⟨d, mem_filter.2 ⟨mem_of_find?_eq_some hd, hshown.1⟩, rfl⟩

/-! ## Credit for removals -/

end Viiper.Ports.VirtualBus
