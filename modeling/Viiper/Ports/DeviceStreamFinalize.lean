import Viiper.Ports.DeviceStreamOrder

/-!
# Finalization before cleanup

`finish` arms two timers, one to finalize the stream state and one to remove the device,
and a cleanup forces a pending finalization.  `scheduleCleanup` breaks this: on a pending
finalization it makes a new generation, so that the finalization never runs and the
cleanup it armed knows of none (`cleanup_without_finalize`).  In all other runs the
finalization comes first, exactly once, and no record is left behind.
-/

namespace Viiper.Ports.DeviceStream

open Verified.Run List

/-- Cleanup is not scheduled while a finalization is pending, the context stays alive,
and generations do not wrap.  Leases may end at any time. -/
def Undisturbed (s : Slot) (op : Op) : Prop :=
  (op.opens → Unwrapped s) ∧
    match op with
    | .scheduleCleanup => ∀ o ∈ s.state, o.active = false → o.finalizeTimer = none
    | .cancel => False
    | _ => True

instance (s : Slot) (op : Op) : Decidable (Undisturbed s op) := by
  unfold Undisturbed Unwrapped
  split <;> infer_instance

def finalizations (l : Nat) (calls : List Call) : Nat :=
  calls.countP fun c => c.purpose = .finalize l

/-- An armed timer of the record, which runs a callback of kind `kind`. -/
def Armed (s : Slot) (o : Ownership) (t : Nat) (kind : Purpose → Prop) : Prop :=
  t ∈ s.armed ∧ ∃ x, s.timers[t]? = some x ∧ x.Fits o ∧ kind x.purpose

/-- The newest lease, if it was finished, has been finalized exactly once. -/
def Done (s : Slot) : Prop :=
  ∀ l, l + 1 = s.leases.length → s.ending l = some .finished → finalizations l s.calls = 1

/-- The record between two claims: the finalization of lease `l` is pending, or only a
cleanup is. -/
inductive Phase (s : Slot) : Prop
  | empty (ho : s.state = none) (hdone : Done s)
  | active {o : Ownership} (ho : s.state = some o) (hact : o.active)
      (hopen : o.finalized = false) (hc : o.cleanupTimer = none) (hf : o.finalizeTimer = none)
  | pending {o : Ownership} {l c f : Nat} (ho : s.state = some o) (hidle : o.active = false)
      (hl : l + 1 = s.leases.length) (hopen : o.finalized = false)
      (hc : o.cleanupTimer = some c) (hca : Armed s o c fun p => ∃ k, p = .cleanup k)
      (hf : o.finalizeTimer = some f) (hfa : Armed s o f fun p => ∃ k, p = .finalize k)
      (honly : ∀ x ∈ s.timers, x.Fits o → x.purpose.lease? = some l)
      (hnone : finalizations l s.calls = 0)
  | waiting {o : Ownership} {c : Nat} (ho : s.state = some o) (hidle : o.active = false)
      (hc : o.cleanupTimer = some c) (hca : Armed s o c fun p => ∃ k, p = .cleanup k)
      (hf : o.finalizeTimer = none)
      (hno : ∀ x ∈ s.timers, x.Fits o → x.purpose.lease? ≠ none → o.finalized)
      (hdone : Done s)

/-- Every cleanup after a finished lease came after its finalization. -/
def Before (ending : Nat → Option Ending) (calls : List Call) : Prop :=
  ∀ i c b, calls[i]? = some c → c.purpose = .cleanup b →
    ∀ l, l + 1 = c.claims → ending l = some .finished → finalizations l (calls.take i) = 1

/-- What holds of a key after any undisturbed run. -/
structure Finalizing (s : Slot) : Prop where
  inv : Inv s
  alive : s.cancelled = false
  phase : Phase s
  before : Before s.ending s.calls

section Finalizing

variable {s s' : Slot} {o : Ownership} {l : Nat} {lease : Lease} {x : Timer} {op : Op}

theorem Before.snoc {ending : Nat → Option Ending} {calls : List Call} {c : Call}
    (h : Before ending calls) (hc : ∀ b, c.purpose = .cleanup b → ∀ l, l + 1 = c.claims →
      ending l = some .finished → finalizations l calls = 1) : Before ending (calls ++ [c]) := by
  intro i c' b hi hp l hl hfin
  by_cases hlt : i < calls.length
  · rw [take_append_of_le_length (Nat.le_of_lt hlt)]
    exact h i c' b ((getElem?_append_left hlt).symm.trans hi) hp l hl hfin
  · obtain ⟨rfl, rfl⟩ : i = calls.length ∧ c = c' := by grind
    rw [take_left]
    exact hc b hp l hl hfin

/-- A step which leaves the record, its timers and the past alone. -/
theorem Phase.keep (h : Phase s) (hstate : s'.state = s.state) (hleases : s'.leases = s.leases)
    (htimers : s'.timers = s.timers) (hcalls : s'.calls = s.calls)
    (harmed : ∀ o, s.state = some o → o.active = false → ∀ t kind, Armed s o t kind →
      (∀ p, kind p → (∃ k, p = .cleanup k) ∨ o.finalized = false) → t ∈ s'.armed)
    (hending : ∀ l, l + 1 = s.leases.length → s'.ending l = s.ending l) : Phase s' := by
  have hdone : Done s → Done s' := by
    intro hd l hl hfin
    rw [hleases] at hl
    rw [hcalls]
    exact hd l hl ((hending l hl).symm.trans hfin)
  rw [← hstate] at harmed
  cases h with
  | empty ho hd => exact .empty (hstate.trans ho) (hdone hd)
  | active ho hact hopen hc hf => exact .active (hstate.trans ho) hact hopen hc hf
  | pending ho hidle hl hopen hc hca hf hfa honly hnone =>
    have hs := hstate.trans ho
    exact .pending hs hidle (hleases ▸ hl) hopen hc
      ⟨harmed _ hs hidle _ _ hca fun _ h => .inl h, htimers ▸ hca.2⟩ hf
      ⟨harmed _ hs hidle _ _ hfa fun _ _ => .inr hopen, htimers ▸ hfa.2⟩ (htimers ▸ honly)
      (hcalls ▸ hnone)
  | waiting ho hidle hc hca hf hno hd =>
    have hs := hstate.trans ho
    exact .waiting hs hidle hc ⟨harmed _ hs hidle _ _ hca fun _ h => .inl h, htimers ▸ hca.2⟩
      hf (htimers ▸ hno) (hdone hd)

/-- A timer armed for a record does not fit a newer generation of it. -/
theorem Inv.outdated (h : Inv s) (hx : x ∈ s.timers) (ho : s.state = some o) {o' : Ownership}
    (hp : o'.pointer = o.pointer) (hg : o.generation < o'.generation) : ¬ x.Fits o' := by
  intro hfits
  have hle := (h.fenced x hx o ho (hfits.pointer.trans hp)).1
  exact UInt64.not_le.2 hg (hfits.generation ▸ hle)

variable (h : Finalizing s)

include h

/-- Ending a lease which no callback has followed says nothing about the past. -/
theorem Finalizing.settle_before (hopen : s.ending l = none) (e : Ending) :
    Before (s.settle l e).ending s.calls := by
  intro i c b hi hp k hk hfin
  have hne : k ≠ l := by
    rintro rfl
    exact (h.inv.called c (mem_of_getElem? hi)).2.2 k hk hopen
  exact h.before i c b hi hp k hk ((Function.update_of_ne hne _ _).symm.trans hfin)

theorem Finalizing.schedule {n : Nat} (hidle : o.active = false)
    (hr : s.record = ({ s with state := some o, records := n }, o)) (hfew : Unwrapped s)
    (hok : ∀ o ∈ s.state, o.active = false → o.finalizeTimer = none) :
    Phase (Slot.schedule { s with state := some o, records := n } o) := by
  have hrec := h.inv.record hr
  have hfree : o.finalizeTimer = none ∧ Done s := by
    unfold Slot.record at hr
    split at hr
    next o' ho =>
      obtain rfl : o' = o := (Prod.mk.inj hr).2
      have hnone := hok o' ho hidle
      cases h.phase with
      | empty ho' => cases ho.symm.trans ho'
      | waiting _ _ _ _ _ _ hd => exact ⟨hnone, hd⟩
      | _ => grind
    · obtain rfl := (Prod.mk.inj hr).2
      cases h.phase with
      | empty _ hd => exact ⟨rfl, hd⟩
      | _ => grind
  refine .waiting rfl hidle rfl ⟨by simp [Slot.schedule], ?_⟩ hfree.1 ?_ hfree.2
  · exact ⟨⟨.cleanup none, o.pointer, o.generation + 1, s.leases.length⟩,
      by simp [Slot.schedule], ⟨rfl, rfl⟩, none, rfl⟩
  · intro x hx hfits hlease
    rcases mem_append.1 hx with hx | hx
    · exact absurd hfits (hrec.outdated hx rfl rfl (hfew.lt hr))
    · simp [mem_singleton.1 hx, Purpose.lease?] at hlease

/-- The current lease has its record to itself: no timer fits it. -/
theorem Finalizing.current (ho : s.state = some o)
    (hl : s.leases[l]? = some lease) (hcur : s.current l lease) :
    l + 1 = s.leases.length ∧ s.ending l = none ∧ o.finalized = false ∧
      o.cleanupTimer = none ∧ o.finalizeTimer = none ∧ finalizations l s.calls = 0 ∧
        ∀ x ∈ s.timers, ¬ x.Fits o := by
  obtain ⟨hnew, hopen⟩ := (h.inv.current_iff hl).1 hcur
  have hact : o.active := by simpa [active_eq ho] using h.inv.newest l hnew hopen
  have hbare : o.finalized = false ∧ o.cleanupTimer = none ∧ o.finalizeTimer = none := by
    cases h.phase with
    | active ho' _ hz hc hf => cases ho.symm.trans ho'; exact ⟨hz, hc, hf⟩
    | _ => grind
  refine ⟨hnew, hopen, hbare.1, hbare.2.1, hbare.2.2, ?_, fun x hx hfits => ?_⟩
  · refine countP_eq_zero.2 fun c hc => ?_
    have hcalled := (h.inv.called c hc).2
    simp only [decide_eq_true_eq]
    intro hp
    exact hcalled.2 l (hcalled.1 l (by rw [hp]; rfl)).symm hopen
  · simp [((h.inv.fenced x hx o ho hfits.pointer).2 hfits.generation).1] at hact

theorem Finalizing.finish (ho : s.state = some o)
    (hl : s.leases[l]? = some lease) (hcur : s.current l lease) :
    Phase (s.finishCurrent l o) := by
  obtain ⟨hnew, -, hopen, -, -, hnone, hfits⟩ := h.current ho hl hcur
  refine .pending rfl rfl hnew hopen rfl ⟨by simp [Slot.finishCurrent], ?_⟩ rfl
    ⟨by simp [Slot.finishCurrent], ?_⟩ ?_ hnone
  · exact ⟨⟨.cleanup (some l), o.pointer, o.generation, s.leases.length⟩,
      by simp [Slot.finishCurrent], ⟨rfl, rfl⟩, _, rfl⟩
  · exact ⟨⟨.finalize l, o.pointer, o.generation, s.leases.length⟩,
      by simp [Slot.finishCurrent], ⟨rfl, rfl⟩, _, rfl⟩
  · intro x hx hx'
    simp only [Slot.finishCurrent, mem_append, mem_singleton] at hx
    rcases hx with (hx | rfl) | rfl
    · exact absurd ⟨hx'.pointer, hx'.generation⟩ (hfits x hx)
    · rfl
    · rfl

/-- A timer of a lease fits a record which is not finalized: its lease is the newest. -/
theorem Finalizing.pending (hx : x ∈ s.timers) (ho : s.state = some o)
    (hidle : o.active = false) (hfits : x.Fits o) (hk : x.purpose.lease? = some l)
    (hopen : o.finalized = false) :
    l + 1 = s.leases.length ∧ finalizations l s.calls = 0 ∧
      ∃ c, o.cleanupTimer = some c ∧ Armed s o c fun p => ∃ k, p = .cleanup k := by
  cases h.phase with
  | @pending _ l' c _ ho' _ hl _ hc hca _ _ honly hnone =>
    cases ho.symm.trans ho'
    cases hk.symm.trans (honly x hx hfits)
    exact ⟨hl, hnone, c, hc, hca⟩
  | waiting ho' _ _ _ _ hno =>
    cases ho.symm.trans ho'
    simp [hno x hx hfits (by simp [hk])] at hopen
  | _ => grind

/-- Any other timer fits a record which has nothing left to finalize. -/
theorem Finalizing.waiting (hx : x ∈ s.timers) (ho : s.state = some o)
    (hidle : o.active = false) (hfits : x.Fits o)
    (hz : x.purpose.lease? = none ∨ o.finalized) : o.finalizeTimer = none ∧ Done s := by
  cases h.phase with
  | pending ho' _ _ _ _ _ _ _ honly =>
    simp_all
  | waiting ho' _ _ _ hf _ hd => cases ho.symm.trans ho'; exact ⟨hf, hd⟩
  | _ => grind

theorem Finalizing.expire {t : Nat} {u : Option Nat} {o' : Ownership}
    {forced : List Purpose} (hx : s.timers[t]? = some x) (ho : s.state = some o)
    (hidle : o.active = false) (hfits : x.Fits o) (he : Expiry x o u o' forced) :
    let s' := Slot.conclude { (s.stop (some t)).stop u with ran := s.ran ++ [t] } x o' forced
    Phase s' ∧ Before s'.ending s'.calls := by
  have hmem := mem_of_getElem? hx
  obtain ⟨hdone, hconn⟩ := h.inv.idle o ho hidle
  have hnewest : ∀ {k}, k + 1 = s.leases.length → ∀ j, j + 1 = s.leases.length → j = k := by omega
  cases he with
  | @finalize k hp hopen =>
    obtain ⟨hl, hnone, c, hc, ha, y, hy, hyfits, b, hb⟩ :=
      h.pending hmem ho hidle hfits (by rw [hp]; rfl) hopen
    have hcalls : finalizations k (s.calls ++ [⟨x.purpose, x, s.leases.length⟩]) = 1 := by
      simpa [finalizations, hp] using hnone
    simp only [Slot.conclude, Slot.stop, Ownership.unlessTerminal, h.alive, hc]
    refine ⟨.waiting (o := { o with finalizeTimer := none, finalized := true }) ?_ hidle hc
      ⟨?_, y, hy, ⟨hyfits.1, hyfits.2⟩, b, hb⟩ rfl (fun _ _ _ _ => rfl) fun j hj _ => ?_,
      h.before.snoc fun b hb => by simp [hp] at hb⟩
    · simp [hc]
    · grind
    · exact hnewest hl j hj ▸ hcalls
  | @cleanup k hp hz =>
    obtain ⟨hf, hd⟩ := h.waiting hmem ho hidle hfits (by simpa [hp, Purpose.lease?] using hz)
    simp only [Slot.conclude, Slot.stop, Ownership.unlessTerminal, h.alive, hf, hidle, hdone, hconn]
    refine ⟨.empty rfl fun j hj hfin => ?_, h.before.snoc fun _ _ => hd⟩
    simpa [finalizations, hp] using hd j hj hfin
  | @forced k hp hopen =>
    obtain ⟨hl, hnone, -⟩ := h.pending hmem ho hidle hfits (by rw [hp]; rfl) hopen
    have hcalls : finalizations k (s.calls ++ [⟨.finalize k, x, s.leases.length⟩]) = 1 := by
      simpa [finalizations] using hnone
    simp only [Slot.conclude, Slot.stop, Ownership.unlessTerminal, h.alive, hidle, hdone, hconn]
    rw [map_append, ← append_assoc]
    refine ⟨.empty rfl fun j hj hfin => ?_,
      (h.before.snoc fun b hb => by cases hb).snoc fun _ _ j hj _ => hnewest hl j hj ▸ hcalls⟩
    simpa [finalizations, hp, hnewest hl j hj] using hnone

theorem Finalizing.move (hok : Undisturbed s op) (hm : Move s op s') : Finalizing s' := by
  have hinv := h.inv.move hok.1 hm
  cases hm with
  | stay => exact h
  | goto _ hl ht =>
    exact ⟨hinv, h.alive, h.phase.keep rfl rfl rfl rfl (fun _ _ _ _ _ ha _ => ha.1)
      fun _ _ => rfl, h.before⟩
  | claim conn _ hr => exact ⟨hinv, h.alive, .active rfl rfl rfl rfl rfl, h.before⟩
  | @settle l lease e hl hopen hcur =>
    refine ⟨hinv, h.alive, h.phase.keep rfl rfl rfl rfl (fun _ _ _ _ _ ha _ => ha.1)
      fun k hk => ?_, h.settle_before hopen e⟩
    refine Function.update_of_ne ?_ _ _
    rintro rfl
    simp [(h.inv.current_iff hl).2 ⟨hk, hopen⟩] at hcur
  | finish hl ho hcur =>
    exact ⟨hinv, h.alive, h.finish ho hl hcur,
      h.settle_before ((h.inv.current_iff hl).1 hcur).2 .finished⟩
  | @abandon l lease o hl ho hcur =>
    obtain ⟨hnew, hopen, -, hc, hf, -⟩ := h.current ho hl hcur
    refine ⟨hinv, h.alive, .empty ?_ ?_, h.settle_before hopen .abandoned⟩
    · simp [Slot.abandonCurrent, Ownership.unlessTerminal, hc, hf]
    · intro k (hk : k + 1 = s.leases.length) hfin
      obtain rfl : k = l := by omega
      simp [Slot.abandonCurrent, Slot.settle] at hfin
  | schedule hidle hr => exact ⟨hinv, h.alive, h.schedule hidle hr (hok.1 rfl) hok.2, h.before⟩
  | @stale t x hx hstale =>
    refine ⟨hinv, h.alive, h.phase.keep rfl rfl rfl rfl ?_ fun _ _ => rfl, h.before⟩
    rintro o ho hidle t' kind ⟨ha, x', hx', hfits, hkind⟩ hp
    refine mem_filter.2 ⟨ha, ?_⟩
    grind
  | expire hx ho hidle hfits he =>
    obtain ⟨hphase, hbefore⟩ := h.expire hx ho hidle hfits he
    exact ⟨hinv, h.alive, hphase, hbefore⟩
  | cancel => exact hok.2.elim

end Finalizing

theorem Finalizing.new : Finalizing {} where
  inv := .new
  alive := rfl
  phase := .empty rfl (by simp [Done])
  before := by simp [Before]

/-- **Finalization before cleanup.**  After any run of the coordinator in which no
cleanup is scheduled on a pending finalization and no context is done, for every
key: before every cleanup which was run after a lease had finished, without a later
claim, the finalize callback of that lease was run exactly once; and once every
timer has fired or was stopped and no lease is active, there is no record. -/
theorem finalized_before_cleanup {Key : Type} [DecidableEq Key] (ops : List (Key × Op))
    (hrun : Allowed coordinator (fun _ w op => Undisturbed (w op.1) op.2) [] (fun _ => {}) ops)
    (key : Key) :
    let s := final coordinator (fun _ => {}) ops key
    (∀ i c b, s.calls[i]? = some c → c.purpose = .cleanup b → ∀ l, l + 1 = c.claims →
      s.ending l = some .finished → finalizations l (s.calls.take i) = 1) ∧
    (s.armed = [] → s.active = false → s.state = none) := by
  have h : Finalizing (final coordinator (fun _ => {}) ops key) := by
    rw [show final coordinator _ ops key = _ from final_each _ ops key]
    exact history_induction (P := fun _ s => Finalizing s) .new
      (fun _ s op h hok => h.move hok (step_move s op)) _ (allowed_each hrun key [])
  refine ⟨h.before, fun harmed hidle => ?_⟩
  cases h.phase with
  | empty ho => exact ho
  | active ho hact => rw [active_eq ho, hact] at hidle; cases hidle
  | pending _ _ _ _ _ hca | waiting _ _ _ hca =>
    have hmem := hca.1
    simp [harmed] at hmem

/-- A stream comes and goes. -/
def visit : List (Unit × Op) :=
  [.claim (some 0) true, .select 0 true, .checkTurn 0, .start 0, .handlerReturns 0,
    .leave 0 .finished].map ((), ·)

theorem visit_finalized_before_cleanup :
    (final coordinator (fun _ => {}) (visit ++ [((), .fire 1)]) ()).calls.length = 2 ∧
    finalizations 0 ((final coordinator (fun _ => {}) (visit ++ [((), .fire 1)]) ()).calls.take 1)
      = 1 :=
  ⟨by decide, (finalized_before_cleanup (visit ++ [((), .fire 1)]) (by decide) ()).1 1
    ⟨.cleanup (some 0), ⟨.cleanup (some 0), 0, 1, 1⟩, 1⟩ (some 0) (by decide) rfl 0 rfl (by decide)⟩

/-- The stream comes and goes before the initial cleanup is scheduled: the cleanup
runs without a finalization, and the record stays when no timer is left. -/
theorem cleanup_without_finalize :
    let s := final coordinator (fun _ => {})
      (visit ++ [((), .scheduleCleanup), ((), .fire 2), ((), .fire 0)]) ()
    s.ending 0 = some .finished ∧ s.calls.map (·.purpose) = [.cleanup none] ∧
      s.calls.map (·.claims) = [1] ∧ s.armed = [] ∧ s.active = false ∧ s.state ≠ none := by
  decide

end Viiper.Ports.DeviceStream
