import Viiper.Ports.DeviceStream
import Viiper.Verified.GoTypes

/-!
# One handler at a time, in the order of the claims

`Inv` holds after any run, whoever ends a lease and when: a lease is current exactly if it
is the newest one and has not ended, and a timer whose function still finds its record and
its generation was armed after the last claim.  `Dispatched` adds the order of
`handleConn`, where a lease is finished after its handler has returned and abandoned only
if it got no turn.
-/

namespace Viiper.Ports.DeviceStream

open Verified.Run Function List Slot

variable {s : Slot} {l : Nat} {o : Ownership}

/-! ## What a step can do -/

/-- The goroutine of a lease goes on. -/
inductive Turn (s : Slot) (l : Nat) (lease : Lease) : Place → Prop
  | released (hp : s.place l = .waiting)
      (hdone : ∀ p, lease.previousDone = some p → s.ending p ≠ none) : Turn s l lease .released
  | granted (hp : s.place l = .released) (hcur : s.current l lease) : Turn s l lease .granted
  | superseded (hp : s.place l = .released) (hcur : s.current l lease = false) :
      Turn s l lease .refused
  | cancelled (hp : s.place l = .waiting ∨ s.place l = .granted) (hc : s.cancelled) :
      Turn s l lease .refused
  | running (hp : s.place l = .granted) (hc : s.cancelled = false) : Turn s l lease .running
  | returned (hp : s.place l = .running) : Turn s l lease .returned

/-- A timer was armed for this record in its present generation. -/
structure Timer.Fits (x : Timer) (o : Ownership) : Prop where
  pointer : x.pointer = o.pointer
  generation : x.generation = o.generation

/-- What a timer's function does to the record it was armed for: the timer it stops,
the new record, and the callbacks it runs before its own. -/
inductive Expiry (x : Timer) (o : Ownership) : Option Nat → Ownership → List Purpose → Prop
  | finalize {l : Nat} (hp : x.purpose = .finalize l) (hf : o.finalized = false) :
      Expiry x o none { o with finalizeTimer := none, finalized := true } []
  | cleanup {l : Option Nat} (hp : x.purpose = .cleanup l) (hf : l = none ∨ o.finalized) :
      Expiry x o none { o with cleanupTimer := none } []
  | forced {l : Nat} (hp : x.purpose = .cleanup (some l)) (hf : o.finalized = false) :
      Expiry x o o.finalizeTimer
        { o with cleanupTimer := none, finalizeTimer := none, finalized := true } [.finalize l]

inductive Move (s : Slot) : Op → Slot → Prop
  | stay (op : Op) : Move s op s
  | goto {l : Nat} {lease : Lease} {p : Place} (op : Op) (hl : s.leases[l]? = some lease)
      (ht : Turn s l lease p) : Move s op (s.goto l p)
  | claim {o : Ownership} {n : Nat} (conn : Option Nat) (replace : Bool)
      (hr : s.record = ({ s with state := some o, records := n }, o)) :
      Move s (.claim conn replace) (Slot.claim { s with state := some o, records := n } o conn)
  | settle {l : Nat} {lease : Lease} (e : Ending) (hl : s.leases[l]? = some lease)
      (hopen : s.ending l = none) (hcur : s.current l lease = false) :
      Move s (.leave l e) (s.settle l e)
  | finish {l : Nat} {lease : Lease} {o : Ownership} (hl : s.leases[l]? = some lease)
      (ho : s.state = some o) (hcur : s.current l lease) :
      Move s (.leave l .finished) (s.finishCurrent l o)
  | abandon {l : Nat} {lease : Lease} {o : Ownership} (hl : s.leases[l]? = some lease)
      (ho : s.state = some o) (hcur : s.current l lease) :
      Move s (.leave l .abandoned) (s.abandonCurrent l o)
  | schedule {o : Ownership} {n : Nat} (hidle : o.active = false)
      (hr : s.record = ({ s with state := some o, records := n }, o)) :
      Move s .scheduleCleanup (Slot.schedule { s with state := some o, records := n } o)
  | stale {t : Nat} {x : Timer} (hx : s.timers[t]? = some x)
      (hstale : ∀ o, s.state = some o → o.active = false → x.Fits o →
        o.finalized ∧ ∃ l, x.purpose = .finalize l) :
      Move s (.fire t) { s.stop (some t) with ran := s.ran ++ [t] }
  | expire {t : Nat} {x : Timer} {o o' : Ownership} {u : Option Nat} {forced : List Purpose}
      (hx : s.timers[t]? = some x) (ho : s.state = some o) (hidle : o.active = false)
      (hfits : x.Fits o) (he : Expiry x o u o' forced) :
      Move s (.fire t) (Slot.conclude
        { (s.stop (some t)).stop u with ran := s.ran ++ [t] } x o' forced)
  | cancel : Move s .cancel { s with cancelled := true }

theorem record_eq (s : Slot) : ∃ o n, s.record = ({ s with state := some o, records := n }, o) := by
  unfold record
  split
  next o ho => exact ⟨o, s.records, by rw [← ho]⟩
  · exact ⟨_, _, rfl⟩

theorem move_at {p : Place} {f : Lease → Slot × Answer} {op : Op}
    (h : ∀ lease, s.leases[l]? = some lease → s.place l = p → Move s op (f lease).1) :
    Move s op (s.at l p f).1 := by
  unfold Slot.at
  split
  · exact .stay op
  split
  · exact h _ ‹_› ‹_›
  · exact .stay op

theorem move_leave {lease : Lease} (hl : s.leases[l]? = some lease)
    (e : Ending) : Move s (.leave l e) (s.leave l lease e) := by
  unfold leave
  split
  · exact .stay _
  rename_i hopen
  rw [Bool.not_eq_true, Option.isSome_eq_false_iff, Option.isNone_iff_eq_none] at hopen
  split
  · exact .settle e hl hopen (by simp [current, *])
  rename_i o ho
  cases hcur : s.current l lease with
  | false => exact .settle e hl hopen hcur
  | true =>
    cases e with
    | finished => exact .finish hl ho hcur
    | abandoned => exact .abandon hl ho hcur

theorem move_expire {t : Nat} {x : Timer} (hx : s.timers[t]? = some x)
    (ho : s.state = some o) (hidle : o.active = false) (hfits : x.Fits o) :
    Move s (.fire t) (expire { s.stop (some t) with ran := s.ran ++ [t] } x o) := by
  have hnone : ∀ u : Slot, u.stop none = u := fun u => by
    have hall : u.armed.filter (some · != none) = u.armed := filter_eq_self.2 fun _ _ => rfl
    rw [stop, hall]
  unfold expire
  split
  next l hp =>
    split
    · refine .stale hx fun o' ho' _ _ => ⟨?_, l, hp⟩
      rwa [← Option.mem_unique ho ho']
    next hf =>
      simpa only [hnone] using Move.expire hx ho hidle hfits (.finalize hp (Bool.eq_false_iff.2 hf))
  · simpa only [hnone] using Move.expire hx ho hidle hfits (.cleanup ‹_› (.inl rfl))
  next l hp =>
    split
    · simpa only [hnone] using Move.expire hx ho hidle hfits (.cleanup hp (.inr ‹_›))
    rename_i hf
    exact .expire hx ho hidle hfits (.forced hp (Bool.eq_false_iff.2 hf))

theorem move_fire (s : Slot) (t : Nat) : Move s (.fire t) (s.fire t) := by
  unfold fire
  split
  · exact .stay _
  rename_i x hx
  split
  · exact .stay _
  dsimp only
  split
  next hnone => exact .stale hx fun o ho => by cases hnone.symm.trans ho
  next o ho =>
    split
    next hno =>
      refine .stale hx fun o' ho' hidle hfits => ?_
      obtain rfl := Option.mem_unique ho ho'
      simp [hidle, hfits.pointer, hfits.generation] at hno
    next hfits =>
      simp only [Bool.or_eq_true, bne_iff_ne, not_or, not_not, Bool.not_eq_true] at hfits
      exact move_expire hx ho hfits.1.2 ⟨hfits.1.1.symm, hfits.2.symm⟩

theorem step_move (s : Slot) (op : Op) : Move s op (step s op).1 := by
  cases op with
  | claim conn replace =>
    show Move s _ (s.claimWithPolicy conn replace).1
    unfold claimWithPolicy
    split
    · exact .stay _
    · obtain ⟨o, n, hr⟩ := record_eq s
      simpa only [hr] using Move.claim conn replace hr
  | select l byDone =>
    refine move_at fun lease hl hp => ?_
    unfold select
    split
    · exact .goto _ hl (.released hp (by simp [*]))
    repeat' split
    · exact .goto _ hl (.released hp (by simp_all [Option.isSome_iff_ne_none]))
    · exact .stay _
    · exact .goto _ hl (.cancelled (.inl hp) ‹_›)
    · exact .stay _
  | checkTurn l =>
    refine move_at fun lease hl hp => .goto _ hl ?_
    split
    · exact .granted hp ‹_›
    · exact .superseded hp (Bool.eq_false_iff.2 ‹_›)
  | start l =>
    refine move_at fun lease hl hp => .goto _ hl ?_
    split
    · exact .cancelled (.inr hp) ‹_›
    · exact .running hp (Bool.eq_false_iff.2 ‹_›)
  | handlerReturns l => exact move_at fun lease hl hp => .goto _ hl (.returned hp)
  | leave l e =>
    show Move s _ (((s.leases[l]?).map fun lease => s.leave l lease e).getD s)
    cases hl : s.leases[l]? with
    | none => exact .stay _
    | some lease => exact move_leave hl e
  | scheduleCleanup =>
    show Move s _ s.scheduleCleanup
    unfold scheduleCleanup
    split
    next hact =>
      unfold record at hact ⊢
      split at hact <;> first | exact .stay _ | cases hact
    next hidle =>
      obtain ⟨o, n, hr⟩ := record_eq s
      rw [hr] at hidle ⊢
      exact .schedule (Bool.eq_false_iff.2 hidle) hr
  | fire t => exact move_fire s t
  | cancel => exact .cancel

/-- The operations which open a key, and make a new generation of its record. -/
def Op.opens : Op → Bool
  | .claim _ _ | .scheduleCleanup => true
  | _ => false

/-- The next generation of the record is not zero again. -/
def Unwrapped (s : Slot) : Prop := ∀ o ∈ s.state, o.generation + 1 ≠ 0

/-! ## What holds after any run -/

/-- The lease a callback belongs to. -/
def Purpose.lease? : Purpose → Option Nat
  | .finalize l => some l
  | .cleanup l => l

structure Inv (s : Slot) : Prop where
  active : ∀ o, s.state = some o → o.active → ∃ l lease, l + 1 = s.leases.length ∧
    s.leases[l]? = some lease ∧ o.done = some l ∧ lease.generation = o.generation ∧
    s.ending l = none
  idle : ∀ o, s.state = some o → o.active = false → o.done = none ∧ o.conn = none
  newest : ∀ l, l + 1 = s.leases.length → s.ending l = none → s.active
  unborn : ∀ l, s.leases.length ≤ l → s.ending l = none ∧ s.place l = .waiting
  pointer : ∀ o, s.state = some o → o.pointer < s.records
  armed : ∀ x ∈ s.timers, x.pointer < s.records ∧ ∀ l, x.purpose.lease? = some l → x.claims = l + 1
  fenced : ∀ x ∈ s.timers, ∀ o, s.state = some o → x.pointer = o.pointer →
    x.generation ≤ o.generation ∧
      (x.generation = o.generation → o.active = false ∧ x.claims = s.leases.length)
  called : ∀ c ∈ s.calls, c.timer.claims = c.claims ∧
    (∀ l, c.purpose.lease? = some l → c.claims = l + 1) ∧
    ∀ l, l + 1 = c.claims → s.ending l ≠ none

section Inv

variable {o' : Ownership} {lease : Lease} {x : Timer} {op : Op}

theorem active_eq (ho : s.state = some o) : s.active = o.active := by
  simp [active, ho]

theorem settle_ending (k : Nat) (e : Ending) (h : s.ending k ≠ none) :
    (s.settle l e).ending k ≠ none := by
  by_cases hk : k = l
  · subst hk; simp [settle]
  · exact (update_of_ne hk _ _).trans_ne h

theorem Expiry.edits {u : Option Nat} {forced : List Purpose} (he : Expiry x o u o' forced) :
    (∃ c f z, o' = { o with cleanupTimer := c, finalizeTimer := f, finalized := z }) ∧
      ∀ p ∈ forced, p.lease? = x.purpose.lease? := by
  cases he with
  | forced hp hf => exact ⟨⟨_, _, _, rfl⟩, by simp [hp, Purpose.lease?]⟩
  | _ => exact ⟨⟨_, _, _, rfl⟩, by simp⟩

theorem Inv.new : Inv {} where
  active := nofun
  idle := nofun
  newest := by simp
  unborn := fun _ _ => ⟨rfl, rfl⟩
  pointer := nofun
  armed := by simp
  fenced := by simp
  called := by simp

variable (h : Inv s)

include h

theorem Inv.current_iff (hl : s.leases[l]? = some lease) :
    s.current l lease = true ↔ l + 1 = s.leases.length ∧ s.ending l = none := by
  have hact := h.active
  have hnew := h.newest l
  unfold Slot.current
  unfold Slot.active at hnew
  grind

/-- Without an active lease the newest one has ended. -/
theorem Inv.settled (hidle : s.active = false) (hl : l + 1 = s.leases.length) :
    s.ending l ≠ none := by
  intro hopen
  cases (h.newest l hl hopen).symm.trans hidle

theorem Inv.goto (hl : s.leases[l]? = some lease) (p : Place) : Inv (s.goto l p) := by
  refine { h with unborn := fun k hk => ⟨(h.unborn k hk).1, ?_⟩ }
  have hne : k ≠ l := by rintro rfl; grind [goto]
  exact (update_of_ne hne _ _).trans (h.unborn k hk).2

/-- The record is edited while no lease is active. -/
theorem Inv.edit (ho : s.state = some o) (hidle : o.active = false) {g : UInt64}
    (hg : o.generation ≤ g) (c f : Option Nat) (z : Bool) :
    Inv { s with state := some { o with
      generation := g, cleanupTimer := c, finalizeTimer := f, finalized := z } } where
  active := by rintro _ ⟨⟩ hact; simp [hidle] at hact
  idle := by rintro _ ⟨⟩ -; exact h.idle o ho hidle
  newest := fun k hk hopen => absurd hopen (h.settled ((active_eq ho).trans hidle) hk)
  unborn := h.unborn
  pointer := by rintro _ ⟨⟩; exact h.pointer o ho
  armed := h.armed
  fenced := by
    rintro x hx _ ⟨⟩ hptr
    have hold := h.fenced x hx o ho hptr
    exact ⟨UInt64.le_trans hold.1 hg,
      fun heq => ⟨hidle, (hold.2 (UInt64.le_antisymm hold.1 (heq ▸ hg))).2⟩⟩
  called := h.called

/-- A terminal record is deleted. -/
theorem Inv.unlessTerminal (ho : s.state = some o) : Inv { s with state := o.unlessTerminal } := by
  unfold Ownership.unlessTerminal
  split
  · exact ho ▸ h
  have hidle : s.active = false := by grind [active_eq ho]
  exact { h with
    active := nofun
    idle := nofun
    newest := fun _ hk hopen => absurd hopen (h.settled hidle hk)
    pointer := nofun
    fenced := nofun }

theorem Inv.invoke (hidle : s.active = false) (hx : x ∈ s.timers)
    (hc : x.claims = s.leases.length) (ps : List Purpose)
    (hps : ∀ p ∈ ps, p.lease? = x.purpose.lease?) :
    Inv { s with calls := s.calls ++ ps.map fun p => ⟨p, x, s.leases.length⟩ } := by
  refine { h with called := fun c hcall => ?_ }
  rcases mem_append.1 hcall with hcall | hcall
  · exact h.called c hcall
  obtain ⟨p, hp, rfl⟩ := mem_map.1 hcall
  exact ⟨hc, fun k hk => hc.symm.trans ((h.armed x hx).2 k ((hps p hp).symm.trans hk)),
    fun k hk => h.settled hidle hk⟩

/-- The record which a claim or a scheduled cleanup works on. -/
theorem Inv.record {n : Nat} (hr : s.record = ({ s with state := some o, records := n }, o)) :
    Inv { s with state := some o, records := n } := by
  suffices hrec : Inv s.record.1 by
    rw [hr] at hrec
    exact hrec
  unfold Slot.record
  split
  · exact h
  rename_i ho
  have hidle : s.active = false := by simp [Slot.active, ho]
  exact { h with
    active := by rintro _ ⟨⟩ hact; cases hact
    idle := by rintro _ ⟨⟩ -; exact ⟨rfl, rfl⟩
    newest := fun _ hk hopen => absurd hopen (h.settled hidle hk)
    pointer := by rintro _ ⟨⟩; exact Nat.lt_succ_self _
    armed := fun x hx => ⟨Nat.lt_succ_of_lt (h.armed x hx).1, (h.armed x hx).2⟩
    -- no timer was armed for the new record
    fenced := by rintro x hx _ ⟨⟩ hptr; exact absurd (h.armed x hx).1 (by simp [hptr]) }

omit h in
theorem Unwrapped.lt (hfew : Unwrapped s) {n : Nat}
    (hr : s.record = ({ s with state := some o, records := n }, o)) :
    o.generation < o.generation + 1 := by
  unfold Slot.record at hr
  split at hr
  next o' ho =>
    obtain rfl : o' = o := (Prod.mk.inj hr).2
    exact Verified.Go.lt_add_one_of_ne_zero (hfew o' ho)
  · rw [← (Prod.mk.inj hr).2]
    exact (by decide : (0 : UInt64) < 0 + 1)

theorem Inv.claim (ho : s.state = some o) (hlt : o.generation < o.generation + 1)
    (conn : Option Nat) : Inv (s.claim o conn) where
  active := by
    rintro _ ⟨⟩ -
    exact ⟨s.leases.length, ⟨o.generation + 1, o.done⟩, by simp [Slot.claim],
      by simp [Slot.claim], rfl, rfl, (h.unborn _ (Nat.le_refl _)).1⟩
  idle := by rintro _ ⟨⟩ hact; cases hact
  newest := fun _ _ _ => rfl
  unborn := fun k hk => h.unborn k (by simp [Slot.claim] at hk; omega)
  pointer := by rintro _ ⟨⟩; exact h.pointer o ho
  armed := h.armed
  fenced := by
    rintro x hx _ ⟨⟩ hptr
    have hle := (h.fenced x hx o ho hptr).1
    exact ⟨UInt64.le_trans hle (UInt64.le_of_lt hlt),
      fun heq => absurd hle (heq ▸ UInt64.not_le.2 hlt)⟩
  called := h.called

/-- A lease which is not current ends. -/
theorem Inv.settle (hl : s.leases[l]? = some lease) (hn : s.current l lease = false)
    (hopen : s.ending l = none) (e : Ending) : Inv (s.settle l e) := by
  have hlt := (List.getElem?_eq_some_iff.1 hl).1
  have hne : l + 1 ≠ s.leases.length := fun hnew => by
    simp [(h.current_iff hl).2 ⟨hnew, hopen⟩] at hn
  have hend : ∀ k, k ≠ l → (s.settle l e).ending k = s.ending k :=
    fun k hk => update_of_ne hk _ _
  refine { h with
    active := fun o ho hact => ?_, newest := fun k (hk : k + 1 = s.leases.length) hk' => ?_
    unborn := fun k (hk : s.leases.length ≤ k) => ?_, called := fun c hc => ?_ }
  · obtain ⟨k, lease', hk, hrest⟩ := h.active o ho hact
    exact ⟨k, lease', hk, by rwa [hend k (by grind)]⟩
  · exact h.newest k hk (by rwa [hend k (by grind)] at hk')
  · exact ⟨(hend k (by omega)).trans (h.unborn k hk).1, (h.unborn k hk).2⟩
  · exact ⟨(h.called c hc).1, (h.called c hc).2.1,
      fun k hk => settle_ending k e ((h.called c hc).2.2 k hk)⟩

theorem Inv.release (ho : s.state = some o) (hl : s.leases[l]? = some lease)
    (hc : s.current l lease) (e : Ending) :
    Inv { s.settle l e with
      state := some { o with active := false, conn := none, done := none } } := by
  have hcur := (h.current_iff hl).1 hc
  refine { h with
    active := by rintro _ ⟨⟩ hact; cases hact
    idle := by rintro _ ⟨⟩ -; exact ⟨rfl, rfl⟩
    newest := fun k (hk : k + 1 = s.leases.length) hopen => ?_
    unborn := fun k (hk : s.leases.length ≤ k) =>
      ⟨(update_of_ne (by omega) _ _).trans (h.unborn k hk).1, (h.unborn k hk).2⟩
    pointer := by rintro _ ⟨⟩; exact h.pointer o ho
    fenced := ?_
    called := fun c hc => ⟨(h.called c hc).1, (h.called c hc).2.1,
      fun k hk => settle_ending k e ((h.called c hc).2.2 k hk)⟩ }
  · obtain rfl : k = l := by omega
    simp [Slot.settle] at hopen
  · rintro x hx _ ⟨⟩ hptr
    exact ⟨(h.fenced x hx o ho hptr).1, fun hg => ⟨rfl, ((h.fenced x hx o ho hptr).2 hg).2⟩⟩

/-- A timer is armed for the record. -/
theorem Inv.arm (ho : s.state = some o) (hidle : o.active = false) {p : Purpose}
    (hp : ∀ k, p.lease? = some k → s.leases.length = k + 1) :
    Inv { s with timers := s.timers ++ [⟨p, o.pointer, o.generation, s.leases.length⟩] } := by
  refine { h with armed := fun x hx => ?_, fenced := fun x hx o' ho' hptr => ?_ }
  all_goals rcases mem_append.1 hx with hx | hx
  · exact h.armed x hx
  · cases mem_singleton.1 hx
    exact ⟨h.pointer o ho, hp⟩
  · exact h.fenced x hx o' ho' hptr
  cases mem_singleton.1 hx
  obtain rfl := Option.mem_unique ho ho'
  exact ⟨UInt64.le_refl _, fun _ => ⟨hidle, rfl⟩⟩

theorem Inv.move {s' : Slot} (hfew : op.opens → Unwrapped s) (hm : Move s op s') : Inv s' := by
  cases hm with
  | stay => exact h
  | goto _ hl => exact h.goto hl _
  | claim conn _ hr => exact (h.record hr).claim rfl ((hfew rfl).lt hr) conn
  | settle e hl hopen hcur => exact h.settle hl hcur hopen e
  | finish hl ho hcur =>
    have hnew := ((h.current_iff hl).1 hcur).1
    have hrel := h.release ho hl hcur .finished
    refine { ((hrel.edit rfl rfl (UInt64.le_refl _) (some (s.timers.length + 1))
      (some s.timers.length) _).arm rfl rfl ?_).arm rfl rfl ?_ with }
    all_goals
      intro k hk
      cases hk
      exact hnew.symm
  | abandon hl ho hcur => exact (h.release ho hl hcur .abandoned).unlessTerminal rfl
  | @schedule o n hidle hr =>
    exact { ((h.record hr).edit rfl hidle (UInt64.le_of_lt ((hfew rfl).lt hr))
      (some s.timers.length)
      o.finalizeTimer o.finalized).arm rfl hidle (p := .cleanup none) nofun with }
  | stale | cancel => exact { h with }
  | expire hx ho hidle hfits he =>
    have hmem := mem_of_getElem? hx
    have hc := ((h.fenced _ hmem _ ho hfits.pointer).2 hfits.generation).2
    obtain ⟨⟨c, f, z, rfl⟩, hforced⟩ := he.edits
    refine { (h.edit ho hidle (UInt64.le_refl _) c f z).invoke hidle hmem hc
      (_ ++ if s.cancelled then [] else [_]) ?_ |>.unlessTerminal rfl with }
    intro p hp
    split at hp <;> grind

end Inv

/-! ## The order of the dispatcher -/

/-- A lease is finished after its handler has returned, and abandoned only when it
got no turn; generations do not wrap. -/
def Orderly (s : Slot) (op : Op) : Prop :=
  (op.opens → Unwrapped s) ∧
    match op with
    | .leave l .finished => s.place l = .returned
    | .leave l .abandoned => s.place l = .refused
    | _ => True

/-- The goroutines of the leases. -/
structure Queue (s : Slot) : Prop where
  ended : ∀ l, s.ending l ≠ none → s.place l = .returned ∨ s.place l = .refused
  previous : ∀ l lease, s.leases[l]? = some lease →
    (lease.previousDone = none → ∀ k, k + 1 = l → s.ending k ≠ none) ∧
      ∀ p, lease.previousDone = some p → p + 1 = l
  turn : s.cancelled = false → ∀ l, s.place l ≠ .waiting → ∀ k < l, s.ending k ≠ none
  refused : s.cancelled = false → ∀ l, s.place l = .refused → l + 1 < s.leases.length
  started : ∀ l ∈ s.started, s.place l = .running ∨ s.place l = .returned
  sole : ∀ k l, s.place k = .running → s.place l = .running → k = l
  order : s.started.Pairwise (· < ·)

section Queue

variable {k : Nat} {lease : Lease} {p : Place}

theorem goto_place (s : Slot) (l k : Nat) (p : Place) :
    (s.goto l p).place k = if k = l then p else s.place k :=
  update_apply _ _ _ _

theorem Queue.open (h : Queue s) (hp : s.place l ≠ .returned ∧ s.place l ≠ .refused) :
    s.ending l = none := by
  by_contra hne
  exact (h.ended l hne).elim hp.1 hp.2

/-- Before a lease which may pass its `select` all leases have ended. -/
theorem Queue.passes (h : Queue s) (hc : s.cancelled = false) (hl : s.leases[l]? = some lease)
    (hdone : ∀ q, lease.previousDone = some q → s.ending q ≠ none) (hk : k < l) :
    s.ending k ≠ none := by
  obtain ⟨hnone, hsome⟩ := h.previous l lease hl
  have hlast : ∀ j, j + 1 = l → s.ending j ≠ none := by
    intro j hj
    cases hprev : lease.previousDone with
    | none => exact hnone hprev j hj
    | some q =>
      obtain rfl : q = j := by have := hsome q hprev; omega
      exact hdone q hprev
  by_cases hkl : k + 1 = l
  · exact hlast k hkl
  have hended := h.ended (l - 1) (hlast (l - 1) (by omega))
  exact h.turn hc (l - 1) (by rcases hended with hp | hp <;> simp [hp]) k (by omega)

/-- Every handler started before a lease has its turn belongs to an older lease, which
has ended. -/
theorem Queue.older (h : Queue s) (hc : s.cancelled = false) (hp : s.place l = .granted)
    (hk : s.place k = .running ∨ s.place k = .returned) : k < l ∧ s.ending k ≠ none := by
  have hopen : s.ending l = none := h.open (by simp [hp])
  rcases Nat.lt_trichotomy k l with hlt | rfl | hlt
  · exact ⟨hlt, h.turn hc l (by simp [hp]) k hlt⟩
  · simp [hp] at hk
  · exact absurd hopen (h.turn hc k (by rcases hk with hk | hk <;> simp [hk]) l hlt)

/-- The goroutine of a lease goes on. -/
theorem Queue.goto (h : Queue s) (hinv : Inv s) (hl : s.leases[l]? = some lease)
    (ht : Turn s l lease p) : Queue (s.goto l p) := by
  have hlt := (List.getElem?_eq_some_iff.1 hl).1
  have hopen : s.ending l = none := h.open (by cases ht <;> grind)
  refine ⟨fun k hk => ?_, h.previous, fun hc k hk j hj => ?_, fun hc k hk => ?_,
    fun k hk => ?_, fun j k hj hk => ?_, ?_⟩
  any_goals simp only [goto_place] at *
  · rw [if_neg (by rintro rfl; exact hk hopen)]
    exact h.ended k hk
  · split at hk
    · subst k
      cases ht with
      | released hp hdone => exact h.passes hc hl hdone hj
      | cancelled hp hc' => cases hc'.symm.trans hc
      | _ hp => exact h.turn hc l (by simp [hp]) j hj
    · exact h.turn hc k hk j hj
  · split at hk
    · subst k hk
      cases ht with
      | superseded hp hcur =>
        have hne : l + 1 ≠ s.leases.length := fun hnew => by
          simp [(hinv.current_iff hl).2 ⟨hnew, hopen⟩] at hcur
        exact Nat.lt_of_le_of_ne hlt hne
      | cancelled hp hc' => cases hc'.symm.trans hc
    · exact h.refused hc k hk
  · have hold := h.started k
    simp only [Slot.goto, mem_append] at hk
    cases ht <;> grind
  · have hold := h.sole j k
    cases ht with
    | running hp hc =>
      have hnone : ∀ i, s.place i ≠ .running := fun i hi => by
        rcases h.ended i (h.older hc hp (.inl hi)).2 with h' | h' <;> simp [hi] at h'
      grind
    | _ => grind
  · refine pairwise_append.2 ⟨h.order, by split <;> simp, fun k hk j hj => ?_⟩
    cases ht <;> simp at hj
    rename_i hp hc
    exact hj ▸ (h.older hc hp (h.started k hk)).1

/-- A lease is claimed; `previousDone` is the one before it if that has not ended. -/
theorem Queue.claim (h : Queue s) (hinv : Inv s) (ho : s.state = some o) (conn : Option Nat) :
    Queue (s.claim o conn) where
  ended := h.ended
  previous := by
    intro k lease' hk
    by_cases hlt : k < s.leases.length
    · exact h.previous k lease' ((getElem?_append_left hlt).symm.trans hk)
    obtain ⟨rfl, rfl⟩ : k = s.leases.length ∧ ⟨o.generation + 1, o.done⟩ = lease' := by
      simp only [Slot.claim] at hk
      grind
    cases hact : o.active with
    | false => exact ⟨fun _ j hj => hinv.settled ((active_eq ho).trans hact) hj,
        fun q hq => by simp [(hinv.idle o ho hact).1] at hq⟩
    | true =>
      obtain ⟨j, _, hj, -, hdone, -⟩ := hinv.active o ho hact
      exact ⟨fun hnone => by simp [hdone] at hnone, fun q hq => by grind⟩
  turn := h.turn
  refused := fun hc k hk => Nat.lt_of_lt_of_le (h.refused hc k hk) (by simp [Slot.claim])
  started := h.started
  sole := h.sole
  order := h.order

/-- A lease ends in the order of the dispatcher. -/
theorem Queue.settle (h : Queue s) {e : Ending} (hok : Orderly s (.leave l e)) :
    Queue (s.settle l e) where
  ended := by
    intro k hk
    by_cases hkl : k = l
    · subst hkl
      cases e with
      | finished => exact .inl hok.2
      | abandoned => exact .inr hok.2
    · exact h.ended k ((update_of_ne hkl _ _).symm.trans_ne hk)
  previous := fun k lease' hk => ⟨fun hnone j hj =>
    settle_ending j e ((h.previous k lease' hk).1 hnone j hj), (h.previous k lease' hk).2⟩
  turn := fun hc k hk j hj => settle_ending j e (h.turn hc k hk j hj)
  refused := h.refused
  started := h.started
  sole := h.sole
  order := h.order

end Queue

/-- The cleanup timer of the present generation is pending. -/
def Pending (s : Slot) : Prop :=
  ∃ o t x l, s.state = some o ∧ o.cleanupTimer = some t ∧ s.timers[t]? = some x ∧ x.Fits o ∧
    x.purpose = .cleanup l ∧ t ∈ s.armed

/-- A cleanup has run since the last claim. -/
def Cleaned (s : Slot) : Prop :=
  ∃ c ∈ s.calls, (∃ l, c.purpose = .cleanup l) ∧ c.claims = s.leases.length

/-- The key has been opened. -/
def Used (s : Slot) : Prop := s.leases ≠ [] ∨ s.timers ≠ []

/-- What holds of a key after any run in the order of the dispatcher. -/
structure Dispatched (s : Slot) : Prop where
  inv : Inv s
  queue : Queue s
  cleanup : s.cancelled = false → Used s → s.active ∨ Pending s ∨ Cleaned s

theorem Dispatched.move {s' : Slot} {op : Op} (h : Dispatched s) (hok : Orderly s op)
    (hm : Move s op s') : Dispatched s' := by
  have hinv := h.inv.move hok.1 hm
  cases hm with
  | stay => exact h
  | goto _ hl ht => exact ⟨hinv, h.queue.goto h.inv hl ht, h.cleanup⟩
  | @claim o n conn _ hr =>
    have hqueue : Queue { s with state := some o, records := n } := { h.queue with }
    exact ⟨hinv, hqueue.claim (h.inv.record hr) rfl conn, fun _ _ => .inl rfl⟩
  | settle e hl hopen hcur => exact ⟨hinv, h.queue.settle hok, h.cleanup⟩
  | @finish l _ o hl ho hcur =>
    refine ⟨hinv, { h.queue.settle hok with }, fun _ _ => .inr (.inl ?_)⟩
    exact ⟨_, s.timers.length + 1, ⟨.cleanup (some l), o.pointer, o.generation, s.leases.length⟩,
      some l, rfl, rfl, by simp [finishCurrent], ⟨rfl, rfl⟩, rfl, by simp [finishCurrent]⟩
  | @abandon l _ o hl ho hcur =>
    refine ⟨hinv, { h.queue.settle hok with }, fun hc _ => ?_⟩
    -- a lease which got no turn while the context was alive has been superseded
    have hsuper := h.queue.refused hc l hok.2
    have hnew := ((h.inv.current_iff hl).1 hcur).1
    omega
  | @schedule o n hidle hr =>
    refine ⟨hinv, { h.queue with }, fun _ _ => .inr (.inl ?_)⟩
    exact ⟨_, s.timers.length, ⟨.cleanup none, o.pointer, o.generation + 1, s.leases.length⟩,
      none, rfl, rfl, by simp [schedule], ⟨rfl, rfl⟩, rfl, by simp [schedule]⟩
  | @stale t x hx hstale =>
    refine ⟨hinv, { h.queue with }, fun hc hne => ?_⟩
    rcases h.cleanup hc hne with hact | ⟨o, t', x', l, ho, ht', hx', hfits, hp, harmed⟩ | hdone
    · exact .inl hact
    · refine .inr (.inl ⟨o, t', x', l, ho, ht', hx', hfits, hp, ?_⟩)
      have hidle : o.active = false :=
        ((h.inv.fenced x' (mem_of_getElem? hx') o ho hfits.pointer).2 hfits.generation).1
      refine mem_filter.2 ⟨harmed, ?_⟩
      grind
    · exact .inr (.inr hdone)
  | @expire t x o o' u forced hx ho hidle hfits he =>
    refine ⟨hinv, { h.queue with }, fun hc hne => .inr ?_⟩
    have halive : s.cancelled = false := hc
    -- a cleanup has just run, or the finalization leaves the cleanup timer alone
    cases he with
    | finalize hp =>
      rcases h.cleanup halive hne with hact | ⟨o₁, t', x', l, ho', ht', hx', hfits', hp', ha⟩
        | hdone
      · simp [active_eq ho, hidle] at hact
      · obtain rfl := Option.mem_unique ho ho'
        refine .inl ⟨{ o with finalizeTimer := none, finalized := true }, t', x', l, ?_, ht',
          hx', ⟨hfits'.1, hfits'.2⟩, hp', ?_⟩
        · simp [conclude, Ownership.unlessTerminal, ht']
        · simp [conclude, stop, ha]
          grind
      · obtain ⟨c, hcall, hrest⟩ := hdone
        exact .inr ⟨c, mem_append_left _ hcall, hrest⟩
    | cleanup hp | forced hp =>
      refine .inr ⟨⟨x.purpose, x, s.leases.length⟩, ?_, ⟨_, hp⟩, rfl⟩
      simp [conclude, stop, halive]
  | cancel => exact ⟨hinv, { h.queue with turn := nofun, refused := nofun }, nofun⟩

theorem Dispatched.new : Dispatched {} where
  inv := .new
  queue := ⟨by simp, by simp, by simp, by simp, by simp, by simp, by simp⟩
  cleanup := by simp [Used]

theorem Used.move {s' : Slot} {op : Op} (h : Used s) (hm : Move s op s') : Used s' := by
  cases hm with
  | claim => exact .inl (by simp [claim])
  | finish => exact .inr (by simp [finishCurrent])
  | schedule => exact .inr (by simp [schedule])
  | _ => exact h

/-- A claim or a scheduled cleanup opens the key; they are refused only while a lease is
active. -/
theorem Inv.opened (h : Inv s) {op : Op} (hop : op.opens) : Used (step s op).1 := by
  have hact : s.active → Used s := fun hact => by
    cases ho : s.state with
    | none => simp [Slot.active, ho] at hact
    | some o =>
      obtain ⟨l, -, hl, -⟩ := h.active o ho ((active_eq ho).symm.trans hact)
      exact .inl (length_pos_iff.1 (by omega))
  cases op with
  | claim conn replace =>
    show Used (s.claimWithPolicy conn replace).1
    unfold claimWithPolicy
    split
    next href => exact hact (Bool.and_eq_true _ _ ▸ href).2
    · exact .inl (by simp [Slot.claim])
  | scheduleCleanup =>
    show Used s.scheduleCleanup
    unfold scheduleCleanup
    split
    next href =>
      unfold Slot.record at href ⊢
      split at href
      next o ho => exact hact ((active_eq ho).trans href)
      · cases href
    · exact .inr (by simp [schedule])
  | _ => cases hop

/-- A later lease was claimed before this one got its turn. -/
structure Superseded (s : Slot) (l : Nat) : Prop where
  later : l + 1 < s.leases.length
  early : s.place l = .waiting ∨ s.place l = .released ∨ s.place l = .refused

/-- A superseded lease never gets its turn. -/
theorem Superseded.move {s' : Slot} {op : Op} (h : Superseded s l) (hinv : Inv s)
    (hm : Move s op s') (hs : l ∉ s.started) : Superseded s' l ∧ l ∉ s'.started := by
  cases hm with
  | @goto k _ p _ hl ht =>
    have hearly := h.early
    -- the turn of `l` itself needs the newest lease
    have hk : k = l → p = .released ∨ p = .refused := by
      rintro rfl
      have hnew := h.later
      cases ht with
      | granted _ hcur => have := ((hinv.current_iff hl).1 hcur).1; omega
      | running hp | returned hp => simp [hp] at hearly
      | _ => simp
    refine ⟨⟨h.later, ?_⟩, ?_⟩
    · rw [goto_place]
      grind
    · simp only [goto, mem_append]
      grind
  | claim conn _ hr => exact ⟨⟨by simpa [claim] using Nat.lt_succ_of_lt h.later, h.early⟩, hs⟩
  | _ => exact ⟨⟨h.later, h.early⟩, hs⟩

/-! ## Runs -/

section Runs

variable {ops : List Op} {evs : List (Event Slot Op Answer)}

theorem dispatched_run (h : Dispatched s) (hrun : Allowed step (fun _ => Orderly) evs s ops) :
    Dispatched (final step s ops) :=
  history_from (P := fun _ s => Dispatched s)
    (fun _ s op h hok => h.move hok (step_move s op)) h ops hrun

theorem superseded_run (h : Dispatched s) (hl : Superseded s l)
    (hrun : Allowed step (fun _ => Orderly) evs s ops) : l ∉ (final step s ops).started := by
  have hs : l ∉ s.started := fun hs => by
    have := h.queue.started l hs
    have := hl.early
    grind
  refine (history_from (P := fun _ s => Dispatched s ∧ Superseded s l ∧ l ∉ s.started) ?_
    ⟨h, hl, hs⟩ ops hrun).2.2
  rintro _ s op ⟨h, hl, hs⟩ hok
  exact ⟨h.move hok (step_move s op), hl.move h.inv (step_move s op) hs⟩

theorem used_run (h : Dispatched s) (hrun : Allowed step (fun _ => Orderly) evs s ops)
    (hused : Used s ∨ ∃ op ∈ ops, op.opens) : Used (final step s ops) := by
  induction ops generalizing s evs with
  | nil => exact hused.resolve_right (by simp)
  | cons op ops ih =>
    refine ih (h.move hrun.1 (step_move s op)) hrun.2 ?_
    rcases hused with hused | ⟨op', hmem, hopens⟩
    · exact .inl (hused.move (step_move s op))
    rcases mem_cons.1 hmem with rfl | hmem
    · exact .inl (h.inv.opened hopens)
    · exact .inr ⟨op', hmem, hopens⟩

end Runs

instance (s : Slot) (op : Op) : Decidable (Orderly s op) := by
  unfold Orderly Unwrapped
  split <;> infer_instance

/-- **One stream handler per device, in claim order.**  After any run of the
coordinator in the order of the dispatcher, for every key: at most one handler
runs; the handlers were started in the order of their claims; a lease superseded
before its turn was not started; a callback of a timer was run only while no
claim had been made since the timer was armed, and for a timer armed by `finish`
that is the finished lease; and if there was a claim or a scheduled cleanup, no lease
is active and the context is alive, the cleanup timer of the present generation is
pending or a cleanup has run since the last claim. -/
theorem one_handler_in_claim_order {Key : Type} [DecidableEq Key] (ops : List (Key × Op))
    (hrun : Allowed coordinator (fun _ w op => Orderly (w op.1) op.2) [] (fun _ => {}) ops)
    (key : Key) :
    let s := final coordinator (fun _ => {}) ops key
    (∀ k l, s.place k = .running → s.place l = .running → k = l) ∧
    s.started.Pairwise (· < ·) ∧
    (∀ before after, ops = before ++ after →
      ∀ l, Superseded (final coordinator (fun _ => {}) before key) l → l ∉ s.started) ∧
    (∀ c ∈ s.calls, c.timer.claims = c.claims ∧ ∀ l, c.purpose.lease? = some l → c.claims = l + 1) ∧
    (s.cancelled = false → (∃ op, (key, op) ∈ ops ∧ op.opens) → s.active = false →
      Pending s ∨ Cleaned s) := by
  have hreach : ∀ ops', Allowed coordinator (fun _ w op => Orderly (w op.1) op.2) []
      (fun _ : Key => ({} : Slot)) ops' →
        Dispatched (final coordinator (fun _ => {}) ops' key) := by
    intro ops' hrun'
    rw [show final coordinator _ ops' key = _ from final_each _ ops' key]
    exact dispatched_run .new (allowed_each hrun' key [])
  have h := hreach ops hrun
  refine ⟨h.queue.sole, h.queue.order, ?_, fun c hc => ⟨(h.inv.called c hc).1,
    (h.inv.called c hc).2.1⟩, fun hc hopened hidle => ?_⟩
  · rintro before after rfl l hl
    obtain ⟨hbefore, hafter⟩ := allowed_append.1 hrun
    rw [final_append, show final coordinator _ after key = _ from final_each _ after key]
    exact superseded_run (hreach before hbefore) hl (allowed_each hafter key [])
  · obtain ⟨op, hmem, hopens⟩ := hopened
    have hused : Used (final coordinator (fun _ => {}) ops key) := by
      rw [show final coordinator _ ops key = _ from final_each _ ops key]
      exact used_run .new (allowed_each hrun key [])
        (.inr ⟨op, by simpa [opsAt] using hmem, hopens⟩)
    rcases h.cleanup hc hused with hact | hrest
    · simp [hidle] at hact
    · exact hrest

/-- A stream is displaced by a second one, which starts when the first has ended. -/
def handover : List (Unit × Op) :=
  [.claim (some 0) true, .select 0 true, .checkTurn 0, .start 0, .claim (some 1) true,
    .handlerReturns 0, .leave 0 .finished, .select 1 true, .checkTurn 1, .start 1].map ((), ·)

theorem handover_in_claim_order : (final coordinator (fun _ => {}) handover ()).started = [0, 1] ∧
      (final coordinator (fun _ => {}) handover ()).started.Pairwise (· < ·) :=
  ⟨by decide, (one_handler_in_claim_order handover (by decide) ()).2.1⟩

/-- Scheduling again and again makes generation after generation. -/
theorem schedule_run (n : Nat) (ho : s.state = some o) (hidle : o.active = false) :
    ∃ c more armed, final step s (replicate n .scheduleCleanup) = { s with
      state := some { o with generation := o.generation + .ofNat n, cleanupTimer := c }
      timers := s.timers ++ more, armed := armed } := by
  induction n generalizing s o with
  | zero => exact ⟨o.cleanupTimer, [], s.armed, by simp [← ho]⟩
  | succ n ih =>
    have hstep : (step s .scheduleCleanup).1 = s.schedule o := by
      simp [step, scheduleCleanup, record, ho, hidle]
    obtain ⟨c, more, armed, hrun⟩ := ih (s := s.schedule o) rfl hidle
    have hsum : o.generation + 1 + .ofNat n = o.generation + .ofNat (n + 1) := by
      rw [UInt64.add_assoc, UInt64.add_comm 1, UInt64.ofNat_add]
      rfl
    refine ⟨c, ⟨.cleanup none, o.pointer, o.generation + 1, s.leases.length⟩ :: more, armed, ?_⟩
    rw [replicate_succ, final_cons, hstep, hrun]
    simp [schedule, stop, hsum]

/-- Two streams come and go; then `2 ^ 64 - 1` scheduled cleanups bring the generation of
the first one back, and its late timer finalizes it after the claim of the second. -/
theorem wrapped_generation_finalizes_older :
    let visit (l : Nat) : List Op := [.claim (some l) true, .select l true, .checkTurn l,
      .start l, .handlerReturns l, .leave l .finished]
    ∃ c ∈ (final step {} (visit 0 ++ visit 1 ++ replicate (2 ^ 64 - 1) .scheduleCleanup ++
      [.fire 0])).calls, c.purpose = .finalize 0 ∧ c.timer.claims = 1 ∧ c.claims = 2 := by
  intro visit
  obtain ⟨c, more, armed, hrun⟩ := @schedule_run (final step {} (visit 0 ++ visit 1)) _
    (2 ^ 64 - 1) rfl rfl
  rw [final_append, final_append, hrun]
  exact ⟨⟨.finalize 0, ⟨.finalize 0, 0, 1, 1⟩, 2⟩, mem_singleton.2 rfl, rfl, rfl, rfl⟩

end Viiper.Ports.DeviceStream
