import Mathlib.Data.List.Basic
import Viiper.Verified.Run

/-!
# The table of buses

The USB server keeps its buses by number.  `RemoveBus` leaves a bus in the table while it
closes it, under a record which other callers for that number join; a cleanup armed for an
empty bus removes it in one critical section if no device was added since.

A bus is named by its pointer, and `busID` gives its number.  Of its devices, which
`Viiper.Ports.VirtualBus` models, only the number counts here.
-/

namespace Viiper.Ports.BusTable

open Verified.Run Function List

variable {busID : Nat → Nat}

/-- A bus as the table sees it.  `emptyCtx` is its empty incarnation; no operation
reads `adds`, the number of devices ever added. -/
structure Bus where
  (closed closeDone : Bool := false)
  devices : Nat := 0
  emptyCtx : Option Nat := none
  adds : Nat := 0

/-- An armed empty-bus cleanup, with `adds` as it was then. -/
structure Cleanup where
  (bus ctx adds : Nat)

/-- `serverBusRemoval`, with the call which made it and the bus it is for. -/
structure Removal where
  (owner bus : Nat)
  done : Bool := false

/-- Where a call of `RemoveBus` is: it has joined a removal, is about to close its bus,
or waits until the bus is closed.  `started` is the bus which was registered when
the call started. -/
inductive Pc
  | idle
  | joined (removal : Nat) (started : Option Nat)
  | closing (id removal bus : Nat)
  | draining (id removal bus : Nat)

structure Server where
  bus : Nat → Bus := fun _ => {}
  (busses busRemovals : Nat → Option Nat := fun _ => none)
  removals : List Removal := []
  cleanups : List Cleanup := []
  contexts : Nat := 0
  pc : Nat → Pc := fun _ => .idle
  /-- The buses taken off the table so far, which no operation reads. -/
  removed : List Nat := []

/-- What a call returns.  `removed` is a nil error of `RemoveBus`. -/
inductive Answer
  | none
  | error
  | removed (started : Option Nat)
deriving DecidableEq

/-- The critical sections of the server and of its buses. -/
inductive Op
  | addBus (b : Nat)
  | addDevice (b : Nat)
  | removeDevice (b : Nat)
  | closeBus (b : Nat)
  | drained (b : Nat)
  | scheduleEmptyBusCleanup (b : Nat)
  | removeEmptyBusIncarnation (cleanup : Nat)
  | removeBus (call id : Nat)
  | closeAndTake (call : Nat)
  | complete (call : Nat)
  | join (call : Nat)

section Step

variable (busID : Nat → Nat) (s : Server)

def Server.setBus (b : Nat) (x : Bus) : Server := { s with bus := update s.bus b x }

/-- The first critical section of `CloseAndTakeRegistrations`. -/
def Server.close (b : Nat) : Server :=
  s.setBus b { s.bus b with closed := true, emptyCtx := none }

def Server.unregister (id : Nat) (b : Nat) : Server :=
  { s with busses := update s.busses id none, removed := s.removed ++ [b] }

def Server.addBus (b : Nat) : Server × Answer :=
  if (s.bus b).closed || (s.busses (busID b)).isSome then (s, .error)
  else ({ s with busses := update s.busses (busID b) (some b) }, .none)

/-- `scheduleEmptyBusCleanup`, up to the timer. -/
def Server.scheduleEmptyBusCleanup (b : Nat) : Server :=
  if (s.bus b).closed || (s.bus b).devices != 0 then s
  else
    let ctx := (s.bus b).emptyCtx.getD s.contexts
    { s.setBus b { s.bus b with emptyCtx := some ctx } with
      contexts := s.contexts + 1
      cleanups := s.cleanups ++ [⟨b, ctx, (s.bus b).adds⟩] }

/-- `removeEmptyBusIncarnation`, with `CloseIfEmptyContext`. -/
def Server.removeEmptyBusIncarnation (c : Cleanup) : Server :=
  let x := s.bus c.bus
  if s.busses (busID c.bus) ≠ some c.bus then s
  else if x.closed || x.devices != 0 || x.emptyCtx != some c.ctx then s
  else (s.setBus c.bus { x with closed := true, closeDone := true, emptyCtx := none }).unregister
    (busID c.bus) c.bus

/-- `RemoveBus` up to the close of the bus. -/
def Server.removeBus (g id : Nat) : Server × Answer :=
  match s.busRemovals id with
  | some r => ({ s with pc := update s.pc g (.joined r (s.busses id)) }, .none)
  | none =>
      match s.busses id with
      | none => (s, .error)
      | some b =>
          ({ s with
              busRemovals := update s.busRemovals id (some s.removals.length)
              removals := s.removals ++ [⟨g, b, false⟩]
              pc := update s.pc g (.closing id s.removals.length b) }, .none)

/-- The last critical section of `RemoveBus`. -/
def Server.complete (g id r b : Nat) : Server :=
  let s := if s.busses id = some b then s.unregister id b else s
  { s with
    removals := s.removals.modify r fun x => { x with done := true }
    busRemovals := update s.busRemovals id none
    pc := update s.pc g .idle }

theorem setBus_bus (b k : Nat) (x : Bus) :
    (s.setBus b x).bus k = if k = b then x else s.bus k := update_apply _ _ _ _

theorem unregister_busses (id b k : Nat) :
    (s.unregister id b).busses k = if k = id then none else s.busses k := update_apply _ _ _ _

def step : Op → Server × Answer
  | .addBus b => s.addBus busID b
  | .addDevice b =>
      let x := s.bus b
      if x.closed then (s, .error)
      else (s.setBus b
        { x with devices := x.devices + 1, emptyCtx := none, adds := x.adds + 1 }, .none)
  | .removeDevice b =>
      (s.setBus b { s.bus b with devices := (s.bus b).devices - 1 }, .none)
  | .closeBus b => (s.close b, .none)
  | .drained b =>
      if (s.bus b).closed then (s.setBus b { s.bus b with closeDone := true, devices := 0 }, .none)
      else (s, .none)
  | .scheduleEmptyBusCleanup b => (s.scheduleEmptyBusCleanup b, .none)
  | .removeEmptyBusIncarnation t =>
      match s.cleanups[t]? with
      | none => (s, .none)
      | some c => (s.removeEmptyBusIncarnation busID c, .none)
  | .removeBus g id =>
      match s.pc g with
      | .idle => s.removeBus g id
      | _ => (s, .none)
  | .closeAndTake g =>
      match s.pc g with
      | .closing id r b => ({ s.close b with pc := update s.pc g (.draining id r b) }, .none)
      | _ => (s, .none)
  | .complete g =>
      match s.pc g with
      | .draining id r b =>
          if (s.bus b).closeDone then (s.complete g id r b, .removed (some b)) else (s, .none)
      | _ => (s, .none)
  | .join g =>
      match s.pc g with
      | .joined r started =>
          if (s.removals[r]?.map (·.done)).getD false then
            ({ s with pc := update s.pc g .idle }, .removed started)
          else (s, .none)
      | _ => (s, .none)

end Step

/-! ## What a step can do -/

/-- A bus changes, but is not opened again; a device is only added to an open one. -/
structure Ages (x y : Bus) : Prop where
  closed : x.closed → y.closed
  fresh : y.emptyCtx = none ∨ y.emptyCtx = x.emptyCtx ∧ y.adds = x.adds

inductive Move (busID : Nat → Nat) (s : Server) : Op → Server → Answer → Prop
  | stay (op : Op) (a : Answer) (ha : ∀ b, a ≠ .removed b) : Move busID s op s a
  | edit {b : Nat} {x : Bus} (op : Op) (hx : Ages (s.bus b) x) :
      Move busID s op (s.setBus b x) .none
  | addBus {b : Nat} (hopen : (s.bus b).closed = false) (hfree : s.busses (busID b) = none) :
      Move busID s (.addBus b) { s with busses := update s.busses (busID b) (some b) } .none
  | schedule {b ctx : Nat} (hctx : (s.bus b).emptyCtx = some ctx ∨ ctx = s.contexts) :
      Move busID s (.scheduleEmptyBusCleanup b)
        { s.setBus b { s.bus b with emptyCtx := some ctx } with
          contexts := s.contexts + 1
          cleanups := s.cleanups ++ [⟨b, ctx, (s.bus b).adds⟩] } .none
  | cleanup {t : Nat} {c : Cleanup} {x : Bus} (hc : s.cleanups[t]? = some c)
      (hreg : s.busses (busID c.bus) = some c.bus) (hctx : (s.bus c.bus).emptyCtx = some c.ctx)
      (hx : x.closed ∧ x.emptyCtx = none) :
      Move busID s (.removeEmptyBusIncarnation t)
        ((s.setBus c.bus x).unregister (busID c.bus) c.bus) .none
  | joins {g id r : Nat} (hr : s.busRemovals id = some r) (hpc : s.pc g = .idle) :
      Move busID s (.removeBus g id) { s with pc := update s.pc g (.joined r (s.busses id)) } .none
  | begins {g id b : Nat} (hr : s.busRemovals id = none) (hb : s.busses id = some b)
      (hpc : s.pc g = .idle) :
      Move busID s (.removeBus g id)
        { s with
          busRemovals := update s.busRemovals id (some s.removals.length)
          removals := s.removals ++ [⟨g, b, false⟩]
          pc := update s.pc g (.closing id s.removals.length b) } .none
  | closes {g id r b : Nat} (hpc : s.pc g = .closing id r b) :
      Move busID s (.closeAndTake g) { s.close b with pc := update s.pc g (.draining id r b) } .none
  | completes {g id r b : Nat} (hpc : s.pc g = .draining id r b) :
      Move busID s (.complete g) (s.complete g id r b) (.removed (some b))
  | returns {g r : Nat} {started : Option Nat} {x : Removal} (hpc : s.pc g = .joined r started)
      (hx : s.removals[r]? = some x) (hdone : x.done) :
      Move busID s (.join g) { s with pc := update s.pc g .idle } (.removed started)

theorem step_move (busID : Nat → Nat) (s : Server) (op : Op) :
    Move busID s op (step busID s op).1 (step busID s op).2 := by
  have hstay : ∀ op, Move busID s op s .none := fun op => .stay op _ nofun
  cases op with
  | addBus b =>
    simp only [step, Server.addBus]
    split
    · exact .stay _ _ nofun
    rename_i hno
    simp only [Bool.or_eq_true, not_or, Bool.not_eq_true, Option.isSome_eq_false_iff,
      Option.isNone_iff_eq_none] at hno
    exact .addBus hno.1 hno.2
  | addDevice b =>
    simp only [step]
    split
    · exact .stay _ _ nofun
    next hopen => exact .edit _ ⟨fun hclosed => absurd hclosed hopen, .inl rfl⟩
  | removeDevice b => exact .edit _ ⟨id, .inr ⟨rfl, rfl⟩⟩
  | closeBus b => exact .edit _ ⟨fun _ => rfl, .inl rfl⟩
  | drained b =>
    simp only [step]
    split
    · exact .edit _ ⟨id, .inr ⟨rfl, rfl⟩⟩
    · exact hstay _
  | scheduleEmptyBusCleanup b =>
    simp only [step, Server.scheduleEmptyBusCleanup]
    split
    · exact hstay _
    · refine .schedule ?_
      cases (s.bus b).emptyCtx <;> simp
  | removeEmptyBusIncarnation t =>
    simp only [step]
    split
    · exact hstay _
    rename_i c hc
    simp only [Server.removeEmptyBusIncarnation]
    split
    · exact hstay _
    split
    · exact hstay _
    next hreg hctx =>
      simp only [Bool.or_eq_true, bne_iff_ne, not_or, not_not] at hctx
      exact .cleanup hc (not_not.1 hreg) hctx.2 ⟨rfl, rfl⟩
  | removeBus g id =>
    simp only [step]
    split
    next hpc =>
      unfold Server.removeBus
      split
      · exact .joins ‹_› hpc
      · split
        · exact .stay _ _ nofun
        · exact .begins ‹_› ‹_› hpc
    · exact hstay _
  | closeAndTake g =>
    simp only [step]
    split
    · exact .closes ‹_›
    · exact hstay _
  | complete g =>
    simp only [step]
    split
    · split
      · exact .completes ‹_›
      · exact hstay _
    · exact hstay _
  | join g =>
    simp only [step]
    split
    next r started hpc =>
      cases hx : s.removals[r]? with
      | none => exact hstay _
      | some x =>
        cases hdone : x.done with
        | false => simpa [hdone] using hstay _
        | true => simpa [hdone] using Move.returns hpc hx hdone
    · exact hstay _

/-! ## Every run -/

/-- What holds after any run. -/
structure Inv (busID : Nat → Nat) (s : Server) : Prop where
  keyed : ∀ id b, s.busses id = some b → busID b = id
  gone : ∀ b ∈ s.removed, (s.bus b).closed ∧ ∀ id, s.busses id ≠ some b
  nodup : s.removed.Nodup
  fresh : ∀ c ∈ s.cleanups, c.ctx < s.contexts ∧
    ((s.bus c.bus).emptyCtx = some c.ctx → c.adds = (s.bus c.bus).adds)
  bound : ∀ b ctx, (s.bus b).emptyCtx = some ctx → ctx < s.contexts
  draining : ∀ g id r b, s.pc g = .draining id r b → (s.bus b).closed

section Inv

variable {s s' : Server} {op : Op} {a : Answer} {b id : Nat} {x : Bus}

theorem Ages.setBus (hx : Ages (s.bus b) x) (k : Nat) : Ages (s.bus k) ((s.setBus b x).bus k) := by
  rw [setBus_bus]
  split
  next heq =>
    rw [heq]
    exact hx
  · exact ⟨id, .inr ⟨rfl, rfl⟩⟩

theorem Inv.edit (h : Inv busID s) (hx : Ages (s.bus b) x) : Inv busID (s.setBus b x) := by
  have hages := hx.setBus
  refine { h with
    gone := fun k hk => ⟨(hages k).closed (h.gone k hk).1, (h.gone k hk).2⟩
    fresh := fun c (hc : c ∈ s.cleanups) => ⟨(h.fresh c hc).1, fun hctx => ?_⟩
    bound := fun k ctx hk => ?_
    draining := fun g id r k hk => (hages k).closed (h.draining g id r k hk) }
  · rcases (hages c.bus).fresh with hno | ⟨hsame, hadds⟩
    · cases hno.symm.trans hctx
    · rw [hadds]
      exact (h.fresh c hc).2 (hsame ▸ hctx)
  · rcases (hages k).fresh with hno | ⟨hsame, -⟩
    · cases hno.symm.trans hk
    · exact h.bound k ctx (hsame ▸ hk)

/-- A closed bus leaves the table. -/
theorem Inv.unregister (h : Inv busID s) (hreg : s.busses id = some b)
    (hclosed : (s.bus b).closed) : Inv busID (s.unregister id b) := by
  have hstays {k c : Nat} (hc : (s.unregister id b).busses k = some c) :
      k ≠ id ∧ s.busses k = some c := by
    rw [unregister_busses] at hc
    split at hc
    · cases hc
    · exact ⟨‹_›, hc⟩
  refine { h with
    keyed := fun k c hc => h.keyed k c (hstays hc).2
    gone := fun c hc => ?_
    nodup := nodup_append.2 ⟨h.nodup, by simp, fun c hc d hd heq => ?_⟩ }
  · rcases mem_append.1 hc with hc | hc
    · exact ⟨(h.gone c hc).1, fun k hk => (h.gone c hc).2 k (hstays hk).2⟩
    · cases mem_singleton.1 hc
      -- the bus was registered under its own number only
      refine ⟨hclosed, fun k hk => (hstays hk).1 ?_⟩
      exact (h.keyed k b (hstays hk).2).symm.trans (h.keyed id b hreg)
  · cases mem_singleton.1 hd
    cases heq
    exact (h.gone b hc).2 id hreg

theorem Inv.move (h : Inv busID s) (hm : Move busID s op s' a) : Inv busID s' := by
  have hpc : ∀ {u : Server} (g : Nat) (p : Pc), Inv busID u →
      (∀ id r b, p = .draining id r b → (u.bus b).closed) →
      Inv busID { u with pc := update u.pc g p } := by
    intro u g p hu hp
    refine { hu with draining := fun g' id r b hg => ?_ }
    simp only [update_apply] at hg
    split at hg
    · exact hp id r b hg
    · exact hu.draining g' id r b hg
  cases hm with
  | stay => exact h
  | edit _ hx => exact h.edit hx
  | @addBus b hopen hfree =>
    refine { h with
      keyed := fun k c hc => ?_
      gone := fun c hc => ⟨(h.gone c hc).1, fun k hk => ?_⟩ }
    · simp only [update_apply] at hc
      split at hc
      next heq =>
        cases hc
        exact heq.symm
      · exact h.keyed k c hc
    · simp only [update_apply] at hk
      split at hk
      · cases hk
        cases hopen.symm.trans (h.gone b hc).1
      · exact (h.gone c hc).2 k hk
  | @schedule b ctx hctx =>
    have hbefore : ctx < s.contexts + 1 := by
      rcases hctx with hold | rfl
      · exact Nat.lt_succ_of_lt (h.bound b ctx hold)
      · exact Nat.lt_succ_self _
    have hsame (k : Nat) :
        ((s.setBus b { s.bus b with emptyCtx := some ctx }).bus k).closed = (s.bus k).closed ∧
        ((s.setBus b { s.bus b with emptyCtx := some ctx }).bus k).adds = (s.bus k).adds := by
      rw [setBus_bus]
      split
      next heq =>
        rw [heq]
        exact ⟨rfl, rfl⟩
      · exact ⟨rfl, rfl⟩
    refine { h with
      gone := fun k hk => ⟨(hsame k).1.trans (h.gone k hk).1, (h.gone k hk).2⟩
      fresh := fun c hc => ?_
      bound := fun k y hk => ?_
      draining := fun g id r k hk => (hsame k).1.trans (h.draining g id r k hk) }
    · rcases mem_append.1 hc with hc | hc
      · obtain ⟨hlt, hold⟩ := h.fresh c hc
        refine ⟨Nat.lt_succ_of_lt hlt, fun hempty => ((hsame c.bus).2.trans (hold ?_).symm).symm⟩
        simp only [setBus_bus] at hempty
        split at hempty
        next heq =>
          -- a context made now is of no earlier cleanup
          cases hempty
          rw [heq]
          exact hctx.resolve_right (Nat.ne_of_lt hlt)
        · exact hempty
      · cases mem_singleton.1 hc
        exact ⟨hbefore, fun _ => (hsame b).2.symm⟩
    · simp only [setBus_bus] at hk
      split at hk
      · cases hk
        exact hbefore
      · exact Nat.lt_succ_of_lt (h.bound k y hk)
  | cleanup hc hreg hctx hx =>
    exact (h.edit ⟨fun _ => hx.1, .inl hx.2⟩).unregister hreg (by simp [setBus_bus, hx.1])
  | joins | returns => exact hpc _ _ h nofun
  | @begins g id b => exact { hpc g (.closing id s.removals.length b) h nofun with }
  | @closes g id r b hg =>
    have hclose : Inv busID (s.close b) := h.edit ⟨fun _ => rfl, .inl rfl⟩
    refine hpc g _ hclose fun id' r' b' hp => ?_
    cases hp
    simp [Server.close, setBus_bus]
  | @completes g id r b hg =>
    have hun : Inv busID (if s.busses id = some b then s.unregister id b else s) := by
      split
      · exact h.unregister ‹_› (h.draining g id r b hg)
      · exact h
    exact { hpc g .idle hun nofun with }

end Inv

/-! ## Runs without a cleanup during a removal -/

/-- No empty-bus cleanup takes its turn while a removal of its number is under way. -/
def Undisturbed (busID : Nat → Nat) (s : Server) : Op → Prop
  | .removeEmptyBusIncarnation t => ∀ c ∈ s.cleanups[t]?, s.busRemovals (busID c.bus) = none
  | _ => True

/-- The call which makes the removal `r` of bus `b` under number `id`. -/
def Pc.removes (p : Pc) (id r b : Nat) : Prop := p = .closing id r b ∨ p = .draining id r b

/-- What holds after any such run: a removal under way is of the bus in the table. -/
structure Joint (s : Server) : Prop where
  underway : ∀ id r, s.busRemovals id = some r →
    ∃ x, s.removals[r]? = some x ∧ x.done = false ∧ s.busses id = some x.bus
  done : ∀ (r : Nat) (x : Removal), s.removals[r]? = some x → x.done →
    (s.bus x.bus).closed ∧ ∀ id, s.busses id ≠ some x.bus
  call : ∀ g id r b, (s.pc g).removes id r b →
    s.busRemovals id = some r ∧ s.removals[r]? = some ⟨g, b, false⟩
  joined : ∀ g r started, s.pc g = .joined r started →
    ∃ x, s.removals[r]? = some x ∧ started = some x.bus

section Joint

variable {s s' : Server} {op : Op} {a : Answer}

/-- A step which leaves the calls and their removals alone. -/
theorem Joint.frame (h : Joint s) (hr : s'.busRemovals = s.busRemovals)
    (hm : s'.removals = s.removals) (hp : s'.pc = s.pc)
    (hbus : ∀ b, (s.bus b).closed → (s'.bus b).closed)
    (hadd : ∀ id b, s'.busses id = some b → s.busses id = some b ∨ (s.bus b).closed = false)
    (hkeep : ∀ id r b, s.busRemovals id = some r → s.busses id = some b → s'.busses id = some b) :
    Joint s' where
  underway := fun id r hid => by
    rw [hr] at hid
    obtain ⟨x, hx, hdone, hb⟩ := h.underway id r hid
    exact ⟨x, hm ▸ hx, hdone, hkeep id r x.bus hid hb⟩
  done := fun r x hx hdone => by
    obtain ⟨hclosed, hoff⟩ := h.done r x (hm ▸ hx) hdone
    refine ⟨hbus _ hclosed, fun id hid => ?_⟩
    rcases hadd id x.bus hid with hold | hopen
    · exact hoff id hold
    · cases hopen.symm.trans hclosed
  call := by rw [hr, hm, hp]; exact h.call
  joined := by rw [hm, hp]; exact h.joined

theorem Joint.goto (h : Joint s) (g : Nat) (p : Pc) (hcall : ∀ id r b, p.removes id r b →
      s.busRemovals id = some r ∧ s.removals[r]? = some ⟨g, b, false⟩)
    (hjoined : ∀ r started, p = .joined r started →
      ∃ x, s.removals[r]? = some x ∧ started = some x.bus) :
    Joint { s with pc := update s.pc g p } where
  underway := h.underway
  done := h.done
  call := fun g' id r b hg => by
    simp only [update_apply] at hg
    split at hg
    next heq =>
      rw [heq]
      exact hcall id r b hg
    · exact h.call g' id r b hg
  joined := fun g' r started hg => by
    simp only [update_apply] at hg
    split at hg
    · exact hjoined r started hg
    · exact h.joined g' r started hg

theorem Joint.move (h : Joint s) (hinv : Inv busID s) (hok : Undisturbed busID s op)
    (hm : Move busID s op s' a) : Joint s' := by
  cases hm with
  | stay => exact h
  | edit _ hx =>
    exact h.frame rfl rfl rfl (fun k => (hx.setBus k).closed) (fun _ _ => .inl) fun _ _ _ _ => id
  | @addBus c hopen hfree =>
    refine h.frame rfl rfl rfl (fun _ => id) (fun id b hb => ?_) fun id r b hr hb => ?_
    · simp only [update_apply] at hb
      split at hb
      · cases hb
        exact .inr hopen
      · exact .inl hb
    · have hne : id ≠ busID c := by
        rintro rfl
        cases hfree.symm.trans hb
      exact (update_of_ne hne _ _).trans hb
  | schedule =>
    refine h.frame rfl rfl rfl (fun k hk => ?_) (fun _ _ => .inl) fun _ _ _ _ => id
    simp only [setBus_bus]
    split
    next heq => exact heq ▸ hk
    · exact hk
  | @cleanup t c x hc hreg hctx hx =>
    have hfree := hok _ hc
    refine h.frame rfl rfl rfl (fun b hb => ?_) (fun id b hb => ?_) fun id r b hr hb => ?_
    · exact (Ages.setBus ⟨fun _ => hx.1, .inl hx.2⟩ b).closed hb
    · rw [unregister_busses] at hb
      split at hb
      · cases hb
      · exact .inl hb
    · have hne : id ≠ busID c.bus := by
        rintro rfl
        cases hfree.symm.trans hr
      rw [unregister_busses, if_neg hne]
      exact hb
  | @joins g id r hr hpc =>
    obtain ⟨x, hx, -, hb⟩ := h.underway id r hr
    exact h.goto g _ (by simp [Pc.removes]) fun r' started hp => by cases hp; exact ⟨x, hx, hb⟩
  | @begins g id b hr hb hpc =>
    have hold : ∀ {r : Nat} {x : Removal}, s.removals[r]? = some x →
        (s.removals ++ [⟨g, b, false⟩])[r]? = some x := by grind
    refine ⟨fun id' r' hid => ?_, fun r' x hx hd => ?_, fun g' id' r' b' hg => ?_,
      fun g' r' started hg => ?_⟩
    all_goals simp only [update_apply] at *
    · split at hid
      · cases hid
        exact ⟨⟨g, b, false⟩, by simp, rfl, by simp_all⟩
      · obtain ⟨x, hx, hdone, hb'⟩ := h.underway id' r' hid
        exact ⟨x, hold hx, hdone, hb'⟩
    · -- the new removal is not done
      have hx : s.removals[r']? = some x := by grind
      exact h.done r' x hx hd
    · split at hg
      next heq =>
        rcases hg with hg | hg
        · cases hg
          rw [heq]
          exact ⟨if_pos rfl, getElem?_concat_length⟩
        · cases hg
      · obtain ⟨hid, hx⟩ := h.call g' id' r' b' hg
        have hne : id' ≠ id := by
          rintro rfl
          cases hr.symm.trans hid
        exact ⟨(if_neg hne).trans hid, hold hx⟩
    · split at hg
      · cases hg
      · obtain ⟨x, hx, hs⟩ := h.joined g' r' started hg
        exact ⟨x, hold hx, hs⟩
  | @closes g id r b hg =>
    have hages : Ages (s.bus b) { s.bus b with closed := true, emptyCtx := none } :=
      ⟨fun _ => rfl, .inl rfl⟩
    have hclose : Joint (s.close b) := h.frame rfl rfl rfl (fun k => (hages.setBus k).closed)
      (fun _ _ => .inl) fun _ _ _ _ hb => hb
    refine hclose.goto g (.draining id r b) (fun id' r' b' hp => ?_) (by rintro _ _ ⟨⟩)
    rcases hp with hp | hp
    · cases hp
    · cases hp
      exact h.call g id r b (.inl hg)
  | @completes g id r b hg =>
    obtain ⟨hid, hx⟩ := h.call g id r b (.inr hg)
    obtain ⟨y, hy, -, hreg⟩ := h.underway id r hid
    obtain rfl := Option.mem_unique hy hx
    have hclosed := hinv.draining g id r b hg
    have hkeyed := hinv.keyed
    have hmod : ∀ k, (s.removals.modify r fun x => { x with done := true })[k]? =
        if k = r then some ⟨g, b, true⟩ else s.removals[k]? := by
      grind
    simp only [Server.complete, hreg, if_true]
    refine ⟨fun id' r' hid' => ?_, fun r' x hx hd => ?_, fun g' id' r' b' hg' => ?_,
      fun g' r' started hg' => ?_⟩
    all_goals simp only [update_apply, Server.unregister, hmod] at *
    · split at hid'
      · cases hid'
      next hne =>
        obtain ⟨x, hx', hdone, hb'⟩ := h.underway id' r' hid'
        -- the same removal would be of the same bus, under the same number
        have hother : r' ≠ r := by
          rintro rfl
          obtain rfl := Option.mem_unique hx' hx
          exact hne ((hkeyed id' b hb').symm.trans (hkeyed id b hreg))
        rw [if_neg hother, if_neg hne]
        exact ⟨x, hx', hdone, hb'⟩
    · split at hx
      · cases hx
        refine ⟨hclosed, fun id' hb' => ?_⟩
        split at hb'
        · cases hb'
        next hne => exact hne ((hkeyed id' b hb').symm.trans (hkeyed id b hreg))
      · obtain ⟨hclosed', hoff⟩ := h.done r' x hx hd
        refine ⟨hclosed', fun id' hb' => ?_⟩
        split at hb'
        · cases hb'
        · exact hoff id' hb'
    · split at hg'
      · rcases hg' with hg' | hg' <;> cases hg'
      next hne =>
        obtain ⟨hid', hx'⟩ := h.call g' id' r' b' hg'
        have hother : r' ≠ r := by
          rintro rfl
          cases Option.mem_unique hx' hx
          exact hne rfl
        have hnumber : id' ≠ id := by
          rintro rfl
          exact hother (Option.mem_unique hid' hid)
        rw [if_neg hother, if_neg hnumber]
        exact ⟨hid', hx'⟩
    · split at hg'
      · cases hg'
      · obtain ⟨x, hx', hstarted⟩ := h.joined g' r' started hg'
        split
        next heq =>
          cases Option.mem_unique (heq ▸ hx') hx
          exact ⟨_, rfl, hstarted⟩
        · exact ⟨x, hx', hstarted⟩
  | returns => exact h.goto _ _ (by simp [Pc.removes]) (by rintro _ _ ⟨⟩)

/-- A removal which returns was of a bus which is closed and off the table. -/
theorem Joint.answer (h : Joint s) (hinv : Inv busID s) (hm : Move busID s op s' a)
    {started : Option Nat} (ha : a = .removed started) (b : Nat) (hb : b ∈ started) :
    (s'.bus b).closed ∧ ∀ id, s'.busses id ≠ some b := by
  cases hm with
  | stay _ _ hno => exact absurd ha (hno _)
  | @completes g id r c hg =>
    cases ha
    cases hb
    obtain ⟨hid, hx⟩ := h.call g id r b (.inr hg)
    obtain ⟨y, hy, -, hreg⟩ := h.underway id r hid
    obtain rfl := Option.mem_unique hy hx
    have hgone := (hinv.unregister hreg (hinv.draining g id r b hg)).gone b
      (mem_append_right _ (mem_singleton_self b))
    simpa only [Server.complete, hreg, if_true] using hgone
  | @returns g r _ x hg hx hdone =>
    cases ha
    obtain ⟨y, hy, rfl⟩ := h.joined g r started hg
    obtain rfl := Option.mem_unique hy hx
    cases hb
    exact h.done r y hy hdone
  | _ => cases ha

end Joint

/-- How bus `b` leaves the table: by a cleanup armed after the last device was added,
or by the call which closed it. -/
def Leaves (s : Server) (id b : Nat) : Op → Prop
  | .removeEmptyBusIncarnation t =>
      ∃ c, s.cleanups[t]? = some c ∧ c.bus = b ∧ c.adds = (s.bus b).adds
  | .complete g => (∃ r, s.pc g = .draining id r b) ∧ (s.bus b).closed
  | _ => False

theorem Inv.leaves {s s' : Server} {op : Op} {a : Answer} {id b : Nat}
    (h : Inv busID s) (hm : Move busID s op s' a) (hb : s.busses id = some b)
    (hb' : s'.busses id ≠ some b) : Leaves s id b op ∧ s'.removed = s.removed ++ [b] := by
  cases hm with
  | @addBus c _ hfree =>
    have hne : id ≠ busID c := by
      rintro rfl
      cases hfree.symm.trans hb
    exact absurd ((update_of_ne hne _ _).trans hb) hb'
  | @cleanup t c x hc hreg hctx =>
    rw [unregister_busses] at hb'
    obtain rfl : id = busID c.bus := by
      by_contra hne
      exact hb' ((if_neg hne).trans hb)
    obtain rfl := Option.mem_unique hreg hb
    exact ⟨⟨c, hc, rfl, (h.fresh c (mem_of_getElem? hc)).2 hctx⟩, rfl⟩
  | @completes g id' r c hg =>
    simp only [Server.complete] at hb' ⊢
    split at hb'
    next hreg =>
      obtain rfl : id = id' := by
        by_contra hne
        exact hb' ((update_of_ne hne _ _).trans hb)
      obtain rfl := Option.mem_unique hreg hb
      exact ⟨⟨⟨r, hg⟩, h.draining g id r c hg⟩, by rw [if_pos hreg]; rfl⟩
    · exact absurd hb hb'
  | _ => exact absurd hb hb'

theorem inv_new (busID : Nat → Nat) : Inv busID {} where
  keyed := nofun
  gone := nofun
  nodup := nodup_nil
  fresh := nofun
  bound := nofun
  draining := nofun

theorem joint_new : Joint {} where
  underway := nofun
  done := by simp
  call := by simp [Pc.removes]
  joined := nofun

/-- **Bus removal.**  No bus leaves the table twice, a cleanup only removes a bus to
which no device was added since it was armed, and `RemoveBus` only unregisters the
bus it closed.  If no cleanup takes its turn while a removal of its number is under
way, then the bus which was registered when a call started is closed and no longer
registered when the call returns nil. -/
theorem removed_when_returned (busID : Nat → Nat) (ops : List Op) :
    (final (step busID) {} ops).removed.Nodup ∧
    (∀ e ∈ trace (step busID) {} ops, ∀ id b, e.pre.busses id = some b → e.post.busses id ≠ some b →
      Leaves e.pre id b e.op ∧ e.post.removed = e.pre.removed ++ [b]) ∧
    (Allowed (step busID) (fun _ => Undisturbed busID) [] {} ops →
      ∀ e ∈ trace (step busID) {} ops, ∀ started, e.out = .removed started → ∀ b ∈ started,
        (e.post.bus b).closed ∧ ∀ id, e.post.busses id ≠ some b) := by
  have hstep : ∀ s op, Inv busID s → Inv busID (step busID s op).1 :=
    fun s op h => h.move (step_move busID s op)
  refine ⟨(invariant_final hstep (inv_new busID) ops).nodup, ?_, fun hrun => ?_⟩
  · exact invariant_trace hstep
      (fun s op h id b hb hb' => h.leaves (step_move busID s op) hb hb') (inv_new busID) ops
  · refine (history_induction (P := fun evs s => (∀ e ∈ evs, ∀ started, e.out = .removed started →
      ∀ b ∈ started, (e.post.bus b).closed ∧ ∀ id, e.post.busses id ≠ some b) ∧
        Inv busID s ∧ Joint s) ⟨nofun, inv_new busID, joint_new⟩ ?_ ops hrun).1
    rintro evs s op ⟨hevs, hinv, h⟩ hok
    have hm := step_move busID s op
    refine ⟨fun e he => ?_, hinv.move hm, h.move hinv hok hm⟩
    rcases mem_append.1 he with he | he
    · exact hevs e he
    cases mem_singleton.1 he
    exact fun started ha b hb => h.answer hinv hm ha b hb

/-- Two callers remove bus 0, and number 1 is taken again by bus 1 only afterwards. -/
theorem two_callers_removed_when_returned :
    let s := final (step fun _ => 1) {} [.addBus 0, .removeBus 0 1, .removeBus 1 1,
      .closeAndTake 0, .drained 0, .complete 0, .addBus 1]
    (step (fun _ => 1) s (.join 1)).2 = .removed (some 0) ∧ (s.bus 0).closed ∧
      s.busses 1 = some 1 := by
  have h := (removed_when_returned (fun _ => 1) [.addBus 0, .removeBus 0 1, .removeBus 1 1,
    .closeAndTake 0, .drained 0, .complete 0, .addBus 1, .join 1]).2.2
    (by simp [Allowed, Undisturbed]) _ (mem_of_getElem? (i := 7) rfl) (some 0) rfl 0 rfl
  exact ⟨rfl, h.1, rfl⟩

/-- A cleanup removes bus 0 while call 0 is about to close it, and bus 1 takes its
number: call 1, which joins the removal of bus 0, returns nil while the bus which
was registered when it started is open and registered. -/
theorem returned_with_bus_registered :
    let s := final (step fun _ => 1) {} [.addBus 0, .scheduleEmptyBusCleanup 0, .removeBus 0 1,
      .removeEmptyBusIncarnation 0, .addBus 1, .removeBus 1 1, .closeAndTake 0, .complete 0]
    (step (fun _ => 1) s (.join 1)).2 = .removed (some 1) ∧ (s.bus 1).closed = false ∧
      s.busses 1 = some 1 := by decide

end Viiper.Ports.BusTable
