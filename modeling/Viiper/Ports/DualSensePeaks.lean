import Viiper.Ports.DualSenseLine

/-!
# Presses, peaks and the order of reports

What the scheduler did so far is a `Log`: the states it received, which of them were
transitions, and the entries it committed.  A press of a trigger is a run of nonzero
values in the received states (`Pressed`), with a highest value.

The invariant says that the transitions in the line and the committed ones are all the
received transitions, in order (`Order`), that the peak of an earlier press is committed or
waits ahead of everything received after the release (`Past`), and that the peak of a
current press is secured once a later transition was received (`Current`).  It holds as
long as a trigger which repeats its peak value repeats its physical status (`Steady`).
-/

namespace Viiper.Ports.DualSense

open Verified Go List Bool Scheduler

variable {x e : ScheduledInputState} {v v' : View} {peak : UInt8} {start : Side → Nat}

/-- In a list of values, the positions from `a` to before `b` are one press, and `peak`
is the highest value in it. -/
structure Pressed (xs : List UInt8) (a b : Nat) (peak : UInt8) : Prop where
  lt : a < b
  start : a = 0 ∨ xs[a - 1]? = some 0
  nonzero : ∀ i v, a ≤ i → i < b → xs[i]? = some v → v ≠ 0 ∧ v ≤ peak
  attained : ∃ i, a ≤ i ∧ i < b ∧ xs[i]? = some peak

namespace Pressed

variable {xs : List UInt8} {a b a' : Nat} {peak' : UInt8}

theorem append (ys : List UInt8) (hb : b ≤ xs.length) :
    Pressed (xs ++ ys) a b peak ↔ Pressed xs a b peak := by
  have hget : ∀ i, i < b → (xs ++ ys)[i]? = xs[i]? := fun i hi =>
    getElem?_append_left (Nat.lt_of_lt_of_le hi hb)
  constructor <;> rintro ⟨hlt, hstart, hnonzero, i, hai, hib, hi⟩
  · refine ⟨hlt, ?_, fun i v hai hib hi => hnonzero i v hai hib ((hget i hib).trans hi), i, hai,
      hib, (hget i hib).symm.trans hi⟩
    rwa [hget _ (by omega)] at hstart
  · refine ⟨hlt, ?_, fun i v hai hib hi => hnonzero i v hai hib ((hget i hib).symm.trans hi), i,
      hai, hib, (hget i hib).trans hi⟩
    rwa [hget _ (by omega)]

theorem unique (h : Pressed xs a b peak) (h' : Pressed xs a' b peak') : a = a' ∧ peak = peak' := by
  have hle : ∀ {a a' : Nat} {peak peak' : UInt8}, Pressed xs a b peak → Pressed xs a' b peak' →
      a ≤ a' := by
    intro a a' peak peak' h h'
    refine Nat.le_of_not_lt fun hlt => ?_
    have ha := h.lt
    rcases h.start with h0 | h0
    · omega
    · exact (h'.nonzero (a - 1) 0 (by omega) (by omega) h0).1 rfl
  obtain rfl : a = a' := Nat.le_antisymm (hle h h') (hle h' h)
  obtain ⟨i, hai, hib, hi⟩ := h.attained
  obtain ⟨j, haj, hjb, hj⟩ := h'.attained
  exact ⟨rfl, UInt8.le_antisymm (h'.nonzero i peak hai hib hi).2 (h.nonzero j peak' haj hjb hj).2⟩

theorem begin {v : UInt8} (hv : v ≠ 0) (hstart : xs.getLast?.all (· == 0)) :
    Pressed (xs ++ [v]) xs.length (xs.length + 1) v := by
  refine ⟨Nat.lt_succ_self _, ?_, ?_, xs.length, Nat.le_refl _, Nat.lt_succ_self _, by simp⟩
  · rcases Nat.eq_zero_or_pos xs.length with h0 | hpos
    · exact .inl h0
    right
    rw [getElem?_append_left (by omega), ← getLast?_eq_getElem?]
    cases hlast : xs.getLast? with
    | none => simp [getLast?_eq_none_iff.1 hlast] at hpos
    | some w => simpa [hlast] using hstart
  · intro i w hai hib hi
    obtain rfl : i = xs.length := by omega
    obtain rfl : v = w := by simpa using hi
    exact ⟨hv, UInt8.le_refl _⟩

/-- A press goes on with every nonzero value. -/
theorem snoc (h : Pressed xs a xs.length peak) {v : UInt8} (hv : v ≠ 0) :
    Pressed (xs ++ [v]) a (xs.length + 1) (if peak < v then v else peak) := by
  have hold := (append [v] (Nat.le_refl _)).2 h
  have hle : peak ≤ (if peak < v then v else peak) ∧ v ≤ (if peak < v then v else peak) := by
    split
    · next hlt => exact ⟨UInt8.le_of_lt hlt, UInt8.le_refl _⟩
    · next hlt => exact ⟨UInt8.le_refl _, UInt8.not_lt.1 hlt⟩
  refine ⟨Nat.lt_succ_of_lt h.lt, hold.start, ?_, ?_⟩
  · intro i w hai hib hi
    rcases Nat.lt_or_ge i xs.length with hlt | hge
    · obtain ⟨h1, h2⟩ := hold.nonzero i w hai hlt hi
      exact ⟨h1, UInt8.le_trans h2 hle.1⟩
    · obtain rfl : i = xs.length := by omega
      obtain rfl : v = w := by simpa using hi
      exact ⟨hv, hle.2⟩
  · split
    · exact ⟨xs.length, Nat.le_of_lt h.lt, Nat.lt_succ_self _, by simp⟩
    obtain ⟨i, hai, hib, hi⟩ := hold.attained
    exact ⟨i, hai, Nat.lt_succ_of_lt hib, hi⟩

end Pressed

/-! ## The order of the line -/

/-- What happened so far.  The `n`-th received state has the ordinal `n`; `transitions`
are the ordinals of those which were transitions. -/
structure Log where
  received : List InputState
  transitions : List Nat
  committed : List ScheduledInputState

namespace Log

/-- The values a trigger had, in the order of reception. -/
def values (g : Log) (t : Side) : List UInt8 := g.received.map (triggerValue · t)

/-- The transitions among some entries.  An idle report, which presents the last report
again, is not counted. -/
def own (g : Log) (l : List ScheduledInputState) : List Nat :=
  (l.map fun x => (x.ordinal, x.sampleQueueAge)).filterMap fun k =>
    if k.2 ∧ k.1 ∈ g.transitions then some k.1 else none

def commit (g : Log) (o : Option ScheduledInputState) : Log :=
  { g with committed := g.committed ++ o.toList }

theorem own_append (g : Log) (l l' : List ScheduledInputState) :
    g.own (l ++ l') = g.own l ++ g.own l' := by
  simp [own]

theorem own_eq_nil {g : Log}
    (h : x.sampleQueueAge = false ∨ x.ordinal ∉ g.transitions) : g.own [x] = [] := by
  rcases h with h | h <;> simp [own, h]

theorem mem_own {g : Log} {l : List ScheduledInputState} {o : Nat} (h : o ∈ g.own l) :
    ∃ x ∈ l, x.ordinal = o := by
  simp only [own, mem_filterMap, mem_map] at h
  obtain ⟨k, ⟨x, hx, rfl⟩, hk⟩ := h
  refine ⟨x, hx, ?_⟩
  split at hk
  · exact Option.some.inj hk
  · cases hk

end Log

section Entries

variable {P : ScheduledInputState → Prop}

variable (hold : ∀ y ∈ v.entries, P y)

include hold

theorem forall_add (hx : P x) (hnew : ∀ y ∈ v'.entries, y ∈ v.entries ∨ y = x) :
    ∀ y ∈ v'.entries, P y := fun y hy => (hnew y hy).elim (hold y) fun h => h ▸ hx

theorem forall_join (hx : P x) :
    ∀ y ∈ View.entries { v with line := v.line ++ [x], latest := none }, P y :=
  forall_add hold hx fun y hy => by grind [mem_entries]

theorem forall_latch (hx : P x) : ∀ y ∈ View.entries { v with latest := some x }, P y :=
  forall_add hold hx fun y hy => by grind [mem_entries]

theorem forall_recover (hx : v.loose = some x) :
    ∀ y ∈ View.entries { v with line := x :: v.line, loose := none }, P y :=
  forall_add hold (hold x (by simp [mem_entries, hx])) fun y hy => by grind [mem_entries]

theorem forall_set {i : Nat} (hx : P x) :
    ∀ y ∈ View.entries { v with line := v.line.set i x }, P y :=
  forall_add hold hx fun y hy => by grind [mem_entries, mem_or_eq_of_mem_set]

end Entries

/-- The order of the ordered work, and of what was committed. -/
structure Order (v : View) (g : Log) : Prop where
  bound : ∀ x ∈ v.entries, x.ordinal ≤ g.received.length
  committed : ∀ c ∈ g.committed, c.ordinal ≤ g.received.length
  range : ∀ o ∈ g.transitions, o ≤ g.received.length
  increasing : g.transitions.Pairwise (· < ·)
  linear : g.own g.committed ++ g.own v.line = g.transitions
  sorted : (v.line.map (·.ordinal)).Pairwise fun a b => a ∈ g.transitions → a ≤ b
  after : ∀ c ∈ g.committed, c.ordinal ∈ g.transitions → ∀ x ∈ v.entries, c.ordinal ≤ x.ordinal
  history : g.committed.Pairwise fun c d => c.ordinal ∈ g.transitions → c.ordinal ≤ d.ordinal
  continuous : ∀ x ∈ v.entries, x.ordered = false → x.ordinal ∉ g.transitions
  loose : ∀ x ∈ v.loose, x.ordered = false
  latest : ∀ x ∈ v.latest, x.ordered = false ∧ ∀ o ∈ g.transitions, o ≤ x.ordinal

variable {i : Nat}

namespace Order

variable {g : Log} {o : Option ScheduledInputState}

variable (h : Order v g)

include h

/-- Everything waiting in the line is committed once the line is empty. -/
theorem all_committed (hline : v.line = []) (hi : i ∈ g.transitions) :
    ∃ c ∈ g.committed, c.ordinal = i := by
  have hlinear := h.linear
  rw [hline, show g.own [] = [] from rfl, append_nil] at hlinear
  exact Log.mem_own (hlinear ▸ hi)

/-- A shift keeps the order, if what it commits leaves the line as it should. -/
theorem transfer (hs : Shift v v' o)
    (hnew : ∀ e ∈ o, e.ordinal ∈ g.transitions → ∀ x ∈ v'.entries, e.ordinal ≤ x.ordinal)
    (hlinear : g.own o.toList ++ g.own v'.line = g.own v.line)
    (hsorted : (v'.line.map (·.ordinal)).Pairwise fun a b => a ∈ g.transitions → a ≤ b)
    (hloose : ∀ x ∈ v'.loose, x.ordered = false)
    (hlatest : ∀ x ∈ v'.latest, x.ordered = false ∧ ∀ i ∈ g.transitions, i ≤ x.ordinal) :
    Order v' (g.commit o) where
  bound := by
    intro y hy
    obtain ⟨x, hx, hxy⟩ := hs.old hy
    exact hxy.ordinal ▸ h.bound x hx
  committed := by
    intro c hc
    rcases mem_append.1 hc with hc | hc
    · exact h.committed c hc
    · obtain rfl := Option.mem_toList.1 hc
      exact h.bound c hs.committed_mem
  range := h.range
  increasing := h.increasing
  linear := by
    change g.own (g.committed ++ o.toList) ++ g.own v'.line = g.transitions
    rw [Log.own_append, append_assoc, hlinear]
    exact h.linear
  sorted := hsorted
  after := by
    intro c hc hcT y hy
    rcases mem_append.1 hc with hc | hc
    · obtain ⟨x, hx, hxy⟩ := hs.old hy
      exact hxy.ordinal ▸ h.after c hc hcT x hx
    · exact hnew c (Option.mem_toList.1 hc) hcT y hy
  history := by
    refine pairwise_append.2 ⟨h.history, ?_, fun c hc d hd hcT => ?_⟩
    · cases o <;> simp
    · obtain rfl := Option.mem_toList.1 hd
      exact h.after c hc hcT d hs.committed_mem
  continuous := by
    intro y hy hordered
    obtain ⟨x, hx, hxy⟩ := hs.old hy
    exact hxy.ordinal ▸ h.continuous x hx (hxy.ordered hordered)
  loose := hloose
  latest := hlatest

theorem shift (hs : Shift v v' o) : Order v' (g.commit o) := by
  have hs' := hs
  cases hs with
  | still => exact h.transfer hs' (by simp) rfl h.sorted h.loose h.latest
  | takeLatest hline hloose hlatest =>
    exact h.transfer hs' (by simp) rfl h.sorted (by simpa using (h.latest _ hlatest).1) (by simp)
  | repeatLoose now hline hloose hp =>
    exact h.transfer hs' (by simp) rfl h.sorted (by simpa using hp) h.latest
  | repeatOrdered now hline hloose hp =>
    refine h.transfer hs' (by simp) ?_ (by simp) h.loose h.latest
    rw [hline, Log.own_eq_nil (.inl rfl)]
    rfl
  | @commitHead e rest hline hloose =>
    have hsorted := h.sorted
    rw [hline, map_cons, pairwise_cons] at hsorted
    refine h.transfer hs' ?_ ?_ hsorted.2 h.loose h.latest
    · intro e' he heT x hx
      obtain rfl := Option.some.inj he
      rcases mem_entries.1 hx with hx | hx | hx | hx
      · exact hsorted.1 _ (mem_map_of_mem hx) heT
      · simp [hloose] at hx
      · exact (h.latest x hx).2 _ heT
      · rw [hx]
    · rw [hline, ← singleton_append, Log.own_append]
      rfl
  | @deferHead e rest hline =>
    have hsorted := h.sorted
    rw [hline] at hsorted
    refine h.transfer hs' (by simp) ?_ hsorted h.loose h.latest
    rw [hline]
    rfl
  | @commitLoose e hloose =>
    have hcontinuous : e.ordinal ∉ g.transitions :=
      h.continuous e (mem_entries.2 (.inr (.inl hloose))) (h.loose e hloose)
    refine h.transfer hs' ?_ ?_ h.sorted (by simp) h.latest
    · intro e' he heT
      obtain rfl := Option.some.inj he
      exact absurd heT hcontinuous
    · rw [show (some e).toList = [e] from rfl, Log.own_eq_nil (.inr hcontinuous)]
      rfl
  | dropLoose => exact h.transfer hs' (by simp) rfl h.sorted (by simp) h.latest
  | @returnLoose e hline hlatest hloose =>
    refine h.transfer hs' (by simp) rfl h.sorted (by simp) ?_
    intro x hx
    obtain rfl := Option.some.inj hx
    refine ⟨h.loose _ hloose, fun i hi => ?_⟩
    obtain ⟨c, hc, rfl⟩ := h.all_committed hline hi
    exact h.after c hc hi e (mem_entries.2 (.inr (.inl hloose)))

/-- Something which is not a transition, and is newer than all of them, joins the line. -/
theorem join (hbound : x.ordinal ≤ g.received.length) (hordered : x.ordered)
    (hnew : x.ordinal ∉ g.transitions) (hlast : ∀ i ∈ g.transitions, i ≤ x.ordinal) :
    Order { v with line := v.line ++ [x], latest := none } g := by
  refine { h with
    bound := forall_join h.bound hbound
    after := fun c hc hcT => forall_join (h.after c hc hcT) (hlast _ hcT)
    continuous := forall_join h.continuous (by simp [hordered])
    latest := by simp
    linear := ?_, sorted := ?_ }
  · rw [Log.own_append, Log.own_eq_nil (.inr hnew), append_nil]
    exact h.linear
  · rw [map_append]
    refine pairwise_append.2 ⟨h.sorted, by simp, fun a ha b hb haT => ?_⟩
    rw [map_singleton, mem_singleton] at hb
    exact hb ▸ hlast a haT

/-- The claimed continuous state becomes ordered work. -/
theorem recover (hx : v.loose = some x) :
    Order { v with line := x :: v.line, loose := none } g := by
  have hnew : x.ordinal ∉ g.transitions :=
    h.continuous x (mem_entries.2 (.inr (.inl hx))) (h.loose x hx)
  refine { h with
    bound := forall_recover h.bound hx
    after := fun c hc hcT => forall_recover (h.after c hc hcT) hx
    continuous := forall_recover h.continuous hx
    loose := by simp
    linear := ?_, sorted := ?_ }
  · rw [← singleton_append, Log.own_append, Log.own_eq_nil (.inr hnew)]
    exact h.linear
  · rw [map_cons]
    exact pairwise_cons.2 ⟨fun _ _ hT => absurd hT hnew, h.sorted⟩

/-- An entry of the line is replaced by one with the same ordinal. -/
theorem replace {y : ScheduledInputState} (hx : v.line[i]? = some x)
    (hordinal : y.ordinal = x.ordinal) (hsample : y.sampleQueueAge = x.sampleQueueAge)
    (hordered : y.ordered = x.ordered) : Order { v with line := v.line.set i y } g := by
  have hmap : ∀ {β : Type} (f : ScheduledInputState → β), f y = f x →
      (v.line.set i y).map f = v.line.map f := by
    intro β f hf
    obtain ⟨hlt, rfl⟩ := List.getElem?_eq_some_iff.1 hx
    rw [map_set, hf, ← getElem_map f]
    · exact set_getElem_self _
    · simpa using hlt
  have hxmem : x ∈ v.entries := mem_entries.2 (.inl (mem_of_getElem? hx))
  refine { h with
    bound := forall_set h.bound (hordinal ▸ h.bound x hxmem)
    after := fun c hc hcT =>
      forall_set (h.after c hc hcT) (hordinal ▸ h.after c hc hcT x hxmem)
    continuous := forall_set h.continuous (hordinal ▸ hordered ▸ h.continuous x hxmem)
    linear := ?_, sorted := ?_ }
  · have hown : g.own (v.line.set i y) = g.own v.line := by
      rw [Log.own, hmap _ (by rw [hordinal, hsample])]
      rfl
    rw [hown]
    exact h.linear
  · rw [hmap _ hordinal]
    exact h.sorted

end Order

/-- The states received up to and including `next`. -/
def Log.receive (g : Log) (next : InputState) (transition : Bool) : Log :=
  { g with
    received := g.received ++ [next]
    transitions := if transition then g.transitions ++ [g.received.length + 1]
      else g.transitions }

attribute [local simp] Log.receive

/-- A transition joins the line. -/
theorem Order.enqueue {g : Log} (h : Order v g) (hordinal : e.ordinal = g.received.length + 1)
    (hsampled : e.sampleQueueAge) (next : InputState) :
    Order { v with line := v.line ++ [e.inOrder], latest := none } (g.receive next true) := by
  have hT : (g.receive next true).transitions = g.transitions ++ [g.received.length + 1] := rfl
  have hlength : (g.receive next true).received.length = g.received.length + 1 := by
    simp
  -- nothing but the new entry is made of the new state
  have hnew : ∀ {i : Nat}, i ≤ g.received.length →
      (i ∈ (g.receive next true).transitions ↔ i ∈ g.transitions) := by
    intro i hi
    rw [hT, mem_append, mem_singleton]
    constructor
    · rintro (hi | rfl)
      · exact hi
      · omega
    · exact .inl
  have hown : ∀ l : List ScheduledInputState, (∀ x ∈ l, x.ordinal ≤ g.received.length) →
      (g.receive next true).own l = g.own l := by
    intro l
    induction l with
    | nil => exact fun _ => rfl
    | cons x l ih =>
      intro hl
      rw [← singleton_append, Log.own_append, Log.own_append,
        ih fun y hy => hl y (mem_cons_of_mem _ hy)]
      simp only [Log.own, map_singleton, filterMap_cons, filterMap_nil, hnew (hl x mem_cons_self)]
  refine ⟨?_, ?_, ?_, ?_, ?_, ?_, ?_, ?_, ?_, h.loose, by simp⟩
  · rw [hlength]
    exact forall_join (fun y hy => Nat.le_succ_of_le (h.bound y hy)) (Nat.le_of_eq hordinal)
  · exact fun c hc => hlength ▸ Nat.le_succ_of_le (h.committed c hc)
  · intro i hi
    rw [hlength]
    rcases mem_append.1 hi with hi | hi
    · exact Nat.le_succ_of_le (h.range i hi)
    · exact Nat.le_of_eq (mem_singleton.1 hi)
  · refine pairwise_append.2 ⟨h.increasing, by simp, fun i hi j hj => ?_⟩
    rw [mem_singleton.1 hj]
    exact Nat.lt_succ_of_le (h.range i hi)
  · have hline : ∀ x ∈ v.line, x.ordinal ≤ g.received.length := fun x hx =>
      h.bound x (mem_entries.2 (.inl hx))
    change (g.receive next true).own g.committed ++ _ = _
    rw [Log.own_append, hown _ h.committed, hown _ hline, ← append_assoc, h.linear]
    simp [Log.own, hordinal, hsampled]
  · rw [map_append]
    refine pairwise_append.2 ⟨?_, by simp, fun i hi j hj _ => ?_⟩
    · refine h.sorted.imp_of_mem fun ha _ hab haT => hab ((hnew ?_).1 haT)
      obtain ⟨x, hx, rfl⟩ := mem_map.1 ha
      exact h.bound x (mem_entries.2 (.inl hx))
    · obtain ⟨x, hx, rfl⟩ := mem_map.1 hi
      have := h.bound x (mem_entries.2 (.inl hx))
      rw [map_singleton, mem_singleton] at hj
      rw [hj, inOrder_ordinal, hordinal]
      omega
  · intro c hc hcT
    have hbound := h.committed c hc
    refine forall_join (h.after c hc ((hnew hbound).1 hcT)) ?_
    rw [inOrder_ordinal, hordinal]
    omega
  · exact h.history.imp_of_mem fun hc _ hcd hcT => hcd ((hnew (h.committed _ hc)).1 hcT)
  · refine forall_join (fun y hy hordered hyT => ?_) (by rintro ⟨⟩)
    exact h.continuous y hy hordered ((hnew (h.bound y hy)).1 hyT)

/-- A continuous state replaces the latest one. -/
theorem Order.latch {g : Log} (h : Order v g)
    (hordinal : e.ordinal = g.received.length + 1) (hordered : e.ordered = false)
    (next : InputState) : Order { v with latest := some e } (g.receive next false) := by
  have hlength : (g.receive next false).received.length = g.received.length + 1 := by
    simp
  have hlast : ∀ i ∈ g.transitions, i < e.ordinal := fun i hi => by
    have := h.range i hi
    omega
  refine { h with
    committed := fun c hc => hlength ▸ Nat.le_succ_of_le (h.committed c hc)
    range := fun i hi => hlength ▸ Nat.le_succ_of_le (h.range i hi)
    after := fun c hc hcT => forall_latch (h.after c hc hcT) (Nat.le_of_lt (hlast _ hcT))
    continuous := forall_latch h.continuous fun _ hyT => Nat.lt_irrefl _ (hlast _ hyT)
    bound := ?_, latest := ?_ }
  · rw [hlength]
    exact forall_latch (fun y hy => Nat.le_succ_of_le (h.bound y hy)) (Nat.le_of_eq hordinal)
  · intro x hx
    obtain rfl := Option.some.inj hx
    exact ⟨hordered, fun i hi => Nat.le_of_lt (hlast i hi)⟩

/-! ## The peaks of the triggers -/

theorem Side.eq_other {t t' : Side} (h : t' ≠ t) : t' = t.other := by
  cases t <;> cases t' <;> first | rfl | exact absurd rfl h

/-- The entry belongs to the press of the epoch, which began at position `a`. -/
def Belongs (epoch : InputTriggerEpoch) (t : Side) (a : Nat) (x : ScheduledInputState) : Prop :=
  a < x.ordinal ∧ x.value t ≤ epoch.peak ∧ (x.value t = epoch.peak →
    triggerPhysicalStatusMatches x.state epoch.peakState t)

/-- What the entries of a press have to do with its epoch.  The press began with the
received state at position `a`. -/
structure Linked (v : View) (g : Log) (t : Side) (a : Nat) : Prop where
  entry : ∀ x ∈ v.entries, x.epoch t = (v.trigger t).id → Belongs (v.trigger t) t a x
  shown : (v.trigger t).presentedPeak ≠ 0 → (v.trigger t).presentedPeak ≤ (v.trigger t).peak ∧
      ∃ c ∈ g.committed, a < c.ordinal ∧ c.value t = (v.trigger t).presentedPeak
  status : (v.trigger t).presentedPeak = (v.trigger t).peak →
    triggerPhysicalStatusMatches (v.trigger t).presentedPeakState (v.trigger t).peakState t
  peak : triggerValue (v.trigger t).peakState t = (v.trigger t).peak
  positive : (v.trigger t).peak ≠ 0

/-- The peak was committed, or is on its way. -/
def Secure (v : View) (t : Side) : Prop :=
  (v.trigger t).presentedPeak = (v.trigger t).peak ∨
    ∃ x ∈ v.line, x.epoch t = (v.trigger t).id ∧ x.value t = (v.trigger t).peak

/-- Some committed entry of the press has the value. -/
def Done (g : Log) (t : Side) (a b : Nat) (peak : UInt8) : Prop :=
  ∃ c ∈ g.committed, a < c.ordinal ∧ c.ordinal ≤ b ∧ c.value t = peak

/-- Some entry of the press with the value stands in the line, before everything which
was received after the press. -/
def Waits (v : View) (t : Side) (a b : Nat) (peak : UInt8) : Prop :=
  (∀ x ∈ v.loose, x.ordinal ≤ b) ∧ ∃ (k : Nat) (x : ScheduledInputState),
    v.line[k]? = some x ∧ a < x.ordinal ∧ x.ordinal ≤ b ∧ x.value t = peak ∧
    ∀ (j : Nat) (y : ScheduledInputState), j < k → v.line[j]? = some y → y.ordinal ≤ b

/-- The peaks of the presses which were released. -/
def Past (v : View) (g : Log) (t : Side) : Prop :=
  ∀ a b peak, Pressed (g.values t) a b peak → (g.values t)[b]? = some 0 →
    Done g t a b peak ∨ Waits v t a b peak

section Shifts

variable {g : Log} {t : Side} {a b : Nat} {o : Option ScheduledInputState}

theorem Past.shift (h : Past v g t) (hs : Shift v v' o) : Past v' (g.commit o) t := by
  intro a b peak hpressed hreleased
  have hdone : Done g t a b peak → Done (g.commit o) t a b peak := fun ⟨c, hc, hrest⟩ =>
    ⟨c, mem_append_left _ hc, hrest⟩
  rcases h a b peak hpressed hreleased with hd | hw
  · exact .inl (hdone hd)
  obtain ⟨hloose, k, x, hx, hax, hxb, hvalue, hahead⟩ := hw
  have hempty : v.line ≠ [] := by
    intro hline
    simp [hline] at hx
  cases hs with
  | still => exact .inr ⟨hloose, k, x, hx, hax, hxb, hvalue, hahead⟩
  | takeLatest hline | repeatLoose _ hline | repeatOrdered _ hline | returnLoose hline =>
    exact absurd hline hempty
  | @commitHead e rest hline hnone =>
    rw [hline] at hx hahead
    cases k with
    | zero =>
      obtain rfl : e = x := by simpa using hx
      exact .inl ⟨e, mem_append_right _ (by simp), hax, hxb, hvalue⟩
    | succ k =>
      refine .inr ⟨by simp [hnone], k, x, by simpa using hx, hax, hxb, hvalue, ?_⟩
      intro j y hj hy
      exact hahead (j + 1) y (by omega) (by simpa using hy)
  | @deferHead e rest hline =>
    rw [hline] at hx hahead
    cases k with
    | zero =>
      obtain rfl : e = x := by simpa using hx
      exact .inr ⟨hloose, 0, e.inOrder, rfl, hax, hxb, hvalue, by simp⟩
    | succ k =>
      refine .inr ⟨hloose, k + 1, x, by simpa using hx, hax, hxb, hvalue, ?_⟩
      intro j y hj hy
      cases j with
      | zero =>
        obtain rfl : e.inOrder = y := by simpa using hy
        exact hahead 0 e (by omega) (by simp)
      | succ j => exact hahead (j + 1) y hj (by simpa using hy)
  | _ => exact .inr ⟨by simp, k, x, hx, hax, hxb, hvalue, hahead⟩

@[simp] theorem commitTrigger_frame (epoch : InputTriggerEpoch) (e : ScheduledInputState)
    (t : Side) : (commitTrigger epoch e t).id = epoch.id ∧
      (commitTrigger epoch e t).active = epoch.active ∧
      (commitTrigger epoch e t).peak = epoch.peak ∧
      (commitTrigger epoch e t).peakState = epoch.peakState ∧
      (commitTrigger epoch e t).peakReceiveOrdinal = epoch.peakReceiveOrdinal := by
  unfold commitTrigger
  split
  · exact ⟨rfl, rfl, rfl, rfl, rfl⟩
  · split <;> exact ⟨rfl, rfl, rfl, rfl, rfl⟩

/-- A shift changes an epoch only in what it says was presented. -/
theorem Shift.trigger_frame (hs : Shift v v' o) (t : Side) :
    (v'.trigger t).id = (v.trigger t).id ∧ (v'.trigger t).active = (v.trigger t).active ∧
      (v'.trigger t).peak = (v.trigger t).peak ∧
      (v'.trigger t).peakState = (v.trigger t).peakState ∧
      (v'.trigger t).peakReceiveOrdinal = (v.trigger t).peakReceiveOrdinal := by
  cases hs <;> first
    | exact commitTrigger_frame _ _ _
    | exact ⟨rfl, rfl, rfl, rfl, rfl⟩

/-- What a commit does to the presented peak of a press. -/
theorem Linked.presented (h : Linked v g t a) (hs : Shift v v' o) :
    ((v'.trigger t).presentedPeak ≠ 0 → (v'.trigger t).presentedPeak ≤ (v.trigger t).peak ∧
        ∃ c ∈ (g.commit o).committed, a < c.ordinal ∧ c.value t = (v'.trigger t).presentedPeak) ∧
    ((v'.trigger t).presentedPeak = (v.trigger t).peak →
      triggerPhysicalStatusMatches (v'.trigger t).presentedPeakState (v.trigger t).peakState t =
        true) := by
  have hold : ∀ {c}, c ∈ g.committed → c ∈ (g.commit o).committed := mem_append_left _
  have hshown : (v.trigger t).presentedPeak ≠ 0 → (v.trigger t).presentedPeak ≤ (v.trigger t).peak ∧
        ∃ c ∈ (g.commit o).committed, a < c.ordinal ∧ c.value t = (v.trigger t).presentedPeak :=
    fun hne => ⟨(h.shown hne).1, by
      obtain ⟨c, hc, hrest⟩ := (h.shown hne).2
      exact ⟨c, hold hc, hrest⟩⟩
  by_cases hfresh : ∃ e, o = some e ∧ v'.trigger t = commitTrigger (v.trigger t) e t
  · obtain ⟨e, rfl, htrigger⟩ := hfresh
    have hentry := h.entry e hs.committed_mem
    rw [htrigger]
    unfold commitTrigger
    split
    next hcase =>
      simp only [and_eq_true, beq_iff_eq, decide_eq_true_eq] at hcase
      obtain ⟨hlt, hle, hmatch⟩ := hentry hcase.1
      exact ⟨fun _ => ⟨hle, e, mem_append_right _ (by simp), hlt, rfl⟩, hmatch⟩
    · split
      next hcase =>
        simp only [and_eq_true, beq_iff_eq] at hcase
        obtain ⟨hlt, hle, hmatch⟩ := hentry hcase.1
        refine ⟨hshown, fun hpeak => ?_⟩
        have hstatus := h.status hpeak
        have hsame := matches_trans hstatus (matches_symm (hmatch (hcase.2.trans hpeak)))
        rw [copy_eq_of_matches hsame]
        exact hstatus
      · exact ⟨hshown, h.status⟩
  · have htrigger : v'.trigger = v.trigger := by
      cases hs <;> first
        | rfl
        | exact absurd ⟨_, rfl, rfl⟩ hfresh
    rw [htrigger]
    exact ⟨hshown, h.status⟩

theorem Linked.shift (h : Linked v g t a) (hs : Shift v v' o) : Linked v' (g.commit o) t a := by
  obtain ⟨hid, -, hpeak, hstate, -⟩ := hs.trigger_frame t
  obtain ⟨hshown, hstatus⟩ := h.presented hs
  refine ⟨fun y hy => ?_, ?_, ?_, ?_, ?_⟩
  · obtain ⟨x, hx, hxy⟩ := hs.old hy
    rw [Belongs, hid, hpeak, hstate, ← hxy.ordinal, ← hxy.value, ← hxy.epoch, ← hxy.state]
    exact h.entry x hx
  · rw [hpeak]
    exact hshown
  · rw [hpeak, hstate]
    exact hstatus
  · rw [hpeak, hstate]
    exact h.peak
  · rw [hpeak]
    exact h.positive

/-- Once the peak was presented, a commit does not present a higher value. -/
theorem Linked.commit_peak (h : Linked v g t a) (he : e ∈ v.entries)
    (hpeak : (v.trigger t).presentedPeak = (v.trigger t).peak ∨
      e.epoch t = (v.trigger t).id ∧ e.value t = (v.trigger t).peak) :
    (commitTrigger (v.trigger t) e t).presentedPeak = (v.trigger t).peak := by
  have hle : (v.trigger t).presentedPeak ≤ (v.trigger t).peak := by
    by_cases hne : (v.trigger t).presentedPeak = 0
    · rw [hne]
      exact UInt8.zero_le
    · exact (h.shown hne).1
  unfold commitTrigger
  split
  next hcase =>
    simp only [and_eq_true, beq_iff_eq, decide_eq_true_eq] at hcase
    rcases hpeak with hpeak | hpeak
    · have := (h.entry e he hcase.1).2.1
      rw [hpeak] at hcase
      exact absurd hcase.2 (UInt8.not_lt.2 this)
    · exact hpeak.2
  next hcase =>
    have hsame : (v.trigger t).presentedPeak = (v.trigger t).peak := by
      rcases hpeak with hpeak | ⟨hid, hvalue⟩
      · exact hpeak
      · simp only [hid, hvalue, beq_self_eq_true, Bool.true_and, decide_eq_true_eq] at hcase
        exact UInt8.le_antisymm hle (UInt8.not_lt.1 hcase)
    split <;> exact hsame

/-- A secured peak stays secured until it is committed, and then it is. -/
theorem Secure.shift (h : Secure v t) (hl : Linked v g t a) (hs : Shift v v' o) : Secure v' t := by
  have hs' := hs
  obtain ⟨hid, -, hpeak, -, -⟩ := hs'.trigger_frame t
  unfold Secure
  rw [hid, hpeak]
  rcases h with h | ⟨x, hx, hepoch, hvalue⟩
  · left
    cases hs <;> first
      | exact hl.commit_peak hs'.committed_mem (.inl h)
      | exact h
  · have hempty : v.line ≠ [] := ne_nil_of_mem hx
    cases hs with
    | takeLatest hline | repeatLoose _ hline | repeatOrdered _ hline | returnLoose hline =>
      exact absurd hline hempty
    | @commitHead e rest hline hnone =>
      rw [hline] at hx
      rcases mem_cons.1 hx with rfl | hx
      · exact .inl (hl.commit_peak hs'.committed_mem (.inr ⟨hepoch, hvalue⟩))
      · exact .inr ⟨x, hx, hepoch, hvalue⟩
    | @deferHead e rest hline =>
      rw [hline] at hx
      rcases mem_cons.1 hx with rfl | hx
      · exact .inr ⟨x.inOrder, mem_cons_self, hepoch, hvalue⟩
      · exact .inr ⟨x, mem_cons_of_mem _ hx, hepoch, hvalue⟩
    | _ => exact .inr ⟨x, hx, hepoch, hvalue⟩

end Shifts

/-! ## Keeping a peak -/

/-- What is known of the epoch of a pressed trigger when the entry `e` of a new state has
been made: the press began before the last transition, or with this state; and the
peak is a received state, or the new one. -/
structure Arriving (trigger : Side → InputTriggerEpoch) (g : Log) (e : ScheduledInputState)
    (t : Side) (a : Nat) : Prop where
  began : (∃ i ∈ g.transitions, a < i) ∨ (a = g.received.length ∧
    ∀ (i : Nat) (st : InputState), (∀ j ∈ g.transitions, j ≤ i + 1) →
      g.received[i]? = some st → triggerValue st t = 0)
  saved : (trigger t).peakReceiveOrdinal ≤ g.received.length → a < (trigger t).peakReceiveOrdinal ∧
      g.received[(trigger t).peakReceiveOrdinal - 1]? = some (trigger t).peakState
  fresh : g.received.length < (trigger t).peakReceiveOrdinal →
    entryRepresentsTruthfulPeak e (trigger t) t
  values : ∀ (i : Nat) (st : InputState), a ≤ i → g.received[i]? = some st →
    triggerValue st t ≤ (trigger t).peak ∧ (triggerValue st t = (trigger t).peak →
      triggerPhysicalStatusMatches st (trigger t).peakState t)
  zero : ∀ b, (g.values t)[b]? = some 0 → b ≤ a
  positive : (trigger t).id ≠ 0

/-- The invariant while the peaks are kept; a pressed trigger's press began at `start`. -/
structure Keeping (v : View) (g : Log) (e : ScheduledInputState) (start : Side → Nat) : Prop where
  order : Order v g
  ids : ∀ t, ∀ x ∈ v.entries, x.epoch t ≤ (v.trigger t).id
  linked : ∀ t, (v.trigger t).active → Linked v g t (start t)
  arriving : ∀ t, (v.trigger t).active → Arriving v.trigger g e t (start t)
  secure : ∀ t, (v.trigger t).active →
    (∃ i ∈ g.transitions, (v.trigger t).peakReceiveOrdinal ≤ i) → Secure v t
  past : ∀ t, Past v g t

section Keep

variable {g : Log} {t t' : Side} {a b : Nat}

theorem Linked.grow (h : Linked v g t a) (htrigger : v'.trigger t = v.trigger t)
    (hnew : ∀ y ∈ v'.entries, (∃ x ∈ v.entries, SameEntry x y) ∨
      (y.epoch t = (v.trigger t).id → Belongs (v.trigger t) t a y)) : Linked v' g t a := by
  refine ⟨fun y hy => ?_, ?_, ?_, ?_, ?_⟩ <;> rw [htrigger]
  · rcases hnew y hy with ⟨x, hx, hxy⟩ | hy
    · rw [Belongs, ← hxy.ordinal, ← hxy.value, ← hxy.epoch, ← hxy.state]
      exact h.entry x hx
    · exact hy
  · exact h.shown
  · exact h.status
  · exact h.peak
  · exact h.positive

/-- An entry which represents the peak has exactly its value. -/
theorem Linked.represents (h : Linked v g t a) (hx : x ∈ v.entries) :
    entryRepresentsTruthfulPeak x (v.trigger t) t = true ↔
      x.epoch t = (v.trigger t).id ∧ x.value t = (v.trigger t).peak := by
  simp only [entryRepresentsTruthfulPeak, entryRepresentsPeak, and_eq_true, beq_iff_eq,
    decide_eq_true_eq]
  constructor
  · rintro ⟨⟨hepoch, hle⟩, -⟩
    exact ⟨hepoch, UInt8.le_antisymm (h.entry x hx hepoch).2.1 hle⟩
  · rintro ⟨hepoch, hvalue⟩
    exact ⟨⟨hepoch, hvalue ▸ UInt8.le_refl _⟩, (h.entry x hx hepoch).2.2 hvalue⟩

theorem Waits.append (h : Waits v t a b peak) (x : ScheduledInputState) :
    Waits { v with line := v.line ++ [x], latest := none } t a b peak := by
  obtain ⟨hloose, k, y, hy, hay, hyb, hvalue, hahead⟩ := h
  have hk := (List.getElem?_eq_some_iff.1 hy).1
  refine ⟨hloose, k, y, by simp [getElem?_append_left hk, hy], hay, hyb, hvalue, ?_⟩
  intro j z hj hz
  exact hahead j z hj (by simpa [getElem?_append_left (Nat.lt_trans hj hk)] using hz)

theorem Waits.recover (h : Waits v t a b peak) (hx : v.loose = some x) :
    Waits { v with line := x :: v.line, loose := none } t a b peak := by
  obtain ⟨hloose, k, y, hy, hay, hyb, hvalue, hahead⟩ := h
  refine ⟨by simp, k + 1, y, by simpa using hy, hay, hyb, hvalue, ?_⟩
  intro j z hj hz
  cases j with
  | zero =>
    obtain rfl : x = z := by simpa using hz
    exact hloose x hx
  | succ j => exact hahead j z (by omega) (by simpa using hz)

/-- Raising an entry which was received after the press does not matter to it. -/
theorem Waits.raise (h : Waits v t a b peak) {y : ScheduledInputState} (hx : v.line[i]? = some x)
    (hordinal : y.ordinal = x.ordinal) (hvalue : y.value t = x.value t ∨ b < x.ordinal) :
    Waits { v with line := v.line.set i y } t a b peak := by
  obtain ⟨hloose, k, z, hz, haz, hzb, hpeak, hahead⟩ := h
  have hget : ∀ (j : Nat) (w : ScheduledInputState), (v.line.set i y)[j]? = some w →
      (j = i ∧ w = y) ∨ v.line[j]? = some w := by
    grind
  have hlater : ∀ (j : Nat) (w : ScheduledInputState), j < k →
      (v.line.set i y)[j]? = some w → w.ordinal ≤ b := by
    intro j w hj hw
    rcases hget j w hw with ⟨rfl, rfl⟩ | hw
    · exact hordinal ▸ hahead j x hj hx
    · exact hahead j w hj hw
  by_cases hki : i = k
  · subst hki
    obtain rfl := Option.mem_unique hx hz
    rcases hvalue with hvalue | hlt
    · refine ⟨hloose, i, y, ?_, hordinal ▸ haz, hordinal ▸ hzb, hvalue.trans hpeak, hlater⟩
      simp [(List.getElem?_eq_some_iff.1 hx).1]
    · omega
  · exact ⟨hloose, k, z, by simp [hki, hz], haz, hzb, hpeak, hlater⟩

theorem Secure.mono (h : Secure v t) (htrigger : v'.trigger t = v.trigger t)
    (hline : ∀ x ∈ v.line, x.epoch t = (v.trigger t).id → x.value t = (v.trigger t).peak →
      ∃ y ∈ v'.line, y.epoch t = x.epoch t ∧ y.value t = x.value t) : Secure v' t := by
  unfold Secure
  rw [htrigger]
  rcases h with h | ⟨x, hx, hepoch, hvalue⟩
  · exact .inl h
  obtain ⟨y, hy, hye, hyv⟩ := hline x hx hepoch hvalue
  exact .inr ⟨y, hy, hye.trans hepoch, hyv.trans hvalue⟩

theorem Secure.grow (h : Secure v t) (htrigger : v'.trigger t = v.trigger t)
    (hline : ∀ x ∈ v.line, x ∈ v'.line) : Secure v' t :=
  h.mono htrigger fun x hx _ _ => ⟨x, hline x hx, rfl, rfl⟩

/-- The value of a raised press. -/
theorem value_anchored (x : ScheduledInputState) (epoch : InputTriggerEpoch) (t t' : Side) :
    (anchored x epoch t).value t' = if t' = t then epoch.peak else x.value t' := by
  unfold ScheduledInputState.value anchored
  cases t <;> rw [setTriggerPeak, triggerValue_copy] <;> cases t' <;> rfl

theorem matches_anchored (x : ScheduledInputState) (epoch : InputTriggerEpoch) (t : Side)
    (hlayout : physicalMetadataLayoutsMatch x.state epoch.peakState) :
    triggerPhysicalStatusMatches (anchored x epoch t).state epoch.peakState t ∧
      ∀ st, triggerPhysicalStatusMatches (anchored x epoch t).state st t.other =
        triggerPhysicalStatusMatches x.state st t.other := by
  cases t <;> exact ⟨copy_matches hlayout, fun st => copy_matches_other _ _ st _⟩

theorem Secure.raise (h : Secure v t') (hx : v.line[i]? = some x) :
    Secure { v with line := v.line.set i (anchored x (v.trigger t) t) } t' := by
  refine h.mono rfl fun y hy _ hpeak => ?_
  obtain ⟨j, hj⟩ := mem_iff_getElem?.1 hy
  by_cases hij : i = j
  · subst hij
    obtain rfl := Option.mem_unique hx hj
    refine ⟨_, List.mem_set (List.getElem?_eq_some_iff.1 hx).1 _, rfl, ?_⟩
    rw [value_anchored]
    split
    · next htt => rw [hpeak, htt]
    · rfl
  · exact ⟨y, mem_iff_getElem?.2 ⟨j, by simp [hij, hj]⟩, rfl, rfl⟩

variable (h : Keeping v g e start)

include h

theorem Keeping.join (horder : Order { v with line := v.line ++ [x], latest := none } g)
    (hids : ∀ t, x.epoch t ≤ (v.trigger t).id)
    (hlinked : ∀ t, (v.trigger t).active → x.epoch t = (v.trigger t).id →
      Belongs (v.trigger t) t (start t) x) :
    Keeping { v with line := v.line ++ [x], latest := none } g e start := by
  exact { h with
    order := horder
    ids := fun t => forall_join (h.ids t) (hids t)
    linked := fun t ht => (h.linked t ht).grow rfl
      (forall_join (fun y hy => .inl ⟨y, hy, rfl, rfl, rfl, id⟩) (.inr (hlinked t ht)))
    secure := fun t ht hlast => (h.secure t ht hlast).grow rfl fun _ => mem_append_left _
    past := fun t a b peak hp hr => (h.past t a b peak hp hr).imp_right fun hw => hw.append x }

/-- The claimed continuous state becomes ordered work. -/
theorem Keeping.recover (hx : v.loose = some x) :
    Keeping { v with line := x :: v.line, loose := none } g e start := by
  exact { h with
    order := h.order.recover hx
    ids := fun t => forall_recover (h.ids t) hx
    linked := fun t ht => (h.linked t ht).grow rfl
      (forall_recover (fun y hy => .inl ⟨y, hy, rfl, rfl, rfl, id⟩) hx)
    secure := fun t ht hlast => (h.secure t ht hlast).grow rfl fun _ => mem_cons_of_mem _
    past := fun t a b peak hp hr =>
      (h.past t a b peak hp hr).imp_right fun hw => hw.recover hx }

theorem Keeping.raise (hactive : (v.trigger t).active)
    (hx : v.line[i]? = some x) (hepoch : x.epoch t = (v.trigger t).id)
    (hlayout : physicalMetadataLayoutsMatch x.state (v.trigger t).peakState) :
    Keeping { v with line := v.line.set i (anchored x (v.trigger t) t) } g e start := by
  have hxmem : x ∈ v.entries := mem_entries.2 (.inl (mem_of_getElem? hx))
  refine { h with
    order := h.order.replace hx rfl rfl rfl
    ids := fun t' => forall_set (h.ids t') (h.ids t' x hxmem)
    secure := fun t' ht' hlast => (h.secure t' ht' hlast).raise hx
    linked := ?_, past := ?_ }
  · intro t' ht'
    refine (h.linked t' ht').grow rfl
      (forall_set (fun y hy => .inl ⟨y, hy, rfl, rfl, rfl, id⟩) (.inr fun hid => ?_))
    obtain ⟨hlt, hle, hmatch⟩ := (h.linked t' ht').entry x hxmem hid
    obtain ⟨hself, hother⟩ := matches_anchored x (v.trigger t) t hlayout
    rw [Belongs, value_anchored]
    by_cases htt : t' = t
    · subst htt
      rw [if_pos rfl]
      exact ⟨hlt, UInt8.le_refl _, fun _ => hself⟩
    · obtain rfl := Side.eq_other htt
      rw [if_neg htt, hother]
      exact ⟨hlt, hle, hmatch⟩
  · intro t' a b peak hp hr
    refine (h.past t' a b peak hp hr).imp_right fun hw => hw.raise hx rfl ?_
    rw [value_anchored]
    by_cases htt : t' = t
    · subst htt
      have hzero := (h.arriving t' hactive).zero b hr
      have hstart := ((h.linked t' hactive).entry x hxmem hepoch).1
      exact .inr (by omega)
    · exact .inl (if_neg htt)

/-- The saved peak is queued only if nothing stands for it yet; so no transition was
received since, and it belongs to the presses which are going on. -/
theorem Keeping.save (generation : UInt64) (hactive : (v.trigger t).active)
    (hshown : (v.trigger t).peak ≤ (v.trigger t).presentedPeak →
      triggerPhysicalStatusMatches (v.trigger t).presentedPeakState (v.trigger t).peakState t =
        false)
    (hupcoming : entryRepresentsTruthfulPeak e (v.trigger t) t = false)
    (hline : ∀ x ∈ v.line, entryRepresentsTruthfulPeak x (v.trigger t) t = false) :
    Keeping { v with line := v.line ++ [(savedPeak v.trigger generation t).inOrder],
                     latest := none } g e start := by
  have hlinked := h.linked t hactive
  have harriving := h.arriving t hactive
  have hlast : ∀ i ∈ g.transitions, i < (v.trigger t).peakReceiveOrdinal := by
    intro i hi
    refine Nat.lt_of_not_le fun hle => ?_
    rcases h.secure t hactive ⟨i, hi, hle⟩ with hp | ⟨x, hx, hx'⟩
    · have hfalse := hshown (hp ▸ UInt8.le_refl _)
      simp [hlinked.status hp] at hfalse
    · have hfalse := hline x hx
      rw [(hlinked.represents (mem_entries.2 (.inl hx))).2 hx'] at hfalse
      cases hfalse
  have hold : (v.trigger t).peakReceiveOrdinal ≤ g.received.length := by
    refine Nat.le_of_not_lt fun hlt => ?_
    simp [harriving.fresh hlt] at hupcoming
  obtain ⟨hstart, hstate⟩ := harriving.saved hold
  refine h.join (h.order.join hold rfl (fun hT => Nat.lt_irrefl _ (hlast _ hT))
    fun i hi => Nat.le_of_lt (hlast i hi)) ?_ ?_
  · intro t'
    change (if t' = t then _ else if _ then _ else 0) ≤ _
    split
    · next htt => rw [htt]
    next htt =>
      obtain rfl := Side.eq_other htt
      split
      · exact Nat.le_refl _
      · exact Nat.zero_le _
  · intro t' ht' hid
    change (if t' = t then _ else if _ then _ else 0) = _ at hid
    by_cases htt : t' = t
    · subst htt
      exact ⟨hstart, hlinked.peak ▸ UInt8.le_refl _, fun _ => matches_refl _ _⟩
    · obtain rfl := Side.eq_other htt
      have harriving' := h.arriving t.other ht'
      rw [if_neg htt] at hid
      have hvalue : triggerValue (v.trigger t).peakState t.other ≠ 0 := by
        intro h0
        simp only [h0, bne_self_eq_false, Bool.and_false, Bool.false_eq_true, if_false] at hid
        exact harriving'.positive hid.symm
      have hbegan : start t.other < (v.trigger t).peakReceiveOrdinal := by
        rcases harriving'.began with ⟨i, hi, hai⟩ | ⟨-, hzero⟩
        · exact Nat.lt_trans hai (hlast i hi)
        · refine absurd (hzero _ _ (fun j hj => ?_) hstate) hvalue
          have := hlast j hj
          omega
      exact ⟨hbegan, harriving'.values _ _ (by omega) hstate⟩

/-- Keeping a peak keeps the invariant, and secures the peak unless the upcoming
transition carries it. -/
theorem Keeping.kept (hk : Kept v t e v') :
    Keeping v' g e start ∧ v'.trigger = v.trigger ∧ (∀ t', Secure v t' → Secure v' t') ∧
      ((v.trigger t).active →
        Secure v' t ∨ entryRepresentsTruthfulPeak e (v.trigger t) t) := by
  cases hk with
  | inactive hoff =>
    refine ⟨h, rfl, fun _ => id, fun hactive => ?_⟩
    rcases hoff with hoff | hoff
    · simp [hactive] at hoff
    · exact absurd hoff (h.linked t hactive).positive
  | shown hpeak =>
    refine ⟨h, rfl, fun _ => id, fun hactive => .inl (.inl ?_)⟩
    have hlinked := h.linked t hactive
    have hne : (v.trigger t).presentedPeak ≠ 0 := fun h0 =>
      hlinked.positive (UInt8.le_antisymm (h0 ▸ hpeak) UInt8.zero_le)
    exact UInt8.le_antisymm (hlinked.shown hne).1 hpeak
  | upcoming hrep => exact ⟨h, rfl, fun _ => id, fun _ => .inr hrep⟩
  | waiting hx hrep =>
    refine ⟨h, rfl, fun _ => id, fun hactive => .inl (.inr ⟨_, hx, ?_⟩)⟩
    exact ((h.linked t hactive).represents (mem_entries.2 (.inl hx))).1 hrep
  | recovered hx hrep =>
    refine ⟨h.recover hx, rfl, fun t' hs => hs.grow rfl fun _ => mem_cons_of_mem _, fun hactive =>
      .inl (.inr ⟨_, mem_cons_self, ?_⟩)⟩
    exact ((h.linked t hactive).represents (mem_entries.2 (.inr (.inl hx)))).1 hrep
  | @raised i x hactive hx hepoch hlayout =>
    refine ⟨h.raise hactive hx hepoch hlayout, rfl, fun t' hs => hs.raise hx, fun _ =>
      .inl (.inr ⟨_, List.mem_set (List.getElem?_eq_some_iff.1 hx).1 _, hepoch, ?_⟩)⟩
    rw [value_anchored, if_pos rfl]
  | @promoted x hactive hx hrep =>
    have hlinked := h.linked t hactive
    have hmem : x ∈ v.entries := mem_entries.2 (.inr (.inr (.inl hx)))
    simp only [entryRepresentsPeak, and_eq_true, beq_iff_eq, decide_eq_true_eq] at hrep
    obtain ⟨-, hle, hmatch⟩ := hlinked.entry x hmem hrep.1
    have hvalue := UInt8.le_antisymm hle hrep.2
    obtain ⟨hloose, hlast⟩ := h.order.latest x hx
    -- the state in the slot already has the status of the peak
    rw [copy_eq_of_matches (hmatch hvalue)]
    refine ⟨h.join (x := x.inOrder) (h.order.join (h.order.bound x hmem) rfl
      (h.order.continuous x hmem hloose) hlast) (fun t' => h.ids t' x hmem)
      (fun t' ht' => (h.linked t' ht').entry x hmem), rfl, fun t' hs => hs.grow rfl
      fun _ => mem_append_left _, fun _ => .inl (.inr
      ⟨_, mem_append_right _ mem_cons_self, hrep.1, hvalue⟩)⟩
  | saved generation hactive hshown hupcoming hline =>
    refine ⟨h.save generation hactive hshown hupcoming hline, rfl, fun t' hs =>
      hs.grow rfl fun _ => mem_append_left _, fun _ =>
      .inl (.inr ⟨_, mem_append_right _ mem_cons_self, ?_, ?_⟩)⟩
    · exact if_pos rfl
    · exact (h.linked t hactive).peak

end Keep

/-! ## The invariant -/

/-- What is known of a trigger which is pressed. -/
structure Current (v : View) (g : Log) (t : Side) (a : Nat) : Prop where
  linked : Linked v g t a
  pressed : Pressed (g.values t) a g.received.length (v.trigger t).peak
  began : ∃ i ∈ g.transitions, a < i
  saved : a < (v.trigger t).peakReceiveOrdinal ∧
    g.received[(v.trigger t).peakReceiveOrdinal - 1]? = some (v.trigger t).peakState
  status : ∀ (i : Nat) (st : InputState), a ≤ i → g.received[i]? = some st →
    triggerValue st t = (v.trigger t).peak →
    triggerPhysicalStatusMatches st (v.trigger t).peakState t
  positive : (v.trigger t).id ≠ 0
  secure : (∃ i ∈ g.transitions, (v.trigger t).peakReceiveOrdinal ≤ i) → Secure v t

/-- The invariant between two calls; `previous` is the state received last. -/
structure Inv (v : View) (g : Log) (previous : Option InputState) : Prop where
  order : Order v g
  last : previous = g.received.getLast?
  flat : ∀ (t : Side) (i : Nat) (st : InputState), (∀ j ∈ g.transitions, j ≤ i + 1) →
    g.received[i]? = some st →
    previous.any (triggerValue · t != 0) = (triggerValue st t != 0)
  live : ∀ t, (v.trigger t).active = previous.any (triggerValue · t != 0)
  ids : ∀ t, ∀ x ∈ v.entries, x.epoch t ≤ (v.trigger t).id
  current : ∀ t, (v.trigger t).active → ∃ a, Current v g t a
  past : ∀ t, Past v g t

section Steps

variable {g : Log} {previous : Option InputState} {t : Side} {a : Nat}
  {o : Option ScheduledInputState}

theorem Current.shift (h : Current v g t a) (hs : Shift v v' o) : Current v' (g.commit o) t a := by
  obtain ⟨hid, -, hpeak, hstate, hordinal⟩ := hs.trigger_frame t
  have hlinked := h.linked.shift hs
  refine ⟨hlinked, ?_, h.began, ?_, ?_, ?_, fun hlast => ?_⟩
  · rw [hpeak]
    exact h.pressed
  · rw [hordinal, hstate]
    exact h.saved
  · rw [hpeak, hstate]
    exact h.status
  · rw [hid]
    exact h.positive
  · rw [hordinal] at hlast
    exact (h.secure hlast).shift h.linked hs

theorem Inv.shift (h : Inv v g previous) (hs : Shift v v' o) : Inv v' (g.commit o) previous where
  order := h.order.shift hs
  last := h.last
  flat := h.flat
  live := fun t => (hs.trigger_frame t).2.1.trans (h.live t)
  ids := by
    intro t y hy
    obtain ⟨x, hx, hxy⟩ := hs.old hy
    rw [(hs.trigger_frame t).1, ← hxy.epoch]
    exact h.ids t x hx
  current := by
    intro t ht
    obtain ⟨a, ha⟩ := h.current t ((hs.trigger_frame t).2.1 ▸ ht)
    exact ⟨a, ha.shift hs⟩
  past := fun t => (h.past t).shift hs

theorem inv_new (edge : Bool) (now : Time) :
    Inv (newScheduler edge now).view ⟨[], [], []⟩ none where
  order :=
    { bound := by simp [mem_entries, view, newScheduler, line, loose,
        ring, RingBuffer.window]
      committed := by simp
      range := by simp
      increasing := List.Pairwise.nil
      linear := by simp [Log.own]
      sorted := by simp [view, newScheduler, line, ring, RingBuffer.window]
      after := by simp
      history := List.Pairwise.nil
      continuous := by simp
      loose := by simp [view, newScheduler, loose]
      latest := by simp [view, newScheduler] }
  last := rfl
  flat := by simp
  live := fun _ => rfl
  ids := by simp [mem_entries, view, newScheduler, line, loose, ring, RingBuffer.window]
  current := by simp [view, newScheduler]
  past := by
    intro t a b peak hp hr
    simp [Log.values] at hr

/-- A state which repeats the peak value of a pressed trigger repeats its physical status. -/
def Steady (trigger : Side → InputTriggerEpoch) (next : InputState) : Prop :=
  ∀ t, (trigger t).active → triggerValue next t = (trigger t).peak →
    triggerPhysicalStatusMatches (trigger t).peakState next t

variable {trigger : Side → InputTriggerEpoch}

/-- What a steady state does to an epoch: a press begins a new one, a higher value is the
new peak, and any other state leaves it alone. -/
theorem receiveTrigger_cases {next : InputState} {now : Time} {n : Nat}
    (hsteady : Steady trigger next) (t : Side) :
    (triggerPress previous next t ∧ receiveTrigger (trigger t) previous next now n t =
        beginTriggerEpoch (trigger t) (triggerValue next t) next now n) ∨
    (triggerPress previous next t = false ∧ (trigger t).active ∧
      (trigger t).peak < triggerValue next t ∧
      receiveTrigger (trigger t) previous next now n t =
        { trigger t with
          peak := triggerValue next t, peakState := next, peakReceivedAt := now,
          peakReceiveOrdinal := n }) ∨
    (triggerPress previous next t = false ∧
      ((trigger t).active → triggerValue next t ≤ (trigger t).peak) ∧
      receiveTrigger (trigger t) previous next now n t = trigger t) := by
  unfold receiveTrigger
  cases hpress : triggerPress previous next t with
  | true => exact .inl ⟨rfl, by simp⟩
  | false =>
    right
    cases hactive : (trigger t).active with
    | false => exact .inr ⟨rfl, by simp, by simp⟩
    | true =>
      simp only [false_eq_true, if_false, if_true, observeTriggerEpoch]
      by_cases hlt : (trigger t).peak < triggerValue next t
      · exact .inl ⟨trivial, trivial, hlt, by simp [hlt]⟩
      refine .inr ⟨trivial, fun _ => UInt8.not_lt.1 hlt, ?_⟩
      rw [if_neg hlt]
      split
      next heq =>
        simp only [and_eq_true, beq_iff_eq] at heq
        have hmatch := hsteady t hactive heq.1
        have hlayout : physicalMetadataLayoutsMatch (trigger t).peakState next := by
          simp only [triggerPhysicalStatusMatches, and_eq_true] at hmatch
          exact hmatch.1
        rw [if_pos hlayout, copy_eq_of_matches hmatch]
      · rfl

/-- The entry made of the state `next`, which is received after the states of `g`. -/
structure Made (e : ScheduledInputState) (trigger : Side → InputTriggerEpoch) (g : Log)
    (previous : Option InputState) (next : InputState) : Prop where
  state : e.state = next
  ordinal : e.ordinal = g.received.length + 1
  ordered : e.ordered = false
  sampled : e.sampleQueueAge
  epoch : ∀ t, e.epoch t =
    activeEpochID (trigger t) (triggerValue next t) (triggerRelease previous next t)

/-- The epoch of a trigger which was pressed before or is pressed by the state `next`. -/
structure Received (trigger : Side → InputTriggerEpoch) (g : Log) (e : ScheduledInputState)
    (next : InputState) (t : Side) (a : Nat) : Prop where
  arriving : Arriving trigger g e t a
  released : triggerValue next t = 0 → Pressed (g.values t) a g.received.length (trigger t).peak
  goesOn : triggerValue next t ≠ 0 →
    Pressed (g.values t ++ [triggerValue next t]) a (g.received.length + 1) (trigger t).peak
  fresh : g.received.length < (trigger t).peakReceiveOrdinal →
    (trigger t).peakReceiveOrdinal = g.received.length + 1 ∧ (trigger t).peakState = next
  own : triggerValue next t ≤ (trigger t).peak ∧ (triggerValue next t = (trigger t).peak →
    triggerPhysicalStatusMatches next (trigger t).peakState t)

variable {next : InputState} {now : Time}

theorem length_values (g : Log) (t : Side) : (g.values t).length = g.received.length := by
  simp [Log.values]

attribute [local simp] beginTriggerEpoch matches_refl

/-- A press begins with this state. -/
theorem Inv.press (h : Inv v g previous) (hmade : Made e trigger g previous next)
    (hpress : triggerPress previous next t) (htrigger : trigger t =
      beginTriggerEpoch (v.trigger t) (triggerValue next t) next now (g.received.length + 1)) :
    Linked { v with trigger := trigger } g t g.received.length ∧
      Received trigger g e next t g.received.length := by
  simp only [triggerPress, and_eq_true, bne_iff_ne] at hpress
  obtain ⟨hzero, hne⟩ := hpress
  have hany : previous.any (triggerValue · t != 0) = false := by
    cases previous <;> simp_all
  have hlast : (g.values t).getLast?.all (· == 0) := by
    rw [Log.values, getLast?_map, ← h.last]
    cases previous <;> simp_all
  have hbegin := Pressed.begin hne hlast
  rw [length_values] at hbegin
  constructor
  · refine ⟨fun x hx hid => ?_, ?_, ?_, ?_, ?_⟩ <;> simp only [htrigger, beginTriggerEpoch] at *
    · have := h.ids t x hx
      omega
    · exact fun h0 => absurd rfl h0
    · exact fun h0 => absurd h0.symm hne
    · exact hne
  · refine ⟨⟨.inr ⟨rfl, fun i st hi hst => ?_⟩, ?_, fun _ => ?_, ?_, ?_, ?_⟩, ?_, ?_, ?_, ?_⟩
    · have hflat := h.flat t i st hi hst
      rw [hany] at hflat
      simpa using hflat.symm
    · intro hle
      simp only [htrigger, beginTriggerEpoch] at hle
      omega
    · simp [entryRepresentsTruthfulPeak, entryRepresentsPeak, hmade.epoch, hmade.state, htrigger,
        activeEpochID, ScheduledInputState.value, hne]
    · intro i st hi hst
      have := (List.getElem?_eq_some_iff.1 hst).1
      omega
    · intro b hb
      have := (List.getElem?_eq_some_iff.1 hb).1
      rw [length_values] at this
      omega
    · simp [htrigger]
    · exact fun h0 => absurd h0 hne
    · intro _
      simpa [htrigger] using hbegin
    · intro _
      simp [htrigger]
    · simp [htrigger]

theorem Current.zero (h : Current v g t a) {b : Nat} (hb : (g.values t)[b]? = some 0) : b ≤ a := by
  have hlt := (List.getElem?_eq_some_iff.1 hb).1
  rw [length_values] at hlt
  refine Nat.le_of_not_lt fun hab => ?_
  exact (h.pressed.nonzero b 0 (Nat.le_of_lt hab) hlt hb).1 rfl

theorem Current.value_le (h : Current v g t a) {st : InputState} (hi : a ≤ i)
    (hst : g.received[i]? = some st) : triggerValue st t ≤ (v.trigger t).peak :=
  (h.pressed.nonzero i _ hi (List.getElem?_eq_some_iff.1 hst).1 (by simp [Log.values, hst])).2

/-- A press goes on with a higher value, which is the new peak. -/
theorem Current.rise (h : Current v g t a) (hmade : Made e trigger g previous next)
    (hactive : (v.trigger t).active) (hlt : (v.trigger t).peak < triggerValue next t)
    (htrigger : trigger t = { v.trigger t with
      peak := triggerValue next t, peakState := next, peakReceivedAt := now,
      peakReceiveOrdinal := g.received.length + 1 }) :
    Linked { v with trigger := trigger } g t a ∧ Received trigger g e next t a := by
  have hne : triggerValue next t ≠ 0 := by
    intro h0
    rw [h0] at hlt
    exact absurd hlt (UInt8.not_lt.2 UInt8.zero_le)
  have hless : ∀ {w : UInt8}, w ≤ (v.trigger t).peak →
      w ≤ triggerValue next t ∧ w ≠ triggerValue next t := by
    intro w hw
    have := UInt8.lt_of_le_of_lt hw hlt
    exact ⟨UInt8.le_of_lt this, UInt8.ne_of_lt this⟩
  constructor
  · refine ⟨fun x hx hid => ?_, fun hp => ?_, fun hp => ?_, ?_, ?_⟩ <;>
      simp only [htrigger] at *
    · obtain ⟨hax, hle, -⟩ := h.linked.entry x hx hid
      exact ⟨hax, (hless hle).1, fun heq => absurd heq (hless hle).2⟩
    · exact ⟨(hless (h.linked.shown hp).1).1, (h.linked.shown hp).2⟩
    · have hp0 : (v.trigger t).presentedPeak ≠ 0 := hp ▸ hne
      exact absurd hp (hless (h.linked.shown hp0).1).2
    · exact hne
  · refine ⟨⟨.inl h.began, ?_, fun _ => ?_, ?_, fun b hb => h.zero hb, ?_⟩, ?_, ?_, ?_, ?_⟩
    · intro hle
      simp only [htrigger] at hle
      omega
    · simp [entryRepresentsTruthfulPeak, entryRepresentsPeak, hmade.epoch, hmade.state, htrigger,
        hactive, activeEpochID, ScheduledInputState.value, hne]
    · intro i st hi hst
      simp only [htrigger]
      have hle := h.value_le hi hst
      exact ⟨(hless hle).1, fun heq => absurd heq (hless hle).2⟩
    · simpa [htrigger] using h.positive
    · exact fun h0 => absurd h0 hne
    · intro _
      have hpressed := h.pressed
      rw [← length_values g t] at hpressed ⊢
      have hsnoc := hpressed.snoc hne
      rw [if_pos hlt] at hsnoc
      simpa [htrigger] using hsnoc
    · simp [htrigger]
    · simp [htrigger]

/-- A press goes on, or ends, with a value which is not higher. -/
theorem Current.stay (h : Current v g t a) (hle : triggerValue next t ≤ (v.trigger t).peak)
    (hmatch : triggerValue next t = (v.trigger t).peak →
      triggerPhysicalStatusMatches (v.trigger t).peakState next t)
    (htrigger : trigger t = v.trigger t) :
    Linked { v with trigger := trigger } g t a ∧ Received trigger g e next t a := by
  have hold : (v.trigger t).peakReceiveOrdinal ≤ g.received.length := by
    have := (List.getElem?_eq_some_iff.1 h.saved.2).1
    omega
  constructor
  · have := h.linked
    exact ⟨fun x hx => by simpa only [htrigger] using this.entry x hx,
      by simpa only [htrigger] using this.shown, by simpa only [htrigger] using this.status,
      by simpa only [htrigger] using this.peak, by simpa only [htrigger] using this.positive⟩
  · refine ⟨⟨.inl h.began, ?_, ?_, ?_, fun b hb => h.zero hb, ?_⟩, ?_, ?_, ?_, ?_⟩ <;>
      simp only [htrigger]
    · exact fun _ => h.saved
    · exact fun hlt => absurd hold (Nat.not_le_of_lt hlt)
    · exact fun i st hi hst => ⟨h.value_le hi hst, h.status i st hi hst⟩
    · exact h.positive
    · exact fun _ => h.pressed
    · intro hne
      have hpressed := h.pressed
      rw [← length_values g t] at hpressed ⊢
      have hsnoc := hpressed.snoc hne
      rwa [if_neg (UInt8.not_lt.2 hle)] at hsnoc
    · exact fun hlt => absurd hold (Nat.not_le_of_lt hlt)
    · exact ⟨hle, fun heq => matches_symm (hmatch heq)⟩

/-- The epochs have seen the new state, and no entry was made of it yet. -/
def Receives (trigger : Side → InputTriggerEpoch) (g : Log) (e : ScheduledInputState)
    (previous : Option InputState) (next : InputState) (start : Side → Nat) : Prop := ∀ t,
  ((trigger t).active → Received trigger g e next t (start t)) ∧
    (trigger t).active = (previous.any (triggerValue · t != 0) || triggerValue next t != 0)

/-- The invariant after the epochs have seen a steady state, and before its entry is
scheduled. -/
theorem Inv.arrive (h : Inv v g previous) (hsteady : Steady v.trigger next)
    (htrigger : ∀ t, trigger t =
      receiveTrigger (v.trigger t) previous next now (g.received.length + 1) t)
    (hmade : Made e trigger g previous next) :
    ∃ start, Keeping { v with trigger := trigger } g e start ∧
      Receives trigger g e previous next start := by
  have hcases := fun t =>
    @receiveTrigger_cases previous v.trigger next now (g.received.length + 1) hsteady t
  have hone : ∀ t, ∃ a, (trigger t).active →
      Linked { v with trigger := trigger } g t a ∧ Received trigger g e next t a := by
    intro t
    rcases hcases t with ⟨hpress, heq⟩ | ⟨-, hactive, hlt, heq⟩ | ⟨-, hle, heq⟩
    · exact ⟨_, fun _ => h.press hmade hpress ((htrigger t).trans heq)⟩
    · obtain ⟨a, ha⟩ := h.current t hactive
      exact ⟨a, fun _ => ha.rise hmade hactive hlt ((htrigger t).trans heq)⟩
    · have hsame := (htrigger t).trans heq
      cases hactive : (v.trigger t).active with
      | false => exact ⟨0, by simp [hsame, hactive]⟩
      | true =>
        obtain ⟨a, ha⟩ := h.current t hactive
        exact ⟨a, fun _ => ha.stay (hle hactive) (hsteady t hactive) hsame⟩
  choose start hstart using hone
  refine ⟨start, ⟨{ h.order with }, ?_, fun t ht => (hstart t ht).1,
    fun t ht => (hstart t ht).2.arriving, ?_, fun t => h.past t⟩,
    fun t => ⟨fun ht => (hstart t ht).2, ?_⟩⟩
  · intro t x hx
    have hid := h.ids t x hx
    have : (v.trigger t).id ≤ (trigger t).id := by
      rw [htrigger]
      rcases hcases t with ⟨-, heq⟩ | ⟨-, -, -, heq⟩ | ⟨-, -, heq⟩ <;> rw [heq]
      exact Nat.le_succ _
    exact Nat.le_trans hid this
  · -- a peak older than some transition is an old one, and was secured before
    rintro t ht ⟨i, hi, hle⟩
    have hbound := h.order.range i hi
    change (trigger t).active = true at ht
    change (trigger t).peakReceiveOrdinal ≤ i at hle
    rcases hcases t with ⟨-, heq⟩ | ⟨-, -, -, heq⟩ | ⟨-, -, heq⟩
    · rw [htrigger, heq, beginTriggerEpoch] at hle
      exact absurd hle (by simp; omega)
    · rw [htrigger, heq] at hle
      exact absurd hle (by simp; omega)
    · have hsame := (htrigger t).trans heq
      rw [hsame] at ht hle
      obtain ⟨a, ha⟩ := h.current t ht
      have hsecure := ha.secure ⟨i, hi, hle⟩
      unfold Secure at hsecure ⊢
      simpa only [hsame] using hsecure
  · rw [htrigger]
    have hlive := h.live t
    rcases hcases t with ⟨hpress, heq⟩ | ⟨-, hactive, hlt, heq⟩ | ⟨hpress, -, heq⟩ <;> rw [heq]
    · simp only [triggerPress, and_eq_true, bne_iff_ne] at hpress
      simp [hpress.2]
    · rw [hactive] at hlive
      simp [hactive, ← hlive]
    · rw [hlive]
      by_cases hzero : triggerValue next t = 0
      · simp [hzero]
      · cases previous <;> simp_all [triggerPress]

theorem values_receive (g : Log) (next : InputState) (b : Bool) (t : Side) :
    (g.receive next b).values t = g.values t ++ [triggerValue next t] := by
  simp [Log.values]

/-- The press goes on: what is known of it once the entry is scheduled. -/
theorem Received.current {b : Bool} (h : Received trigger g e next t a)
    (hne : triggerValue next t ≠ 0) (htrigger : v.trigger t = trigger t)
    (hlinked : Linked v (g.receive next b) t a)
    (hbegan : ∃ i ∈ (g.receive next b).transitions, a < i)
    (hsecure : (∃ i ∈ (g.receive next b).transitions, (trigger t).peakReceiveOrdinal ≤ i) →
      Secure v t) :
    Current v (g.receive next b) t a := by
  have hlt : a ≤ g.received.length := Nat.le_of_lt_succ (h.goesOn hne).lt
  refine ⟨hlinked, ?_, hbegan, ?_, ?_, ?_, ?_⟩ <;> rw [htrigger]
  · rw [values_receive]
    simpa using h.goesOn hne
  · by_cases hold : (trigger t).peakReceiveOrdinal ≤ g.received.length
    · obtain ⟨hap, hget⟩ := h.arriving.saved hold
      refine ⟨hap, ?_⟩
      simp only [Log.receive]
      rw [List.getElem?_append_left (List.getElem?_eq_some_iff.1 hget).1]
      exact hget
    · obtain ⟨hp, hstate⟩ := h.fresh (Nat.lt_of_not_le hold)
      rw [hp, hstate]
      exact ⟨Nat.lt_succ_of_le hlt, by simp⟩
  · intro i st hi hst
    rcases Nat.lt_or_ge i g.received.length with hlt | hge
    · simp only [Log.receive, getElem?_append_left hlt] at hst
      exact (h.arriving.values i st hi hst).2
    · simp only [Log.receive, getElem?_append_right hge] at hst
      obtain rfl : next = st := by
        have := (List.getElem?_eq_some_iff.1 hst).1
        simpa [show i - g.received.length = 0 by simpa using this] using hst
      exact h.own.2
  · exact h.arriving.positive
  · exact hsecure

theorem Linked.receive {b : Bool} (h : Linked v g t a) (htrigger : v'.trigger t = v.trigger t)
    (hnew : ∀ y ∈ v'.entries, y ∈ v.entries ∨
      (y.epoch t = (v.trigger t).id → Belongs (v.trigger t) t a y)) :
    Linked v' (g.receive next b) t a := by
  have hgrow := h.grow htrigger fun y hy =>
    (hnew y hy).imp_left fun hy => ⟨y, hy, rfl, rfl, rfl, id⟩
  exact { hgrow with }

/-- The epochs at the end of the call: a released trigger is not active any more. -/
def settled (trigger : Side → InputTriggerEpoch) (previous : Option InputState)
    (next : InputState) : Side → InputTriggerEpoch := fun t =>
  if triggerRelease previous next t then { trigger t with active := false } else trigger t

theorem settled_active (hlive : (trigger t).active =
      (previous.any (triggerValue · t != 0) || triggerValue next t != 0)) :
    (settled trigger previous next t).active = (triggerValue next t != 0) := by
  unfold settled triggerRelease
  cases hany : previous.any (triggerValue · t != 0) <;>
    by_cases hzero : triggerValue next t = 0 <;> simp_all

theorem settled_of_ne (hne : triggerValue next t ≠ 0) :
    settled trigger previous next t = trigger t := by
  simp [settled, triggerRelease, hne]

theorem settled_id (trigger : Side → InputTriggerEpoch) (previous : Option InputState)
    (next : InputState) (t : Side) : (settled trigger previous next t).id = (trigger t).id := by
  unfold settled
  split <;> rfl

/-- The presses which were released before the new state, and the one it releases. -/
theorem Past.receive {b : Bool} (hold : ∀ a b peak, Pressed (g.values t) a b peak →
      (g.values t)[b]? = some 0 → Done g t a b peak ∨ Waits v' t a b peak)
    (hnow : triggerValue next t = 0 → ∀ a peak, Pressed (g.values t) a g.received.length peak →
      Done g t a g.received.length peak ∨ Waits v' t a g.received.length peak) :
    Past v' (g.receive next b) t := by
  intro a b peak hp hr
  rw [values_receive] at hp hr
  have hb := (List.getElem?_eq_some_iff.1 hr).1
  rw [length_append, length_values, length_singleton] at hb
  have hpold := (Pressed.append [triggerValue next t] (by rw [length_values]; omega)).1 hp
  rcases Nat.lt_or_ge b g.received.length with hlt | hge
  · rw [getElem?_append_left (by rwa [length_values])] at hr
    exact hold a b peak hpold hr
  · obtain rfl : b = g.received.length := by omega
    rw [← length_values g t] at hr
    exact hnow (by simpa using hr) a peak hpold

/-- A press which lasts up to the last received state is going on. -/
theorem Inv.pressed_live (h : Inv v g previous)
    (hp : Pressed (g.values t) a g.received.length peak) :
    previous.any (triggerValue · t != 0) := by
  have hlt := hp.lt
  rw [h.last]
  cases hlast : g.received.getLast? with
  | none =>
    rw [getLast?_eq_none_iff.1 hlast] at hlt
    simp at hlt
  | some st =>
    rw [getLast?_eq_getElem?] at hlast
    have := (hp.nonzero (g.received.length - 1) (triggerValue st t) (by omega) (by omega)
      (by simp [Log.values, hlast])).1
    simpa using this

/-- The entry made of the new state belongs to the presses which are going on. -/
theorem Received.entry (h : Received trigger g e next t a)
    (hmade : Made e trigger g previous next) : Belongs (trigger t) t a e := by
  have hlt : a ≤ g.received.length := by
    by_cases hzero : triggerValue next t = 0
    · exact Nat.le_of_lt (h.released hzero).lt
    · exact Nat.le_of_lt_succ (h.goesOn hzero).lt
  rw [Belongs, hmade.ordinal, ScheduledInputState.value, hmade.state]
  exact ⟨Nat.lt_succ_of_le hlt, h.own⟩

theorem Made.epoch_le (hmade : Made e trigger g previous next)
    (t : Side) : e.epoch t ≤ (trigger t).id := by
  rw [hmade.epoch, activeEpochID]
  split
  · exact Nat.le_refl _
  · exact Nat.zero_le _

/-- A transition is scheduled: the peaks are secured, and the entry is queued. -/
theorem Inv.transition (h : Inv v g previous) (hmade : Made e trigger g previous next)
    (hreceived : Receives trigger g e previous next start)
    (hk : Keeping v' g e start) (htrigger : v'.trigger = trigger)
    (hsecured : ∀ t, (trigger t).active →
      Secure v' t ∨ entryRepresentsTruthfulPeak e (trigger t) t) :
    Inv { v' with
          line := v'.line ++ [e.inOrder], latest := none,
          trigger := settled trigger previous next }
      (g.receive next true) (some next) := by
  obtain rfl := htrigger
  have horder := hk.order.enqueue hmade.ordinal hmade.sampled next
  have hlength : (g.receive next true).received.length = g.received.length + 1 := by
    simp
  have hactive : ∀ t, (settled v'.trigger previous next t).active = (triggerValue next t != 0) :=
    fun t => settled_active (hreceived t).2
  refine ⟨{ horder with }, by simp, ?_, fun t => by simp [hactive], ?_, ?_, ?_⟩
  · -- only the new state is as new as the new transition
    intro t i st hi hst
    have hlast := hi (g.received.length + 1) (by simp)
    have hlt := (List.getElem?_eq_some_iff.1 hst).1
    obtain rfl : i = g.received.length := by omega
    obtain rfl : next = st := by simpa using hst
    rfl
  · intro t
    rw [settled_id]
    exact forall_join (v := v') (hk.ids t) (hmade.epoch_le t)
  · intro t ht
    have hne : triggerValue next t ≠ 0 := by simpa [hactive] using ht
    have hon : (v'.trigger t).active := by simp [(hreceived t).2, hne]
    have hrec := (hreceived t).1 hon
    have htr : settled v'.trigger previous next t = v'.trigger t := settled_of_ne hne
    have hentry := hrec.entry hmade
    refine ⟨start t, hrec.current hne htr ((hk.linked t hon).receive htr
      (forall_join (v := v') (fun _ => .inl) (.inr fun _ => hentry)))
      ⟨_, mem_append_right _ (mem_singleton.2 rfl),
        Nat.lt_succ_of_le (Nat.le_of_lt_succ (hrec.goesOn hne).lt)⟩ fun _ => ?_⟩
    rcases hsecured t hon with hs | hrep
    · exact hs.grow htr fun _ => mem_append_left _
    simp only [entryRepresentsTruthfulPeak, entryRepresentsPeak, and_eq_true, beq_iff_eq,
      decide_eq_true_eq] at hrep
    refine .inr ⟨e.inOrder, mem_append_right _ mem_cons_self, ?_, ?_⟩ <;>
      simp only [htr]
    · exact hrep.1.1
    · exact UInt8.le_antisymm hentry.2.1 hrep.1.2
  · refine fun t => Past.receive (fun a b peak hp hr =>
      (hk.past t a b peak hp hr).imp_right fun hw => hw.append e.inOrder) fun hzero a peak hp => ?_
    have hon : (v'.trigger t).active := by
      simp [(hreceived t).2, h.pressed_live hp]
    obtain ⟨rfl, rfl⟩ := ((hreceived t).1 hon).released hzero |>.unique hp
    have hlinked := hk.linked t hon
    have hs : Secure v' t := by
      refine (hsecured t hon).resolve_right fun hrep => ?_
      simp only [entryRepresentsTruthfulPeak, entryRepresentsPeak, and_eq_true,
        decide_eq_true_eq, ScheduledInputState.value, hmade.state, hzero] at hrep
      exact hlinked.positive (UInt8.le_antisymm hrep.1.2 UInt8.zero_le)
    rcases hs with hshown | ⟨x, hx, hepoch, hvalue⟩
    · obtain ⟨-, c, hc, hac, hcv⟩ := hlinked.shown (hshown ▸ hlinked.positive)
      exact .inl ⟨c, hc, hac, hk.order.committed c hc, hcv.trans hshown⟩
    · obtain ⟨k, hkx⟩ := mem_iff_getElem?.1 hx
      have hmemx : x ∈ v'.entries := mem_entries.2 (.inl hx)
      have hwaits : Waits v' t (start t) g.received.length (v'.trigger t).peak :=
        ⟨fun y hy => hk.order.bound y (mem_entries.2 (.inr (.inl hy))), k, x, hkx,
          (hlinked.entry x hmemx hepoch).1, hk.order.bound x hmemx, hvalue,
          fun j y _ hy => hk.order.bound y (mem_entries.2 (.inl (mem_of_getElem? hy)))⟩
      exact .inr (hwaits.append e.inOrder)

/-- A continuous state is scheduled: it replaces the latest one. -/
theorem Inv.latch (h : Inv v g previous) (hmade : Made e trigger g previous next)
    (hreceived : Receives trigger g e previous next start)
    (hk : Keeping { v with trigger := trigger } g e start)
    (hflat : ∀ t, previous.any (triggerValue · t != 0) = (triggerValue next t != 0)) :
    Inv { v with latest := some e, trigger := settled trigger previous next }
      (g.receive next false) (some next) := by
  have horder := h.order.latch hmade.ordinal hmade.ordered next
  have hactive : ∀ t, (settled trigger previous next t).active = (triggerValue next t != 0) :=
    fun t => settled_active (hreceived t).2
  refine ⟨{ horder with }, by simp, ?_, fun t => by simp [hactive], ?_, ?_, ?_⟩
  · intro t i st hi hst
    rw [Option.any_some, ← hflat]
    rcases Nat.lt_or_ge i g.received.length with hlt | hge
    · exact h.flat t i st hi (by simpa [getElem?_append_left hlt] using hst)
    have hlt := (List.getElem?_eq_some_iff.1 hst).1
    obtain rfl : i = g.received.length := by
      simp only [Log.receive, length_append, length_singleton] at hlt
      omega
    obtain rfl : next = st := by simpa using hst
    exact hflat t
  · intro t
    rw [settled_id]
    exact forall_latch (v := v) (hk.ids t) (hmade.epoch_le t)
  · intro t ht
    have hne : triggerValue next t ≠ 0 := by simpa [hactive] using ht
    have hon : (trigger t).active := by simp [(hreceived t).2, hne]
    have hrec := (hreceived t).1 hon
    have htr : settled trigger previous next t = trigger t := settled_of_ne hne
    refine ⟨start t, hrec.current hne htr ((hk.linked t hon).receive htr
      (forall_latch (v := v) (fun _ => .inl) (.inr fun _ => hrec.entry hmade))) ?_ fun hlast => ?_⟩
    · -- the press did not begin with this state, which is no transition
      refine hrec.arriving.began.resolve_right fun hnow => ?_
      obtain ⟨-, hzero⟩ := hnow
      have hprev : previous.any (triggerValue · t != 0) := by simp [hflat, hne]
      cases hp : g.received.getLast? with
      | none => simp [h.last, hp] at hprev
      | some st =>
        rw [h.last, hp] at hprev
        rw [getLast?_eq_getElem?] at hp
        have := hzero _ st (fun j hj => by have := h.order.range j hj; omega) hp
        simp [this] at hprev
    · exact (hk.secure t hon hlast).grow htr fun _ => id
  · refine fun t => Past.receive (h.past t) fun hzero a peak hp => ?_
    have hlive := h.pressed_live hp
    simp [hflat, hzero] at hlive

end Steps

end Viiper.Ports.DualSense
