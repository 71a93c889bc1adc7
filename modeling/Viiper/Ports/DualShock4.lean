import Viiper.Verified.Run

/-!
# Input states of the DualShock 4

`UpdateInputState` and the interrupt transfers of the DualShock 4 share the newest input
state twice: in the field `inputState`, which a transfer reads when its deadline has come,
and in the channel `inputCh`, which holds one state.  A publisher holds `inputPublishMu`,
stores the state, withdraws what the channel still holds, and sends.  Each of these steps
and each answer of a transfer is one operation.

Conventions of the port:

* a published state carries its number in the order in which the field is written;
* the report shows the state it is built from; its encoding is left out, and so is a
  transfer which is cancelled and shows nothing;
* a step which its goroutine cannot take now, or not yet, answers `waits`.
-/

namespace Viiper.Ports.DualShock4

open Verified Run

variable {α : Type}

/-- Where the holder of `inputPublishMu` is. -/
inductive Publisher (α : Type)
  | locked (next : α)
  | stored (nextPtr : Nat × α)
  | drained (nextPtr : Nat × α)

structure Input (α : Type) where
  inputState : Nat × α
  inputCh : Option (Nat × α)
  publisher : Option (Publisher α)

def newInput (neutral : α) : Input α := ⟨(0, neutral), some (0, neutral), none⟩

inductive InputOp (α : Type)
  | lock (state : Option α)
  | store
  | drain
  | send
  | receive
  | deadline

inductive InputAnswer (α : Type)
  | done
  | waits
  | blocked
  | returned (number : Nat)
  | shown (state : Nat × α)
  deriving DecidableEq

/-- `lock` to `send` are `UpdateInputState`; the last two are the ways in which
`HandleTransfer` answers an interrupt-IN transfer. -/
def Input.step (neutral : α) (s : Input α) : InputOp α → Input α × InputAnswer α
  | .lock state =>
    match s.publisher with
    | none => ({ s with publisher := some (.locked (state.getD neutral)) }, .done)
    | some _ => (s, .waits)
  | .store =>
    match s.publisher with
    | some (.locked next) =>
      let nextPtr := (s.inputState.1 + 1, next)
      ({ s with inputState := nextPtr, publisher := some (.stored nextPtr) }, .done)
    | _ => (s, .waits)
  | .drain =>
    match s.publisher with
    | some (.stored nextPtr) =>
      ({ s with inputCh := none, publisher := some (.drained nextPtr) }, .done)
    | _ => (s, .waits)
  | .send =>
    match s.publisher with
    | some (.drained nextPtr) =>
      if s.inputCh.isSome then (s, .blocked)
      else ({ s with inputCh := some nextPtr, publisher := none }, .returned nextPtr.1)
    | _ => (s, .waits)
  | .receive =>
    match s.inputCh with
    | some state => ({ s with inputCh := none }, .shown state)
    | none => (s, .waits)
  | .deadline => (s, .shown s.inputState)

inductive Input.Move (neutral : α) (s : Input α) :
    InputOp α → Input α → InputAnswer α → Prop
  | waits (op : InputOp α) : Move neutral s op s .waits
  | lock {state : Option α} (hfree : s.publisher = none) :
      Move neutral s (.lock state)
        { s with publisher := some (.locked (state.getD neutral)) } .done
  | store {next : α} (hp : s.publisher = some (.locked next)) :
      Move neutral s .store
        { s with
          inputState := (s.inputState.1 + 1, next)
          publisher := some (.stored (s.inputState.1 + 1, next)) } .done
  | drain {nextPtr : Nat × α} (hp : s.publisher = some (.stored nextPtr)) :
      Move neutral s .drain
        { s with inputCh := none, publisher := some (.drained nextPtr) } .done
  | blocked {nextPtr : Nat × α} (hp : s.publisher = some (.drained nextPtr))
      (hfull : s.inputCh ≠ none) : Move neutral s .send s .blocked
  | send {nextPtr : Nat × α} (hp : s.publisher = some (.drained nextPtr)) :
      Move neutral s .send
        { s with inputCh := some nextPtr, publisher := none } (.returned nextPtr.1)
  | receive {state : Nat × α} (hstate : s.inputCh = some state) :
      Move neutral s .receive { s with inputCh := none } (.shown state)
  | deadline : Move neutral s .deadline s (.shown s.inputState)

theorem Input.step_move (neutral : α) (s : Input α) (op : InputOp α) :
    s.Move neutral op (s.step neutral op).1 (s.step neutral op).2 := by
  cases op with
  | lock state =>
    rw [step]
    split
    · exact .lock ‹_›
    · exact .waits _
  | store =>
    rw [step]
    split
    · exact .store ‹_›
    · exact .waits _
  | drain =>
    rw [step]
    split
    · exact .drain ‹_›
    · exact .waits _
  | send =>
    rw [step]
    split
    · split
      · exact .blocked ‹_› (Option.isSome_iff_ne_none.1 ‹_›)
      · exact .send ‹_›
    · exact .waits _
  | receive =>
    rw [step]
    split
    · exact .receive ‹_›
    · exact .waits _
  | deadline => exact .deadline

/-- What a publisher is about to send, and what the channel holds. -/
structure Input.Sound (s : Input α) : Prop where
  stored : ∀ nextPtr, s.publisher = some (.stored nextPtr) → nextPtr = s.inputState
  drained : ∀ nextPtr, s.publisher = some (.drained nextPtr) →
    nextPtr = s.inputState ∧ s.inputCh = none
  channel : ∀ x ∈ s.inputCh, x.1 ≤ s.inputState.1
  /-- Only a publisher which has stored its state leaves an older one in the channel. -/
  newest : ∀ x ∈ s.inputCh, x = s.inputState ∨ ∃ nextPtr, s.publisher = some (.stored nextPtr)

/-- Nothing older than the given publication will be shown. -/
def Input.After (n : Nat) (s : Input α) : Prop :=
  n ≤ s.inputState.1 ∧ ∀ x ∈ s.inputCh, n ≤ x.1

/-- No publisher stands between storing a state and withdrawing the older one. -/
def Input.Withdrawn (s : Input α) : Prop :=
  ∀ nextPtr, s.publisher = some (.stored nextPtr) → s.inputCh = none

variable {neutral : α} {s s' : Input α} {op : InputOp α} {a : InputAnswer α} {n : Nat}

variable {x : Nat × α}

theorem Input.sound_new (neutral : α) : (newInput neutral).Sound where
  stored _ hp := by cases hp
  drained _ hp := by cases hp
  channel _ hx := by cases hx; exact Nat.le_refl _
  newest _ hx := by cases hx; exact .inl rfl

section Move

variable (hm : s.Move neutral op s' a)

include hm

theorem Input.Sound.move (h : s.Sound) : s'.Sound := by
  cases hm with
  | waits | blocked | deadline => exact h
  | lock hfree =>
    refine ⟨fun _ hp => ?_, fun _ hp => ?_, h.channel, fun x hx => ?_⟩
    · cases hp
    · cases hp
    · refine (h.newest x hx).imp_right ?_
      rintro ⟨nextPtr, hp⟩
      cases hfree.symm.trans hp
  | store =>
    refine ⟨fun _ hp => ?_, fun _ hp => ?_, fun x hx => ?_, fun _ _ => .inr ⟨_, rfl⟩⟩
    · cases hp
      rfl
    · cases hp
    · exact Nat.le_succ_of_le (h.channel x hx)
  | drain hstored =>
    refine ⟨fun _ hp => ?_, fun _ hp => ?_, fun _ hx => ?_, fun _ hx => ?_⟩
    · cases hp
    · cases hp
      exact ⟨h.stored _ hstored, rfl⟩
    · cases hx
    · cases hx
  | send hdrained =>
    obtain ⟨rfl, -⟩ := h.drained _ hdrained
    refine ⟨fun _ hp => ?_, fun _ hp => ?_, fun _ hx => ?_, fun _ hx => ?_⟩
    · cases hp
    · cases hp
    · cases hx
      exact Nat.le_refl _
    · cases hx
      exact .inl rfl
  | receive =>
    refine ⟨h.stored, fun p hp => ⟨(h.drained p hp).1, rfl⟩, fun _ hx => ?_, fun _ hx => ?_⟩
    · cases hx
    · cases hx

theorem Input.Sound.after (h : s.Sound) (ha : s.After n) : s'.After n := by
  cases hm with
  | waits | lock | blocked | deadline => exact ha
  | store => exact ⟨Nat.le_succ_of_le ha.1, ha.2⟩
  | drain | receive => exact ⟨ha.1, fun _ hx => by cases hx⟩
  | send hdrained =>
    obtain ⟨rfl, -⟩ := h.drained _ hdrained
    refine ⟨ha.1, fun x hx => ?_⟩
    cases hx
    exact ha.1

theorem Input.Sound.returned (h : s.Sound) (hout : a = .returned n) : s'.After n := by
  cases hm with
  | send hdrained =>
    obtain ⟨rfl, -⟩ := h.drained _ hdrained
    cases hout
    refine ⟨Nat.le_refl _, fun x hx => ?_⟩
    cases hx
    exact Nat.le_refl _
  | _ => cases hout

/-- An answer from the channel leaves it empty; an answer by the deadline is no promise
while the channel holds something older. -/
theorem Input.Sound.shown (h : s.Sound) (hquiet : op = .deadline → s.Withdrawn)
    (hout : a = .shown x) : s'.After x.1 := by
  cases hm with
  | receive hstate =>
    cases hout
    exact ⟨h.channel x hstate, fun _ hy => by cases hy⟩
  | deadline =>
    cases hout
    refine ⟨Nat.le_refl _, fun y hy => ?_⟩
    rcases h.newest y hy with rfl | ⟨nextPtr, hstored⟩
    · exact Nat.le_refl _
    · rw [hquiet rfl nextPtr hstored] at hy
      cases hy
  | _ => cases hout

theorem Input.After.shown (h : s.After n) (hout : a = .shown x) : n ≤ x.1 := by
  cases hm with
  | receive hstate =>
    cases hout
    exact h.2 x hstate
  | deadline =>
    cases hout
    exact h.1
  | _ => cases hout

theorem Input.Sound.not_blocked (h : s.Sound) : a ≠ .blocked := by
  cases hm with
  | blocked hdrained hfull => exact absurd (h.drained _ hdrained).2 hfull
  | _ => exact fun hout => by cases hout

end Move

theorem Input.Sound.released (h : s.Sound) :
    (final (Input.step neutral) s [.store, .drain, .send]).publisher = none := by
  obtain ⟨current, ch, publisher⟩ := s
  rcases publisher with _ | (next | nextPtr | nextPtr)
  · rfl
  · rfl
  · rfl
  · obtain rfl : ch = none := (h.drained nextPtr rfl).2
    rfl

variable (neutral)

/-- Along every interleaving a transfer which is answered after a publication has returned
shows that state or a later one, no send is blocked, and the holder of the lock comes to
its end by its own steps.  Reports keep the order of publication if no deadline is met
between a publisher's store and its drain. -/
theorem reports_never_go_back (ops : List (InputOp α)) :
    let evs := trace (Input.step neutral) (newInput neutral) ops
    (evs.Pairwise fun e e' => ∀ n, e.out = .returned n → ∀ x, e'.out = .shown x → n ≤ x.1) ∧
    (∀ e ∈ evs, e.out ≠ .blocked) ∧
    (final (Input.step neutral) (newInput neutral)
      (ops ++ [.store, .drain, .send])).publisher = none ∧
    (Allowed (Input.step neutral) (fun _ s op => op = .deadline → s.Withdrawn) []
        (newInput neutral) ops →
      evs.Pairwise fun e e' => ∀ n, (∃ x, e.out = .shown x ∧ x.1 = n) →
        ∀ x, e'.out = .shown x → n ≤ x.1) := by
  have h0 := Input.sound_new neutral
  have hmove (s : Input α) (op : InputOp α) := s.step_move neutral op
  have hinv (s : Input α) (op : InputOp α) (h : s.Sound) := h.move (hmove s op)
  have hkeep (s : Input α) (op : InputOp α) (n : Nat) (h : s.Sound) (ha : s.After n) :
      (s.step neutral op).1.After n ∧
        ∀ x, (event (Input.step neutral) s op).out = .shown x → n ≤ x.1 :=
    ⟨h.after (hmove s op) ha, fun _ hout => ha.shown (hmove s op) hout⟩
  refine ⟨?_, ?_, ?_, fun hquiet => ?_⟩
  · exact pairwise_trace hinv (fun s op n h _ hout => h.returned (hmove s op) hout) hkeep h0
      (allowed_true [] _ ops)
  · exact invariant_trace hinv (fun s op h => h.not_blocked (hmove s op)) h0 ops
  · rw [final_append]
    exact (invariant_final hinv h0 ops).released
  · refine pairwise_trace hinv (fun s op n h hok => ?_) hkeep h0 hquiet
    rintro ⟨x, hout, rfl⟩
    exact h.shown (hmove s op) hok hout

theorem reports_in_order_after_update :
    let ops : List (InputOp Nat) :=
      [.receive, .lock (some 7), .store, .drain, .deadline, .send, .receive]
    (trace (Input.step 0) (newInput 0) ops).Pairwise fun e e' =>
      ∀ n, (∃ x, e.out = .shown x ∧ x.1 = n) → ∀ x, e'.out = .shown x → n ≤ x.1 :=
  (reports_never_go_back 0 _).2.2.2 (by simp [Allowed, newInput, Input.step, Input.Withdrawn])

/-- A deadline met between the store and the drain shows the new state, and the next
transfer finds the old one in the channel. -/
theorem report_goes_back :
    (trace (Input.step 0) (newInput 0) [.lock (some 7), .store, .deadline, .receive]).map (·.out) =
      [.done, .done, .shown (1, 7), .shown (0, 0)] := by
  decide

end Viiper.Ports.DualShock4
