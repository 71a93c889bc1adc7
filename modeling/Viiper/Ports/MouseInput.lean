import Viiper.Verified.Run

/-!
# Input states of the mouse

`UpdateInputState` and the interrupt transfers of the mouse share a channel which holds
one state.  A publisher holds `inputPublishMu`, withdraws what the channel holds and then
sends.  A transfer receives a state, which its report will show, and if the state moves
offers the channel a follow-up with the same buttons.  Each of these is one operation, and
transfers overlap; one which is cancelled receives nothing.  A published state carries its
number in the order of sending, and a follow-up that of the state it was derived from.
-/

namespace Viiper.Ports.MouseInput

open Verified Run Function

structure InputState where
  buttons : UInt8
  (dx dy wheel pan : Int16)
  deriving DecidableEq

def InputState.moves (st : InputState) : Bool :=
  st.dx ≠ 0 || st.dy ≠ 0 || st.wheel ≠ 0 || st.pan ≠ 0

def InputState.zeroed (st : InputState) : InputState := ⟨st.buttons, 0, 0, 0, 0⟩

/-- Where the holder of `inputPublishMu` is. -/
inductive Publisher
  | locked (state : InputState)
  | drained (state : InputState)

structure Mouse where
  published : Nat
  inputCh : Option (Nat × InputState)
  publisher : Option Publisher
  /-- The states for which transfers are about to offer a follow-up. -/
  moved : Nat → Option (Nat × InputState)

def new : Mouse := ⟨0, some (0, ⟨0, 0, 0, 0, 0⟩), none, fun _ => none⟩

inductive Op
  | lock (state : InputState)
  | drain
  | send
  | receive (g : Nat)
  | offer (g : Nat)

inductive Answer
  | done
  | waits
  | blocked
  | shown (st : Nat × InputState)
  deriving DecidableEq

/-- `lock` to `send` are `UpdateInputState`, the last two `HandleTransfer`. -/
def step (m : Mouse) : Op → Mouse × Answer
  | .lock state =>
    match m.publisher with
    | none => ({ m with publisher := some (.locked state) }, .done)
    | some _ => (m, .waits)
  | .drain =>
    match m.publisher with
    | some (.locked state) =>
      ({ m with inputCh := none, publisher := some (.drained state) }, .done)
    | _ => (m, .waits)
  | .send =>
    match m.publisher with
    | some (.drained state) =>
      if m.inputCh.isSome then (m, .blocked)
      else
        ({ m with
            published := m.published + 1
            inputCh := some (m.published + 1, state)
            publisher := none }, .done)
    | _ => (m, .waits)
  | .receive g =>
    match m.moved g, m.inputCh with
    | none, some st =>
      ({ m with
          inputCh := none
          moved := update m.moved g (if st.2.moves then some st else none) }, .shown st)
    | _, _ => (m, .waits)
  | .offer g =>
    match m.moved g with
    | some st =>
      ({ m with
          inputCh := m.inputCh.or (some (st.1, st.2.zeroed))
          moved := update m.moved g none }, .done)
    | none => (m, .waits)

/-- What a step does. -/
inductive Move (m : Mouse) : Op → Mouse → Answer → Prop
  | waits (op : Op) : Move m op m .waits
  | lock {state : InputState} (hfree : m.publisher = none) :
      Move m (.lock state) { m with publisher := some (.locked state) } .done
  | drain {state : InputState} (hp : m.publisher = some (.locked state)) :
      Move m .drain { m with inputCh := none, publisher := some (.drained state) } .done
  | blocked {state : InputState} (hp : m.publisher = some (.drained state))
      (hfull : m.inputCh ≠ none) : Move m .send m .blocked
  | send {state : InputState} (hp : m.publisher = some (.drained state)) :
      Move m .send { m with
        published := m.published + 1, inputCh := some (m.published + 1, state)
        publisher := none } .done
  | receive {g : Nat} {st : Nat × InputState} (hst : m.inputCh = some st) :
      Move m (.receive g) { m with
        inputCh := none
        moved := update m.moved g (if st.2.moves then some st else none) } (.shown st)
  | offer {g : Nat} {st : Nat × InputState} (hst : m.moved g = some st) :
      Move m (.offer g) { m with
        inputCh := m.inputCh.or (some (st.1, st.2.zeroed)), moved := update m.moved g none } .done

theorem step_move (m : Mouse) (op : Op) : Move m op (step m op).1 (step m op).2 := by
  cases op with
  | lock state =>
    rw [step]
    split
    · exact .lock ‹_›
    · exact .waits _
  | drain =>
    rw [step]
    split
    · exact .drain ‹_›
    · exact .waits _
  | send =>
    rw [step]
    split
    · split
      · exact .blocked ‹_› (Option.isSome_iff_ne_none.1 ‹_›)
      · exact .send ‹_›
    · exact .waits _
  | receive g =>
    rw [step]
    split
    · exact .receive ‹_›
    · exact .waits _
  | offer g =>
    rw [step]
    split
    · exact .offer ‹_›
    · exact .waits _

/-- A movement in the channel is published. -/
def Mouse.Counted (m : Mouse) : Prop :=
  ∀ st ∈ m.inputCh, st.2.moves → st.1 ≤ m.published

/-- The movement with this number is published and has left the channel. -/
def Mouse.Spent (n : Nat) (m : Mouse) : Prop :=
  n ≤ m.published ∧ ∀ st ∈ m.inputCh, st.2.moves → st.1 ≠ n

/-- A publisher which has drained the channel finds it empty. -/
def Mouse.Clear (m : Mouse) : Prop :=
  ∀ state, m.publisher = some (.drained state) → m.inputCh = none

/-- No publisher stands between its drain and its send. -/
def Mouse.settled (m : Mouse) : Bool :=
  match m.publisher with
  | some (.drained _) => false
  | _ => true

/-- The channel holds the state published last or its follow-up, and an older follow-up
finds it full, or a publisher about to fill it. -/
structure Mouse.Latest (m : Mouse) : Prop where
  channel : ∀ st ∈ m.inputCh, st.1 = m.published
  owed : ∀ g st, m.moved g = some st →
    st.1 = m.published ∨ m.inputCh ≠ none ∨ m.settled = false

def Op.offers : Op → Bool
  | .offer _ => true
  | _ => false

def Op.receives : Op → Bool
  | .receive _ => true
  | _ => false

variable {m m' : Mouse} {n : Nat} {op : Op} {a : Answer} {x : Nat × InputState}

theorem moves_zeroed (st : InputState) : st.zeroed.moves = false := by
  simp [InputState.moves, InputState.zeroed]

/-- Only the follow-up of the newest state finds the channel empty. -/
theorem Mouse.Latest.placed {g : Nat} (h : m.Latest) (hsettled : m.settled)
    (hst : m.moved g = some x) (hempty : m.inputCh = none) : x.1 = m.published := by
  rcases h.owed g x hst with heq | hfull | hopen
  · exact heq
  · exact absurd hempty hfull
  · cases hsettled.symm.trans hopen

section Move

variable (hm : Move m op m' a)

include hm

theorem Move.published_le : m.published ≤ m'.published := by
  cases hm with
  | send => exact Nat.le_succ _
  | _ => exact Nat.le_refl _

/-- Movements come into the channel by a send only. -/
theorem Move.mem_inputCh (hx : x ∈ m'.inputCh) (hmoves : x.2.moves) :
    x ∈ m.inputCh ∨ m.published < x.1 ∧ x.1 ≤ m'.published := by
  cases hm with
  | waits | lock | blocked => exact .inl hx
  | drain | receive => cases hx
  | send =>
    obtain rfl := Option.some.inj hx
    exact .inr ⟨Nat.lt_succ_self _, Nat.le_refl _⟩
  | offer =>
    rcases Option.or_eq_some_iff.1 hx with hold | ⟨-, hnew⟩
    · exact .inl hold
    · -- a follow-up does not move
      rw [← Option.some.inj hnew, moves_zeroed] at hmoves
      cases hmoves

theorem Move.shown (hout : a = .shown x) : m.inputCh = some x ∧ m'.inputCh = none := by
  cases hm with
  | receive hst =>
    cases hout
    exact ⟨hst, rfl⟩
  | _ => cases hout

theorem Move.offer_keeps (hoffers : op.offers) (hfull : m.inputCh.isSome) :
    m'.inputCh = m.inputCh := by
  cases hm with
  | waits => rfl
  | offer => exact Option.or_of_isSome hfull
  | lock | drain | blocked | send | receive => cases hoffers

theorem Mouse.Counted.move (h : m.Counted) : m'.Counted := by
  intro x hx hmoves
  rcases hm.mem_inputCh hx hmoves with hold | ⟨-, hle⟩
  · exact Nat.le_trans (h x hold hmoves) hm.published_le
  · exact hle

theorem Mouse.Spent.move (h : m.Spent n) : m'.Spent n := by
  refine ⟨Nat.le_trans h.1 hm.published_le, fun x hx hmoves => ?_⟩
  rcases hm.mem_inputCh hx hmoves with hold | ⟨hlt, -⟩
  · exact h.2 x hold hmoves
  · exact Nat.ne_of_gt (Nat.lt_of_le_of_lt h.1 hlt)

theorem Mouse.Clear.move (h : m.Clear) (hop : op.offers → m.settled) : m'.Clear := by
  intro state hp
  cases hm with
  | waits | blocked => exact h state hp
  | lock | send => cases hp
  | drain | receive => rfl
  | offer =>
    have hsettled := hop rfl
    rw [Mouse.settled, show m.publisher = some (.drained state) from hp] at hsettled
    cases hsettled

theorem Mouse.Latest.move (h : m.Latest) (hoffer : op.offers → m.settled)
    (hreceive : op.receives → ∀ g, m.moved g = none) : m'.Latest := by
  cases hm with
  | waits | blocked => exact h
  | lock hfree =>
    refine ⟨h.channel, fun g st hst => (h.owed g st hst).imp_right (.imp_right fun hopen => ?_)⟩
    rw [Mouse.settled, hfree] at hopen
    cases hopen
  | drain =>
    refine ⟨fun st hst => ?_, fun _ _ _ => .inr (.inr rfl)⟩
    cases hst
  | send =>
    refine ⟨fun st hst => ?_, fun _ _ _ => .inr (.inl (Option.some_ne_none _))⟩
    cases hst
    rfl
  | @receive g st hst =>
    refine ⟨fun x hx => ?_, fun g' st' hst' => .inl ?_⟩
    · cases hx
    · -- nobody else owes a follow-up, and this one is of the state received now
      simp only [update_apply, hreceive rfl g'] at hst'
      obtain rfl : st = st' := by grind
      exact h.channel st hst
  | @offer g st hst =>
    refine ⟨fun x hx => ?_, fun _ _ _ => .inr (.inl (by simp))⟩
    rcases Option.or_eq_some_iff.1 hx with hold | ⟨hempty, hnew⟩
    · exact h.channel x hold
    · obtain rfl := Option.some.inj hnew
      show st.1 = m.published
      exact h.placed (hoffer rfl) hst hempty

end Move

theorem Mouse.Clear.released (h : m.Clear) : (final step m [.drain, .send]).publisher = none := by
  obtain ⟨published, ch, publisher, moved⟩ := m
  rcases publisher with _ | (state | state)
  · rfl
  · rfl
  · obtain rfl : ch = none := h state rfl
    rfl

/-- Along every interleaving a movement is shown at most once, and a follow-up never
replaces a state in the channel.  If no transfer offers its follow-up between a publisher's
drain and its send, the publisher comes to its end by its own steps at every point.  If
further no transfer receives while another one owes its follow-up, nothing is shown, and no
follow-up placed, after a newer state has been published. -/
theorem movement_reported_once (ops : List Op) :
    let evs := trace step new ops
    (evs.Pairwise fun e e' => ∀ n, (∃ x, e.out = .shown x ∧ x.2.moves ∧ x.1 = n) →
      ∀ y, e'.out = .shown y → y.2.moves → y.1 ≠ n) ∧
    (∀ e ∈ evs, e.op.offers → e.pre.inputCh.isSome → e.post.inputCh = e.pre.inputCh) ∧
    (Allowed step (fun _ m op => op.offers → m.settled) [] new ops →
      (final step new (ops ++ [.drain, .send])).publisher = none) ∧
    (Allowed step (fun _ m op => (op.offers → m.settled) ∧
        (op.receives → ∀ g, m.moved g = none)) [] new ops →
      ∀ e ∈ evs, (∀ x, e.out = .shown x → x.1 = e.pre.published) ∧
        ∀ g st, e.op = .offer g → e.pre.moved g = some st → e.pre.inputCh = none →
          st.1 = e.pre.published) := by
  have hnew : new.Counted := fun x hx hmoves => by cases hx; cases hmoves
  refine ⟨?_, ?_, fun hquiet => ?_, fun hquiet => ?_⟩
  · refine pairwise_trace (I := Mouse.Counted) (J := Mouse.Spent)
      (fun m op h => h.move (step_move m op)) (fun m op n h _ => ?_)
      (fun m op n _ hn => ⟨hn.move (step_move m op), fun y hout => ?_⟩) hnew (allowed_true [] _ ops)
    · rintro ⟨x, hout, hmoves, rfl⟩
      obtain ⟨hx, hempty⟩ := (step_move m op).shown hout
      exact ⟨Nat.le_trans (h x hx hmoves) (step_move m op).published_le, by simp [hempty]⟩
    · exact hn.2 y ((step_move m op).shown hout).1
  · exact invariant_trace (I := fun _ => True) (fun _ _ h => h)
      (fun m op _ hoffers hfull => (step_move m op).offer_keeps hoffers hfull) trivial ops
  · rw [final_append]
    refine Mouse.Clear.released ?_
    exact history_induction (P := fun _ m => m.Clear) (fun _ h => by cases h)
      (fun _ m op h hop => h.move (step_move m op) hop) ops hquiet
  · intro e he
    obtain ⟨before, op, after, rfl, rfl⟩ := mem_trace he
    obtain ⟨hbefore, hop, -⟩ := allowed_append.1 hquiet
    have hlatest : (final step new before).Latest :=
      history_induction (P := fun _ m => m.Latest)
        ⟨fun st hst => by cases hst; rfl, fun g st hst => by cases hst⟩
        (fun _ m op h hop => h.move (step_move m op) hop.1 hop.2) before hbefore
    refine ⟨fun x hout => hlatest.channel x ((step_move _ op).shown hout).1, ?_⟩
    rintro g st rfl hst hempty
    exact hlatest.placed (hop.1 rfl) hst hempty

theorem update_with_transfers :
    let ops : List Op := [.receive 0, .lock ⟨1, 5, 0, 0, 0⟩, .drain, .send, .receive 1, .offer 1,
      .receive 0, .lock ⟨0, 0, 0, 0, 0⟩]
    (final step new (ops ++ [.drain, .send])).publisher = none ∧
    ∀ e ∈ trace step new ops, ∀ x, e.out = .shown x → x.1 = e.pre.published := by
  intro ops
  obtain ⟨-, -, hends, hlatest⟩ := movement_reported_once ops
  refine ⟨hends (by simp only [ops, Allowed]; decide), fun e he => (hlatest ?_ e he).1⟩
  simp [ops, Allowed, step, new, Op.offers, Op.receives, Mouse.settled, InputState.moves]

/-- A transfer offers its follow-up between a publisher's drain and its send, which then
waits for a further transfer; and a follow-up of the first state, offered when a second
transfer has taken the second state, is shown behind it. -/
theorem update_blocks :
    (final step new ([.lock ⟨1, 5, 0, 0, 0⟩, .drain, .send, .receive 0, .lock ⟨1, 0, 0, 0, 0⟩,
      .drain, .offer 0] ++ [.drain, .send])).publisher ≠ none ∧
    ((trace step new [.lock ⟨1, 5, 0, 0, 0⟩, .drain, .send, .receive 0, .lock ⟨0, 0, 0, 0, 0⟩,
      .drain, .send, .receive 1, .offer 0, .receive 1]).map (·.out)).drop 7 =
      [.shown (2, ⟨0, 0, 0, 0, 0⟩), .done, .shown (1, ⟨1, 0, 0, 0, 0⟩)] := by
  decide

end Viiper.Ports.MouseInput
