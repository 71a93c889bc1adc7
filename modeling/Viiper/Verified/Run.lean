import Mathlib.Logic.Function.Basic

/-!
# Runs of a deterministic machine

A component is modelled by one total function `step : σ → α → σ × β`: an operation takes
the state under the component's lock to its successor and returns an answer.  Everything
the environment decides — times, callback results, which goroutine wins the lock — is an
argument of the operation, so an interleaving of callers is just a list of operations.

`trace` records one `Event` per operation; temporal statements are statements about this
list.  `Allowed` restricts a run step by step, and may look at the history so far.
-/

namespace Viiper.Verified.Run

open Function

variable {σ α β : Type*}

/-- One observed step: the state before, the operation, its answer, and the
state after. -/
structure Event (σ α β : Type*) where
  pre : σ
  op : α
  out : β
  post : σ

/-- The event produced by running `op` in state `s`. -/
def event (step : σ → α → σ × β) (s : σ) (op : α) : Event σ α β :=
  ⟨s, op, (step s op).2, (step s op).1⟩

/-- The state reached by a list of operations. -/
def final (step : σ → α → σ × β) : σ → List α → σ
  | s, [] => s
  | s, op :: ops => final step (step s op).1 ops

/-- The events of a list of operations, in order. -/
def trace (step : σ → α → σ × β) : σ → List α → List (Event σ α β)
  | _, [] => []
  | s, op :: ops => event step s op :: trace step (step s op).1 ops

/-- Every step of the run satisfies `ok`, which sees the history so far, the
state before the step, and the operation. -/
def Allowed (step : σ → α → σ × β) (ok : List (Event σ α β) → σ → α → Prop) :
    List (Event σ α β) → σ → List α → Prop
  | _, _, [] => True
  | evs, s, op :: ops =>
    ok evs s op ∧ Allowed step ok (evs ++ [event step s op]) (step s op).1 ops

instance Allowed.decidable (step : σ → α → σ × β) (ok : List (Event σ α β) → σ → α → Prop)
    [∀ evs s op, Decidable (ok evs s op)] :
    ∀ evs s ops, Decidable (Allowed step ok evs s ops)
  | _, _, [] => isTrue trivial
  | evs, s, op :: ops =>
    have := Allowed.decidable step ok (evs ++ [event step s op]) (step s op).1 ops
    inferInstanceAs (Decidable (_ ∧ _))

section Basic

variable (step : σ → α → σ × β)

variable (s : σ)

@[simp] theorem event_pre (op : α) : (event step s op).pre = s := rfl

@[simp] theorem event_op (s : σ) (op : α) : (event step s op).op = op := rfl

@[simp] theorem event_out (op : α) : (event step s op).out = (step s op).2 := rfl

@[simp] theorem event_post (op : α) : (event step s op).post = (step s op).1 := rfl

@[simp] theorem final_nil (s : σ) : final step s [] = s := rfl

@[simp] theorem final_cons (op : α) (ops : List α) :
    final step s (op :: ops) = final step (step s op).1 ops := rfl

@[simp] theorem trace_nil (s : σ) : trace step s [] = [] := rfl

@[simp] theorem trace_cons (op : α) (ops : List α) : trace step s (op :: ops) =
      event step s op :: trace step (step s op).1 ops := rfl

/-- The state after two consecutive runs. -/
theorem final_append (xs ys : List α) :
    final step s (xs ++ ys) = final step (final step s xs) ys := by
  induction xs generalizing s with
  | nil => rfl
  | cons op xs ih => simpa using ih (step s op).1

/-- The events of two consecutive runs. -/
theorem trace_append (xs ys : List α) : trace step s (xs ++ ys) =
      trace step s xs ++ trace step (final step s xs) ys := by
  induction xs generalizing s with
  | nil => rfl
  | cons op xs ih => simpa using ih (step s op).1

theorem final_snoc (ops : List α) (op : α) :
    final step s (ops ++ [op]) = (step (final step s ops) op).1 := by
  rw [final_append]; rfl

theorem trace_snoc (ops : List α) (op : α) : trace step s (ops ++ [op]) =
      trace step s ops ++ [event step (final step s ops) op] := by
  rw [trace_append]; rfl

end Basic

section Rules

variable {step : σ → α → σ × β} {ok : List (Event σ α β) → σ → α → Prop}

variable {P : List (Event σ α β) → σ → Prop} {evs : List (Event σ α β)}

theorem allowed_append {s : σ} {xs ys : List α} : Allowed step ok evs s (xs ++ ys) ↔
      Allowed step ok evs s xs ∧ Allowed step ok (evs ++ trace step s xs) (final step s xs) ys := by
  induction xs generalizing evs s with
  | nil => simp [Allowed]
  | cons op xs ih => simp [Allowed, ih, and_assoc]

/-- Without a guard every run is allowed. -/
theorem allowed_true (evs : List (Event σ α β)) (s : σ) (ops : List α) :
    Allowed step (fun _ _ _ => True) evs s ops := by
  induction ops generalizing evs s with
  | nil => trivial
  | cons op ops ih => exact ⟨trivial, ih _ _⟩

/-- The history rule, started from an arbitrary history. -/
theorem history_from
    (hstep : ∀ evs s op, P evs s → ok evs s op → P (evs ++ [event step s op]) (step s op).1) {s : σ}
    (h0 : P evs s) (ops : List α) (hrun : Allowed step ok evs s ops) :
    P (evs ++ trace step s ops) (final step s ops) := by
  induction ops generalizing evs s with
  | nil => simpa using h0
  | cons op ops ih =>
    have hnext := ih (hstep evs s op h0 hrun.1) hrun.2
    simpa using hnext

/-- **History induction.**  A relation between the history and the state
which holds initially and is kept by every allowed step holds along every
allowed run. -/
theorem history_induction {s : σ} (h0 : P [] s)
    (hstep : ∀ evs s op, P evs s → ok evs s op → P (evs ++ [event step s op]) (step s op).1)
    (ops : List α) (hrun : Allowed step ok [] s ops) : P (trace step s ops) (final step s ops) := by
  simpa using history_from hstep h0 ops hrun

/-- The history rule for a machine without a guard, started from an arbitrary
history. -/
theorem history_run_from (hstep : ∀ evs s op, P evs s → P (evs ++ [event step s op]) (step s op).1)
    {s : σ} (h0 : P evs s) (ops : List α) : P (evs ++ trace step s ops) (final step s ops) :=
  history_from (fun evs s op h _ => hstep evs s op h) h0 ops (allowed_true evs s ops)

/-- The history rule for a machine without a guard. -/
theorem history_run {s : σ} (h0 : P [] s)
    (hstep : ∀ evs s op, P evs s → P (evs ++ [event step s op]) (step s op).1)
    (ops : List α) : P (trace step s ops) (final step s ops) :=
  history_run_from hstep h0 ops

/-- An event singled out of a run singles out the operation which made it,
with the run before it and the run after it. -/
theorem trace_eq_append_cons {s : σ} {ops : List α} {evs₁ evs₂ : List (Event σ α β)}
    {e : Event σ α β} (h : trace step s ops = evs₁ ++ e :: evs₂) :
    ∃ ops₁ op ops₂, ops = ops₁ ++ op :: ops₂ ∧ evs₁ = trace step s ops₁ ∧
      e = event step (final step s ops₁) op ∧
      evs₂ = trace step (step (final step s ops₁) op).1 ops₂ := by
  induction ops generalizing s evs₁ with
  | nil => simp at h
  | cons op ops ih =>
    cases evs₁ with
    | nil =>
      rw [trace_cons, List.nil_append, List.cons.injEq] at h
      exact ⟨[], op, ops, rfl, rfl, h.1.symm, h.2.symm⟩
    | cons e' evs₁ =>
      rw [trace_cons, List.cons_append, List.cons.injEq] at h
      obtain ⟨ops₁, op', ops₂, hops, hevs, he, hrest⟩ := ih h.2
      refine ⟨op :: ops₁, op', ops₂, by rw [hops]; rfl, ?_, he, hrest⟩
      rw [trace_cons, ← h.1, ← hevs]

/-- Every event of a run is one step taken in a state the run reaches. -/
theorem mem_trace {s : σ} {ops : List α} {e : Event σ α β} (he : e ∈ trace step s ops) :
    ∃ before op after, ops = before ++ op :: after ∧ e = event step (final step s before) op := by
  obtain ⟨evs₁, evs₂, hsplit⟩ := List.append_of_mem he
  obtain ⟨before, op, after, hops, -, hev, -⟩ := trace_eq_append_cons hsplit
  exact ⟨before, op, after, hops, hev⟩

/-- A state invariant kept by every step holds in every state reached. -/
theorem invariant_final {I : σ → Prop} (hstep : ∀ s op, I s → I (step s op).1) {s : σ} (h0 : I s)
    (ops : List α) : I (final step s ops) := by
  induction ops generalizing s with
  | nil => exact h0
  | cons op ops ih => exact ih (hstep s op h0)

/-- A property of events which holds whenever the invariant holds before the
step holds of every event of a run. -/
theorem invariant_trace {I : σ → Prop} {Q : Event σ α β → Prop}
    (hstep : ∀ s op, I s → I (step s op).1) (hevent : ∀ s op, I s → Q (event step s op)) {s : σ}
    (h0 : I s) (ops : List α) : ∀ e ∈ trace step s ops, Q e := by
  intro e he
  obtain ⟨before, op, -, -, rfl⟩ := mem_trace he
  exact hevent _ op (invariant_final hstep h0 before)

/-- **Promises.**  If an event which makes a promise leads to a state which keeps it, and
such states stay such and have only events which honour it, then every later event does. -/
theorem pairwise_trace {ι : Type*} {I : σ → Prop} {J : ι → σ → Prop}
    {T Q : ι → Event σ α β → Prop} {ok : σ → α → Prop} (hinv : ∀ s op, I s → I (step s op).1)
    (hmake : ∀ s op i, I s → ok s op → T i (event step s op) → J i (step s op).1)
    (hkeep : ∀ s op i, I s → J i s → J i (step s op).1 ∧ Q i (event step s op)) {s : σ} (h0 : I s)
    {ops : List α} (hrun : Allowed step (fun _ => ok) evs s ops) :
    (trace step s ops).Pairwise fun e e' => ∀ i, T i e → Q i e' := by
  induction ops generalizing evs s with
  | nil => exact .nil
  | cons op ops ih =>
    refine .cons (fun e' he' i hi => ?_) (ih (hinv s op h0) hrun.2)
    exact invariant_trace (I := fun s => I s ∧ J i s)
      (fun s op h => ⟨hinv s op h.1, (hkeep s op i h.1 h.2).1⟩)
      (fun s op h => (hkeep s op i h.1 h.2).2) ⟨hinv s op h0, hmake s op i h0 hrun.1 hi⟩ ops e' he'

end Rules

/-! ## Families of machines -/

section Each

variable {κ : Type*} [DecidableEq κ] {step : σ → α → σ × β} {ok : σ → α → Prop}

/-- One machine per key; an operation names the key it is for. -/
def each (step : σ → α → σ × β) (w : κ → σ) (op : κ × α) : (κ → σ) × β :=
  (update w op.1 (step (w op.1) op.2).1, (step (w op.1) op.2).2)

/-- The operations for one key. -/
def opsAt (k : κ) (ops : List (κ × α)) : List α :=
  ops.filterMap fun op => if op.1 = k then some op.2 else none

theorem final_each (w : κ → σ) (ops : List (κ × α)) (k : κ) :
    final (each step) w ops k = final step (w k) (opsAt k ops) := by
  induction ops generalizing w with
  | nil => rfl
  | cons op ops ih =>
    rw [final_cons, ih]
    by_cases hk : op.1 = k
    · subst hk
      simp [opsAt, each]
    · simp [opsAt, each, hk, update_of_ne (Ne.symm hk)]

theorem allowed_each {evs : List (Event (κ → σ) (κ × α) β)} {w : κ → σ} {ops : List (κ × α)}
    (h : Allowed (each step) (fun _ w op => ok (w op.1) op.2) evs w ops) (k : κ)
    (evs' : List (Event σ α β)) : Allowed step (fun _ => ok) evs' (w k) (opsAt k ops) := by
  induction ops generalizing evs evs' w with
  | nil => trivial
  | cons op ops ih =>
    by_cases hk : op.1 = k
    · subst hk
      have hrest := ih h.2 (evs' ++ [event step (w op.1) op.2])
      simp only [each, update_self] at hrest
      simpa [opsAt, Allowed] using ⟨h.1, hrest⟩
    · have hrest := ih h.2 evs'
      simp only [each, update_of_ne (Ne.symm hk)] at hrest
      simpa [opsAt, hk] using hrest

end Each

end Viiper.Verified.Run
