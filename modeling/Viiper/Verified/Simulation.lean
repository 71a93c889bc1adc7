import Viiper.Verified.Run

/-!
# Simulation of a machine by labelled moves

The abstract side of a refinement is a relation `Move a o a'`: the abstract
state `a` may become `a'` while the observation `o` is made.  A `LabelledRun`
is a sequence of such moves, recorded by its observations; `ok` may refuse a
move by looking at what was observed before.
-/

namespace Viiper.Verified.Run

variable {σ α β ω η : Type*}

/-- A sequence of moves from `h₀`, with what was observed along it. -/
inductive LabelledRun (ok : List ω → ω → Prop) (Move : η → ω → η → Prop)
    (h₀ : η) : List ω → η → Prop
  | nil : LabelledRun ok Move h₀ [] h₀
  | snoc {os : List ω} {h : η} {o : ω} {h' : η} :
      LabelledRun ok Move h₀ os h → ok os o → Move h o h' → LabelledRun ok Move h₀ (os ++ [o]) h'

section Labelled

variable {ok ok' : List ω → ω → Prop} {Move : η → ω → η → Prop} {h₀ h : η} {os : List ω}

/-- **Invariant rule** for labelled runs. -/
theorem LabelledRun.invariant {P : List ω → η → Prop} (h0 : P [] h₀)
    (hmove : ∀ {os h o h'}, P os h → ok os o → Move h o h' → P (os ++ [o]) h')
    (hrun : LabelledRun ok Move h₀ os h) : P os h := by
  induction hrun with
  | nil => exact h0
  | snoc _ hok hm ih => exact hmove ih hok hm

end Labelled

/-- **Simulation rule.**  If every step allowed by `guard` from a state
satisfying `I` keeps `I` and is a move between the abstractions which the
abstract guard accepts, then the observations of an allowed run are those of a
labelled run. -/
theorem labelledRun_of_steps {step : σ → α → σ × β}
    {guard : List (Event σ α β) → σ → α → Prop} {ok : List ω → ω → Prop}
    {Move : η → ω → η → Prop} {I : σ → Prop} {abs : σ → η} {observe : Event σ α β → ω}
    (hstep : ∀ evs s op, I s → guard evs s op →
      I (step s op).1 ∧ ok (evs.map observe) (observe (event step s op)) ∧
        Move (abs s) (observe (event step s op)) (abs (step s op).1))
    {s : σ} (h0 : I s) {ops : List α} (hrun : Allowed step guard [] s ops) :
    I (final step s ops) ∧ LabelledRun ok Move (abs s) ((trace step s ops).map observe)
        (abs (final step s ops)) := by
  refine history_induction (P := fun evs t => I t ∧ LabelledRun ok Move (abs s) (evs.map observe)
      (abs t)) ⟨h0, .nil⟩ ?_ ops hrun
  rintro evs t op ⟨hI, hl⟩ hg
  obtain ⟨hI', hok, hm⟩ := hstep evs t op hI hg
  refine ⟨hI', ?_⟩
  rw [List.map_append]
  exact hl.snoc hok hm

/-- Without guards every run of the machine is a labelled run. -/
theorem labelledRun_run {step : σ → α → σ × β} {Move : η → ω → η → Prop} {I : σ → Prop}
    (abs : σ → η) (observe : Event σ α β → ω) (hstep : ∀ s op, I s → I (step s op).1 ∧
      Move (abs s) (observe (event step s op)) (abs (step s op).1)) {s : σ} (h0 : I s)
    (ops : List α) : LabelledRun (fun _ _ => True) Move (abs s) ((trace step s ops).map observe)
      (abs (final step s ops)) := by
  refine (labelledRun_of_steps (fun _ s op h _ => ?_) h0 (allowed_true [] s ops)).2
  obtain ⟨hI, hmove⟩ := hstep s op h
  exact ⟨hI, trivial, hmove⟩

end Viiper.Verified.Run
