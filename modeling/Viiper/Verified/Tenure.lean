import Mathlib.Logic.Function.Basic

/-!
# One driver per object

Threads stand at program points, and some points drive an object: whoever stands there owns
the transaction under way on it.  `Sole drives calls i o` says that object `i` has no
driver (`o = none`), or exactly one, which stands at `d` (`o = some d`).

A thread which moves drives the object already (`Sole.turn`), has nothing to do with it
(`Sole.keep`), or takes it over while it is vacant (`Sole.take`).
-/

namespace Viiper.Verified

open Function

variable {κ π ι δ : Type*}

/-- Who drives object `i`. -/
inductive Sole (drives : π → ι → Option δ) (calls : κ → π) (i : ι) : Option δ → Prop
  | vacant (hnone : ∀ c, drives (calls c) i = none) : Sole drives calls i none
  | held (c : κ) (d : δ) (hdrives : drives (calls c) i = some d)
      (hothers : ∀ c', c' ≠ c → drives (calls c') i = none) :
      Sole drives calls i (some d)

namespace Sole

variable {drives : π → ι → Option δ} {calls : κ → π} {i : ι} {o : Option δ}
  {c : κ} (h : Sole drives calls i o)

include h

theorem eq_some {d : δ} (hd : drives (calls c) i = some d) : o = some d := by
  cases h with
  | vacant hnone => simp [hnone c] at hd
  | held c₀ d₀ hdrives hothers =>
    by_cases hc : c = c₀
    · rw [hc, hdrives] at hd
      exact hd
    · simp [hothers c hc] at hd

/-- Two threads which drive one object are one thread. -/
theorem unique {c' : κ} {d d' : δ} (hd : drives (calls c) i = some d)
    (hd' : drives (calls c') i = some d') : c = c' := by
  cases h with
  | vacant hnone => simp [hnone c] at hd
  | held c₀ d₀ hdrives hothers =>
    have key : ∀ x e, drives (calls x) i = some e → x = c₀ := by
      intro x e hx
      by_contra hne
      simp [hothers x hne] at hx
    rw [key c d hd, key c' d' hd']

variable [DecidableEq κ]

/-- The driver moves on, or leaves. -/
theorem turn {d : δ} (hd : drives (calls c) i = some d) (p : π) :
    Sole drives (update calls c p) i (drives p i) := by
  have hothers : ∀ c', c' ≠ c → drives (update calls c p c') i = none := by
    intro c' hc
    rw [update_of_ne hc]
    cases hd' : drives (calls c') i with
    | none => rfl
    | some d' => exact absurd (h.unique hd' hd) hc
  cases hp : drives p i with
  | none =>
    refine .vacant fun c' => ?_
    by_cases hc : c' = c
    · rw [hc, update_self, hp]
    · exact hothers c' hc
  | some d' => exact .held c d' (by rw [update_self, hp]) hothers

/-- A thread which has nothing to do with the object leaves its tenure alone. -/
theorem keep {p : π} (hold : drives (calls c) i = none)
    (hnew : drives p i = none) : Sole drives (update calls c p) i o := by
  cases h with
  | vacant hnone =>
    refine .vacant fun c' => ?_
    rw [update_apply]
    split
    · exact hnew
    · exact hnone c'
  | held c₀ d hdrives hothers =>
    have hne : c₀ ≠ c := by
      intro heq
      rw [heq, hold] at hdrives
      simp at hdrives
    refine .held c₀ d (by rw [update_of_ne hne, hdrives]) fun c' hc' => ?_
    rw [update_apply]
    split
    · exact hnew
    · exact hothers c' hc'

/-- A thread which moves without a change for the object. -/
theorem same {p : π} (heq : drives p i = drives (calls c) i) :
    Sole drives (update calls c p) i o := by
  cases hc : drives (calls c) i with
  | none => exact h.keep hc (heq.trans hc)
  | some d =>
    rw [h.eq_some hc, ← hc, ← heq]
    exact h.turn hc p

omit h in
/-- A thread takes over a vacant object. -/
theorem take (h : Sole drives calls i none) (c : κ) (p : π) :
    Sole drives (update calls c p) i (drives p i) := by
  cases h with
  | vacant hnone =>
    cases hp : drives p i with
    | none => exact (Sole.vacant hnone).keep (hnone c) hp
    | some d =>
      refine .held c d (by rw [update_self, hp]) fun c' hc => ?_
      rw [update_of_ne hc, hnone c']

end Sole

end Viiper.Verified
