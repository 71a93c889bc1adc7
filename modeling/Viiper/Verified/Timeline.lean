import Mathlib.Algebra.Order.Group.Basic

/-!
# Reservations on a time line

Half-open windows on an ordered time line.  `Spaced ws bound` says that the
windows follow each other without overlap and that `bound` lies behind all of
them, so that whatever is reserved from `bound` on overlaps none.  `layOut`
reserves a list of durations end to end.

The second half counts: services whose deadlines are one period apart, each
made less than a period late, cannot bunch up.
-/

namespace Viiper.Verified.Timeline

open List

variable {τ : Type*}

@[ext] structure Window (τ : Type*) where
  (start stop : τ)

section Windows

variable [AddCommGroup τ] [LinearOrder τ] [IsOrderedAddMonoid τ]

/-- The windows are disjoint, in order, and end before the bound. -/
structure Spaced (ws : List (Window τ)) (bound : τ) : Prop where
  disjoint : ws.Pairwise fun a b => a.stop ≤ b.start
  proper : ∀ w ∈ ws, w.start ≤ w.stop ∧ w.stop ≤ bound

/-- Windows of the given durations, end to end from an anchor. -/
def layOut : τ → List τ → List (Window τ)
  | _, [] => []
  | anchor, d :: ds => ⟨anchor, anchor + d⟩ :: layOut (anchor + d) ds

/-- Where the last of them ends. -/
def layEnd : τ → List τ → τ
  | anchor, [] => anchor
  | anchor, d :: ds => layEnd (anchor + d) ds

omit [LinearOrder τ] [IsOrderedAddMonoid τ] in
theorem stop_getLast_layOut {anchor : τ} {ds : List τ} {w : Window τ}
    (h : (layOut anchor ds).getLast? = some w) : w.stop = layEnd anchor ds := by
  induction ds generalizing anchor with
  | nil => simp [layOut] at h
  | cons d ds ih =>
    cases ds with
    | nil =>
      simp only [layOut, getLast?_singleton, Option.some.injEq] at h
      rw [← h]
      rfl
    | cons d' ds =>
      rw [layOut, layOut, getLast?_cons_cons] at h
      exact ih h

namespace Spaced

variable {ws ws' : List (Window τ)} {bound bound' : τ}

omit [AddCommGroup τ] [IsOrderedAddMonoid τ] in
theorem nil (bound : τ) : Spaced [] bound := ⟨List.Pairwise.nil, by simp⟩

omit [AddCommGroup τ] [IsOrderedAddMonoid τ] in
theorem sublist (h : Spaced ws bound) (hsub : ws'.Sublist ws)
    (hbound : bound ≤ bound') : Spaced ws' bound' where
  disjoint := h.disjoint.sublist hsub
  proper := fun w hw =>
    ⟨(h.proper w (hsub.subset hw)).1, (h.proper w (hsub.subset hw)).2.trans hbound⟩

omit [AddCommGroup τ] [IsOrderedAddMonoid τ] in
/-- A window reserved from the bound on fits behind the others. -/
theorem snoc (h : Spaced ws bound) {w : Window τ} (hstart : bound ≤ w.start)
    (hproper : w.start ≤ w.stop) : Spaced (ws ++ [w]) w.stop where
  disjoint := by
    rw [pairwise_append]
    refine ⟨h.disjoint, pairwise_singleton _ _, fun a ha b hb => ?_⟩
    rw [mem_singleton.1 hb]
    exact (h.proper a ha).2.trans hstart
  proper := by
    intro a ha
    rcases mem_append.1 ha with ha | ha
    · exact ⟨(h.proper a ha).1, ((h.proper a ha).2.trans hstart).trans hproper⟩
    · rw [mem_singleton.1 ha]
      exact ⟨hproper, le_refl _⟩

omit [AddCommGroup τ] [IsOrderedAddMonoid τ] in
theorem before {w : Window τ} {rest : List (Window τ)}
    (h : Spaced (ws ++ w :: rest) bound) : Spaced ws w.start where
  disjoint := (pairwise_append.1 h.disjoint).1
  proper := by
    intro a ha
    refine ⟨(h.proper a (mem_append_left _ ha)).1, ?_⟩
    exact (pairwise_append.1 h.disjoint).2.2 a ha w (mem_cons_self ..)

/-- **A layout from behind the bound keeps the windows spaced.** -/
theorem append_layOut (h : Spaced ws bound) {anchor : τ} {ds : List τ} (hanchor : bound ≤ anchor)
    (hds : ∀ d ∈ ds, 0 ≤ d) : Spaced (ws ++ layOut anchor ds) (layEnd anchor ds) := by
  induction ds generalizing ws bound anchor with
  | nil =>
    rw [layOut, append_nil]
    exact h.sublist (List.Sublist.refl _) hanchor
  | cons d ds ih =>
    have hd : anchor ≤ anchor + d := le_add_of_nonneg_right (hds d (by simp))
    have hnext : Spaced (ws ++ [⟨anchor, anchor + d⟩]) (anchor + d) :=
      h.snoc hanchor hd
    have hrest := ih hnext (le_refl _) fun d' hd' => hds d' (by simp [hd'])
    rw [append_assoc] at hrest
    exact hrest

end Spaced

/-- A layout lies behind its anchor. -/
theorem le_layOut {anchor : τ} {ds : List τ} (hds : ∀ d ∈ ds, 0 ≤ d) :
    (∀ w ∈ layOut anchor ds, anchor ≤ w.start) ∧ anchor ≤ layEnd anchor ds := by
  have hpoint : Spaced [⟨anchor, anchor⟩] anchor :=
    (Spaced.nil anchor).snoc (le_refl _) (le_refl _)
  have hspaced := hpoint.append_layOut (le_refl anchor) hds
  refine ⟨fun w hw => ?_, (hspaced.proper ⟨anchor, anchor⟩ (by simp)).2⟩
  exact (pairwise_append.1 hspaced.disjoint).2.2 _ (mem_singleton.2 rfl) w hw

end Windows

/-! ## Counting services -/

/-- One service: when it was due, and the clock reading at which it was made. -/
structure Service (τ : Type*) where
  (deadline reading : τ)
  deriving DecidableEq

section Services

variable [AddCommGroup τ] [LinearOrder τ] [IsOrderedAddMonoid τ]
  {period : τ} {ss : List (Service τ)}

/-- Deadlines one period apart are `n` periods apart after `n` services. -/
theorem deadline_add_nsmul_le {a b : Service τ}
    (hspaced : (a :: ss).Pairwise fun a b => a.deadline + period ≤ b.deadline)
    (hlast : (a :: ss).getLast? = some b) : a.deadline + ss.length • period ≤ b.deadline := by
  induction ss generalizing a with
  | nil =>
    simp only [getLast?_singleton, Option.some.injEq] at hlast
    simp [hlast]
  | cons a' ss ih =>
    rw [getLast?_cons_cons] at hlast
    have hrest := ih hspaced.of_cons hlast
    have hstep := rel_of_pairwise_cons hspaced (mem_cons_self ..)
    calc a.deadline + (a' :: ss).length • period = (a.deadline + period) + ss.length • period := by
          rw [length_cons, succ_nsmul', add_assoc]
      _ ≤ a'.deadline + ss.length • period := by gcongr
      _ ≤ b.deadline := hrest

/-- **No burst.**  Services due one period apart, each less than a period late,
are at most `n + 1` in any stretch of `n` periods. -/
theorem length_services_le (hperiod : 0 < period)
    (hspaced : ss.Pairwise fun a b => a.deadline + period ≤ b.deadline)
    (hlate : ∀ s ∈ ss, s.deadline ≤ s.reading ∧ s.reading < s.deadline + period) (start : τ)
    (n : Nat) (hwithin : ∀ s ∈ ss, start ≤ s.reading ∧ s.reading ≤ start + n • period) :
    ss.length ≤ n + 1 := by
  cases ss with
  | nil => exact Nat.zero_le _
  | cons a ss =>
    obtain ⟨b, hb⟩ : ∃ b, (a :: ss).getLast? = some b :=
      ⟨_, getLast?_eq_some_getLast (cons_ne_nil a ss)⟩
    have hbmem : b ∈ a :: ss := mem_of_getLast? hb
    have ha := hlate a (mem_cons_self ..)
    -- the first service is less than a period late, the last is not early
    have hlt : start + ss.length • period < start + (n + 1) • period :=
      calc start + ss.length • period ≤ a.reading + ss.length • period := by
            gcongr
            exact (hwithin a (mem_cons_self ..)).1
        _ < (a.deadline + period) + ss.length • period := by
            gcongr
            exact ha.2
        _ = (a.deadline + ss.length • period) + period := add_right_comm ..
        _ ≤ b.deadline + period := by
            gcongr
            exact deadline_add_nsmul_le hspaced hb
        _ ≤ b.reading + period := by
            gcongr
            exact (hlate b hbmem).1
        _ ≤ (start + n • period) + period := by
            gcongr
            exact (hwithin b hbmem).2
        _ = start + (n + 1) • period := by rw [succ_nsmul, add_assoc]
    have hcount := (nsmul_lt_nsmul_iff_left hperiod).1 (lt_of_add_lt_add_left hlt)
    rw [length_cons]
    omega

end Services

end Viiper.Verified.Timeline
