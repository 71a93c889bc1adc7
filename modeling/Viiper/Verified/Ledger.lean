import Mathlib.Data.List.Nodup

/-!
# Arrival order with removals

A queue numbers its arrivals `0, 1, 2, …`, serves from the front, and lets
waiting entries be dropped from any position.  `Ledger` is the account of such
a queue: what was served, followed by what still waits, is the list of all
arrivals in order without the dropped ones.
-/

namespace Viiper.Verified

open List

/-- The account of a first-come first-served queue with removals. -/
structure Ledger (served waiting dropped : List Nat) (arrived : Nat) : Prop where
  balance : served ++ waiting = (List.range arrived).filter fun t => decide (t ∉ dropped)
  dropped_lt : ∀ t ∈ dropped, t < arrived

theorem filter_notMem_eq_self {a b : List Nat} (h : a.Disjoint b) :
    a.filter (fun t => decide (t ∉ b)) = a := by
  rw [filter_eq_self]
  intro t ht
  simpa using fun htb => h ht htb

/-- Taking the middle part out of a list without repetitions. -/
theorem filter_notMem_middle {a b c : List Nat} (h : (a ++ b ++ c).Nodup) :
    (a ++ b ++ c).filter (fun t => decide (t ∉ b)) = a ++ c := by
  have hab := disjoint_of_nodup_append (List.Nodup.of_append_left h)
  have hcb : c.Disjoint b := fun t htc htb =>
    disjoint_of_nodup_append h (mem_append_right a htb) htc
  have hb : b.filter (fun t => decide (t ∉ b)) = [] := by
    rw [filter_eq_nil_iff]
    intro t ht
    simp [ht]
  rw [filter_append, filter_append, filter_notMem_eq_self hab, hb, filter_notMem_eq_self hcb,
    append_nil]

namespace Ledger

variable {served waiting dropped : List Nat} {arrived : Nat}

theorem empty : Ledger [] [] [] 0 := ⟨rfl, by simp⟩

section Ledger

variable (h : Ledger served waiting dropped arrived)

include h

theorem nodup : (served ++ waiting).Nodup := by
  rw [h.balance]
  exact nodup_range.filter _

theorem lt_arrived {t : Nat} (ht : t ∈ served ++ waiting) : t < arrived := by
  rw [h.balance, mem_filter, mem_range] at ht
  exact ht.1

theorem waiting_lt {t : Nat} (ht : t ∈ waiting) : t < arrived :=
  h.lt_arrived (mem_append_right _ ht)

theorem served_lt {t : Nat} (ht : t ∈ served) : t < arrived := h.lt_arrived (mem_append_left _ ht)

/-- A new arrival waits at the end. -/
theorem arrive : Ledger served (waiting ++ [arrived]) dropped (arrived + 1) where
  balance := by
    have hnew : arrived ∉ dropped := fun hd =>
      Nat.lt_irrefl _ (h.dropped_lt arrived hd)
    rw [range_succ, filter_append, ← h.balance, append_assoc]
    simp [hnew]
  dropped_lt := fun t ht => Nat.lt_succ_of_lt (h.dropped_lt t ht)

end Ledger

/-- The front of the queue is served. -/
theorem serve {t : Nat} (h : Ledger served (t :: waiting) dropped arrived) :
    Ledger (served ++ [t]) waiting dropped arrived where
  balance := by
    rw [← h.balance, append_assoc]
    rfl
  dropped_lt := h.dropped_lt

/-- A stretch of the queue is dropped. -/
theorem drop {before gone after : List Nat}
    (h : Ledger served (before ++ gone ++ after) dropped arrived) :
    Ledger served (before ++ after) (dropped ++ gone) arrived where
  balance := by
    have hnodup := h.nodup
    have hassoc : served ++ (before ++ gone ++ after) = (served ++ before) ++ gone ++ after := by
      simp only [append_assoc]
    rw [hassoc] at hnodup
    calc served ++ (before ++ after) = (served ++ before) ++ after := (append_assoc ..).symm
      _ = ((served ++ before) ++ gone ++ after).filter
            (fun t => decide (t ∉ gone)) := (filter_notMem_middle hnodup).symm
      _ = ((range arrived).filter fun t => decide (t ∉ dropped)).filter
            (fun t => decide (t ∉ gone)) := by rw [← hassoc, h.balance]
      _ = (range arrived).filter (fun t => decide (t ∉ dropped ++ gone)) := by
          rw [filter_filter]
          refine filter_congr fun t _ => ?_
          by_cases hd : t ∈ dropped <;> by_cases hg : t ∈ gone <;> simp [hd, hg]
  dropped_lt := by
    intro t ht
    rcases mem_append.1 ht with hd | hg
    · exact h.dropped_lt t hd
    · exact h.waiting_lt (by simp [hg])

end Ledger

end Viiper.Verified
