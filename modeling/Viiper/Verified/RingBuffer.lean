import Mathlib.Data.Nat.ModEq

/-!
# Ring buffers and the queue they denote

A ring is a backing array, the index of its oldest element, and a count.  Element `i` of
the queue lives in cell `(head + i) % cap`, so the array is a total function on `Nat` whose
cells outside `[0, cap)` are never addressed.

The operations are the unguarded ones of an array program: `push` writes the cell after the
last one, `pop` advances the head, `unpop` puts an element back in front, and `removeAt`
closes the gap by shifting every later element one cell down.  Each is characterised by one
equation on `window`, which reads the queue out.
-/

namespace Viiper.Verified

open Function List

/-- Backing array, index of the oldest element, number of elements. -/
structure RingBuffer (α : Type*) where
  buf : Nat → α
  (head count : Nat)

namespace RingBuffer

variable {α : Type*} (cap : Nat)

/-- Array cell of queue position `i`. -/
def cell (r : RingBuffer α) (i : Nat) : Nat := (r.head + i) % cap

/-- The queue held by a ring, oldest element first. -/
def window (r : RingBuffer α) : List α :=
  (List.range r.count).map (fun i => r.buf (r.cell cap i))

/-- The oldest element. -/
def front (r : RingBuffer α) : α := r.buf r.head

/-- Write one element behind the newest. -/
def push (r : RingBuffer α) (x : α) : RingBuffer α :=
  { r with
    buf := update r.buf (r.cell cap r.count) x
    count := r.count + 1 }

/-- Drop the oldest element. -/
def pop (r : RingBuffer α) : RingBuffer α :=
  { r with head := (r.head + 1) % cap, count := r.count - 1 }

/-- Overwrite the oldest element, as a pop which clears its cell does. -/
def clearFront (r : RingBuffer α) (z : α) : RingBuffer α :=
  { r with buf := update r.buf r.head z }

/-- Put one element back in front of the oldest. -/
def unpop (r : RingBuffer α) (x : α) : RingBuffer α :=
  { buf := update r.buf ((r.head + cap - 1) % cap) x
    head := (r.head + cap - 1) % cap
    count := r.count + 1 }

/-- Overwrite the element at queue position `i`. -/
def setAt (r : RingBuffer α) (i : Nat) (x : α) : RingBuffer α :=
  { r with buf := update r.buf (r.cell cap i) x }

/-- One iteration of the shifting loop. -/
def shiftCell (head : Nat) (buf : Nat → α) (i : Nat) : Nat → α :=
  update buf ((head + i) % cap) (buf ((head + i + 1) % cap))

/-- Remove the element at queue position `position` by moving every later
element one position down. -/
def removeAt (r : RingBuffer α) (position : Nat) : RingBuffer α :=
  { r with
    buf := (List.range' position (r.count - 1 - position)).foldl (shiftCell cap r.head) r.buf
    count := r.count - 1 }

/-- The index bounds an array program keeps. -/
structure WF (r : RingBuffer α) : Prop where
  head_lt : r.head < cap
  count_le : r.count ≤ cap

variable (r : RingBuffer α)

@[simp] theorem length_window : (r.window cap).length = r.count := by
  simp [window]

theorem window_eq_nil {r : RingBuffer α} (h : r.count = 0) : r.window cap = [] := by
  simp [window, h]

variable {cap}

/-- Two positions of one revolution never share a cell. -/
theorem cell_inj {head i j : Nat} (hi : i < cap) (hj : j < cap)
    (h : (head + i) % cap = (head + j) % cap) : i = j := by
  have hmod : i ≡ j [MOD cap] := Nat.ModEq.add_left_cancel' head h
  exact Nat.ModEq.eq_of_lt_of_lt hmod hi hj

private theorem map_buf_congr {buf buf' : Nat → α} {f : Nat → Nat} {n : Nat}
    (h : ∀ i < n, buf (f i) = buf' (f i)) :
    (range n).map (fun i => buf (f i)) = (range n).map (fun i => buf' (f i)) := by
  apply map_congr_left
  intro i hi
  exact h i (mem_range.1 hi)

theorem WF.push {r : RingBuffer α} (h : r.WF cap) (hlt : r.count < cap)
    (x : α) : (r.push cap x).WF cap :=
  ⟨h.head_lt, hlt⟩

theorem WF.pop {r : RingBuffer α} (h : r.WF cap) : (r.pop cap).WF cap :=
  ⟨Nat.mod_lt _ (Nat.zero_lt_of_lt h.head_lt), Nat.le_trans (Nat.sub_le _ _) h.count_le⟩

theorem WF.unpop {r : RingBuffer α} (h : r.WF cap) (hlt : r.count < cap)
    (x : α) : (r.unpop cap x).WF cap :=
  ⟨Nat.mod_lt _ (Nat.zero_lt_of_lt h.head_lt), hlt⟩

theorem WF.removeAt {r : RingBuffer α} (h : r.WF cap) (position : Nat) :
    (r.removeAt cap position).WF cap :=
  ⟨h.head_lt, Nat.le_trans (Nat.sub_le _ _) h.count_le⟩

/-- Pushing appends, provided a cell is free. -/
theorem window_push (x : α) (hlt : r.count < cap) :
    (r.push cap x).window cap = r.window cap ++ [x] := by
  have hold : ∀ i < r.count, update r.buf (r.cell cap r.count) x (r.cell cap i) =
        r.buf (r.cell cap i) := by
    intro i hi
    refine update_of_ne ?_ _ _
    intro hcell
    have := cell_inj (Nat.lt_trans hi hlt) hlt hcell
    omega
  have hmap := map_buf_congr (f := fun i => r.cell cap i) hold
  simp only [window, push, cell, range_succ, map_append, map_cons, map_nil, update_self]
  simp only [cell] at hmap
  rw [hmap]

/-- Overwriting a position is `set`. -/
theorem window_setAt {i : Nat} (x : α) (hi : i < r.count) (hcap : r.count ≤ cap) :
    (r.setAt cap i x).window cap = (r.window cap).set i x := by
  apply ext_getElem?
  intro j
  by_cases hj : j < r.count
  · by_cases hji : i = j
    · subst hji
      simp [window, setAt, cell, hi]
    · have hne : r.cell cap j ≠ r.cell cap i := fun hcell =>
        hji (cell_inj (Nat.lt_of_lt_of_le hi hcap) (Nat.lt_of_lt_of_le hj hcap) hcell.symm)
      simp only [cell] at hne
      simp [window, setAt, cell, hj, hji, update_of_ne hne]
  · have hle : r.count ≤ j := Nat.le_of_not_lt hj
    simp [window, setAt, hle]

/-- A nonempty window is its front followed by the popped window. -/
theorem window_eq_cons (hpos : 0 < r.count) (hhead : r.head < cap) :
    r.window cap = r.front :: (r.pop cap).window cap := by
  obtain ⟨n, hn⟩ : ∃ n, r.count = n + 1 := ⟨r.count - 1, by omega⟩
  simp only [window, pop, cell, front, hn, range_succ_eq_map,
    map_cons, map_map, Nat.add_zero, Nat.mod_eq_of_lt hhead,
    Nat.add_sub_cancel]
  congr 1
  apply map_congr_left
  intro i _
  simp only [comp, Nat.succ_eq_add_one]
  congr 1
  rw [Nat.mod_add_mod]
  congr 1
  omega

/-- Clearing the front cell is invisible to the popped window. -/
theorem window_pop_clearFront (z : α) (h : r.WF cap) :
    ((r.clearFront z).pop cap).window cap = (r.pop cap).window cap := by
  rcases Nat.eq_zero_or_pos r.count with hzero | hpos
  · have hnone : r.count - 1 = 0 := by omega
    rw [window_eq_nil cap hnone, window_eq_nil cap hnone]
  have hset : r.clearFront z = r.setAt cap 0 z := by
    simp [clearFront, setAt, cell, Nat.mod_eq_of_lt h.head_lt]
  have hcons := window_eq_cons (r.clearFront z) hpos h.head_lt
  rw [hset, window_setAt r z hpos h.count_le, window_eq_cons r hpos h.head_lt,
    set_cons_zero] at hcons
  rw [hset]
  exact (cons.inj hcons).2.symm

/-- Putting an element back in front is `cons`. -/
theorem window_unpop (x : α) (hlt : r.count < cap) :
    (r.unpop cap x).window cap = x :: r.window cap := by
  have hhead : (r.head + cap - 1) % cap < cap := Nat.mod_lt _ (by omega)
  -- the ring moved back by one cell, before the cell is written
  let back : RingBuffer α := ⟨r.buf, (r.head + cap - 1) % cap, r.count + 1⟩
  have hpop : (back.pop cap).window cap = r.window cap := by
    refine map_congr_left fun i _ => congrArg r.buf ?_
    simp only [cell, pop, back, Nat.mod_add_mod]
    rw [show r.head + cap - 1 + 1 + i = r.head + i + cap by omega, Nat.add_mod_right]
  have hcons := window_eq_cons (back.clearFront x) (Nat.succ_pos _) hhead
  rw [window_pop_clearFront back x ⟨hhead, hlt⟩, hpop] at hcons
  exact hcons.trans (congrArg (· :: _) (update_self ..))

/-- The shifting loop, cell by cell: after `n` iterations from `position`
the cells in between hold their successors. -/
private theorem foldl_shiftCell (head position n : Nat)
    (buf : Nat → α) {j : Nat} (hn : position + n < cap) (hj : j < cap) :
    (range' position n).foldl (shiftCell cap head) buf ((head + j) % cap) =
      if position ≤ j ∧ j < position + n then buf ((head + j + 1) % cap)
      else buf ((head + j) % cap) := by
  induction n generalizing j with
  | zero =>
    have : ¬(position ≤ j ∧ j < position + 0) := by omega
    rw [if_neg this]
    rfl
  | succ n ih =>
    rw [range'_1_concat, foldl_append]
    simp only [foldl_cons, foldl_nil, shiftCell]
    by_cases hlast : j = position + n
    · subst hlast
      rw [update_self, Nat.add_assoc head (position + n) 1,
        ih (by omega) (by omega), if_neg (by omega), if_pos (by omega)]
    · rw [update_of_ne (fun h => hlast (cell_inj hj (by omega) h)), ih (by omega) hj]
      by_cases hin : position ≤ j ∧ j < position + n
      · rw [if_pos hin, if_pos (by omega)]
      · rw [if_neg hin, if_neg (by omega)]

/-- **The shifting loop denotes `eraseIdx`.** -/
theorem window_removeAt {position : Nat} (hpos : position < r.count) (h : r.WF cap) :
    (r.removeAt cap position).window cap = (r.window cap).eraseIdx position := by
  have hcap := h.count_le
  apply ext_getElem
  · simp [length_eraseIdx, hpos, removeAt]
  · intro i hi hi'
    have hi : i < r.count - 1 := by simpa [removeAt] using hi
    simp only [window, removeAt, cell, getElem_map, getElem_range]
    rw [foldl_shiftCell r.head position (r.count - 1 - position) r.buf
      (by omega) (by omega), getElem_eraseIdx]
    by_cases hip : i < position
    · rw [if_neg (by omega), dif_pos hip]
      simp
    · rw [if_pos (by omega), dif_neg hip]
      simp [Nat.add_assoc]

end RingBuffer

end Viiper.Verified
