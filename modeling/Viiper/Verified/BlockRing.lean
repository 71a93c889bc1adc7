import Viiper.Verified.RingBuffer

/-!
# Block transfers through a ring

A stream buffer moves whole blocks through a ring.  A block which runs past
the end of the array is copied in two parts: up to the end, and then from the
first cell.  `writeBlock` and `readBlock` are these two-part copies and
`discardBlock` drops the oldest elements, restarting at cell zero when nothing
is left.
-/

namespace Viiper.Verified.RingBuffer

open List

variable {α : Type*}

/-- Overwrite the cells from `start` on by the elements of `src`. -/
def copyInto (buf : Nat → α) (start : Nat) (src : List α) : Nat → α :=
  fun i => if start ≤ i then (src[i - start]?).getD (buf i) else buf i

section Operations

variable (cap : Nat)

/-- Append a block in two parts. -/
def writeBlock (r : RingBuffer α) (src : List α) : RingBuffer α :=
  let tail := (r.head + r.count) % cap
  let first := min src.length (cap - tail)
  { r with
    buf := copyInto (copyInto r.buf tail (src.take first)) 0 ((src.drop first).take cap)
    count := r.count + src.length }

/-- The `n` oldest elements, read in two parts. -/
def readBlock (r : RingBuffer α) (n : Nat) : List α :=
  let first := min n (cap - r.head)
  (List.range first).map (fun i => r.buf (r.head + i)) ++ (List.range (n - first)).map r.buf

/-- Drop the `n` oldest elements. -/
def discardBlock (r : RingBuffer α) (n : Nat) : RingBuffer α :=
  if n = 0 then r
  else if r.count ≤ n then { r with head := 0, count := 0 }
  else { r with head := (r.head + n) % cap, count := r.count - n }

end Operations

@[simp] theorem writeBlock_head (cap : Nat) (r : RingBuffer α) (src : List α) :
    (r.writeBlock cap src).head = r.head := rfl

@[simp] theorem writeBlock_count (cap : Nat) (r : RingBuffer α) (src : List α) :
    (r.writeBlock cap src).count = r.count + src.length := rfl

theorem copyInto_hit (buf : Nat → α) (start : Nat) (src : List α) {j : Nat}
    (hj : j < src.length) : copyInto buf start src (start + j) = src[j] := by
  have hsub : start + j - start = j := by omega
  simp [copyInto, hsub, getElem?_eq_getElem hj]

variable (r : RingBuffer α) {src : List α}

theorem copyInto_miss (buf : Nat → α) {start i : Nat} (h : i < start ∨ start + src.length ≤ i) :
    copyInto buf start src i = buf i := by
  rcases h with h | h
  · simp [copyInto, Nat.not_le.2 h]
  have hlen : src.length ≤ i - start := by omega
  simp [copyInto, getElem?_eq_none hlen]

variable {cap : Nat}

/-- Where the `j`-th element after cell `tail` lies when a block is split at
the end of the array. -/
private theorem wrap_cell {tail j : Nat} (htail : tail < cap) (hj : j < cap) :
    (tail + j) % cap = if j < cap - tail then tail + j else j - (cap - tail) := by
  by_cases h : j < cap - tail
  · rw [if_pos h, Nat.mod_eq_of_lt (by omega)]
  rw [if_neg h, Nat.mod_eq_sub_mod (by omega), Nat.mod_eq_of_lt (by omega)]
  omega

/-- The two copies of `writeBlock` put element `j` of the block into the
`j`-th cell after the tail. -/
private theorem writeBlock_hit (src : List α) (hcap : 0 < cap) (hlen : src.length ≤ cap) {j : Nat}
    (hj : j < src.length) :
    (r.writeBlock cap src).buf (((r.head + r.count) % cap + j) % cap) = src[j] := by
  have htail : (r.head + r.count) % cap < cap := Nat.mod_lt _ hcap
  simp only [writeBlock]
  generalize (r.head + r.count) % cap = tail at htail ⊢
  rw [wrap_cell htail (by omega)]
  by_cases hfirst : j < cap - tail
  · -- the second part ends before the tail, so the first copy is still there
    rw [if_pos hfirst, copyInto_miss]
    · rw [copyInto_hit (j := j) _ _ _ (by simp; omega)]
      simp
    · right
      simp only [length_take, length_drop]
      omega
  · rw [if_neg hfirst]
    have hmin : min src.length (cap - tail) = cap - tail := by omega
    have hit := copyInto_hit (copyInto r.buf tail (src.take (min src.length (cap - tail)))) 0
      ((src.drop (min src.length (cap - tail))).take cap)
      (j := j - (cap - tail)) (by simp; omega)
    rw [Nat.zero_add] at hit
    rw [hit]
    simp only [getElem_take, getElem_drop, hmin]
    congr 1
    omega

/-- Cells which hold queued elements are not touched by a block that fits. -/
private theorem writeBlock_miss (hcap : 0 < cap) (hfit : r.count + src.length ≤ cap) {i : Nat}
    (hi : i < r.count) :
    (r.writeBlock cap src).buf ((r.head + i) % cap) = r.buf ((r.head + i) % cap) := by
  have htail : (r.head + r.count) % cap < cap := Nat.mod_lt _ hcap
  have hcell : (r.head + i) % cap < cap := Nat.mod_lt _ hcap
  -- the cell of element `i` is none of the cells after the tail
  have hne : ∀ j < src.length, (r.head + i) % cap ≠ ((r.head + r.count) % cap + j) % cap := by
    intro j hj heq
    rw [Nat.mod_add_mod, Nat.add_assoc] at heq
    have := cell_inj (by omega) (by omega) heq
    omega
  simp only [writeBlock]
  generalize (r.head + r.count) % cap = tail at htail hne ⊢
  generalize (r.head + i) % cap = c at hcell hne ⊢
  have hfar : ∀ j < src.length, c ≠ if j < cap - tail then tail + j else j - (cap - tail) := by
    intro j hj
    rw [← wrap_cell htail (by omega)]
    exact hne j hj
  rw [copyInto_miss, copyInto_miss]
  · by_contra hin
    simp only [length_take, not_or, Nat.not_lt, Nat.not_le] at hin
    have := hfar (c - tail) (by omega)
    rw [if_pos (by omega)] at this
    omega
  · by_contra hin
    simp only [length_take, length_drop, not_or, Nat.not_lt, Nat.not_le] at hin
    have := hfar (c + (cap - tail)) (by omega)
    rw [if_neg (by omega)] at this
    omega

/-- **A block which fits is appended.** -/
theorem window_writeBlock (hcap : 0 < cap) (hfit : r.count + src.length ≤ cap) :
    (r.writeBlock cap src).window cap = r.window cap ++ src := by
  apply ext_getElem
  · simp [writeBlock]
  · intro i hi _
    have hi : i < r.count + src.length := by simpa [writeBlock] using hi
    rw [getElem_append]
    by_cases hold : i < r.count
    · rw [dif_pos (by simpa using hold)]
      simpa [window, cell] using writeBlock_miss r hcap hfit hold
    · rw [dif_neg (by simpa using hold)]
      have hit := writeBlock_hit r src hcap (by omega) (j := i - r.count) (by omega)
      rw [Nat.mod_add_mod, Nat.add_assoc, Nat.add_sub_cancel' (by omega)] at hit
      simpa [window, cell] using hit

@[simp] theorem length_readBlock (n : Nat) : (r.readBlock cap n).length = n := by
  simp only [readBlock, length_append, length_map, length_range]
  omega

/-- **The two parts read are the oldest elements in order.** -/
theorem readBlock_eq_take (h : r.WF cap) {n : Nat}
    (hn : n ≤ r.count) : r.readBlock cap n = (r.window cap).take n := by
  have hcount := h.count_le
  apply ext_getElem
  · simp [hn]
  · intro i hi _
    have hi : i < n := by simpa using hi
    simp only [getElem_take, window, cell, getElem_map, getElem_range]
    rw [wrap_cell h.head_lt (by omega)]
    simp only [readBlock, getElem_append, length_map, length_range, getElem_map, getElem_range]
    by_cases hpart : i < cap - r.head
    · rw [dif_pos (by omega), if_pos hpart]
    rw [dif_neg (by omega), if_neg hpart]
    congr 1
    omega

theorem WF.writeBlock {r : RingBuffer α} (h : r.WF cap)
    (hfit : r.count + src.length ≤ cap) : (r.writeBlock cap src).WF cap :=
  ⟨h.head_lt, hfit⟩

theorem WF.discardBlock {r : RingBuffer α} (h : r.WF cap) (n : Nat) :
    (r.discardBlock cap n).WF cap := by
  have hpos := Nat.zero_lt_of_lt h.head_lt
  have hcount := h.count_le
  unfold RingBuffer.discardBlock
  split
  · exact h
  split
  · exact ⟨hpos, Nat.zero_le _⟩
  refine ⟨Nat.mod_lt _ hpos, ?_⟩
  change r.count - n ≤ cap
  omega

theorem count_discardBlock (n : Nat) : (r.discardBlock cap n).count = r.count - n := by
  unfold discardBlock
  split
  · omega
  split
  · simp only
    omega
  · rfl

theorem window_discardBlock (n : Nat) :
    (r.discardBlock cap n).window cap = (r.window cap).drop n := by
  apply ext_getElem
  · simp [count_discardBlock]
  · intro i hi _
    have hi : i < r.count - n := by simpa [count_discardBlock] using hi
    simp only [getElem_drop, window, cell, getElem_map, getElem_range]
    by_cases hn : n = 0
    · simp [discardBlock, hn]
    rw [discardBlock, if_neg hn, if_neg (by omega), Nat.mod_add_mod, Nat.add_assoc]

end Viiper.Verified.RingBuffer
