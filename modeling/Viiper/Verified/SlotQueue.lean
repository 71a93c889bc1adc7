import Mathlib.Data.List.Nodup
import Mathlib.Data.List.Perm.Basic
import Viiper.Verified.RingBuffer

/-!
# A queue over a table of slots

A fixed table of slots, a stack of the free slot indices, and a ring of the indices in use,
oldest first.  A slot is taken from the stack and queued at the end; it may be rewritten in
place; and it is taken out at any position, which blanks it and pushes its index back.

Each operation is one operation on the list of the table's `jobs`.  A `key` which tells the
jobs apart makes an index held across other operations safe to use: `peek` compares the key
first, and finds the job if and only if it is still queued.
-/

namespace Viiper.Verified

open Function List

/-- The table, the ring of indices in use and the stack of free indices. -/
structure SlotQueue (α : Type*) where
  slots : Nat → α
  order : RingBuffer Nat
  free : List Nat

namespace SlotQueue

variable {α κ : Type*} (depth : Nat)

/-- All slots blank and free, slot zero on top of the stack. -/
def blank (z : α) : SlotQueue α :=
  { slots := fun _ => z
    order := ⟨fun _ => 0, 0, 0⟩
    free := (List.range depth).reverse }

/-- The indices in use, oldest first. -/
def indices (q : SlotQueue α) : List Nat := q.order.window depth

/-- The jobs, oldest first. -/
def jobs (q : SlotQueue α) : List α := (q.indices depth).map q.slots

/-- Take a free slot for a new job, if there is one. -/
def alloc (q : SlotQueue α) (x : α) : Option (SlotQueue α) :=
  match q.free.getLast? with
  | none => none
  | some idx => some
      { slots := update q.slots idx x
        order := q.order.push depth idx
        free := q.free.dropLast }

def write (q : SlotQueue α) (idx : Nat) (x : α) : SlotQueue α :=
  { q with slots := update q.slots idx x }

/-- A ring which ran empty starts over at cell zero. -/
def rewindEmpty (r : RingBuffer Nat) : RingBuffer Nat :=
  if r.count = 0 then { r with head := 0 } else r

/-- Take a slot out of the ring, wherever it stands, and free it. -/
def remove (z : α) (q : SlotQueue α) (idx : Nat) : SlotQueue α :=
  match (q.indices depth).findIdx? (· == idx) with
  | none => q
  | some position =>
    { slots := update q.slots idx z
      order := rewindEmpty (q.order.removeAt depth position)
      free := q.free ++ [idx] }

/-- What a pass over the queue does with one job: nothing, take it out, or
rewrite it and make a note. -/
inductive Verdict (α β : Type*)
  | skip
  | drop
  | mark (y : α) (note : β)

/-- The job after the verdict on it. -/
def Verdict.result {α β : Type*} (x : α) : Verdict α β → Option α
  | .skip => some x
  | .drop => none
  | .mark y _ => some y

def Verdict.note {α β : Type*} : Verdict α β → Option β
  | .skip => none
  | .drop => none
  | .mark _ b => some b

/-- One pass over the first positions, the last of them first, collecting the
notes. -/
def scanBack {β : Type*} (z : α) (visit : Nat → α → Verdict α β) :
    Nat → SlotQueue α → List β → SlotQueue α × List β
  | 0, q, notes => (q, notes)
  | n + 1, q, notes =>
    let idx := q.order.buf (q.order.cell depth n)
    match visit idx (q.slots idx) with
    | .skip => scanBack z visit n q notes
    | .drop => scanBack z visit n (q.remove depth z idx) notes
    | .mark y b => scanBack z visit n (q.write idx y) (notes ++ [b])

/-- Look through an index, if its slot is live and still has the key. -/
def peek [DecidableEq κ] (live : α → Bool) (key : α → κ) (q : SlotQueue α) (idx : Nat)
    (k : κ) : Option α :=
  if idx < depth ∧ live (q.slots idx) ∧ key (q.slots idx) = k then
    some (q.slots idx)
  else none

/-- The representation: the indices are partitioned, and free slots are blank. -/
structure WF (z : α) (q : SlotQueue α) : Prop where
  ring : q.order.WF depth
  partition : (q.free ++ q.indices depth).Perm (List.range depth)
  blank : ∀ i ∈ q.free, q.slots i = z

variable {depth} {z : α} {q : SlotQueue α}

theorem WF.nodup (h : q.WF depth z) : (q.free ++ q.indices depth).Nodup :=
  h.partition.nodup_iff.2 nodup_range

theorem WF.indices_nodup (h : q.WF depth z) : (q.indices depth).Nodup :=
  List.Nodup.of_append_right h.nodup

variable {i : Nat}

theorem WF.not_free (h : q.WF depth z) (hi : i ∈ q.indices depth) : i ∉ q.free :=
  fun hf => disjoint_of_nodup_append h.nodup hf hi

/-- A slot which is not in use is blank. -/
theorem WF.mem_indices (h : q.WF depth z) (hi : i < depth)
    (hz : q.slots i ≠ z) : i ∈ q.indices depth := by
  have hmem := h.partition.mem_iff.2 (mem_range.2 hi)
  rcases mem_append.1 hmem with hf | hu
  · exact absurd (h.blank i hf) hz
  · exact hu

theorem WF.lt_depth (h : q.WF depth z) (hi : i ∈ q.indices depth) : i < depth :=
  mem_range.1 (h.partition.mem_iff.1 (mem_append_right _ hi))

theorem mem_jobs {x : α} : x ∈ q.jobs depth ↔ ∃ i ∈ q.indices depth, q.slots i = x :=
  mem_map

theorem wf_blank (hpos : 0 < depth) (z : α) : (SlotQueue.blank depth z).WF depth z where
  ring := ⟨hpos, Nat.zero_le _⟩
  partition := by
    show ((range depth).reverse ++ []).Perm _
    rw [append_nil]
    exact reverse_perm _
  blank := fun _ _ => rfl

/-! ## Taking a slot -/

section Alloc

variable {x : α} {q' : SlotQueue α}

variable (h : q.WF depth z) (ha : q.alloc depth x = some q')

include h ha

/-- What taking a slot does to the indices. -/
theorem WF.alloc_spec : ∃ idx, q.free = q'.free ++ [idx] ∧ q'.slots = update q.slots idx x ∧
      q'.order.WF depth ∧ q'.indices depth = q.indices depth ++ [idx] := by
  unfold alloc at ha
  split at ha
  · cases ha
  rename_i idx hlast
  cases ha
  obtain ⟨free, hfree⟩ := getLast?_eq_some_iff.1 hlast
  have hlen := h.partition.length_eq
  have hwin : (q.indices depth).length = q.order.count := RingBuffer.length_window _ _
  rw [length_append, hwin, hfree, length_append, length_singleton, length_range] at hlen
  have hlt : q.order.count < depth := by omega
  exact ⟨idx, by rw [hfree, dropLast_concat], rfl, h.ring.push hlt idx,
    RingBuffer.window_push q.order idx hlt⟩

theorem WF.alloc : q'.WF depth z := by
  obtain ⟨idx, hfree, hslots, hring, hind⟩ := h.alloc_spec ha
  refine ⟨hring, ?_, ?_⟩
  · rw [hind]
    refine List.Perm.trans ?_ h.partition
    rw [hfree, append_assoc]
    exact List.Perm.append_left _ perm_append_comm
  · intro i hi
    have hnodup := h.nodup
    rw [hfree] at hnodup
    have hne : i ≠ idx := by
      rintro rfl
      exact disjoint_of_nodup_append (List.Nodup.of_append_left hnodup) hi (by simp)
    rw [hslots, update_of_ne hne]
    exact h.blank i (by rw [hfree]; exact mem_append_left _ hi)

/-- A new job goes to the end. -/
theorem jobs_alloc : q'.jobs depth = q.jobs depth ++ [x] := by
  obtain ⟨idx, hfree, hslots, -, hind⟩ := h.alloc_spec ha
  have hout : idx ∉ q.indices depth := by
    intro hin
    exact h.not_free hin (by rw [hfree]; simp)
  unfold jobs
  rw [hind, hslots, map_append, map_singleton, update_self]
  congr 1
  refine map_congr_left fun i hi => ?_
  rw [update_of_ne]
  rintro rfl
  exact hout hi

end Alloc

/-! ## Rewriting and removing -/

section At

variable {idx n : Nat}

theorem length_jobs : (q.jobs depth).length = q.order.count := by
  rw [jobs, length_map, indices, RingBuffer.length_window]

theorem indices_getElem? (hn : n < q.order.count) :
    (q.indices depth)[n]? = some (q.order.buf (q.order.cell depth n)) := by
  simp [indices, RingBuffer.window, hn]

theorem jobs_getElem? (hn : n < q.order.count) :
    (q.jobs depth)[n]? = some (q.slots (q.order.buf (q.order.cell depth n))) := by
  rw [jobs, getElem?_map, indices_getElem? hn, Option.map_some]

@[simp] theorem indices_write (x : α) : (q.write idx x).indices depth = q.indices depth :=
  rfl

variable (h : q.WF depth z)

include h

theorem WF.write (hidx : idx ∈ q.indices depth) (x : α) : (q.write idx x).WF depth z where
  ring := h.ring
  partition := h.partition
  blank := by
    intro i hi
    have hne : i ≠ idx := by
      rintro rfl
      exact h.not_free hidx hi
    show update q.slots idx x i = z
    rw [update_of_ne hne]
    exact h.blank i hi

theorem jobs_write_at (hn : (q.indices depth)[n]? = some idx) (x : α) :
    (q.write idx x).jobs depth = (q.jobs depth).set n x := by
  obtain ⟨hlt, rfl⟩ := List.getElem?_eq_some_iff.1 hn
  show (q.indices depth).map (update q.slots _ x) = _
  rw [List.Nodup.map_update h.indices_nodup, if_pos (getElem_mem hlt),
    List.Nodup.idxOf_getElem h.indices_nodup]
  rfl

/-- What taking a slot out does to the indices. -/
theorem WF.remove_spec (hn : (q.indices depth)[n]? = some idx) :
    ∃ order : RingBuffer Nat, order.WF depth ∧
      order.window depth = (q.indices depth).eraseIdx n ∧ order.count = q.order.count - 1 ∧
      q.remove depth z idx =
        { slots := update q.slots idx z, order := order, free := q.free ++ [idx] } := by
  obtain ⟨hlt, hat⟩ := List.getElem?_eq_some_iff.1 hn
  have hpos : (q.indices depth).findIdx? (· == idx) = some n := by
    rw [findIdx?_eq_some_iff_getElem]
    refine ⟨hlt, by simp [hat], fun j hj hbad => ?_⟩
    have heq : (q.indices depth)[j] = (q.indices depth)[n] := by
      rw [hat]
      simpa using hbad
    have := (List.Nodup.getElem_inj_iff h.indices_nodup).1 heq
    omega
  have hlt' : n < q.order.count := by
    rwa [indices, RingBuffer.length_window] at hlt
  have hring : (q.order.removeAt depth n).WF depth := h.ring.removeAt n
  have hdrop := RingBuffer.window_removeAt q.order hlt' h.ring
  refine ⟨rewindEmpty (q.order.removeAt depth n), ?_, ?_, ?_, ?_⟩
  · unfold rewindEmpty
    split
    · exact ⟨Nat.zero_lt_of_lt hring.head_lt, hring.count_le⟩
    · exact hring
  · unfold rewindEmpty
    split
    next hzero =>
      rw [indices, ← hdrop, RingBuffer.window_eq_nil _ hzero, RingBuffer.window_eq_nil]
      exact hzero
    · exact hdrop
  · unfold rewindEmpty
    split <;> rfl
  · unfold SlotQueue.remove
    rw [hpos]

theorem WF.remove (idx : Nat) : (q.remove depth z idx).WF depth z := by
  by_cases hidx : idx ∈ q.indices depth
  · obtain ⟨n, hn⟩ := getElem?_of_mem hidx
    obtain ⟨order, hring, hwin, -, heq⟩ := h.remove_spec hn
    obtain ⟨hlt, hat⟩ := List.getElem?_eq_some_iff.1 hn
    rw [heq]
    refine ⟨hring, ?_, ?_⟩
    · show (q.free ++ [idx] ++ order.window depth).Perm _
      rw [hwin]
      refine List.Perm.trans ?_ h.partition
      rw [append_assoc]
      refine List.Perm.append_left _ ?_
      rw [singleton_append, ← hat]
      exact getElem_cons_eraseIdx_perm hlt
    · intro i hi
      show update q.slots idx z i = z
      rw [update_apply]
      split
      · rfl
      next hne =>
        rcases mem_append.1 hi with hf | hs
        · exact h.blank i hf
        · exact absurd (mem_singleton.1 hs) hne
  · unfold SlotQueue.remove
    have hnone : (q.indices depth).findIdx? (· == idx) = none := by
      rw [findIdx?_eq_none_iff]
      intro i hi
      simp only [beq_eq_false_iff_ne, ne_eq]
      rintro rfl
      exact hidx hi
    rw [hnone]
    exact h

/-- The slots still in use are not touched by a removal. -/
theorem WF.map_remove (hn : (q.indices depth)[n]? = some idx) {l : List Nat}
    (hl : ∀ i ∈ l, i ≠ idx) : l.map (q.remove depth z idx).slots = l.map q.slots := by
  obtain ⟨order, -, -, -, heq⟩ := h.remove_spec hn
  rw [heq]
  exact map_congr_left fun i hi => update_of_ne (hl i hi) _ _

theorem WF.indices_remove (hn : (q.indices depth)[n]? = some idx) :
    (q.remove depth z idx).indices depth = (q.indices depth).eraseIdx n := by
  obtain ⟨order, -, hwin, -, heq⟩ := h.remove_spec hn
  rw [heq]
  exact hwin

theorem jobs_remove_at (hn : (q.indices depth)[n]? = some idx) :
    (q.remove depth z idx).jobs depth = (q.jobs depth).eraseIdx n := by
  obtain ⟨hlt, hat⟩ := List.getElem?_eq_some_iff.1 hn
  rw [jobs, h.indices_remove hn, jobs, eraseIdx_map, h.map_remove hn]
  intro i hi
  rw [← hat]
  rintro rfl
  obtain ⟨j, hne, hj⟩ := mem_eraseIdx_iff_getElem?.1 hi
  obtain ⟨hjlt, hjat⟩ := List.getElem?_eq_some_iff.1 hj
  exact hne ((List.Nodup.getElem_inj_iff h.indices_nodup).1 hjat)

end At

/-! ## Jobs by key -/

section ByKey

variable {key : α → κ} {idx : Nat} {k : κ}

/-- A key which tells the jobs apart tells the slots apart. -/
theorem key_inj (hkey : ((q.jobs depth).map key).Nodup) {j : Nat} (hi : i ∈ q.indices depth)
    (hj : j ∈ q.indices depth) (heq : key (q.slots i) = key (q.slots j)) : i = j := by
  rw [jobs, map_map] at hkey
  exact inj_on_of_nodup_map hkey hi hj heq

theorem jobs_write [DecidableEq κ] (hkey : ((q.jobs depth).map key).Nodup)
    (hidx : idx ∈ q.indices depth) (f : α → α) :
    (q.write idx (f (q.slots idx))).jobs depth =
      (q.jobs depth).map fun y => if key y = key (q.slots idx) then f y else y := by
  unfold jobs
  rw [indices_write, map_map]
  refine map_congr_left fun i hi => ?_
  show update q.slots idx _ i = if _ then _ else _
  by_cases heq : i = idx
  · rw [heq, update_self, if_pos rfl]
  · rw [update_of_ne heq, if_neg fun hk => heq (key_inj hkey hi hidx hk)]

theorem jobs_remove [DecidableEq κ] (h : q.WF depth z)
    (hkey : ((q.jobs depth).map key).Nodup) (hidx : idx ∈ q.indices depth) :
    (q.remove depth z idx).jobs depth =
      (q.jobs depth).filter fun y => key y ≠ key (q.slots idx) := by
  obtain ⟨n, hn⟩ := getElem?_of_mem hidx
  obtain ⟨hlt, hat⟩ := List.getElem?_eq_some_iff.1 hn
  have herase : (q.indices depth).eraseIdx n = (q.indices depth).filter (· ≠ idx) := by
    rw [← List.Nodup.erase_getElem h.indices_nodup n hlt, hat,
      List.Nodup.erase_eq_filter h.indices_nodup]
    refine filter_congr fun j _ => ?_
    by_cases hj : j = idx <;> simp [hj]
  have hfilter : (q.indices depth).filter (· ≠ idx) =
      (q.indices depth).filter ((fun y => decide (key y ≠ key (q.slots idx))) ∘ q.slots) := by
    refine filter_congr fun i hi => ?_
    refine decide_eq_decide.2 (not_congr ⟨fun h => by rw [h], fun hk => ?_⟩)
    exact key_inj hkey hi hidx hk
  rw [jobs_remove_at h hn, jobs, eraseIdx_map, herase, hfilter, filter_map]

theorem key_write {y : α} (hy : key y = key (q.slots i)) (j : Nat) :
    key ((q.write i y).slots j) = key (q.slots j) := by
  show key (update q.slots i y j) = key (q.slots j)
  by_cases hj : j = i
  · rw [hj, update_self, hy]
  · rw [update_of_ne hj]

theorem keys_write {y : α} (hy : key y = key (q.slots i)) :
    ((q.write i y).jobs depth).map key = (q.jobs depth).map key := by
  rw [jobs, jobs, map_map, map_map, indices_write]
  exact map_congr_left fun j _ => key_write hy j

theorem keys_remove (h : q.WF depth z) (hkey : ((q.jobs depth).map key).Nodup)
    (hi : i ∈ q.indices depth) : (((q.remove depth z i).jobs depth).map key).Nodup := by
  obtain ⟨n, hn⟩ := getElem?_of_mem hi
  rw [jobs_remove_at h hn]
  exact hkey.sublist ((eraseIdx_sublist _ _).map key)

variable (depth key) in
/-- Index `idx` was handed out for the job with key `k`: that job is still there,
or no job has the key. -/
def Tracked (q : SlotQueue α) (idx : Nat) (k : κ) : Prop :=
  (idx ∈ q.indices depth ∧ key (q.slots idx) = k) ∨ ∀ x ∈ q.jobs depth, key x ≠ k

theorem Tracked.alloc {x : α} {q' : SlotQueue α} (ht : q.Tracked depth key idx k) (h : q.WF depth z)
    (ha : q.alloc depth x = some q') (hx : key x ≠ k) : q'.Tracked depth key idx k := by
  rcases ht with ⟨hidx, hk⟩ | hgone
  · obtain ⟨new, hfree, hslots, -, hind⟩ := h.alloc_spec ha
    have hne : idx ≠ new := by
      rintro rfl
      exact h.not_free hidx (by rw [hfree]; simp)
    refine .inl ⟨by rw [hind]; exact mem_append_left _ hidx, ?_⟩
    rw [hslots, update_of_ne hne]
    exact hk
  · refine .inr fun y hy => ?_
    rw [jobs_alloc h ha] at hy
    rcases mem_append.1 hy with hy | hy
    · exact hgone y hy
    rw [mem_singleton.1 hy]
    exact hx

theorem Tracked.write (ht : q.Tracked depth key idx k) {y : α}
    (hy : key y = key (q.slots i)) : (q.write i y).Tracked depth key idx k := by
  rcases ht with ⟨hidx, hk⟩ | hgone
  · exact .inl ⟨hidx, (key_write hy idx).trans hk⟩
  refine .inr fun x hx => ?_
  obtain ⟨j, hj, rfl⟩ := mem_jobs.1 hx
  rw [key_write hy]
  exact hgone _ (mem_jobs.2 ⟨j, hj, rfl⟩)

theorem Tracked.remove [DecidableEq κ] (ht : q.Tracked depth key idx k) (h : q.WF depth z)
    (hkey : ((q.jobs depth).map key).Nodup) (hi : i ∈ q.indices depth) :
    (q.remove depth z i).Tracked depth key idx k := by
  have hjobs := jobs_remove h hkey hi
  rcases ht with ⟨hidx, hk⟩ | hgone
  · by_cases heq : idx = i
    · refine .inr fun x hx => ?_
      rw [hjobs, mem_filter] at hx
      rw [← hk, heq]
      simpa using hx.2
    · obtain ⟨n, hn⟩ := getElem?_of_mem hi
      obtain ⟨order, -, -, -, hrem⟩ := h.remove_spec hn
      obtain ⟨hlt, hat⟩ := List.getElem?_eq_some_iff.1 hn
      refine .inl ⟨?_, ?_⟩
      · rw [h.indices_remove hn, ← List.Nodup.erase_getElem h.indices_nodup n hlt, hat]
        exact (mem_erase_of_ne heq).2 hidx
      · rw [hrem]
        show key (update q.slots i z idx) = k
        rw [update_of_ne heq]
        exact hk
  · refine .inr fun x hx => hgone x ?_
    rw [hjobs] at hx
    exact mem_of_mem_filter hx

/-- **An index with its key is a lookup by key**, as long as free slots are dead. -/
theorem Tracked.peek_eq [DecidableEq κ] {live : α → Bool} (ht : q.Tracked depth key idx k)
    (h : q.WF depth z) (hkey : ((q.jobs depth).map key).Nodup)
    (hlive : ∀ x ∈ q.jobs depth, live x) (hz : live z = false) :
    q.peek depth live key idx k = (q.jobs depth).find? fun x => key x = k := by
  unfold peek
  rcases ht with ⟨hidx, hk⟩ | hgone
  · have hmem := mem_jobs.2 ⟨idx, hidx, rfl⟩
    rw [if_pos ⟨h.lt_depth hidx, hlive _ hmem, hk⟩]
    refine Eq.symm (find?_eq_some_iff_append.2 ⟨by simpa using hk, ?_⟩)
    obtain ⟨l₁, l₂, hsplit⟩ := append_of_mem hmem
    refine ⟨l₁, l₂, hsplit, fun x hx => ?_⟩
    rw [hsplit, map_append, map_cons] at hkey
    have hdis := disjoint_of_nodup_append hkey
    simp only [Bool.not_eq_eq_eq_not, Bool.not_true, decide_eq_false_iff_not]
    intro hxk
    exact hdis (mem_map_of_mem hx) (by rw [hxk, ← hk]; exact mem_cons_self)
  · rw [if_neg]
    · refine Eq.symm (find?_eq_none.2 fun x hx => ?_)
      simpa using hgone x hx
    · rintro ⟨hlt, hl, hk⟩
      have hne : q.slots idx ≠ z := fun heq => by rw [heq, hz] at hl; cases hl
      exact hgone _ (mem_jobs.2 ⟨idx, h.mem_indices hlt hne, rfl⟩) hk

end ByKey

/-! ## A pass over the queue -/

section Scan

variable {β : Type*} {visit : Nat → α → Verdict α β}

/-- What one verdict does: the positions before are left alone, and the job at the
position is replaced by its result. -/
theorem WF.visit_spec (h : q.WF depth z) {n : Nat} (hn : n < q.order.count) {f : α → Option α}
    (hf : ∀ i x, (visit i x).result x = f x) (notes : List β) :
    ∃ q' : SlotQueue α, q'.WF depth z ∧ n ≤ q'.order.count ∧
      (q'.indices depth).take n = (q.indices depth).take n ∧
      (q'.jobs depth).take n = (q.jobs depth).take n ∧
      (q'.jobs depth).drop n =
        (f (q.slots (q.order.buf (q.order.cell depth n)))).toList ++ (q.jobs depth).drop (n + 1) ∧
      scanBack depth z visit (n + 1) q notes = scanBack depth z visit n q'
        (notes ++ (visit (q.order.buf (q.order.cell depth n))
          (q.slots (q.order.buf (q.order.cell depth n)))).note.toList) := by
  have hidx : (q.indices depth)[n]? = _ := indices_getElem? hn
  have hjob : (q.jobs depth)[n]? = _ := jobs_getElem? hn
  set idx := q.order.buf (q.order.cell depth n) with hidxdef
  have hmem := mem_of_getElem? hidx
  obtain ⟨hlt, hat⟩ := List.getElem?_eq_some_iff.1 hjob
  have hresult := hf idx (q.slots idx)
  have hscan : scanBack depth z visit (n + 1) q notes =
      match visit idx (q.slots idx) with
      | .skip => scanBack depth z visit n q notes
      | .drop => scanBack depth z visit n (q.remove depth z idx) notes
      | .mark y b => scanBack depth z visit n (q.write idx y) (notes ++ [b]) := rfl
  rw [hscan]
  rcases hv : visit idx (q.slots idx) with _ | _ | ⟨y, b⟩
  · rw [hv] at hresult
    refine ⟨q, h, Nat.le_of_lt hn, rfl, rfl, ?_, ?_⟩
    · rw [← hresult, drop_eq_getElem_cons hlt, hat]
      rfl
    · rw [Verdict.note, Option.toList_none, append_nil]
  · rw [hv] at hresult
    obtain ⟨order, -, hwin, hcount, hrem⟩ := h.remove_spec hidx
    refine ⟨q.remove depth z idx, h.remove idx, ?_, ?_, ?_, ?_, ?_⟩
    · rw [hrem, hcount]
      omega
    · rw [h.indices_remove hidx, take_eraseIdx_eq_take_of_le _ _ _ (Nat.le_refl n)]
    · rw [jobs_remove_at h hidx, take_eraseIdx_eq_take_of_le _ _ _ (Nat.le_refl n)]
    · rw [jobs_remove_at h hidx, ← hresult, eraseIdx_eq_take_drop_succ,
        drop_left' (by rw [length_take]; omega)]
      rfl
    · rw [Verdict.note, Option.toList_none, append_nil]
  · rw [hv] at hresult
    refine ⟨q.write idx y, h.write hmem y, Nat.le_of_lt hn, rfl, ?_, ?_, rfl⟩
    · rw [jobs_write_at h hidx, take_set_of_le (Nat.le_refl n)]
    · rw [jobs_write_at h hidx, ← hresult, set_eq_take_append_cons_drop, if_pos hlt,
        drop_left' (by rw [length_take]; omega)]
      rfl

/-- **One pass is `filterMap`**, and the notes are those of the queue before. -/
theorem WF.scanBack_spec (h : q.WF depth z) {f : α → Option α}
    (hf : ∀ i x, (visit i x).result x = f x) (n : Nat) (hn : n ≤ q.order.count) (notes : List β) :
    (q.scanBack depth z visit n notes).1.WF depth z ∧
      (q.scanBack depth z visit n notes).1.jobs depth =
        ((q.jobs depth).take n).filterMap f ++ (q.jobs depth).drop n ∧
      (q.scanBack depth z visit n notes).2 = notes ++
        (((q.indices depth).take n).zip ((q.jobs depth).take n)).reverse.filterMap
          (fun p => (visit p.1 p.2).note) := by
  induction n generalizing q notes with
  | zero => exact ⟨h, by simp [SlotQueue.scanBack], by simp [SlotQueue.scanBack]⟩
  | succ n ih =>
    obtain ⟨q', hwf, hcount, hind, htake, hdrop, hscan⟩ := h.visit_spec hn hf notes
    have hidx : (q.indices depth)[n]? = _ := indices_getElem? hn
    have hjob : (q.jobs depth)[n]? = _ := jobs_getElem? hn
    obtain ⟨ih₁, ih₂, ih₃⟩ := ih hwf hcount _
    rw [hscan]
    refine ⟨ih₁, ?_, ?_⟩
    · rw [ih₂, htake, hdrop, take_add_one, hjob, filterMap_append, append_assoc]
      cases hfx : f (q.slots (q.order.buf (q.order.cell depth n))) <;> simp [hfx]
    · rw [ih₃, hind, htake, take_add_one, take_add_one, hidx, hjob,
        zip_append (by simp [length_jobs, indices]), reverse_append,
        filterMap_append, append_assoc]
      cases hv : (visit (q.order.buf (q.order.cell depth n))
        (q.slots (q.order.buf (q.order.cell depth n)))).note <;> simp [hv]

theorem Tracked.scanBack [DecidableEq κ] {key : α → κ} {idx : Nat} {k : κ}
    (ht : q.Tracked depth key idx k) (h : q.WF depth z) (hkey : ((q.jobs depth).map key).Nodup)
    (hmark : ∀ i x y b, visit i x = .mark y b → key y = key x) (n : Nat) (hn : n ≤ q.order.count)
    (notes : List β) : (q.scanBack depth z visit n notes).1.Tracked depth key idx k := by
  induction n generalizing q notes with
  | zero => exact ht
  | succ n ih =>
    have hget : (q.indices depth)[n]? = _ := indices_getElem? hn
    have hmem := mem_of_getElem? hget
    unfold SlotQueue.scanBack
    dsimp only
    split
    · exact ih ht h hkey (Nat.le_of_lt hn) _
    · obtain ⟨order, -, -, hcount, hrem⟩ := h.remove_spec hget
      refine ih (ht.remove h hkey hmem) (h.remove _) (keys_remove h hkey hmem) ?_ _
      rw [hrem, hcount]
      omega
    next y b hv =>
      have hy := hmark _ _ _ _ hv
      refine ih (ht.write hy) (h.write hmem y) ?_ (Nat.le_of_lt hn) _
      rw [keys_write hy]
      exact hkey

end Scan

end SlotQueue

end Viiper.Verified
