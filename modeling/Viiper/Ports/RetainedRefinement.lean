import Viiper.Ports.RetainedInvariant
import Viiper.Verified.Simulation

/-!
# The scheduler refines the board

A reference is a lane, a slot index and an ordinal.  Slots are recycled, but ordinals
are not: whoever holds a reference finds the job it was made for, or nothing.  So the
sections of the scheduler, which go through slot tables and references, are moves of
the board, which knows jobs by their ordinals only.
-/

namespace Viiper.Ports.Retained

open Verified Run Function Scheduler List Retained.System

variable {cfg : Config} {ref : Ref} {x : Slot} {l : Label} {lane : Lane} {e : Envelope}
  {q : SlotQueue Slot} {scope : Scope} {round : Round} {sequence : UInt32} {env : Env}

/-! ## References -/

def System.Holds {Q : Type} (s : System Q) (ref : Ref) : Prop :=
  s.pc.ref? = some ref ∨ ∃ c, ∃ r ∈ (s.retiring c).todo, r.ref = ref

/-- The reference names its own job or none. -/
structure Pinned (cfg : Config) (s : SlotScheduler) (ref : Ref) : Prop where
  tracked : (s.lanes ref.lane).Tracked (cfg.depth ref.lane) Slot.ingressOrdinal
    ref.slotIndex ref.ingressOrdinal
  home : ∀ lane, ∀ x ∈ s.jobs cfg lane, x.ingressOrdinal = ref.ingressOrdinal → lane = ref.lane
  le : ref.ingressOrdinal ≤ s.nextOrdinal

/-- The tables are well formed, and their jobs are those of a board. -/
structure Tables (cfg : Config) (s : SlotScheduler) : Prop where
  wf : ∀ lane, (s.lanes lane).WF (cfg.depth lane) {}
  queued : Queued cfg (s.jobs cfg) s.nextOrdinal

/-- A state of the scheduler represents its board. -/
structure Rep (cfg : Config) (s : SlotSystem) : Prop where
  wf : ∀ lane, (s.lanes lane).WF (cfg.depth lane) {}
  inv : Inv cfg (s.view cfg)
  pinned : ∀ ref, s.Holds ref → Pinned cfg s.toScheduler ref

theorem Rep.tables {s : SlotSystem} (h : Rep cfg s) : Tables cfg s.toScheduler :=
  ⟨h.wf, h.inv.queued⟩

section References

variable {s : SlotScheduler}

theorem Tables.keys (h : Tables cfg s) (lane : Lane) :
    ((s.jobs cfg lane).map Slot.ingressOrdinal).Nodup := by
  rw [List.Nodup, pairwise_map]
  exact (h.queued.sorted lane).imp fun hlt => Nat.ne_of_lt hlt

theorem Tables.occupied (h : Tables cfg s) (hx : x ∈ s.jobs cfg lane) : x.occupied := by
  rcases (h.queued.job lane x hx).state with hs | hs | hs | hs
  · simp [Slot.occupied, hs]
  · unfold Slot.occupied
    cases hx : x.state with
    | free =>
      rw [hx] at hs
      cases hs
    | _ => rfl
  · simp [Slot.occupied, hs]
  · simp [Slot.occupied, hs]

/-- **A reference is a lookup by ordinal.** -/
theorem Pinned.slotForRef_eq (hp : Pinned cfg s ref) (h : Tables cfg s) :
    s.slotForRef cfg ref = findJob ref.ingressOrdinal (allJobs (s.jobs cfg)) := by
  have hpeek : s.slotForRef cfg ref = findJob ref.ingressOrdinal (s.jobs cfg ref.lane) :=
    hp.tracked.peek_eq (h.wf ref.lane) (h.keys ref.lane) (fun x hx => h.occupied hx) rfl
  rw [hpeek]
  rcases hfind : findJob ref.ingressOrdinal (allJobs (s.jobs cfg)) with _ | y
  · rw [findJob_eq_none] at hfind ⊢
    exact fun x hx => hfind x (mem_allJobs.2 ⟨ref.lane, hx⟩)
  · obtain ⟨hy, hk⟩ := findJob_mem hfind
    obtain ⟨lane, hy⟩ := mem_allJobs.1 hy
    rw [hp.home lane y hy hk] at hy
    exact (findJob_eq_some (h.keys ref.lane)).2 ⟨hy, hk⟩

/-- A slot of a lane, as a reference to its job. -/
structure Located (cfg : Config) (s : SlotScheduler) (ref : Ref) (x : Slot) : Prop where
  mem : ref.slotIndex ∈ s.indices cfg ref.lane
  slot : (s.lanes ref.lane).slots ref.slotIndex = x
  ordinal : x.ingressOrdinal = ref.ingressOrdinal

theorem Located.job (h : Located cfg s ref x) : x ∈ s.jobs cfg ref.lane :=
  SlotQueue.mem_jobs.2 ⟨ref.slotIndex, h.mem, h.slot⟩

theorem Located.all (h : Located cfg s ref x) : x ∈ allJobs (s.jobs cfg) :=
  mem_allJobs.2 ⟨ref.lane, h.job⟩

theorem located_of_slotForRef (ht : Tables cfg s) (h : s.slotForRef cfg ref = some x) :
    Located cfg s ref x := by
  unfold slotForRef SlotQueue.peek at h
  split at h
  next hcond =>
    obtain ⟨hlt, hocc, hk⟩ := hcond
    cases h
    refine ⟨(ht.wf ref.lane).mem_indices hlt ?_, rfl, hk⟩
    intro hblank
    rw [hblank] at hocc
    cases hocc
  · cases h

end References

/-! ## Edits through references -/

variable {c : Caller} {r : Retirement} {g : Slot → Slot}

section EditsByRef

variable {s : SlotScheduler} {ref' : Ref}

theorem rewriteJob_absent {k : Nat} {jobs : List Slot}
    (h : ∀ x ∈ jobs, x.ingressOrdinal ≠ k) : rewriteJob k g jobs = jobs := by
  conv_rhs => rw [← map_id jobs]
  exact map_congr_left fun x hx => if_neg (h x hx)

theorem dropJob_absent {k : Nat} {jobs : List Slot}
    (h : ∀ x ∈ jobs, x.ingressOrdinal ≠ k) : dropJob k jobs = jobs := by
  unfold dropJob
  rw [filter_eq_self]
  exact fun x hx => decide_eq_true (h x hx)

theorem wf_setLane
    (h : ∀ lane, (s.lanes lane).WF (cfg.depth lane) {}) (hq : q.WF (cfg.depth lane) {})
    (lane' : Lane) : ((s.setLane lane q).lanes lane').WF (cfg.depth lane') {} := by
  by_cases hl : lane' = lane
  · subst hl
    rw [setLane_self]
    exact hq
  · rw [setLane_ne s hl]
    exact h lane'

/-- A pinned reference stays pinned while its own table keeps track of it and no
other lane gets its ordinal. -/
theorem Pinned.mono {s' : SlotScheduler} (hp : Pinned cfg s ref)
    (htracked : (s'.lanes ref.lane).Tracked (cfg.depth ref.lane) Slot.ingressOrdinal
      ref.slotIndex ref.ingressOrdinal)
    (hjobs : ∀ lane, ∀ y ∈ s'.jobs cfg lane, (∃ x ∈ s.jobs cfg lane,
      x.ingressOrdinal = y.ingressOrdinal) ∨ s.nextOrdinal < y.ingressOrdinal)
    (hnext : s.nextOrdinal ≤ s'.nextOrdinal) : Pinned cfg s' ref where
  tracked := htracked
  home := by
    intro lane y hy hk
    rcases hjobs lane y hy with ⟨x, hx, hxy⟩ | hlt
    · exact hp.home lane x hx (hxy.trans hk)
    · have := hp.le
      omega
  le := Nat.le_trans hp.le hnext

/-- The table of a lane is replaced by one which keeps track of the reference. -/
theorem Pinned.tracked_setLane (hp : Pinned cfg s ref)
    (hq : (s.lanes lane).Tracked (cfg.depth lane) Slot.ingressOrdinal ref.slotIndex
      ref.ingressOrdinal → q.Tracked (cfg.depth lane) Slot.ingressOrdinal ref.slotIndex
        ref.ingressOrdinal) :
    ((s.setLane lane q).lanes ref.lane).Tracked (cfg.depth ref.lane) Slot.ingressOrdinal
      ref.slotIndex ref.ingressOrdinal := by
  have htracked := hp.tracked
  by_cases hl : ref.lane = lane
  · rw [hl] at htracked ⊢
    rw [setLane_self]
    exact hq htracked
  · rw [setLane_ne s hl]
    exact htracked

variable (h : Located cfg s ref x) (ht : Tables cfg s)

include h ht

theorem Located.find : findJob ref.ingressOrdinal (allJobs (s.jobs cfg)) = some x :=
  (findJob_eq_some ht.queued.nodup).2 ⟨h.all, h.ordinal⟩

theorem Located.home {y : Slot}
    (hy : y ∈ s.jobs cfg lane) (hk : y.ingressOrdinal = ref.ingressOrdinal) : lane = ref.lane :=
  (ht.queued.same hy h.job (hk.trans h.ordinal.symm)).2

/-- A reference just made is pinned. -/
theorem Located.pinned : Pinned cfg s ref where
  tracked := .inl ⟨h.mem, by rw [h.slot]; exact h.ordinal⟩
  home := fun _ _ hy hk => h.home ht hy hk
  le := by
    rw [← h.ordinal]
    exact (ht.queued.job _ x h.job).le

/-- The table of the reference is edited: so are all lanes, if `f` only concerns its job. -/
theorem Located.jobs_edit
    {f : List Slot → List Slot} (hq : q.jobs (cfg.depth ref.lane) = f (s.jobs cfg ref.lane))
    (hf : ∀ {jobs : List Slot}, (∀ y ∈ jobs, y.ingressOrdinal ≠ ref.ingressOrdinal) →
      f jobs = jobs) :
    (s.setLane ref.lane q).jobs cfg = fun lane => f (s.jobs cfg lane) := by
  funext lane
  by_cases hl : lane = ref.lane
  · subst hl
    rw [jobs, setLane_self]
    exact hq
  · rw [jobs, setLane_ne s hl]
    refine (hf ?_).symm
    exact fun y hy hk => hl (h.home ht hy hk)

theorem Located.jobs_write (g : Slot → Slot) : (s.writeRef ref (g x)).jobs cfg =
      fun lane => rewriteJob ref.ingressOrdinal g (s.jobs cfg lane) := by
  have hwrite := SlotQueue.jobs_write (ht.keys ref.lane) h.mem g
  rw [h.slot, h.ordinal] at hwrite
  exact h.jobs_edit ht hwrite rewriteJob_absent

theorem Located.jobs_remove :
    (s.removeRef cfg ref).jobs cfg = fun lane => dropJob ref.ingressOrdinal (s.jobs cfg lane) := by
  have hremove := SlotQueue.jobs_remove (ht.wf ref.lane) (ht.keys ref.lane) h.mem
  rw [h.slot, h.ordinal] at hremove
  exact h.jobs_edit ht hremove dropJob_absent

theorem Pinned.write (hp : Pinned cfg s ref')
    (hg : (g x).ingressOrdinal = x.ingressOrdinal) : Pinned cfg (s.writeRef ref (g x)) ref' := by
  refine hp.mono (hp.tracked_setLane fun htracked => htracked.write (by rw [h.slot]; exact hg))
    (fun lane y hy => .inl ?_) (Nat.le_refl _)
  rw [h.jobs_write ht g] at hy
  rcases mem_rewrite.1 hy with ⟨z, hz, hzk, rfl⟩ | ⟨hy, -⟩
  · have heq := ht.queued.unique (mem_allJobs.2 ⟨lane, hz⟩) h.all (hzk.trans h.ordinal.symm)
    exact ⟨z, hz, by rw [heq]; exact hg.symm⟩
  · exact ⟨y, hy, rfl⟩

theorem Pinned.remove (hp : Pinned cfg s ref') : Pinned cfg (s.removeRef cfg ref) ref' := by
  refine hp.mono (hp.tracked_setLane fun htracked =>
    htracked.remove (ht.wf ref.lane) (ht.keys ref.lane) h.mem) (fun lane y hy => .inl ?_)
    (Nat.le_refl _)
  rw [h.jobs_remove ht] at hy
  exact ⟨y, (mem_drop.1 hy).1, rfl⟩

end EditsByRef

/-! ## Sweeps and ingress -/

section Sweep

variable {s : SlotScheduler}

theorem visit_result (idx : Nat) (x : Slot) :
    (visit scope lane idx x).result x = sweptSlot scope x := by
  unfold visit sweptSlot
  split
  · rfl
  · split <;> rfl

theorem visit_note (idx : Nat) (x : Slot) : (visit scope lane idx x).note =
      if collects scope x then some ⟨⟨lane, idx, x.ingressOrdinal⟩, x.ticket⟩ else none := by
  unfold visit collects
  cases hc : scope.covers x <;> cases hs : x.state <;> simp [SlotQueue.Verdict.note]

theorem visit_mark {idx : Nat} {y : Slot}
    (h : visit scope lane idx x = .mark y r) : y.ingressOrdinal = x.ingressOrdinal := by
  have hresult : (visit scope lane idx x).result x = sweptSlot scope x := visit_result idx x
  rw [h] at hresult
  exact sweptSlot_ordinal hresult.symm

/-- The notes of a pass over one lane. -/
def laneNotes (cfg : Config) (s : SlotScheduler) (scope : Scope) (lane : Lane) : List Retirement :=
  ((s.indices cfg lane).zip (s.jobs cfg lane)).reverse.filterMap
    fun p => (visit scope lane p.1 p.2).note

theorem laneNotes_key : (laneNotes cfg s scope lane).map Retirement.key =
      (((s.jobs cfg lane).filter (collects scope)).reverse).map Slot.key := by
  have hsnd : ((s.indices cfg lane).zip (s.jobs cfg lane)).map Prod.snd = s.jobs cfg lane := by
    refine map_snd_zip ?_
    rw [jobs, SlotQueue.jobs, length_map]
    exact Nat.le_refl _
  unfold laneNotes
  conv_rhs => rw [← hsnd, ← filter_reverse, ← map_reverse]
  induction ((s.indices cfg lane).zip (s.jobs cfg lane)).reverse with
  | nil => rfl
  | cons p rest ih =>
    have hnote : (visit scope lane p.1 p.2).note = if collects scope p.2 then
        some ⟨⟨lane, p.1, p.2.ingressOrdinal⟩, p.2.ticket⟩ else none := visit_note p.1 p.2
    by_cases hc : collects scope p.2
    · rw [if_pos hc] at hnote
      rw [filterMap_cons_some (f := fun p : Nat × Slot => (visit scope lane p.1 p.2).note) hnote,
        map_cons, map_cons, filter_cons,
        if_pos hc, map_cons, ih]
      rfl
    · rw [if_neg hc] at hnote
      rw [filterMap_cons_none (f := fun p : Nat × Slot => (visit scope lane p.1 p.2).note) hnote,
        map_cons, filter_cons, if_neg hc, ih]

theorem laneNotes_located (h : r ∈ laneNotes cfg s scope lane) : ∃ x, Located cfg s r.ref x := by
  obtain ⟨⟨idx, x⟩, hp, hnote⟩ := mem_filterMap.1 h
  have hzip := mem_reverse.1 hp
  rw [visit_note] at hnote
  split at hnote
  · cases hnote
    unfold jobs SlotQueue.jobs indices at hzip
    rw [zip_map_right, mem_map] at hzip
    obtain ⟨⟨i, j⟩, hij, heq⟩ := hzip
    have hsame : i = j := by
      obtain ⟨n, hn, hget⟩ := getElem_of_mem hij
      rw [getElem_zip] at hget
      exact (congrArg Prod.fst hget).symm.trans (congrArg Prod.snd hget)
    subst hsame
    cases heq
    exact ⟨_, (of_mem_zip hij).1, rfl, rfl⟩
  · cases hnote

theorem scan_spec (ht : Tables cfg s) (scope : Scope) (lane : Lane) (notes : List Retirement) :
    let r := (s.lanes lane).scanBack (cfg.depth lane) {} (visit scope lane)
      (s.lanes lane).order.count notes
    r.1.WF (cfg.depth lane) {} ∧
      r.1.jobs (cfg.depth lane) = (s.jobs cfg lane).filterMap (sweptSlot scope) ∧
      r.2 = notes ++ laneNotes cfg s scope lane ∧
      ∀ idx k, (s.lanes lane).Tracked (cfg.depth lane) Slot.ingressOrdinal idx k →
        r.1.Tracked (cfg.depth lane) Slot.ingressOrdinal idx k := by
  obtain ⟨hwf, hjobs, hnotes⟩ := (ht.wf lane).scanBack_spec
    (fun idx x => visit_result idx x) (s.lanes lane).order.count (Nat.le_refl _) notes
  have hjlen : ((s.lanes lane).jobs (cfg.depth lane)).length = (s.lanes lane).order.count :=
    SlotQueue.length_jobs
  have hilen : ((s.lanes lane).indices (cfg.depth lane)).length = (s.lanes lane).order.count := by
    rw [← hjlen, SlotQueue.jobs, length_map]
  refine ⟨hwf, ?_, ?_, fun idx k htracked => ?_⟩
  · rw [hjobs, take_of_length_le (Nat.le_of_eq hjlen), drop_of_length_le (Nat.le_of_eq hjlen),
      append_nil]
    rfl
  · rw [hnotes, take_of_length_le (Nat.le_of_eq hjlen), take_of_length_le (Nat.le_of_eq hilen)]
    rfl
  · exact htracked.scanBack (ht.wf lane) (ht.keys lane) (fun _ _ _ _ h => visit_mark h) _
      (Nat.le_refl _) notes

/-- The lanes which a sweep has not come to yet, and those it has. -/
structure SweptLanes (cfg : Config) (s : SlotScheduler) (scope : Scope) (done : Lane → Prop)
    (lanes : Lane → SlotQueue Slot) : Prop where
  wf : ∀ lane, (lanes lane).WF (cfg.depth lane) {}
  swept : ∀ lane, done lane →
    (lanes lane).jobs (cfg.depth lane) = (s.jobs cfg lane).filterMap (sweptSlot scope)
  kept : ∀ lane, ¬done lane → lanes lane = s.lanes lane
  tracked : ∀ lane idx k, (s.lanes lane).Tracked (cfg.depth lane) Slot.ingressOrdinal idx k →
    (lanes lane).Tracked (cfg.depth lane) Slot.ingressOrdinal idx k

theorem SweptLanes.next (ht : Tables cfg s) {done : Lane → Prop} {lanes : Lane → SlotQueue Slot}
    (h : SweptLanes cfg s scope done lanes) (lane : Lane) (hnot : ¬done lane)
    (notes : List Retirement) :
    ∃ lanes', SweptLanes cfg s scope (fun l => done l ∨ l = lane) lanes' ∧
      retireLaneMatching cfg scope ({ s with lanes := lanes }, notes) lane =
        ({ s with lanes := lanes' }, notes ++ laneNotes cfg s scope lane) := by
  obtain ⟨hwf, hjobs, hnotes, htracked⟩ := scan_spec ht scope lane notes
  have hlane := h.kept lane hnot
  refine ⟨update lanes lane ((s.lanes lane).scanBack (cfg.depth lane) {}
    (visit scope lane) (s.lanes lane).order.count notes).1, ⟨?_, ?_, ?_, ?_⟩, ?_⟩
  · exact (forall_update_iff lanes fun l q => q.WF (cfg.depth l) {}).2 ⟨hwf, fun l _ => h.wf l⟩
  · intro l hdone
    rw [update_apply]
    split
    next hl => exact hl ▸ hjobs
    next hl => exact h.swept l (hdone.resolve_right hl)
  · intro l hdone
    have hl : l ≠ lane := fun hl => hdone (.inr hl)
    rw [update_of_ne hl]
    exact h.kept l fun hd => hdone (.inl hd)
  · exact (forall_update_iff lanes fun l q => ∀ idx k,
      (s.lanes l).Tracked (cfg.depth l) Slot.ingressOrdinal idx k →
        q.Tracked (cfg.depth l) Slot.ingressOrdinal idx k).2 ⟨htracked, fun l _ => h.tracked l⟩
  · unfold retireLaneMatching setLane
    dsimp only
    rw [hlane, hnotes]

/-- **A sweep is `filterMap` on every lane**, and what it collects is known by its keys. -/
theorem retireMatching_spec (ht : Tables cfg s) (scope : Scope) :
    ∃ lanes todo, s.retireMatching cfg scope = ({ s with lanes := lanes }, todo) ∧
      SweptLanes cfg s scope (fun _ => True) lanes ∧
      todo.map Retirement.key = (Lane.all.flatMap fun lane =>
        ((s.jobs cfg lane).filter (collects scope)).reverse).map Slot.key ∧
      ∀ r ∈ todo, ∃ x, Located cfg s r.ref x := by
  have h₀ : SweptLanes cfg s scope (fun _ => False) s.lanes :=
    ⟨ht.wf, nofun, fun _ _ => rfl, fun _ _ _ h => h⟩
  obtain ⟨lanes₁, h₁, heq₁⟩ := h₀.next ht .control nofun []
  obtain ⟨lanes₂, h₂, heq₂⟩ := h₁.next ht .interruptIn (by simp) (laneNotes cfg s scope .control)
  obtain ⟨lanes₃, h₃, heq₃⟩ := h₂.next ht .interruptOut (by simp)
    (laneNotes cfg s scope .control ++ laneNotes cfg s scope .interruptIn)
  refine ⟨lanes₃, laneNotes cfg s scope .control ++ laneNotes cfg s scope .interruptIn ++
    laneNotes cfg s scope .interruptOut, ?_,
    ⟨h₃.wf, fun lane _ => h₃.swept lane ?_, fun _ hnot => absurd trivial hnot, h₃.tracked⟩, ?_, ?_⟩
  · unfold retireMatching Lane.all
    simp only [foldl_cons, foldl_nil]
    rw [show ((s, []) : SlotScheduler × List Retirement) =
      ({ s with lanes := s.lanes }, []) from rfl,
      heq₁, nil_append, heq₂, heq₃]
  · cases lane <;> simp
  · unfold Lane.all
    simp only [map_append, laneNotes_key, flatMap_cons, flatMap_nil, append_nil,
      append_assoc]
  · intro r hr
    rcases mem_append.1 hr with hr | hr
    · rcases mem_append.1 hr with hr | hr
      · exact laneNotes_located hr
      · exact laneNotes_located hr
    · exact laneNotes_located hr

end Sweep

section Enqueue

variable {s s' : SlotScheduler} {requireReservation : Bool}

theorem sequencePending_eq (sequence : UInt32) :
    s.sequencePending cfg sequence = (allJobs (s.jobs cfg)).any (·.sequence == sequence) := by
  unfold sequencePending allJobs
  rw [any_flatMap]

/-- What an accepted submission does. -/
theorem enqueue_spec (h : s.enqueue cfg e requireReservation = .ok s') :
    ∃ lane q, validateEnvelope cfg e ∧ e.lane = some lane ∧
      s.refusal cfg e requireReservation (s.sequencePending cfg e.sequence) = none ∧
      (s.lanes lane).alloc (cfg.depth lane)
        (slotFor cfg (s.stamp cfg e) (s.nextOrdinal + 1)) = some q ∧
      s' = { s.setLane lane q with
        nextOrdinal := s.nextOrdinal + 1
        framingSequences := if requireReservation then
          s.framingSequences.filter (· != e.sequence) else s.framingSequences } := by
  unfold enqueue at h
  split at h
  next lane hvalid hlane =>
    split at h
    · cases h
    rename_i hok
    dsimp only at h
    rcases hq : (s.lanes lane).alloc (cfg.depth lane)
      (slotFor cfg (s.stamp cfg e) (s.nextOrdinal + 1)) with _ | q
    · rw [hq] at h
      cases h
    · rw [hq] at h
      refine ⟨lane, q, hvalid, hlane, hok, hq, ?_⟩
      cases h
      cases requireReservation <;> rfl
  · cases h

/-- The references which were pinned before a submission still are. -/
theorem Pinned.push (ht : Tables cfg s)
    (hp : Pinned cfg s ref) (hq : (s.lanes lane).alloc (cfg.depth lane) x = some q)
    (hx : x.ingressOrdinal = s.nextOrdinal + 1) (hlanes : s'.lanes = (s.setLane lane q).lanes)
    (hnext : s'.nextOrdinal = s.nextOrdinal + 1) : Pinned cfg s' ref := by
  have hle := hp.le
  refine hp.mono ?_ (fun lane' y hy => ?_) (by omega)
  · rw [hlanes]
    exact hp.tracked_setLane fun htracked => htracked.alloc (ht.wf lane) hq (by omega)
  · unfold jobs at hy
    rw [hlanes] at hy
    by_cases hl : lane' = lane
    · subst hl
      rw [setLane_self, SlotQueue.jobs_alloc (ht.wf lane') hq] at hy
      rcases mem_append.1 hy with hy | hy
      · exact .inl ⟨y, hy, rfl⟩
      · rw [mem_singleton.1 hy]
        exact .inr (by omega)
    · rw [setLane_ne s hl] at hy
      exact .inl ⟨y, hy, rfl⟩

end Enqueue

/-! ## Steps -/

/-- A step of the scheduler is a move of its board, and keeps the references which
name their jobs. -/
structure Steps (cfg : Config) (s : SlotSystem) (l : Label) (s' : SlotSystem) : Prop where
  move : Move cfg (s.view cfg) l (s'.view cfg)
  wf : ∀ lane, (s'.lanes lane).WF (cfg.depth lane) {}
  pinned : ∀ ref, Pinned cfg s.toScheduler ref → Pinned cfg s'.toScheduler ref
  held : ∀ ref, s'.Holds ref → Pinned cfg s.toScheduler ref

theorem Rep.steps {s s' : SlotSystem} (h : Rep cfg s) (hs : Steps cfg s l s') : Rep cfg s' where
  wf := hs.wf
  inv := h.inv.move hs.move
  pinned := fun ref href => hs.pinned ref (hs.held ref href)

section Frames

variable {s s' : SlotSystem}

theorem Rep.held (h : Rep cfg s) (hpc : ∀ ref, s'.pc.ref? = some ref →
      s.pc.ref? = some ref ∨ Pinned cfg s.toScheduler ref)
    (hret : ∀ c, ∀ r ∈ (s'.retiring c).todo,
      r ∈ (s.retiring c).todo ∨ Pinned cfg s.toScheduler r.ref)
    (ref : Ref) (href : s'.Holds ref) : Pinned cfg s.toScheduler ref := by
  rcases href with href | ⟨c, r, hr, rfl⟩
  · rcases hpc ref href with hold | hp
    · exact h.pinned ref (.inl hold)
    · exact hp
  · rcases hret c r hr with hold | hp
    · exact h.pinned r.ref (.inr ⟨c, r, hold, rfl⟩)
    · exact hp

/-- A retirement of a caller after one caller's list is set. -/
theorem mem_todo_update {retiring : Caller → Retiring} {c' : Caller} {new : Retiring}
    (hr : r ∈ (update retiring c new c').todo) :
    r ∈ (retiring c').todo ∨ (c' = c ∧ r ∈ new.todo) := by
  rw [update_apply] at hr
  split at hr
  next hc => exact .inr ⟨hc, hr⟩
  · exact .inl hr

theorem pinned_congr {t t' : SlotScheduler} (hp : Pinned cfg t ref) (hlanes : t'.lanes = t.lanes)
    (hnext : t'.nextOrdinal = t.nextOrdinal) : Pinned cfg t' ref := by
  refine hp.mono ?_ (fun lane y hy => .inl ⟨y, ?_, rfl⟩) (Nat.le_of_eq hnext.symm)
  · rw [hlanes]
    exact hp.tracked
  · unfold jobs at hy ⊢
    rw [hlanes] at hy
    exact hy

theorem Rep.keep (h : Rep cfg s) (hm : Move cfg (s.view cfg) l (s'.view cfg))
    (hlanes : s'.lanes = s.lanes) (hnext : s'.nextOrdinal = s.nextOrdinal)
    (hpc : ∀ ref, s'.pc.ref? = some ref → s.pc.ref? = some ref ∨ Pinned cfg s.toScheduler ref)
    (hret : ∀ c, ∀ r ∈ (s'.retiring c).todo, r ∈ (s.retiring c).todo) : Steps cfg s l s' where
  move := hm
  wf := fun lane => by rw [hlanes]; exact h.wf lane
  pinned := fun _ hp => pinned_congr hp hlanes hnext
  held := h.held hpc fun c r hr => .inl (hret c r hr)

/-- The token's holder keeps its reference, or lets it go. -/
theorem ref_or_pinned (href : s'.pc.ref? = none ∨ s'.pc.ref? = s.pc.ref?) (ref : Ref)
    (hr : s'.pc.ref? = some ref) : s.pc.ref? = some ref ∨ Pinned cfg s.toScheduler ref := by
  rcases href with hnone | hsame
  · exact absurd (hnone.symm.trans hr) nofun
  · exact .inl (hsame ▸ hr)

/-- A step which touches no table and no job of a caller. -/
theorem Rep.calm (h : Rep cfg s) (hl : l.silent) (hcalm : Calm (s.view cfg) (s'.view cfg))
    (hlanes : s'.lanes = s.lanes)
    (hpc : ∀ ref, s'.pc.ref? = some ref → s.pc.ref? = some ref ∨ Pinned cfg s.toScheduler ref) :
    Steps cfg s l s' := by
  refine h.keep (.calm hl hcalm) hlanes hcalm.nextOrdinal hpc fun c r hr => ?_
  have hret : s'.retiring = s.retiring := hcalm.retiring
  rw [hret] at hr
  exact hr

/-- Nothing happens. -/
theorem Rep.same (h : Rep cfg s) (hl : l.silent) : Steps cfg s l s :=
  h.calm hl (Calm.refl _) rfl fun _ href => .inl href

/-- The board after an edit of the tables. -/
theorem view_edit {lanes : Lane → SlotQueue Slot} {f : List Slot → List Slot}
    (hjobs : ∀ lane, (lanes lane).jobs (cfg.depth lane) = f (s.jobs cfg lane)) :
    (s.setScheduler { s.toScheduler with lanes := lanes }).view cfg = (s.view cfg).edit f := by
  have hfun : (fun lane => (lanes lane).jobs (cfg.depth lane)) = fun lane => f (s.jobs cfg lane) :=
    funext hjobs
  unfold view setScheduler mapLanes edit
  rw [hfun]
  rfl

theorem view_write (hloc : Located cfg s.toScheduler ref x)
    (ht : Tables cfg s.toScheduler) (g : Slot → Slot) :
    (s.setScheduler (s.toScheduler.writeRef ref (g x))).view cfg =
      (s.view cfg).edit (rewriteJob ref.ingressOrdinal g) :=
  view_edit fun lane => congrFun (hloc.jobs_write ht g) lane

theorem view_remove (hloc : Located cfg s.toScheduler ref x) (ht : Tables cfg s.toScheduler) :
    (s.setScheduler (s.toScheduler.removeRef cfg ref)).view cfg =
      (s.view cfg).edit (dropJob ref.ingressOrdinal) :=
  view_edit fun lane => congrFun (hloc.jobs_remove ht) lane

/-- A job is looked up on the board. -/
theorem Rep.find (h : Rep cfg s) (href : s.Holds ref) :
    s.toScheduler.slotForRef cfg ref = (s.view cfg).find ref.ingressOrdinal :=
  (h.pinned ref href).slotForRef_eq h.tables

end Frames

/-! ## Selection -/

section Selection

variable {s : SlotScheduler}

/-- A reference to an eligible head. -/
structure Candidate (cfg : Config) (s : SlotScheduler) (round : Round) (ref : Ref) : Prop where
  head : (s.indices cfg ref.lane).head? = some ref.slotIndex
  ordinal : ((s.lanes ref.lane).slots ref.slotIndex).ingressOrdinal = ref.ingressOrdinal
  eligible : s.eligible round ref.lane ((s.lanes ref.lane).slots ref.slotIndex)

theorem Candidate.located (h : Candidate cfg s round ref) :
    Located cfg s ref ((s.lanes ref.lane).slots ref.slotIndex) :=
  ⟨mem_of_mem_head? h.head, rfl, h.ordinal⟩

theorem head_jobs (h : (s.indices cfg ref.lane).head? = some ref.slotIndex) :
    (s.jobs cfg ref.lane).head? = some ((s.lanes ref.lane).slots ref.slotIndex) := by
  show ((s.indices cfg ref.lane).map (s.lanes ref.lane).slots).head? = _
  rw [head?_map, h]
  rfl

variable (ht : Tables cfg s)

include ht

theorem Candidate.pos (h : Candidate cfg s round ref) : ref.ingressOrdinal ≠ 0 := by
  have hpos := (ht.queued.job _ _ h.located.job).pos
  rw [h.ordinal] at hpos
  omega

/-- The selection so far: none, or the oldest candidate of the lanes looked at. -/
structure Best (cfg : Config) (s : SlotScheduler) (round : Round) (done : Lane → Prop)
    (selected : Ref) : Prop where
  candidate : selected.ingressOrdinal = 0 ∨ Candidate cfg s round selected
  oldest : ∀ ref, Candidate cfg s round ref → done ref.lane →
    selected.ingressOrdinal ≠ 0 ∧ selected.ingressOrdinal ≤ ref.ingressOrdinal

theorem Best.next {done : Lane → Prop} {selected : Ref}
    (h : Best cfg s round done selected) (lane : Lane) :
    Best cfg s round (fun l => done l ∨ l = lane) (s.considerLane cfg round selected lane) := by
  unfold considerLane
  split
  next hnone =>
    refine ⟨h.candidate, fun ref href hdone => ?_⟩
    rcases hdone with hdone | rfl
    · exact h.oldest ref href hdone
    · cases href.head.symm.trans hnone
  next idx hidx =>
    have hown : ∀ ref, Candidate cfg s round ref → ref.lane = lane →
        ref.slotIndex = idx ∧ ((s.lanes lane).slots idx).ingressOrdinal = ref.ingressOrdinal := by
      rintro ref href rfl
      obtain rfl := Option.mem_unique href.head hidx
      exact ⟨rfl, href.ordinal⟩
    dsimp only
    split
    next htake =>
      rw [Bool.and_eq_true, Bool.or_eq_true, beq_iff_eq, decide_eq_true_eq] at htake
      have hnew : Candidate cfg s round
          ⟨lane, idx, ((s.lanes lane).slots idx).ingressOrdinal⟩ := ⟨hidx, rfl, htake.1⟩
      refine ⟨.inr hnew, fun ref href hdone => ⟨hnew.pos ht, ?_⟩⟩
      rcases hdone with hdone | hl
      · obtain ⟨hpos, hle⟩ := h.oldest ref href hdone
        rcases htake.2 with hz | hlt
        · exact absurd hz hpos
        · exact Nat.le_of_lt (Nat.lt_of_lt_of_le hlt hle)
      · exact Nat.le_of_eq (hown ref href hl).2
    next hleave =>
      refine ⟨h.candidate, fun ref href hdone => ?_⟩
      rcases hdone with hdone | hl
      · exact h.oldest ref href hdone
      obtain ⟨hi, hk⟩ := hown ref href hl
      have helig := href.eligible
      rw [hl, hi] at helig
      rw [helig, Bool.true_and, Bool.or_eq_true, beq_iff_eq, decide_eq_true_eq, not_or,
        Nat.not_lt] at hleave
      exact ⟨hleave.1, hk ▸ hleave.2⟩

/-- The whole loop over the lanes. -/
theorem best_foldl (round : Round) :
    Best cfg s round (fun _ => True) (Lane.all.foldl (s.considerLane cfg round) {}) := by
  have h₀ : Best cfg s round (fun _ => False) {} := ⟨.inl rfl, nofun⟩
  have h := ((h₀.next ht .control).next ht .interruptIn).next ht .interruptOut
  refine ⟨h.candidate, fun ref href _ => h.oldest ref href ?_⟩
  cases ref.lane <;> simp

theorem oldestEligible_some (h : s.oldestEligible cfg round = some ref) :
    Candidate cfg s round ref ∧
      ∀ ref', Candidate cfg s round ref' → ref.ingressOrdinal ≤ ref'.ingressOrdinal := by
  have hbest := best_foldl ht round
  unfold oldestEligible at h
  dsimp only at h
  split at h
  next hne =>
    cases h
    rw [bne_iff_ne] at hne
    exact ⟨hbest.candidate.resolve_left hne, fun ref' href' => (hbest.oldest ref' href' trivial).2⟩
  · cases h

end Selection

/-! ## The holder of the service token -/

section Service

variable {s : SlotSystem}

variable (h : Rep cfg s)

include h

/-- The holder of the token goes on without touching a job. -/
theorem Rep.quiet {s' : SlotSystem} (hcalm : Calm (s.view cfg) (s'.view cfg))
    (hlanes : s'.lanes = s.lanes) (href : s'.pc.ref? = none ∨ s'.pc.ref? = s.pc.ref?) :
    Steps cfg s .quiet s' :=
  h.calm rfl hcalm hlanes (ref_or_pinned href)

/-- A place in a round is left for another. -/
theorem Rep.plainPc {pc pc' : Pc} (hpc : s.pc = pc) (hold : pc.plain)
    (hplain : pc'.plain) (hnot : pc'.isPreparing = false)
    (href : pc'.ref? = none ∨ pc'.ref? = pc.ref?) : Steps cfg s .quiet (s.setPc pc') := by
  subst hpc
  exact h.quiet { Calm.refl (s.view cfg) with pc := .plain hold hplain hnot } rfl href

theorem poll_steps {now : Int} (hpc : s.pc = .polling now) (answer : Poll) :
    Steps cfg s .quiet (s.poll cfg now answer) := by
  unfold poll
  split
  · exact h.plainPc hpc rfl rfl rfl (.inl rfl)
  split
  · exact h.plainPc hpc rfl rfl rfl (.inl rfl)
  split
  · exact h.plainPc hpc rfl rfl rfl (.inl rfl)
  unfold noteRetirement
  split
  · exact h.plainPc hpc rfl rfl rfl (.inl rfl)
  · exact h.quiet { Calm.refl (s.view cfg) with pc := .plain (hpc ▸ rfl) rfl rfl } rfl (.inl rfl)

theorem sample_steps {now : Int} (hpc : s.pc = .sampling now)
    (readiness : Readiness) : Steps cfg s .quiet (s.sample now readiness) := by
  unfold sample
  split
  · exact h.plainPc hpc rfl rfl rfl (.inl rfl)
  · exact h.quiet { Calm.refl (s.view cfg) with pc := .plain (hpc ▸ rfl) rfl rfl } rfl (.inl rfl)

theorem recheck_steps {epoch : Nat} (hpc : s.pc = .pended round ref epoch)
    (readiness : Readiness) : Steps cfg s .quiet (s.recheck round ref epoch readiness) := by
  have href : (Pc.failing ref).ref? = s.pc.ref? := by rw [hpc]; rfl
  unfold recheck
  split
  · exact h.plainPc hpc rfl rfl rfl (.inl rfl)
  split
  · exact h.plainPc hpc rfl rfl rfl (.inr rfl)
  rename_i published _
  refine h.quiet { Calm.refl (s.view cfg) with pc := .plain (hpc ▸ rfl) ?_ ?_ } rfl ?_
  · show (if published < epoch then Pc.failing ref else _).plain
    split <;> rfl
  · show (if published < epoch then Pc.failing ref else _).isPreparing = false
    split <;> rfl
  · show (if published < epoch then Pc.failing ref else _).ref? = none ∨
      (if published < epoch then Pc.failing ref else _).ref? = s.pc.ref?
    split
    · exact .inr href
    · exact .inl rfl

/-- A ticket which passes `ticketValid` is accepted on the board. -/
theorem accepts_of_ticketValid (hloc : Located cfg s.toScheduler ref x)
    {resolved : ControlLifecycle} {ticket : Ticket}
    (hvalid : s.ticketValid cfg ref (s.refresh cfg resolved x) ticket) :
    Accepts cfg (s.view cfg) ref.lane ref.ingressOrdinal ticket := by
  have hlane : (s.refresh cfg resolved x).lane = some ref.lane := by
    have hhome := (h.inv.queued.job _ x hloc.job).home
    unfold refresh
    split
    · exact hhome
    · exact hhome
  unfold ticketValid at hvalid
  rw [Bool.and_eq_true, Bool.and_eq_true, Bool.and_eq_true, Bool.and_eq_true] at hvalid
  obtain ⟨⟨⟨⟨hv, howner⟩, hsession⟩, hl⟩, hall⟩ := hvalid
  refine ⟨hv, beq_iff_eq.1 howner, beq_iff_eq.1 hsession, (beq_iff_eq.1 hl).trans hlane, ?_⟩
  intro y hy hk hyvalid
  obtain ⟨lane, hy⟩ := mem_allJobs.1 hy
  obtain ⟨idx, hidx, rfl⟩ := SlotQueue.mem_jobs.1 hy
  have hthis := all_eq_true.1 (all_eq_true.1 hall lane (Lane.mem_all lane)) idx hidx
  rw [Bool.or_eq_true, Bool.or_eq_true] at hthis
  rcases hthis with (hsame | hinvalid) | hother
  · rw [Bool.and_eq_true, beq_iff_eq, beq_iff_eq] at hsame
    obtain ⟨rfl, rfl⟩ := hsame
    exact absurd (by rw [hloc.slot]; exact hloc.ordinal) hk
  · rw [hyvalid] at hinvalid
    cases hinvalid
  · rw [Bool.not_eq_true'] at hother
    exact hother

theorem remove_steps (hloc : Located cfg s.toScheduler ref x) {s' : SlotSystem}
    (hm : Move cfg (s.view cfg) l (s'.view cfg))
    (hlanes : s'.lanes = (s.toScheduler.removeRef cfg ref).lanes)
    (hnext : s'.nextOrdinal = s.nextOrdinal)
    (hheld : ∀ ref, s'.Holds ref → Pinned cfg s.toScheduler ref) : Steps cfg s l s' where
  move := hm
  wf := fun lane => by rw [hlanes]; exact wf_setLane h.wf ((h.wf ref.lane).remove _) lane
  pinned := fun _ hp => pinned_congr (hp.remove hloc h.tables) hlanes hnext
  held := hheld

/-- A job is rewritten in its slot. -/
theorem write_steps (hloc : Located cfg s.toScheduler ref x)
    (hg : (g x).ingressOrdinal = x.ingressOrdinal) {s' : SlotSystem}
    (hm : Move cfg (s.view cfg) l (s'.view cfg))
    (hlanes : s'.lanes = (s.toScheduler.writeRef ref (g x)).lanes)
    (hnext : s'.nextOrdinal = s.nextOrdinal)
    (hheld : ∀ ref, s'.Holds ref → Pinned cfg s.toScheduler ref) : Steps cfg s l s' where
  move := hm
  wf := fun lane => by rw [hlanes]; exact wf_setLane h.wf ((h.wf ref.lane).write hloc.mem _) lane
  pinned := fun _ hp => pinned_congr (hp.write hloc h.tables hg) hlanes hnext
  held := hheld

/-- The submission is given up: its ticket was refused, or none was given. -/
theorem unstage_steps (hpc : s.pc = .selecting round)
    (hloc : Located cfg s.toScheduler ref x) (hhead : (s.view cfg).IsHead ref.lane x)
    (hraw : x.state = .rawQueued) :
    Steps cfg s .quiet ((s.setScheduler (s.toScheduler.removeRef cfg ref)).setPc .idle) := by
  refine remove_steps h hloc ?_ rfl rfl (h.held nofun fun c r hr => .inl hr)
  have hmove : Move cfg (s.view cfg) _ _ := .unstage hpc hhead hloc.ordinal hraw
  rw [← view_remove hloc h.tables] at hmove
  exact hmove

theorem select_steps (hpc : s.pc = .selecting round) :
    Steps cfg s (s.select cfg round env).2 (s.select cfg round env).1 := by
  unfold select
  split
  · exact h.plainPc hpc rfl rfl rfl (.inl rfl)
  split
  · exact h.plainPc hpc rfl rfl rfl (.inl rfl)
  rename_i ref hsel
  have hcand := (oldestEligible_some h.tables hsel).1
  have hloc := hcand.located
  have hhead : (s.view cfg).IsHead ref.lane ((s.lanes ref.lane).slots ref.slotIndex) :=
    head_jobs hcand.head
  dsimp only
  split
  next hraw =>
    rw [beq_iff_eq] at hraw
    unfold stage
    split
    next hstage =>
      split at hstage
      · cases hstage
        exact unstage_steps h hpc hloc hhead hraw
      · split at hstage
        · cases hstage
        · cases hstage
          exact unstage_steps h hpc hloc hhead hraw
    next ticket hstage =>
      split at hstage
      · cases hstage
      split at hstage
      next hvalid =>
        cases hstage
        refine write_steps (g := fun y => ticketSlot ticket (s.refresh cfg env.resolved y))
          h hloc (refresh_ordinal cfg (s.view cfg) env.resolved _) ?_ rfl rfl
          (h.held (fun _ hr => ?_) fun c r hr => .inl hr)
        · have hmove : Move cfg (s.view cfg) _ (((s.view cfg).edit
              (rewriteJob ref.ingressOrdinal fun y =>
                ticketSlot ticket (s.refresh cfg env.resolved y))).setPc
              (.sequencing round ref)) :=
            .stage hpc hhead hloc.ordinal hraw (accepts_of_ticketValid h hloc hvalid)
          rw [← view_write hloc h.tables] at hmove
          exact hmove
        · cases hr
          exact .inr (hloc.pinned h.tables)
      · cases hstage
  · refine h.calm rfl { Calm.refl (s.view cfg) with pc := .plain (hpc ▸ rfl) rfl rfl } rfl ?_
    intro r hr
    cases hr
    exact .inr (hloc.pinned h.tables)

end Service

/-! ## Preparation -/

section Preparation

variable {s : SlotScheduler}

/-- The job the preparation callback is about: staged, and the head of its lane. -/
structure Preparable (cfg : Config) (s : SlotScheduler) (ref : Ref) (x : Slot) : Prop where
  located : Located cfg s ref x
  head : (s.jobs cfg ref.lane).head? = some x
  staged : x.state.staged

/-- How the preparation callback can end. -/
inductive Prepares (cfg : Config) (s : SlotScheduler) (ref : Ref) : SlotScheduler × Prepared → Prop
  | lost : Prepares cfg s ref (s, .lost none)
  | refused {x : Slot} {cancels : Bool} {p : Prepared} :
      Preparable cfg s ref x → p = .lost (some x.ticket) ∨ p = .failed x.ticket →
        Prepares cfg s ref ({ s with cancelled := cancels }, p)
  | pending {x : Slot} (epoch : Nat) (retryAt : Option Int) : Preparable cfg s ref x →
        Prepares cfg s ref (s.writeRef ref (pendSlot epoch retryAt x), .pending x.ticket epoch)
  | admitted {x : Slot} {selection : Selection} {lifecycle : Bool}
      (nextService : Lane → Option Int) :
      Preparable cfg s ref x → selection.sendable cfg.maximumResponseLength →
      lifecycle = (x.controlLifecycle.accepted && selection.result == .success) →
      (lifecycle → s.lifecycleCompletionPending = false) → Prepares cfg s ref
          ({ s.writeRef ref (admitSlot x) with
              endpointNextService := nextService
              lifecycleCompletionPending := s.lifecycleCompletionPending || lifecycle },
            .admitted x.ticket selection lifecycle)

theorem advanceEndpointCadence_eq (cfg : Config) (s : SlotScheduler) (lane : Lane) (now : Int) :
    ∃ nextService, s.advanceEndpointCadence cfg lane now =
      { s with endpointNextService := nextService } := by
  unfold advanceEndpointCadence
  dsimp only
  split
  · exact ⟨s.endpointNextService, rfl⟩
  · exact ⟨_, rfl⟩

theorem admit_prepares (hx : Preparable cfg s ref x) {selection : Selection}
    (hsend : selection.sendable cfg.maximumResponseLength) (selectedAt : Int) :
    Prepares cfg s ref (s.admitSelection cfg ref x selection selectedAt) := by
  unfold admitSelection
  dsimp only
  split
  · show Prepares cfg s ref ({ s with cancelled := s.cancelled }, _)
    exact .refused hx (.inr rfl)
  next hfree =>
    obtain ⟨nextService, heq⟩ := advanceEndpointCadence_eq cfg (s.writeRef ref (admitSlot x))
      ref.lane selectedAt
    rw [heq]
    refine .admitted nextService hx hsend rfl fun hl => ?_
    rw [hl, Bool.true_and, Bool.not_eq_true] at hfree
    exact hfree

theorem mayPrepare_preparable (ht : Tables cfg s) (hx : s.slotForRef cfg ref = some x)
    (hmay : s.mayPrepare cfg ref x) : Preparable cfg s ref x ∧ s.cancelled = false := by
  have hloc := located_of_slotForRef ht hx
  unfold mayPrepare at hmay
  simp only [Bool.and_eq_true, Bool.not_eq_true', beq_iff_eq] at hmay
  obtain ⟨⟨⟨⟨-, hcancel⟩, hstaged⟩, -⟩, hhead⟩ := hmay
  refine ⟨⟨hloc, ?_, hstaged⟩, hcancel⟩
  have hjobs := head_jobs hhead
  rw [hloc.slot] at hjobs
  exact hjobs

theorem prepare_prepares (ht : Tables cfg s) (selectedAt : Int) (answer : Option Preparation)
    (cancels : Bool) : Prepares cfg s ref (s.prepare cfg ref selectedAt answer cancels) := by
  unfold prepare
  split
  · exact .lost
  rename_i x hx
  split
  · exact .lost
  rename_i hmay
  rw [Bool.not_eq_true', Bool.not_eq_false] at hmay
  obtain ⟨hprep, hlive⟩ := mayPrepare_preparable ht hx hmay
  dsimp only
  split
  · exact .refused hprep (.inr rfl)
  rename_i p
  split
  · exact .refused hprep (.inl rfl)
  rename_i hcancels
  -- the context was not cancelled before the callback nor while it ran
  have hs : ({ s with cancelled := cancels } : SlotScheduler) = s := by
    rw [Bool.not_eq_true] at hcancels
    rw [hcancels, ← hlive]
  rw [hs]
  split
  · show Prepares cfg s ref ({ s with cancelled := s.cancelled }, _)
    exact .refused hprep (.inr rfl)
  next selection hselection =>
    split
    · exact .pending p.readinessEpoch p.retryAt hprep
    rename_i hterminal
    rw [beq_iff_eq] at hterminal
    exact admit_prepares hprep (validatePreparation_sendable hselection hterminal) _

end Preparation

section PrepareStep

variable {s : SlotSystem}

theorem prepareStep_steps (h : Rep cfg s) (hpc : s.pc = .preparing round ref sequence) :
    Steps cfg s (s.prepareStep cfg round ref sequence env).2
      (s.prepareStep cfg round ref sequence env).1 := by
  have href : some ref = s.pc.ref? := by rw [hpc]; rfl
  unfold prepareStep
  dsimp only
  generalize hp : s.toScheduler.prepare cfg ref _ env.preparation env.cancels = p
  have hprep : Prepares cfg s.toScheduler ref p := hp ▸ prepare_prepares h.tables _ _ _
  cases hprep with
  | lost => exact h.plainPc hpc rfl rfl rfl (.inl rfl)
  | @refused x cancels p hx hcase =>
    rcases hcase with rfl | rfl
    · exact h.keep (.refuse hpc hx.head hx.located.ordinal hx.staged (.inr ⟨rfl, rfl⟩)) rfl rfl
        nofun fun _ _ hr => hr
    · exact h.keep (.refuse hpc hx.head hx.located.ordinal hx.staged (.inl ⟨rfl, rfl⟩)) rfl rfl
        (ref_or_pinned (.inr href)) fun _ _ hr => hr
  | @pending x epoch retryAt hx =>
    refine write_steps (g := pendSlot epoch retryAt) h hx.located rfl ?_ rfl rfl
      (h.held (ref_or_pinned (.inr href)) fun _ _ hr => .inl hr)
    have hmove : Move cfg (s.view cfg) _ (((s.view cfg).edit
        (rewriteJob ref.ingressOrdinal (pendSlot epoch retryAt))).setPc
          (.pended round ref epoch)) :=
      .pend hpc hx.head hx.located.ordinal hx.staged
    rw [← view_write hx.located h.tables] at hmove
    exact hmove
  | @admitted x selection lifecycle nextService hx hsend hlife hfree =>
    refine write_steps h hx.located (show (admitSlot x).ingressOrdinal = _ from rfl) ?_ rfl rfl
      (h.held (ref_or_pinned (.inr href)) fun _ _ hr => .inl hr)
    have hmove : Move cfg (s.view cfg) _
        { (s.view cfg).edit (rewriteJob ref.ingressOrdinal admitSlot) with
          lifecycleCompletionPending := (s.view cfg).lifecycleCompletionPending || lifecycle
          endpointNextService := nextService
          pc := .sending ⟨ref, sequence, x.ticket, selection, lifecycle⟩ } :=
      .admits hpc hx.head hx.located.ordinal hx.staged hsend hlife hfree
    rw [← view_write hx.located h.tables] at hmove
    exact hmove

end PrepareStep

/-! ## Completion and sweeps -/

section Completion

variable {s : SlotSystem}

variable {lifecycle : ControlLifecycle}

theorem lifecycleScope_eq {successor : Nat} {reason : RetireReason}
    (h : lifecycleScope lifecycle successor = some (scope, reason)) :
    scope = .lifecycle lifecycle successor := by
  unfold lifecycleScope at h
  split at h
  · cases h
  split at h
  all_goals cases h
  all_goals rfl

/-- Routing reads no table. -/
theorem route_view (lifecycle : ControlLifecycle) (published : Bool) :
    (s.view cfg).route cfg lifecycle published =
      ((s.route cfg lifecycle published).1.view cfg, (s.route cfg lifecycle published).2) := by
  unfold route applyControlLifecycleRouting
  cases published with
  | false => rfl
  | true => cases lifecycle.kind <;> rfl

variable (h : Rep cfg s)

include h

theorem Rep.admitted {a : Admission} (ha : s.pc.admission? = some a)
    (href : s.pc.ref? = some a.ref) :
    ∃ x, Located cfg s.toScheduler a.ref x ∧ s.toScheduler.slotForRef cfg a.ref = some x ∧
      (s.view cfg).find a.ref.ingressOrdinal = some x ∧ x.state = .admitted ∧
      x.ticket = a.ticket := by
  obtain ⟨x, hx, hk, hadm, hticket, -⟩ := h.inv.hand.admission a ha
  have hfind : (s.view cfg).find a.ref.ingressOrdinal = some x :=
    (findJob_eq_some h.inv.queued.nodup).2 ⟨hx, hk⟩
  have hslot := (h.find (.inl href)).trans hfind
  exact ⟨x, located_of_slotForRef h.tables hslot, hslot, hfind, hadm, hticket⟩

theorem settleStep_steps {a : Admission} {delivered completed : Bool}
    (hpc : s.pc = .settling a delivered completed) :
    Steps cfg s (s.settleStep cfg a delivered completed).2
      (s.settleStep cfg a delivered completed).1 := by
  obtain ⟨x, hloc, hslot, hfind, hadm, hticket⟩ :=
    h.admitted (a := a) (by rw [hpc]; rfl) (by rw [hpc]; rfl)
  have hown : (x.state != .admitted || x.ticket != a.ticket) = false := by
    rw [hadm, hticket, bne_self_eq_false, bne_self_eq_false]
    rfl
  unfold settleStep settle
  rw [hslot]
  dsimp only
  rw [if_neg (by rw [hown]; nofun)]
  by_cases happlies : (delivered && completed && a.lifecycleTerminalSuccess &&
      cfg.controlLifecycle.isSome && s.bindingGeneration != maxUint64)
  · rw [if_pos happlies]
    refine remove_steps h hloc ?_ rfl rfl (h.held nofun fun _ _ hr => .inl hr)
    have hmove : Move cfg (s.view cfg) _ _ := .rotate hpc hfind hadm happlies
    rw [← view_remove hloc h.tables] at hmove
    exact hmove
  · rw [if_neg happlies]
    refine remove_steps h hloc ?_ rfl rfl (h.held (fun r hr => ?_) fun _ _ hr => .inl hr)
    · have hmove : Move cfg (s.view cfg) _ _ :=
        .settle hpc hfind hadm (Bool.eq_false_iff.2 happlies)
      rw [← view_remove hloc h.tables] at hmove
      exact hmove
    · have hnone : (if a.lifecycleTerminalSuccess then Pc.routing x.controlLifecycle false
          else .idle).ref? = none := by split <;> rfl
      exact absurd (hnone.symm.trans hr) nofun

/-- A sweep by a caller, who then goes on to retire what it collected. -/
theorem sweep_steps {reason : RetireReason} {b₁ : Board}
    {s' : SlotSystem} (hby : SweepBy cfg (s.view cfg) c scope reason b₁)
    (hview : ∀ todo, (s.sweep cfg c scope reason).view cfg =
      (s.view cfg).sweptBoard c scope todo reason →
      s'.view cfg = b₁.sweptBoard c scope todo reason)
    (hlanes : s'.lanes = (s.sweep cfg c scope reason).lanes)
    (hret : s'.retiring = (s.sweep cfg c scope reason).retiring)
    (hpc : ∀ ref, s'.pc.ref? = some ref → s.pc.ref? = some ref) : Steps cfg s .quiet s' := by
  obtain ⟨lanes, todo, hsweep, hswept, hkeys, hloc⟩ := retireMatching_spec h.tables scope
  have heq : s.sweep cfg c scope reason =
      (s.setScheduler { s.toScheduler with lanes := lanes }).setRetiring c
        { todo := todo, reason := reason } := by
    unfold sweep
    rw [hsweep]
  have hboard : s'.view cfg = b₁.sweptBoard c scope todo reason := by
    refine hview todo ?_
    have hedit := view_edit (s := s) (f := filterMap (sweptSlot scope))
      fun lane => hswept.swept lane trivial
    rw [heq]
    show ((s.setScheduler { s.toScheduler with lanes := lanes }).view cfg).setRetiring c _ = _
    rw [hedit]
    rfl
  have hlanes' : s'.lanes = lanes := by
    rw [hlanes, heq]
    rfl
  have hnext : s'.nextOrdinal = s.nextOrdinal := by
    have hn : (s'.view cfg).nextOrdinal = b₁.nextOrdinal := by
      rw [hboard]
      rfl
    exact hn.trans hby.nextOrdinal
  refine ⟨?_, fun lane => ?_, fun ref hp => ?_, h.held (fun r hr => .inl (hpc r hr)) ?_⟩
  · rw [hboard]
    exact .sweep hby hkeys
  · rw [hlanes']
    exact hswept.wf lane
  · refine hp.mono ?_ (fun lane y hy => .inl ?_) (Nat.le_of_eq hnext.symm)
    · rw [hlanes']
      exact hswept.tracked _ _ _ hp.tracked
    · unfold jobs at hy
      rw [hlanes', hswept.swept lane trivial] at hy
      obtain ⟨x, hx, hxy⟩ := mem_filterMap.1 hy
      exact ⟨x, hx, (sweptSlot_ordinal hxy).symm⟩
  · intro c' r hr
    rw [hret, heq] at hr
    refine (mem_todo_update hr).imp_right fun ⟨_, hnew⟩ => ?_
    obtain ⟨x, hx⟩ := hloc r hnew
    exact hx.pinned h.tables

theorem lifecycleSweep_steps {successor : Nat} (hpc : s.pc = .sweeping lifecycle successor) :
    Steps cfg s .quiet (s.lifecycleSweep cfg lifecycle successor) := by
  unfold lifecycleSweep
  split
  next hnone =>
    refine h.quiet { Calm.refl (s.view cfg) with pc := ?_ } rfl (.inl rfl)
    show QuietPc _ s.pc _
    rw [hpc]
    exact .unswept hnone
  next scope reason hsome =>
    have hscope := lifecycleScope_eq hsome
    subst hscope
    refine sweep_steps h (.lifecycle hpc hsome) (fun todo hview => ?_) rfl rfl nofun
    show ((s.sweep cfg .service _ reason).view cfg).setPc _ = _
    rw [hview]
    rfl

theorem route_steps {published : Bool} (hpc : s.pc = .routing lifecycle published) :
    Steps cfg s (s.route cfg lifecycle published).2 (s.route cfg lifecycle published).1 := by
  have hmove : Move cfg (s.view cfg) _ _ := .route hpc (route_view lifecycle published)
  rcases hroute : s.route cfg lifecycle published with ⟨s', l⟩
  rw [hroute] at hmove
  obtain ⟨_, _, _, rfl⟩ := route_spec hroute
  exact h.keep hmove rfl rfl nofun fun _ _ hr => hr

theorem claim_steps (hpc : s.pc = .failing ref) :
    Steps cfg s .quiet (((s.setScheduler (s.toScheduler.claimRef cfg ref).1).setRetiring .service
      { todo := (s.toScheduler.claimRef cfg ref).2
        reason := .prepareFailure }).setPc .failed) := by
  have href : s.pc.ref? = some ref := by rw [hpc]; rfl
  have hnone : ∀ t : SlotScheduler, t = s.toScheduler →
      Steps cfg s .quiet (((s.setScheduler t).setRetiring .service
        { todo := [], reason := .prepareFailure }).setPc .failed) := by
    rintro t rfl
    refine h.keep (.claimNone hpc) rfl rfl nofun fun c r hr => ?_
    exact (mem_todo_update hr).resolve_right fun hnew => nomatch hnew.2
  unfold claimRef
  split
  · exact hnone _ rfl
  rename_i x hx
  have hloc := located_of_slotForRef h.tables hx
  split
  next hstaged =>
    refine write_steps h hloc (show (retireSlot x).ingressOrdinal = _ from rfl) ?_ rfl rfl
      (h.held nofun fun c r hr => ?_)
    · have hmove : Move cfg (s.view cfg) _ _ :=
        .claim hpc ((h.find (.inl href)).symm.trans hx) hstaged
      rw [← view_write hloc h.tables] at hmove
      exact hmove
    · refine (mem_todo_update hr).imp_right fun ⟨_, hnew⟩ => ?_
      rw [mem_singleton.1 hnew]
      exact hloc.pinned h.tables
  · exact hnone _ rfl

theorem drainCheck_steps {reset : ImportResetLease}
    (hpc : s.pc = .drainChecking reset) (beforeDeadline : Bool) :
    Steps cfg s .quiet (s.drainCheck reset beforeDeadline) := by
  unfold drainCheck
  split
  · exact h.plainPc hpc rfl rfl rfl (.inl rfl)
  · exact h.plainPc hpc rfl rfl rfl (.inl rfl)

theorem drainFinish_steps {reset : ImportResetLease}
    (hpc : s.pc = .drained reset) (hdone : (s.retiring .service).todo = [])
    (beforeDeadline : Bool) : Steps cfg s .quiet (s.drainFinish cfg reset beforeDeadline) := by
  have hquiet : QuietPc ((s.retiring .service).todo = []) s.pc .idle :=
    .finish hdone (.inr ⟨reset, hpc⟩)
  unfold drainFinish
  split
  · exact h.quiet { Calm.refl (s.view cfg) with pc := hquiet } rfl (.inl rfl)
  · exact h.quiet { Calm.refl (s.view cfg) with pc := hquiet } rfl (.inl rfl)

/-- Every step of the token's holder is a move. -/
theorem serviceStep_steps (env : Env) :
    Steps cfg s (s.serviceStep cfg env).2 (s.serviceStep cfg env).1 := by
  have hret : ∀ c, ∀ r ∈ (s.retiring c).todo, r ∈ (s.retiring c).todo := fun _ _ hr => hr
  unfold serviceStep
  split
  · exact h.same rfl
  next now hpc => exact poll_steps h hpc env.poll
  next now hpc => exact sample_steps h hpc env.readiness
  next round hpc => exact select_steps h hpc
  next round ref hpc =>
    have href : s.pc.ref? = some ref := by rw [hpc]; rfl
    have hmove : Move cfg (s.view cfg) _ _ := .sequence hpc (h.pinned ref (.inl href)).le
    rw [← h.find (.inl href)] at hmove
    exact h.keep hmove rfl rfl (ref_or_pinned (.inr href.symm)) hret
  next round ref sequence hpc => exact prepareStep_steps h hpc
  next round ref epoch hpc => exact recheck_steps h hpc env.readiness
  next ref hpc => exact claim_steps h hpc
  next hpc =>
    split
    next hdone =>
      have hquiet : QuietPc ((s.retiring .service).todo = []) s.pc .idle :=
        .finish hdone (.inl hpc)
      exact h.quiet { Calm.refl (s.view cfg) with pc := hquiet } rfl (.inl rfl)
    · exact h.same rfl
  next a hpc =>
    have ha : s.pc.admission? = some a := by rw [hpc]; rfl
    rw [if_pos (h.inv.hand.sendable a ha)]
    exact h.keep (.send hpc) rfl rfl (ref_or_pinned (.inr (by rw [hpc]; rfl))) hret
  next a delivered hpc =>
    exact h.keep (.complete hpc) rfl rfl (ref_or_pinned (.inr (by rw [hpc]; rfl))) hret
  next a delivered completed hpc => exact settleStep_steps h hpc
  next lifecycle successor hpc => exact lifecycleSweep_steps h hpc
  next lifecycle hpc =>
    split
    next hdone =>
      have hquiet : QuietPc ((s.retiring .service).todo = []) s.pc
          (.routing lifecycle (!(s.retiring .service).failed)) := by
        rw [hpc]
        exact .routing lifecycle _ hdone
      exact h.quiet { Calm.refl (s.view cfg) with pc := hquiet } rfl (.inl rfl)
    · exact h.same rfl
  next lifecycle published hpc => exact route_steps h hpc
  next reset hpc => exact drainCheck_steps h hpc _
  next reset hpc =>
    refine sweep_steps h (.drain hpc) (fun todo hview => ?_) rfl rfl nofun
    show ((s.sweep cfg .service (.session cfg.session) .deviceReset).view cfg).setPc _ = _
    rw [hview]
    rfl
  next reset hpc =>
    split
    next hdone => exact drainFinish_steps h hpc hdone _
    · exact h.same rfl

end Completion

/-! ## The command reader -/

section Reader

variable {s : SlotSystem}

/-- What `unlink` can find. -/
inductive Unlinks (cfg : Config) (s : SlotScheduler) (sequence : UInt32) :
    SlotScheduler × Option Slot × List Retirement → Prop
  | none : Unlinks cfg s sequence (s, none, [])
  | raw {ref : Ref} {x : Slot} :
      Located cfg s ref x → x.sequence = sequence → x.state = .rawQueued →
        Unlinks cfg s sequence (s.removeRef cfg ref, some x, [])
  | staged {ref : Ref} {x : Slot} :
      Located cfg s ref x → x.sequence = sequence → x.state.staged →
        Unlinks cfg s sequence (s.writeRef ref (retireSlot x), some x, [⟨ref, x.ticket⟩])

theorem findSequence_located {s : SlotScheduler} (h : s.findSequence cfg sequence = some (ref, x)) :
    Located cfg s ref x ∧ x.sequence = sequence := by
  obtain ⟨lane, -, h⟩ := exists_of_findSome?_eq_some h
  obtain ⟨idx, hidx, h⟩ := exists_of_findSome?_eq_some h
  dsimp only at h
  split at h
  next hseq =>
    cases h
    exact ⟨⟨hidx, rfl, rfl⟩, beq_iff_eq.1 hseq⟩
  · cases h

theorem unlink_unlinks {s : SlotScheduler} (ht : Tables cfg s) (sequence : UInt32) :
    Unlinks cfg s sequence (s.unlink cfg sequence) := by
  unfold unlink
  split
  · exact .none
  rename_i ref x hfind
  obtain ⟨hloc, hseq⟩ := findSequence_located hfind
  split
  · exact .none
  rename_i hlive
  split
  next hraw => exact .raw hloc hseq (beq_iff_eq.1 hraw)
  next hraw =>
    refine .staged hloc hseq ?_
    rcases (ht.queued.job _ x hloc.job).state with hs | hs | hs | hs
    · exact absurd (beq_iff_eq.2 hs) hraw
    · exact hs
    · simp [hs] at hlive
    · simp [hs] at hlive

theorem envelopeForSubmission_sequence {limits : Limits} {hd : Header} {payload : List UInt8}
    {generation : Nat}
    (h : envelopeForSubmission limits hd payload generation = some e) : e.sequence = hd.seq := by
  unfold envelopeForSubmission at h
  split at h
  · cases h
  split at h
  · cases h
  dsimp only at h
  repeat' split at h
  all_goals cases h
  all_goals rfl

/-- A submission keeps the sequence of its header. -/
theorem classify_submit {hd : Header} {payload : Option (List UInt8)} {isoRead : Bool}
    (h : classify cfg hd payload isoRead = .submit e) : e.sequence = hd.seq := by
  unfold classify at h
  repeat' split at h
  all_goals cases h
  exact envelopeForSubmission_sequence ‹_›

variable (h : Rep cfg s)

include h

/-- The reader gives up what it reserved. -/
theorem abandon_steps (hl : l.silent) (hhand : s.reader.hand = .reserved sequence)
    (hdone : s.reader.waits → (s.retiring .reader).todo = []) (failed : Bool) :
    Steps cfg s l ({ s with failed := failed }.stopReader (some sequence)) :=
  h.keep (.abandon hl hhand hdone) rfl rfl (fun _ hr => .inl hr) fun _ _ hr => hr

/-- The reader goes on without touching a job or a reservation. -/
theorem reader_steps (hl : l.silent) {reader : ReaderPc}
    (hquiet : QuietReader ((s.retiring .reader).todo = []) s.reader reader) :
    Steps cfg s l { s with reader := reader } :=
  h.calm hl { Calm.refl (s.view cfg) with reader := hquiet } rfl fun _ hr => .inl hr

theorem readHeader_steps (hr : s.reader = .reading) (header : Option Header) :
    Steps cfg s (s.readHeader cfg header).2 (s.readHeader cfg header).1 := by
  have hstop : ∀ l : Label, l.silent → Steps cfg s l (s.stopReader none) := by
    intro l hl
    refine reader_steps h hl (.inr ⟨by rw [hr]; nofun, ?_, rfl, ?_⟩)
    · rw [hr]
      rfl
    · rw [hr]
      nofun
  unfold readHeader
  split
  · exact hstop _ rfl
  rename_i hd
  split
  · exact hstop _ rfl
  split
  · exact hstop _ rfl
  rename_i t ht
  simp only [reserveFramingSequence, ite_eq_iff, reduceCtorEq, and_false, false_or] at ht
  obtain ⟨-, -, hqueued, hnot, ht⟩ := ht
  cases ht
  refine h.keep (.frame (h := hd) hr ?_ ?_) rfl rfl (fun _ hr => .inl hr) fun _ _ hr => hr
  · have hfree : hd.seq ∉ s.framingSequences := by simpa using hnot
    exact hfree
  · rw [sequencePending_eq] at hqueued
    exact Bool.eq_false_iff.2 hqueued

/-- A submission is unlinked; `s₁` is where its caller goes. -/
theorem unlink_steps (s₁ : SlotSystem) {t : SlotScheduler} {todo : List Retirement}
    (hu : Unlinks cfg s.toScheduler sequence (t, some x, todo))
    (hby : UnlinkBy (s.view cfg) c (!todo.isEmpty) (s₁.view cfg))
    (hs : s₁.toScheduler = s.toScheduler) (hpc : s₁.pc = s.pc) (hret : s₁.retiring = s.retiring) :
    Steps cfg s (.unlinked x.ingressOrdinal sequence)
      ((s₁.setScheduler t).setRetiring c { todo := todo, reason := .unlink }) := by
  have hheld (hnew : ∀ r ∈ todo, Pinned cfg s.toScheduler r.ref) :
      ∀ ref, ((s₁.setScheduler t).setRetiring c { todo := todo, reason := .unlink }).Holds ref →
        Pinned cfg s.toScheduler ref := h.held (fun r hr => .inl (hpc ▸ hr)) fun c' r hr =>
      (mem_todo_update hr).imp (fun hold => hret ▸ hold) fun ⟨_, hr⟩ => hnew r hr
  cases hu with
  | @raw ref _ hloc hseq hraw =>
    subst hseq
    refine remove_steps h hloc ?_ rfl rfl (hheld nofun)
    have hview := view_remove (s := s₁) (hs.symm ▸ hloc) (hs.symm ▸ h.tables)
    have hmove : Move cfg _ _ _ := .unlinkRaw hby (hloc.ordinal ▸ hloc.find h.tables) hraw
    rw [← hloc.ordinal] at hview
    rw [← hview, hs] at hmove
    exact hmove
  | @staged ref _ hloc hseq hstaged =>
    subst hseq
    refine write_steps h hloc (show (retireSlot x).ingressOrdinal = _ from rfl) ?_ rfl rfl
      (hheld fun r hr => ?_)
    · have hview := view_write (s := s₁) (hs.symm ▸ hloc) (hs.symm ▸ h.tables) retireSlot
      have hmove : Move cfg _ _ _ := .unlinkStaged hby (hloc.ordinal ▸ hloc.find h.tables) hstaged
        hloc.ordinal.symm
      rw [← hloc.ordinal] at hview
      rw [← hview, hs] at hmove
      exact hmove
    · rw [mem_singleton.1 hr]
      exact hloc.pinned h.tables

theorem readBody_steps {hd : Header} (hr : s.reader = .framed hd) (input : Input) :
    Steps cfg s (s.readBody cfg hd input).2 (s.readBody cfg hd input).1 := by
  have hquiet : ∀ reader : ReaderPc, reader.hand = .reserved hd.seq → reader.waits = false →
      Steps cfg s .quiet { s with reader := reader } := by
    intro reader hhand hwaits
    refine reader_steps h rfl (.inr ⟨by rw [hr]; nofun, ?_, hwaits, ?_⟩)
    · rw [hhand, hr]
      rfl
    · rw [hr]
      nofun
  unfold readBody
  split
  · refine abandon_steps h rfl ?_ ?_ s.failed
    · rw [hr]
      rfl
    · rw [hr]
      nofun
  next sequence _ =>
    generalize hu : s.toScheduler.unlink cfg sequence = u
    have hunlink : Unlinks cfg s.toScheduler sequence u := hu ▸ unlink_unlinks h.tables sequence
    cases hunlink with
    | none => exact hquiet _ rfl rfl
    | raw hloc hseq hraw =>
      exact unlink_steps h { s with reader := .finishing hd.seq (.retUnlink errConnReset) }
        (.raw hloc hseq hraw) (.reader hr rfl rfl) rfl rfl rfl
    | staged hloc hseq hstaged =>
      exact unlink_steps h { s with reader := .unlinking hd.seq } (.staged hloc hseq hstaged)
        (.reader hr rfl rfl) rfl rfl rfl
  · exact hquiet _ rfl rfl
  next e hclass =>
    have hhand : (ReaderPc.enqueueing e).hand = .reserved hd.seq := by
      rw [← classify_submit hclass]
      rfl
    exact hquiet _ hhand rfl

/-- A submission is enqueued; `s₁` is where its caller goes. -/
theorem enqueue_steps {requireReservation : Bool}
    {command : Option Nat} {reader : ReaderPc} {t : SlotScheduler}
    (hok : s.toScheduler.enqueue cfg e requireReservation = .ok t)
    (hby : EnqueueBy (s.view cfg) e requireReservation command reader) :
    Steps cfg s (.enqueued (s.nextOrdinal + 1) e.sequence command)
      { s.setScheduler t with reader := reader } := by
  obtain ⟨lane, q, hvalid, hlane, hrefusal, hq, rfl⟩ := enqueue_spec hok
  rw [sequencePending_eq] at hrefusal
  refine ⟨?_, fun lane' => wf_setLane h.wf ((h.wf lane).alloc hq) lane',
    fun ref hp => hp.push h.tables hq rfl rfl rfl,
    h.held (fun _ hr => .inl hr) fun _ _ hr => .inl hr⟩
  have hmove : Move cfg (s.view cfg) _ _ := .enqueue hvalid hlane hrefusal hby
  have hlanes : (fun lane' => ((update s.lanes lane q) lane').jobs (cfg.depth lane')) =
      update (s.view cfg).lanes lane ((s.view cfg).lanes lane ++
        [slotFor cfg (s.stamp cfg e) (s.nextOrdinal + 1)]) := by
    funext lane'
    by_cases hl : lane' = lane
    · subst hl
      rw [update_self, update_self]
      exact SlotQueue.jobs_alloc (h.wf lane') hq
    · rw [update_of_ne hl, update_of_ne hl]
      rfl
  unfold view setScheduler mapLanes setLane
  rw [hlanes]
  exact hmove

theorem readEnqueue_steps (hr : s.reader = .enqueueing e) :
    Steps cfg s (s.readEnqueue cfg e).2 (s.readEnqueue cfg e).1 := by
  have hhand : s.reader.hand = .reserved e.sequence := by
    rw [hr]
    rfl
  have hwaits : s.reader.waits → (s.retiring .reader).todo = [] := by
    rw [hr]
    nofun
  unfold readEnqueue
  split
  next t hok => exact enqueue_steps h hok (.inr ⟨rfl, rfl, hr, rfl⟩)
  · exact h.same rfl
  · exact h.same rfl
  · exact reader_steps h rfl (.inr ⟨by rw [hr]; nofun, hhand.symm, rfl, hwaits⟩)
  · exact reader_steps h rfl (.inr ⟨by rw [hr]; nofun, hhand.symm, rfl, hwaits⟩)
  · exact abandon_steps h rfl hhand hwaits s.failed

/-- Every step of the command reader is a move. -/
theorem readerStep_steps (input : Input) :
    Steps cfg s (s.readerStep cfg input).2 (s.readerStep cfg input).1 := by
  unfold readerStep
  split
  next hr => exact readHeader_steps h hr input.header
  next hd hr => exact readBody_steps h hr input
  next sequence hr =>
    have hhand : s.reader.hand = .reserved sequence := by
      rw [hr]
      rfl
    split
    next hdone =>
      split
      · exact abandon_steps h rfl hhand (fun _ => hdone) true
      · exact reader_steps h rfl (.inr ⟨by rw [hr]; nofun, hhand.symm, rfl, fun _ => hdone⟩)
    · exact h.same rfl
  next sequence reply hr =>
    split
    · exact h.keep (.finish hr) rfl rfl (fun _ hr => .inl hr) fun _ _ hr => hr
    refine abandon_steps h rfl ?_ ?_ s.failed
    · rw [hr]
      rfl
    · rw [hr]
      nofun
  next sequence reply hr =>
    refine h.keep (.reply hr ?_) rfl rfl (fun _ hr => .inl hr) fun _ _ hr => hr
    split
    · exact .inl rfl
    · exact .inr rfl
  next e hr => exact readEnqueue_steps h hr
  · exact h.same rfl

end Reader

/-! ## Everyone else -/

section Calls

variable {s : SlotSystem}

/-- One call goes on without touching a job. -/
theorem quietCall_update {closed : Prop} {n : Nat} {pc : CallPc}
    (h : QuietCall closed ((s.retiring (.other n)).todo = []) (s.calls n) pc) (m : Nat) :
    QuietCall closed ((s.retiring (.other m)).todo = []) (s.calls m) (update s.calls n pc m) := by
  rw [update_apply]
  split
  next hm => exact hm ▸ h
  · exact .keep _

variable (h : Rep cfg s)

include h

/-- A call goes on, and touches no job. -/
theorem call_steps {n : Nat} {pc : CallPc}
    (hquiet : QuietCall (s.closed) ((s.retiring (.other n)).todo = []) (s.calls n) pc)
    (cancelled failed : Bool) :
    Steps cfg s .quiet { s.setCall n pc with cancelled := cancelled, failed := failed } :=
  h.calm rfl { Calm.refl (s.view cfg) with calls := quietCall_update hquiet } rfl
    fun _ hr => .inl hr

theorem Rep.owed {rest : List Retirement} (htodo : (s.retiring c).todo = r :: rest) :
    ∃ x, Located cfg s.toScheduler r.ref x ∧ s.toScheduler.slotForRef cfg r.ref = some x ∧
      x.state = .lifecycleRetired ∧ r.ticket ≠ {} := by
  obtain ⟨x, hx, hkey, hs⟩ := h.inv.owed.first (c := c) htodo
  have hk : x.ingressOrdinal = r.ref.ingressOrdinal := congrArg Prod.fst hkey
  have hticket : x.ticket = r.ticket := congrArg Prod.snd hkey
  have hfind : (s.view cfg).find r.ref.ingressOrdinal = some x :=
    (findJob_eq_some h.inv.queued.nodup).2 ⟨hx, hk⟩
  have href : s.Holds r.ref := .inr ⟨c, r, by rw [htodo]; exact mem_cons_self, rfl⟩
  have hslot := (h.find href).trans hfind
  obtain ⟨lane, hlane⟩ := mem_allJobs.1 hx
  refine ⟨x, located_of_slotForRef h.tables hslot, hslot, hs, ?_⟩
  rw [← hticket]
  exact ((h.inv.queued.job lane x hlane).ticket (by rw [hs]; nofun)).1 |> Ticket.ne_zero

theorem retireFirst_steps (c : Caller) (succeeds : Bool) :
    Steps cfg s (s.retireFirst c succeeds).2 (s.retireFirst c succeeds).1 := by
  unfold retireFirst
  dsimp only
  split
  next r rest htodo hcalled =>
    obtain ⟨x, -, -, -, hne⟩ := h.owed htodo
    rw [if_neg hne]
    refine h.keep (.retire htodo hcalled) rfl rfl (fun _ hr => .inl hr) fun c' r' hr' => ?_
    rcases mem_todo_update hr' with hold | ⟨rfl, hnew⟩
    · exact hold
    · exact hnew
  · exact h.same rfl

theorem releaseFirst_steps (c : Caller) : Steps cfg s .quiet (s.releaseFirst cfg c) := by
  unfold releaseFirst
  dsimp only
  split
  next r rest htodo hcalled =>
    obtain ⟨x, hloc, hslot, hs, -⟩ := h.owed htodo
    unfold releaseRetired
    rw [hslot]
    dsimp only
    rw [if_pos (beq_iff_eq.2 hs)]
    refine remove_steps h hloc ?_ rfl rfl (h.held (fun _ hr => .inl hr) fun c' r' hr' => ?_)
    · have hmove : Move cfg (s.view cfg) _ _ := .release htodo hcalled
      rw [← view_remove hloc h.tables] at hmove
      exact hmove
    · rcases mem_todo_update hr' with hold | ⟨rfl, hnew⟩
      · exact .inl hold
      · rw [htodo]
        exact .inl (mem_cons_of_mem _ hnew)
  · exact h.same rfl

theorem callUnlink_steps (n : Nat) (sequence : UInt32) :
    Steps cfg s (s.callUnlink cfg n sequence).2 (s.callUnlink cfg n sequence).1 := by
  unfold callUnlink
  split
  next hidle =>
    generalize hu : s.toScheduler.unlink cfg sequence = u
    have hunlink : Unlinks cfg s.toScheduler sequence u := hu ▸ unlink_unlinks h.tables sequence
    cases hunlink with
    | none => exact h.same rfl
    | raw hloc hseq hraw =>
      exact unlink_steps h (s.setCall n .idle) (.raw hloc hseq hraw) (.call hidle rfl) rfl rfl rfl
    | staged hloc hseq hstaged =>
      exact unlink_steps h (s.setCall n (.retiring .unlink)) (.staged hloc hseq hstaged)
        (.call hidle rfl) rfl rfl rfl
  · exact h.same rfl

theorem callRetire_steps (n : Nat) (call : RetireCall) (reason : RetireReason) :
    Steps cfg s .quiet (s.callRetire cfg n call reason) := by
  unfold callRetire
  split
  next scope hidle _ =>
    refine sweep_steps h (.call hidle) (fun todo hview => ?_) rfl rfl fun _ hr => hr
    show ((s.sweep cfg (.other n) scope reason).view cfg).setCall n _ = _
    rw [hview]
    rfl
  · exact h.same rfl

theorem callShutdown_steps (n : Nat) (reason : RetireReason) :
    Steps cfg s .quiet (s.callShutdown n reason) := by
  unfold callShutdown
  split
  next hidle =>
    have hcall : QuietCall (true) ((s.retiring (.other n)).todo = []) (s.calls n)
        (.cancelling reason) := by
      rw [hidle]
      exact .start reason rfl
    exact h.calm rfl
      { Calm.refl (s.view cfg) with closed := fun _ => rfl, calls := quietCall_update hcall } rfl
      fun _ hr => .inl hr
  · exact h.same rfl

theorem finishCall_steps {n : Nat} {kind : CallKind}
    (hcall : s.calls n = .retiring kind) (hdone : (s.retiring (.other n)).todo = []) :
    Steps cfg s .quiet (s.finishCall n kind) := by
  have hidle : QuietCall (s.closed) ((s.retiring (.other n)).todo = []) (s.calls n)
      .idle := by
    rw [hcall]
    exact .finish kind hdone
  unfold finishCall
  split
  · exact call_steps h hidle _ _
  · exact call_steps h hidle _ _
  · exact h.calm rfl
      { Calm.refl (s.view cfg) with
        calls := quietCall_update hidle
        shutDown := fun _ => .inr ⟨n, hcall⟩ } rfl fun _ hr => .inl hr

theorem callStep_steps (n : Nat) : Steps cfg s .quiet (s.callStep cfg n) := by
  unfold callStep
  split
  · exact h.same rfl
  next reason hcall =>
    refine call_steps h ?_ _ _
    rw [hcall]
    exact .cancelled reason
  next reason hcall =>
    refine sweep_steps h (.shutdown hcall) (fun todo hview => ?_) rfl rfl fun _ hr => hr
    show ((s.sweep cfg (.other n) (.session cfg.session) reason).view cfg).setCall n _ = _
    rw [hview]
    rfl
  next kind hcall =>
    split
    next hdone => exact finishCall_steps h hcall hdone
    · exact h.same rfl

theorem callEnqueue_steps (e : Envelope) :
    Steps cfg s (s.callEnqueue cfg e).2 (s.callEnqueue cfg e).1 := by
  unfold callEnqueue
  split
  next t hok => exact enqueue_steps h hok (.inl ⟨rfl, rfl, rfl⟩)
  · exact h.same rfl

theorem startRound_steps (now : Int) : Steps cfg s .quiet (s.startRound now) := by
  unfold startRound
  split
  next hpc => exact h.plainPc hpc rfl rfl rfl (.inl rfl)
  · exact h.same rfl

theorem startDrain_steps (reservation : Nat) (reset : ImportResetLease) (beforeDeadline : Bool) :
    Steps cfg s .quiet (s.startDrain cfg reservation reset beforeDeadline) := by
  unfold startDrain
  split
  next hpc =>
    split
    · exact h.plainPc hpc rfl rfl rfl (.inl rfl)
    · exact h.same rfl
  · exact h.same rfl

/-- The gates and flags, which no job and no caller depends on. -/
theorem gates_steps {s' : SlotSystem} (hcalm : Calm (s.view cfg) (s'.view cfg))
    (hlanes : s'.lanes = s.lanes) (hpc : s'.pc = s.pc) : Steps cfg s .quiet s' :=
  h.quiet hcalm hlanes (.inr (by rw [hpc]))

/-- A gate which opens for its own reservation only. -/
theorem gated_steps {p : Prop} [Decidable p] {s' : SlotSystem}
    (hcalm : Calm (s.view cfg) (s'.view cfg)) (hlanes : s'.lanes = s.lanes) (hpc : s'.pc = s.pc) :
    Steps cfg s .quiet (if p then s' else s) := by
  split
  · exact gates_steps h hcalm hlanes hpc
  · exact h.same rfl

/-- **Every step of the scheduler is one move of its board.** -/
theorem step_refines (op : Op) : Steps cfg s (s.step cfg op).2 (s.step cfg op).1 := by
  cases op with
  | startRound now => exact startRound_steps h now
  | startDrain reservation reset beforeDeadline =>
    exact startDrain_steps h reservation reset beforeDeadline
  | service env => exact serviceStep_steps h env
  | read input => exact readerStep_steps h input
  | enqueue e => exact callEnqueue_steps h e
  | unlink n sequence => exact callUnlink_steps h n sequence
  | retireMatching n call reason => exact callRetire_steps h n call reason
  | shutdown n reason => exact callShutdown_steps h n reason
  | proceed n => exact callStep_steps h n
  | retire c succeeds => exact retireFirst_steps h c succeeds
  | release c => exact releaseFirst_steps h c
  | cancel | recordFailure => exact gates_steps h { Calm.refl (s.view cfg) with } rfl rfl
  | close =>
    show Steps cfg s .quiet (s.closeGate cfg)
    unfold closeGate
    split
    · exact gates_steps h
        { Calm.refl (s.view cfg) with closed := fun _ => rfl, calls := fun _ => .keep _ } rfl rfl
    · exact gates_steps h
        { Calm.refl (s.view cfg) with closed := fun _ => rfl, calls := fun _ => .keep _ } rfl rfl
  | activateImport | openAdmission | closeAdmission | fenceReset | reopenAfterReset =>
    exact gated_steps h { Calm.refl (s.view cfg) with } rfl rfl

end Calls

/-! ## Runs -/

theorem rep_initial (cfg : Config) (epoch : Nat) : Rep cfg (newSystem cfg epoch) where
  wf := fun lane => SlotQueue.wf_blank (Limits.queueDepth_pos cfg.limits_valid lane) _
  inv := Inv.initial (fun _ => rfl) (fun _ => rfl) rfl
  pinned := by
    rintro ref (href | ⟨c, r, hr, -⟩)
    · cases href
    · cases hr

/-- **Every state a new scheduler reaches represents a board with its invariant.** -/
theorem rep_run (cfg : Config) (epoch : Nat) (ops : List Op) :
    Rep cfg (final (step cfg) (newSystem cfg epoch) ops) :=
  invariant_final (I := Rep cfg) (fun _ op h => h.steps (step_refines h op)) (rep_initial cfg epoch)
    ops

/-- Every run of the scheduler is a run of its board, and ends in a state which represents
what it shows. -/
theorem scheduler_refines_board (cfg : Config) (epoch : Nat) (ops : List Op) :
    LabelledRun (fun _ _ => True) (Move cfg) ((newSystem cfg epoch).view cfg)
        ((trace (step cfg) (newSystem cfg epoch) ops).map (·.out))
        ((final (step cfg) (newSystem cfg epoch) ops).view cfg) ∧
      Rep cfg (final (step cfg) (newSystem cfg epoch) ops) := by
  refine ⟨labelledRun_run (I := Rep cfg) (·.view cfg) _ (fun s op h => ?_) (rep_initial cfg epoch)
    ops, rep_run cfg epoch ops⟩
  have hs := step_refines h op
  exact ⟨h.steps hs, hs.move⟩

end Viiper.Ports.Retained
