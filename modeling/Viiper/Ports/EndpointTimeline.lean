import Viiper.Ports.EndpointOrder
import Viiper.Verified.Timeline

/-!
# The reservations of an endpoint worker

Every job holds a window `[serviceAt, serviceEnd)` of the endpoint's time line.  Admission,
unlinking, lateness and retention all rewrite windows; `Booked` is what each of them
restores.  The windows of the live jobs — the job in flight while it is neither cancelled
nor of an older generation, then the queue — follow each other without overlap, and the
cursor lies behind all of them.

The cursor need not be the end of the last queued job.  An unlink which takes the last of
several queued jobs away puts it where that job was to be served, and the job now last may
end long before: `unlinked_tail_leaves_cursor`.
-/

namespace Viiper.Ports.Endpoint

open Verified Go Run Timeline Function List EndpointJob EndpointWorker

namespace EndpointJob

/-- The reserved window. -/
def window (job : EndpointJob) : Window Time := ⟨job.serviceAt, job.serviceEnd⟩

/-- The window is as long as the job's duration. -/
structure Whole (job : EndpointJob) : Prop where
  serviceEnd : job.serviceEnd = job.serviceAt + job.duration
  duration : 0 ≤ job.duration

end EndpointJob

def windows (slots : Nat → EndpointJob) (idxs : List Nat) : List (Window Time) :=
  idxs.map fun i => (slots i).window

theorem windows_congr {slots slots' : Nat → EndpointJob} {idxs : List Nat}
    (h : ∀ i ∈ idxs, (slots' i).window = (slots i).window) :
    windows slots' idxs = windows slots idxs :=
  map_congr_left h

/-! ## What a reflow lays out -/

section Reflow

variable {slots : Nat → EndpointJob} {anchor : Time} {idxs : List Nat}

theorem reflow_cons (idx : Nat) : reflow slots anchor (idx :: idxs) =
      reflow (reflowJob (slots, anchor) idx).1 (anchor + (slots idx).duration) idxs := rfl

theorem reflow_layOut (hnodup : idxs.Nodup) : windows (reflow slots anchor idxs).1 idxs =
        layOut anchor (idxs.map fun i => (slots i).duration) ∧
      (reflow slots anchor idxs).2 = layEnd anchor (idxs.map fun i => (slots i).duration) := by
  induction idxs generalizing slots anchor with
  | nil => exact ⟨rfl, rfl⟩
  | cons idx idxs ih =>
    rw [nodup_cons] at hnodup
    have hdurations : idxs.map (fun i =>
        ((reflowJob (slots, anchor) idx).1 i).duration) =
        idxs.map fun i => (slots i).duration := by
      apply map_congr_left
      intro i hi
      have hne : i ≠ idx := fun h => hnodup.1 (h ▸ hi)
      exact congrArg duration (update_of_ne hne _ _)
    obtain ⟨hwindows, hend⟩ := @ih (reflowJob (slots, anchor) idx).1
      (anchor + (slots idx).duration) hnodup.2
    rw [hdurations] at hwindows hend
    rw [reflow_cons, windows, map_cons, map_cons, layOut, layEnd]
    refine ⟨?_, hend⟩
    have hhead : ((reflow (reflowJob (slots, anchor) idx).1
        (anchor + (slots idx).duration) idxs).1 idx).window =
        ⟨anchor, anchor + (slots idx).duration⟩ := by
      rw [reflow_frame hnodup.1]
      show (update slots idx _ idx).window = _
      rw [update_self]
      rfl
    rw [hhead]
    exact congrArg _ hwindows

/-- A reflow keeps every window as long as its job. -/
theorem reflow_whole {i : Nat} (h : (slots i).Whole) : ((reflow slots anchor idxs).1 i).Whole := by
  induction idxs generalizing slots anchor with
  | nil => exact h
  | cons idx idxs ih =>
    apply ih
    show (update slots idx _ i).Whole
    rw [update_apply]
    split
    next hi => exact ⟨rfl, hi ▸ h.duration⟩
    · exact h

/-- The last job of a reflow ends where the cursor is put. -/
theorem reflow_last (hnodup : idxs.Nodup) {last : Nat} (hlast : idxs.getLast? = some last) :
    ((reflow slots anchor idxs).1 last).serviceEnd = (reflow slots anchor idxs).2 := by
  obtain ⟨hwindows, hend⟩ := @reflow_layOut slots anchor idxs hnodup
  have hget : (windows (reflow slots anchor idxs).1 idxs).getLast? =
      some ((reflow slots anchor idxs).1 last).window := by
    rw [windows, getLast?_map, hlast]
    rfl
  rw [hwindows] at hget
  rw [hend]
  exact stop_getLast_layOut hget

end Reflow

namespace Line

/-! ## Live jobs -/

/-- The job in flight, while it is neither cancelled nor of an older
generation. -/
def active (l : Line) : List Nat :=
  l.inFlight.toList.filter fun i =>
    decide ((l.slots i).cancelled = false ∧ (l.slots i).generation = l.generation)

/-- The jobs which still own their windows, in order of service. -/
def live (l : Line) : List Nat := l.active ++ l.queue

/-- The windows of the live jobs are spaced, and the cursor is behind them. -/
structure Booked (l : Line) : Prop where
  whole : ∀ i ∈ l.held, (l.slots i).Whole
  idle : l.cursor = none → l.live = []
  spaced : ∀ t, l.cursor = some t → Spaced (windows l.slots l.live) t

section Live

variable {l l' : Line}

theorem active_of_none (h : l.inFlight = none) : l.active = [] := by
  simp [active, h]

theorem active_of_active {idx : Nat} (h : l.inFlight = some idx)
    (hactive : l.Active idx) : l.active = [idx] := by
  simp [active, h, hactive.1, hactive.2]

theorem active_of_cancelled {idx : Nat} (h : l.inFlight = some idx)
    (hcancelled : (l.slots idx).cancelled) : l.active = [] := by
  simp [active, h, hcancelled]

theorem active_congr (hflight : l'.inFlight = l.inFlight)
    (hgeneration : l'.generation = l.generation)
    (hjob : ∀ i, l.inFlight = some i → (l'.slots i).cancelled = (l.slots i).cancelled ∧
        (l'.slots i).generation = (l.slots i).generation) :
    l'.active = l.active := by
  rw [active, active, hflight, hgeneration]
  apply filter_congr
  intro i hi
  obtain ⟨hcancelled, hgen⟩ := hjob i (by simpa using hi)
  rw [hcancelled, hgen]

theorem active_sublist : l.active.Sublist l.inFlight.toList :=
  filter_sublist

theorem mem_held_of_live {i : Nat} (h : i ∈ l.live) : i ∈ l.held := by
  rcases mem_append.1 h with ha | hq
  · exact mem_append_right _ (active_sublist.subset ha)
  · exact mem_held_of_queue hq

end Live

namespace Booked

variable {c : Config} {l l' : Line} {label : Label}

variable (h : Booked l)

include h

/-- Dropping live jobs, with no window changed, keeps the book. -/
theorem of_sublist (hheld : ∀ i ∈ l'.held, i ∈ l.held)
    (hwindow : ∀ i ∈ l'.held, (l'.slots i).window = (l.slots i).window)
    (hduration : ∀ i ∈ l'.held, (l'.slots i).duration = (l.slots i).duration)
    (hlive : l'.live.Sublist l.live) (hcursor : l'.cursor = l.cursor) : Booked l' where
  whole := by
    intro i hi
    have hold := h.whole i (hheld i hi)
    have hwin := hwindow i hi
    rw [window, window, Window.mk.injEq] at hwin
    refine ⟨?_, ?_⟩
    · rw [hwin.1, hwin.2, hduration i hi]
      exact hold.serviceEnd
    · rw [hduration i hi]
      exact hold.duration
  idle := by
    intro hnone
    rw [hcursor] at hnone
    rw [h.idle hnone] at hlive
    exact sublist_nil.1 hlive
  spaced := by
    intro t ht
    rw [hcursor] at ht
    rw [windows_congr fun i hi => hwindow i (mem_held_of_live hi)]
    exact (h.spaced t ht).sublist (hlive.map _) (le_refl _)

/-- The durations of held jobs are not negative. -/
theorem durations {idxs : List Nat} (hsub : ∀ i ∈ idxs, i ∈ l.held) :
    ∀ d ∈ idxs.map (fun i => (l.slots i).duration), 0 ≤ d := by
  intro d hd
  obtain ⟨i, hi, rfl⟩ := mem_map.1 hd
  exact (h.whole i (hsub i hi)).duration

/-- The cursor is behind every live job. -/
theorem cursor_of_live {i : Nat} (hi : i ∈ l.live) :
    ∃ cursor, l.cursor = some cursor ∧ (l.slots i).serviceEnd ≤ cursor := by
  cases hcursor : l.cursor with
  | none =>
    rw [h.idle hcursor] at hi
    cases hi
  | some cursor =>
    exact ⟨cursor, rfl, ((h.spaced cursor hcursor).proper _ (mem_map_of_mem hi)).2⟩

variable {job : EndpointJob}

/-- Moving the whole queue behind a spaced front keeps the book. -/
theorem reflowQueue (hpartition : l.Partition) {idx : Nat}
    (hflight : l.inFlight = some idx) (hjob : job.Whole) {anchor : Time} (bound : Time)
    (hfront : Spaced (windows (update l.slots idx job)
      (active { l with slots := update l.slots idx job })) bound)
    (hanchor : bound ≤ anchor) :
    Booked (l.reflowQueue (update l.slots idx job) anchor) := by
  have hactive : (l.reflowQueue (update l.slots idx job) anchor).active =
      active { l with slots := update l.slots idx job } := by
    apply active_congr
    · rfl
    · rfl
    · intro i _
      have hsame := @reflow_same (update l.slots idx job) anchor l.queue i
      exact ⟨hsame.cancelled, hsame.generation⟩
  have hdurations : l.queue.map (fun i =>
      (update l.slots idx job i).duration) =
      l.queue.map fun i => (l.slots i).duration :=
    map_congr_left fun i hi =>
      congrArg duration (hpartition.update_inFlight hflight job hi)
  obtain ⟨hwindows, hend⟩ := @reflow_layOut (update l.slots idx job) anchor _ hpartition.queue_nodup
  rw [hdurations] at hwindows hend
  refine ⟨?_, (fun hnone => by cases hnone), ?_⟩
  · intro i hi
    apply reflow_whole
    rw [update_apply]
    split
    · exact hjob
    · exact h.whole i hi
  · intro t ht
    cases ht
    show Spaced (windows (reflow _ anchor l.queue).1 (_ ++ l.queue)) (reflow _ anchor l.queue).2
    rw [hactive, hend, windows, map_append]
    rw [show l.queue.map _ = _ from hwindows]
    have hkeep : windows (reflow (update l.slots idx job) anchor l.queue).1
        (active { l with slots := update l.slots idx job }) =
        windows (update l.slots idx job) (active { l with slots := update l.slots idx job }) := by
      apply windows_congr
      intro i hi
      have hout : i ∉ l.queue := hpartition.not_queued (by simpa using active_sublist.subset hi)
      rw [reflow_frame hout]
    rw [show (active _).map _ = _ from hkeep]
    exact hfront.append_layOut hanchor (h.durations fun i hi => mem_held_of_queue hi)

/-- The job in flight is moved, and the queue behind it. -/
theorem shift (hpartition : l.Partition) {idx : Nat}
    (hflight : l.inFlight = some idx) (hactive : l.Active idx) (hsame : SameJob job (l.slots idx))
    (hwhole : job.serviceEnd = job.serviceAt + job.duration) {anchor : Time}
    (hanchor : job.serviceEnd ≤ anchor) :
    Booked (l.reflowQueue (update l.slots idx job) anchor) := by
  have hjob : job.Whole := by
    refine ⟨hwhole, ?_⟩
    rw [hsame.duration]
    exact (h.whole idx (mem_held_of_inFlight hflight)).duration
  have hfront : active { l with slots := update l.slots idx job } = [idx] := by
    apply active_of_active
    · exact hflight
    · show (update l.slots idx job idx).cancelled = false ∧
        (update l.slots idx job idx).generation = l.generation
      rw [update_self, hsame.cancelled, hsame.generation]
      exact hactive
  refine h.reflowQueue hpartition hflight hjob job.serviceEnd ?_ hanchor
  rw [hfront, windows, map_singleton, update_self]
  refine (Spaced.nil job.serviceAt).snoc (le_refl _) ?_
  show job.serviceAt ≤ job.serviceEnd
  rw [hwhole]
  exact le_add_of_nonneg_right hjob.duration

/-- A new job is reserved from the cursor on. -/
theorem enqueue (hpos : 0 < c.interval) (hpartition : l.Partition) {free : List Nat}
    {idx : Nat} (hfree : l.free = free ++ [idx]) (hjob : Admissible c l job) :
    Booked (l.enroll free idx job) := by
  have hold := fun i (hi : i ∈ l.held) => hpartition.update_free hfree job hi
  have hduration : 0 ≤ job.duration := by
    obtain ⟨packets, hpackets⟩ := hjob.duration
    rw [hpackets, jobDuration]
    split
    · exact Int.mul_nonneg (Int.natCast_nonneg _) hpos.le
    · exact hpos.le
  have hactive : active (l.enroll free idx job) = l.active := by
    apply active_congr
    · rfl
    · rfl
    · intro i hi
      have hjob' := hold i (mem_held_of_inFlight hi)
      exact ⟨congrArg EndpointJob.cancelled hjob', congrArg EndpointJob.generation hjob'⟩
  refine ⟨?_, (fun hnone => by cases hnone), ?_⟩
  · intro i hi
    show (update l.slots idx job i).Whole
    rw [update_apply]
    split
    · exact ⟨hjob.window, hduration⟩
    next hne =>
      apply h.whole
      simp only [held, enroll, mem_append, mem_singleton] at hi ⊢
      tauto
  · intro t ht
    cases ht
    have hlive : windows (update l.slots idx job) (l.live ++ [idx]) =
        windows l.slots l.live ++ [job.window] := by
      rw [windows, map_append, map_singleton, update_self]
      exact congrArg (· ++ [job.window]) (windows_congr fun i hi =>
        congrArg window (hold i (mem_held_of_live hi)))
    have hproper : job.window.start ≤ job.window.stop := by
      show job.serviceAt ≤ job.serviceEnd
      rw [hjob.window]
      exact le_add_of_nonneg_right hduration
    show Spaced (windows (update l.slots idx job) (_ ++ (l.queue ++ [idx]))) _
    rw [hactive, ← append_assoc]
    rw [show l.active ++ l.queue = l.live from rfl, hlive]
    cases hcursor : l.cursor with
    | none =>
      rw [h.idle hcursor]
      exact (Spaced.nil _).snoc (le_refl job.window.start) hproper
    | some cursor =>
      exact (h.spaced cursor hcursor).snoc (hjob.behind cursor hcursor) hproper

/-- A queued job is taken out, and those behind it move up. -/
theorem remove (hpartition : l.Partition) {before after : List Nat} {idx : Nat}
    {anchor : Time} (hqueue : l.queue = before ++ idx :: after)
    (hanchor : (l.slots idx).serviceAt ≤ anchor) : Booked (l.withdraw before after idx anchor) := by
  obtain ⟨hidx, hrest⟩ := hpartition.removal hqueue
  have hsub : ∀ i ∈ before ++ after, i ∈ l.queue := fun i hi =>
    mem_queue_of_removal hqueue hi
  have hmark : ∀ i, i ≠ idx → update l.slots idx (releasedJob (l.slots idx)) i = l.slots i :=
    fun i hi => update_of_ne hi _ _
  have hflight := fun i (hi : l.inFlight = some i) => hpartition.removal_inFlight hqueue hi
    (releasedJob (l.slots idx)) anchor
  unfold withdraw
  generalize update l.slots idx (releasedJob (l.slots idx)) = marked at hmark hflight ⊢
  have hdurations : after.map (fun i => (marked i).duration) =
      after.map fun i => (l.slots i).duration := by
    apply map_congr_left
    intro i hi
    have hne : i ≠ idx := fun hne =>
      hidx (hne ▸ mem_append_right before hi)
    rw [hmark i hne]
  obtain ⟨hwindows, hend⟩ := @reflow_layOut marked anchor _ (List.Nodup.of_append_right hrest)
  rw [hdurations] at hwindows hend
  -- everything in front of the removed job keeps its window
  have hfrontJob : ∀ i ∈ l.active ++ before, (reflow marked anchor after).1 i = l.slots i := by
    intro i hi
    rcases mem_append.1 hi with ha | hb
    · exact hflight i (by simpa using active_sublist.subset ha)
    · rw [reflow_frame fun hia => disjoint_of_nodup_append hrest hb hia]
      exact hmark i fun hne => hidx (hne ▸ mem_append_left _ hb)
  have hactive : active { l with
      slots := (reflow marked anchor after).1
      queue := before ++ after
      free := l.free ++ [idx]
      cursor := some (reflow marked anchor after).2 } = l.active := by
    apply active_congr
    · rfl
    · rfl
    · intro i hi
      have hsame := hflight i hi
      exact ⟨congrArg EndpointJob.cancelled hsame, congrArg EndpointJob.generation hsame⟩
  refine ⟨?_, (fun hnone => by cases hnone), ?_⟩
  · intro i hi
    apply reflow_whole
    rw [hmark i (hpartition.ne_removed hqueue hi)]
    refine h.whole i ((mem_append.1 hi).elim (fun hq => ?_) (mem_append_right _))
    exact mem_held_of_queue (hsub i hq)
  · intro t ht
    cases ht
    show Spaced (windows _ (_ ++ (before ++ after))) _
    rw [hactive, hend, ← append_assoc, windows, map_append]
    rw [show after.map _ = _ from hwindows]
    rw [show (l.active ++ before).map _ = windows l.slots (l.active ++ before) from
      windows_congr fun i hi => congrArg window (hfrontJob i hi)]
    obtain ⟨cursor, hcursor, _⟩ :=
      h.cursor_of_live (mem_append_right _ (mem_queue_removed hqueue))
    have hspaced := h.spaced cursor hcursor
    rw [live, hqueue, ← append_assoc, windows, map_append, map_cons] at hspaced
    exact hspaced.before.append_layOut hanchor (h.durations fun i hi => mem_held_of_queue
        (hsub i (mem_append_right _ hi)))

theorem mark (idx : Nat) (hwindow : job.window = (l.slots idx).window)
    (hduration : job.duration = (l.slots idx).duration)
    (hactive : job.cancelled = (l.slots idx).cancelled ∧
      job.generation = (l.slots idx).generation) :
    Booked { l with slots := update l.slots idx job } := by
  have hsame : active { l with slots := update l.slots idx job } =
      l.active :=
    active_congr rfl rfl fun i _ =>
      ⟨update_field cancelled hactive.1 i, update_field EndpointJob.generation hactive.2 i⟩
  refine h.of_sublist (fun _ hi => hi) (fun i _ => update_field _ hwindow i)
    (fun i _ => update_field _ hduration i) ?_ rfl
  rw [live, hsame]
  exact List.Sublist.refl _

theorem reset (hpartition : l.Partition) : Booked { l with
      slots := l.resetSlots
      queue := []
      free := l.free ++ l.queue
      generation := l.generation + 1
      cursor := none } := by
  refine ⟨?_, fun _ => ?_, (fun t ht => by cases ht)⟩
  · intro i hi
    have hidx : l.inFlight = some i := by simpa [held] using hi
    have hwhole := h.whole i (mem_held_of_inFlight hidx)
    show (l.resetSlots i).Whole
    rw [hpartition.resetSlots_inFlight hidx]
    exact ⟨hwhole.serviceEnd, hwhole.duration⟩
  · rw [live, append_nil]
    cases hidx : l.inFlight with
    | none => exact active_of_none rfl
    | some idx =>
      apply @active_of_cancelled _ idx
      · rfl
      · show (l.resetSlots idx).cancelled
        rw [hpartition.resetSlots_inFlight hidx]

theorem move (hpos : 0 < c.interval) (hpartition : l.Partition)
    (hmove : Move c l label l') : Booked l' := by
  cases hmove with
  | keep => exact h
  | enqueue hfree hjob => exact h.enqueue hpos hpartition hfree hjob
  | remove hqueue hanchor => exact h.remove hpartition hqueue hanchor
  | @cancel idx anchor hflight hcancelled hresponse heffect hanchor =>
    have hwhole := h.whole idx (mem_held_of_inFlight hflight)
    -- the cancelled job no longer stands in front of the queue
    have hfront : active { l with
        slots := update l.slots idx { l.slots idx with cancelled := true } } = [] := by
      apply @active_of_cancelled _ idx
      · exact hflight
      · show (update l.slots idx _ idx).cancelled
        rw [update_self]
    refine h.reflowQueue hpartition hflight ?_ anchor ?_ (le_refl _)
    · exact ⟨hwhole.serviceEnd, hwhole.duration⟩
    · rw [hfront]
      exact Spaced.nil _
  | retain hflight hactive hanchor =>
    refine h.shift hpartition hflight hactive ?_ rfl hanchor
    exact ⟨rfl, rfl, rfl, rfl, rfl, rfl, rfl, rfl⟩
  | @reanchor idx shift anchor hflight hactive hshift hanchor =>
    refine h.shift hpartition hflight hactive ?_ ?_ hanchor
    · exact ⟨rfl, rfl, rfl, rfl, rfl, rfl, rfl, rfl⟩
    · show (l.slots idx).serviceEnd + shift = (l.slots idx).serviceAt + shift +
        (l.slots idx).duration
      rw [(h.whole idx (mem_held_of_inFlight hflight)).serviceEnd]
      exact add_right_comm ..
  | reset => exact h.reset hpartition
  | @claim idx rest hfree hqueue =>
    refine h.of_sublist ?_ (fun _ _ => rfl) (fun _ _ => rfl) ?_ rfl
    · intro i hi
      apply mem_held_of_queue
      rw [hqueue]
      simpa [held, or_comm] using hi
    · rw [live, live, hqueue, active_of_none hfree, nil_append]
      exact (active_sublist (l := { l with
        queue := rest, inFlight := some idx })).append (List.Sublist.refl rest)
  | @release idx hflight =>
    have hold := fun i (hi : i ∈ l.queue) =>
      hpartition.update_inFlight hflight (releasedJob (l.slots idx)) hi
    have hheld : ∀ i ∈ held { l with
        slots := update l.slots idx (releasedJob (l.slots idx))
        free := l.free ++ [idx]
        inFlight := none }, i ∈ l.queue := by simp [held]
    refine h.of_sublist (fun i hi => mem_held_of_queue (hheld i hi))
      (fun i hi => congrArg window (hold i (hheld i hi)))
      (fun i hi => congrArg duration (hold i (hheld i hi))) ?_ rfl
    exact sublist_append_right _ _
  | _ => exact h.mark _ rfl rfl ⟨rfl, rfl⟩

end Booked

/-! ## The cursor and the last queued job -/

/-- The cursor is the end of the last queued job. -/
def Tight (l : Line) : Prop :=
  ∀ last, l.queue.getLast? = some last → l.cursor = some (l.slots last).serviceEnd

/-- **The cursor stays the end of the last queued job**, and becomes it whenever
it moves, unless the last of several queued jobs is unlinked. -/
theorem Tight.move {c : Config} {l l' : Line} {label : Label}
    (h : l'.cursor = l.cursor → l.Tight) (hpartition : l.Partition) (hmove : Move c l label l')
    (hcut : ∀ ticket, label = .unlinked ticket → 2 ≤ l.queue.length →
      l'.queue ≠ l.queue.dropLast) : l'.Tight := by
  intro last hlast
  cases hmove with
  | keep => exact h rfl last hlast
  | sideEffect | respond =>
    refine (h rfl last hlast).trans (congrArg some ?_)
    exact (update_field serviceEnd (by rfl) last).symm
  | @enqueue free idx job hfree hjob =>
    rw [getLast?_concat, Option.some.injEq] at hlast
    rw [← hlast]
    show some job.serviceEnd = some (update l.slots idx job idx).serviceEnd
    rw [update_self]
  | cancel | retain | reanchor =>
    exact congrArg some (reflow_last hpartition.queue_nodup hlast).symm
  | @remove before after idx anchor hqueue hanchor =>
    have hafter : after.Nodup :=
      List.Nodup.of_append_right (hpartition.removal hqueue).2
    cases after with
    | nil =>
      -- nothing moves up: the queue is empty now, or lost its tail
      exfalso
      have hne : before ≠ [] := by
        intro hnil
        rw [hnil] at hlast
        cases hlast
      refine hcut _ rfl ?_ ?_
      · rw [hqueue, length_append]
        have := length_pos_iff.2 hne
        simp only [length_singleton]
        omega
      · show before ++ [] = _
        rw [hqueue, append_nil, dropLast_concat]
    | cons i after =>
      have hlast' : (i :: after).getLast? = some last := by
        rw [← hlast]
        exact (getLast?_append_cons ..).symm
      exact congrArg some (reflow_last hafter hlast').symm
  | reset => cases hlast
  | @claim idx rest hfree hqueue =>
    refine h rfl last ?_
    rw [hqueue, getLast?_cons, show rest.getLast? = some last from hlast]
    rfl
  | @release idx hflight =>
    rw [show l.cursor = _ from h rfl last hlast]
    show some (l.slots last).serviceEnd = some (update l.slots idx _ last).serviceEnd
    rw [hpartition.update_inFlight hflight _ (mem_of_getLast? hlast)]

end Line

namespace EndpointWorker

/-- The jobs which still own their windows, in order of service. -/
def live (w : EndpointWorker) : List Nat := w.line.live

/-- An unlink took the last of several queued jobs away. -/
def cutsTail (e : WorkerEvent) : Bool :=
  match label e with
  | .unlinked _ =>
    decide (2 ≤ e.pre.queue.length ∧ e.post.queue = e.pre.queue.dropLast)
  | _ => false

/-- An unlink took the last of several queued jobs away, and the cursor has not
moved since. -/
def loosened (evs : List WorkerEvent) : Bool :=
  evs.foldl (fun loose e =>
    cutsTail e || (loose && decide (e.post.cursor = e.pre.cursor))) false

theorem loosened_snoc (evs : List WorkerEvent) (e : WorkerEvent) : loosened (evs ++ [e]) =
      (cutsTail e || (loosened evs && decide (e.post.cursor = e.pre.cursor))) := by
  rw [loosened, foldl_append]
  rfl

theorem new_booked : new.line.Booked :=
  ⟨by simp [new, line, Line.held, queue, RingBuffer.window], fun _ => rfl,
    (fun t ht => by cases ht)⟩

/-- The windows stay spaced along every run. -/
theorem booked_run {c : Config} (hpos : 0 < c.interval) (ops : List Op) :
    (final (step c) new ops).line.Booked := by
  have hrun := @invariant_final _ _ _ (step c) (fun w => w.Sound ∧ w.line.Booked) ?_ new
    ⟨new_sound, new_booked⟩ ops
  · exact hrun.2
  · intro w op h
    obtain ⟨hsound, hmove⟩ := step_refines (c := c) h.1 op
    exact ⟨hsound, h.2.move hpos h.1.partition hmove⟩

/-- The cursor is the end of the last queued job until an unlink takes that job
away, and again once it has moved. -/
theorem tight_run (c : Config) (ops : List Op) (h : loosened (trace (step c) new ops) = false) :
    (final (step c) new ops).line.Tight := by
  have hrun := @history_run _ _ _ (step c)
    (fun evs w => w.Sound ∧ (loosened evs = false → w.line.Tight)) new
    ⟨new_sound, fun _ last hlast => by cases hlast⟩ ?_ ops
  · exact hrun.2 h
  · intro evs w op ih
    obtain ⟨hsound, hmove⟩ := step_refines (c := c) ih.1 op
    refine ⟨hsound, fun hloose => ?_⟩
    rw [loosened_snoc, Bool.or_eq_false_iff, Bool.and_eq_false_iff] at hloose
    refine Line.Tight.move (fun hcursor => ih.2 ?_) ih.1.partition hmove ?_
    · refine hloose.2.resolve_right ?_
      rw [decide_eq_false_iff_not, not_not]
      exact hcursor
    · intro ticket hlabel hlength hqueue
      have hcut := hloose.1
      rw [cutsTail, hlabel, decide_eq_false_iff_not] at hcut
      exact hcut ⟨hlength, hqueue⟩

/-- **Reservations never overlap.**  On a worker with a positive interval every
held window is as long as its job; the windows of the job in flight, while it is
active, and of the queued jobs are disjoint and in queue order; and the cursor
is no earlier than the end of the last queued job, nor is any later reservation.
It is that end unless an unlink took the last of several queued jobs away and the
cursor has not moved since. -/
theorem reservations_never_overlap (c : Config) (hpos : 0 < c.interval) (ops : List Op) :
    let w := final (step c) new ops
    (∀ i ∈ w.held, 0 ≤ (w.slots i).duration ∧
      (w.slots i).serviceEnd = (w.slots i).serviceAt + (w.slots i).duration) ∧
    (w.live.Pairwise fun i j => (w.slots i).serviceEnd ≤ (w.slots j).serviceAt) ∧
    (∀ last, w.queue.getLast? = some last →
      ∃ cursor, w.cursor = some cursor ∧ (w.slots last).serviceEnd ≤ cursor ∧
        (loosened (trace (step c) new ops) = false → cursor = (w.slots last).serviceEnd)) ∧
    (∀ r, ∀ i ∈ w.live, (w.slots i).serviceEnd ≤ (admittedJob c w r).serviceAt) := by
  intro w
  have hbooked : w.line.Booked := booked_run hpos ops
  refine ⟨?_, ?_, ?_, ?_⟩
  · intro i hi
    have hwhole := hbooked.whole i hi
    exact ⟨hwhole.duration, hwhole.serviceEnd⟩
  · cases hcursor : w.cursor with
    | none =>
      rw [show w.live = [] from hbooked.idle hcursor]
      exact List.Pairwise.nil
    | some cursor =>
      exact pairwise_map.1 (hbooked.spaced cursor hcursor).disjoint
  · intro last hlast
    obtain ⟨cursor, hcursor, hle⟩ := hbooked.cursor_of_live
      (mem_append_right _ (mem_of_getLast? hlast))
    refine ⟨cursor, hcursor, hle, fun hloose => ?_⟩
    have htight := tight_run c ops hloose last hlast
    exact Option.mem_unique hcursor htight
  · intro r i hi
    obtain ⟨cursor, hcursor, hle⟩ := hbooked.cursor_of_live hi
    exact hle.trans ((admittedJob_admissible c w r).behind cursor hcursor)

/-- Two interrupt submissions, the second a while after the first, and the
second unlinked at once. -/
def tailRun : List Op :=
  [.enqueue ⟨1, 8, [], [], 100, 0⟩, .enqueue ⟨2, 8, [], [], 110, 0⟩, .unlinkAt 2 110]

/-- On a concrete run: the second window starts ten intervals after the first. -/
theorem tailRun_reserved :
    let w := final (step ⟨.interruptIn, 1⟩) new (tailRun.take 2)
    (0 : Duration) < 1 ∧ w.live = [0, 1] ∧
      (w.live.Pairwise fun i j => (w.slots i).serviceEnd ≤ (w.slots j).serviceAt) :=
  ⟨by decide, by decide +kernel, (reservations_never_overlap ⟨.interruptIn, 1⟩
      (newConfig_interval_pos .interruptIn 1) (tailRun.take 2)).2.1⟩

/-- **The cursor is not always the end of the last queued job**: unlinking the
second of two jobs puts it where that job was to start. -/
theorem unlinked_tail_leaves_cursor :
    let w := final (step ⟨.interruptIn, 1⟩) new tailRun
    w.queue.getLast? = some 0 ∧ (w.slots 0).serviceEnd = 101 ∧ w.cursor = some 110 := by
  decide +kernel

end EndpointWorker

end Viiper.Ports.Endpoint
