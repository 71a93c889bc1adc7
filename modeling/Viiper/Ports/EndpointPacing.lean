import Viiper.Ports.EndpointTimeline

/-!
# How far an interrupt endpoint stays behind its last service

Every job of an interrupt endpoint reserves one interval.  `Behind x` says that nothing the
endpoint may still serve is due before `x`: no queued job, no unanswered job in flight and,
through the cursor, no job admitted from now on.  Once a job due at `d` has started its
response the line is behind `d + interval`, and stays so, because every reflow starts from
a window already behind it.  A retained request is due one interval from the present, so it
stays behind as long as the present does.

The last section says what a move does to the job in flight: who may start its response,
and that the reader does not move it.
-/

namespace Viiper.Ports.Endpoint

open Verified Go Timeline Function List EndpointJob

section Reflow

variable {slots : Nat → EndpointJob} {anchor : Time} {idxs : List Nat}

/-- A reflow puts nothing before its anchor. -/
theorem anchor_le_reflow (hnodup : idxs.Nodup) (hdurations : ∀ i ∈ idxs, 0 ≤ (slots i).duration) :
    (∀ i ∈ idxs, anchor ≤ ((reflow slots anchor idxs).1 i).serviceAt) ∧
      anchor ≤ (reflow slots anchor idxs).2 := by
  obtain ⟨hwindows, hend⟩ := @reflow_layOut slots anchor idxs hnodup
  have hds : ∀ d ∈ idxs.map (fun i => (slots i).duration), 0 ≤ d := by
    intro d hd
    obtain ⟨i, hi, rfl⟩ := mem_map.1 hd
    exact hdurations i hi
  obtain ⟨hstart, hstop⟩ := @le_layOut Time _ _ _ anchor _ hds
  rw [← hwindows] at hstart
  rw [← hend] at hstop
  exact ⟨fun i hi => hstart _ (mem_map_of_mem hi), hstop⟩

end Reflow

namespace Line

variable {c : Config} {l l' : Line} {label : Label} {x : Time}

/-- Every held job reserves one interval. -/
def Uniform (c : Config) (l : Line) : Prop :=
  ∀ i ∈ l.held, (l.slots i).duration = c.interval

theorem Uniform.move (h : l.Uniform c) (hkind : c.kind = .interruptIn)
    (hpartition : l.Partition) (hmove : Move c l label l') : l'.Uniform c := by
  intro i hi
  rcases hmove.held_cases hi with hold | ⟨_, hjob⟩
  · obtain ⟨_, _, _, _, _, heq⟩ := hmove.rewrites hpartition hold hi
    rw [heq]
    exact h i hold
  · obtain ⟨packets, hpackets⟩ := hjob.duration
    rw [hpackets, EndpointWorker.jobDuration, if_neg (not_not.2 hkind)]

/-- Nothing which may still be served is due before `x`. -/
structure Behind (x : Time) (l : Line) : Prop where
  queue : ∀ i ∈ l.queue, x ≤ (l.slots i).serviceAt
  cursor : ∃ t, l.cursor = some t ∧ x ≤ t
  ended : ∀ idx, l.inFlight = some idx → (l.slots idx).cancelled = false →
    x ≤ (l.slots idx).serviceEnd
  inFlight : ∀ idx, l.inFlight = some idx → (l.slots idx).cancelled = false →
    (l.slots idx).responseStarted = false → x ≤ (l.slots idx).serviceAt

variable {idx : Nat}

namespace Behind

/-- It is enough to know which job is in flight. -/
theorem of_job (hqueue : ∀ i ∈ l.queue, x ≤ (l.slots i).serviceAt)
    (hcursor : ∃ t, l.cursor = some t ∧ x ≤ t)
    (hflight : ∀ i, l.inFlight = some i → ∃ job : EndpointJob, l.slots i = job ∧
      (job.cancelled = false → x ≤ job.serviceEnd) ∧
      (job.cancelled = false → job.responseStarted = false → x ≤ job.serviceAt)) :
    Behind x l := by
  refine ⟨hqueue, hcursor, fun i hi => ?_, fun i hi => ?_⟩ <;>
    obtain ⟨job, hjob, hended, hpending⟩ := hflight i hi <;> rw [hjob]
  · exact hended
  · exact hpending

/-- The queue moves behind an anchor which is behind `x`. -/
theorem reflowQueue (hpartition : l.Partition) (hbooked : l.Booked)
    (hflight : l.inFlight = some idx) {job : EndpointJob} {anchor : Time} (hanchor : x ≤ anchor)
    (hended : job.cancelled = false → x ≤ job.serviceEnd)
    (hpending : job.cancelled = false → job.responseStarted = false → x ≤ job.serviceAt) :
    Behind x (l.reflowQueue (update l.slots idx job) anchor) := by
  have hdurations : ∀ i ∈ l.queue, 0 ≤ (update l.slots idx job i).duration := by
    intro i hi
    rw [hpartition.update_inFlight hflight job hi]
    exact (hbooked.whole i (mem_held_of_queue hi)).duration
  obtain ⟨hstart, hstop⟩ := @anchor_le_reflow (update l.slots idx job) anchor
    l.queue hpartition.queue_nodup hdurations
  have hjob : ∀ i, l.inFlight = some i →
      (reflow (update l.slots idx job) anchor l.queue).1 i = job := by
    intro i hi
    obtain rfl := Option.mem_unique hflight hi
    rw [reflow_frame (hpartition.not_queued hi), update_self]
  exact of_job (fun i hi => hanchor.trans (hstart i hi)) ⟨_, rfl, hanchor.trans hstop⟩
    fun i hi => ⟨job, hjob i hi, hended, hpending⟩

theorem mark (h : Behind x l) (idx : Nat) {job : EndpointJob}
    (hstart : job.serviceAt = (l.slots idx).serviceAt)
    (hend : job.serviceEnd = (l.slots idx).serviceEnd)
    (hcancelled : job.cancelled = (l.slots idx).cancelled)
    (hresponse : (l.slots idx).responseStarted → job.responseStarted) :
    Behind x { l with slots := update l.slots idx job } where
  queue := by
    intro i hi
    exact (h.queue i hi).trans_eq (update_field serviceAt hstart i).symm
  cursor := h.cursor
  ended := by
    intro i hi hc
    rw [show (update l.slots idx job i).cancelled = _ from
      update_field cancelled hcancelled i] at hc
    exact (h.ended i hi hc).trans_eq (update_field serviceEnd hend i).symm
  inFlight := by
    intro i hi hc hr
    rw [show (update l.slots idx job i).cancelled = _ from
      update_field cancelled hcancelled i] at hc
    have hpending : (l.slots i).responseStarted = false := by
      by_contra hne
      rw [Bool.not_eq_false] at hne
      have hdone : (update l.slots idx job i).responseStarted := by
        rw [update_apply]
        split
        next heq => exact hresponse (heq ▸ hne)
        · exact hne
      exact absurd (hdone.symm.trans hr) (by simp)
    exact (h.inFlight i hi hc hpending).trans_eq (update_field serviceAt hstart i).symm

/-- A queued job is taken out, and those behind it move up. -/
theorem remove (h : Behind x l) (hpartition : l.Partition) (hbooked : l.Booked)
    {before after : List Nat} {anchor : Time} (hqueue : l.queue = before ++ idx :: after)
    (hanchor : (l.slots idx).serviceAt ≤ anchor) :
    Behind x (l.withdraw before after idx anchor) := by
  obtain ⟨hidx, hrest⟩ := hpartition.removal hqueue
  have hmem : idx ∈ l.queue := mem_queue_removed hqueue
  have hsub : ∀ i ∈ before ++ after, i ∈ l.queue := fun i hi =>
    mem_queue_of_removal hqueue hi
  have hle : x ≤ anchor := (h.queue idx hmem).trans hanchor
  have hdurations : ∀ i ∈ after, 0 ≤ (update l.slots idx
      (EndpointWorker.releasedJob (l.slots idx)) i).duration := by
    intro i hi
    have hq := mem_append_right before hi
    rw [update_of_ne (fun hne : i = idx => hidx (hne ▸ hq))]
    exact (hbooked.whole i (mem_held_of_queue (hsub i hq))).duration
  obtain ⟨hstart, hstop⟩ := @anchor_le_reflow _ anchor after
    (List.Nodup.of_append_right hrest) hdurations
  refine of_job (fun i hi => ?_) ⟨_, rfl, hle.trans hstop⟩ fun i hi =>
    ⟨_, hpartition.removal_inFlight hqueue hi _ anchor, h.ended i hi, h.inFlight i hi⟩
  rcases mem_append.1 hi with hb | ha
  · show x ≤ ((reflow _ anchor after).1 i).serviceAt
    rw [reflow_frame (fun hia => disjoint_of_nodup_append hrest hb hia),
      update_of_ne (fun hne : i = idx => hidx (hne ▸ hi))]
    exact h.queue i (hsub i hi)
  · exact hle.trans (hstart i ha)

/-- **The line stays behind**, as long as it is not reset and the present is late
enough for what is retained. -/
theorem move (h : Behind x l) (hpos : 0 < c.interval) (hpartition : l.Partition)
    (hbooked : l.Booked) (hmove : Move c l label l') (hreset : label ≠ .reset)
    (hretain : ∀ ticket now, label = .retained ticket now → x ≤ now + c.interval) :
    Behind x l' := by
  have hbooked' := hbooked.move hpos hpartition hmove
  cases hmove with
  | keep => exact h
  | @enqueue free idx job hfree hjob =>
    obtain ⟨cursor, hcursor, hle⟩ := h.cursor
    have hnew : x ≤ job.serviceAt := hle.trans (hjob.behind cursor hcursor)
    have hwhole : job.Whole := by
      have hidx := hbooked'.whole idx (mem_held_of_queue (by simp))
      simpa using hidx
    refine of_job (fun i hi => ?_) ⟨_, rfl, ?_⟩ fun i hi =>
      ⟨_, hpartition.update_free hfree job (mem_held_of_inFlight hi), h.ended i hi, h.inFlight i hi⟩
    · show x ≤ (update l.slots idx job i).serviceAt
      rcases mem_append.1 hi with hq | hq
      · rw [hpartition.update_free hfree job (mem_held_of_queue hq)]
        exact h.queue i hq
      · rw [mem_singleton.1 hq, update_self]
        exact hnew
    · rw [hwhole.serviceEnd]
      linarith [hwhole.duration]
  | @cancel idx anchor hflight hcancelled hresponse heffect hanchor =>
    have hle := (h.inFlight idx hflight hcancelled hresponse).trans hanchor
    exact reflowQueue hpartition hbooked hflight hle (fun hc => by cases hc) (fun hc => by cases hc)
  | @retain idx now anchor hflight hactive hanchor =>
    have hnow : x ≤ now + c.interval := hretain _ now rfl
    have hduration := (hbooked.whole idx (mem_held_of_inFlight hflight)).duration
    have hend : x ≤ now + c.interval + (l.slots idx).duration := by linarith
    exact reflowQueue hpartition hbooked hflight (hend.trans hanchor)
      (fun _ => hend) (fun _ _ => hnow)
  | @reanchor idx shift anchor hflight hactive hshift hanchor =>
    have hend : x ≤ (l.slots idx).serviceEnd + shift := by
      linarith [h.ended idx hflight hactive.1]
    refine reflowQueue hpartition hbooked hflight (hend.trans hanchor)
      (fun _ => hend) (fun hc hr => ?_)
    have hstart := h.inFlight idx hflight hc hr
    linarith
  | remove hqueue hanchor => exact h.remove hpartition hbooked hqueue hanchor
  | reset => exact absurd rfl hreset
  | @claim idx rest hfree hqueue =>
    have hmem : idx ∈ l.queue := by rw [hqueue]; simp
    have hstart := h.queue idx hmem
    have hwhole := hbooked.whole idx (mem_held_of_queue hmem)
    refine ⟨fun i hi => h.queue i (by rw [hqueue]; exact mem_cons_of_mem _ hi), h.cursor, ?_, ?_⟩
    · intro i hi _
      cases hi
      rw [hwhole.serviceEnd]
      linarith [hwhole.duration]
    · intro i hi _ _
      cases hi
      exact hstart
  | @release idx hflight =>
    refine ⟨?_, h.cursor, (fun _ hi => by cases hi), (fun _ hi => by cases hi)⟩
    intro i hi
    show x ≤ (update l.slots idx _ i).serviceAt
    rw [hpartition.update_inFlight hflight _ hi]
    exact h.queue i hi
  | respond hflight hactive => exact h.mark _ rfl rfl rfl (fun _ => rfl)
  | sideEffect hflight hactive => exact h.mark _ rfl rfl rfl id

end Behind

/-- **A response puts the line one interval behind its deadline.** -/
theorem behind_of_started (hbooked : l.Booked) (huniform : l.Uniform c) (hmove : Move c l label l')
    {ticket : Nat} (hlabel : label = .started ticket true) (hidx : l.inFlight = some idx) :
    Behind ((l.slots idx).serviceAt + c.interval) l' := by
  cases hmove with
  | respond hflight hactive =>
    obtain rfl := Option.mem_unique hidx hflight
    have hheld := mem_held_of_inFlight hidx
    have hend : (l.slots idx).serviceAt + c.interval = (l.slots idx).serviceEnd := by
      rw [(hbooked.whole idx hheld).serviceEnd, huniform idx hheld]
    rw [hend]
    have hlive : l.live = idx :: l.queue := by
      rw [live, active_of_active hidx hactive]
      rfl
    obtain ⟨cursor, hcursor, hafter⟩ := hbooked.cursor_of_live (hlive ▸ mem_cons_self ..)
    have hspaced := hbooked.spaced cursor hcursor
    rw [hlive, windows, map_cons] at hspaced
    refine ⟨?_, ⟨cursor, hcursor, hafter⟩, ?_, ?_⟩
    · intro i hi
      have hle := rel_of_pairwise_cons hspaced.disjoint (mem_map_of_mem hi)
      exact hle.trans_eq (update_field serviceAt (by rfl) i).symm
    · intro i hi _
      obtain rfl := Option.mem_unique hidx hi
      exact (update_field serviceEnd (by rfl) idx).symm.le
    · intro i hi _ hr
      obtain rfl := Option.mem_unique hidx hi
      simp only [update_self] at hr
      cases hr
  | _ => cases hlabel

/-! ## The job in flight -/

variable {ticket : Nat}

/-- No queued job has started its response. -/
def Fresh (l : Line) : Prop := ∀ i ∈ l.queue, (l.slots i).responseStarted = false

theorem Fresh.move (h : l.Fresh) (hpartition : l.Partition)
    (hmove : Move c l label l') : l'.Fresh := by
  intro i hi
  have hother : ∀ {idx : Nat} (job : EndpointJob), l.inFlight = some idx →
      i ∈ l.queue → (update l.slots idx job i).responseStarted = false := by
    intro idx job hflight hq
    rw [hpartition.update_inFlight hflight job hq]
    exact h i hq
  cases hmove with
  | keep => exact h i hi
  | @enqueue free idx job hfree hjob =>
    show (update l.slots idx job i).responseStarted = false
    rw [update_apply]
    split
    · exact hjob.responseStarted
    next hne =>
      refine h i ((mem_append.1 hi).resolve_right fun hnew => hne ?_)
      exact mem_singleton.1 hnew
  | cancel | retain | reanchor =>
    refine (reflow_same i).responseStarted.trans ?_
    exact (update_field responseStarted (by rfl) i).trans (h i hi)
  | @remove before after idx anchor hqueue hanchor =>
    refine (reflow_same i).responseStarted.trans ?_
    rw [update_apply]
    split
    · rfl
    · exact h i (mem_queue_of_removal hqueue hi)
  | reset => cases hi
  | claim hfree hqueue =>
    exact h i (by rw [hqueue]; exact mem_cons_of_mem _ hi)
  | sideEffect =>
    exact (update_field responseStarted (by rfl) i).trans (h i hi)
  | release hflight | respond hflight => exact hother _ hflight hi

/-- A job in flight has started its response before the move, or by it. -/
theorem Move.response_cases (hmove : Move c l label l') (hpartition : l.Partition)
    (hfresh : l.Fresh) (hidx : l'.inFlight = some idx)
    (hresponse : (l'.slots idx).responseStarted) :
    (l.inFlight = some idx ∧ (l.slots idx).responseStarted) ∨
      ∃ ticket, label = .started ticket true := by
  cases hmove with
  | keep => exact .inl ⟨hidx, hresponse⟩
  | respond => exact .inr ⟨_, rfl⟩
  | release => cases hidx
  | enqueue hfree hjob =>
    have hidx' : l.inFlight = some idx := hidx
    simp only [hpartition.update_free hfree _ (mem_held_of_inFlight hidx')] at hresponse
    exact .inl ⟨hidx', hresponse⟩
  | cancel | retain | reanchor =>
    have hsame := (reflow_same idx).responseStarted.symm.trans hresponse
    exact .inl ⟨hidx, (update_field responseStarted (by rfl) idx).symm.trans hsame⟩
  | remove hqueue hanchor =>
    have hidx' : l.inFlight = some idx := hidx
    simp only [hpartition.removal_inFlight hqueue hidx'] at hresponse
    exact .inl ⟨hidx', hresponse⟩
  | reset =>
    have hidx' : l.inFlight = some idx := hidx
    simp only [hpartition.resetSlots_inFlight hidx'] at hresponse
    exact .inl ⟨hidx', hresponse⟩
  | claim hfree hqueue =>
    cases hidx
    have hqueued := hfresh idx (by rw [hqueue]; simp)
    exact absurd (hqueued.symm.trans hresponse) (by simp)
  | sideEffect =>
    exact .inl ⟨hidx, (update_field responseStarted (by rfl) idx).symm.trans hresponse⟩

theorem Move.active_of_started (hmove : Move c l label l') {response : Bool}
    (hlabel : label = .started ticket response) (hidx : l.inFlight = some idx) : l.Active idx := by
  cases hmove with
  | respond hflight hactive | sideEffect hflight hactive =>
    obtain rfl := Option.mem_unique hidx hflight
    exact hactive
  | _ => cases hlabel

theorem Move.serviceAt_of_reader (hmove : Move c l label l') (hpartition : l.Partition)
    (hlabel : label = .admitted ticket ∨ label = .unlinked ticket) :
    l'.inFlight = l.inFlight ∧ ∀ idx, l.inFlight = some idx →
      (l'.slots idx).serviceAt = (l.slots idx).serviceAt := by
  cases hmove with
  | enqueue hfree hjob =>
    refine ⟨rfl, fun idx hidx => ?_⟩
    simp only [hpartition.update_free hfree _ (mem_held_of_inFlight hidx)]
  | cancel hflight =>
    refine ⟨rfl, fun idx hidx => ?_⟩
    show ((reflow _ _ l.queue).1 idx).serviceAt = _
    rw [reflow_frame (hpartition.not_queued hidx)]
    exact update_field serviceAt (by rfl) idx
  | remove hqueue hanchor =>
    refine ⟨rfl, fun idx hidx => ?_⟩
    simp only [hpartition.removal_inFlight hqueue hidx]
  | _ => rcases hlabel with hlabel | hlabel <;> cases hlabel

end Line

end Viiper.Ports.Endpoint
