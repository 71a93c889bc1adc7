import Viiper.Ports.RetainedBoard

/-!
# Invariants of the board

What every move keeps.  The parts are about different things and kept apart, so that
each is preserved for its own reason:

* `Queued` — the jobs themselves: ordinals grow along a lane and are given once, and
  only the head of a lane is more than raw;
* `Owed` — the retired jobs are exactly those in the callers' lists, each in one;
* `InHand` — the admitted job is the one the token's holder is sending.
-/

namespace Viiper.Ports.Retained

open Verified Function List Scheduler

variable {cfg : Config} {next k : Nat} {x : Slot} {lane : Lane} {g : Slot → Slot}

/-! ## The jobs -/

/-- What is known of one job in a lane, before the ordinal `next + 1` is given. -/
structure Job (cfg : Config) (next : Nat) (lane : Lane) (x : Slot) : Prop where
  pos : 0 < x.ingressOrdinal
  le : x.ingressOrdinal ≤ next
  home : x.lane = some lane
  session : x.sessionGeneration = cfg.session
  state : x.state = .rawQueued ∨ x.state.staged ∨ x.state = .admitted ∨
    x.state = .lifecycleRetired
  raw : x.state = .rawQueued → x.ticket = {}
  ticket : x.state ≠ .rawQueued → x.ticket.valid ∧ x.ticket.ownerID = cfg.ownerIdentity ∧
    x.ticket.sessionGeneration = cfg.session ∧ x.ticket.lane = some lane

/-- A job loses its ticket to a caller. -/
theorem Job.retireSlot (h : Job cfg next lane x) (hraw : x.state ≠ .rawQueued) :
    Job cfg next lane (retireSlot x) where
  pos := h.pos
  le := h.le
  home := h.home
  session := h.session
  state := .inr (.inr (.inr rfl))
  raw := nofun
  ticket := fun _ => h.ticket hraw

/-- The jobs of the board. -/
structure Queued (cfg : Config) (lanes : Lane → List Slot) (next : Nat) : Prop where
  sorted : ∀ lane, (lanes lane).Pairwise fun x y => x.ingressOrdinal < y.ingressOrdinal
  tail : ∀ lane, ∀ x ∈ (lanes lane).tail, x.state = .rawQueued
  nodup : ((allJobs lanes).map Slot.ingressOrdinal).Nodup
  job : ∀ lane, ∀ x ∈ lanes lane, Job cfg next lane x

namespace Queued

variable {lanes : Lane → List Slot} {y : Slot}

variable (h : Queued cfg lanes next)

include h

theorem unique (hx : x ∈ allJobs lanes) (hy : y ∈ allJobs lanes)
    (hk : x.ingressOrdinal = y.ingressOrdinal) : x = y :=
  inj_on_of_nodup_map h.nodup hx hy hk

theorem same {lane' : Lane} (hx : x ∈ lanes lane)
    (hy : y ∈ lanes lane') (hk : x.ingressOrdinal = y.ingressOrdinal) : x = y ∧ lane = lane' := by
  have heq := h.unique (mem_allJobs.2 ⟨lane, hx⟩) (mem_allJobs.2 ⟨lane', hy⟩) hk
  have hhome := (h.job lane x hx).home
  rw [heq, (h.job lane' y hy).home] at hhome
  exact ⟨heq, (Option.some.inj hhome).symm⟩

/-- A job which is more than raw is in no lane's tail. -/
theorem not_tail (hx : x ∈ allJobs lanes) (hraw : x.state ≠ .rawQueued)
    (lane : Lane) (hy : y ∈ (lanes lane).tail) : y.ingressOrdinal ≠ x.ingressOrdinal := by
  intro hk
  have hmem := mem_allJobs.2 ⟨lane, mem_of_mem_tail hy⟩
  rw [← h.unique hmem hx hk] at hraw
  exact hraw (h.tail lane y hy)

/-- Nor is a head. -/
theorem head_not_tail {lane' : Lane} (hx : (lanes lane').head? = some x)
    (lane : Lane) (hy : y ∈ (lanes lane).tail) : y.ingressOrdinal ≠ x.ingressOrdinal := by
  intro hk
  have hymem := mem_of_mem_tail hy
  obtain ⟨-, rfl⟩ := h.same hymem (mem_of_mem_head? hx) hk
  have hsorted := h.sorted lane
  cases hl : lanes lane with
  | nil =>
    rw [hl] at hymem
    cases hymem
  | cons a rest =>
    rw [hl] at hx hy hsorted
    cases hx
    have := rel_of_pairwise_cons hsorted hy
    omega

theorem drop (k : Nat) : Queued cfg (fun lane => dropJob k (lanes lane)) next where
  sorted := fun lane => (h.sorted lane).sublist filter_sublist
  tail := fun lane x hx => h.tail lane x (mem_tail_drop hx)
  nodup := by
    rw [allJobs_drop]
    exact h.nodup.sublist (filter_sublist.map _)
  job := fun lane x hx => h.job lane x (mem_drop.1 hx).1

theorem rewrite (htail : ∀ lane, ∀ x ∈ (lanes lane).tail, x.ingressOrdinal ≠ k)
    (hg : ∀ lane, ∀ x ∈ lanes lane, x.ingressOrdinal = k →
      (g x).ingressOrdinal = k ∧ Job cfg next lane (g x)) :
    Queued cfg (fun lane => rewriteJob k g (lanes lane)) next := by
  have hord : ∀ lane, ∀ x ∈ lanes lane,
      (if x.ingressOrdinal = k then g x else x).ingressOrdinal = x.ingressOrdinal := by
    intro lane x hx
    split
    next hk => rw [(hg lane x hx hk).1, hk]
    · rfl
  refine ⟨fun lane => ?_, fun lane x hx => ?_, ?_, fun lane x hx => ?_⟩
  · unfold rewriteJob
    rw [pairwise_map]
    refine List.Pairwise.imp_of_mem ?_ (h.sorted lane)
    intro a b ha hb hab
    rw [hord lane a ha, hord lane b hb]
    exact hab
  · unfold rewriteJob at hx
    rw [← map_tail, mem_map] at hx
    obtain ⟨y, hy, rfl⟩ := hx
    rw [if_neg (htail lane y hy)]
    exact h.tail lane y hy
  · rw [allJobs_rewrite]
    unfold rewriteJob
    rw [map_map]
    have hmap : (allJobs lanes).map
        (Slot.ingressOrdinal ∘ fun x => if x.ingressOrdinal = k then g x else x) =
        (allJobs lanes).map Slot.ingressOrdinal := by
      refine map_congr_left fun x hx => ?_
      obtain ⟨lane, hlane⟩ := mem_allJobs.1 hx
      exact hord lane x hlane
    rw [hmap]
    exact h.nodup
  · rcases mem_rewrite.1 hx with ⟨y, hy, hk, rfl⟩ | ⟨hx, -⟩
    · exact (hg lane y hy hk).2
    · exact h.job lane x hx

theorem rewriteHead (hhead : (lanes lane).head? = some x)
    (hk : x.ingressOrdinal = k) (hg : (g x).ingressOrdinal = k) (hjob : Job cfg next lane (g x)) :
    Queued cfg (fun lane => rewriteJob k g (lanes lane)) next := by
  refine h.rewrite (fun lane y hy => hk ▸ h.head_not_tail hhead lane hy) fun lane' y hy hyk => ?_
  obtain ⟨rfl, rfl⟩ := h.same hy (mem_of_mem_head? hhead) (hyk.trans hk.symm)
  exact ⟨hg, hjob⟩

theorem retireJob (hx : x ∈ allJobs lanes)
    (hk : x.ingressOrdinal = k) (hraw : x.state ≠ .rawQueued) :
    Queued cfg (fun lane => rewriteJob k retireSlot (lanes lane)) next := by
  subst hk
  refine h.rewrite (fun lane y hy => h.not_tail hx hraw lane hy) fun lane y hy hk => ?_
  have heq := h.unique (mem_allJobs.2 ⟨lane, hy⟩) hx hk
  exact ⟨hk, (h.job lane y hy).retireSlot (heq ▸ hraw)⟩

theorem sweep (scope : Scope) :
    Queued cfg (fun lane => (lanes lane).filterMap (sweptSlot scope)) next where
  sorted := by
    intro lane
    rw [pairwise_filterMap]
    refine List.Pairwise.imp ?_ (h.sorted lane)
    intro a b hab a' ha' b' hb'
    rw [sweptSlot_ordinal ha', sweptSlot_ordinal hb']
    exact hab
  tail := by
    intro lane x hx
    obtain ⟨y, hy, hyx⟩ := mem_tail_filterMap hx
    rcases sweptSlot_cases scope y with ⟨h', -⟩ | ⟨h', -⟩ | ⟨-, hc⟩
    · cases h'.symm.trans hyx
      exact h.tail lane _ hy
    · cases h'.symm.trans hyx
    · -- a tail is raw, and raw jobs are not collected
      simp [collects, h.tail lane y hy] at hc
  nodup := by
    rw [allJobs_sweep]
    refine List.Nodup.sublist ?_ h.nodup
    induction allJobs lanes with
    | nil => exact List.Sublist.slnil
    | cons a rest ih =>
      rw [filterMap_cons]
      split
      · exact ih.cons _
      next b hb =>
        rw [map_cons, map_cons, sweptSlot_ordinal hb]
        exact ih.cons_cons _
  job := by
    intro lane x hx
    rcases mem_sweep.1 hx with ⟨hx, -⟩ | ⟨y, hy, hc, rfl⟩
    · exact h.job lane x hx
    refine (h.job lane y hy).retireSlot ?_
    intro hraw
    simp [collects, hraw] at hc

theorem push (hx : Job cfg (next + 1) lane x)
    (hord : x.ingressOrdinal = next + 1) (hraw : x.state = .rawQueued) :
    Queued cfg (update lanes lane (lanes lane ++ [x])) (next + 1) := by
  have hlt : ∀ y ∈ allJobs lanes, y.ingressOrdinal < x.ingressOrdinal := by
    intro y hy
    obtain ⟨lane', hy⟩ := mem_allJobs.1 hy
    have := (h.job lane' y hy).le
    omega
  have hold : ∀ lane', ∀ z ∈ lanes lane', Job cfg (next + 1) lane' z := by
    intro lane' z hz
    have hz := h.job lane' z hz
    exact { hz with le := Nat.le_succ_of_le hz.le }
  refine ⟨(forall_update_iff lanes fun _ q => q.Pairwise _).2 ⟨?_, fun lane' _ => h.sorted lane'⟩,
    (forall_update_iff lanes fun _ q => ∀ y ∈ q.tail, y.state = .rawQueued).2
      ⟨fun y hy => ?_, fun lane' _ => h.tail lane'⟩, ?_,
    (forall_update_iff lanes fun lane' q => ∀ y ∈ q, Job cfg (next + 1) lane' y).2
      ⟨fun y hy => ?_, fun lane' _ => hold lane'⟩⟩
  · refine pairwise_append.2 ⟨h.sorted lane, pairwise_singleton _ _, fun a ha b hb => ?_⟩
    rw [mem_singleton.1 hb]
    exact hlt a (mem_allJobs.2 ⟨lane, ha⟩)
  · cases hq : lanes lane with
    | nil =>
      rw [hq] at hy
      cases hy
    | cons a rest =>
      rw [hq, cons_append, tail_cons, mem_append] at hy
      rcases hy with hy | hy
      · exact h.tail lane y (by rw [hq]; exact hy)
      · rw [mem_singleton.1 hy]
        exact hraw
  · refine (((allJobs_push lane).map _).nodup_iff).2 ?_
    rw [map_cons, nodup_cons]
    refine ⟨fun hmem => ?_, h.nodup⟩
    obtain ⟨y, hy, hyx⟩ := mem_map.1 hmem
    have := hlt y hy
    omega
  · rcases mem_append.1 hy with hy | hy
    · exact hold lane y hy
    · rw [mem_singleton.1 hy]
      exact hx

end Queued

/-- Only the generation and the lifecycle of a job are refreshed. -/
theorem Job.stage {b : Board} {ticket : Ticket} (h : Job cfg next lane x)
    (ha : Accepts cfg b lane k ticket) (resolved : ControlLifecycle) :
    Job cfg next lane (ticketSlot ticket (b.refresh cfg resolved x)) := by
  unfold Scheduler.refresh
  split
  all_goals
    exact
      { pos := h.pos
        le := h.le
        home := h.home
        session := h.session
        state := .inr (.inl rfl)
        raw := nofun
        ticket := fun _ => ⟨ha.valid, ha.ownerID, ha.sessionGeneration, ha.lane⟩ }

theorem refresh_ordinal (cfg : Config) (b : Board) (resolved : ControlLifecycle) (x : Slot) :
    (b.refresh cfg resolved x).ingressOrdinal = x.ingressOrdinal := by
  unfold Scheduler.refresh
  split <;> rfl

theorem slotFor_job (cfg : Config) {e : Envelope} (hlane : e.lane = some lane)
    (next : Nat) : Job cfg (next + 1) lane (slotFor cfg e (next + 1)) where
  pos := Nat.succ_pos next
  le := Nat.le_refl _
  home := hlane
  session := rfl
  state := .inl rfl
  raw := fun _ => rfl
  ticket := fun h => absurd rfl h

theorem stamp_lane {Q : Type} (cfg : Config) (s : Scheduler Q) (e : Envelope) :
    (s.stamp cfg e).lane = e.lane := by
  unfold Scheduler.stamp
  split <;> rfl

theorem staged_ne {st : SubmissionState} (h : x.state.staged) (hst : st.staged = false) :
    x.state ≠ st := by
  rintro rfl
  cases h.symm.trans hst

variable {scope : Scope} {reason : RetireReason} {owes : Bool} {b b₁ b' : Board} {c c' : Caller}
  {l : Label}

theorem UnlinkBy.lanes (h : UnlinkBy b c owes b₁) : b₁.lanes = b.lanes := by
  cases h <;> rfl

theorem UnlinkBy.nextOrdinal (h : UnlinkBy b c owes b₁) : b₁.nextOrdinal = b.nextOrdinal := by
  cases h <;> rfl

theorem SweepBy.lanes (h : SweepBy cfg b c scope reason b₁) : b₁.lanes = b.lanes := by
  cases h <;> rfl

theorem SweepBy.nextOrdinal
    (h : SweepBy cfg b c scope reason b₁) : b₁.nextOrdinal = b.nextOrdinal := by
  cases h <;> rfl

theorem lanes_congr {f : List Slot → List Slot} (h : b₁.lanes = b.lanes) :
    (fun lane => f (b₁.lanes lane)) = fun lane => f (b.lanes lane) := by rw [h]

/-- Routing touches the routing, the service times and the barrier. -/
theorem route_spec {Q : Type} {b b' : System Q} {lifecycle : ControlLifecycle} {published : Bool}
    (h : b.route cfg lifecycle published = (b', l)) :
    ∃ configuration alternate nextService, b' = { b with
        lifecycleCompletionPending := false
        activeConfiguration := configuration
        activeAlternateSetting := alternate
        endpointNextService := nextService
        pc := .idle } := by
  unfold System.route at h
  split at h
  · cases h
    unfold Scheduler.applyControlLifecycleRouting
    cases lifecycle.kind
    all_goals exact ⟨_, _, _, rfl⟩
  · cases h
    exact ⟨_, _, _, rfl⟩

theorem Queued.move (hm : Move cfg b l b')
    (h : Queued cfg b.lanes b.nextOrdinal) : Queued cfg b'.lanes b'.nextOrdinal := by
  cases hm with
  | calm _ hcalm =>
    rw [hcalm.lanes, hcalm.nextOrdinal]
    exact h
  | enqueue hvalid hlane hok hby =>
    exact h.push (slotFor_job cfg ((stamp_lane cfg _ _).trans hlane) _) rfl rfl
  | @stage _ ref x resolved ticket _ hhead hord _ haccepts =>
    refine h.rewriteHead hhead hord ?_
      ((h.job _ x (mem_of_mem_head? hhead)).stage haccepts resolved)
    exact (refresh_ordinal cfg _ resolved x).trans hord
  | unstage | settle | rotate | release => exact h.drop _
  | pend _ hhead hord hstaged =>
    have hjob := h.job _ _ (mem_of_mem_head? hhead)
    refine h.rewriteHead hhead hord hord ?_
    exact { hjob with
      state := .inr (.inl rfl)
      raw := nofun
      ticket := fun _ => hjob.ticket (staged_ne hstaged rfl) }
  | admits _ hhead hord hstaged =>
    have hjob := h.job _ _ (mem_of_mem_head? hhead)
    refine h.rewriteHead hhead hord hord ?_
    exact { hjob with
      state := .inr (.inr (.inl rfl))
      raw := nofun
      ticket := fun _ => hjob.ticket (staged_ne hstaged rfl) }
  | claim _ hfind hstaged =>
    obtain ⟨hx, hk⟩ := findJob_mem hfind
    exact h.retireJob hx hk (staged_ne hstaged rfl)
  | @sweep b₁ _ _ _ _ hby =>
    show Queued cfg (fun lane => (b₁.lanes lane).filterMap _) b₁.nextOrdinal
    rw [hby.lanes, hby.nextOrdinal]
    exact h.sweep _
  | @unlinkRaw b₁ _ _ hby =>
    show Queued cfg (fun lane => dropJob _ (b₁.lanes lane)) b₁.nextOrdinal
    rw [hby.lanes, hby.nextOrdinal]
    exact h.drop _
  | @unlinkStaged b₁ _ _ _ hby hfind hstaged =>
    obtain ⟨hx, hk⟩ := findJob_mem hfind
    show Queued cfg (fun lane => rewriteJob _ _ (b₁.lanes lane)) b₁.nextOrdinal
    rw [hby.lanes, hby.nextOrdinal]
    exact h.retireJob hx hk (staged_ne hstaged rfl)
  | route _ hroute =>
    obtain ⟨_, _, _, rfl⟩ := route_spec hroute
    exact h
  | _ => exact h

/-! ## The tickets which are being retired -/

/-- A job with this ordinal and ticket is retired, and its `Retire` is due or running. -/
def isOwed (lanes : Lane → List Slot) (p : Nat × Ticket) : Prop :=
  ∃ x ∈ allJobs lanes, x.key = p ∧ x.state = .lifecycleRetired

section IsOwed

variable {lanes : Lane → List Slot} {p : Nat × Ticket}

theorem isOwed_rewrite (h : ∀ x ∈ allJobs lanes, x.ingressOrdinal = k →
      x.state ≠ .lifecycleRetired ∧ (g x).state ≠ .lifecycleRetired) :
    isOwed (fun lane => rewriteJob k g (lanes lane)) p ↔ isOwed lanes p := by
  unfold isOwed
  rw [allJobs_rewrite]
  constructor
  · rintro ⟨y, hy, hp, hs⟩
    rcases mem_rewrite.1 hy with ⟨x, hx, hk, rfl⟩ | ⟨hy, -⟩
    · exact absurd hs (h x hx hk).2
    · exact ⟨y, hy, hp, hs⟩
  · rintro ⟨y, hy, hp, hs⟩
    exact ⟨y, mem_rewrite.2 (.inr ⟨hy, fun hk => (h y hy hk).1 hs⟩), hp, hs⟩

theorem isOwed_drop : isOwed (fun lane => dropJob k (lanes lane)) p ↔ isOwed lanes p ∧ p.1 ≠ k := by
  unfold isOwed
  rw [allJobs_drop]
  constructor
  · rintro ⟨y, hy, rfl, hs⟩
    obtain ⟨hy, hk⟩ := mem_drop.1 hy
    exact ⟨⟨y, hy, rfl, hs⟩, hk⟩
  · rintro ⟨⟨y, hy, rfl, hs⟩, hk⟩
    exact ⟨y, mem_drop.2 ⟨hy, hk⟩, rfl, hs⟩

theorem isOwed_drop_other (h : ∀ x ∈ allJobs lanes, x.ingressOrdinal = k →
    x.state ≠ .lifecycleRetired) :
    isOwed (fun lane => dropJob k (lanes lane)) p ↔ isOwed lanes p := by
  rw [isOwed_drop, and_iff_left_iff_imp]
  rintro ⟨y, hy, rfl, hs⟩ hk
  exact h y hy hk hs

theorem isOwed_push (lane : Lane) (hx : x.state = .rawQueued) :
    isOwed (update lanes lane (lanes lane ++ [x])) p ↔ isOwed lanes p := by
  constructor
  · rintro ⟨y, hy, hp, hs⟩
    rcases mem_cons.1 ((allJobs_push lane).mem_iff.1 hy) with rfl | hy
    · rw [hx] at hs
      cases hs
    · exact ⟨y, hy, hp, hs⟩
  · rintro ⟨y, hy, hp, hs⟩
    exact ⟨y, (allJobs_push lane).mem_iff.2 (mem_cons_of_mem _ hy), hp, hs⟩

theorem isOwed_retire (h : Queued cfg lanes next) (hx : x ∈ allJobs lanes)
    (hk : x.ingressOrdinal = k) (hs : x.state.staged) :
    isOwed (fun lane => rewriteJob k retireSlot (lanes lane)) p ↔ isOwed lanes p ∨ p = x.key := by
  unfold isOwed
  rw [allJobs_rewrite]
  constructor
  · rintro ⟨y, hy, rfl, hy'⟩
    rcases mem_rewrite.1 hy with ⟨z, hz, hzk, rfl⟩ | ⟨hy, -⟩
    · rw [h.unique hz hx (hzk.trans hk.symm)]
      exact .inr rfl
    · exact .inl ⟨y, hy, rfl, hy'⟩
  · rintro (⟨y, hy, rfl, hy'⟩ | rfl)
    · refine ⟨y, mem_rewrite.2 (.inr ⟨hy, fun hyk => ?_⟩), rfl, hy'⟩
      rw [h.unique hy hx (hyk.trans hk.symm)] at hy'
      rw [hy'] at hs
      cases hs
    · exact ⟨retireSlot x, mem_rewrite.2 (.inl ⟨x, hx, hk, rfl⟩), rfl, rfl⟩

theorem mem_collected : x ∈ b.collected scope ↔ x ∈ b.all ∧ collects scope x := by
  unfold System.collected System.all allJobs
  simp only [mem_flatMap, mem_reverse, mem_filter]
  constructor
  · rintro ⟨lane, hl, hx, hc⟩
    exact ⟨⟨lane, hl, hx⟩, hc⟩
  · rintro ⟨⟨lane, hl, hx⟩, hc⟩
    exact ⟨lane, hl, hx, hc⟩

theorem isOwed_sweep : isOwed (fun lane => (b.lanes lane).filterMap (sweptSlot scope)) p ↔
      isOwed b.lanes p ∨ p ∈ (b.collected scope).map Slot.key := by
  unfold isOwed
  rw [allJobs_sweep]
  constructor
  · rintro ⟨y, hy, rfl, hs⟩
    rcases mem_sweep.1 hy with ⟨hy, -⟩ | ⟨x, hx, hc, rfl⟩
    · exact .inl ⟨y, hy, rfl, hs⟩
    · exact .inr (mem_map.2 ⟨x, mem_collected.2 ⟨hx, hc⟩, rfl⟩)
  · rintro (⟨y, hy, rfl, hs⟩ | hp)
    · refine ⟨y, mem_sweep.2 (.inl ⟨hy, ?_⟩), rfl, hs⟩
      simp [sweptSlot, collects, hs]
    · obtain ⟨x, hx, rfl⟩ := mem_map.1 hp
      obtain ⟨hx, hc⟩ := mem_collected.1 hx
      exact ⟨retireSlot x, mem_sweep.2 (.inr ⟨x, hx, hc, rfl⟩), rfl, rfl⟩

/-- What a sweep collects was nobody's before. -/
theorem collected_fresh (h : Queued cfg b.lanes next) (hx : x ∈ b.collected scope)
    (hp : isOwed b.lanes p) : p.1 ≠ x.ingressOrdinal := by
  obtain ⟨hx, hc⟩ := mem_collected.1 hx
  obtain ⟨y, hy, rfl, hs⟩ := hp
  intro hk
  rw [← h.unique hy hx hk] at hc
  simp [collects, hs] at hc

/-- The ordinals of what a sweep collects are different. -/
theorem collected_nodup (h : Queued cfg b.lanes next) :
    ((b.collected scope).map Slot.ingressOrdinal).Nodup := by
  have hperm : (b.collected scope).Perm (b.all.filter (collects scope)) := by
    unfold System.collected System.all allJobs
    rw [filter_flatMap]
    exact List.Perm.flatMap_left _ fun lane _ => reverse_perm _
  refine (hperm.map _).nodup_iff.2 ?_
  exact h.nodup.sublist (filter_sublist.map _)

end IsOwed

/-- The retired jobs are exactly those in the callers' lists. -/
structure Owed (b : Board) : Prop where
  owed : ∀ p, isOwed b.lanes p ↔ ∃ c, p ∈ (b.retiring c).todo.map Retirement.key
  nodup : ∀ c, ((b.retiring c).todo.map fun r => r.ref.ingressOrdinal).Nodup
  once : ∀ (c c' : Caller) (r r' : Retirement), r ∈ (b.retiring c).todo →
    r' ∈ (b.retiring c').todo → r.ref.ingressOrdinal = r'.ref.ingressOrdinal → c = c'
  idle : ∀ c, b.waits c = false → (b.retiring c).todo = []

namespace Owed

theorem first (h : Owed b) {r : Retirement} {rest : List Retirement}
    (htodo : (b.retiring c).todo = r :: rest) : isOwed b.lanes r.key :=
  (h.owed r.key).2 ⟨c, by rw [htodo]; exact mem_cons_self⟩

/-- No ticket changes hands. -/
theorem same (h : Owed b) (hl : ∀ p, isOwed b'.lanes p ↔ isOwed b.lanes p)
    (ht : ∀ c, (b'.retiring c).todo = (b.retiring c).todo)
    (hw : ∀ c, b'.waits c = false → b.waits c = false ∨ (b.retiring c).todo = []) : Owed b' where
  owed := by
    intro p
    rw [hl, h.owed]
    simp only [ht]
  nodup := fun c => by rw [ht]; exact h.nodup c
  once := by
    intro c c' r r' hr hr'
    rw [ht] at hr hr'
    exact h.once c c' r r' hr hr'
  idle := by
    intro c hc
    rw [ht]
    rcases hw c hc with hc | hc
    · exact h.idle c hc
    · exact hc

/-- A caller which held nothing takes new tickets. -/
theorem take (h : Owed b) {new : List Retirement} (hempty : (b.retiring c).todo = [])
    (hl : ∀ p, isOwed b'.lanes p ↔ isOwed b.lanes p ∨ p ∈ new.map Retirement.key)
    (hc : (b'.retiring c).todo = new) (ht : ∀ c' ≠ c, (b'.retiring c').todo = (b.retiring c').todo)
    (hnodup : (new.map fun r => r.ref.ingressOrdinal).Nodup)
    (hfresh : ∀ r ∈ new, ∀ p, isOwed b.lanes p → p.1 ≠ r.ref.ingressOrdinal)
    (hw : b'.waits c ∨ new = []) (hw' : ∀ c' ≠ c, b'.waits c' = false → b.waits c' = false) :
    Owed b' := by
  have hold : ∀ c' ≠ c, ∀ r ∈ (b.retiring c').todo, ∀ r' ∈ new,
      r.ref.ingressOrdinal ≠ r'.ref.ingressOrdinal := by
    intro c' _ r hr r' hr'
    exact hfresh r' hr' r.key ((h.owed r.key).2 ⟨c', mem_map_of_mem hr⟩)
  refine ⟨fun p => ?_, fun c' => ?_, fun c₁ c₂ r r' hr hr' hk => ?_, fun c' hc' => ?_⟩
  · rw [hl, h.owed]
    constructor
    · rintro (⟨c', hp⟩ | hp)
      · have hne : c' ≠ c := by
          rintro rfl
          rw [hempty] at hp
          cases hp
        exact ⟨c', by rw [ht c' hne]; exact hp⟩
      · exact ⟨c, by rw [hc]; exact hp⟩
    · rintro ⟨c', hp⟩
      by_cases hne : c' = c
      · subst hne
        rw [hc] at hp
        exact .inr hp
      · rw [ht c' hne] at hp
        exact .inl ⟨c', hp⟩
  · by_cases hne : c' = c
    · rw [hne, hc]
      exact hnodup
    · rw [ht c' hne]
      exact h.nodup c'
  · by_cases h₁ : c₁ = c <;> by_cases h₂ : c₂ = c
    · rw [h₁, h₂]
    · rw [h₁, hc] at hr
      rw [ht c₂ h₂] at hr'
      exact absurd hk.symm (hold c₂ h₂ r' hr' r hr)
    · rw [h₂, hc] at hr'
      rw [ht c₁ h₁] at hr
      exact absurd hk (hold c₁ h₁ r hr r' hr')
    · rw [ht c₁ h₁] at hr
      rw [ht c₂ h₂] at hr'
      exact h.once c₁ c₂ r r' hr hr' hk
  · by_cases hne : c' = c
    · subst hne
      rw [hc]
      rcases hw with hw | hw
      · cases hw.symm.trans hc'
      · exact hw
    · rw [ht c' hne]
      exact h.idle c' (hw' c' hne hc')

/-- A caller is done with the first of its tickets. -/
theorem give (h : Owed b) {r : Retirement} {rest : List Retirement}
    (hfirst : (b.retiring c).todo = r :: rest)
    (hl : ∀ p, isOwed b'.lanes p ↔ isOwed b.lanes p ∧ p.1 ≠ r.ref.ingressOrdinal)
    (hc : (b'.retiring c).todo = rest) (ht : ∀ c' ≠ c, (b'.retiring c').todo = (b.retiring c').todo)
    (hw : ∀ c', b'.waits c' = false → b.waits c' = false) : Owed b' := by
  have hsub : ∀ c', (b'.retiring c').todo ⊆ (b.retiring c').todo := by
    intro c'
    by_cases hne : c' = c
    · rw [hne, hc, hfirst]
      exact subset_cons_self _ _
    · rw [ht c' hne]
      exact List.Subset.refl _
  have hnodup := h.nodup c
  rw [hfirst, map_cons, nodup_cons] at hnodup
  refine ⟨fun p => ?_, fun c' => ?_, fun c₁ c₂ r r' hr hr' hk => ?_, fun c' hc' => ?_⟩
  · rw [hl, h.owed]
    constructor
    · rintro ⟨⟨c', hp⟩, hne⟩
      refine ⟨c', ?_⟩
      by_cases hcc : c' = c
      · subst hcc
        rw [hfirst, map_cons, mem_cons] at hp
        rcases hp with rfl | hp
        · exact absurd rfl hne
        · rw [hc]
          exact hp
      · rw [ht c' hcc]
        exact hp
    · rintro ⟨c', hp⟩
      obtain ⟨r', hr', rfl⟩ := mem_map.1 hp
      refine ⟨⟨c', mem_map_of_mem (hsub c' hr')⟩, fun hk => ?_⟩
      have hcc : c' = c := h.once c' c r' r (hsub c' hr') (by rw [hfirst]; exact mem_cons_self) hk
      subst hcc
      rw [hc] at hr'
      exact hnodup.1 (mem_map.2 ⟨r', hr', hk⟩)
  · by_cases hne : c' = c
    · rw [hne, hc]
      exact hnodup.2
    · rw [ht c' hne]
      exact h.nodup c'
  · exact h.once c₁ c₂ r r' (hsub c₁ hr) (hsub c₂ hr') hk
  have hnil := h.idle c' (hw c' hc')
  have := hsub c'
  rw [hnil] at this
  exact subset_nil.1 this

end Owed

/-- Who waits, when only the token's holder has moved. -/
theorem waits_of_pc (h : b'.waits c = false) (hpc : b.pc.waits = false)
    (hreader : b'.reader = b.reader) (hcalls : b'.calls = b.calls) : b.waits c = false := by
  cases c with
  | service => exact hpc
  | reader =>
    show b.reader.waits = false
    rw [← hreader]
    exact h
  | other n =>
    show (b.calls n).waits = false
    rw [← hcalls]
    exact h

/-- Who waits, when only the reader has moved. -/
theorem waits_of_reader (h : b'.waits c = false) (hreader : b.reader.waits = false)
    (hpc : b'.pc = b.pc) (hcalls : b'.calls = b.calls) : b.waits c = false := by
  cases c with
  | service =>
    show b.pc.waits = false
    rw [← hpc]
    exact h
  | reader => exact hreader
  | other n =>
    show (b.calls n).waits = false
    rw [← hcalls]
    exact h

theorem QuietPc.waits {done : Prop} {pc pc' : Pc} (h : QuietPc done pc pc')
    (hw : pc'.waits = false) : pc.waits = false ∨ done := by
  cases h with
  | keep => exact .inl hw
  | plain hp =>
    left
    cases pc <;> first | rfl | cases hp
  | finish hdone | routing _ _ hdone => exact .inr hdone
  | unswept => exact .inl rfl

theorem Calm.waits (h : Calm b b') (c : Caller) (hw : b'.waits c = false) :
    b.waits c = false ∨ (b.retiring c).todo = [] := by
  cases c with
  | service => exact h.pc.waits hw
  | reader =>
    rcases h.reader with heq | ⟨-, -, -, hdone⟩
    · left
      show b.reader.waits = false
      rw [← heq]
      exact hw
    · by_cases hr : b.reader.waits
      · exact .inr (hdone hr)
      · exact .inl (Bool.eq_false_iff.2 hr)
  | other n =>
    have hcall := h.calls n
    have hw : (b'.calls n).waits = false := hw
    show (b.calls n).waits = false ∨ _
    cases hb : b.calls n with
    | retiring kind =>
      rw [hb] at hcall
      cases hb' : b'.calls n with
      | retiring kind' =>
        rw [hb'] at hw
        cases hw
      | _ =>
        rw [hb'] at hcall
        cases hcall <;> exact .inr ‹_›
    | _ => exact .inl rfl

theorem waits_setCall {n : Nat} {pc : CallPc} (hne : c' ≠ .other n) :
    (b.setCall n pc).waits c' = b.waits c' := by
  cases c' with
  | other m =>
    have hmn : m ≠ n := fun heq => hne (by rw [heq])
    show (update b.calls n pc m).waits = _
    rw [update_of_ne hmn]
    rfl
  | _ => rfl

theorem UnlinkBy.waits (h : UnlinkBy b c owes b₁) (hne : c' ≠ c) : b₁.waits c' = b.waits c' := by
  cases h with
  | reader =>
    cases c' with
    | reader => exact absurd rfl hne
    | _ => rfl
  | call => exact waits_setCall hne

theorem UnlinkBy.before (h : UnlinkBy b c owes b₁) : b.waits c = false := by
  cases h with
  | reader hr =>
    show b.reader.waits = false
    rw [hr]
    rfl
  | @call n _ _ hc =>
    show (b.calls n).waits = false
    rw [hc]
    rfl

theorem UnlinkBy.after (h : UnlinkBy b c owes b₁) : b₁.waits c = owes := by
  cases h with
  | reader _ _ hw => exact hw
  | @call n owes pc _ hpc =>
    show (update b.calls n pc n).waits = owes
    rw [update_self, hpc]
    cases owes <;> rfl

theorem UnlinkBy.retiring (h : UnlinkBy b c owes b₁) : b₁.retiring = b.retiring := by
  cases h <;> rfl

section SweepBy

variable (h : SweepBy cfg b c scope reason b₁)

include h

theorem SweepBy.waits (hne : c' ≠ c) : b₁.waits c' = b.waits c' := by
  cases h with
  | lifecycle | drain =>
    cases c' with
    | service => exact absurd rfl hne
    | _ => rfl
  | call | shutdown => exact waits_setCall hne

theorem SweepBy.before : b.waits c = false := by
  cases h with
  | lifecycle hpc | drain hpc =>
    show b.pc.waits = false
    rw [hpc]
    rfl
  | @call n _ _ hc | @shutdown n _ hc =>
    show (b.calls n).waits = false
    rw [hc]
    rfl

theorem SweepBy.after : b₁.waits c := by
  cases h with
  | @call n | @shutdown n =>
    show (update b.calls n _ n).waits
    rw [update_self]
    rfl
  | _ => rfl

theorem SweepBy.retiring : b₁.retiring = b.retiring := by
  cases h <;> rfl

end SweepBy

/-- A caller which held nothing takes one staged ticket. -/
theorem Owed.takeOne {ref : Ref} (hq : Queued cfg b.lanes next) (h : Owed b) (hx : x ∈ b.all)
    (hk : x.ingressOrdinal = k) (hs : x.state.staged) (href : ref.ingressOrdinal = k)
    (hbefore : b.waits c = false) (hlanes : b₁.lanes = b.lanes)
    (hl : b'.lanes = fun lane => rewriteJob k retireSlot (b₁.lanes lane))
    (hc : (b'.retiring c).todo = [⟨ref, x.ticket⟩])
    (ht : ∀ c' ≠ c, (b'.retiring c').todo = (b.retiring c').todo) (hw : b'.waits c)
    (hw' : ∀ c' ≠ c, b'.waits c' = false → b.waits c' = false) : Owed b' := by
  refine h.take (h.idle c hbefore) (fun p => ?_) hc ht (nodup_singleton _) ?_ (.inl hw) hw'
  · rw [hl, hlanes, isOwed_retire hq hx hk hs, map_singleton, mem_singleton]
    rw [show Retirement.key ⟨ref, x.ticket⟩ = x.key from Prod.ext (href.trans hk.symm) rfl]
  · rintro r hr p ⟨y, hy, rfl, hy'⟩ hkey
    rw [mem_singleton.1 hr] at hkey
    rw [hq.unique hy hx (hkey.trans (href.trans hk.symm))] at hy'
    rw [hy'] at hs
    cases hs

theorem todo_setRetiring {r : Retiring} (hne : c' ≠ c) :
    ((b.setRetiring c r).retiring c').todo = (b.retiring c').todo := by
  show (update b.retiring c r c').todo = _
  rw [update_of_ne hne]

theorem todo_setRetiring_self {r : Retiring} : ((b.setRetiring c r).retiring c).todo = r.todo := by
  show (update b.retiring c r c).todo = _
  rw [update_self]

/-- The jobs with an ordinal are one job, so a state it is not in is none of theirs. -/
theorem Queued.state_ne {lanes : Lane → List Slot} {st : SubmissionState}
    (h : Queued cfg lanes next)
    (hx : x ∈ allJobs lanes) (hk : x.ingressOrdinal = k) (hne : x.state ≠ st) (y : Slot)
    (hy : y ∈ allJobs lanes) (hyk : y.ingressOrdinal = k) : y.state ≠ st := by
  rw [h.unique hy hx (hyk.trans hk.symm)]
  exact hne

theorem head_mem_all (h : b.IsHead lane x) : x ∈ b.all :=
  mem_allJobs.2 ⟨lane, mem_of_mem_head? h⟩

theorem Owed.move (hm : Move cfg b l b')
    (hq : Queued cfg b.lanes b.nextOrdinal) (h : Owed b) : Owed b' := by
  cases hm with
  | calm _ hcalm =>
    refine h.same (fun p => by rw [hcalm.lanes]) (fun c => by rw [hcalm.retiring]) hcalm.waits
  | @enqueue lane e _ _ reader _ hlane _ hby =>
    refine h.same (fun p => isOwed_push lane rfl) (fun _ => rfl) fun c hc => .inl ?_
    rcases hby with ⟨-, -, hr⟩ | ⟨-, -, hr, -⟩
    · cases c with
      | reader =>
        show b.reader.waits = false
        rw [← hr]
        exact hc
      | _ => exact hc
    · exact waits_of_reader hc (by rw [hr]; rfl) rfl rfl
  | @stage round ref x resolved ticket hpc hhead hord hraw =>
    have hx := head_mem_all hhead
    refine h.same (fun p => isOwed_rewrite fun y hy hyk => ⟨?_, nofun⟩) (fun _ => rfl)
      fun c hc => .inl (waits_of_pc hc (by rw [hpc]; rfl) rfl rfl)
    exact hq.state_ne hx hord (by rw [hraw]; nofun) y hy hyk
  | unstage hpc hhead hord hraw =>
    refine h.same (fun p => isOwed_drop_other fun y hy hyk => ?_) (fun _ => rfl)
      fun c hc => .inl (waits_of_pc hc (by rw [hpc]; rfl) rfl rfl)
    exact hq.state_ne (head_mem_all hhead) hord (by rw [hraw]; nofun) y hy hyk
  | sequence hpc | refuse hpc | send hpc | complete hpc =>
    exact h.same (fun _ => Iff.rfl) (fun _ => rfl)
      fun c hc => .inl (waits_of_pc hc (by rw [hpc]; rfl) rfl rfl)
  | pend hpc hhead hord hstaged | admits hpc hhead hord hstaged =>
    refine h.same (fun p => isOwed_rewrite fun y hy hyk => ⟨?_, nofun⟩) (fun _ => rfl)
      fun c hc => .inl (waits_of_pc hc (by rw [hpc]; rfl) rfl rfl)
    exact hq.state_ne (head_mem_all hhead) hord (staged_ne hstaged rfl) y hy hyk
  | @claim ref x hpc hfind hstaged =>
    obtain ⟨hx, hk⟩ := findJob_mem hfind
    have hwait : b.waits .service = false := by
      show b.pc.waits = false
      rw [hpc]
      rfl
    refine Owed.takeOne hq h hx hk hstaged rfl hwait rfl rfl todo_setRetiring_self
      (fun c hne => todo_setRetiring hne) rfl fun c hne hc => ?_
    exact waits_of_pc hc (by rw [hpc]; rfl) rfl rfl
  | claimNone hpc =>
    have hnil := h.idle .service (show b.pc.waits = false by rw [hpc]; rfl)
    refine h.same (fun _ => Iff.rfl) (fun c => ?_) fun c hc =>
      .inl (waits_of_pc hc (by rw [hpc]; rfl) rfl rfl)
    by_cases hne : c = .service
    · rw [hne]
      exact todo_setRetiring_self.trans hnil.symm
    · exact todo_setRetiring hne
  | settle hpc hfind hadm | rotate hpc hfind hadm =>
    obtain ⟨hx, hk⟩ := findJob_mem hfind
    refine h.same (fun p => isOwed_drop_other fun y hy hyk => ?_) (fun _ => rfl)
      fun c hc => .inl (waits_of_pc hc (by rw [hpc]; rfl) rfl rfl)
    exact hq.state_ne hx hk (by rw [hadm]; nofun) y hy hyk
  | @sweep b₁ c scope reason todo hby hkeys =>
    have hords : todo.map (fun r => r.ref.ingressOrdinal) =
        (b.collected scope).map Slot.ingressOrdinal := by
      have := congrArg (map Prod.fst) hkeys
      rw [map_map, map_map] at this
      exact this
    refine h.take (h.idle c hby.before) (fun p => ?_) todo_setRetiring_self
      (fun c' hne => (todo_setRetiring hne).trans ?_) ?_ (fun r hr p hp => ?_) (.inl hby.after)
      fun c' hne hc' => ?_
    · show isOwed (fun lane => (b₁.lanes lane).filterMap (sweptSlot scope)) p ↔ _
      rw [hby.lanes, isOwed_sweep, hkeys]
    · show (b₁.retiring c').todo = _
      rw [hby.retiring]
    · rw [hords]
      exact collected_nodup hq
    · have hmem : r.ref.ingressOrdinal ∈ (b.collected scope).map Slot.ingressOrdinal := by
        rw [← hords]
        exact mem_map_of_mem hr
      obtain ⟨x, hx, hxr⟩ := mem_map.1 hmem
      rw [← hxr]
      exact collected_fresh hq hx hp
    · rw [← hby.waits hne]
      exact hc'
  | @unlinkRaw b₁ c x hby hfind hraw =>
    obtain ⟨hx, hk⟩ := findJob_mem hfind
    have hnil := h.idle c hby.before
    refine h.same (fun p => ?_) (fun c' => ?_) fun c' hc' => .inl ?_
    · show isOwed (fun lane => dropJob _ (b₁.lanes lane)) p ↔ _
      rw [hby.lanes]
      refine isOwed_drop_other fun y hy hyk => ?_
      exact hq.state_ne hx hk (by rw [hraw]; nofun) y hy hyk
    · by_cases hne : c' = c
      · rw [hne]
        exact todo_setRetiring_self.trans hnil.symm
      · refine (todo_setRetiring hne).trans ?_
        show (b₁.retiring c').todo = _
        rw [hby.retiring]
    · by_cases hne : c' = c
      · rw [hne]
        exact hby.before
      · rw [← hby.waits hne]
        exact hc'
  | @unlinkStaged b₁ c x ref hby hfind hstaged href =>
    obtain ⟨hx, hk⟩ := findJob_mem hfind
    refine Owed.takeOne hq h hx hk hstaged href hby.before hby.lanes rfl todo_setRetiring_self
      (fun c' hne => (todo_setRetiring hne).trans ?_) hby.after fun c' hne hc' => ?_
    · show (b₁.retiring c').todo = _
      rw [hby.retiring]
    · rw [← hby.waits hne]
      exact hc'
  | @retire c r rest failed htodo =>
    refine h.same (fun _ => Iff.rfl) (fun c' => ?_) fun c' hc' => .inl hc'
    by_cases hne : c' = c
    · rw [hne]
      exact todo_setRetiring_self
    · exact todo_setRetiring hne
  | @release c r rest htodo =>
    exact h.give htodo (fun p => isOwed_drop) todo_setRetiring_self
      (fun c' hne => todo_setRetiring hne) fun c' hc' => hc'
  | route hpc hroute =>
    obtain ⟨_, _, _, rfl⟩ := route_spec hroute
    exact h.same (fun _ => Iff.rfl) (fun _ => rfl)
      fun c hc => .inl (waits_of_pc hc (by rw [hpc]; rfl) rfl rfl)
  | frame hr | finish hr | reply hr =>
    exact h.same (fun _ => Iff.rfl) (fun _ => rfl)
      fun c hc => .inl (waits_of_reader hc (by rw [hr]; rfl) rfl rfl)
  | abandon _ _ hdone =>
    refine h.same (fun _ => Iff.rfl) (fun _ => rfl) fun c hc => ?_
    cases c with
    | reader =>
      by_cases hr : b.reader.waits
      · exact .inr (hdone hr)
      · exact .inl (Bool.eq_false_iff.2 hr)
    | _ => exact .inl hc

/-! ## The job in the hands of the token's holder -/

/-- The admitted job is the one being sent, and what is being prepared goes out under
its own sequence. -/
structure InHand (cfg : Config) (b : Board) : Prop where
  admission : ∀ a, b.pc.admission? = some a → ∃ x ∈ b.all,
    x.ingressOrdinal = a.ref.ingressOrdinal ∧ x.state = .admitted ∧ x.ticket = a.ticket ∧
      x.sequence = a.sequence ∧ (a.lifecycleTerminalSuccess →
        x.controlLifecycle.accepted)
  sendable : ∀ a, b.pc.admission? = some a → a.selection.sendable cfg.maximumResponseLength
  admitted : ∀ x ∈ b.all, x.state = .admitted →
    ∃ a, b.pc.admission? = some a ∧ a.ref.ingressOrdinal = x.ingressOrdinal
  preparing : ∀ round ref sequence, b.pc = .preparing round ref sequence →
    ref.ingressOrdinal ≤ b.nextOrdinal ∧
      ∀ x ∈ b.all, x.ingressOrdinal = ref.ingressOrdinal → x.sequence = sequence

/-- The admitted jobs are the same, and no job is given another sequence. -/
structure SameHand (b b' : Board) : Prop where
  admitted : ∀ x : Slot, x.state = .admitted → (x ∈ b'.all ↔ x ∈ b.all)
  origin : ∀ y ∈ b'.all, (∃ x ∈ b.all, x.ingressOrdinal = y.ingressOrdinal ∧
    x.sequence = y.sequence) ∨ b.nextOrdinal < y.ingressOrdinal
  nextOrdinal : b.nextOrdinal ≤ b'.nextOrdinal

theorem SameHand.refl (hl : b'.lanes = b.lanes) (hn : b'.nextOrdinal = b.nextOrdinal) :
    SameHand b b' := by
  have hall : b'.all = b.all := by
    unfold System.all
    rw [hl]
  refine ⟨fun x _ => by rw [hall], fun y hy => .inl ⟨y, by rwa [hall] at hy, rfl, rfl⟩, ?_⟩
  rw [hn]

theorem SameHand.rewrite (hl : b'.lanes = fun lane => rewriteJob k g (b.lanes lane))
    (hn : b'.nextOrdinal = b.nextOrdinal)
    (h : ∀ x ∈ b.all, x.ingressOrdinal = k → x.state ≠ .admitted ∧ (g x).state ≠ .admitted ∧
      (g x).ingressOrdinal = x.ingressOrdinal ∧ (g x).sequence = x.sequence) : SameHand b b' := by
  have hall : b'.all = rewriteJob k g b.all := by
    unfold System.all
    rw [hl, allJobs_rewrite]
  refine ⟨fun x hx => ?_, fun y hy => .inl ?_, Nat.le_of_eq hn.symm⟩
  · rw [hall, mem_rewrite]
    constructor
    · rintro (⟨z, hz, hzk, rfl⟩ | ⟨hx, -⟩)
      · exact absurd hx (h z hz hzk).2.1
      · exact hx
    · intro hmem
      exact .inr ⟨hmem, fun hk => (h x hmem hk).1 hx⟩
  · rw [hall] at hy
    rcases mem_rewrite.1 hy with ⟨z, hz, hzk, rfl⟩ | ⟨hy, -⟩
    · obtain ⟨-, -, hord, hseq⟩ := h z hz hzk
      exact ⟨z, hz, hord.symm, hseq.symm⟩
    · exact ⟨y, hy, rfl, rfl⟩

theorem SameHand.drop (hl : b'.lanes = fun lane => dropJob k (b.lanes lane))
    (hn : b'.nextOrdinal = b.nextOrdinal)
    (h : ∀ x ∈ b.all, x.ingressOrdinal = k → x.state ≠ .admitted) : SameHand b b' := by
  have hall : b'.all = dropJob k b.all := by
    unfold System.all
    rw [hl, allJobs_drop]
  refine ⟨fun x hx => ?_, fun y hy => .inl ?_, Nat.le_of_eq hn.symm⟩
  · rw [hall, mem_drop, and_iff_left_iff_imp]
    exact fun hmem hk => h x hmem hk hx
  · rw [hall] at hy
    exact ⟨y, (mem_drop.1 hy).1, rfl, rfl⟩

theorem SameHand.sweep (hl : b'.lanes = fun lane => (b.lanes lane).filterMap (sweptSlot scope))
    (hn : b'.nextOrdinal = b.nextOrdinal) : SameHand b b' := by
  have hall : b'.all = b.all.filterMap (sweptSlot scope) := by
    unfold System.all
    rw [hl, allJobs_sweep]
  refine ⟨fun x hx => ?_, fun y hy => .inl ?_, Nat.le_of_eq hn.symm⟩
  · rw [hall, mem_sweep]
    constructor
    · rintro (⟨hx, -⟩ | ⟨z, hz, hc, rfl⟩)
      · exact hx
      · cases hx
    · intro hmem
      exact .inl ⟨hmem, by simp [sweptSlot, hx], by simp [collects, hx]⟩
  · rw [hall] at hy
    rcases mem_sweep.1 hy with ⟨hy, -⟩ | ⟨z, hz, -, rfl⟩
    · exact ⟨y, hy, rfl, rfl⟩
    · exact ⟨z, hz, rfl, rfl⟩

theorem SameHand.push (hl : b'.lanes = update b.lanes lane (b.lanes lane ++ [x]))
    (hn : b'.nextOrdinal = b.nextOrdinal + 1) (hx : x.state = .rawQueued)
    (hord : x.ingressOrdinal = b.nextOrdinal + 1) : SameHand b b' := by
  have hmem : ∀ y, y ∈ b'.all ↔ y = x ∨ y ∈ b.all := by
    intro y
    unfold System.all
    rw [hl, (allJobs_push lane).mem_iff, mem_cons]
  refine ⟨fun y hy => ?_, fun y hy => ?_, by omega⟩
  · rw [hmem]
    refine or_iff_right ?_
    rintro rfl
    cases hx.symm.trans hy
  · rcases (hmem y).1 hy with rfl | hy
    · right
      omega
    · exact .inl ⟨y, hy, rfl, rfl⟩

/-- The token's holder keeps its job. -/
theorem InHand.same (h : InHand cfg b) (hs : SameHand b b')
    (hadm : b'.pc.admission? = b.pc.admission?)
    (hprep : b'.pc.isPreparing → b'.pc = b.pc) : InHand cfg b' where
  admission := by
    intro a ha
    rw [hadm] at ha
    obtain ⟨x, hx, hord, hstate, hrest⟩ := h.admission a ha
    exact ⟨x, (hs.admitted x hstate).2 hx, hord, hstate, hrest⟩
  sendable := fun a ha => h.sendable a (hadm ▸ ha)
  admitted := by
    intro x hx hstate
    rw [hadm]
    exact h.admitted x ((hs.admitted x hstate).1 hx) hstate
  preparing := by
    intro round ref sequence hpc
    have hpc' := hprep (by rw [hpc]; rfl)
    obtain ⟨hle, hseq⟩ := h.preparing round ref sequence (hpc' ▸ hpc)
    refine ⟨Nat.le_trans hle hs.nextOrdinal, fun y hy hyk => ?_⟩
    rcases hs.origin y hy with ⟨x, hx, hord, hsx⟩ | hlt
    · rw [← hsx]
      exact hseq x hx (hord.trans hyk)
    · omega

theorem Pc.plain_admission {pc : Pc} (h : pc.plain) : pc.admission? = none := by
  cases pc <;> first | rfl | cases h

theorem QuietPc.admission {done : Prop} {pc pc' : Pc} (h : QuietPc done pc pc') :
    pc'.admission? = pc.admission? := by
  cases h with
  | plain hp hp' => rw [Pc.plain_admission hp, Pc.plain_admission hp']
  | finish _ hpc =>
    rcases hpc with rfl | ⟨_, rfl⟩ <;> rfl
  | _ => rfl

theorem QuietPc.preparing {done : Prop} {pc pc' : Pc} (h : QuietPc done pc pc')
    (hp : pc'.isPreparing) : pc' = pc := by
  cases h with
  | keep => rfl
  | plain _ _ hnot =>
    cases hnot.symm.trans hp
  | _ => cases hp

theorem UnlinkBy.pc (h : UnlinkBy b c owes b₁) : b₁.pc = b.pc := by
  cases h <;> rfl

theorem SweepBy.admission (h : SweepBy cfg b c scope reason b₁) :
    b₁.pc.admission? = b.pc.admission? ∧ (b₁.pc.isPreparing → b₁.pc = b.pc) := by
  cases h with
  | lifecycle hpc | drain hpc =>
    rw [hpc]
    exact ⟨rfl, nofun⟩
  | _ => exact ⟨rfl, fun _ => rfl⟩

theorem InHand.release {a : Admission} (h : InHand cfg b) (ha : b.pc.admission? = some a)
    (hl : b'.lanes = fun lane => dropJob a.ref.ingressOrdinal (b.lanes lane))
    (hpc : b'.pc.admission? = none) (hprep : b'.pc.isPreparing = false) : InHand cfg b' where
  admission := fun a' ha' => by rw [hpc] at ha'; cases ha'
  sendable := fun a' ha' => by rw [hpc] at ha'; cases ha'
  admitted := by
    intro x hx hstate
    unfold System.all at hx
    rw [hl, allJobs_drop, mem_drop] at hx
    obtain ⟨a', ha', hord⟩ := h.admitted x hx.1 hstate
    rw [ha] at ha'
    cases ha'
    exact absurd hord.symm hx.2
  preparing := by
    intro round ref sequence hpc'
    rw [hpc'] at hprep
    cases hprep

theorem InHand.move (hm : Move cfg b l b')
    (hq : Queued cfg b.lanes b.nextOrdinal) (ho : Owed b) (h : InHand cfg b) : InHand cfg b' := by
  cases hm with
  | calm _ hcalm =>
    exact h.same (.refl hcalm.lanes hcalm.nextOrdinal) hcalm.pc.admission hcalm.pc.preparing
  | enqueue => exact h.same (.push rfl rfl rfl rfl) rfl fun _ => rfl
  | @stage round ref x resolved ticket hpc hhead hord hraw =>
    refine h.same (.rewrite rfl rfl fun y hy hyk => ⟨?_, nofun, ?_, ?_⟩) (by rw [hpc]; rfl) nofun
    · exact hq.state_ne (head_mem_all hhead) hord (by rw [hraw]; nofun) y hy hyk
    · exact refresh_ordinal cfg b resolved y
    · show (b.refresh cfg resolved y).sequence = _
      unfold Scheduler.refresh
      split <;> rfl
  | unstage hpc hhead hord hraw =>
    refine h.same (.drop rfl rfl ?_) (by rw [hpc]; rfl) nofun
    exact hq.state_ne (head_mem_all hhead) hord (by rw [hraw]; nofun)
  | @sequence round ref hpc hle =>
    refine ⟨nofun, nofun, fun x hx hstate => ?_, ?_⟩
    · obtain ⟨a, ha, -⟩ := h.admitted x hx hstate
      rw [hpc] at ha
      cases ha
    · rintro round' ref' sequence ⟨⟩
      refine ⟨hle, fun x hx hxk => ?_⟩
      have hfind : b.find ref.ingressOrdinal = some x :=
        (findJob_eq_some hq.nodup).2 ⟨hx, hxk⟩
      rw [hfind]
      rfl
  | refuse hpc _ _ _ hout =>
    refine h.same (.refl rfl rfl) ?_ ?_
    · rcases hout with ⟨-, rfl⟩ | ⟨-, rfl⟩ <;> rw [hpc] <;> rfl
    · rcases hout with ⟨-, rfl⟩ | ⟨-, rfl⟩ <;> nofun
  | pend hpc hhead hord hstaged =>
    refine h.same (.rewrite rfl rfl fun y hy hyk => ⟨?_, nofun, rfl, rfl⟩) (by rw [hpc]; rfl) nofun
    exact hq.state_ne (head_mem_all hhead) hord (staged_ne hstaged rfl) y hy hyk
  | @admits round ref sequence x selection lifecycle nextService hpc hhead hord hstaged hsend hlc =>
    have hx := head_mem_all hhead
    have hall : ∀ y, y ∈ allJobs (fun lane => rewriteJob ref.ingressOrdinal admitSlot
        (b.lanes lane)) ↔ (∃ x ∈ b.all, x.ingressOrdinal = ref.ingressOrdinal ∧ y = admitSlot x) ∨
          (y ∈ b.all ∧ y.ingressOrdinal ≠ ref.ingressOrdinal) := by
      intro y
      rw [allJobs_rewrite]
      exact mem_rewrite
    refine ⟨?_, ?_, fun y hy hstate => ?_, nofun⟩
    · rintro a ⟨⟩
      refine ⟨admitSlot x, (hall _).2 (.inl ⟨x, hx, hord, rfl⟩), hord, rfl, rfl,
        (h.preparing _ _ _ hpc).2 x hx hord, fun hl => ?_⟩
      rw [show lifecycle = true from hl] at hlc
      exact (Bool.and_eq_true_iff.1 hlc.symm).1
    · rintro a ⟨⟩
      exact hsend
    · rcases (hall y).1 hy with ⟨z, hz, hzk, rfl⟩ | ⟨hy, -⟩
      · exact ⟨_, rfl, hzk.symm⟩
      · obtain ⟨a, ha, -⟩ := h.admitted y hy hstate
        rw [hpc] at ha
        cases ha
  | claim hpc hfind hstaged =>
    obtain ⟨hx, hk⟩ := findJob_mem hfind
    refine h.same (.rewrite rfl rfl fun y hy hyk => ⟨?_, nofun, rfl, rfl⟩) (by rw [hpc]; rfl) nofun
    exact hq.state_ne hx hk (staged_ne hstaged rfl) y hy hyk
  | claimNone hpc | send hpc | complete hpc => exact h.same (.refl rfl rfl) (by rw [hpc]; rfl) nofun
  | @settle a _ _ x hpc =>
    refine h.release (by rw [hpc]; rfl) rfl ?_ ?_
    · show Pc.admission? (if _ then _ else _) = none
      split <;> rfl
    · show Pc.isPreparing (if _ then _ else _) = false
      split <;> rfl
  | rotate hpc => exact h.release (by rw [hpc]; rfl) rfl rfl rfl
  | sweep hby =>
    exact h.same (.sweep (lanes_congr hby.lanes) hby.nextOrdinal) hby.admission.1 hby.admission.2
  | unlinkRaw hby hfind hraw =>
    obtain ⟨hx, hk⟩ := findJob_mem hfind
    exact h.same (.drop (lanes_congr hby.lanes) hby.nextOrdinal
      (hq.state_ne hx hk (by rw [hraw]; nofun))) (congrArg Pc.admission? hby.pc) fun _ => hby.pc
  | unlinkStaged hby hfind hstaged =>
    obtain ⟨hx, hk⟩ := findJob_mem hfind
    refine h.same (.rewrite (lanes_congr hby.lanes) hby.nextOrdinal
      fun y hy hyk => ⟨?_, nofun, rfl, rfl⟩) (congrArg Pc.admission? hby.pc) fun _ => hby.pc
    exact hq.state_ne hx hk (staged_ne hstaged rfl) y hy hyk
  | @release c r rest htodo =>
    obtain ⟨x, hx, hk, hs⟩ := ho.first htodo
    refine h.same (.drop rfl rfl ?_) rfl fun _ => rfl
    exact hq.state_ne hx (congrArg Prod.fst hk) (by rw [hs]; nofun)
  | route hpc hroute =>
    obtain ⟨_, _, _, rfl⟩ := route_spec hroute
    exact h.same (.refl rfl rfl) (by rw [hpc]; rfl) nofun
  | _ => exact h.same (.refl rfl rfl) rfl fun _ => rfl

/-! ## All together -/

structure Inv (cfg : Config) (b : Board) : Prop where
  queued : Queued cfg b.lanes b.nextOrdinal
  owed : Owed b
  hand : InHand cfg b

theorem Inv.move (hm : Move cfg b l b') (h : Inv cfg b) : Inv cfg b' where
  queued := h.queued.move hm
  owed := h.owed.move hm h.queued
  hand := h.hand.move hm h.queued h.owed

/-- It holds of a board without jobs and callers. -/
theorem Inv.initial (hl : ∀ lane, b.lanes lane = [])
    (hr : ∀ c, (b.retiring c).todo = []) (hpc : b.pc = .idle) : Inv cfg b := by
  have hall : b.all = [] := flatMap_eq_nil_iff.2 fun lane _ => hl lane
  have hnone : ∀ x, x ∉ b.all := fun x hx => by rw [hall] at hx; cases hx
  refine ⟨⟨fun lane => ?_, fun lane x hx => ?_, ?_, fun lane x hx => ?_⟩,
    ⟨fun p => ?_, fun c => ?_, fun c _ r _ h => ?_, fun c _ => hr c⟩,
    ⟨fun a ha => ?_, fun a ha => ?_, fun x hx => absurd hx (hnone x), fun _ _ _ h => ?_⟩⟩
  · rw [hl]
    exact List.Pairwise.nil
  · rw [hl] at hx
    cases hx
  · rw [show allJobs b.lanes = [] from hall]
    exact nodup_nil
  · rw [hl] at hx
    cases hx
  · constructor
    · rintro ⟨x, hx, -⟩
      exact absurd hx (hnone x)
    · rintro ⟨c, hc⟩
      rw [hr] at hc
      cases hc
  · rw [hr]
    exact nodup_nil
  · rw [hr] at h
    cases h
  · rw [hpc] at ha
    cases ha
  · rw [hpc] at ha
    cases ha
  · rw [hpc] at h
    cases h

end Viiper.Ports.Retained
