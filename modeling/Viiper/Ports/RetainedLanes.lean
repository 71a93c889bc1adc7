import Viiper.Ports.RetainedPhases

/-!
# The lanes keep their representation

A lane is a table of slots, a stack of the free ones and a ring of those in use.  In every
state a scheduler reaches the two share out the table, tickets are held by heads only, and
one job over all lanes is admitted.  From this follow the facts which the code relies on
without a check: the array of three retirements is large enough, a lane's work is prepared
in the order in which it came, and a round takes the oldest of what it may take.
-/

namespace Viiper.Ports.Retained

open Verified Scheduler List

/-! ## One state -/

variable {lane : Lane}

section State

variable {cfg : Config} {s : SlotSystem}

/-- A lane collects from its head only. -/
theorem length_filter_collects {jobs : List Slot} (htail : ∀ x ∈ jobs.tail, x.state = .rawQueued)
    (scope : Scope) : (jobs.filter (collects scope)).length ≤ 1 := by
  cases jobs with
  | nil => exact Nat.zero_le 1
  | cons x rest =>
    have hrest : rest.filter (collects scope) = [] := by
      rw [filter_eq_nil_iff]
      intro y hy hc
      simp [collects, htail y hy] at hc
    rw [filter_cons, hrest]
    split
    · exact Nat.le_refl 1
    · exact Nat.zero_le 1

/-- **The array of three retirements never overflows.** -/
theorem length_retireMatching (h : Rep cfg s) (scope : Scope) :
    (s.retireMatching cfg scope).2.length ≤ 3 := by
  obtain ⟨lanes, todo, heq, -, hkeys, -⟩ := retireMatching_spec h.tables scope
  have hlane : ∀ lane, ((s.jobs cfg lane).filter (collects scope)).length ≤ 1 :=
    fun lane => length_filter_collects (h.inv.queued.tail lane) scope
  have hlength : todo.length = (Lane.all.flatMap fun lane =>
      ((s.jobs cfg lane).filter (collects scope)).reverse).length := by
    have := congrArg length hkeys
    rw [length_map, length_map] at this
    exact this
  rw [heq]
  rw [hlength]
  unfold Lane.all
  simp only [flatMap_cons, flatMap_nil, append_nil, length_append, length_reverse]
  have h₁ := hlane .control
  have h₂ := hlane .interruptIn
  have h₃ := hlane .interruptOut
  omega

theorem Rep.slot_job (h : Rep cfg s) {idx : Nat} (hidx : idx < cfg.depth lane)
    (hslot : (s.lanes lane).slots idx ≠ {}) :
    idx ∈ s.toScheduler.indices cfg lane ∧ (s.lanes lane).slots idx ∈ s.jobs cfg lane := by
  have hmem := (h.wf lane).mem_indices hidx hslot
  exact ⟨hmem, SlotQueue.mem_jobs.2 ⟨idx, hmem, rfl⟩⟩

theorem Rep.ticket_head (h : Rep cfg s) {idx : Nat} (hidx : idx < cfg.depth lane)
    (hticket : ((s.lanes lane).slots idx).ticket ≠ {}) :
    (s.toScheduler.indices cfg lane).head? = some idx := by
  obtain ⟨hmem, hjob⟩ := h.slot_job hidx fun hblank => hticket (by rw [hblank])
  have hraw : ((s.lanes lane).slots idx).state ≠ .rawQueued :=
    fun hs => hticket ((h.inv.queued.job lane _ hjob).raw hs)
  have hjobs : s.jobs cfg lane = (s.toScheduler.indices cfg lane).map (s.lanes lane).slots := rfl
  have htail := h.inv.queued.tail lane
  rcases hind : s.toScheduler.indices cfg lane with _ | ⟨i, rest⟩
  · rw [hind] at hmem
    cases hmem
  · rw [hind] at hmem hjobs
    rcases mem_cons.1 hmem with rfl | hrest
    · rfl
    refine absurd (htail _ ?_) hraw
    show _ ∈ (s.jobs cfg lane).tail
    rw [hjobs]
    exact mem_map_of_mem hrest

theorem Rep.admitted_unique (h : Rep cfg s) {lane' : Lane} {idx idx' : Nat}
    (hidx : idx < cfg.depth lane) (hidx' : idx' < cfg.depth lane')
    (hs : ((s.lanes lane).slots idx).state = .admitted)
    (hs' : ((s.lanes lane').slots idx').state = .admitted) : lane = lane' ∧ idx = idx' := by
  obtain ⟨hmem, hjob⟩ := h.slot_job hidx fun hblank => by rw [hblank] at hs; cases hs
  obtain ⟨hmem', hjob'⟩ := h.slot_job hidx' fun hblank => by rw [hblank] at hs'; cases hs'
  have hall := mem_allJobs.2 ⟨lane, hjob⟩
  have hall' := mem_allJobs.2 ⟨lane', hjob'⟩
  obtain ⟨a, ha, hao⟩ := h.inv.hand.admitted _ hall hs
  obtain ⟨a', ha', hao'⟩ := h.inv.hand.admitted _ hall' hs'
  cases ha.symm.trans ha'
  have hord := hao.symm.trans hao'
  have heq := h.inv.queued.unique hall hall' hord
  have hlane : lane = lane' := by
    have hhome := (h.inv.queued.job lane _ hjob).home
    rw [heq, (h.inv.queued.job lane' _ hjob').home] at hhome
    exact (Option.some.inj hhome).symm
  subst hlane
  exact ⟨rfl, SlotQueue.key_inj (h.tables.keys lane) hmem hmem' hord⟩

/-- What a round takes: the oldest of the heads which are eligible in it. -/
structure Chosen (cfg : Config) (s : SlotScheduler) (round : Round) (ref : Ref) : Prop where
  head : ∃ x, (s.jobs cfg ref.lane).head? = some x ∧ x.ingressOrdinal = ref.ingressOrdinal ∧
    s.eligible round ref.lane x
  oldest : ∀ lane y, (s.jobs cfg lane).head? = some y → s.eligible round lane y →
    ref.ingressOrdinal ≤ y.ingressOrdinal

theorem chosen_oldestEligible (h : Rep cfg s) {round : Round} {ref : Ref}
    (hsel : s.oldestEligible cfg round = some ref) : Chosen cfg s.toScheduler round ref := by
  obtain ⟨hcand, hold⟩ := oldestEligible_some h.tables hsel
  refine ⟨⟨_, head_jobs hcand.head, hcand.ordinal, hcand.eligible⟩, fun lane y hy helig => ?_⟩
  have hmap : ((s.toScheduler.indices cfg lane).map (s.lanes lane).slots).head? = some y := hy
  rw [head?_map, Option.map_eq_some_iff] at hmap
  obtain ⟨idx, hidx, rfl⟩ := hmap
  exact hold ⟨lane, idx, _⟩ ⟨hidx, rfl, helig⟩

/-- The step of a round which takes a slot. -/
theorem chosen_select (h : Rep cfg s) {round round' : Round} {ref : Ref} {env : Env}
    (hpc : s.pc = .selecting round)
    (hstep : (s.step cfg (.service env)).1.pc = .sequencing round' ref) :
    round' = round ∧ Chosen cfg s.toScheduler round ref := by
  have hselect : (s.step cfg (.service env)).1 = (s.select cfg round env).1 := by
    show (s.serviceStep cfg env).1 = _
    unfold System.serviceStep
    rw [hpc]
  rw [hselect] at hstep
  unfold System.select at hstep
  split at hstep
  · cases hstep
  split at hstep
  · cases hstep
  rename_i ref' hsel
  have hchosen := chosen_oldestEligible h hsel
  dsimp only at hstep
  split at hstep
  · split at hstep
    · cases hstep
    · cases hstep
      exact ⟨rfl, hchosen⟩
  · cases hstep
    exact ⟨rfl, hchosen⟩

end State

/-! ## Whole histories -/

section History

variable {cfg : Config} {b b' : Board} {l : Label}

/-- A preparation is of the head of its lane, and the ticket tells the lane. -/
theorem Move.prepared_head {o : Nat} {t : Ticket} {outcome : Outcome}
    (hm : Move cfg b (.prepared o t outcome) b') (h : Inv cfg b) :
    ∃ lane x, (b.lanes lane).head? = some x ∧ x.ingressOrdinal = o ∧ t.lane = some lane := by
  have hticket : ∀ {lane : Lane} {x : Slot}, b.IsHead lane x → x.state.staged →
      x.ticket.lane = some lane := fun hx hs =>
    ((h.queued.job _ _ (mem_of_mem_head? hx)).ticket (staged_ne hs rfl)).2.2.2
  cases hm with
  | calm hl | abandon hl => cases hl
  | @refuse _ ref _ x _ _ _ _ hx hord hs | @pend _ ref _ x _ _ _ hx hord hs
  | @admits _ ref _ x _ _ _ _ hx hord hs =>
    exact ⟨ref.lane, x, hx, hord, hticket hx hs⟩
  | route _ hroute =>
    unfold System.route at hroute
    split at hroute <;> cases hroute

/-- The head is the oldest job of its lane. -/
theorem Queued.head_le {x y : Slot} {next : Nat} (h : Queued cfg b.lanes next)
    (hx : (b.lanes lane).head? = some x) (hy : y ∈ b.lanes lane) :
    x.ingressOrdinal ≤ y.ingressOrdinal := by
  have hsorted := h.sorted lane
  rcases hjobs : b.lanes lane with _ | ⟨a, rest⟩
  · rw [hjobs] at hx
    cases hx
  · rw [hjobs] at hx hy hsorted
    cases hx
    rcases mem_cons.1 hy with rfl | hy
    · exact Nat.le_refl _
    · exact Nat.le_of_lt (rel_of_pairwise_cons hsorted hy)

/-- What was prepared on a lane is not younger than what is in it, or will come. -/
def Behind (ls : List Label) (b : Board) : Prop :=
  ∀ o t outcome, Label.prepared o t outcome ∈ ls → o ≤ b.nextOrdinal ∧
    ∀ lane, t.lane = some lane → ∀ x ∈ b.lanes lane, o ≤ x.ingressOrdinal

theorem Behind.move {ls : List Label} (hm : Move cfg b l b') (hinv : Inv cfg b)
    (h : Behind ls b) : Behind (ls ++ [l]) b' := by
  intro o t outcome hmem
  have hbefore : o ≤ b.nextOrdinal ∧
      ∀ lane, t.lane = some lane → ∀ x ∈ b.lanes lane, o ≤ x.ingressOrdinal := by
    rcases mem_append.1 hmem with hold | hnew
    · exact h o t outcome hold
    rw [← mem_singleton.1 hnew] at hm
    obtain ⟨lane, x, hx, rfl, ht⟩ := hm.prepared_head hinv
    refine ⟨(hinv.queued.job lane x (mem_of_mem_head? hx)).le, fun lane' hl y hy => ?_⟩
    cases ht.symm.trans hl
    exact hinv.queued.head_le hx hy
  refine ⟨Nat.le_trans hbefore.1 hm.nextOrdinal_le, fun lane hl y hy => ?_⟩
  rcases hm.origin hy with ⟨x, hx, hkept⟩ | hnew
  · rw [hkept.ordinal]
    exact hbefore.2 lane hl x hx
  · obtain ⟨e, _, _, _, _, _, _, rfl⟩ := hnew.made
    exact Nat.le_succ_of_le hbefore.1

/-- **The preparations of a lane follow its ingress order.** -/
theorem prepared_in_order {epoch : Nat} {ops : List Op} {ls₁ ls₂ : List Label} {o o' : Nat}
    {t t' : Ticket} {outcome outcome' : Outcome}
    (h : labels cfg epoch ops = ls₁ ++ .prepared o t outcome :: ls₂)
    (hmem : Label.prepared o' t' outcome' ∈ ls₁) (hlane : t'.lane = t.lane) : o' ≤ o := by
  obtain ⟨ops₁, b', rfl, hm⟩ := labels_move h
  obtain ⟨lane, x, hx, rfl, ht⟩ := hm.prepared_head (reached_rep cfg epoch ops₁).inv
  have hbehind : Behind (labels cfg epoch ops₁) ((reached cfg epoch ops₁).view cfg) :=
    labels_rule (P := Behind) nofun (fun _ _ _ _ hinv hm h => h.move hm hinv) ops₁
  exact (hbehind o' t' outcome' hmem).2 lane (hlane.trans ht) x (mem_of_mem_head? hx)

end History

/-- **The representation of the lanes**, in a state `s` which a history has led to. -/
structure LaneQueues (cfg : Config) (ls : List Label) (s : SlotSystem) : Prop where
  /-- The free slots and the window of the ring share out the table, without repetition. -/
  partition : ∀ lane, ((s.lanes lane).free ++ s.toScheduler.indices cfg lane).Perm
    (List.range (cfg.depth lane))
  /-- A slot with a ticket is the head of its lane. -/
  ticket : ∀ lane idx, idx < cfg.depth lane → ((s.lanes lane).slots idx).ticket ≠ {} →
    (s.toScheduler.indices cfg lane).head? = some idx
  /-- One slot over all lanes is admitted. -/
  admitted : ∀ lane idx lane' idx', idx < cfg.depth lane → idx' < cfg.depth lane' →
    ((s.lanes lane).slots idx).state = .admitted →
    ((s.lanes lane').slots idx').state = .admitted → lane = lane' ∧ idx = idx'
  /-- Whatever a sweep matches, its three retirements are enough. -/
  retirements : ∀ scope, (s.retireMatching cfg scope).2.length ≤ 3
  /-- The work of a lane is prepared in ingress order. -/
  ordered : ∀ ls₁ ls₂ o t outcome, ls = ls₁ ++ .prepared o t outcome :: ls₂ →
    ∀ o' t' outcome', Label.prepared o' t' outcome' ∈ ls₁ → t'.lane = t.lane → o' ≤ o
  /-- A round takes the oldest head which it may take and has not attempted. -/
  chosen : ∀ round env round' ref, s.pc = .selecting round →
    (s.step cfg (.service env)).1.pc = .sequencing round' ref →
      round' = round ∧ Chosen cfg s.toScheduler round ref

/-- **Every state a scheduler reaches has its lanes in order.** -/
theorem lanes_reached (cfg : Config) (epoch : Nat) (ops : List Op) :
    LaneQueues cfg (labels cfg epoch ops) (reached cfg epoch ops) where
  partition := fun lane => ((reached_rep cfg epoch ops).wf lane).partition
  ticket := fun _ _ hidx ht => (reached_rep cfg epoch ops).ticket_head hidx ht
  admitted := fun _ _ _ _ hidx hidx' hs hs' =>
    (reached_rep cfg epoch ops).admitted_unique hidx hidx' hs hs'
  retirements := length_retireMatching (reached_rep cfg epoch ops)
  ordered := fun _ _ _ _ _ h _ _ _ hmem hlane => prepared_in_order h hmem hlane
  chosen := fun _ _ _ _ hpc hstep => chosen_select (reached_rep cfg epoch ops) hpc hstep

end Viiper.Ports.Retained
