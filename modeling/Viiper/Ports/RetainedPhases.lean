import Viiper.Ports.RetainedRefinement

/-!
# The life of a submission

A submission is known by its ingress ordinal.  Its phase is what the board and the
callers have got to with it: queued, staged with a ticket, admitted, its response sent,
the ticket completed; or the ticket taken by a caller who owes the owner a `Retire`,
and this made; and then it is gone.  `Trans` is the diagram of these phases, and what
has been said about a submission on the way through it can be counted.
-/

namespace Viiper.Ports.Retained

open Verified Run Function Scheduler List Label Retained.System

variable {cfg : Config} {epoch : Nat} {ops : List Op} {b b' : Board} {c : Caller} {l : Label}
  {k o : Nat} {x : Slot} {scope : Scope}

inductive Phase
  | fresh
  | raw
  | staged (ticket : Ticket)
  | admitted (ticket : Ticket)
  | sent (ticket : Ticket)
  | completed (ticket : Ticket)
  /-- A caller has taken the ticket, to retire it. -/
  | owed (ticket : Ticket)
  | retired (ticket : Ticket)
  | gone

/-- How far the token's holder is with its admitted job. -/
inductive Progress
  | waiting | sent | completed

def Pc.progress : Pc → Progress
  | .completing _ _ => .sent
  | .settling _ _ _ => .completed
  | _ => .waiting

/-- The owner's `Retire` was called for the submission, which is still in its slot. -/
def System.Called (b : Board) (o : Nat) : Prop :=
  ∃ c r rest, (b.retiring c).todo = r :: rest ∧ (b.retiring c).called ∧
    r.ref.ingressOrdinal = o

noncomputable def jobPhase (progress : Progress) (called : Prop) (x : Slot) : Phase :=
  match x.state with
  | .rawQueued => .raw
  | .ticketed | .pending => .staged x.ticket
  | .admitted =>
    match progress with
    | .waiting => .admitted x.ticket
    | .sent => .sent x.ticket
    | .completed => .completed x.ticket
  | .lifecycleRetired => open Classical in if called then .retired x.ticket else .owed x.ticket
  | .free | .terminal => .gone

noncomputable def System.phase (b : Board) (o : Nat) : Phase :=
  match b.find o with
  | none => if b.nextOrdinal < o then .fresh else .gone
  | some x => jobPhase b.pc.progress (b.Called o) x

/-! ## Transitions -/

def Label.about : Label → Option Nat
  | .enqueued o _ _ | .prepared o _ _ | .sent o _ _ | .completed o _ _ _ | .retired o _ _
  | .unlinked o _ => some o
  | .staged request _ => some request.ingressOrdinal
  | _ => none

/-- What happens to a submission without a word about it. -/
inductive Leaves : Phase → Phase → Prop
  | raw : Leaves .raw .gone
  | staged (ticket : Ticket) : Leaves (.staged ticket) (.owed ticket)
  | completed (ticket : Ticket) : Leaves (.completed ticket) .gone
  | retired (ticket : Ticket) : Leaves (.retired ticket) .gone

/-- **The life of a submission.** -/
inductive Trans (o : Nat) : Phase → Label → Phase → Prop
  | stay {p : Phase} {l : Label} : l.about ≠ some o → Trans o p l p
  | leave {p p' : Phase} {l : Label} : l.about ≠ some o → Leaves p p' → Trans o p l p'
  | enqueued {sequence : UInt32} {command : Option Nat} :
      Trans o .fresh (.enqueued o sequence command) .raw
  | staged {request : Request} {ticket : Ticket} :
      request.ingressOrdinal = o → Trans o .raw (.staged request ticket) (.staged ticket)
  | prepared {ticket : Ticket} {outcome : Outcome} : (∀ lifecycle, outcome ≠ .admitted lifecycle) →
        Trans o (.staged ticket) (.prepared o ticket outcome) (.staged ticket)
  | admitted {ticket : Ticket} {lifecycle : Bool} :
      Trans o (.staged ticket) (.prepared o ticket (.admitted lifecycle)) (.admitted ticket)
  | sent {ticket : Ticket} {sequence : UInt32} {selection : Selection} :
      Trans o (.admitted ticket) (.sent o sequence selection) (.sent ticket)
  | completed {ticket : Ticket} {delivered completed : Bool} :
      Trans o (.sent ticket) (.completed o ticket delivered completed) (.completed ticket)
  | unlinkedRaw {sequence : UInt32} : Trans o .raw (.unlinked o sequence) .gone
  | unlinked {ticket : Ticket} {sequence : UInt32} :
      Trans o (.staged ticket) (.unlinked o sequence) (.owed ticket)
  | retired {ticket : Ticket} {reason : RetireReason} :
      Trans o (.owed ticket) (.retired o ticket reason) (.retired ticket)

/-! ## Jobs found after an edit -/

section Find

variable {jobs : List Slot} {g : Slot → Slot}

theorem findJob_cons (a : Slot) (rest : List Slot) :
    findJob o (a :: rest) = if a.ingressOrdinal = o then some a else findJob o rest := by
  unfold findJob
  rw [find?_cons]
  by_cases h : a.ingressOrdinal = o
  · rw [if_pos h, decide_eq_true h]
  · rw [if_neg h, decide_eq_false h]

theorem findJob_rewrite (hg : ∀ x ∈ jobs, x.ingressOrdinal = k → (g x).ingressOrdinal = k) :
    findJob o (rewriteJob k g jobs) =
      if o = k then (findJob k jobs).map g else findJob o jobs := by
  induction jobs with
  | nil => split <;> rfl
  | cons a rest ih =>
    have ih := ih fun x hx => hg x (mem_cons_of_mem _ hx)
    have hcons : rewriteJob k g (a :: rest) =
        (if a.ingressOrdinal = k then g a else a) :: rewriteJob k g rest := rfl
    rw [hcons, findJob_cons, findJob_cons, findJob_cons, ih]
    by_cases hak : a.ingressOrdinal = k
    · rw [if_pos hak, hg a mem_cons_self hak, if_pos hak]
      by_cases hok : o = k
      · rw [if_pos hok.symm, if_pos hok]
        rfl
      · rw [if_neg (Ne.symm hok), if_neg hok, if_neg hok, hak, if_neg (Ne.symm hok)]
    · rw [if_neg hak, if_neg hak]
      by_cases hok : o = k
      · rw [if_pos hok, if_pos hok, hok, if_neg hak]
      · rw [if_neg hok, if_neg hok]

theorem findJob_drop : findJob o (dropJob k jobs) = if o = k then none else findJob o jobs := by
  split
  next hok =>
    rw [findJob_eq_none]
    exact fun x hx => hok ▸ (mem_drop.1 hx).2
  next hok =>
    unfold findJob dropJob
    rw [find?_filter]
    refine congrArg (fun p => jobs.find? p) (funext fun x => ?_)
    by_cases hx : x.ingressOrdinal = o
    · simp [hx, hok]
    · simp [hx]

theorem findJob_sweep (hnodup : (jobs.map Slot.ingressOrdinal).Nodup) :
    findJob o (jobs.filterMap (sweptSlot scope)) = (findJob o jobs).bind (sweptSlot scope) := by
  induction jobs with
  | nil => rfl
  | cons a rest ih =>
    rw [map_cons, nodup_cons] at hnodup
    have ih := ih hnodup.2
    rw [findJob_cons]
    by_cases hao : a.ingressOrdinal = o
    · rw [if_pos hao, Option.bind_some]
      have hrest : findJob o rest = none := by
        rw [findJob_eq_none]
        intro y hy hyo
        exact hnodup.1 (mem_map.2 ⟨y, hy, hyo.trans hao.symm⟩)
      rcases hsw : sweptSlot scope a with _ | y
      · rw [filterMap_cons_none hsw, ih, hrest]
        rfl
      · rw [filterMap_cons_some hsw, findJob_cons, if_pos]
        rw [sweptSlot_ordinal hsw]
        exact hao
    · rw [if_neg hao, ← ih]
      rcases hsw : sweptSlot scope a with _ | y
      · rw [filterMap_cons_none hsw]
      rw [filterMap_cons_some hsw, findJob_cons, if_neg]
      rw [sweptSlot_ordinal hsw]
      exact hao

end Find

section FindBoard

variable {next : Nat} {g : Slot → Slot}

theorem find_lanes (hl : b'.lanes = b.lanes) : b'.find o = b.find o := by
  unfold System.find System.all
  rw [hl]

theorem find_rewrite (hl : b'.lanes = fun lane => rewriteJob k g (b.lanes lane))
    (hg : ∀ x ∈ b.all, x.ingressOrdinal = k → (g x).ingressOrdinal = k) :
    b'.find o = if o = k then (b.find k).map g else b.find o := by
  unfold System.find System.all
  rw [hl, allJobs_rewrite]
  exact findJob_rewrite hg

theorem find_drop (hl : b'.lanes = fun lane => dropJob k (b.lanes lane)) :
    b'.find o = if o = k then none else b.find o := by
  unfold System.find System.all
  rw [hl, allJobs_drop]
  exact findJob_drop

theorem find_sweep (hl : b'.lanes = fun lane => (b.lanes lane).filterMap (sweptSlot scope))
    (h : Queued cfg b.lanes next) : b'.find o = (b.find o).bind (sweptSlot scope) := by
  unfold System.find System.all
  rw [hl, allJobs_sweep]
  exact findJob_sweep h.nodup

theorem find_eq_some (h : Queued cfg b.lanes next) :
    b.find o = some x ↔ x ∈ b.all ∧ x.ingressOrdinal = o :=
  findJob_eq_some h.nodup

theorem find_le (h : Queued cfg b.lanes next) (hx : b.find o = some x) : o ≤ next := by
  obtain ⟨hmem, rfl⟩ := findJob_mem hx
  obtain ⟨lane, hlane⟩ := mem_allJobs.1 hmem
  exact (h.job lane x hlane).le

/-- A submission after another was enqueued. -/
theorem find_push {lane : Lane} (hl : b'.lanes = update b.lanes lane (b.lanes lane ++ [x]))
    (h' : Queued cfg b'.lanes next) :
    b'.find o = if o = x.ingressOrdinal then some x else b.find o := by
  have hmem : ∀ y, y ∈ b'.all ↔ y = x ∨ y ∈ b.all := by
    intro y
    unfold System.all
    rw [hl, (allJobs_push lane).mem_iff, mem_cons]
  split
  next ho => exact (find_eq_some h').2 ⟨(hmem x).2 (.inl rfl), ho.symm⟩
  next ho =>
    rcases hfind : b.find o with _ | y
    · refine findJob_eq_none.2 fun y hy hyo => ?_
      rcases (hmem y).1 hy with rfl | hy
      · exact ho hyo.symm
      · exact findJob_eq_none.1 hfind y hy hyo
    · obtain ⟨hy, hyo⟩ := findJob_mem hfind
      exact (find_eq_some h').2 ⟨(hmem y).2 (.inr hy), hyo⟩

end FindBoard

/-! ## Phases read off the board -/

theorem phase_none (h : b.find o = none) :
    b.phase o = if b.nextOrdinal < o then .fresh else .gone := by
  unfold phase
  rw [h]

theorem phase_gone (h : b.find o = none) (hle : o ≤ b.nextOrdinal) : b.phase o = .gone := by
  rw [phase_none h, if_neg (Nat.not_lt.2 hle)]

theorem phase_raw (h : b.find o = some x) (hs : x.state = .rawQueued) : b.phase o = .raw := by
  unfold phase jobPhase
  rw [h]
  dsimp only
  rw [hs]

theorem phase_staged (h : b.find o = some x) (hs : x.state.staged) :
    b.phase o = .staged x.ticket := by
  unfold phase jobPhase
  rw [h]
  dsimp only
  cases hx : x.state <;> rw [hx] at hs <;> first | rfl | cases hs

theorem phase_admitted (h : b.find o = some x) (hs : x.state = .admitted) :
    b.phase o = match b.pc.progress with
      | .waiting => .admitted x.ticket
      | .sent => .sent x.ticket
      | .completed => .completed x.ticket := by
  unfold phase jobPhase
  rw [h]
  dsimp only
  rw [hs]

theorem phase_owed (h : b.find o = some x) (hs : x.state = .lifecycleRetired)
    (hc : ¬b.Called o) : b.phase o = .owed x.ticket := by
  unfold phase jobPhase
  rw [h]
  dsimp only
  rw [hs]
  exact if_neg hc

theorem phase_retired (h : b.find o = some x) (hs : x.state = .lifecycleRetired)
    (hc : b.Called o) : b.phase o = .retired x.ticket := by
  unfold phase jobPhase
  rw [h]
  dsimp only
  rw [hs]
  exact if_pos hc

/-- A submission which a move does not touch. -/
theorem phase_same (hfind : b'.find o = b.find o) (hnext : b'.nextOrdinal < o ↔ b.nextOrdinal < o)
    (hpc : ∀ x, b.find o = some x → x.state = .admitted → b'.pc.progress = b.pc.progress)
    (hcalled : b'.Called o ↔ b.Called o) : b'.phase o = b.phase o := by
  rcases hx : b.find o with _ | x
  · rw [phase_none hx, phase_none (hfind.trans hx)]
    simp only [hnext]
  · unfold phase
    rw [hfind, hx]
    dsimp only
    have hc : b'.Called o = b.Called o := propext hcalled
    rw [hc]
    by_cases hs : x.state = .admitted
    · rw [hpc x hx hs]
    unfold jobPhase
    cases hstate : x.state
    case admitted => exact absurd hstate hs
    all_goals rfl

theorem Inv.find_owed (h : Inv cfg b) {r : Retirement} {rest : List Retirement}
    (htodo : (b.retiring c).todo = r :: rest) : ∃ x, b.find r.ref.ingressOrdinal = some x ∧
      x.ticket = r.ticket ∧ x.state = .lifecycleRetired := by
  obtain ⟨x, hx, hkey, hs⟩ := h.owed.first (c := c) htodo
  exact ⟨x, (find_eq_some h.queued).2 ⟨hx, congrArg Prod.fst hkey⟩, congrArg Prod.snd hkey, hs⟩

/-- A submission whose `Retire` was called is in its slot, retired. -/
theorem Inv.called (h : Inv cfg b) (hc : b.Called o) :
    ∃ x, b.find o = some x ∧ x.state = .lifecycleRetired := by
  obtain ⟨c, r, rest, htodo, -, rfl⟩ := hc
  obtain ⟨x, hx, -, hs⟩ := h.find_owed htodo
  exact ⟨x, hx, hs⟩

theorem Inv.not_called (h : Inv cfg b) (hx : b.find o = some x) (hs : x.state ≠ .lifecycleRetired) :
    ¬b.Called o := by
  intro hc
  obtain ⟨y, hy, hys⟩ := h.called hc
  cases hx.symm.trans hy
  exact hs hys

/-- The admitted job is the one in the token holder's hands. -/
theorem Inv.admitted_eq (h : Inv cfg b) (hx : b.find o = some x) (hs : x.state = .admitted) :
    ∃ a, b.pc.admission? = some a ∧ a.ref.ingressOrdinal = o := by
  obtain ⟨hmem, rfl⟩ := findJob_mem hx
  exact h.hand.admitted x hmem hs

/-- One caller's list is set, and it is not about the submission before nor after. -/
theorem called_update {new : Retiring} (hret : b'.retiring = update b.retiring c new)
    (hold : ∀ r rest, (b.retiring c).todo = r :: rest → (b.retiring c).called →
      r.ref.ingressOrdinal ≠ o)
    (hnew : ∀ r rest, new.todo = r :: rest → new.called → r.ref.ingressOrdinal ≠ o) :
    b'.Called o ↔ b.Called o := by
  unfold System.Called
  rw [hret]
  constructor
  · rintro ⟨c', r, rest, htodo, hcalled, ho⟩
    by_cases hne : c' = c
    · subst hne
      rw [update_self] at htodo hcalled
      exact absurd ho (hnew r rest htodo hcalled)
    · rw [update_of_ne hne] at htodo hcalled
      exact ⟨c', r, rest, htodo, hcalled, ho⟩
  · rintro ⟨c', r, rest, htodo, hcalled, ho⟩
    have hne : c' ≠ c := by
      rintro rfl
      exact hold r rest htodo hcalled ho
    refine ⟨c', r, rest, ?_⟩
    rw [update_of_ne hne]
    exact ⟨htodo, hcalled, ho⟩

/-- A list which was empty is set, and no `Retire` of it called. -/
theorem called_take {new : Retiring} (hret : b'.retiring = update b.retiring c new)
    (hempty : (b.retiring c).todo = []) (hnew : new.called = false) : b'.Called o ↔ b.Called o := by
  refine called_update hret (fun r rest htodo _ => ?_) fun _ _ _ hcalled => ?_
  · cases hempty.symm.trans htodo
  · cases hnew.symm.trans hcalled

/-! ## Every move is a transition -/

theorem about_silent (h : l.silent) : l.about ≠ some o := by
  cases l with
  | quiet | refused => nofun
  | _ => cases h

theorem QuietPc.progress {done : Prop} {pc pc' : Pc} (h : QuietPc done pc pc') :
    pc'.progress = pc.progress := by
  cases h with
  | plain hp hp' =>
    have hwait : ∀ pc : Pc, pc.plain → pc.progress = .waiting := by
      intro pc hp
      cases pc <;> first | rfl | cases hp
    rw [hwait _ hp, hwait _ hp']
  | finish _ hpc =>
    rcases hpc with rfl | ⟨reset, rfl⟩ <;> rfl
  | _ => rfl

theorem SweepBy.progress {b₁ : Board} {reason : RetireReason}
    (h : SweepBy cfg b c scope reason b₁) : b₁.pc.progress = b.pc.progress := by
  cases h with
  | lifecycle hpc | drain hpc =>
    rw [hpc]
    rfl
  | _ => rfl

theorem Trans.of_eq {p p' : Phase} (hp : b.phase o = p) (hp' : b'.phase o = p')
    (h : Trans o p l p') : Trans o (b.phase o) l (b'.phase o) := by
  rw [hp, hp']
  exact h

theorem collects_staged (h : Queued cfg b.lanes b.nextOrdinal)
    (hx : b.find o = some x) (hc : collects scope x) : x.state.staged := by
  obtain ⟨lane, hlane⟩ := mem_allJobs.1 (findJob_mem hx).1
  rcases (h.job lane x hlane).state with hs | hs | hs | hs
  · simp [collects, hs] at hc
  · exact hs
  · simp [collects, hs] at hc
  · simp [collects, hs] at hc

/-- A submission which a move does not touch stays where it is. -/
theorem trans_same (hl : l.about ≠ some o) (hfind : b'.find o = b.find o)
    (hnext : b'.nextOrdinal = b.nextOrdinal) (hpc : b'.pc.progress = b.pc.progress)
    (hcalled : b'.Called o ↔ b.Called o) : Trans o (b.phase o) l (b'.phase o) := by
  rw [phase_same hfind (by rw [hnext]) (fun _ _ _ => hpc) hcalled]
  exact .stay hl

/-- A move which touches no job and no retirement, and leaves the progress. -/
theorem trans_frame (hl : l.about ≠ some o) (hlanes : b'.lanes = b.lanes)
    (hnext : b'.nextOrdinal = b.nextOrdinal) (hpc : b'.pc.progress = b.pc.progress)
    (hret : b'.retiring = b.retiring) : Trans o (b.phase o) l (b'.phase o) :=
  trans_same hl (find_lanes hlanes) hnext hpc (by rw [System.Called, System.Called, hret])

/-- A move which is about one submission, and leaves the others as they are. -/
theorem trans_at (hself : Trans k (b.phase k) l (b'.phase k))
    (hl : l.about = none ∨ l.about = some k) (hfind : ∀ o, o ≠ k → b'.find o = b.find o)
    (hnext : b'.nextOrdinal = b.nextOrdinal)
    (hpc : ∀ o, o ≠ k → ∀ x, b.find o = some x → x.state = .admitted →
      b'.pc.progress = b.pc.progress)
    (hcalled : ∀ o, o ≠ k → (b'.Called o ↔ b.Called o)) : Trans o (b.phase o) l (b'.phase o) := by
  by_cases ho : o = k
  · subst ho
    exact hself
  · rw [phase_same (hfind o ho) (by rw [hnext]) (hpc o ho) (hcalled o ho)]
    refine .stay fun habout => ho ?_
    rcases hl with hl | hl
    · cases habout.symm.trans hl
    · exact Option.mem_unique habout hl

theorem trans_rewrite {g : Slot → Slot}
    (hlanes : b'.lanes = fun lane => rewriteJob k g (b.lanes lane)) (hx : b.find k = some x)
    (hg : ∀ y : Slot, y.ingressOrdinal = k → (g y).ingressOrdinal = k)
    (hnext : b'.nextOrdinal = b.nextOrdinal) (hpc : b'.pc.progress = b.pc.progress)
    (hcalled : ∀ o, b'.Called o ↔ b.Called o) (hl : l.about = none ∨ l.about = some k)
    (hself : b'.find k = some (g x) → Trans k (b.phase k) l (b'.phase k)) :
    Trans o (b.phase o) l (b'.phase o) := by
  have hfind : ∀ o, b'.find o = if o = k then (b.find k).map g else b.find o :=
    fun o => find_rewrite hlanes fun y _ hy => hg y hy
  refine trans_at (hself ?_) hl (fun o ho => (hfind o).trans (if_neg ho)) hnext
    (fun _ _ _ _ _ => hpc) fun o _ => hcalled o
  rw [hfind, if_pos rfl, hx]
  rfl

theorem trans_drop (hlanes : b'.lanes = fun lane => dropJob k (b.lanes lane))
    (hnext : b'.nextOrdinal = b.nextOrdinal)
    (hpc : ∀ o, o ≠ k → ∀ x, b.find o = some x → x.state = .admitted →
      b'.pc.progress = b.pc.progress)
    (hcalled : ∀ o, o ≠ k → (b'.Called o ↔ b.Called o)) (hle : k ≤ b.nextOrdinal)
    (hl : l.about = none ∨ l.about = some k) (hself : Trans k (b.phase k) l .gone) :
    Trans o (b.phase o) l (b'.phase o) := by
  have hfind : ∀ o, b'.find o = if o = k then none else b.find o := fun o => find_drop hlanes
  refine trans_at ?_ hl (fun o ho => (hfind o).trans (if_neg ho)) hnext hpc hcalled
  rw [phase_gone ((hfind k).trans (if_pos rfl)) (by rw [hnext]; exact hle)]
  exact hself

/-- Only the admitted job depends on the progress of the token's holder. -/
theorem Inv.progress_irrelevant (h : Inv cfg b) {a : Admission} (ha : b.pc.admission? = some a)
    (hne : o ≠ a.ref.ingressOrdinal) (hx : b.find o = some x)
    (hs : x.state = .admitted) : False := by
  obtain ⟨a', ha', ho⟩ := h.admitted_eq hx hs
  cases ha.symm.trans ha'
  exact hne ho.symm

theorem trans_sweep (h : Inv cfg b) {b₁ : Board} {reason : RetireReason}
    {todo : List Retirement} (hby : SweepBy cfg b c scope reason b₁) :
    Trans o (b.phase o) .quiet ((b₁.sweptBoard c scope todo reason).phase o) := by
  have hfind : (b₁.sweptBoard c scope todo reason).find o = (b.find o).bind (sweptSlot scope) := by
    exact find_sweep (lanes_congr hby.lanes) h.queued
  have hnext : (b₁.sweptBoard c scope todo reason).nextOrdinal = b.nextOrdinal := hby.nextOrdinal
  have hret : (b₁.sweptBoard c scope todo reason).retiring =
      update b.retiring c { todo := todo, reason := reason } := by
    show update b₁.retiring c _ = _
    rw [hby.retiring]
  have hcalled : (b₁.sweptBoard c scope todo reason).Called o ↔ b.Called o :=
    called_take hret (h.owed.idle c hby.before) rfl
  have hsame : (b.find o).bind (sweptSlot scope) = b.find o →
      Trans o (b.phase o) .quiet ((b₁.sweptBoard c scope todo reason).phase o) := by
    intro heq
    rw [phase_same (hfind.trans heq) (by rw [hnext]) (fun _ _ _ => hby.progress) hcalled]
    exact .stay nofun
  rcases hx : b.find o with _ | x
  · exact hsame (by rw [hx]; rfl)
  rw [hx, Option.bind_some] at hfind
  rcases sweptSlot_cases scope x with ⟨heq, -⟩ | ⟨heq, hraw, -⟩ | ⟨heq, hcollects⟩
  · exact hsame (by rw [hx]; exact heq)
  · rw [heq] at hfind
    rw [phase_raw hx hraw, phase_gone hfind (by rw [hnext]; exact find_le h.queued hx)]
    exact .leave nofun .raw
  · rw [heq] at hfind
    have hstaged : x.state.staged := collects_staged h.queued hx hcollects
    have hnot : ¬(b₁.sweptBoard c scope todo reason).Called o := by
      rw [hcalled]
      exact h.not_called hx (staged_ne hstaged rfl)
    rw [phase_staged hx hstaged, phase_owed hfind rfl hnot]
    exact .leave nofun (.staged _)

theorem trans_retire (h : Inv cfg b) {r : Retirement} {rest : List Retirement} {failed : Bool}
    (htodo : (b.retiring c).todo = r :: rest) (hcalled : (b.retiring c).called = false) :
    Trans o (b.phase o) (.retired r.ref.ingressOrdinal r.ticket (b.retiring c).reason)
      ((b.setRetiring c { b.retiring c with called := true, failed := failed }).phase o) := by
  obtain ⟨x, hfind, hticket, hs⟩ := h.find_owed htodo
  have hbefore : ¬b.Called r.ref.ingressOrdinal := by
    rintro ⟨c', r', rest', htodo', hcalled', ho⟩
    have hc : c' = c := h.owed.once c' c r' r (by rw [htodo']; exact mem_cons_self)
      (by rw [htodo]; exact mem_cons_self) ho
    rw [hc, hcalled] at hcalled'
    cases hcalled'
  have hafter : (b.setRetiring c { b.retiring c with called := true, failed := failed }).Called
      r.ref.ingressOrdinal := by
    refine ⟨c, r, rest, ?_⟩
    show (update b.retiring c _ c).todo = _ ∧ (update b.retiring c _ c).called = _ ∧ _
    rw [update_self]
    exact ⟨htodo, rfl, rfl⟩
  have hhead : ∀ o, o ≠ r.ref.ingressOrdinal → ∀ r' rest', (b.retiring c).todo = r' :: rest' →
      r'.ref.ingressOrdinal ≠ o := by
    intro o ho r' rest' htodo'
    cases htodo.symm.trans htodo'
    exact Ne.symm ho
  refine trans_at (k := r.ref.ingressOrdinal) (.of_eq (phase_owed hfind hs hbefore)
    (phase_retired ((find_lanes rfl).trans hfind) hs hafter) ?_) (.inr rfl)
    (fun o _ => find_lanes rfl) rfl (fun _ _ _ _ _ => rfl) fun o ho =>
      called_update rfl (fun r' rest' hr' _ => hhead o ho r' rest' hr')
        fun r' rest' hr' _ => hhead o ho r' rest' hr'
  rw [hticket]
  exact .retired

theorem trans_release (h : Inv cfg b) {r : Retirement} {rest : List Retirement}
    (htodo : (b.retiring c).todo = r :: rest) (hcalled : (b.retiring c).called) :
    Trans o (b.phase o) .quiet (((b.edit (dropJob r.ref.ingressOrdinal)).setRetiring c
        { b.retiring c with todo := rest, called := false }).phase o) := by
  obtain ⟨x, hfind, -, hs⟩ := h.find_owed htodo
  refine trans_drop rfl rfl (fun _ _ _ _ _ => rfl) (fun o ho => called_update rfl ?_ nofun)
    (find_le h.queued hfind) (.inl rfl) ?_
  · intro r' rest' htodo' _
    cases htodo.symm.trans htodo'
    exact Ne.symm ho
  · rw [phase_retired hfind hs ⟨c, r, rest, htodo, hcalled, rfl⟩]
    exact .leave nofun (.retired _)

/-- **A move of the board is a transition of every submission.** -/
theorem phase_move (hm : Move cfg b l b') (h : Inv cfg b) : Trans o (b.phase o) l (b'.phase o) := by
  have h' : Inv cfg b' := h.move hm
  have hhead : ∀ {lane : Lane} {x : Slot} {k : Nat}, b.IsHead lane x → x.ingressOrdinal = k →
      b.find k = some x :=
    fun hx hk => (find_eq_some h.queued).2 ⟨head_mem_all hx, hk⟩
  cases hm with
  | calm hl hcalm =>
    exact trans_frame (about_silent hl) hcalm.lanes hcalm.nextOrdinal hcalm.pc.progress
      hcalm.retiring
  | @enqueue lane e requireReservation command reader =>
    have hfind : _ = if o = b.nextOrdinal + 1 then _ else b.find o := find_push rfl h'.queued
    by_cases ho : o = b.nextOrdinal + 1
    · rw [if_pos ho] at hfind
      have hold : b.find o = none := by
        rcases hx : b.find o with _ | x
        · rfl
        · have := find_le h.queued hx
          omega
      refine .of_eq ((phase_none hold).trans (if_pos (by omega))) (phase_raw hfind rfl) ?_
      rw [ho]
      exact .enqueued
    · rw [if_neg ho] at hfind
      rw [phase_same hfind ?_ (fun _ _ _ => rfl) Iff.rfl]
      · refine .stay fun habout => ho ?_
        cases habout
        rfl
      · show b.nextOrdinal + 1 < o ↔ b.nextOrdinal < o
        omega
  | @stage round ref x resolved ticket hpc hx hord hraw =>
    have hg : ∀ y : Slot, y.ingressOrdinal = ref.ingressOrdinal →
        (ticketSlot ticket (b.refresh cfg resolved y)).ingressOrdinal = ref.ingressOrdinal :=
      fun y hy => (refresh_ordinal cfg b resolved y).trans hy
    exact trans_rewrite rfl (hhead hx hord) hg rfl (by rw [hpc]; rfl) (fun _ => Iff.rfl)
      (.inr (congrArg some (hg x hord))) fun hfind =>
        .of_eq (phase_raw (hhead hx hord) hraw) (phase_staged hfind rfl) (.staged (hg x hord))
  | @unstage round ref x hpc hx hord hraw =>
    refine trans_drop rfl rfl (fun _ _ _ _ _ => by rw [hpc]; rfl) (fun _ _ => Iff.rfl)
      (find_le h.queued (hhead hx hord)) (.inl rfl) ?_
    rw [phase_raw (hhead hx hord) hraw]
    exact .leave nofun .raw
  | sequence hpc => exact trans_frame nofun rfl rfl (by rw [hpc]; rfl) rfl
  | @refuse round ref sequence x outcome cancelled pc hpc hx hord hstaged hcase =>
    have hpc' : pc.progress = b.pc.progress := by
      rw [hpc]
      rcases hcase with ⟨-, rfl⟩ | ⟨-, rfl⟩ <;> rfl
    have hnot : ∀ lifecycle, outcome ≠ .admitted lifecycle := by
      rcases hcase with ⟨rfl, -⟩ | ⟨rfl, -⟩ <;> nofun
    exact trans_at (.of_eq (phase_staged (hhead hx hord) hstaged)
      (phase_staged ((find_lanes rfl).trans (hhead hx hord)) hstaged) (.prepared hnot))
      (.inr rfl) (fun _ _ => find_lanes rfl) rfl (fun _ _ _ _ _ => hpc') fun _ _ => Iff.rfl
  | @pend round ref sequence x epoch retryAt hpc hx hord hstaged =>
    exact trans_rewrite rfl (hhead hx hord) (fun _ hy => hy) rfl (by rw [hpc]; rfl)
      (fun _ => Iff.rfl) (.inr rfl) fun hfind =>
        .of_eq (phase_staged (hhead hx hord) hstaged) (phase_staged hfind rfl) (.prepared nofun)
  | @admits round ref sequence x selection lifecycle nextService hpc hx hord hstaged =>
    exact trans_rewrite rfl (hhead hx hord) (fun _ hy => hy) rfl (by rw [hpc]; rfl)
      (fun _ => Iff.rfl) (.inr rfl) fun hfind =>
        .of_eq (phase_staged (hhead hx hord) hstaged) (phase_admitted hfind rfl) .admitted
  | @claim ref x hpc hx hstaged =>
    have hempty := h.owed.idle .service (show b.pc.waits = false by rw [hpc]; rfl)
    refine trans_rewrite rfl hx (fun _ hy => hy) rfl (by rw [hpc]; rfl)
      (fun _ => called_take rfl hempty rfl) (.inl rfl) fun hfind =>
        .of_eq (phase_staged hx hstaged) (phase_owed hfind rfl fun hc => ?_)
          (.leave nofun (.staged _))
    exact h.not_called hx (staged_ne hstaged rfl) ((called_take rfl hempty rfl).1 hc)
  | claimNone hpc =>
    have hempty := h.owed.idle .service (show b.pc.waits = false by rw [hpc]; rfl)
    exact trans_same nofun (find_lanes rfl) rfl (by rw [hpc]; rfl) (called_take rfl hempty rfl)
  | @send a _ hpc | @complete a _ _ hpc =>
    obtain ⟨x, hx, hk, hs, hticket, -⟩ := h.hand.admission a (by rw [hpc]; rfl)
    have hfind := (find_eq_some h.queued).2 ⟨hx, hk⟩
    have hphase := phase_admitted hfind hs
    rw [hpc] at hphase
    refine trans_at (.of_eq hphase (phase_admitted ((find_lanes rfl).trans hfind) hs) ?_)
      (.inr rfl) (fun _ _ => find_lanes rfl) rfl (fun o ho y hy hys => ?_) fun _ _ => Iff.rfl
    · first
        | exact .sent
        | exact hticket ▸ .completed
    · exact (h.progress_irrelevant (by rw [hpc]; rfl) ho hy hys).elim
  | @settle _ _ _ _ hpc hx hadm | @rotate _ _ _ _ hpc hx hadm =>
    have hphase := phase_admitted hx hadm
    rw [hpc] at hphase
    refine trans_drop rfl rfl (fun o ho y hy hys => ?_) (fun _ _ => Iff.rfl)
      (find_le h.queued hx) (.inl rfl) ?_
    · exact (h.progress_irrelevant (by rw [hpc]; rfl) ho hy hys).elim
    · rw [hphase]
      exact .leave nofun (.completed _)
  | sweep hby => exact trans_sweep h hby
  | @unlinkRaw b₁ c x hby hx hraw =>
    have hret : update b₁.retiring c { todo := [], reason := .unlink } =
        update b.retiring c { todo := [], reason := .unlink } := by rw [hby.retiring]
    refine trans_drop (lanes_congr hby.lanes) hby.nextOrdinal
      (fun _ _ _ _ _ => by rw [← hby.pc]; rfl)
      (fun _ _ => called_take hret (h.owed.idle c hby.before) rfl) (find_le h.queued hx)
      (.inr rfl) ?_
    rw [phase_raw hx hraw]
    exact .unlinkedRaw
  | @unlinkStaged b₁ c x ref hby hx hstaged =>
    have hret : update b₁.retiring c { todo := [⟨ref, x.ticket⟩], reason := .unlink } =
        update b.retiring c { todo := [⟨ref, x.ticket⟩], reason := .unlink } := by
      rw [hby.retiring]
    have hcalled : ∀ o, ((b₁.edit (rewriteJob x.ingressOrdinal retireSlot)).setRetiring c
        { todo := [⟨ref, x.ticket⟩], reason := .unlink }).Called o ↔ b.Called o :=
      fun o => called_take hret (h.owed.idle c hby.before) rfl
    refine trans_rewrite (lanes_congr hby.lanes) hx (fun _ hy => hy) hby.nextOrdinal
      (by rw [← hby.pc]; rfl) hcalled (.inr rfl) fun hfind =>
        .of_eq (phase_staged hx hstaged) (phase_owed hfind rfl fun hc => ?_) .unlinked
    exact h.not_called hx (staged_ne hstaged rfl) ((hcalled _).1 hc)
  | retire htodo hcalled => exact trans_retire h htodo hcalled
  | release htodo hcalled => exact trans_release h htodo hcalled
  | @route lifecycle published b' l hpc hroute =>
    have hl : l.about ≠ some o := by
      unfold route at hroute
      split at hroute <;> cases hroute <;> nofun
    obtain ⟨_, _, _, rfl⟩ := route_spec hroute
    exact trans_frame hl rfl rfl (by rw [hpc]; rfl) rfl
  | frame | finish | reply => exact trans_frame nofun rfl rfl rfl rfl
  | abandon hl => exact trans_frame (about_silent hl) rfl rfl rfl rfl

/-! ## What a job keeps -/

/-- `y` is the job `x` after a step. -/
structure Kept (x y : Slot) : Prop where
  ordinal : y.ingressOrdinal = x.ingressOrdinal
  sequence : y.sequence = x.sequence
  lane : y.lane = x.lane
  route : y.route = x.route
  generation : x.lane ≠ some .control → y.bindingGeneration = x.bindingGeneration

theorem Kept.refl (x : Slot) : Kept x x := ⟨rfl, rfl, rfl, rfl, fun _ => rfl⟩

section Kept

variable {lane : Lane} {y : Slot}

theorem kept_refresh (b : Board) (resolved : ControlLifecycle) (ticket : Ticket) (x : Slot) :
    Kept x (ticketSlot ticket (b.refresh cfg resolved x)) := by
  unfold Scheduler.refresh ticketSlot
  split
  next hcontrol =>
    rw [Bool.and_eq_true, beq_iff_eq] at hcontrol
    exact ⟨rfl, rfl, rfl, rfl, fun hne => absurd hcontrol.1 hne⟩
  · exact ⟨rfl, rfl, rfl, rfl, fun _ => rfl⟩

/-- The submission which a move enqueues. -/
structure Enqueues (cfg : Config) (b : Board) (l : Label) (b' : Board) (lane : Lane) (x : Slot) :
    Prop where
  made : ∃ e requireReservation command, l = .enqueued (b.nextOrdinal + 1) e.sequence command ∧
    validateEnvelope cfg e ∧ e.lane = some lane ∧
    b.refusal cfg e requireReservation (b.queued e.sequence) = none ∧
    x = slotFor cfg (b.stamp cfg e) (b.nextOrdinal + 1)
  lanes : b'.lanes = update b.lanes lane (b.lanes lane ++ [x])

/-- What a move does to the lanes. -/
inductive Edits (cfg : Config) (b : Board) (l : Label) (b' : Board) : Prop
  | same : b'.lanes = b.lanes → Edits cfg b l b'
  | rewrite {k : Nat} {g : Slot → Slot} :
      b'.lanes = (fun lane => rewriteJob k g (b.lanes lane)) → (∀ x, Kept x (g x)) →
        Edits cfg b l b'
  | drop {k : Nat} : b'.lanes = (fun lane => dropJob k (b.lanes lane)) → Edits cfg b l b'
  | sweep {scope : Scope} :
      b'.lanes = (fun lane => (b.lanes lane).filterMap (sweptSlot scope)) → Edits cfg b l b'
  | push {lane : Lane} {x : Slot} : Enqueues cfg b l b' lane x → Edits cfg b l b'

theorem kept_state (x : Slot) (state : SubmissionState) (epoch : Nat) (retryAt : Option Int) :
    Kept x { x with state := state, pendingReadinessEpoch := epoch, retryAt := retryAt } :=
  ⟨rfl, rfl, rfl, rfl, fun _ => rfl⟩

theorem Move.edits (hm : Move cfg b l b') : Edits cfg b l b' := by
  cases hm with
  | calm _ hcalm => exact .same hcalm.lanes
  | enqueue hvalid hlane hok =>
    exact .push ⟨⟨_, _, _, rfl, hvalid, hlane, hok, rfl⟩, rfl⟩
  | stage => exact .rewrite rfl (kept_refresh b _ _)
  | unstage | settle | rotate | release => exact .drop rfl
  | pend | admits | claim => exact .rewrite rfl fun x => kept_state x _ _ _
  | sweep hby => exact .sweep (lanes_congr hby.lanes)
  | unlinkRaw hby => exact .drop (lanes_congr hby.lanes)
  | unlinkStaged hby => exact .rewrite (lanes_congr hby.lanes) fun x => kept_state x _ _ _
  | route _ hroute =>
    obtain ⟨_, _, _, rfl⟩ := route_spec hroute
    exact .same rfl
  | _ => exact .same rfl

/-- **A job after a move is a job before it, or the one which was enqueued.** -/
theorem Move.origin (hm : Move cfg b l b') (hy : y ∈ b'.lanes lane) :
    (∃ x ∈ b.lanes lane, Kept x y) ∨ Enqueues cfg b l b' lane y := by
  cases hm.edits with
  | same hl =>
    rw [hl] at hy
    exact .inl ⟨y, hy, .refl y⟩
  | rewrite hl hg =>
    rw [hl] at hy
    rcases mem_rewrite.1 hy with ⟨x, hx, -, rfl⟩ | ⟨hy, -⟩
    · exact .inl ⟨x, hx, hg x⟩
    · exact .inl ⟨y, hy, .refl y⟩
  | drop hl =>
    rw [hl] at hy
    exact .inl ⟨y, (mem_drop.1 hy).1, .refl y⟩
  | sweep hl =>
    rw [hl] at hy
    rcases mem_sweep.1 hy with ⟨hy, -⟩ | ⟨x, hx, -, rfl⟩
    · exact .inl ⟨y, hy, .refl y⟩
    · exact .inl ⟨x, hx, kept_state x _ _ _⟩
  | @push lane' x henq =>
    have hy' := hy
    rw [henq.lanes, update_apply] at hy'
    split at hy'
    next hl =>
      subst hl
      rcases mem_append.1 hy' with hold | hnew
      · exact .inl ⟨y, hold, .refl y⟩
      · rw [mem_singleton.1 hnew]
        exact .inr henq
    · exact .inl ⟨y, hy', .refl y⟩

theorem Move.nextOrdinal_le (hm : Move cfg b l b') : b.nextOrdinal ≤ b'.nextOrdinal := by
  cases hm with
  | calm _ hcalm => exact Nat.le_of_eq hcalm.nextOrdinal.symm
  | enqueue => exact Nat.le_succ _
  | sweep hby | unlinkRaw hby | unlinkStaged hby => exact Nat.le_of_eq hby.nextOrdinal.symm
  | route _ hroute =>
    obtain ⟨_, _, _, rfl⟩ := route_spec hroute
    exact Nat.le_refl _
  | _ => exact Nat.le_refl _

end Kept

/-! ## Runs -/

/-- The state a new scheduler reaches. -/
def reached (cfg : Config) (epoch : Nat) (ops : List Op) : SlotSystem :=
  final (System.step cfg) (newSystem cfg epoch) ops

/-- What is said on the way. -/
def labels (cfg : Config) (epoch : Nat) (ops : List Op) : List Label :=
  (trace (System.step cfg) (newSystem cfg epoch) ops).map Event.out

section Runs

/-- **The history rule on the board.** -/
theorem labels_rule {P : List Label → Board → Prop} (h0 : P [] ((newSystem cfg epoch).view cfg))
    (hstep : ∀ ls b l b', Inv cfg b → Move cfg b l b' → P ls b → P (ls ++ [l]) b')
    (ops : List Op) : P (labels cfg epoch ops) ((reached cfg epoch ops).view cfg) := by
  refine (@history_run _ _ _ (step cfg)
    (fun evs s => Rep cfg s ∧ P (evs.map Event.out) (s.view cfg)) _ ⟨rep_initial cfg epoch, h0⟩
    (fun evs s op h => ?_) ops).2
  have hs := step_refines h.1 op
  refine ⟨h.1.steps hs, ?_⟩
  rw [map_append]
  exact hstep _ _ _ _ h.1.inv hs.move h.2

theorem reached_rep (cfg : Config) (epoch : Nat) (ops : List Op) :
    Rep cfg (reached cfg epoch ops) :=
  rep_run cfg epoch ops

variable {ls₂ ls₁ : List Label}

/-- A word said in a run is said by one step of it. -/
theorem labels_split (h : labels cfg epoch ops = ls₁ ++ l :: ls₂) :
    ∃ ops₁ op ops₂, ops = ops₁ ++ op :: ops₂ ∧ ls₁ = labels cfg epoch ops₁ ∧
      l = ((reached cfg epoch ops₁).step cfg op).2 ∧
      ls₂ = (trace (step cfg) ((reached cfg epoch ops₁).step cfg op).1 ops₂).map
        Event.out := by
  obtain ⟨evs₁, rest, htrace, rfl, hrest⟩ := map_eq_append_iff.1 h
  obtain ⟨e, evs₂, rfl, rfl, rfl⟩ := map_eq_cons_iff.1 hrest
  obtain ⟨ops₁, op, ops₂, hops, rfl, rfl, rfl⟩ := trace_eq_append_cons htrace
  exact ⟨ops₁, op, ops₂, hops, rfl, rfl, rfl⟩

theorem labels_move (h : labels cfg epoch ops = ls₁ ++ l :: ls₂) :
    ∃ ops₁ b', ls₁ = labels cfg epoch ops₁ ∧ Move cfg ((reached cfg epoch ops₁).view cfg) l b' := by
  obtain ⟨ops₁, op, ops₂, -, hls, rfl, -⟩ := labels_split h
  exact ⟨ops₁, _, hls, (step_refines (reached_rep cfg epoch ops₁) op).move⟩

/-- **From phases which no transition leaves, what needs another is never said.** -/
theorem never_after {S : Phase → Prop} {bad : Label → Prop}
    (hclosed : ∀ p l p', S p → Trans o p l p' → S p' ∧ ¬bad l)
    (h : labels cfg epoch ops = ls₁ ++ l :: ls₂)
    (hl : ∀ p p', Trans o p l p' → S p') : ∀ l' ∈ ls₂, ¬bad l' := by
  obtain ⟨ops₁, op, ops₂, -, -, rfl, rfl⟩ := labels_split h
  have hrep := reached_rep cfg epoch ops₁
  have hs := step_refines hrep op
  intro l' hl'
  obtain ⟨e, he, rfl⟩ := mem_map.1 hl'
  refine @invariant_trace _ _ _ (step cfg)
    (fun s => Rep cfg s ∧ S ((s.view cfg).phase o)) (fun e => ¬bad e.out)
    (fun s op' h => ?_) (fun s op' h => ?_) _
    ⟨hrep.steps hs, hl _ _ (phase_move hs.move hrep.inv)⟩ ops₂ e he
  · have hs' := step_refines h.1 op'
    exact ⟨h.1.steps hs', (hclosed _ _ _ h.2 (phase_move hs'.move h.1.inv)).1⟩
  · have hs' := step_refines h.1 op'
    exact (hclosed _ _ _ h.2 (phase_move hs'.move h.1.inv)).2

end Runs

/-! ## The books -/

namespace Label

variable (o : Nat)

def enqueues : Label → Bool
  | .enqueued k _ _ => k == o
  | _ => false

def stages : Label → Bool
  | .staged request _ => request.ingressOrdinal == o
  | _ => false

def prepares : Label → Bool
  | .prepared k _ _ => k == o
  | _ => false

/-- `Prepare` returned a terminal result, which was validated and admitted. -/
def preparesTerminal : Label → Bool
  | .prepared k _ (.admitted _) => k == o
  | _ => false

def sends : Label → Bool
  | .sent k _ _ => k == o
  | _ => false

def completes : Label → Bool
  | .completed k _ _ _ => k == o
  | _ => false

def retires : Label → Bool
  | .retired k _ _ => k == o
  | _ => false

/-- The owner's last call about a ticket. -/
def terminates (l : Label) : Bool := l.completes o || l.retires o

end Label

/-- The submission was withdrawn, or is done with. -/
def Phase.withdrawn : Phase → Bool
  | .owed _ | .retired _ | .gone => true
  | _ => false

/-- It stays so, and is neither prepared nor answered. -/
theorem Trans.withdrawn {p p' : Phase} (h : Trans o p l p') (hp : p.withdrawn) :
    p'.withdrawn ∧ ¬l.sends o ∧ ¬l.prepares o := by
  have hsends : l.about ≠ some o → ¬l.sends o := by
    intro hne hl
    cases l with
    | sent k sequence selection => exact hne (congrArg some (beq_iff_eq.1 hl))
    | _ => cases hl
  have hprepares : l.about ≠ some o → ¬l.prepares o := by
    intro hne hl
    cases l with
    | prepared k ticket outcome => exact hne (congrArg some (beq_iff_eq.1 hl))
    | _ => cases hl
  cases h with
  | stay hne => exact ⟨hp, hsends hne, hprepares hne⟩
  | leave hne hleave =>
    refine ⟨?_, hsends hne, hprepares hne⟩
    cases hleave <;> rfl
  | retired => exact ⟨rfl, nofun, nofun⟩
  | _ => cases hp

/-- What was said about a submission. -/
structure Tally where
  (enqueued staged admitted sent completed retired : Nat)

def tally (o : Nat) (ls : List Label) : Tally where
  enqueued := ls.countP (Label.enqueues o)
  staged := ls.countP (Label.stages o)
  admitted := ls.countP (Label.preparesTerminal o)
  sent := ls.countP (Label.sends o)
  completed := ls.countP (Label.completes o)
  retired := ls.countP (Label.retires o)

/-- What must have been said by this phase. -/
def Phase.Fits : Phase → Tally → Prop
  | .fresh, n => n = ⟨0, 0, 0, 0, 0, 0⟩
  | .raw, n => n = ⟨1, 0, 0, 0, 0, 0⟩
  | .staged _, n | .owed _, n => n = ⟨1, 1, 0, 0, 0, 0⟩
  | .admitted _, n => n = ⟨1, 1, 1, 0, 0, 0⟩
  | .sent _, n => n = ⟨1, 1, 1, 1, 0, 0⟩
  | .completed _, n => n = ⟨1, 1, 1, 1, 1, 0⟩
  | .retired _, n => n = ⟨1, 1, 0, 0, 0, 1⟩
  | .gone, n => n = ⟨0, 0, 0, 0, 0, 0⟩ ∨ n = ⟨1, 0, 0, 0, 0, 0⟩ ∨ n = ⟨1, 1, 1, 1, 1, 0⟩ ∨
      n = ⟨1, 1, 0, 0, 0, 1⟩

def Tally.note (o : Nat) (l : Label) (n : Tally) : Tally where
  enqueued := n.enqueued + (l.enqueues o).toNat
  staged := n.staged + (l.stages o).toNat
  admitted := n.admitted + (l.preparesTerminal o).toNat
  sent := n.sent + (l.sends o).toNat
  completed := n.completed + (l.completes o).toNat
  retired := n.retired + (l.retires o).toNat

theorem countP_snoc (p : Label → Bool) (ls : List Label) (l : Label) :
    (ls ++ [l]).countP p = ls.countP p + (p l).toNat := by
  rw [countP_append, countP_singleton]
  cases p l <;> rfl

theorem tally_snoc (o : Nat) (ls : List Label) (l : Label) :
    tally o (ls ++ [l]) = (tally o ls).note o l := by
  unfold tally Tally.note
  simp only [countP_snoc]

/-- A word about another submission is not counted. -/
theorem Tally.note_other (h : l.about ≠ some o) (n : Tally) : n.note o l = n := by
  have hne : ∀ k, l.about = some k → (k == o) = false := by
    intro k hk
    rw [beq_eq_false_iff_ne]
    rintro rfl
    exact h hk
  unfold Tally.note enqueues stages preparesTerminal sends completes retires
  cases l with
  | prepared k ticket outcome => cases outcome <;> simp [hne k rfl]
  | staged request ticket => simp [hne _ rfl]
  | enqueued k | sent k | completed k | retired k => simp [hne k rfl]
  | _ => rfl

theorem Phase.Fits.next {p p' : Phase} {n : Tally}
    (h : p.Fits n) (ht : Trans o p l p') : p'.Fits (n.note o l) := by
  cases ht with
  | stay hl =>
    rw [Tally.note_other hl]
    exact h
  | leave hl hleave =>
    rw [Tally.note_other hl]
    cases hleave with
    | raw => exact .inr (.inl h)
    | staged => exact h
    | completed => exact .inr (.inr (.inl h))
    | retired => exact .inr (.inr (.inr h))
  | staged hrequest =>
    cases h
    simp [Phase.Fits, Tally.note, enqueues, stages, preparesTerminal,
      sends, completes, retires, hrequest]
  | @prepared ticket outcome hnot =>
    cases h
    cases outcome with
    | admitted lifecycle => exact absurd rfl (hnot lifecycle)
    | _ => rfl
  | _ =>
    cases h
    simp [Phase.Fits, Tally.note, enqueues, stages, preparesTerminal, sends, completes, retires]

/-- **What was said about a submission is what its phase tells.** -/
theorem book_run (cfg : Config) (epoch : Nat) (ops : List Op) (o : Nat) :
    (((reached cfg epoch ops).view cfg).phase o).Fits (tally o (labels cfg epoch ops)) := by
  refine labels_rule (P := fun ls b => (b.phase o).Fits (tally o ls)) ?_ ?_ ops
  · rw [phase_none rfl]
    split
    · rfl
    · exact .inl rfl
  · intro ls b l b' hinv hm h
    rw [tally_snoc]
    exact h.next (phase_move hm hinv)

/-! ## A small scheduler -/

def smallLimits : Limits where
  queueDepth := fun _ => 2
  bufferedRequestBytes := 64
  maximumControlOut := 8
  maximumControlResponse := 8
  maximumInterruptIn := 8
  maximumInterruptOut := 8
  interruptInRoute := ⟨0, 0, 0x81⟩
  interruptOutRoute := ⟨0, 0, 0x01⟩

/-- A scheduler of its own, without an import. -/
def smallConfig : Config where
  limits := smallLimits
  limits_valid := by decide
  ownerIdentity := 1
  ownerIdentity_ne := by decide
  session := 1
  session_ne := by decide
  controlLifecycle_ne := by decide

/-- A control submission. -/
def controlIn (sequence : UInt32) : Envelope where
  lane := some .control
  direction := some .dirIn
  sequence := sequence
  transferLength := 4
  setup := #v[0x80, 6, 0, 1, 0, 0, 4, 0]
  bindingGeneration := 1

def smallTicket (token : Nat) : Ticket := ⟨1, token, 1, 1, some .control⟩

/-- The steps of a round up to the staging of its first submission. -/
def stageRound (token : Nat) : List Op :=
  [.startRound 0, .service {}, .service { readiness := { first := some (0, true) } },
    .service { ticket := some (smallTicket token) }]

end Viiper.Ports.Retained
