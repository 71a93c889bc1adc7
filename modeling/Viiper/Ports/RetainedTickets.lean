import Viiper.Ports.RetainedPhases

/-!
# Tickets are linear

The owner's `Stage` gives a ticket for a submission, and the scheduler must give it back
exactly once: by `Complete`, if its preparation was admitted, or else by `Retire`.  Who does
so changes hands under the scheduler's lock; the calls are made without it.  Here the
tickets of a whole history are counted, submission by submission.

A shutdown takes every ticket which is still in the queues.  It does not wait for those
which another call has taken before: this call retires them, or the round which holds the
service token completes them, possibly after the shutdown has returned.
-/

namespace Viiper.Ports.Retained

open Verified Scheduler List Label

variable {cfg : Config} {b b' : Board} {o : Nat} {l : Label}

/-! ## Acceptance -/

def Phase.ticket? : Phase → Option Ticket
  | .staged t | .admitted t | .sent t | .completed t | .owed t | .retired t => some t
  | _ => none

/-- The ticket which a label passes back to the owner, for the submission. -/
def Label.passes (o : Nat) : Label → Option Ticket
  | .prepared k t _ | .completed k t _ _ | .retired k t _ => if k = o then some t else none
  | _ => none

section Acceptance

variable {p p' : Phase} {t : Ticket}

theorem phase_ticket (h : (b.phase o).ticket? = some t) :
    ∃ x, b.find o = some x ∧ x.ticket = t ∧ x.state ≠ .rawQueued := by
  unfold System.phase at h
  split at h
  · split at h <;> cases h
  next x hx =>
    refine ⟨x, hx, ?_⟩
    unfold jobPhase at h
    split at h
    · cases h
    next hs =>
      cases h
      exact ⟨rfl, by rw [hs]; nofun⟩
    next hs =>
      cases h
      exact ⟨rfl, by rw [hs]; nofun⟩
    next hs =>
      split at h
      all_goals cases h
      all_goals exact ⟨rfl, by rw [hs]; nofun⟩
    next hs =>
      split at h
      all_goals cases h
      all_goals exact ⟨rfl, by rw [hs]; nofun⟩
    · cases h
    · cases h

theorem Trans.passes (h : Trans o p l p') (hl : l.passes o = some t) : p.ticket? = some t := by
  have hother : l.about ≠ some o → False := by
    intro hne
    cases l with
    | prepared | completed | retired =>
      simp only [passes, Option.ite_none_right_eq_some] at hl
      exact hne (congrArg some hl.1)
    | _ => cases hl
  cases h with
  | stay hne | leave hne => exact (hother hne).elim
  | prepared | admitted | completed | retired =>
    simp only [passes, if_pos] at hl
    exact hl
  | _ => cases hl

/-- A ticket comes by acceptance only. -/
theorem Trans.ticket_from (h : Trans o p l p') (hp : p'.ticket? = some t) :
    p.ticket? = some t ∨ ∃ request, request.ingressOrdinal = o ∧ l = .staged request t := by
  cases h with
  | staged hrequest =>
    cases hp
    exact .inr ⟨_, hrequest, rfl⟩
  | leave _ hleave =>
    cases hleave with
    | staged => exact .inl hp
    | _ => cases hp
  | enqueued | unlinkedRaw => cases hp
  | _ => exact .inl hp

/-- It stays with the submission to its end. -/
theorem Trans.ticket_kept (h : Trans o p l p') (hp : p.ticket? = some t ∨ p = .gone) :
    p'.ticket? = some t ∨ p' = .gone := by
  cases h with
  | stay => exact hp
  | leave _ hleave =>
    cases hleave with
    | staged => exact hp.imp_right nofun
    | _ => exact .inr rfl
  | enqueued | staged => exact (hp.elim nofun nofun)
  | unlinkedRaw => exact .inr rfl
  | _ => exact hp.imp_right nofun

theorem Trans.accepts {request : Request} (h : Trans o p (.staged request t) p')
    (ho : request.ingressOrdinal = o) : p = .raw ∧ p' = .staged t := by
  cases h with
  | stay hne | leave hne => exact absurd (congrArg some ho) hne
  | staged => exact ⟨rfl, rfl⟩

/-- The phase of a submission remembers the ticket which was accepted for it. -/
structure Remembers (o : Nat) (ls : List Label) (p : Phase) : Prop where
  accepted : ∀ t, p.ticket? = some t → ∃ request, request.ingressOrdinal = o ∧
    Label.staged request t ∈ ls
  kept : ∀ request t, Label.staged request t ∈ ls → request.ingressOrdinal = o →
    p.ticket? = some t ∨ p = .gone

theorem Remembers.next {ls : List Label} (h : Remembers o ls p) (ht : Trans o p l p') :
    Remembers o (ls ++ [l]) p' where
  accepted := by
    intro t hp
    rcases ht.ticket_from hp with hold | ⟨request, ho, rfl⟩
    · obtain ⟨request, ho, hmem⟩ := h.accepted t hold
      exact ⟨request, ho, mem_append_left _ hmem⟩
    · exact ⟨request, ho, mem_append_right _ mem_cons_self⟩
  kept := by
    intro request t hmem ho
    rcases mem_append.1 hmem with hmem | hmem
    · exact ht.ticket_kept (h.kept request t hmem ho)
    rw [← mem_singleton.1 hmem] at ht
    rw [(ht.accepts ho).2]
    exact .inl rfl

theorem remembers_run (cfg : Config) (epoch : Nat) (ops : List Op) (o : Nat) :
    Remembers o (labels cfg epoch ops) (((reached cfg epoch ops).view cfg).phase o) := by
  refine labels_rule (P := fun ls b => Remembers o ls (b.phase o)) ⟨fun t ht => ?_, nofun⟩
    (fun ls b l b' hinv hm h => h.next (phase_move hm hinv)) ops
  obtain ⟨x, hx, -⟩ := phase_ticket ht
  cases hx

end Acceptance

/-! ## Shutdown -/

variable {c : Caller}

/-- What is left of the queues is in somebody's hands. -/
def System.Taken (b : Board) : Prop :=
  ∀ x ∈ b.all, x.state = .admitted ∨ x.state = .lifecycleRetired

/-- A shutdown in progress, or done. -/
structure Closing (b : Board) : Prop where
  closed : ∀ n, (∃ reason, b.calls n = .cancelling reason) ∨
    (∃ reason, b.calls n = .sweeping reason) →
    b.closed
  taken : b.shutDown ∨ (∃ n, b.calls n = .retiring .shutdown) → b.closed ∧ b.Taken

/-- The calls go on, but none of them to a shutdown. -/
def SameShutdowns (calls calls' : Nat → CallPc) : Prop :=
  ∀ n, calls' n = calls n ∨ calls' n = .idle ∨ ∃ kind, kind ≠ .shutdown ∧ calls' n = .retiring kind

theorem sameShutdowns_update {calls : Nat → CallPc} {n : Nat} {pc : CallPc}
    (h : pc = .idle ∨ ∃ kind, kind ≠ .shutdown ∧ pc = .retiring kind) :
    SameShutdowns calls (Function.update calls n pc) := by
  intro m
  rw [Function.update_apply]
  split
  · exact .inr h
  · exact .inl rfl

theorem Closing.frame (h : Closing b) (hclosed : b'.closed = b.closed)
    (hcalls : SameShutdowns b.calls b'.calls) (hshut : b'.shutDown = b.shutDown)
    (htaken : b.closed → b.Taken → b'.Taken) : Closing b' where
  closed := by
    intro n hn
    rw [hclosed]
    refine h.closed n ?_
    rcases hcalls n with heq | heq | ⟨kind, -, heq⟩ <;> rw [heq] at hn
    · exact hn
    · exact (hn.elim nofun nofun)
    · exact (hn.elim nofun nofun)
  taken := by
    intro hdone
    rw [hclosed]
    have hold : b.closed ∧ b.Taken := by
      refine h.taken ?_
      rw [hshut] at hdone
      refine hdone.imp_right fun ⟨n, hn⟩ => ⟨n, ?_⟩
      rcases hcalls n with heq | heq | ⟨kind, hkind, heq⟩ <;> rw [heq] at hn
      · exact hn
      · cases hn
      · cases hn
        exact absurd rfl hkind
    exact ⟨hold.1, htaken hold.1 hold.2⟩

/-- A job which is neither admitted nor retired. -/
theorem System.Taken.absurd_of (h : b.Taken) {x : Slot} (hx : x ∈ b.all)
    (hs : x.state = .rawQueued ∨ x.state.staged) : False := by
  rcases h x hx with hx' | hx'
  all_goals
    rw [hx'] at hs
    rcases hs with hs | hs <;> cases hs

theorem System.Taken.drop {k : Nat} (h : b.Taken) : (b.edit (dropJob k)).Taken := by
  intro x hx
  unfold System.all System.edit at hx
  rw [allJobs_drop] at hx
  exact h x (mem_drop.1 hx).1

theorem System.Taken.sweep {scope : Scope} (h : b.Taken) :
    (b.edit (filterMap (sweptSlot scope))).Taken := by
  intro x hx
  unfold System.all System.edit at hx
  rw [allJobs_sweep] at hx
  rcases mem_sweep.1 hx with ⟨hx, -⟩ | ⟨y, -, -, rfl⟩
  · exact h x hx
  · exact .inr rfl

theorem taken_sweep_session (h : Queued cfg b.lanes b.nextOrdinal) :
    (b.edit (filterMap (sweptSlot (.session cfg.session)))).Taken := by
  intro x hx
  unfold System.all System.edit at hx
  rw [allJobs_sweep] at hx
  rcases mem_sweep.1 hx with ⟨hx, hkept, hnot⟩ | ⟨y, -, -, rfl⟩
  · obtain ⟨lane, hlane⟩ := mem_allJobs.1 hx
    have hjob := h.job lane x hlane
    have hcovers : (Scope.session cfg.session).covers x := beq_iff_eq.2 hjob.session
    rcases hjob.state with hs | hs | hs | hs
    · simp [sweptSlot, hcovers, hs] at hkept
    · have hcollects : collects (.session cfg.session) x := by
        unfold collects
        rw [hcovers]
        cases hx' : x.state <;> rw [hx'] at hs <;> first | rfl | cases hs
      cases hcollects.symm.trans hnot
    · exact .inl hs
    · exact .inr hs
  · exact .inr rfl

theorem Closing.sweep {b₁ : Board} {scope : Scope} {reason : RetireReason} {todo : List Retirement}
    (h : Closing b) (hq : Queued cfg b.lanes b.nextOrdinal)
    (hby : SweepBy cfg b c scope reason b₁) : Closing (b₁.sweptBoard c scope todo reason) := by
  cases hby with
  | call hidle =>
    exact h.frame rfl (sameShutdowns_update (.inr ⟨.retire, nofun, rfl⟩)) rfl
      fun _ htaken => htaken.sweep
  | @shutdown n reason hcall =>
    have hclosed : b.closed := h.closed n (.inr ⟨reason, hcall⟩)
    refine ⟨fun _ _ => hclosed, fun _ => ⟨hclosed, taken_sweep_session hq⟩⟩
  | _ =>
    exact h.frame rfl (fun _ => .inl rfl) rfl fun _ htaken => htaken.sweep

theorem Closing.unlink {b₁ : Board} {owes : Bool} (h : Closing b) (hby : UnlinkBy b c owes b₁)
    (hclosed : b'.closed = b₁.closed) (hcalls : b'.calls = b₁.calls)
    (hshut : b'.shutDown = b₁.shutDown) (htaken : b.closed → b.Taken → b'.Taken) : Closing b' := by
  cases hby with
  | reader => exact h.frame hclosed (fun n => .inl (by rw [hcalls])) hshut htaken
  | @call n owes pc _ hpc =>
    refine h.frame hclosed ?_ hshut htaken
    rw [hcalls]
    refine sameShutdowns_update ?_
    cases owes with
    | false => exact .inl hpc
    | true => exact .inr ⟨.unlink, nofun, hpc⟩

theorem QuietCall.shutting {closed done : Prop} {pc pc' : CallPc} (h : QuietCall closed done pc pc')
    (hpc : (∃ reason, pc' = .cancelling reason) ∨ (∃ reason, pc' = .sweeping reason)) :
    closed ∨ (∃ reason, pc = .cancelling reason) ∨ (∃ reason, pc = .sweeping reason) := by
  cases h with
  | keep => exact .inr hpc
  | start _ hclosed => exact .inl hclosed
  | cancelled reason => exact .inr (.inl ⟨reason, rfl⟩)
  | finish => exact (hpc.elim nofun nofun)

theorem QuietCall.retiring {closed done : Prop} {pc : CallPc} {kind : CallKind}
    (h : QuietCall closed done pc (.retiring kind)) : pc = .retiring kind := by
  cases h with
  | keep => rfl

theorem Closing.calm (h : Closing b) (hcalm : Calm b b') : Closing b' := by
  refine ⟨fun n hn => ?_, fun hdone => ?_⟩
  · rcases (hcalm.calls n).shutting hn with hclosed | hold
    · exact hclosed
    · exact hcalm.closed (h.closed n hold)
  · have hold : b.shutDown ∨ ∃ n, b.calls n = .retiring .shutdown := by
      rcases hdone with hdone | ⟨n, hn⟩
      · exact hcalm.shutDown hdone
      · have hquiet := hcalm.calls n
        rw [hn] at hquiet
        exact .inr ⟨n, hquiet.retiring⟩
    obtain ⟨hclosed, htaken⟩ := h.taken hold
    refine ⟨hcalm.closed hclosed, fun x hx => htaken x ?_⟩
    unfold System.all at hx ⊢
    rw [hcalm.lanes] at hx
    exact hx

theorem Closing.move (hm : Move cfg b l b') (hinv : Inv cfg b) (h : Closing b) : Closing b' := by
  have hsame : SameShutdowns b.calls b.calls := fun _ => .inl rfl
  cases hm with
  | calm _ hcalm => exact h.calm hcalm
  | enqueue _ _ hok =>
    refine h.frame rfl hsame rfl fun hclosed _ => ?_
    rw [(b.refusal_eq_none cfg hok).running] at hclosed
    cases hclosed
  | stage _ hx _ hraw =>
    exact h.frame rfl hsame rfl fun _ ht => (ht.absurd_of (head_mem_all hx) (.inl hraw)).elim
  | unstage | settle | rotate | release => exact h.frame rfl hsame rfl fun _ ht => ht.drop
  | pend _ hx _ hs | admits _ hx _ hs =>
    exact h.frame rfl hsame rfl fun _ ht => (ht.absurd_of (head_mem_all hx) (.inr hs)).elim
  | claim _ hx hs =>
    exact h.frame rfl hsame rfl fun _ ht =>
      (ht.absurd_of (findJob_mem hx).1 (.inr hs)).elim
  | sweep hby => exact h.sweep hinv.queued hby
  | unlinkRaw hby hx hraw =>
    exact h.unlink hby rfl rfl rfl fun _ ht =>
      (ht.absurd_of (findJob_mem hx).1 (.inl hraw)).elim
  | unlinkStaged hby hx hs =>
    exact h.unlink hby rfl rfl rfl fun _ ht =>
      (ht.absurd_of (findJob_mem hx).1 (.inr hs)).elim
  | route _ hroute =>
    obtain ⟨_, _, _, rfl⟩ := route_spec hroute
    exact h.frame rfl hsame rfl fun _ ht => ht
  | _ => exact h.frame rfl hsame rfl fun _ ht => ht

/-- **Once a shutdown has returned, what is left is in somebody's hands.** -/
theorem closing_run (cfg : Config) (epoch : Nat) (ops : List Op) :
    Closing ((reached cfg epoch ops).view cfg) := by
  refine labels_rule (P := fun _ b => Closing b) ⟨fun _ hn => (hn.elim nofun nofun), fun hd => ?_⟩
    (fun _ _ _ _ hinv hm h => h.move hm hinv) ops
  rcases hd with hd | ⟨_, hn⟩
  · cases hd
  · cases hn

/-! ## Linearity -/

/-- The caller holds the submission's ticket: it is to retire it, or to complete it. -/
def System.InCharge {Q : Type} (s : System Q) (o : Nat) (c : Caller) : Prop :=
  (∃ r ∈ (s.retiring c).todo, r.ref.ingressOrdinal = o) ∨
    (c = .service ∧ ∃ a, s.pc.admission? = some a ∧ a.ref.ingressOrdinal = o)

/-- A call is in progress: a round or drain which holds the service token, an unlink of the
reader, or another call. -/
def System.busy {Q : Type} (s : System Q) : Caller → Bool
  | .service =>
    match s.pc with
    | .idle => false
    | _ => true
  | .reader => s.reader.waits
  | .other n => s.calls n != .idle

/-- **What the owner sees of one ticket**: the one accepted for the submission `o`, in a
history which has led to `s`. -/
structure Linear (ls : List Label) (s : SlotSystem) (o : Nat) : Prop where
  /-- One ticket is accepted for a submission. -/
  accepted : ls.countP (Label.stages o) ≤ 1
  /-- It is ended by one call in total, `Complete` or `Retire`. -/
  once : ls.countP (Label.completes o) + ls.countP (Label.retires o) ≤ ls.countP (Label.stages o)
  /-- The owner gets back the ticket it gave. -/
  own : ∀ ls₁ l ls₂, ls = ls₁ ++ l :: ls₂ → ∀ t, l.passes o = some t →
    ∃ request, request.ingressOrdinal = o ∧ Label.staged request t ∈ ls₁
  /-- `Complete` is called for an admitted ticket only. -/
  completed : ls.countP (Label.completes o) ≤ ls.countP (Label.preparesTerminal o)
  /-- An admitted ticket is never retired; it is completed, or the holder of the service token
  is about to. -/
  admitted : 0 < ls.countP (Label.preparesTerminal o) → ls.countP (Label.retires o) = 0 ∧
    (ls.countP (Label.completes o) = 1 ∨ ∃ a, s.pc.admission? = some a ∧ a.ref.ingressOrdinal = o)
  /-- After its last call, nothing is prepared for it. -/
  silent : ∀ ls₁ l ls₂, ls = ls₁ ++ l :: ls₂ → l.terminates o →
    ∀ l' ∈ ls₂, ¬l'.prepares o
  /-- The same capability is accepted again only after its last call. -/
  reused : ∀ ls₁ request t ls₂, ls = ls₁ ++ .staged request t :: ls₂ →
    ∀ request' t', Label.staged request' t' ∈ ls₁ → request'.ingressOrdinal = o →
      sameCapability t' t → 0 < ls₁.countP (Label.terminates o)
  /-- Once a shutdown has returned, a ticket without its last call is held by exactly one
  caller, whose call is in progress. -/
  closed : s.shutDown → ls.countP (Label.terminates o) < ls.countP (Label.stages o) →
    ∃ c, s.InCharge o c ∧ s.busy c ∧ ∀ c', s.InCharge o c' → c' = c

section Linearity

variable {p p' : Phase} {n : Tally}

theorem countP_terminates (o : Nat) (ls : List Label) : ls.countP (terminates o) =
      ls.countP (completes o) + ls.countP (retires o) := by
  induction ls with
  | nil => rfl
  | cons l ls ih =>
    rw [countP_cons, countP_cons, countP_cons, ih]
    have hl : (if l.terminates o = true then 1 else 0) =
        (if l.completes o = true then 1 else 0) + (if l.retires o = true then 1 else 0) := by
      unfold terminates
      cases l with
      | completed | retired => simp [completes, retires]
      | _ => rfl
    omega

/-- What the books say in every phase. -/
theorem Phase.Fits.bounds (h : p.Fits n) :
    n.staged ≤ 1 ∧ n.completed + n.retired ≤ n.staged ∧ n.completed ≤ n.admitted ∧
      (0 < n.admitted → n.retired = 0) := by
  cases p with
  | gone => rcases h with rfl | rfl | rfl | rfl <;> decide
  | _ =>
    cases h
    decide

/-- The ticket's last call has been made, or it never had one. -/
def Phase.over : Phase → Bool
  | .completed _ | .retired _ | .gone => true
  | _ => false

theorem Trans.over (h : Trans o p l p') (hp : p.over) : p'.over ∧ ¬l.prepares o := by
  have hother : l.about ≠ some o → ¬l.prepares o := by
    intro hne hprep
    cases l with
    | prepared k t outcome => exact hne (congrArg some (beq_iff_eq.1 hprep))
    | _ => cases hprep
  cases h with
  | stay hne => exact ⟨hp, hother hne⟩
  | leave hne hleave =>
    refine ⟨?_, hother hne⟩
    cases hleave with
    | staged => cases hp
    | _ => rfl
  | _ => cases hp

theorem Trans.terminated (h : Trans o p l p') (hl : l.terminates o) : p'.over := by
  have hother : l.about ≠ some o → False := by
    intro hne
    unfold terminates at hl
    cases l with
    | completed k t d c =>
      simp only [completes, retires, Bool.or_false] at hl
      exact hne (congrArg some (beq_iff_eq.1 hl))
    | retired k t r =>
      exact hne (congrArg some (beq_iff_eq.1 hl))
    | _ => cases hl
  cases h with
  | stay hne | leave hne => exact (hother hne).elim
  | completed | retired => rfl
  | _ => cases hl

theorem Inv.inCharge_unique (h : Inv cfg b) {c' : Caller} (hc : b.InCharge o c)
    (hc' : b.InCharge o c') : c' = c := by
  have hmixed : ∀ {c : Caller} {r : Retirement} {a : Admission}, r ∈ (b.retiring c).todo →
      r.ref.ingressOrdinal = o → b.pc.admission? = some a → a.ref.ingressOrdinal = o → False := by
    intro c r a hr hro ha hao
    obtain ⟨x, hx, hxa, hs, -⟩ := h.hand.admission a ha
    obtain ⟨y, hy, hkey, hys⟩ := (h.owed.owed r.key).2 ⟨c, mem_map_of_mem hr⟩
    have hk : y.ingressOrdinal = r.ref.ingressOrdinal := congrArg Prod.fst hkey
    have heq := h.queued.unique hy hx (by rw [hk, hro, hxa, hao])
    rw [heq, hs] at hys
    cases hys
  rcases hc with ⟨r, hr, hro⟩ | ⟨rfl, a, ha, hao⟩
  · rcases hc' with ⟨r', hr', hro'⟩ | ⟨rfl, a, ha, hao⟩
    · exact h.owed.once c' c r' r hr' hr (hro'.trans hro.symm)
    · exact (hmixed hr hro ha hao).elim
  · rcases hc' with ⟨r', hr', hro'⟩ | ⟨rfl, -⟩
    · exact (hmixed hr' hro' ha hao).elim
    · rfl

theorem Inv.inCharge_busy (h : Inv cfg b) (hc : b.InCharge o c) : b.busy c := by
  rcases hc with ⟨r, hr, -⟩ | ⟨rfl, a, ha, -⟩
  · have hwaits : b.waits c := by
      by_contra hw
      rw [h.owed.idle c (Bool.eq_false_iff.2 hw)] at hr
      cases hr
    cases c with
    | service =>
      show (match b.pc with | .idle => false | _ => true) = true
      have hpc : b.pc.waits = true := hwaits
      cases hb : b.pc with
      | idle =>
        rw [hb] at hpc
        cases hpc
      | _ => rfl
    | reader => exact hwaits
    | other n =>
      show (b.calls n != .idle)
      have hcall : (b.calls n).waits := hwaits
      cases hb : b.calls n with
      | retiring kind => rfl
      | _ =>
        rw [hb] at hcall
        cases hcall
  · show (match b.pc with | .idle => false | _ => true) = true
    cases hb : b.pc with
    | idle =>
      rw [hb] at ha
      cases ha
    | _ => rfl

/-- The books of a submission which is not on the board. -/
theorem Phase.Fits.absent (hx : b.find o = none) (h : (b.phase o).Fits n) :
    n.completed = n.admitted ∧ n.completed + n.retired = n.staged := by
  rw [phase_none hx] at h
  split at h
  · cases h
    decide
  · rcases h with rfl | rfl | rfl | rfl <;> decide

/-- An admitted ticket which is not completed is in the hands of the token's holder. -/
theorem Inv.admitted_open (h : Inv cfg b) (hfits : (b.phase o).Fits n) (hadm : 0 < n.admitted)
    (hopen : n.completed = 0) : ∃ a, b.pc.admission? = some a ∧ a.ref.ingressOrdinal = o := by
  rcases hx : b.find o with _ | x
  · have := hfits.absent hx
    omega
  · obtain ⟨lane, hlane⟩ := mem_allJobs.1 (findJob_mem hx).1
    rcases (h.queued.job lane x hlane).state with hs | hs | hs | hs
    · rw [phase_raw hx hs] at hfits
      cases hfits
      exact absurd hadm (Nat.lt_irrefl 0)
    · rw [phase_staged hx hs] at hfits
      cases hfits
      exact absurd hadm (Nat.lt_irrefl 0)
    · exact h.admitted_eq hx hs
    · by_cases hc : b.Called o
      · rw [phase_retired hx hs hc] at hfits
        cases hfits
        exact absurd hadm (Nat.lt_irrefl 0)
      · rw [phase_owed hx hs hc] at hfits
        cases hfits
        exact absurd hadm (Nat.lt_irrefl 0)

/-- A ticket which is left after a sweep of everything is in somebody's hands. -/
theorem Inv.taken_open (h : Inv cfg b) (htaken : b.Taken) (hfits : (b.phase o).Fits n)
    (hopen : n.completed + n.retired < n.staged) : ∃ c, b.InCharge o c := by
  rcases hx : b.find o with _ | x
  · have := hfits.absent hx
    omega
  · obtain ⟨hmem, hxo⟩ := findJob_mem hx
    rcases htaken x hmem with hs | hs
    · exact ⟨.service, .inr ⟨rfl, h.admitted_eq hx hs⟩⟩
    obtain ⟨c, hc⟩ := (h.owed.owed x.key).1 ⟨x, hmem, rfl, hs⟩
    obtain ⟨r, hr, hkey⟩ := mem_map.1 hc
    have hro : r.ref.ingressOrdinal = x.ingressOrdinal := congrArg Prod.fst hkey
    exact ⟨c, .inl ⟨r, hr, hro.trans hxo⟩⟩

end Linearity

theorem reused_terminated {epoch : Nat} {ops : List Op} {ls₁ ls₂ : List Label} {request : Request}
    {t : Ticket} (h : labels cfg epoch ops = ls₁ ++ .staged request t :: ls₂) {request' : Request}
    {t' : Ticket} (hmem : staged request' t' ∈ ls₁) (ho : request'.ingressOrdinal = o)
    (hsame : sameCapability t' t) : 0 < ls₁.countP (terminates o) := by
  obtain ⟨ops₁, b', rfl, hm⟩ := labels_move h
  have hinv := (reached_rep cfg epoch ops₁).inv
  have hbook := book_run cfg epoch ops₁ o
  have hstaged : 0 < (labels cfg epoch ops₁).countP (stages o) := by
    rw [countP_pos_iff]
    exact ⟨_, hmem, beq_iff_eq.2 ho⟩
  rcases (remembers_run cfg epoch ops₁ o).kept request' t' hmem ho with hticket | hgone
  · -- the earlier ticket is still in a slot, so the new one was compared with it
    obtain ⟨x, hx, hxt, hxs⟩ := phase_ticket hticket
    obtain ⟨hxmem, hxo⟩ := findJob_mem hx
    obtain ⟨lane, hlane⟩ := mem_allJobs.1 hxmem
    have hvalid := ((hinv.queued.job lane x hlane).ticket hxs).1
    have hne : o ≠ request.ingressOrdinal := by
      intro heq
      have hraw := ((phase_move hm hinv (o := o)).accepts heq.symm).1
      rw [hraw] at hticket
      cases hticket
    cases hm with
    | @stage round ref y resolved ticket _ hhead hord _ haccepts =>
      have hrequest : (requestForSlot
          (((reached cfg epoch ops₁).view cfg).refresh cfg resolved y)).ingressOrdinal =
            ref.ingressOrdinal := (refresh_ordinal cfg _ resolved y).trans hord
      have hfresh := haccepts.fresh x hxmem (by rw [hxo, ← hrequest]; exact hne) hvalid
      rw [hxt, hsame] at hfresh
      cases hfresh
    | calm hl | abandon hl => cases hl
    | route _ hroute =>
      unfold System.route at hroute
      split at hroute <;> cases hroute
  · rw [hgone] at hbook
    rw [countP_terminates]
    have hcount : (tally o (labels cfg epoch ops₁)).staged =
        (labels cfg epoch ops₁).countP (stages o) := rfl
    rcases hbook with heq | heq | heq | heq
    · rw [← hcount, heq] at hstaged
      exact absurd hstaged (Nat.lt_irrefl 0)
    · rw [← hcount, heq] at hstaged
      exact absurd hstaged (Nat.lt_irrefl 0)
    · have hc : (labels cfg epoch ops₁).countP (completes o) = 1 :=
        congrArg Tally.completed heq
      omega
    · have hr : (labels cfg epoch ops₁).countP (retires o) = 1 := congrArg Tally.retired heq
      omega

/-- **Tickets are linear**, in every history of a scheduler and for every submission. -/
theorem ticket_linear (cfg : Config) (epoch : Nat) (ops : List Op) (o : Nat) :
    Linear (labels cfg epoch ops) (reached cfg epoch ops) o := by
  have hrep := reached_rep cfg epoch ops
  have hbook := book_run cfg epoch ops o
  obtain ⟨hstaged, honce, hcompleted, hretired⟩ := hbook.bounds
  refine ⟨hstaged, honce, ?_, hcompleted, fun hadm => ⟨hretired hadm, ?_⟩, ?_, ?_, ?_⟩
  · intro ls₁ l ls₂ h t hl
    obtain ⟨ops₁, b', rfl, hm⟩ := labels_move h
    have htrans := phase_move (o := o) hm (reached_rep cfg epoch ops₁).inv
    exact (remembers_run cfg epoch ops₁ o).accepted t (htrans.passes hl)
  · by_cases hdone : (labels cfg epoch ops).countP (completes o) = 0
    · exact .inr (hrep.inv.admitted_open hbook hadm hdone)
    have hcount : (labels cfg epoch ops).countP (completes o) +
      (labels cfg epoch ops).countP (retires o) ≤ 1 := Nat.le_trans honce hstaged
    omega
  · intro ls₁ l ls₂ h hl
    exact never_after (S := fun p => p.over) (fun _ _ _ hp ht => ht.over hp) h
      fun _ _ ht => ht.terminated hl
  · intro ls₁ request t ls₂ h request' t' hmem ho hsame
    exact reused_terminated h hmem ho hsame
  · intro hshut hopen
    rw [countP_terminates] at hopen
    obtain ⟨-, htaken⟩ := (closing_run cfg epoch ops).taken (.inl hshut)
    obtain ⟨c, hc⟩ := hrep.inv.taken_open htaken hbook hopen
    exact ⟨c, hc, hrep.inv.inCharge_busy hc, fun c' hc' => hrep.inv.inCharge_unique hc hc'⟩

/-! ## A ticket which outlives a shutdown -/

/-- An unlink takes a staged ticket and loses the processor before it calls `Retire`;
meanwhile a shutdown runs from its start to its end. -/
def shutdownDuringUnlink : List Op :=
  .enqueue (controlIn 7) :: stageRound 1 ++
    [.unlink 0 7, .shutdown 1 .connectionClose, .proceed 1, .proceed 1, .proceed 1]

/-- The shutdown has returned, and the accepted ticket has neither been completed nor
retired. -/
theorem ticket_outlives_shutdown : (reached smallConfig 0 shutdownDuringUnlink).shutDown ∧
      (labels smallConfig 0 shutdownDuringUnlink).countP (Label.stages 1) = 1 ∧
      (labels smallConfig 0 shutdownDuringUnlink).countP (Label.terminates 1) = 0 := by
  decide +kernel

end Viiper.Ports.Retained
