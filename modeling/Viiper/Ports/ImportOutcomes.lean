import Viiper.Ports.ImportTable

/-!
# The results of closes and resets

What the steps do to the fields which closing and resetting calls read: the
latched reason, the stored results and the reset channels.
-/

namespace Viiper.Ports.ImportSession

open Verified.Run Function Authority
open Retained (ImportLease ImportResetLease)

/-- What resets store in the session. -/
def Session.resetView (s : Session) :=
  (s.nextResetGeneration, s.issuedReset, s.activeReset, s.lastReset, s.lastResetResult,
    s.lastResetErr, s.resetDone, s.resetChannels, s.closedResets)

/-- What closes store in the session. -/
def Session.closeView (s : Session) :=
  (s.closeStarted, s.closeReason, s.closeDone, s.closeResult)

/-- The point returns nothing about a close or a reset. -/
def Pc.Mute (pc : Pc) : Prop :=
  (∃ i d, pc = .drive i d) ∨ (∃ i err, pc = .done (.error i err)) ∨
    ∃ i err, pc = .done (.commit i err)

theorem mute_drive {i : Nat} {d : Driver} : (Pc.drive i d).Mute := .inl ⟨i, d, rfl⟩

theorem mute_error {i : Nat} {err : Errors} : (Pc.done (.error i err)).Mute :=
  .inr (.inl ⟨i, err, rfl⟩)

theorem mute_commit {i : Nat} {err : Errors} : (Pc.done (.commit i err)).Mute :=
  .inr (.inr ⟨i, err, rfl⟩)

def Note.Unsettled : Note → Prop
  | .settled .. => False
  | _ => True

/-- What a driver's step does to the results of closes and resets. -/
inductive Outcome (i : Nat) (s : Session) : Effect → Prop
  | same (e : Effect) (hreset : e.session.resetView = s.resetView)
      (hclose : e.session.closeView = s.closeView) (hpc : e.pc.Mute)
      (hnote : e.note.Unsettled) : Outcome i s e
  | resetSafe (k : Nat) (hk : s.resetDone = some k) (hvalid : s.activeReset.valid)
      (hopen : s.closeDone = false) :
      Outcome i s ⟨.done (.reset i s.activeReset ⟨s.activeReset, .safe⟩ []),
        { s with state := .claimed, lastReset := s.activeReset,
                 lastResetResult := ⟨s.activeReset, .safe⟩, lastResetErr := [],
                 activeReset := {}, closedResets := k :: s.closedResets },
        false, .settled i s.activeReset ⟨s.activeReset, .safe⟩ []⟩
  | resetQuarantined (err : Errors) (hvalid : s.activeReset.valid)
      (hdone : s.resetDone ≠ none) (hopen : s.closeDone = false) :
      Outcome i s (finishResetQuarantined i s s.activeReset err)
  | closeSafe (reason : ImportCloseReason) (hreason : s.closeReason = reason)
      (hstarted : s.closeStarted) (hopen : s.closeDone = false)
      (hactive : s.activeReset = {}) :
      Outcome i s (.go (.done (.close i reason ⟨s.lease, reason, .safe⟩ []))
        { s with state := .released, closeResult := ⟨s.lease, reason, .safe⟩,
                 closeErr := [], closeDone := true })
  | closeQuarantined (reason : ImportCloseReason) (hreason : s.closeReason = reason)
      (err : Errors) (hstarted : s.closeStarted) (hopen : s.closeDone = false)
      (hactive : s.activeReset = {}) :
      Outcome i s (.go (.done (.close i reason ⟨s.lease, reason, .quarantined⟩ err))
        { s with state := .quarantined, closeResult := ⟨s.lease, reason, .quarantined⟩,
                 closeErr := err, closeDone := true })

variable {s : Session} {σ : List Callback} {i : Nat} {w : World} {act : Bool} {s' : Session}
  {err : Errors}

theorem outcome_call {x : Callback} {pc : Pc} (hpc : pc.Mute) :
    Outcome i s (.call i x pc s) := .same _ rfl rfl hpc trivial

theorem AbortStage.step_outcome (stage : AbortStage) : Outcome i s (stage.step w act i s) := by
  cases stage with
  | fence | close => exact outcome_call mute_drive
  | store err => exact .same _ rfl rfl mute_drive trivial
  | quarantine err => exact .same _ rfl rfl mute_error trivial
  | release =>
    simp only [AbortStage.step]
    split <;> exact .same _ rfl rfl mute_error trivial

theorem mute_afterBinding {answer : Answer SchedulerBinding} : (afterBinding i s answer).Mute := by
  simp only [afterBinding]
  split <;> exact mute_drive

theorem mute_afterBind {lease : ImportLease} {answer : Answer ImportBindResult} :
    (afterBind i lease answer).Mute := by
  simp only [afterBind]
  split
  · exact mute_drive
  split <;> exact mute_drive

theorem mute_afterUnpublished {next : Cleanup} : (afterUnpublished i next err).Mute := by
  unfold afterUnpublished
  split <;> first | exact mute_drive | exact mute_commit

theorem mute_afterBoundDrain {lease : ImportLease} {failure : Errors}
    {answer : Answer ImportDrainResult} : (afterBoundDrain i lease failure answer).Mute := by
  simp only [afterBoundDrain]
  split
  · exact mute_commit
  split
  · exact mute_commit
  · exact mute_drive

theorem CommitStage.step_outcome (stage : CommitStage) : Outcome i s (stage.step w act i s) := by
  cases stage with
  | authenticate => exact outcome_call mute_afterBinding
  | bind => exact outcome_call mute_afterBind
  | activate =>
    refine .same _ rfl rfl ?_ trivial
    simp only [CommitStage.step, Effect.call]
    split <;> exact mute_drive
  | publish =>
    simp only [CommitStage.step, publishClaimed]
    split
    · exact .same _ rfl rfl mute_drive trivial
    split
    · exact .same _ rfl rfl mute_commit trivial
    · exact .same _ rfl rfl mute_drive trivial
  | unpublishedFence next =>
    simp only [CommitStage.step]
    split
    · exact .same _ rfl rfl mute_afterUnpublished trivial
    · exact outcome_call mute_drive
  | unpublishedIngress next err => exact outcome_call mute_drive
  | unpublishedScheduler next err => exact outcome_call mute_afterUnpublished
  | rollback =>
    simp only [CommitStage.step]
    split
    · exact .same _ rfl rfl mute_commit trivial
    · exact .same _ rfl rfl mute_drive trivial
  | rejectQuarantine err => exact .same _ rfl rfl mute_commit trivial
  | contain | disconnect => exact outcome_call mute_commit
  | drain failure => exact outcome_call mute_afterBoundDrain
  | _ => exact .same _ rfl rfl mute_drive trivial

theorem ResetStage.step_outcome {r : ImportResetLease} {stage : ResetStage}
    (h : stage.Held s σ r) : Outcome i s (stage.step w i s r) := by
  obtain ⟨⟨hstate, rfl, hvalid, hdone⟩, hopen, -⟩ := h
  cases stage with
  | finish =>
    simp only [ResetStage.step, finishReset]
    split
    next hnone => exact absurd hnone hdone
    next k hk =>
      simp only [hstate, ne_eq, not_true_eq_false, or_self, if_false]
      exact .resetSafe k hk hvalid hopen
  | quarantine err => exact .resetQuarantined err hvalid hdone hopen
  | close | contain => exact outcome_call mute_drive
  | _ => exact .same _ rfl rfl mute_drive trivial

theorem CloseStage.step_outcome {reason : ImportCloseReason} {stage : CloseStage}
    (h : stage.Held s σ reason) : Outcome i s (stage.step w act i s reason) := by
  obtain ⟨⟨-, hactive⟩, ⟨hstarted, hreason, hopen⟩, h⟩ := h
  cases stage with
  | releaseLook | releaseDelete =>
    simp only [CloseStage.step]
    split
    · exact .same _ rfl rfl mute_drive trivial
    split <;> exact .same _ rfl rfl mute_drive trivial
  | finishReleased result =>
    obtain ⟨rfl, -⟩ := h
    exact .closeSafe reason hreason hstarted hopen hactive
  | quarantine err => exact .closeQuarantined reason hreason err hstarted hopen hactive
  | _ => exact .same _ rfl rfl mute_drive trivial

/-- **What a driver's step does** to the results of closes and resets. -/
theorem Driver.step_outcome {d : Driver} (h : d.Held s σ) : Outcome i s (d.step w act i s) := by
  cases d with
  | abortPrepared stage | commit stage => exact stage.step_outcome
  | reset r stage => exact ResetStage.step_outcome h
  | close reason stage => exact CloseStage.step_outcome h

/-! ## How a session changes -/

/-- The terminal outcome of a reset, as its last section stores it. -/
abbrev Settlement := ImportResetLease × ImportResetResult × Errors

/-- The reset of session `i` which the note settles. -/
def Note.settledAt (i : Nat) : Note → Option Settlement
  | .settled j r result err => if j = i then some (r, result, err) else none
  | _ => none

theorem Note.Unsettled.settledAt {note : Note} (h : note.Unsettled) (j : Nat) :
    note.settledAt j = none := by
  cases note with
  | settled => exact h.elim
  | _ => rfl

/-- Every change of a session, as far as closes and resets can tell, with the
reset it settles. -/
inductive Changed (s : Session) : Option Settlement → Session → Prop
  | same (s' : Session) (hlease : s'.lease = s.lease) (hreset : s'.resetView = s.resetView)
      (hclose : s'.closeView = s.closeView) : Changed s none s'
  | issues (r : ImportResetLease) (hr : r.resetGeneration = s.nextResetGeneration + 1)
      (hvalid : r.valid) (hissued : s.issuedReset.valid = false)
      (hactive : s.activeReset = {}) (hopen : s.closeStarted = false) :
      Changed s none { s with nextResetGeneration := s.nextResetGeneration + 1, issuedReset := r }
  | begins (hopen : s.closeStarted = false) (hactive : s.activeReset = {})
      (hvalid : s.issuedReset.valid) :
      Changed s none
        { s with issuedReset := {}, activeReset := s.issuedReset,
                 resetDone := some s.resetChannels,
                 resetChannels := s.resetChannels + 1, state := .resetting }
  | resetSafe (k : Nat) (hk : s.resetDone = some k) (hvalid : s.activeReset.valid)
      (hopen : s.closeDone = false) :
      Changed s (some (s.activeReset, ⟨s.activeReset, .safe⟩, []))
        { s with state := .claimed, lastReset := s.activeReset,
                 lastResetResult := ⟨s.activeReset, .safe⟩, lastResetErr := [],
                 activeReset := {}, closedResets := k :: s.closedResets }
  | resetQuarantined (i : Nat) (err : Errors) (hvalid : s.activeReset.valid)
      (hdone : s.resetDone ≠ none) (hopen : s.closeDone = false) :
      Changed s (some (s.activeReset, ⟨s.activeReset, .quarantined⟩, err))
        (finishResetQuarantined i s s.activeReset err).session
  | latches (reason : ImportCloseReason) (hopen : s.closeStarted = false) (s' : Session)
      (hlease : s'.lease = s.lease) (hreset : s'.resetView = s.resetView)
      (hclose : s'.closeView = (true, reason, s.closeDone, s.closeResult)) : Changed s none s'
  | closes (state : ImportDisconnectState) (hstarted : s.closeStarted)
      (hopen : s.closeDone = false) (hactive : s.activeReset = {}) (s' : Session)
      (hlease : s'.lease = s.lease) (hreset : s'.resetView = s.resetView)
      (hclose : s'.closeView =
        (true, s.closeReason, true, ⟨s.lease, s.closeReason, state⟩)) : Changed s none s'

variable {e : Effect}

theorem Outcome.changed (h : Outcome i s e)
    (hlease : e.session.lease = s.lease) : Changed s (e.note.settledAt i) e.session := by
  cases h with
  | same _ hreset hclose hpc hnote =>
    rw [hnote.settledAt]
    exact .same _ hlease hreset hclose
  | resetSafe k hk hvalid hopen =>
    simp only [Note.settledAt, if_true]
    exact .resetSafe k hk hvalid hopen
  | resetQuarantined err hvalid hdone hopen =>
    simp only [finishResetQuarantined, Note.settledAt, if_true]
    exact .resetQuarantined i err hvalid hdone hopen
  | closeSafe reason hreason hstarted hopen hactive =>
    subst hreason
    exact .closes .safe hstarted hopen hactive _ rfl rfl (by rw [← hstarted]; rfl)
  | closeQuarantined reason hreason err hstarted hopen hactive =>
    subst hreason
    exact .closes .quarantined hstarted hopen hactive _ rfl rfl (by rw [← hstarted]; rfl)

/-- A driver settles no reset but that of its own session. -/
theorem Outcome.settledAt_other (h : Outcome i s e) {j : Nat} (hj : i ≠ j) :
    e.note.settledAt j = none := by
  cases h with
  | same _ hreset hclose hpc hnote => exact hnote.settledAt j
  | _ => simp [finishResetQuarantined, Note.settledAt, hj]

theorem Good.claimed_active {d : Option Driver} (hgood : Good s σ d)
    (hstate : s.state = .claimed) : s.activeReset = {} := by
  obtain rfl := hgood.vacant hstate rfl
  simp only [Good, Rest, hstate] at hgood
  exact hgood.2.1

theorem Visited.unsettled (h : Visited i s act e) : e.note.Unsettled := by
  cases h <;> trivial

theorem Visited.changed {d : Option Driver} (h : Visited i s act e)
    (hgood : Good s σ d) : Changed s (e.note.settledAt i) e.session := by
  cases h with
  | resets hstate hopen hvalid => exact .begins hopen (hgood.claimed_active hstate) hvalid
  | latches _ reason _ hopen | closes reason _ hopen => exact .latches reason hopen _ rfl rfl rfl
  | _ => exact .same _ rfl rfl rfl

variable {a first : Authority} {evs : List Step}

/-- **Every step changes a session in one of these ways**, and keeps every
session. -/
theorem Inv.changed (h : Inv first evs a) (hs : a.sessions i = some s) (op : Authority.Op) :
    ∃ s', (a.step op).1.sessions i = some s' ∧ Changed s ((a.step op).2.settledAt i) s' := by
  have hlt := (h.numbered.issued i).1 (by simp [hs])
  have hturn := step_turn a op
  generalize a.step op = res at hturn
  have hsame : Changed s none s := .same s rfl rfl rfl
  have happly : ∀ {c j : Nat} {t : Session} {e : Effect}, a.sessions j = some t →
      Changed t (e.note.settledAt j) e.session →
      (j ≠ i → e.note.settledAt i = none) →
      ∃ s', (a.apply c j t e).1.sessions i = some s' ∧
        Changed s ((a.apply c j t e).2.settledAt i) s' := by
    intro c j t e ht hch hother
    by_cases hj : i = j
    · subst hj
      rw [hs] at ht
      obtain rfl := Option.some.inj ht
      exact ⟨e.session, apply_sessions_self, hch⟩
    · refine ⟨s, by rw [apply_sessions_ne hj, hs], ?_⟩
      rw [show (a.apply c j t e).2 = e.note from rfl, hother (Ne.symm hj)]
      exact hsame
  cases hturn with
  | moves _ c pc note hold hnew hpc hvisit hnote =>
    refine ⟨s, hs, ?_⟩
    rcases hnote with rfl | ⟨answer, rfl⟩ <;> exact hsame
  | claims c deviceID owner ownerID w hc hfree =>
    refine ⟨s, ?_, hsame⟩
    simp only [claim, if_pos hfree, update_of_ne (Nat.ne_of_lt hlt), hs]
  | enters c j t m w hc hm ht =>
    obtain ⟨d, -, hgood⟩ := h.phased.good ht
    have hv : Visited j t (a.isActive j t) (m.enter a.identity w (a.isActive j t) j t) :=
      m.enter_visited
    exact happly ht (hv.changed hgood) fun _ => hv.unsettled.settledAt i
  | visits c j t v w hc ht =>
    obtain ⟨d, -, hgood⟩ := h.phased.good ht
    have hv : Visited j t (a.isActive j t) (v.step w (a.isActive j t) j t) :=
      v.step_visited
    exact happly ht (hv.changed hgood) fun _ => hv.unsettled.settledAt i
  | drives c j t d w hc ht =>
    have ho : Outcome j t (d.step w (a.isActive j t) j t) :=
      Driver.step_outcome (h.phased.held ht hc).2
    exact happly ht (ho.changed d.step_keeps.lease) ho.settledAt_other
  | issues c j t lease w hc ht =>
    rcases issueReset_cases a w c j t lease with ⟨err, heq⟩ | ⟨hlease, hvalid, hfree, -, heq⟩
    · rw [heq]
      exact ⟨s, hs, hsame⟩
    · rw [heq]
      refine happly (c := c) ht ?_ fun _ => rfl
      obtain ⟨d, -, hgood⟩ := h.phased.good ht
      simp only [resetBlocked, Bool.or_eq_false_iff, bne_eq_false_iff_eq] at hfree
      refine .issues _ rfl ?_ hfree.1.2 (hgood.claimed_active ?_) hfree.1.1.1.1.2
      · simp [ImportResetLease.valid, hvalid]
      · exact hfree.1.1.1.1.1.2
  | stores j admissionOpen activation =>
    by_cases hj : i = j
    · subst hj
      exact ⟨{ s with admissionOpen := admissionOpen, activation := activation },
        by simp [setAdmission, hs], .same _ rfl rfl rfl⟩
    · exact ⟨s, by simp [setAdmission, hj, hs], hsame⟩
  | _ => exact ⟨s, hs, hsame⟩

/-! ## The reset channels -/

/-- The channel of the reset under way is still open, and every channel was
made. -/
structure Channels (s : Session) : Prop where
  closed : ∀ k ∈ s.closedResets, k < s.resetChannels
  made : ∀ k, s.resetDone = some k → k < s.resetChannels
  opened : s.activeReset.valid → ∀ k, s.resetDone = some k → k ∉ s.closedResets

theorem Channels.of_view (h : Channels s) (hview : s'.resetView = s.resetView) : Channels s' := by
  simp only [Session.resetView, Prod.mk.injEq] at hview
  obtain ⟨-, -, hactive, -, -, -, hdone, hcount, hclosed⟩ := hview
  constructor
  · rw [hclosed, hcount]
    exact h.closed
  · rw [hdone, hcount]
    exact h.made
  · rw [hactive, hdone, hclosed]
    exact h.opened

theorem finishResetQuarantined_view (i : Nat) (s : Session) (r : ImportResetLease) (err : Errors) :
    (finishResetQuarantined i s r err).session.resetView =
      (s.nextResetGeneration, s.issuedReset, {}, r, ⟨r, .quarantined⟩, err, s.resetDone,
        s.resetChannels, s.resetDone.toList ++ s.closedResets) := by
  cases h : s.closeStarted <;> simp [finishResetQuarantined, h, Session.resetView]

theorem finishResetQuarantined_closeView (i : Nat) (s : Session) (r : ImportResetLease)
    (err : Errors) :
    (finishResetQuarantined i s r err).session.closeView =
      if s.closeStarted then
        (true, s.closeReason, true, ⟨s.lease, s.closeReason, .quarantined⟩)
      else s.closeView := by
  cases h : s.closeStarted <;> simp [finishResetQuarantined, h, Session.closeView]

theorem Channels.changed {o : Option Settlement} (h : Channels s) (hch : Changed s o s') :
    Channels s' := by
  cases hch with
  | same _ _ hreset | latches _ _ _ _ hreset | closes _ _ _ _ _ _ hreset => exact h.of_view hreset
  | issues r hr hvalid hissued hactive hopen => exact ⟨h.closed, h.made, h.opened⟩
  | begins hopen hactive hvalid =>
    refine ⟨fun k hk => Nat.lt_succ_of_lt (h.closed k hk), ?_, ?_⟩
    · intro k hk
      rw [← Option.some.inj hk]
      exact Nat.lt_succ_self _
    · intro _ k hk hmem
      have hlt := h.closed k hmem
      rw [← Option.some.inj hk] at hlt
      exact Nat.lt_irrefl _ hlt
  | resetSafe k hk hvalid hopen =>
    refine ⟨fun k' hk' => ?_, h.made, fun hv => absurd hv Bool.false_ne_true⟩
    rcases List.mem_cons.1 hk' with rfl | hk'
    · exact h.made _ hk
    · exact h.closed k' hk'
  | resetQuarantined j err hvalid hdone hopen =>
    have hview := finishResetQuarantined_view j s s.activeReset err
    simp only [Session.resetView, Prod.mk.injEq] at hview
    obtain ⟨-, -, hactive, -, -, -, hdone', hcount, hclosed⟩ := hview
    refine ⟨?_, ?_, fun hv => ?_⟩
    · rw [hclosed, hcount]
      intro k hk
      rcases List.mem_append.1 hk with hk | hk
      · exact h.made k (Option.mem_toList.1 hk)
      · exact h.closed k hk
    · rw [hdone', hcount]
      exact h.made
    · rw [hactive] at hv
      exact absurd hv Bool.false_ne_true

theorem new_session {op : Authority.Op} (hs : a.sessions i = none)
    (hs' : (a.step op).1.sessions i = some s') :
    ∃ lease owner, s' = { lease := lease, ownerReference := owner } := by
  have hturn := step_turn a op
  generalize a.step op = res at hturn hs'
  have happly : ∀ {c j : Nat} {t : Session} {e : Effect}, a.sessions j = some t →
      (a.apply c j t e).1.sessions i ≠ some s' := by
    intro c j t e ht
    by_cases hj : i = j
    · subst hj
      simp [hs] at ht
    · simp [apply_sessions_ne hj, hs]
  cases hturn with
  | claims c deviceID owner ownerID w hc hfree =>
    simp only [claim, if_pos hfree] at hs'
    by_cases hi : i = a.issued
    · rw [hi, update_self] at hs'
      exact ⟨_, _, (Option.some.inj hs').symm⟩
    · simp [update_of_ne hi, hs] at hs'
  | enters _ _ _ _ _ _ _ ht | visits _ _ _ _ _ _ ht | drives _ _ _ _ _ _ ht =>
    exact absurd hs' (happly ht)
  | issues c j t lease w hc ht =>
    rcases issueReset_cases a w c j t lease with ⟨err, heq⟩ | ⟨-, -, -, -, heq⟩
    · simp [heq, moveTo, hs] at hs'
    · rw [heq] at hs'
      exact absurd hs' (happly (c := c) ht)
  | stores j admissionOpen activation =>
    by_cases hj : i = j
    · subst hj
      simp [setAdmission, hs] at hs'
    · simp [setAdmission, hj, hs] at hs'
  | idles => simp [hs] at hs'
  | _ => simp [moveTo, hs] at hs'

/-! ## No step but a return returns -/

theorem Visited.not_returned (h : Visited i s act e) {c : Nat} {r : Return} :
    e.note ≠ .returned c r := by
  cases h <;> simp

theorem Driver.step_not_returned (d : Driver) (c : Nat) (r : Return) :
    (d.step w act i s).note ≠ .returned c r := by
  cases d with
  | abortPrepared stage =>
    cases stage <;> simp only [Driver.step, AbortStage.step]
    case release => split <;> simp
    all_goals simp
  | commit stage =>
    cases stage <;> simp only [Driver.step, CommitStage.step, publishClaimed]
    case publish =>
      split
      · simp
      split <;> simp
    case unpublishedFence => split <;> simp
    case rollback => split <;> simp
    all_goals simp
  | reset r' stage =>
    cases stage <;> simp only [Driver.step, ResetStage.step, finishReset]
    case finish =>
      split
      · simp
      split <;> simp
    all_goals simp [Effect.resetCall, finishResetQuarantined]
  | close reason stage =>
    cases stage <;> simp only [Driver.step, CloseStage.step]
    case releaseLook =>
      split
      · simp
      split <;> simp
    case releaseDelete =>
      split
      · simp
      split <;> simp
    all_goals simp

/-! ## What calls know

A call which stands at a point relies on facts about the session, and about the
resets settled so far.  `K i s outs pc` is such knowledge: it has to hold at
every point a step leads to, and no other step may take it back. -/

/-- The resets of session `i` settled in a history, in order. -/
def settlements (i : Nat) (evs : List Step) : List Settlement :=
  evs.filterMap fun e => e.out.settledAt i

theorem settlements_snoc (i : Nat) (evs : List Step) (e : Step) :
    settlements i (evs ++ [e]) = settlements i evs ++ (e.out.settledAt i).toList := by
  unfold settlements
  cases h : e.out.settledAt i <;> simp [h]

/-- A point at which a call relies on nothing. -/
def Pc.Silent : Pc → Prop
  | .visit .. => False
  | .done (.reset _ _ result _) => result.state = .invalid
  | .done (.close _ _ result _) => result.state = .invalid
  | _ => True

theorem Pc.Mute.silent {pc : Pc} (h : pc.Mute) : pc.Silent := by
  rcases h with ⟨i, d, rfl⟩ | ⟨i, err, rfl⟩ | ⟨i, err, rfl⟩ <;> trivial

section Knowledge

variable (K : Nat → Session → List Settlement → Pc → Prop)

/-- What a call at `pc` knows of key `i`; of a session not issued yet it relies
on nothing. -/
def Informed (i : Nat) (outs : List Settlement) (pc : Pc) : Option Session → Prop
  | none => ∀ s outs, K i s outs pc
  | some s => K i s outs pc

/-- Every call knows what its point says. -/
def Aware (evs : List Step) (a : Authority) : Prop :=
  ∀ c i, Informed K i (settlements i evs) (a.calls c) (a.sessions i)

/-- The step leads to a point whose knowledge holds of every session. -/
def Effect.Known (i : Nat) (outs : List Settlement) (e : Effect) : Prop :=
  ∀ j t outs', (j = i → t = e.session ∧ outs' = outs ++ (e.note.settledAt i).toList) →
    K j t outs' e.pc

variable {K}

theorem Informed.of_all {outs : List Settlement} {pc : Pc} (h : ∀ s outs, K i s outs pc)
    (o : Option Session) : Informed K i outs pc o := by
  cases o with
  | none => exact h
  | some s => exact h s outs

theorem known_silent (hK : ∀ pc : Pc, pc.Silent → ∀ i s outs, K i s outs pc)
    {outs : List Settlement} (h : e.pc.Silent) : e.Known K i outs :=
  fun j t outs' _ => hK _ h j t outs'

/-- Knowledge which no change takes back is kept by the goroutines which do not
move. -/
theorem Informed.step {pc : Pc} (h : Informed K i (settlements i evs) pc (a.sessions i))
    (hinv : Inv first evs a) (op : Authority.Op)
    (hstable : ∀ s s' outs, Changed s ((a.step op).2.settledAt i) s' →
      K i s outs pc → K i s' (outs ++ ((a.step op).2.settledAt i).toList) pc) :
    Informed K i (settlements i (evs ++ [event step a op])) pc ((a.step op).1.sessions i) := by
  cases hs : a.sessions i with
  | none =>
    rw [hs] at h
    exact Informed.of_all h _
  | some s =>
    rw [hs] at h
    obtain ⟨s', hs', hch⟩ := hinv.changed hs op
    rw [hs', settlements_snoc]
    exact hstable s s' _ hch h

/-- **The rule of knowledge.** -/
theorem Aware.step (hK : ∀ pc : Pc, pc.Silent → ∀ i s outs, K i s outs pc)
    (h : Aware K evs a) (hinv : Inv first evs a) (op : Authority.Op)
    (hstable : ∀ c i s s' outs, Changed s ((a.step op).2.settledAt i) s' → K i s outs (a.calls c) →
      K i s' (outs ++ ((a.step op).2.settledAt i).toList) (a.calls c))
    (henter : ∀ c i s m w, a.calls c = .entry m → a.sessions i = some s →
      (m.enter a.identity w (a.isActive i s) i s).Known K i (settlements i evs))
    (hvisit : ∀ c i s v w, a.calls c = .visit i v → a.sessions i = some s →
      (v.step w (a.isActive i s) i s).Known K i (settlements i evs))
    (hdrive : ∀ c i s d w, a.calls c = .drive i d → a.sessions i = some s →
      (d.step w (a.isActive i s) i s).Known K i (settlements i evs)) :
    Aware K (evs ++ [event Authority.step a op]) (a.step op).1 := by
  have hmove : ∀ c pc, (a.step op).1.calls = update a.calls c pc →
      (∀ i, Informed K i (settlements i (evs ++ [event Authority.step a op])) pc
        ((a.step op).1.sessions i)) →
      Aware K (evs ++ [event Authority.step a op]) (a.step op).1 := by
    intro c pc hcalls hpc c' i
    rw [hcalls]
    rw [update_apply]
    split
    · exact hpc i
    · exact (h c' i).step hinv op (hstable c' i)
  have hsilent : ∀ c pc, (a.step op).1.calls = update a.calls c pc → pc.Silent →
      Aware K (evs ++ [event Authority.step a op]) (a.step op).1 := fun c pc hcalls hpc =>
    hmove c pc hcalls fun i => Informed.of_all (fun s outs => hK pc hpc i s outs) _
  have happly : ∀ c i s e, a.step op = a.apply c i s e → e.Known K i (settlements i evs) →
      Aware K (evs ++ [event Authority.step a op]) (a.step op).1 := by
    intro c i s e hstep hknown
    refine hmove c e.pc (by rw [hstep]; rfl) fun j => ?_
    by_cases hj : j = i
    · subst hj
      rw [settlements_snoc, event_out, hstep, apply_sessions_self]
      exact hknown j e.session _ fun _ => ⟨rfl, rfl⟩
    · exact Informed.of_all (fun t outs => hknown j t outs fun hji => absurd hji hj) _
  have hturn := step_turn a op
  generalize hres : a.step op = res at hturn
  cases hturn with
  | returns c w r hc => rw [← hres]; exact hsilent c .idle (by rw [hres]; rfl) trivial
  | moves _ c pc note hold hnew hpc hvisit hnote =>
    rw [← hres]
    refine hsilent c pc (by rw [hres]; rfl) ?_
    cases pc with
    | visit j v => exact absurd rfl (hvisit j v)
    | done r =>
      rcases hpc r rfl with ⟨m, -, rfl⟩ | ⟨_, _, _, rfl⟩
      · cases m <;> trivial
      · trivial
    | _ => trivial
  | idles =>
    intro c i
    have hi := (h c i).step hinv op (hstable c i)
    rw [hres] at hi
    exact hi
  | claims c deviceID owner ownerID w hc hfree =>
    rw [← hres]
    refine hsilent c (.done (.reserve deviceID (some a.issued) [])) ?_ trivial
    rw [hres]
    simp [Authority.claim, hfree]
  | enters c i s m w hc hm hs => rw [← hres]; exact happly c i s _ hres (henter c i s m w hc hs)
  | visits c i s v w hc hs => rw [← hres]; exact happly c i s _ hres (hvisit c i s v w hc hs)
  | drives c i s d w hc hs => rw [← hres]; exact happly c i s _ hres (hdrive c i s d w hc hs)
  | issues c i s lease w hc hs =>
    rw [← hres]
    rcases issueReset_cases a w c i s lease with ⟨err, heq⟩ | ⟨-, -, -, -, heq⟩
    · exact hsilent c (.done (.issueReset i {} err)) (by rw [hres, heq]; rfl) trivial
    · exact hsilent c (.done (.issueReset i _ [])) (by rw [hres, heq]; rfl) trivial
  | stores i admissionOpen activation =>
    intro c j
    have hj := (h c j).step hinv (.store i admissionOpen activation) (hstable c j)
    exact hj

end Knowledge

end Viiper.Ports.ImportSession
