import Viiper.Ports.ImportOutcomes

/-!
# The owner's lifecycle callbacks

However many goroutines commit, close and reset one import, its owner is bound,
drained and disconnected at most once each, in order, and every close which
returns a terminal result returns the same one.

The second part is about goroutines which wait: `Pc.Knows` says what a call
which stands at a point may rely on in the session, `Knows.changed` that no other
goroutine can take it back, and `Aware.step` carries it along a run.
-/

namespace Viiper.Ports.ImportSession

open Verified.Run Authority
open Retained (ImportLease ImportResetLease)
open ImportSession.Session

variable {s s' : Session} {o : Option Settlement} {outs : List Settlement}
  {σ : List Callback} {i : Nat} {w : World} {act : Bool}

/-! ## Stories are orderly -/

theorem AbortStage.Held.orderly {stage : AbortStage} (h : stage.Held s σ) : Orderly s.lease σ := by
  obtain ⟨-, -, -, h⟩ := h
  have hfence : ∀ a, Failing s.lease [.closeAdmission a] :=
    fun _ => failing_nil.plain ⟨rfl, rfl, rfl⟩
  cases stage with
  | fence => rw [h.2]; exact orderly_nil
  | close err =>
    obtain ⟨-, a, rfl, -⟩ := h
    exact (hfence a).1
  | store | quarantine => exact h.2.1
  | release =>
    rw [h.2]
    exact ((hfence ok).plain (x := .schedulerClose ok) ⟨rfl, rfl, rfl⟩).1

theorem CommitStage.Held.orderly {stage : CommitStage} (h : stage.Held s σ) :
    Orderly s.lease σ := by
  obtain ⟨-, -, h⟩ := h
  cases stage with
  | authenticate => rw [h.2.2]; exact orderly_nil
  | bind =>
    obtain ⟨-, -, b, rfl⟩ := h
    exact (failing_nil.plain (x := .importBinding b) ⟨rfl, rfl, rfl⟩).1
  | activate =>
    obtain ⟨-, -, b, rfl⟩ := h
    exact (failing_bind b _).1
  | publish =>
    obtain ⟨-, -, b, rfl⟩ := h
    exact ((failing_bind b _).plain (x := .activateImport ok) ⟨rfl, rfl, rfl⟩).1
  | setRejected => exact h.2.2.failing.1
  | unpublishedFence next => exact (next.before_failing σ h.2).1
  | unpublishedIngress next | unpublishedScheduler next => exact (h.2.failing next.before_failing).1
  | rollback => exact (h.2.2.failing fun _ => Rejected.failing).1
  | drain failure => exact (h.2.2.failing fun _ h => h).1
  | disconnect failure => exact (h.2.2.orderly fun _ h => h).1
  | _ => exact h.2.2.1

theorem ResetStage.Held.orderly {r : ImportResetLease} {stage : ResetStage}
    (h : stage.Held s σ r) : Orderly s.lease σ := by
  obtain ⟨-, -, -, h⟩ := h
  cases stage with
  | contain err => exact h.2.1
  | quarantine err => exact h.2
  | _ => exact h.2.failing.1

variable {reason : ImportCloseReason} {lastGeneration lastToken identity : UInt64}
  {d : Option Driver}

theorem CloseStage.Held.orderly {stage : CloseStage}
    (h : stage.Held s σ reason) : Orderly s.lease σ := by
  obtain ⟨-, -, h⟩ := h
  have hbase : ∀ β, Committed s.lease β → Failing s.lease β := fun _ => Committed.failing
  cases stage with
  | fence => exact h.2.2.failing.1
  | contain err => exact h.2.2.1
  | setLocalDrained | disconnect => exact (h.2.2.orderly hbase).1
  | setNeutralized result => exact h.2.2.2.orderly hbase
  | releaseLook | releaseDelete => exact h.2.2.2.2.orderly hbase
  | finishReleased result => exact h.2.2.2
  | store | quarantine => exact h.2.2
  | _ => exact (h.2.2.failing hbase).1

theorem Good.orderly (h : Good s σ d) : Orderly s.lease σ := by
  cases d with
  | none =>
    simp only [Good, Rest] at h
    split at h
    · rw [h.2.2.2]; exact orderly_nil
    · rw [h.2.2.2]; exact orderly_nil
    · rw [h.2.2.2]; exact orderly_nil
    · exact h.2.2.2.2.failing.1
    · exact h.2.2.2
    · exact h.2.2.2
    · exact h.2.2.2
    · exact h.2.2.2
    · exact h.elim
  | some d =>
    cases d with
    | abortPrepared stage => exact AbortStage.Held.orderly h
    | commit stage => exact CommitStage.Held.orderly h
    | reset r stage => exact ResetStage.Held.orderly h
    | close reason stage => exact CloseStage.Held.orderly h

/-! ## The latched close -/

/-- A latched close stays latched, and a stored result stays stored. -/
theorem Changed.latched (h : Changed s o s') :
    (s.closeStarted → s'.closeStarted ∧ s'.closeReason = s.closeReason) ∧
      (s.closeDone → s'.closeDone ∧ s'.closeResult = s.closeResult) := by
  cases h with
  | same _ hlease hreset hclose =>
    simp only [closeView, Prod.mk.injEq] at hclose
    obtain ⟨h1, h2, h3, h4⟩ := hclose
    exact ⟨fun h => ⟨h1.trans h, h2⟩, fun h => ⟨h3.trans h, h4⟩⟩
  | resetQuarantined j err hvalid hdone hopen =>
    have hview := finishResetQuarantined_closeView j s s.activeReset err
    refine ⟨fun h => ?_, fun h => by simp [hopen] at h⟩
    simp only [h, if_true, closeView, Prod.mk.injEq] at hview
    exact ⟨hview.1, hview.2.1⟩
  | latches reason hopen _ hlease hreset hclose =>
    simp only [closeView, Prod.mk.injEq] at hclose
    exact ⟨fun h => by simp [hopen] at h, fun h => ⟨hclose.2.2.1.trans h, hclose.2.2.2⟩⟩
  | closes state hstarted hopen hactive _ hlease hreset hclose =>
    simp only [closeView, Prod.mk.injEq] at hclose
    exact ⟨fun _ => ⟨hclose.1, hclose.2.1⟩, fun h => by simp [hopen] at h⟩
  | _ =>
    exact ⟨fun h => ⟨h, rfl⟩, fun h => ⟨h, rfl⟩⟩

/-- The reset which a latched close waits behind has settled: safely, or with
the quarantined result already stored for the close. -/
def Ended (s : Session) : Prop :=
  ∀ k, s.resetDone = some k → k ∈ s.closedResets →
    (s.lastResetErr = [] ∧ s.lastResetResult.state = .safe) ∨
      (s.lastResetResult.state = .quarantined ∧ s.closeDone ∧
        s.closeResult = ⟨s.lease, s.closeReason, .quarantined⟩)

def Latched (s : Session) (reason : ImportCloseReason) : Prop :=
  s.closeStarted ∧ s.closeReason = reason

/-- What a call at a point may rely on in session `i`. -/
def Pc.Knows (i : Nat) (s : Session) : Pc → Prop
  | .visit j (.closeAwait reason) => j = i → Latched s reason
  | .visit j (.closeWait chan lease reason) =>
    j = i → Latched s reason ∧ lease = s.lease ∧ chan = s.resetDone ∧ chan ≠ none ∧ Ended s
  | .done (.close j reason result _) =>
    j = i → result.state ≠ .invalid → Latched s reason ∧ s.closeDone ∧ s.closeResult = result
  | _ => True

theorem Changed.lease (h : Changed s o s') : s'.lease = s.lease := by
  cases h with
  | same _ hlease | latches _ _ _ hlease | closes _ _ _ _ _ hlease => exact hlease
  | resetQuarantined j err => cases h : s.closeStarted <;> simp [finishResetQuarantined, h]
  | _ => rfl

/-- Behind a latched close the last reset channel stays, and its reset ends as
`Ended` says. -/
theorem Changed.ended (h : Changed s o s') (hstarted : s.closeStarted)
    (hended : Ended s) : s'.resetDone = s.resetDone ∧ Ended s' := by
  have hlease := h.lease
  cases h with
  | same _ _ hreset hclose =>
    simp only [resetView, closeView, Prod.mk.injEq] at hreset hclose
    obtain ⟨-, -, -, -, hresult, herr, hdone, -, hclosed⟩ := hreset
    refine ⟨hdone, fun k hk hmem => ?_⟩
    rw [hdone] at hk
    rw [hclosed] at hmem
    rw [hresult, herr, hclose.2.2.1, hclose.2.2.2, hclose.2.1, hlease]
    exact hended k hk hmem
  | issues _ _ _ _ _ hopen | begins hopen | latches _ hopen => simp [hopen] at hstarted
  | resetSafe k hk hvalid hopen => exact ⟨rfl, fun _ _ _ => .inl ⟨rfl, rfl⟩⟩
  | resetQuarantined j err hvalid hdone hopen =>
    have hview := finishResetQuarantined_view j s s.activeReset err
    have hclose := finishResetQuarantined_closeView j s s.activeReset err
    simp only [hstarted, if_true, resetView, closeView,
      Prod.mk.injEq] at hview hclose
    obtain ⟨-, -, -, -, hresult, -, hdone', -, -⟩ := hview
    refine ⟨hdone', fun k _ _ => .inr ⟨by rw [hresult], hclose.2.2.1, ?_⟩⟩
    rw [hclose.2.2.2, hlease, hclose.2.1]
  | closes state _ hopen hactive _ _ hreset hclose =>
    simp only [resetView, Prod.mk.injEq] at hreset
    obtain ⟨-, -, -, -, hresult, herr, hdone, -, hclosed⟩ := hreset
    refine ⟨hdone, fun k hk hmem => ?_⟩
    rw [hdone] at hk
    rw [hclosed] at hmem
    rcases hended k hk hmem with hsafe | ⟨-, hdone', -⟩
    · exact .inl (by rw [herr, hresult]; exact hsafe)
    · simp [hopen] at hdone'

/-- **Nobody takes back what a waiting call relies on.** -/
theorem Pc.Knows.changed {pc : Pc} (h : pc.Knows i s) (hch : Changed s o s') : pc.Knows i s' := by
  have hlatch : ∀ {reason}, Latched s reason → Latched s' reason := fun hl =>
    ⟨(hch.latched.1 hl.1).1, (hch.latched.1 hl.1).2.trans hl.2⟩
  cases pc with
  | visit j v =>
    cases v with
    | closeAwait reason => exact fun hj => hlatch (h hj)
    | closeWait chan lease reason =>
      intro hj
      obtain ⟨hl, hlease, hdone, hsome, hended⟩ := h hj
      obtain ⟨hdone', hended'⟩ := hch.ended hl.1 hended
      exact ⟨hlatch hl, by rw [hch.lease, hlease], by rw [hdone', hdone], hsome, hended'⟩
    | _ => trivial
  | done r =>
    cases r with
    | close j reason result err =>
      intro hj hstate
      obtain ⟨hl, hdone, hresult⟩ := h hj hstate
      obtain ⟨hdone', hresult'⟩ := hch.latched.2 hdone
      exact ⟨hlatch hl, hdone', by rw [hresult', hresult]⟩
    | _ => trivial
  | _ => trivial

/-! ## What a call knows when it gets to a point -/

/-- The knowledge of closes, as the rule of knowledge reads it. -/
def Knowing (i : Nat) (s : Session) (_ : List Settlement) (pc : Pc) : Prop := pc.Knows i s

theorem Pc.Silent.knows {pc : Pc} (h : pc.Silent) (i : Nat) (s : Session)
    (outs : List Settlement) : Knowing i s outs pc := by
  cases pc with
  | visit j v => exact h.elim
  | done r =>
    cases r with
    | close j reason result err => exact fun _ hstate => absurd h hstate
    | _ => trivial
  | _ => trivial

theorem known_mute {e : Effect} (h : e.pc.Mute) : e.Known Knowing i outs :=
  known_silent (fun _ => Pc.Silent.knows) h.silent

theorem known_refused {err : Errors} :
    (Effect.go (.done (.close i reason {} err)) s).Known Knowing i outs :=
  fun _ _ _ _ _ hstate => absurd rfl hstate

theorem beginClose_known {identity : Nat} {lease : ImportLease} (hgood : Good s σ d)
    (hchan : Channels s) : (beginClose identity w i s lease reason).Known Knowing i outs := by
  have hwait : s.state = .resetting ∧ s.activeReset.valid →
      s.resetDone ≠ none ∧ Ended s := by
    rintro ⟨hstate, hvalid⟩
    exact ⟨hgood.resetting hstate, fun k hk hmem => absurd hmem (hchan.opened hvalid k hk)⟩
  simp only [beginClose]
  split
  · exact known_refused
  rename_i hauth
  have hlease : lease = s.lease := by
    simp only [authenticates, not_or, Bool.not_eq_true', Bool.not_eq_false,
      Bool.and_eq_true, beq_iff_eq] at hauth
    exact hauth.1.1.2
  split
  next hreset =>
    obtain ⟨hdone, hended⟩ := hwait hreset
    split
    next hstarted =>
      split
      · exact known_refused
      rename_i hreason
      intro j t outs' ht hj
      rw [(ht hj.symm).1]
      exact ⟨⟨hstarted, not_not.1 hreason⟩, hlease, rfl, hdone, hended⟩
    split
    · exact known_refused
    intro j t outs' ht hj
    rw [(ht hj.symm).1]
    refine ⟨⟨rfl, rfl⟩, hlease, rfl, hdone, fun k hk hmem => ?_⟩
    exact absurd hmem (hchan.opened hreset.2 k hk)
  split
  next hstarted =>
    split
    · exact known_refused
    rename_i hreason
    split
    · split
      · exact known_refused
      · exact known_mute mute_drive
    · intro j t outs' ht hj
      rw [(ht hj.symm).1]
      exact ⟨hstarted, not_not.1 hreason⟩
  split
  · exact known_refused
  split
  · exact known_refused
  · exact known_mute mute_drive

theorem Method.enter_known {identity : Nat} {m : Method} (hgood : Good s σ d) (hchan : Channels s) :
    (m.enter identity w act i s).Known Knowing i outs := by
  cases m with
  | close j lease reason => exact beginClose_known hgood hchan
  | reserve | issueReset => exact fun _ _ _ _ => trivial
  | _ =>
    simp only [Method.enter, beginReset, beginCommit, ImportSession.abort,
      ImportSession.abortPrepared, ImportSession.beginParkedSchedulerBuild,
      ImportSession.finishParkedSchedulerBuild, ImportSession.failParkedSchedulerBuild,
      exactSection]
    intro k t outs' _
    repeat' split
    all_goals trivial

/-- A close which wakes up after the reset it waited behind. -/
theorem closeAfterReset_known {k : Nat} (hl : Latched s reason) (hk : s.resetDone = some k)
    (hmem : k ∈ s.closedResets) (hended : Ended s) :
    (Effect.go (closeAfterReset i s.lease reason s.lastResetResult s.lastResetErr) s).Known
      Knowing i outs := by
  unfold closeAfterReset
  split
  · exact fun _ _ _ _ => trivial
  rename_i hunsafe
  rcases hended k hk hmem with hsafe | ⟨hstate, hdone, hresult⟩
  · exact absurd hsafe hunsafe
  rw [if_neg (by simp [hstate])]
  intro j t outs' ht hj _
  rw [(ht hj.symm).1]
  exact ⟨hl, hdone, by rw [hl.2] at hresult; exact hresult⟩

theorem Visitor.step_known {v : Visitor} (h : (Pc.visit i v).Knows i s) :
    (v.step w act i s).Known Knowing i outs := by
  cases v with
  | preparedSecond | preparedWait | resetWait =>
    simp only [Visitor.step]
    intro k t outs' _
    repeat' split
    all_goals trivial
  | closeAwait reason =>
    have hl := h rfl
    simp only [Visitor.step]
    split
    · exact known_refused
    split
    next hdone =>
      intro j t outs' ht hj _
      rw [(ht hj.symm).1]
      exact ⟨hl, hdone, rfl⟩
    · intro j t outs' ht hj
      rw [(ht hj.symm).1]
      exact hl
  | closeWait chan lease reason =>
    obtain ⟨hl, rfl, rfl, hsome, hended⟩ := h rfl
    obtain ⟨k, hk⟩ := Option.ne_none_iff_exists'.1 hsome
    simp only [Visitor.step, hk, awaitReset]
    by_cases hlive : w.live
    · by_cases hmem : k ∈ s.closedResets
      · simp only [hlive, hmem, Bool.not_true, Bool.false_eq_true, if_false, if_true]
        exact closeAfterReset_known hl hk hmem hended
      · simp only [hlive, hmem, Bool.not_true, Bool.false_eq_true, if_false]
        intro j t outs' ht hj
        rw [(ht hj.symm).1]
        exact ⟨hl, rfl, hk.symm, by simp, hended⟩
    · simp only [hlive, Bool.not_false, if_true]
      intro j t outs' ht
      simp [closeAfterReset, Knowing, Pc.Knows]

theorem Outcome.known {e : Effect} (h : Outcome i s e) : e.Known Knowing i outs := by
  cases h with
  | same _ hreset hclose hpc hnote => exact known_mute hpc
  | closeSafe _ hreason hstarted | closeQuarantined _ hreason _ hstarted =>
    intro j t outs' ht hj _
    rw [(ht hj.symm).1]
    exact ⟨⟨hstarted, hreason⟩, rfl, rfl⟩
  | _ => exact fun _ _ _ _ => trivial

/-! ## Along a run -/

variable {a first : Authority} {evs : List Step}

theorem aware_step (h : Aware Knowing evs a) (hinv : Inv first evs a)
    (hchan : ∀ i s, a.sessions i = some s → Channels s) (op : Authority.Op) :
    Aware Knowing (evs ++ [event step a op]) (a.step op).1 := by
  refine h.step (fun _ => Pc.Silent.knows) hinv op ?_ ?_ ?_ ?_
  · intro c i s s' outs hch hknows
    exact Pc.Knows.changed hknows hch
  · intro c i s m w _ hs
    obtain ⟨d, -, hgood⟩ := hinv.phased.good hs
    exact Method.enter_known hgood (hchan i s hs)
  · intro c i s v w hc hs
    have hknows := h c i
    rw [hc, hs] at hknows
    exact Visitor.step_known hknows
  · intro c i s d w hc hs
    exact (Driver.step_outcome (hinv.phased.held hs hc).2).known

/-- The invariant with what the waiting calls know. -/
structure Watched (first : Authority) (evs : List Step) (a : Authority) : Prop where
  inv : Inv first evs a
  channels : ∀ i s, a.sessions i = some s → Channels s
  aware : Aware Knowing evs a

theorem channels_new (lease : ImportLease) (owner : Nat) :
    Channels { lease := lease, ownerReference := owner } :=
  ⟨by simp, by simp, by simp⟩

theorem Watched.step (h : Watched first evs a) (op : Authority.Op) :
    Watched first (evs ++ [event step a op]) (a.step op).1 := by
  refine ⟨h.inv.step op, fun i s' hs' => ?_, aware_step h.aware h.inv h.channels op⟩
  cases hs : a.sessions i with
  | some s =>
    obtain ⟨s'', hs'', hch⟩ := h.inv.changed hs op
    rw [hs'] at hs''
    obtain rfl := Option.some.inj hs''
    exact (h.channels i s hs).changed hch
  | none =>
    obtain ⟨lease, owner, rfl⟩ := new_session hs hs'
    exact channels_new lease owner

theorem new_idle (hnew : newRetainedImportAuthority identity lastToken lastGeneration = .ok first) :
    (∀ i, first.sessions i = none) ∧ ∀ c, first.calls c = .idle := by
  unfold newRetainedImportAuthority at hnew
  split at hnew
  · simp at hnew
  obtain rfl := Except.ok.inj hnew
  exact ⟨fun _ => rfl, fun _ => rfl⟩

theorem watched_new
    (hnew : newRetainedImportAuthority identity lastToken lastGeneration = .ok first) :
    Watched first [] first := by
  refine ⟨inv_new hnew, fun i s hs => ?_, fun c i => ?_⟩
  · rw [(new_idle hnew).1 i] at hs
    simp at hs
  · rw [(new_idle hnew).2 c]
    exact Informed.of_all (by intro _ _; trivial) _

/-- Along a run a latched close stays latched, and a stored result stays
stored. -/
theorem Inv.latched_run (ops : List Authority.Op) : ∀ {evs : List Step} {a : Authority}
    {s : Session}, Inv first evs a → a.sessions i = some s →
    ∃ s', (final Authority.step a ops).sessions i = some s' ∧
      (s.closeStarted → s'.closeStarted ∧ s'.closeReason = s.closeReason) ∧
      (s.closeDone → s'.closeDone ∧ s'.closeResult = s.closeResult) := by
  induction ops with
  | nil => exact fun _ hs => ⟨_, hs, fun h => ⟨h, rfl⟩, fun h => ⟨h, rfl⟩⟩
  | cons op ops ih =>
    intro evs a s h hs
    obtain ⟨s₁, hs₁, hch⟩ := h.changed hs op
    obtain ⟨s₂, hs₂, hstarted, hdone⟩ := ih (h.step op) hs₁
    refine ⟨s₂, hs₂, fun h0 => ?_, fun h0 => ?_⟩
    · obtain ⟨h1, h2⟩ := hch.latched.1 h0
      exact ⟨(hstarted h1).1, (hstarted h1).2.trans h2⟩
    · obtain ⟨h1, h2⟩ := hch.latched.2 h0
      exact ⟨(hdone h1).1, (hdone h1).2.trans h2⟩

theorem returned_stands {op : Authority.Op} {c : Nat} {r : Return}
    (h : (a.step op).2 = .returned c r) : a.calls c = .done r := by
  have hturn := step_turn a op
  generalize a.step op = res at hturn h
  cases hturn with
  | returns c' w r' hc =>
    simp only [Note.returned.injEq] at h
    rw [← h.1, ← h.2]
    exact hc
  | moves _ c' pc note hold hnew hpc hvisit hnote =>
    rcases hnote with rfl | ⟨answer, rfl⟩ <;> simp at h
  | enters c' j t m w hc hm ht =>
    exact absurd h m.enter_visited.not_returned
  | visits c' j t v w hc ht =>
    exact absurd h v.step_visited.not_returned
  | drives c' j t d w hc ht => exact absurd h (d.step_not_returned c r)
  | _ => simp at h

/-- The result of a close which returned is the one stored in the session, then
and ever after. -/
theorem returned_close
    (hnew : newRetainedImportAuthority identity lastToken lastGeneration = .ok first)
    {ops : List Authority.Op} {e : Step} (he : e ∈ trace step first ops) {c : Nat}
    {result : ImportDisconnectResult} {err : Errors}
    (hout : e.out = .returned c (.close i reason result err)) (hstate : result.state ≠ .invalid) :
    ∃ s, (final step first ops).sessions i = some s ∧
      s.closeReason = reason ∧ s.closeResult = result := by
  obtain ⟨before, op, after, rfl, rfl⟩ := mem_trace he
  have hw := history_run (P := Watched first) (watched_new hnew) (fun _ _ op h => h.step op) before
  have hc := returned_stands hout
  have hknows := hw.aware c i
  rw [hc] at hknows
  cases hs : (final step first before).sessions i with
  | none =>
    -- a call knows nothing of a session which was never issued
    rw [hs] at hknows
    have hbad := (hknows { lease := {}, ownerReference := 0 } [] rfl hstate).1.1
    simp at hbad
  | some s =>
    rw [hs] at hknows
    obtain ⟨⟨hstarted, hreason⟩, hdone, hresult⟩ := hknows rfl hstate
    obtain ⟨s', hs', hstarted', hdone'⟩ := hw.inv.latched_run (op :: after) hs
    rw [final_append]
    exact ⟨s', hs', (hstarted' hstarted).2.trans hreason, (hdone' hdone).2.trans hresult⟩

/-- **The owner's callbacks are made at most once and in order.**  After any run
the story of every session is orderly: one bind, one drain and one disconnect at
most, the disconnect right after a successful fence, ingress close, scheduler
close and exact drain for the same reason.  A close reason once accepted stays,
and any two closes of one session which returned a terminal result returned the
same one, for the same reason. -/
theorem callbacks_in_order {identity lastToken lastGeneration : UInt64}
    (hnew : newRetainedImportAuthority identity lastToken lastGeneration = .ok first)
    (ops : List Authority.Op) :
    (∀ i s, (final Authority.step first ops).sessions i = some s →
      Orderly s.lease (story i (trace Authority.step first ops))) ∧
    (∀ i s, (final Authority.step first ops).sessions i = some s →
      s.closeStarted → ∀ more, ∃ s',
        (final Authority.step first (ops ++ more)).sessions i = some s' ∧
        s'.closeStarted ∧ s'.closeReason = s.closeReason) ∧
    (∀ i, ∀ e ∈ trace Authority.step first ops, ∀ e' ∈ trace Authority.step first ops,
      ∀ c c' reason reason' result result' err err',
      e.out = .returned c (.close i reason result err) →
      e'.out = .returned c' (.close i reason' result' err') →
      result.state ≠ .invalid → result'.state ≠ .invalid →
      reason = reason' ∧ result = result') := by
  refine ⟨fun i s hs => ?_, fun i s hs hstarted more => ?_, ?_⟩
  · obtain ⟨d, -, hgood⟩ := (inv_run (inv_new hnew) ops).phased.good hs
    exact hgood.orderly
  · obtain ⟨s', hs', hlatched, -⟩ := (inv_run (inv_new hnew) ops).latched_run more hs
    rw [final_append]
    exact ⟨s', hs', hlatched hstarted⟩
  · intro i e he e' he' c c' reason reason' result result' err err' hout hout' hst hst'
    obtain ⟨s, hs, hreason, hresult⟩ := returned_close hnew he hout hst
    obtain ⟨s', hs', hreason', hresult'⟩ := returned_close hnew he' hout' hst'
    rw [hs] at hs'
    obtain rfl := Option.some.inj hs'
    exact ⟨hreason.symm.trans hreason', hresult.symm.trans hresult'⟩

theorem closeRun_orderly : newRetainedImportAuthority 1 0 0 = .ok smallAuthority ∧
      Orderly smallLease (story 0 (trace Authority.step smallAuthority closeRun)) := by
  have hnew : newRetainedImportAuthority 1 0 0 = .ok smallAuthority := rfl
  have hmap : ((final step smallAuthority closeRun).sessions 0).map
      lease = some smallLease := by decide +kernel
  obtain ⟨s, hs, hlease⟩ := Option.map_eq_some_iff.1 hmap
  exact ⟨hnew, hlease ▸ (callbacks_in_order hnew closeRun).1 0 s hs⟩

end Viiper.Ports.ImportSession
