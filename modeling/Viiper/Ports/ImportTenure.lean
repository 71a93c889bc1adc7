import Viiper.Verified.Tenure
import Viiper.Ports.ImportStory

/-!
# The phases of an import session

At any time a session is at rest, or one goroutine drives it.  `Rest` and
`Driver.Held` say, for each resting state and for each point a driver can stand
at, which flags the session carries and which story has been told about it.
-/

namespace Viiper.Ports.ImportSession

open Effect

open Retained (ImportLease ImportResetLease)

/-- The transaction on session `i` which a goroutine owns. -/
def Pc.drives : Pc → Nat → Option Driver
  | .drive j d, i => if j = i then some d else none
  | _, _ => none

@[simp] theorem drives_drive (i : Nat) (d : Driver) : (Pc.drive i d).drives i = some d := by
  simp [Pc.drives]

/-- What the note of a step adds to a story. -/
def Note.told : Note → List Callback
  | .callback _ call => [call]
  | _ => []

attribute [simp] Effect.go Effect.free Effect.call Note.told Pc.drives

/-! ## The phases -/

/-- No close and no reset has touched the session. -/
def Unclaimed (s : Session) : Prop :=
  s.closeStarted = false ∧ s.closeDone = false ∧ s.activeReset = {}

/-- A session nobody drives. -/
def Rest (s : Session) (σ : List Callback) : Prop :=
  match s.state with
  | .reserved | .building | .prepared =>
    Unclaimed s ∧ s.quarantined = false ∧ s.released = false ∧ σ = []
  | .claimed =>
    s.closeDone = false ∧ s.activeReset = {} ∧ s.quarantined = false ∧
      s.released = false ∧ Committed s.lease σ
  | .reservationAborted | .bindRejected =>
    Unclaimed s ∧ s.quarantined = false ∧ s.released ∧ Orderly s.lease σ
  | .released =>
    (s.closeStarted ∧ s.closeDone ∧ s.activeReset = {}) ∧
      s.quarantined = false ∧ s.released ∧ Orderly s.lease σ
  | .quarantined =>
    (s.activeReset = {} ∧ s.closeDone = s.closeStarted) ∧ s.quarantined ∧
      s.released = false ∧ Orderly s.lease σ
  | _ => False

def AbortStage.Held (s : Session) (σ : List Callback) (stage : AbortStage) : Prop :=
  Unclaimed s ∧ s.state = .preparedAborting ∧ s.released = false ∧
  match stage with
  | .fence => s.quarantined = false ∧ σ = []
  | .close err =>
    s.quarantined = false ∧ ∃ a, σ = [.closeAdmission a] ∧ (err = [] → a = ok)
  | .store _ => s.quarantined = false ∧ Failing s.lease σ
  | .quarantine _ => s.quarantined ∧ Failing s.lease σ
  | .release => s.quarantined = false ∧ σ = [.closeAdmission ok, .schedulerClose ok]

/-- The story `cleanupUnpublished` starts from. -/
def Cleanup.Before (L : ImportLease) : Cleanup → List Callback → Prop
  | .rejected => Rejected L
  | .failed .. => Failing L

/-- The state and the quarantine flag while `cleanupUnpublished` runs. -/
def Cleanup.Marked (s : Session) : Cleanup → Prop
  | .rejected => s.state = .bindRejected ∧ s.quarantined = false
  | .failed .. => s.state = .quarantined ∧ s.quarantined

def CommitStage.Held (s : Session) (σ : List Callback) (stage : CommitStage) : Prop :=
  Unclaimed s ∧ s.released = false ∧
  match stage with
  | .authenticate => s.state = .committing ∧ s.quarantined = false ∧ σ = []
  | .bind =>
    s.state = .committing ∧ s.quarantined = false ∧ ∃ b, σ = [.importBinding b]
  | .activate =>
    s.state = .committing ∧ s.quarantined = false ∧
      ∃ b, σ = [.importBinding b, .bindImport s.lease (.returned ⟨s.lease, .bound⟩ [])]
  | .publish =>
    s.state = .committing ∧ s.quarantined = false ∧
      ∃ b, σ = [.importBinding b, .bindImport s.lease (.returned ⟨s.lease, .bound⟩ []),
        .activateImport ok]
  | .setRejected => s.state = .committing ∧ s.quarantined = false ∧ Rejected s.lease σ
  | .unpublishedFence next => next.Marked s ∧ next.Before s.lease σ
  | .unpublishedIngress next err => next.Marked s ∧ Fenced (next.Before s.lease) err σ
  | .unpublishedScheduler next err => next.Marked s ∧ Stopped (next.Before s.lease) err σ
  | .rollback =>
    s.state = .bindRejected ∧ s.quarantined = false ∧ TornDown (Rejected s.lease) σ
  | .rejectStore _ => s.state = .bindRejected ∧ s.quarantined = false ∧ Failing s.lease σ
  | .rejectQuarantine _ =>
    s.state = .bindRejected ∧ s.quarantined ∧ Failing s.lease σ
  | .failStore .. => s.state = .committing ∧ s.quarantined = false ∧ Failing s.lease σ
  | .failQuarantine .. => s.state = .committing ∧ s.quarantined ∧ Failing s.lease σ
  | .contain _ => s.state = .quarantined ∧ s.quarantined ∧ Failing s.lease σ
  | .drain _ =>
    s.state = .quarantined ∧ s.quarantined ∧ TornDown (Failing s.lease) σ
  | .disconnect _ =>
    s.state = .quarantined ∧ s.quarantined ∧
      Drained (Failing s.lease) σ s.lease .invariantFailure

def ResetStage.Held (s : Session) (σ : List Callback) (r : ImportResetLease)
    (stage : ResetStage) : Prop :=
  (s.state = .resetting ∧ s.activeReset = r ∧ r.valid ∧ s.resetDone ≠ none) ∧
  s.closeDone = false ∧ s.released = false ∧
  match stage with
  | .close _ => s.quarantined ∧ Committed s.lease σ
  | .contain _ => s.quarantined ∧ Failing s.lease σ
  | .quarantine _ => s.quarantined ∧ Orderly s.lease σ
  | _ => s.quarantined = false ∧ Committed s.lease σ

/-- The states `executeClose` goes through. -/
def LifecycleState.isClosing : LifecycleState → Bool
  | .closing | .ingressStopped | .schedulerClosed | .localDrained | .neutralized => true
  | _ => false

def CloseStage.Held (s : Session) (σ : List Callback) (reason : ImportCloseReason)
    (stage : CloseStage) : Prop :=
  (s.state.isClosing ∧ s.activeReset = {}) ∧
  (s.closeStarted ∧ s.closeReason = reason ∧ s.closeDone = false) ∧
  match stage with
  | .fence => s.quarantined = false ∧ s.released = false ∧ Committed s.lease σ
  | .ingress err =>
    s.quarantined = false ∧ s.released = false ∧ Fenced (Committed s.lease) err σ
  | .setIngressStopped err | .scheduler err =>
    s.quarantined = false ∧ s.released = false ∧ Stopped (Committed s.lease) err σ
  | .setSchedulerClosed | .drain =>
    s.quarantined = false ∧ s.released = false ∧ TornDown (Committed s.lease) σ
  | .contain _ => s.quarantined = false ∧ s.released = false ∧ Failing s.lease σ
  | .setLocalDrained | .disconnect =>
    s.quarantined = false ∧ s.released = false ∧ Drained (Committed s.lease) σ s.lease reason
  | .setNeutralized result =>
    result = ⟨s.lease, reason, .safe⟩ ∧ s.quarantined = false ∧ s.released = false ∧
      Neutral (Committed s.lease) σ s.lease reason
  | .releaseLook result | .releaseDelete result =>
    result = ⟨s.lease, reason, .safe⟩ ∧ s.state = .neutralized ∧
      s.quarantined = false ∧ s.released = false ∧
      Neutral (Committed s.lease) σ s.lease reason
  | .finishReleased result =>
    result = ⟨s.lease, reason, .safe⟩ ∧ s.quarantined = false ∧ s.released ∧
      Orderly s.lease σ
  | .store _ => s.quarantined = false ∧ s.released = false ∧ Orderly s.lease σ
  | .quarantine _ => s.quarantined ∧ s.released = false ∧ Orderly s.lease σ

def Driver.Held (s : Session) (σ : List Callback) : Driver → Prop
  | .abortPrepared stage => stage.Held s σ
  | .commit stage => stage.Held s σ
  | .reset r stage => stage.Held s σ r
  | .close reason stage => stage.Held s σ reason

/-- The phase of a session: at rest, or held by the driver `d`. -/
def Good (s : Session) (σ : List Callback) : Option Driver → Prop
  | none => Rest s σ
  | some d => d.Held s σ

/-! ## The steps of the driver -/

variable {s : Session} {σ : List Callback} {i : Nat} {w : World} {act : Bool} {pc : Pc}

theorem good_drive {d : Driver} (h : d.Held s σ) : Good s σ ((Pc.drive i d).drives i) := by
  rw [drives_drive]
  exact h

/-- The step `e` on a session with story `σ` leads to a phase. -/
def Effect.Leads (i : Nat) (σ : List Callback) (e : Effect) : Prop :=
  Good e.session (σ ++ e.note.told) (e.pc.drives i)

attribute [local simp] Effect.Leads Good

theorem leads_drive {d : Driver} (h : d.Held s σ) : (go (.drive i d) s).Leads i σ := by
  simpa using h

variable {r : ImportResetLease} {reason : ImportCloseReason} {err : Errors} {d : Option Driver}
  {lease : ImportLease} {x : Callback} {s' : Session} {identity : Nat}

theorem leads_drive_call {d : Driver} (h : d.Held s (σ ++ [x])) :
    (call i x (.drive i d) s).Leads i σ := by
  simpa using h

theorem leads_done {r : Return} (h : Rest s σ) : (go (.done r) s).Leads i σ := by
  simpa using h

theorem leads_free {r : Return} (h : Rest s σ) : (free (.done r) s).Leads i σ := by
  simpa using h

theorem leads_free_drive {d : Driver} (h : d.Held s σ) : (free (.drive i d) s).Leads i σ := by
  simpa using h

theorem leads_settled {ret : Return} {result : ImportResetResult} (h : Rest s σ) :
    (mk (.done ret) s false (.settled i r result err)).Leads i σ := by
  simpa using h

theorem leads_done_call {r : Return} (h : Rest s (σ ++ [x])) :
    (call i x (.done r) s).Leads i σ := by
  simpa using h

/-- The two callbacks of an abort. -/
theorem failing_closed (a b : Answer Unit) :
    Failing s.lease [.closeAdmission a, .schedulerClose b] := by
  have h : Failing s.lease [.closeAdmission a] := failing_nil.plain ⟨rfl, rfl, rfl⟩
  exact h.plain ⟨rfl, rfl, rfl⟩

theorem AbortStage.step_leads {stage : AbortStage} (h : stage.Held s σ)
    (hact : act = !s.released) : (stage.step w act i s).Leads i σ := by
  obtain ⟨hun, hstate, hkept, h⟩ := h
  cases stage with
  | fence =>
    obtain ⟨hq, rfl⟩ := h
    exact leads_drive_call ⟨hun, hstate, hkept, hq, _, rfl, runVoidStep_eq_nil.1⟩
  | close err =>
    obtain ⟨hq, a, rfl, ha⟩ := h
    by_cases hnil : err ++ runVoidStep "close prepared scheduler" w.void = []
    · simp only [AbortStage.step, if_pos hnil]
      obtain ⟨herr, hvoid⟩ := List.append_eq_nil_iff.1 hnil
      rw [ha herr, runVoidStep_eq_nil.1 hvoid]
      exact leads_drive_call ⟨hun, hstate, hkept, hq, rfl⟩
    · simp only [AbortStage.step, if_neg hnil]
      exact leads_drive_call ⟨hun, hstate, hkept, hq, failing_closed a _⟩
  | store err => exact leads_drive ⟨hun, hstate, hkept, rfl, h.2⟩
  | quarantine err =>
    refine leads_done ?_
    exact ⟨⟨hun.2.2, by simp [hun.1, hun.2.1]⟩, h.1, hkept, h.2.1⟩
  | release =>
    obtain ⟨hq, rfl⟩ := h
    simp only [AbortStage.step, hact, hkept, hstate]
    exact leads_free ⟨hun, hq, rfl, (failing_closed ok ok).1⟩

section Committing

variable (hun : Unclaimed s) (hkept : s.released = false) (hstate : s.state = .committing)
  (hq : s.quarantined = false)

include hun hkept hstate hq

/-- A callback which leaves a story that may still fail, and the commit
failing with it. -/
theorem leads_failCommit {stage : String} {cause : Errors} {bound : Bool}
    (h : Failing s.lease (σ ++ [x])) : (call i x (failCommit i stage cause bound) s).Leads i σ :=
  leads_drive_call (d := .commit _) ⟨hun, hkept, hstate, hq, h⟩

theorem leads_afterBinding :
    (call i (.importBinding w.binding) (afterBinding i s w.binding) s).Leads i [] := by
  simp only [afterBinding]
  split
  · exact leads_drive_call (d := .commit .bind) ⟨hun, hkept, hstate, hq, _, rfl⟩
  · exact leads_failCommit hun hkept hstate hq (failing_nil.plain ⟨rfl, rfl, rfl⟩)

theorem leads_afterBind {b : Answer SchedulerBinding} :
    (call i (.bindImport s.lease w.bind) (afterBind i s.lease w.bind) s).Leads i
      [.importBinding b] := by
  have hfail := failing_bind (L := s.lease) b w.bind
  simp only [afterBind]
  split
  next hbound =>
    obtain ⟨v, hv⟩ := invoke_snd_eq_nil.1 hbound.1
    rw [hv] at hbound ⊢
    obtain rfl : v = ⟨s.lease, .bound⟩ := hbound.2
    exact leads_drive_call (d := .commit .activate) ⟨hun, hkept, hstate, hq, b, rfl⟩
  split
  next _ hrejected =>
    obtain ⟨v, hv⟩ := invoke_snd_eq_nil.1 hrejected.1
    rw [hv] at hrejected ⊢
    obtain rfl : v = ⟨s.lease, .rejected⟩ := hrejected.2
    exact leads_drive_call (d := .commit .setRejected) ⟨hun, hkept, hstate, hq, b, rfl⟩
  · exact leads_failCommit hun hkept hstate hq hfail

theorem leads_publishClaimed (hσ : ∃ b, σ = [.importBinding b,
      .bindImport s.lease (.returned ⟨s.lease, .bound⟩ []), .activateImport ok]) :
    (publishClaimed w i s).Leads i σ := by
  have hfail : Failing s.lease σ := by
    obtain ⟨b, rfl⟩ := hσ
    exact (failing_bind b _).plain (x := .activateImport ok) ⟨rfl, rfl, rfl⟩
  unfold publishClaimed
  split
  · exact leads_drive (d := .commit _) ⟨hun, hkept, hstate, hq, hfail⟩
  simp only
  split
  next _ hnil =>
    have hvoid : w.void = ok := invokeGuarded_eq_nil.1 (provided_eq_nil.1 hnil).1
    obtain ⟨b, rfl⟩ := hσ
    rw [hvoid]
    exact leads_done_call ⟨hun.2.1, hun.2.2, hq, hkept, b, rfl⟩
  · have hfail' : Failing s.lease (σ ++ [.openAdmission w.void]) :=
      hfail.plain ⟨rfl, rfl, rfl⟩
    exact leads_failCommit hun hkept hstate hq hfail'

theorem leads_activate
    (hσ : ∃ b, σ = [.importBinding b, .bindImport s.lease (.returned ⟨s.lease, .bound⟩ [])]) :
    (CommitStage.activate.step w act i s).Leads i σ := by
  have hfail : Failing s.lease σ := by
    obtain ⟨b, rfl⟩ := hσ
    exact failing_bind b _
  simp only [CommitStage.step]
  split
  next hnil =>
    have hvoid : w.void = ok := invokeGuarded_eq_nil.1 (provided_eq_nil.1 hnil).1
    obtain ⟨b, rfl⟩ := hσ
    rw [hvoid]
    exact leads_drive_call (d := .commit .publish) ⟨hun, hkept, hstate, hq, b, rfl⟩
  · have hfail' : Failing s.lease (σ ++ [.activateImport w.void]) :=
      hfail.plain ⟨rfl, rfl, rfl⟩
    exact leads_failCommit hun hkept hstate hq hfail'

end Committing

/-- What follows `cleanupUnpublished` holds the session, once the three
callbacks are told. -/
theorem afterUnpublished_good {next : Cleanup} (hun : Unclaimed s) (hkept : s.released = false)
    (hmark : next.Marked s) (hfail : Failing s.lease σ)
    (hdown : err = [] → TornDown (next.Before s.lease) σ) :
    Good s σ ((afterUnpublished i next err).drives i) := by
  cases next with
  | rejected =>
    cases err with
    | nil => exact good_drive ⟨hun, hkept, hmark.1, hmark.2, hdown rfl⟩
    | cons e err => exact good_drive ⟨hun, hkept, hmark.1, hmark.2, hfail⟩
  | failed bound failure =>
    cases bound with
    | false =>
      show Rest s σ
      simp only [Rest, hmark.1]
      exact ⟨⟨hun.2.2, by rw [hun.1, hun.2.1]⟩, hmark.2, hkept, hfail.1⟩
    | true =>
      cases err with
      | nil => exact good_drive ⟨hun, hkept, hmark.1, hmark.2, hdown rfl⟩
      | cons e err => exact good_drive ⟨hun, hkept, hmark.1, hmark.2, hfail⟩

theorem Cleanup.before_failing {L : ImportLease} (next : Cleanup) (σ : List Callback)
    (h : next.Before L σ) : Failing L σ := by
  cases next with
  | rejected => exact Rejected.failing h
  | failed => exact h

/-- A drained owner which is not disconnected leaves the session quarantined. -/
theorem rest_quarantined {r : Return} (hun : Unclaimed s) (hkept : s.released = false)
    (hstate : s.state = .quarantined) (hq : s.quarantined) (h : Orderly s.lease (σ ++ [x])) :
    (call i x (.done r) s).Leads i σ := by
  apply leads_done_call
  simp only [Rest, hstate]
  exact ⟨⟨hun.2.2, by rw [hun.1, hun.2.1]⟩, hq, hkept, h⟩

theorem leads_afterBoundDrain {failure : Errors} (hun : Unclaimed s)
    (hkept : s.released = false) (hstate : s.state = .quarantined)
    (hq : s.quarantined) (hσ : TornDown (Failing s.lease) σ) :
    (call i (.cancelAndDrain s.lease .invariantFailure w.drain)
      (afterBoundDrain i s.lease failure w.drain) s).Leads i σ := by
  have horderly : ∀ answer, Orderly s.lease
      (σ ++ [.cancelAndDrain s.lease .invariantFailure answer]) :=
    fun _ => (hσ.failing fun _ h => h).drain
  simp only [afterBoundDrain]
  split
  · exact rest_quarantined hun hkept hstate hq (horderly _)
  split
  · exact rest_quarantined hun hkept hstate hq (horderly _)
  rename_i hstate' hnil
  rw [drain_exact hstate' (not_not.1 hnil)]
  exact leads_drive_call (d := .commit (.disconnect failure)) ⟨hun, hkept, hstate, hq, hσ.drain⟩

theorem CommitStage.step_leads {stage : CommitStage} (h : stage.Held s σ)
    (hact : act = !s.released) : (stage.step w act i s).Leads i σ := by
  obtain ⟨hun, hkept, h⟩ := h
  cases stage with
  | authenticate =>
    obtain ⟨hstate, hq, rfl⟩ := h
    exact leads_afterBinding hun hkept hstate hq
  | bind =>
    obtain ⟨hstate, hq, b, rfl⟩ := h
    exact leads_afterBind hun hkept hstate hq
  | activate => exact leads_activate hun hkept h.1 h.2.1 h.2.2
  | publish => exact leads_publishClaimed hun hkept h.1 h.2.1 h.2.2
  | setRejected =>
    exact leads_drive (d := .commit (.unpublishedFence .rejected)) ⟨hun, hkept, ⟨rfl, h.2.1⟩, h.2.2⟩
  | unpublishedFence next =>
    have hfail := next.before_failing σ h.2
    simp only [CommitStage.step]
    split
    · have hgood : Good s σ ((afterUnpublished i next [.invalid]).drives i) :=
        afterUnpublished_good hun hkept h.1 hfail (by simp)
      simpa using hgood
    · exact leads_drive_call (d := .commit (.unpublishedIngress next _))
        ⟨hun, hkept, h.1, fenced_of h.2 runVoidStep_eq_nil.1⟩
  | unpublishedIngress next err =>
    refine leads_drive_call (d := .commit (.unpublishedScheduler next _))
      ⟨hun, hkept, h.1, h.2.ingress fun hnil => ?_⟩
    exact ⟨(List.append_eq_nil_iff.1 hnil).1,
      runVoidStep_eq_nil.1 (List.append_eq_nil_iff.1 hnil).2⟩
  | unpublishedScheduler next err =>
    have hfail : Failing s.lease (σ ++ [.schedulerClose w.void]) :=
      (h.2.failing next.before_failing).plain ⟨rfl, rfl, rfl⟩
    refine afterUnpublished_good (σ := σ ++ [.schedulerClose w.void]) hun hkept h.1
      hfail fun hnil => ?_
    obtain ⟨herr, hvoid⟩ := List.append_eq_nil_iff.1 hnil
    rw [runVoidStep_eq_nil.1 hvoid]
    exact h.2.scheduler herr
  | rollback =>
    obtain ⟨hstate, hq, hσ⟩ := h
    have hdown := (hσ.failing fun _ => Rejected.failing).1
    simp only [CommitStage.step, hact, hkept]
    refine leads_free ?_
    simp only [Rest, hstate]
    exact ⟨hun, hq, trivial, hdown⟩
  | rejectStore err =>
    exact leads_drive (d := .commit (.rejectQuarantine err)) ⟨hun, hkept, h.1, rfl, h.2.2⟩
  | rejectQuarantine err =>
    exact leads_done ⟨⟨hun.2.2, by simp [hun.1, hun.2.1]⟩, h.2.1, hkept, h.2.2.1⟩
  | failStore bound failure =>
    exact leads_drive (d := .commit (.failQuarantine bound failure)) ⟨hun, hkept, h.1, rfl, h.2.2⟩
  | failQuarantine bound failure =>
    exact leads_drive (d := .commit (.unpublishedFence (.failed bound failure)))
      ⟨hun, hkept, ⟨rfl, h.2.1⟩, h.2.2⟩
  | contain err => exact rest_quarantined hun hkept h.1 h.2.1 h.2.2.drain
  | drain failure => exact leads_afterBoundDrain hun hkept h.1 h.2.1 h.2.2
  | disconnect failure =>
    exact rest_quarantined hun hkept h.1 h.2.1 (h.2.2.orderly_disconnect (fun _ h => h) _)

/-- A callback of the reset says nothing about the import's own lifecycle. -/
theorem leads_resetThen {x : ResetCallback} {next : ResetStage} (hnext : next.Held s σ r)
    (hfail : (ResetStage.revoke err).Held s σ r) :
    (resetCall i r x (resetThen i r err next) s).Leads i σ := by
  have hgood : Good s σ ((resetThen i r err next).drives i) := by
    unfold resetThen
    split
    · exact good_drive hnext
    · exact good_drive hfail
  simpa [resetCall] using hgood

theorem leads_finishReset (h : ResetStage.finish.Held s σ r) : (finishReset i s r).Leads i σ := by
  obtain ⟨⟨hstate, hr, hvalid, hdone⟩, hopen, hkept, hq, hσ⟩ := h
  unfold finishReset
  cases hchan : s.resetDone with
  | none => exact absurd hchan hdone
  | some k =>
    simp only [hstate, hr, ne_eq, not_true_eq_false, or_self, if_false]
    exact leads_settled ⟨hopen, rfl, hq, hkept, hσ⟩

theorem leads_finishResetQuarantined (h : (ResetStage.quarantine err).Held s σ r) :
    (finishResetQuarantined i s r err).Leads i σ := by
  obtain ⟨-, hopen, hkept, hq, hσ⟩ := h
  have hrest : Rest (finishResetQuarantined i s r err).session σ := by
    cases hstarted : s.closeStarted <;>
      simp [finishResetQuarantined, Rest, hstarted, hopen, hkept, hq, hσ]
  exact leads_settled hrest

theorem ResetStage.step_leads {stage : ResetStage}
    (h : stage.Held s σ r) : (stage.step w i s r).Leads i σ := by
  cases stage with
  | finish => exact leads_finishReset h
  | revoke cause =>
    obtain ⟨hreset, hopen, hkept, -, hσ⟩ := h
    exact leads_drive (d := .reset r (.close cause)) ⟨hreset, hopen, hkept, rfl, hσ⟩
  | close cause =>
    obtain ⟨hreset, hopen, hkept, hq, hσ⟩ := h
    exact leads_drive_call (d := .reset r (.contain _))
      ⟨hreset, hopen, hkept, hq, hσ.failing.plain ⟨rfl, rfl, rfl⟩⟩
  | contain err =>
    obtain ⟨hreset, hopen, hkept, hq, hσ⟩ := h
    exact leads_drive_call (d := .reset r (.quarantine _)) ⟨hreset, hopen, hkept, hq, hσ.drain⟩
  | quarantine err => exact leads_finishResetQuarantined h
  | _ => exact leads_resetThen h h

theorem CloseStage.step_leads {stage : CloseStage} (h : stage.Held s σ reason)
    (hact : act = !s.released) : (stage.step w act i s reason).Leads i σ := by
  obtain ⟨hmine, hclose, h⟩ := h
  have hreset := hmine.2
  cases stage with
  | fence =>
    exact leads_drive_call (d := .close reason (.ingress _))
      ⟨hmine, hclose, h.1, h.2.1, fenced_of h.2.2 runVoidStep_eq_nil.1⟩
  | ingress err =>
    simp only [CloseStage.step]
    split
    next hnil =>
      exact leads_drive_call (d := .close reason (.setIngressStopped err))
        ⟨hmine, hclose, h.1, h.2.1, h.2.2.ingress fun herr => ⟨herr, runVoidStep_eq_nil.1 hnil⟩⟩
    · exact leads_drive_call (d := .close reason (.scheduler _))
        ⟨hmine, hclose, h.1, h.2.1, h.2.2.ingress fun herr =>
          ⟨(List.append_eq_nil_iff.1 herr).1,
            runVoidStep_eq_nil.1 (List.append_eq_nil_iff.1 herr).2⟩⟩
  | setIngressStopped err =>
    exact leads_drive (d := .close reason (.scheduler err)) ⟨⟨rfl, hreset⟩, hclose, h⟩
  | scheduler err =>
    simp only [CloseStage.step]
    split
    next hnil =>
      obtain ⟨herr, hvoid⟩ := List.append_eq_nil_iff.1 hnil
      rw [runVoidStep_eq_nil.1 hvoid]
      exact leads_drive_call (d := .close reason .setSchedulerClosed)
        ⟨hmine, hclose, h.1, h.2.1, h.2.2.scheduler herr⟩
    · have hfail : Failing s.lease (σ ++ [.schedulerClose w.void]) :=
        (h.2.2.failing fun _ => Committed.failing).plain ⟨rfl, rfl, rfl⟩
      exact leads_drive_call (d := .close reason (.contain _))
        ⟨hmine, hclose, h.1, h.2.1, hfail⟩
  | setSchedulerClosed =>
    exact leads_drive (d := .close reason .drain) ⟨⟨rfl, hreset⟩, hclose, h⟩
  | contain err =>
    exact leads_drive_call (d := .close reason (.store _))
      ⟨hmine, hclose, h.1, h.2.1, h.2.2.drain⟩
  | drain =>
    simp only [CloseStage.step, closeThen]
    split
    next hnil =>
      rw [drainError_eq_nil.1 hnil]
      exact leads_drive_call (d := .close reason .setLocalDrained)
        ⟨hmine, hclose, h.1, h.2.1, h.2.2.drain⟩
    · exact leads_drive_call (d := .close reason (.store _))
        ⟨hmine, hclose, h.1, h.2.1, (h.2.2.failing fun _ => Committed.failing).drain⟩
  | setLocalDrained =>
    exact leads_drive (d := .close reason .disconnect) ⟨⟨rfl, hreset⟩, hclose, h⟩
  | disconnect =>
    simp only [CloseStage.step, closeThen]
    split
    next hnil =>
      rw [disconnectError_eq_nil.1 hnil]
      exact leads_drive_call (d := .close reason (.setNeutralized _))
        ⟨hmine, hclose, rfl, h.1, h.2.1, h.2.2.disconnect⟩
    · exact leads_drive_call (d := .close reason (.store _))
        ⟨hmine, hclose, h.1, h.2.1, h.2.2.orderly_disconnect (fun _ => Committed.failing) _⟩
  | setNeutralized result =>
    obtain ⟨hresult, hq, hkept, hσ⟩ := h
    exact leads_drive (d := .close reason (.releaseLook result))
      ⟨⟨rfl, hreset⟩, hclose, hresult, rfl, hq, hkept, hσ⟩
  | releaseLook result =>
    obtain ⟨hresult, hstate, hq, hkept, hσ⟩ := h
    simp only [CloseStage.step, hstate, hkept]
    exact leads_drive (d := .close reason (.releaseDelete result))
      ⟨hmine, hclose, hresult, hstate, hq, hkept, hσ⟩
  | releaseDelete result =>
    obtain ⟨hresult, hstate, hq, hkept, hσ⟩ := h
    have horderly := hσ.orderly fun _ => Committed.failing
    simp only [CloseStage.step, hact, hkept, Bool.not_false, if_true]
    exact leads_free_drive (d := .close reason (.finishReleased result))
      ⟨hmine, hclose, hresult, hq, rfl, horderly⟩
  | finishReleased result =>
    exact leads_done ⟨⟨hclose.1, rfl, hreset⟩, h.2.1, h.2.2.1, h.2.2.2⟩
  | store err =>
    exact leads_drive (d := .close reason (.quarantine err))
      ⟨hmine, hclose, rfl, h.2.1, h.2.2⟩
  | quarantine err =>
    exact leads_done ⟨⟨hreset, by simp [hclose.1]⟩, h.1, h.2.1, h.2.2⟩

/-- **A step of the driver** leads to a session at rest, or held at the
driver's next point. -/
theorem Driver.step_good {d : Driver} (h : d.Held s σ) (hact : act = !s.released) :
    (d.step w act i s).Leads i σ := by
  cases d with
  | abortPrepared stage => exact AbortStage.step_leads h hact
  | commit stage => exact CommitStage.step_leads h hact
  | reset r stage => exact ResetStage.step_leads h
  | close reason stage => exact CloseStage.step_leads h hact

/-! ## The steps of a visitor -/

/-- The states in which a call can take a session over. -/
def LifecycleState.isFree : LifecycleState → Bool
  | .reserved | .building | .prepared | .claimed => true
  | _ => false

attribute [local simp] LifecycleState.isFree

theorem CommitStage.Held.busy {stage : CommitStage} (h : stage.Held s σ) :
    s.state.isFree = false ∧ s.state ≠ .resetting := by
  obtain ⟨-, -, h⟩ := h
  cases stage with
  | unpublishedFence next | unpublishedIngress next | unpublishedScheduler next =>
    cases next <;> simp [h.1.1]
  | _ => simp [h.1]

theorem Driver.Held.busy {d : Driver} (h : d.Held s σ) : s.state.isFree = false := by
  cases d with
  | abortPrepared stage => simp [h.2.1]
  | commit stage => exact (CommitStage.Held.busy h).1
  | reset r stage => simp [h.1.1]
  | close reason stage =>
    have hclosing := h.1.1
    revert hclosing
    cases s.state <;> simp [LifecycleState.isClosing]

/-- Everything a call can do to a session it does not drive. -/
inductive Visited (i : Nat) (s : Session) (act : Bool) : Effect → Prop
  | looks (pc : Pc) (hpc : ∀ j, pc.drives j = none) : Visited i s act (.go pc s)
  | beginsBuild (hstate : s.state = .reserved) :
      Visited i s act (.go (.done (.error i [])) { s with state := .building })
  | finishesBuild (scheduler : Option Nat) (hstate : s.state = .building) :
      Visited i s act (.go (.done (.error i []))
        { s with scheduler := scheduler, state := .prepared })
  | failsBuild (hstate : s.state = .building) :
      Visited i s act (.go (.done (.error i [])) { s with state := .reserved })
  | aborts (hact : act) (hstate : s.state = .reserved) :
      Visited i s act (.free (.done (.error i []))
        { s with state := .reservationAborted, released := true })
  | cancels (hstate : s.state = .prepared) : Visited i s act (.go (.drive i (.abortPrepared .fence))
        { s with state := .preparedAborting, preparedAbortDone := some false })
  | commits (ingress : Option Nat) (hstate : s.state = .prepared) :
      Visited i s act (.go (.drive i (.commit .authenticate))
        { s with ingress := ingress, state := .committing })
  | resets (hstate : s.state = .claimed) (hopen : s.closeStarted = false)
      (hvalid : s.issuedReset.valid) :
      Visited i s act (.go (.drive i (.reset s.issuedReset .fence))
        { s with issuedReset := {}, activeReset := s.issuedReset,
                 resetDone := some s.resetChannels,
                 resetChannels := s.resetChannels + 1, state := .resetting })
  | latches (lease : ImportLease) (reason : ImportCloseReason)
      (hstate : s.state = .resetting) (hopen : s.closeStarted = false) :
      Visited i s act (.go (.visit i (.closeWait s.resetDone lease reason))
        { s with closeStarted := true, closeReason := reason })
  | resumes (hstate : s.state = .claimed) (hstarted : s.closeStarted) :
      Visited i s act (.go (.drive i (.close s.closeReason .fence)) { s with state := .closing })
  | closes (reason : ImportCloseReason) (hstate : s.state = .claimed)
      (hopen : s.closeStarted = false) :
      Visited i s act (.go (.drive i (.close reason .fence))
        { s with closeStarted := true, closeReason := reason, state := .closing })

theorem visited_done {ret : Return} : Visited i s act (.go (.done ret) s) :=
  .looks _ fun _ => rfl

theorem visited_visit {v : Visitor} : Visited i s act (.go (.visit i v) s) :=
  .looks _ fun _ => rfl

theorem visited_closeAfterReset {result : ImportResetResult} :
    Visited i s act (.go (closeAfterReset i lease reason result err) s) := by
  unfold closeAfterReset
  split
  · exact .looks _ fun _ => rfl
  split
  · exact visited_done
  · exact visited_done

theorem Visitor.step_visited (v : Visitor) : Visited i s act (v.step w act i s) := by
  cases v with
  | preparedSecond =>
    simp only [Visitor.step]
    split
    · exact visited_done
    split
    · exact visited_done
    split
    · exact visited_done
    split
    · exact visited_visit
    split
    · exact visited_done
    next hprepared =>
      simp only [not_or, not_not] at hprepared
      exact .cancels hprepared.1
  | preparedWait | closeAwait =>
    simp only [Visitor.step]
    split
    · exact visited_done
    split
    · exact visited_done
    · exact visited_visit
  | resetWait done r =>
    simp only [Visitor.step]
    split
    · exact visited_visit
    · exact visited_done
  | closeWait done lease reason =>
    simp only [Visitor.step]
    split
    · exact visited_visit
    · exact visited_closeAfterReset

theorem visited_exactSection {expected : Bool}
    (h : expected → Visited i s act (.go (.done (.error i [])) s')) :
    Visited i s act (exactSection act i s expected s') := by
  unfold exactSection
  split
  next hok => exact h hok.2.2
  · exact visited_done

theorem beginReset_visited : Visited i s act (beginReset identity w i s r) := by
  simp only [beginReset]
  split
  · exact visited_done
  rename_i hvalid
  split
  · exact visited_done
  split
  · exact visited_done
  split
  · split
    · exact visited_done
    · exact visited_visit
  split
  · exact visited_done
  rename_i hclaimed
  split
  · exact visited_done
  simp only [not_or, not_not, Bool.not_eq_true, Bool.not_eq_true',
    Bool.not_eq_false] at hvalid hclaimed
  obtain ⟨hstate, hopen, -, -, rfl⟩ := hclaimed
  exact .resets hstate hopen hvalid.1

theorem beginClose_visited : Visited i s act (beginClose identity w i s lease reason) := by
  simp only [beginClose]
  split
  · exact visited_done
  split
  next hreset =>
    split
    · split
      · exact visited_done
      · exact visited_visit
    rename_i hopen
    split
    · exact visited_done
    · exact .latches lease reason hreset.1 (by simpa using hopen)
  split
  next hstarted =>
    split
    · exact visited_done
    rename_i hreason
    split
    next hstate =>
      split
      · exact visited_done
      · obtain rfl := not_not.1 hreason
        exact .resumes hstate hstarted
    · exact visited_visit
  rename_i hopen
  split
  · exact visited_done
  rename_i hstate
  split
  · exact visited_done
  · exact .closes reason (not_not.1 hstate) (by simpa using hopen)

theorem Method.enter_visited (m : Method) : Visited i s act (m.enter identity w act i s) := by
  cases m with
  | reserve | issueReset => exact .looks _ fun _ => rfl
  | beginParkedSchedulerBuild j =>
    refine visited_exactSection fun h => .beginsBuild ?_
    simp only [Bool.and_eq_true, beq_iff_eq] at h
    exact h.1
  | finishParkedSchedulerBuild j scheduler =>
    refine visited_exactSection fun h => .finishesBuild scheduler ?_
    simp only [Bool.and_eq_true, beq_iff_eq] at h
    exact h.1.2
  | failParkedSchedulerBuild j =>
    refine visited_exactSection fun h => .failsBuild ?_
    simp only [Bool.and_eq_true, beq_iff_eq] at h
    exact h.1
  | abort j =>
    simp only [Method.enter, ImportSession.abort]
    split
    · exact visited_done
    split
    · exact visited_done
    split
    · exact visited_done
    next h =>
      simp only [not_or, not_not, Bool.not_eq_true', Bool.not_eq_false] at h
      exact .aborts h.1 h.2
  | abortPrepared j =>
    simp only [Method.enter, ImportSession.abortPrepared]
    split
    · exact visited_done
    split
    · exact visited_done
    split
    · exact visited_visit
    · exact visited_visit
  | commit j ingress scheduler =>
    simp only [Method.enter, beginCommit]
    split
    · exact visited_done
    split
    · exact visited_done
    next h =>
      simp only [not_or, not_not] at h
      exact .commits ingress h.2.2.1
  | reset j r => exact beginReset_visited
  | close j lease reason => exact beginClose_visited

/-- A session in a state which can be taken over is at rest. -/
theorem Good.vacant (h : Good s σ d) {st : LifecycleState} (hstate : s.state = st)
    (hfree : st.isFree) : d = none := by
  subst hstate
  cases d with
  | none => rfl
  | some d => rw [Driver.Held.busy h] at hfree; simp at hfree

theorem Good.reset_holds (h : Good s σ d)
    (hstate : s.state = .resetting) : ∃ r stage, d = some (.reset r stage) := by
  cases d with
  | none => simp [Rest, hstate] at h
  | some d =>
    cases d with
    | abortPrepared stage => simp [h.2.1] at hstate
    | commit stage => exact absurd hstate (CommitStage.Held.busy h).2
    | reset r stage => exact ⟨r, stage, rfl⟩
    | close reason stage =>
      have hclosing := h.1.1
      simp [hstate, LifecycleState.isClosing] at hclosing

theorem Good.resetting (h : Good s σ d) (hstate : s.state = .resetting) : s.resetDone ≠ none := by
  obtain ⟨r, stage, rfl⟩ := h.reset_holds hstate
  exact h.1.2.2.2

/-- A reset in progress does not read the latched close. -/
theorem Good.latch (h : Good s σ d) (hstate : s.state = .resetting) :
    Good { s with closeStarted := true, closeReason := reason } σ d := by
  obtain ⟨r, stage, rfl⟩ := h.reset_holds hstate
  cases stage <;> exact h

/-- **A call which does not drive the session** leaves its phase alone, or
takes over a session at rest. -/
theorem Visited.good {e : Effect} (h : Visited i s act e) (hgood : Good s σ d) :
    (e.pc.drives i = none ∧ Good e.session (σ ++ e.note.told) d) ∨ (d = none ∧ e.Leads i σ) := by
  cases h with
  | looks pc hpc => exact .inl ⟨hpc i, by simpa using hgood⟩
  | beginsBuild hstate | finishesBuild _ hstate | failsBuild hstate =>
    obtain rfl := hgood.vacant hstate rfl
    simp only [Good, Rest, hstate] at hgood
    exact .inr ⟨rfl, leads_done hgood⟩
  | aborts hact hstate =>
    obtain rfl := hgood.vacant hstate rfl
    simp only [Good, Rest, hstate] at hgood
    obtain ⟨hun, hq, -, rfl⟩ := hgood
    exact .inr ⟨rfl, leads_free ⟨hun, hq, rfl, orderly_nil⟩⟩
  | cancels hstate =>
    obtain rfl := hgood.vacant hstate rfl
    simp only [Good, Rest, hstate] at hgood
    obtain ⟨hun, hq, hkept, hσ⟩ := hgood
    exact .inr ⟨rfl, leads_drive (d := .abortPrepared .fence) ⟨hun, rfl, hkept, hq, hσ⟩⟩
  | commits ingress hstate =>
    obtain rfl := hgood.vacant hstate rfl
    simp only [Good, Rest, hstate] at hgood
    obtain ⟨hun, hq, hkept, hσ⟩ := hgood
    exact .inr ⟨rfl, leads_drive (d := .commit .authenticate) ⟨hun, hkept, rfl, hq, hσ⟩⟩
  | resets hstate hopen hvalid =>
    obtain rfl := hgood.vacant hstate rfl
    simp only [Good, Rest, hstate] at hgood
    obtain ⟨hdone, -, hq, hkept, hσ⟩ := hgood
    exact .inr ⟨rfl, leads_drive (d := .reset s.issuedReset .fence)
      ⟨⟨rfl, rfl, hvalid, by simp⟩, hdone, hkept, hq, hσ⟩⟩
  | latches lease reason hstate hopen =>
    exact .inl ⟨rfl, by simpa using hgood.latch hstate⟩
  | resumes hstate hstarted =>
    obtain rfl := hgood.vacant hstate rfl
    simp only [Good, Rest, hstate] at hgood
    obtain ⟨hdone, hreset, hq, hkept, hσ⟩ := hgood
    exact .inr ⟨rfl, leads_drive (d := .close s.closeReason .fence)
      ⟨⟨rfl, hreset⟩, ⟨hstarted, rfl, hdone⟩, hq, hkept, hσ⟩⟩
  | closes reason hstate hopen =>
    obtain rfl := hgood.vacant hstate rfl
    simp only [Good, Rest, hstate] at hgood
    obtain ⟨hdone, hreset, hq, hkept, hσ⟩ := hgood
    exact .inr ⟨rfl, leads_drive (d := .close reason .fence)
      ⟨⟨rfl, hreset⟩, ⟨rfl, rfl, hdone⟩, hq, hkept, hσ⟩⟩

/-! ## What a step leaves alone -/

/-- The point drives no session but `i`. -/
def Pc.Local (i : Nat) (pc : Pc) : Prop := ∀ j, j ≠ i → pc.drives j = none

@[simp] theorem local_drive (d : Driver) : (Pc.drive i d).Local i := by
  intro j hj
  simp [hj.symm]

theorem local_of_none (h : ∀ j, pc.drives j = none) : pc.Local i := fun j _ => h j

@[simp] theorem local_done (r : Return) : (Pc.done r).Local i := local_of_none fun _ => rfl

@[simp] theorem local_failCommit {stage : String} {cause : Errors} {bound : Bool} :
    (failCommit i stage cause bound).Local i := local_drive _

@[simp] theorem local_afterBinding {answer : Answer SchedulerBinding} :
    (afterBinding i s answer).Local i := by
  simp only [afterBinding]
  split <;> simp

@[simp] theorem local_afterBind {answer : Answer ImportBindResult} :
    (afterBind i lease answer).Local i := by
  simp only [afterBind]
  split
  · simp
  split <;> simp

@[simp] theorem local_afterUnpublished {next : Cleanup} :
    (afterUnpublished i next err).Local i := by
  unfold afterUnpublished
  split <;> simp

@[simp] theorem local_afterBoundDrain {failure : Errors} {answer : Answer ImportDrainResult} :
    (afterBoundDrain i lease failure answer).Local i := by
  simp only [afterBoundDrain]
  split
  · simp
  split <;> simp

/-- The note adds to no story but that of session `i`. -/
def Note.about (j : Nat) : Note → Option Callback
  | .callback i call => if i = j then some call else none
  | _ => none

/-- A step about session `i` keeps the lease of the session, frees the device
exactly when it releases the session, and is about no other session. -/
structure Keeps (i : Nat) (s : Session) (act : Bool) (e : Effect) : Prop where
  lease : e.session.lease = s.lease
  frees : e.frees → act ∧ e.session.released
  stays : e.frees = false → e.session.released = s.released
  sticky : s.quarantined → e.session.quarantined
  pc : e.pc.Local i
  told : (e.note.about i).toList = e.note.told
  silent : ∀ j, j ≠ i → e.note.about j = none

theorem keeps_go (hpc : pc.Local i) (hlease : s'.lease = s.lease)
    (hreleased : s'.released = s.released)
    (hsticky : s.quarantined → s'.quarantined) : Keeps i s act (.go pc s') :=
  ⟨hlease, fun h => by simp at h, fun _ => hreleased, hsticky, hpc, rfl, fun _ _ => rfl⟩

theorem keeps_call (hpc : pc.Local i) (hlease : s'.lease = s.lease)
    (hreleased : s'.released = s.released)
    (hsticky : s.quarantined → s'.quarantined) : Keeps i s act (.call i x pc s') :=
  ⟨hlease, fun h => by simp at h, fun _ => hreleased, hsticky, hpc, by simp [Note.about],
    fun j hj => by simp [Note.about, hj.symm]⟩

theorem keeps_resetCall {x : ResetCallback}
    {next : ResetStage} : Keeps i s act (.resetCall i r x (resetThen i r err next) s) :=
  ⟨rfl, fun h => by simp [resetCall] at h, fun _ => rfl, id, local_drive _, rfl, fun _ _ => rfl⟩

theorem keeps_free (hpc : pc.Local i) (hact : act) (hlease : s'.lease = s.lease)
    (hreleased : s'.released) (hsticky : s.quarantined → s'.quarantined) :
    Keeps i s act (.free pc s') :=
  ⟨hlease, fun _ => ⟨hact, hreleased⟩, fun h => by simp at h, hsticky, hpc, rfl, fun _ _ => rfl⟩

theorem AbortStage.step_keeps (stage : AbortStage) : Keeps i s act (stage.step w act i s) := by
  cases stage with
  | fence | close => exact keeps_call (by simp) rfl rfl id
  | store err => exact keeps_go (by simp) rfl rfl fun _ => rfl
  | quarantine err => exact keeps_go (by simp) rfl rfl id
  | release =>
    simp only [AbortStage.step]
    split
    · exact keeps_go (by simp) rfl rfl fun _ => rfl
    exact keeps_free (by simp) (by cases act <;> simp_all) rfl rfl id

theorem CommitStage.step_keeps (stage : CommitStage) : Keeps i s act (stage.step w act i s) := by
  cases stage with
  | authenticate | bind | unpublishedIngress | unpublishedScheduler | contain | drain
  | disconnect => exact keeps_call (by simp) rfl rfl id
  | activate => exact keeps_call (by split <;> simp) rfl rfl id
  | publish =>
    simp only [CommitStage.step, publishClaimed]
    split
    · exact keeps_go (by simp) rfl rfl id
    split
    · exact keeps_call (by simp) rfl rfl id
    · exact keeps_call (by simp) rfl rfl id
  | unpublishedFence next =>
    simp only [CommitStage.step]
    split
    · exact keeps_go (by simp) rfl rfl id
    · exact keeps_call (by simp) rfl rfl id
  | rejectStore | failStore => exact keeps_go (by simp) rfl rfl fun _ => rfl
  | rollback =>
    simp only [CommitStage.step]
    split
    next hact => exact keeps_free (by simp) hact rfl rfl id
    · exact keeps_go (by simp) rfl rfl id
  | _ => exact keeps_go (by simp) rfl rfl id

theorem ResetStage.step_keeps (stage : ResetStage) : Keeps i s act (stage.step w i s r) := by
  cases stage with
  | finish =>
    simp only [ResetStage.step, finishReset]
    split
    · exact keeps_go (by simp) rfl rfl id
    split
    · exact keeps_go (by simp) rfl rfl id
    · exact ⟨rfl, fun h => by simp at h, fun _ => rfl, id, local_done _, rfl, fun _ _ => rfl⟩
  | revoke cause => exact keeps_go (by simp) rfl rfl fun _ => rfl
  | close | contain => exact keeps_call (by simp) rfl rfl id
  | quarantine err =>
    refine ⟨?_, fun h => by simp [ResetStage.step, finishResetQuarantined] at h, fun _ => ?_,
      fun h => ?_, local_done _, rfl, fun _ _ => rfl⟩ <;>
      cases hstarted : s.closeStarted <;>
      simp_all [ResetStage.step, finishResetQuarantined]
  | _ => exact keeps_resetCall

theorem CloseStage.step_keeps (stage : CloseStage) :
    Keeps i s act (stage.step w act i s reason) := by
  cases stage with
  | fence | ingress | scheduler | contain => exact keeps_call (by simp) rfl rfl id
  | drain | disconnect => exact keeps_call (local_drive _) rfl rfl id
  | store err => exact keeps_go (by simp) rfl rfl fun _ => rfl
  | releaseLook result =>
    simp only [CloseStage.step]
    split
    · exact keeps_go (by simp) rfl rfl id
    split
    · exact keeps_go (by simp) rfl rfl id
    · exact keeps_go (by simp) rfl rfl id
  | releaseDelete result =>
    simp only [CloseStage.step]
    split
    next hact => exact keeps_free (by simp) hact rfl rfl id
    split
    · exact keeps_go (by simp) rfl rfl id
    · exact keeps_go (by simp) rfl rfl id
  | _ => exact keeps_go (by simp) rfl rfl id

theorem Driver.step_keeps (d : Driver) : Keeps i s act (d.step w act i s) := by
  cases d with
  | abortPrepared stage | commit stage | reset _ stage | close _ stage => exact stage.step_keeps

theorem Visited.keeps {e : Effect} (h : Visited i s act e) : Keeps i s act e := by
  cases h with
  | looks pc hpc => exact keeps_go (local_of_none hpc) rfl rfl id
  | aborts hact hstate => exact keeps_free (by simp) hact rfl rfl id
  | latches lease reason hstate hopen => exact keeps_go (local_of_none fun _ => rfl) rfl rfl id
  | _ => exact keeps_go (by simp) rfl rfl id

end Viiper.Ports.ImportSession
