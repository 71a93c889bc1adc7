import Viiper.Ports.ImportStages

/-!
# The story of an import session

The story of a session is the list of the lifecycle callbacks made about it,
in order, with their answers.  `Orderly` is what every story must look like:
the owner is bound, drained and disconnected at most once each, and it is
disconnected only right after the fence, the ingress, the scheduler and the
drain have all succeeded.

The shapes `Committed`, `Rejected`, `Fenced`, `Stopped`, `TornDown`, `Drained`
and `Neutral` are the stories of the phases in between; each is reached from
the one before by one successful callback.
-/

namespace Viiper.Ports.ImportSession

open List Callback

open Retained (ImportLease)

/-! ## Answers -/

/-- The answer of a callback which succeeded. -/
def ok : Answer Unit := .returned () []

variable {reason : ImportCloseReason} {lease : ImportLease} {answer : Answer ImportDrainResult}
  {name : String}

@[simp] theorem invoke_snd_eq_nil {V : Type} {zero : V} {answer : Answer V} :
    (invokeRetainedImportStep name zero answer).2 = [] ↔ ∃ value, answer = .returned value [] := by
  cases answer <;> simp [invokeRetainedImportStep]

@[simp] theorem invoke_returned {V : Type} {name : String} {zero value : V} {err : Errors} :
    invokeRetainedImportStep name zero (.returned value err) = (value, err) := rfl

@[simp] theorem invokeGuarded_eq_nil {answer : Answer Unit} :
    invokeGuarded name answer = [] ↔ answer = ok := by
  unfold invokeGuarded ok
  rw [invoke_snd_eq_nil]
  exact ⟨fun ⟨_, h⟩ => h, fun h => ⟨(), h⟩⟩

@[simp] theorem lifecycleError_ne_nil (name : String) (err : Errors) :
    lifecycleError name err ≠ [] := by
  simp [lifecycleError]

@[simp] theorem runVoidStep_eq_nil {answer : Answer Unit} :
    runVoidStep name answer = [] ↔ answer = ok := by
  cases answer with
  | returned value err =>
    cases err <;> simp [runVoidStep, invokeRetainedImportStep, ok]
  | _ => simp [runVoidStep, invokeRetainedImportStep, ok]

@[simp] theorem provided_eq_nil {err : Errors} {fine : Bool} :
    Errors.provided err fine = [] ↔ err = [] ∧ fine := by
  cases fine <;> cases err <;> simp [Errors.provided]

theorem drainError_eq_nil :
    drainError lease reason answer = [] ↔ answer = .returned ⟨lease, reason, .drained⟩ [] := by
  cases answer with
  | returned drain err =>
    by_cases hnil : err = [] <;>
      by_cases hexact : drain = ⟨lease, reason, .drained⟩ <;>
      simp [drainError, hnil, hexact]
  | _ => simp [drainError, invokeRetainedImportStep]

theorem disconnectError_eq_nil {answer : Answer ImportDisconnectResult} :
    disconnectError lease reason answer = [] ↔ answer = .returned ⟨lease, reason, .safe⟩ [] := by
  cases answer with
  | returned result err =>
    by_cases hnil : err = [] <;>
      by_cases hexact : result = ⟨lease, reason, .safe⟩ <;>
      simp [disconnectError, hnil, hexact]
  | _ => simp [disconnectError, invokeRetainedImportStep]

/-- A drain of a bound owner without an error, and not quarantined, is exact. -/
theorem drain_exact (hstate : (cancelAndDrainBoundOwner lease reason answer).1.state ≠ .quarantined)
    (herr : (cancelAndDrainBoundOwner lease reason answer).2 = []) :
    answer = .returned ⟨lease, reason, .drained⟩ [] := by
  cases answer with
  | returned drain err =>
    unfold cancelAndDrainBoundOwner at hstate herr
    dsimp only [invokeRetainedImportStep] at hstate herr
    split at herr
    · simp at herr
    by_cases hnil : err = []
    · obtain ⟨l, r, state⟩ := drain
      cases state <;> simp_all
    · simp [hnil] at herr
  | _ => simp [cancelAndDrainBoundOwner, invokeRetainedImportStep] at herr

/-! ## Stories -/

/-- The owner is bound. -/
def Callback.isBind : Callback → Bool
  | .bindImport .. => true
  | _ => false

/-- The owner is drained. -/
def Callback.isDrain : Callback → Bool
  | .cancelAndDrain .. => true
  | _ => false

/-- The owner is disconnected. -/
def Callback.isDisconnect : Callback → Bool
  | .disconnectNeutral .. => true
  | _ => false

/-- The callbacks which have to precede a disconnect for `reason`. -/
def safePrelude (L : ImportLease) (reason : ImportCloseReason) : List Callback :=
  [.closeAdmission ok, .ingressClose ok, .schedulerClose ok,
    .cancelAndDrain L reason (.returned ⟨L, reason, .drained⟩ [])]

/-- What every story looks like. -/
structure Orderly (L : ImportLease) (σ : List Callback) : Prop where
  bindOnce : (σ.filter Callback.isBind).length ≤ 1
  drainOnce : (σ.filter Callback.isDrain).length ≤ 1
  disconnectOnce : (σ.filter Callback.isDisconnect).length ≤ 1
  safe : ∀ before lease reason answer after,
    σ = before ++ .disconnectNeutral lease reason answer :: after →
      lease = L ∧ safePrelude L reason <:+ before

/-- The owner has been neither drained nor disconnected. -/
def Unspent (σ : List Callback) : Prop :=
  ∀ x ∈ σ, x.isDrain = false ∧ x.isDisconnect = false

/-- A story which may still end in a drain of the owner. -/
def Failing (L : ImportLease) (σ : List Callback) : Prop := Orderly L σ ∧ Unspent σ

variable {L : ImportLease} {σ : List Callback} {x : Callback}

theorem orderly_nil : Orderly L [] where
  bindOnce := by simp
  drainOnce := by simp
  disconnectOnce := by simp
  safe := by simp

theorem failing_nil : Failing L [] := ⟨orderly_nil, by simp [Unspent]⟩

theorem filter_unspent {p : Callback → Bool} (h : ∀ y ∈ σ, p y = false) :
    (σ ++ [x]).filter p = [x].filter p := by
  have hnil : σ.filter p = [] := filter_eq_nil_iff.2 fun y hy => by simp [h y hy]
  rw [filter_append, hnil, nil_append]

/-- One more callback which is not a disconnect. -/
theorem Orderly.snoc (h : Orderly L σ) (hbind : x.isBind → ∀ y ∈ σ, y.isBind = false)
    (hdrain : x.isDrain → ∀ y ∈ σ, y.isDrain = false)
    (hno : x.isDisconnect = false) : Orderly L (σ ++ [x]) where
  bindOnce := by
    cases hx : x.isBind with
    | true => rw [filter_unspent (hbind hx)]; simp [hx]
    | false => simpa [filter_append, hx] using h.bindOnce
  drainOnce := by
    cases hx : x.isDrain with
    | true => rw [filter_unspent (hdrain hx)]; simp [hx]
    | false => simpa [filter_append, hx] using h.drainOnce
  disconnectOnce := by simpa [filter_append, hno] using h.disconnectOnce
  safe := by
    intro before lease reason answer after heq
    -- the disconnect cannot be the callback just added
    rcases eq_nil_or_concat after with rfl | ⟨rest, y, rfl⟩
    · have hlast := (append_inj' heq rfl).2
      simp only [cons.injEq, and_true] at hlast
      simp [hlast, isDisconnect] at hno
    · rw [concat_eq_append, ← cons_append, ← append_assoc] at heq
      exact h.safe _ _ _ _ _ (append_inj' heq rfl).1

/-- The disconnect, right after its prelude. -/
theorem Orderly.disconnect (h : Orderly L σ) {answer : Answer ImportDisconnectResult}
    (hnone : ∀ y ∈ σ, y.isDisconnect = false) (hpre : safePrelude L reason <:+ σ) :
    Orderly L (σ ++ [.disconnectNeutral L reason answer]) where
  bindOnce := by simpa [filter_append, isBind] using h.bindOnce
  drainOnce := by simpa [filter_append, isDrain] using h.drainOnce
  disconnectOnce := by rw [filter_unspent hnone]; exact Nat.le_refl 1
  safe := by
    intro before lease r a after heq
    rcases eq_nil_or_concat after with rfl | ⟨rest, y, rfl⟩
    · obtain ⟨hσ, hlast⟩ := append_inj' heq rfl
      obtain ⟨rfl, rfl, rfl⟩ := hlast
      exact ⟨rfl, hσ ▸ hpre⟩
    · rw [concat_eq_append, ← cons_append, ← append_assoc] at heq
      exact h.safe _ _ _ _ _ (append_inj' heq rfl).1

/-- A callback which is neither a bind, a drain nor a disconnect. -/
def Callback.plain (x : Callback) : Prop :=
  x.isBind = false ∧ x.isDrain = false ∧ x.isDisconnect = false

theorem Failing.plain (h : Failing L σ) (hx : x.plain) : Failing L (σ ++ [x]) := by
  refine ⟨h.1.snoc (fun h => absurd h (by simp [hx.1]))
    (fun h => absurd h (by simp [hx.2.1])) hx.2.2, fun y hy => ?_⟩
  rcases mem_append.1 hy with hy | hy
  · exact h.2 y hy
  rw [mem_singleton.1 hy]
  exact hx.2

/-- The one drain of a story. -/
theorem Failing.drain (h : Failing L σ) : Orderly L (σ ++ [.cancelAndDrain lease reason answer]) :=
  h.1.snoc (by simp [isBind]) (fun _ y hy => (h.2 y hy).1) rfl

/-! ## The stories of the phases -/

/-- The owner was bound and the import published. -/
def Committed (L : ImportLease) (σ : List Callback) : Prop :=
  ∃ b, σ = [.importBinding b, .bindImport L (.returned ⟨L, .bound⟩ []),
    .activateImport ok, .openAdmission ok]

def Rejected (L : ImportLease) (σ : List Callback) : Prop :=
  ∃ b, σ = [.importBinding b, .bindImport L (.returned ⟨L, .rejected⟩ [])]

section Teardown

variable (P : List Callback → Prop) (err : Errors) (σ : List Callback)

/-- After `P`, the admission was fenced, with the errors `err`. -/
def Fenced : Prop :=
  ∃ β a, P β ∧ σ = β ++ [.closeAdmission a] ∧ (err = [] → a = ok)

/-- … and the ingress was closed. -/
def Stopped : Prop :=
  ∃ β a b, P β ∧ σ = β ++ [.closeAdmission a, .ingressClose b] ∧ (err = [] → a = ok ∧ b = ok)

/-- … and the scheduler was closed, all without an error. -/
def TornDown : Prop :=
  ∃ β, P β ∧ σ = β ++ [.closeAdmission ok, .ingressClose ok, .schedulerClose ok]

/-- … and the owner was drained exactly. -/
def Drained (L : ImportLease) (reason : ImportCloseReason) : Prop :=
  ∃ β, P β ∧ σ = β ++ safePrelude L reason

/-- … and disconnected exactly. -/
def Neutral (L : ImportLease) (reason : ImportCloseReason) : Prop :=
  ∃ β, P β ∧ σ = β ++ (safePrelude L reason ++
    [.disconnectNeutral L reason (.returned ⟨L, reason, .safe⟩ [])])

end Teardown

/-- Every bind of a parked scheduler's import leaves a story which may fail. -/
theorem failing_bind (b : Answer SchedulerBinding) (answer : Answer ImportBindResult) :
    Failing L [.importBinding b, .bindImport L answer] := by
  have h1 : Failing L [.importBinding b] := failing_nil.plain ⟨rfl, rfl, rfl⟩
  exact ⟨h1.1.snoc (by simp [isBind]) (by simp [isDrain]) rfl,
    by simp [Unspent, isDrain, isDisconnect]⟩

theorem Committed.failing (h : Committed L σ) : Failing L σ := by
  obtain ⟨b, rfl⟩ := h
  have h2 : Failing L [.importBinding b, .bindImport L (.returned ⟨L, .bound⟩ [])] :=
    failing_bind b _
  have h3 := h2.plain (x := .activateImport ok) ⟨rfl, rfl, rfl⟩
  exact h3.plain (x := .openAdmission ok) ⟨rfl, rfl, rfl⟩

theorem Rejected.failing (h : Rejected L σ) : Failing L σ := by
  obtain ⟨b, rfl⟩ := h
  exact failing_bind b _

section Teardown

variable {P : List Callback → Prop} {err err' : Errors} {a : Answer Unit}
  (hP : ∀ β, P β → Failing L β)

theorem fenced_of (h : P σ) (herr : err = [] → a = ok) :
    Fenced P err (σ ++ [.closeAdmission a]) := ⟨σ, a, h, rfl, herr⟩

theorem Fenced.ingress (h : Fenced P err σ) (herr : err' = [] → err = [] ∧ a = ok) :
    Stopped P err' (σ ++ [.ingressClose a]) := by
  obtain ⟨β, b, hβ, rfl, hb⟩ := h
  exact ⟨β, b, a, hβ, by simp, fun h0 => ⟨hb (herr h0).1, (herr h0).2⟩⟩

theorem Stopped.scheduler (h : Stopped P err σ) (herr : err = []) :
    TornDown P (σ ++ [.schedulerClose ok]) := by
  obtain ⟨β, a, b, hβ, rfl, hab⟩ := h
  obtain ⟨rfl, rfl⟩ := hab herr
  exact ⟨β, hβ, by simp⟩

theorem TornDown.drain (h : TornDown P σ) :
    Drained P (σ ++ [.cancelAndDrain L reason (.returned ⟨L, reason, .drained⟩ [])]) L reason := by
  obtain ⟨β, hβ, rfl⟩ := h
  exact ⟨β, hβ, by simp [safePrelude]⟩

theorem Drained.disconnect (h : Drained P σ L reason) :
    Neutral P (σ ++ [.disconnectNeutral L reason (.returned ⟨L, reason, .safe⟩ [])]) L reason := by
  obtain ⟨β, hβ, rfl⟩ := h
  exact ⟨β, hβ, by simp⟩

include hP

theorem Fenced.failing (h : Fenced P err σ) : Failing L σ := by
  obtain ⟨β, a, hβ, rfl, -⟩ := h
  exact (hP β hβ).plain ⟨rfl, rfl, rfl⟩

theorem Stopped.failing (h : Stopped P err σ) : Failing L σ := by
  obtain ⟨β, a, b, hβ, rfl, -⟩ := h
  have h1 := (hP β hβ).plain (x := .closeAdmission a) ⟨rfl, rfl, rfl⟩
  have h2 := h1.plain (x := .ingressClose b) ⟨rfl, rfl, rfl⟩
  simpa using h2

theorem TornDown.failing (h : TornDown P σ) : Failing L σ := by
  obtain ⟨β, hβ, rfl⟩ := h
  have h2 : Stopped P [] (β ++ [.closeAdmission ok, .ingressClose ok]) :=
    ⟨β, ok, ok, hβ, rfl, fun _ => ⟨rfl, rfl⟩⟩
  have h3 := (h2.failing hP).plain (x := .schedulerClose ok) ⟨rfl, rfl, rfl⟩
  simpa using h3

theorem Drained.orderly (h : Drained P σ L reason) :
    Orderly L σ ∧ ∀ x ∈ σ, x.isDisconnect = false := by
  obtain ⟨β, hβ, rfl⟩ := h
  have h3 : TornDown P (β ++ [.closeAdmission ok, .ingressClose ok, .schedulerClose ok]) :=
    ⟨β, hβ, rfl⟩
  have hdrain : Orderly L (β ++ [.closeAdmission ok, .ingressClose ok, .schedulerClose ok] ++
      [.cancelAndDrain L reason (.returned ⟨L, reason, .drained⟩ [])]) :=
    (h3.failing hP).drain
  refine ⟨by simpa [safePrelude] using hdrain, fun x hx => ?_⟩
  rcases mem_append.1 hx with hx | hx
  · exact ((hP β hβ).2 x hx).2
  simp only [safePrelude, mem_cons, not_mem_nil, or_false] at hx
  rcases hx with rfl | rfl | rfl | rfl <;> rfl

theorem Drained.orderly_disconnect (h : Drained P σ L reason)
    (answer : Answer ImportDisconnectResult) :
    Orderly L (σ ++ [.disconnectNeutral L reason answer]) := by
  obtain ⟨horderly, hnone⟩ := h.orderly hP
  obtain ⟨β, -, rfl⟩ := h
  exact horderly.disconnect hnone (suffix_append β _)

theorem Neutral.orderly (h : Neutral P σ L reason) : Orderly L σ := by
  obtain ⟨β, hβ, rfl⟩ := h
  have hd : Drained P (β ++ safePrelude L reason) L reason := ⟨β, hβ, rfl⟩
  simpa using hd.orderly_disconnect hP (.returned ⟨L, reason, .safe⟩ [])

end Teardown

end Viiper.Ports.ImportSession
