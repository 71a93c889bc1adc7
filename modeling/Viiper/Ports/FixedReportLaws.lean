import Viiper.Ports.FixedReportRefinement

/-!
# Laws of undisturbed fixed-report histories

The two laws of a scheduler run without faults and retirements, read off the
account of ordinals through `undisturbed_run`.
-/

namespace Viiper.Ports.FixedReportScheduler

open Verified Go Run FixedReportHistory

variable {E T : Type*}

/-! ## Ordered history -/

def Scheduler.retriedOrdinals (s : Scheduler E T) : List Nat :=
  match s.retry with
  | some retry => [retry.entry.ordinal]
  | none => []

/-- The ordinal of the active claim, unless it repeats the presented report. -/
def Scheduler.activeOrdinals (s : Scheduler E T) : List Nat :=
  match s.claim with
  | some a => if a.claimSource = .idle then [] else [a.claimed.ordinal]
  | none => []

theorem abs_deferred (s : Scheduler E T) : (abs s).deferred = s.retriedOrdinals := by
  unfold Scheduler.retriedOrdinals History.deferred abs
  cases s.retry <;> rfl

theorem abs_inFlight (s : Scheduler E T) : (abs s).inFlight = s.activeOrdinals := by
  unfold Scheduler.activeOrdinals History.inFlight abs
  cases s.claim <;> rfl

theorem committedBy_claim {e : SchedulerEvent E T} {source : ClaimSource} {n : Nat}
    (h : committedBy e = some (source, n)) : ∃ a, e.pre.claim = some a ∧ a.claimed.ordinal = n := by
  unfold committedBy at h
  split at h
  · obtain ⟨a, ha, heq⟩ := Option.map_eq_some_iff.1 h
    exact ⟨a, ha, congrArg Prod.snd heq⟩
  · cases h

variable [Inhabited T]

variable {s : Scheduler E T} {c : Config E T}

theorem undisturbed_invariants (hnew : New c s) {ops : List (Op T)}
    (hrun : Allowed (step c) (Quiet c) [] s ops) :
    Linear (shown c (trace (step c) s ops)) (abs (final (step c) s ops)) ∧
      Kept (shown c (trace (step c) s ops)) (abs (final (step c) s ops)) ∧
      Faithful (shown c (trace (step c) s ops)) (abs (final (step c) s ops)) := by
  obtain ⟨-, hlabelled⟩ := undisturbed_run hnew (fun _ _ => True)
    (fun _ _ _ _ hquiet => ⟨hquiet, trivial⟩) hrun
  refine hlabelled.invariant (P := fun os h => Linear os h ∧ Kept os h ∧ Faithful os h) ?_ ?_
  · refine ⟨Linear.fresh _, ?_, Faithful.fresh _⟩
    intro n hn
    rcases hn with hn | hn <;> cases hn
  · rintro os h o h' ⟨hl, hk, hf⟩ - hm
    exact ⟨hl.move hm, hk.move hl.slots hm, hf.move hl hm⟩

/-- **Ordered history is linear and lossless.**  In every state of an
undisturbed run: ordinals committed from non-idle claims are strictly
increasing; every ordinal accepted as a boundary or promoted ahead of one is
counted exactly once over the commits, the journal, the retry slot and the
active claim; and two claims of one ordinal return the same bytes. -/
theorem ordered_history_linear_and_lossless {c : Config E T} {s : Scheduler E T} (hnew : New c s)
    {ops : List (Op T)} (hrun : Allowed (step c) (Quiet c) [] s ops) :
    (commits (shown c (trace (step c) s ops))).Pairwise (· < ·) ∧
      (∀ n, OrderedWork (shown c (trace (step c) s ops)) n →
        (commits (shown c (trace (step c) s ops))).count n +
          ((final (step c) s ops).journaled.map (·.ordinal)).count n +
          (final (step c) s ops).retriedOrdinals.count n +
          (final (step c) s ops).activeOrdinals.count n = 1) ∧
      ∀ x ∈ claims (shown c (trace (step c) s ops)), ∀ y ∈ claims (shown c (trace (step c) s ops)),
          x.1 = y.1 → x.2 = y.2 := by
  obtain ⟨hl, hk, hf⟩ := undisturbed_invariants hnew hrun
  refine ⟨?_, ?_, hf.agree⟩
  · have hinc := hl.increasing
    exact (List.pairwise_append.1 (List.pairwise_cons.1 hinc).2).1
  · intro n hn
    rw [← abs_deferred, ← abs_inFlight]
    exact hk.count_eq_one hl hn

/-- A one-byte device: the report is the state, and a boundary is a change of
the decade. -/
def byteEncode (_ : Unit) (n : Nat) : Encoded Unit Nat :=
  ⟨(), n, [UInt8.ofNat n], 1⟩

def decadeChange (previous current : Nat) : Bool :=
  previous / 10 != current / 10

/-- The token of the `n`th claim of a run which never changed generation. -/
def nthClaim (n : UInt64) : Claim := ⟨n, 1, 1, 0, 0, false⟩

/-- Publish 1, publish the boundary 10, claim and commit both, the boundary only
after one deferral. -/
def pressRun : List (Op Nat) :=
  [.publish 1 5 5, .publish 10 6 6, .claim 1 7 7, .resolve (nthClaim 1) .commit 8 8, .claim 1 9 9,
    .resolve (nthClaim 2) .defer 10 10, .claim 1 11 11,
    .resolve (nthClaim 3) .commit 12 12]

theorem pressRun_ordered_history : ∃ (c : Config Unit Nat) (s : Scheduler Unit Nat), New c s ∧
      Allowed (step c) (Quiet c) [] s pressRun ∧
      commits (shown c (trace (step c) s pressRun)) = [2, 3] ∧
      claims (shown c (trace (step c) s pressRun)) = [(2, [1]), (3, [10]), (3, [10])] ∧
      (commits (shown c (trace (step c) s pressRun))).Pairwise (· < ·) :=
  ⟨_, _, ⟨1, 0, some byteEncode, (), some decadeChange, 0, false, 1, 1, rfl⟩,
    by decide, by decide, by decide,
    (ordered_history_linear_and_lossless
      ⟨1, 0, some byteEncode, (), some decadeChange, 0, false, 1, 1, rfl⟩
      (by decide)).1⟩

/-! ## Predecessors of boundaries -/

/-- The call defers a continuous claim taken from the retry slot although the
publication directly after it was accepted as a boundary. -/
def defersRetriedPredecessor (c : Config E T)
    (evs : List (SchedulerEvent E T)) (s : Scheduler E T) (op : Op T) : Bool :=
  match op, s.claim with
  | .resolve claim .defer _ _, some a =>
    claimMatches c s a claim && decide (a.claimSource = .retry) && !a.claimed.ordered &&
      (publications (shown c evs)).contains (a.claimed.ordinal + 1, true)
  | _, _ => false

/-- A dropped claim of the retry slot was a matching deferral of continuous
work: ordered work would have been put back. -/
theorem droppedBy_retry {op : Op T} {n : Nat} (hquiet : disturbance c s op = none)
    (hdrop : droppedBy (event (step c) s op) = some (.retry, n)) :
    ∃ claim completedAt now a, op = .resolve claim .defer completedAt now ∧
      s.claim = some a ∧ claimMatches c s a claim ∧
      a.claimSource = .retry ∧ a.claimed.ordered = false ∧
      a.claimed.ordinal = n := by
  cases op with
  | resolve claim outcome completedAt now =>
    have heffect := step_effect c s (.resolve claim outcome completedAt now)
    rw [hquiet] at heffect
    unfold event at hdrop
    generalize step c s (.resolve claim outcome completedAt now) = r at heffect hdrop
    cases heffect with
    | kept _ hsilent =>
      simp [droppedBy, hsilent.resolves _ _ _ _ rfl] at hdrop
    | continuous _ _ _ hd | ordered _ _ _ hd => cases hd
    | committed => cases hdrop
    | @deferred _ _ _ _ a hclaim _ hmatch =>
      simp only [droppedBy, hclaim, Option.map_some] at hdrop
      split at hdrop
      next hempty =>
          simp only [Option.some.injEq, Prod.mk.injEq] at hdrop
          obtain ⟨hsource, hord⟩ := hdrop
          refine ⟨claim, completedAt, now, a, rfl, hclaim, hmatch, hsource, ?_, hord⟩
          cases hordered : a.claimed.ordered with
          | false => rfl
          | true =>
            simp [clearClaim, deferClaim, hsource, hordered] at hempty
      · cases hdrop
  | _ => cases hdrop

/-- No claim of the retry slot is deferred under its boundary. -/
def KeepsPredecessors (c : Config E T) (evs : List (SchedulerEvent E T))
    (s : Scheduler E T) (op : Op T) : Prop :=
  Quiet c evs s op ∧ defersRetriedPredecessor c evs s op = false

instance (c : Config E T) (evs : List (SchedulerEvent E T)) (s : Scheduler E T) (op : Op T) :
    Decidable (KeepsPredecessors c evs s op) :=
  inferInstanceAs (Decidable (_ ∧ _))

theorem KeepsPredecessors.retriedKept {evs : List (SchedulerEvent E T)} {op : Op T}
    (h : KeepsPredecessors c evs s op) :
    RetriedKept (shown c evs) (observe c (event (step c) s op)) := by
  intro n hdrop hpub
  obtain ⟨claim, completedAt, now, a, rfl, hclaim, hmatch, hsource, hplain,
    hord⟩ := droppedBy_retry h.1 hdrop
  have hdefers := h.2
  simp [defersRetriedPredecessor, hclaim, hmatch, hsource, hplain, hord, hpub] at hdefers

theorem predecessor_invariants (hnew : New c s) {ops : List (Op T)}
    (hrun : Allowed (step c) (KeepsPredecessors c) [] s ops) :
    Linear (shown c (trace (step c) s ops)) (abs (final (step c) s ops)) ∧
      Preceded (shown c (trace (step c) s ops)) (abs (final (step c) s ops)) := by
  obtain ⟨-, hlabelled⟩ := undisturbed_run hnew RetriedKept
    (fun _ _ _ _ hkeeps => ⟨hkeeps.1, hkeeps.retriedKept⟩) hrun
  refine hlabelled.invariant (P := fun os h => Linear os h ∧ Preceded os h) ?_ ?_
  · exact ⟨Linear.fresh _, Preceded.fresh _⟩
  · rintro os h o h' ⟨hl, hp⟩ hok hm
    exact ⟨hl.move hm, hp.move hl hok hm⟩

/-- **Predecessor law.**  In an undisturbed run in which no deferral hits a
continuous claim of the retry slot under its boundary: when a call commits the
publication `pₖ₊₁`, accepted as a boundary, its predecessor `pₖ` was committed
by an earlier call. -/
theorem predecessor_committed_before_boundary {c : Config E T}
    {s : Scheduler E T} (hnew : New c s) (before after : List (Op T)) (op : Op T)
    (hrun : Allowed (step c) (KeepsPredecessors c) [] s (before ++ op :: after))
    (k m n : Nat) (ordered : Bool) (source : ClaimSource)
    (hk : (publications (shown c (trace (step c) s
      (before ++ op :: after))))[k]? = some (m, ordered))
    (hk' : (publications (shown c (trace (step c) s
      (before ++ op :: after))))[k + 1]? = some (n, true))
    (hcommit : committedBy (event (step c) (final (step c) s before) op) = some (source, n)) :
    m ∈ commits (shown c (trace (step c) s before)) := by
  obtain ⟨hl, hp⟩ := predecessor_invariants hnew (allowed_append.1 hrun).1
  obtain ⟨-, hall⟩ := predecessor_invariants hnew hrun
  have hm := hall.ordinal_eq hk
  have hn := hall.ordinal_eq hk'
  -- The committed claim is in flight when `op` is called.
  obtain ⟨a, hclaim, hord⟩ : ∃ a, (abs (final (step c) s before)).claim =
      some a ∧ a.ordinal = n := by
    obtain ⟨b, hb, hord⟩ := committedBy_claim hcommit
    rw [event_pre] at hb
    exact ⟨b.account, by simp [abs, hb], hord⟩
  -- So its publication was accepted before `op`.
  have hpub : (n, true) ∈ publications (shown c (trace (step c) s before)) := by
    have hle := hl.claim_le_next hclaim
    rw [hord, hp.next_eq] at hle
    have hsplit : publications (shown c (trace (step c) s (before ++ op :: after))) =
        publications (shown c (trace (step c) s before)) ++
          publications (shown c (trace (step c) (final (step c) s before) (op :: after))) := by
      simp only [trace_append, shown, publications, List.map_append, List.filterMap_append]
    rw [hsplit, List.getElem?_append_left (by omega)] at hk'
    exact List.mem_of_getElem? hk'
  obtain rfl : n = m + 1 := by omega
  exact hp.committed hl hclaim hord hpub (by omega)

/-- The boundary 10 is published while 1 is in flight for the first time; both
deferrals of 1 are recovered, and 1 is committed ahead of 10. -/
def recoverRun : List (Op Nat) :=
  [.publish 1 5 5, .claim 1 6 6, .publish 10 7 7, .resolve (nthClaim 1) .defer 8 8, .claim 1 9 9,
    .resolve (nthClaim 2) .defer 10 10, .claim 1 11 11,
    .resolve (nthClaim 3) .commit 12 12, .claim 1 13 13]

theorem recoverRun_predecessor_committed : ∃ (c : Config Unit Nat)
    (s : Scheduler Unit Nat), New c s ∧ Allowed (step c) (KeepsPredecessors c) [] s
        (recoverRun ++ [.resolve (nthClaim 4) .commit 14 14]) ∧
      2 ∈ commits (shown c (trace (step c) s recoverRun)) :=
  ⟨_, _, ⟨1, 0, some byteEncode, (), some decadeChange, 0, false, 1, 1, rfl⟩, by decide,
    predecessor_committed_before_boundary
      ⟨1, 0, some byteEncode, (), some decadeChange, 0, false, 1, 1, rfl⟩
      recoverRun [] (.resolve (nthClaim 4) .commit 14 14) (by decide)
      0 2 3 false .journal (by decide) (by decide) (by decide)⟩

/-- 1 is deferred into the retry slot before the boundary 10 is published, and
deferred again after it. -/
def retriedRun : List (Op Nat) :=
  [.publish 1 5 5, .claim 1 6 6, .resolve (nthClaim 1) .defer 7 7,
    .publish 10 8 8, .claim 1 9 9, .resolve (nthClaim 2) .defer 10 10,
    .claim 1 11 11, .resolve (nthClaim 3) .commit 12 12]

/-- **A retried predecessor is lost.**  The deferral of a continuous claim taken
from the retry slot gives it up when its boundary waits in the journal; the
boundary is then committed and its predecessor never is. -/
theorem retried_predecessor_lost : ∃ (c : Config Unit Nat) (s : Scheduler Unit Nat), New c s ∧
      Allowed (step c) (Quiet c) [] s retriedRun ∧
      publications (shown c (trace (step c) s retriedRun)) = [(2, false), (3, true)] ∧
      commits (shown c (trace (step c) s retriedRun)) = [3] :=
  ⟨_, _, ⟨1, 0, some byteEncode, (), some decadeChange, 0, false, 1, 1, rfl⟩,
    by decide, by decide, by decide⟩

end Viiper.Ports.FixedReportScheduler
