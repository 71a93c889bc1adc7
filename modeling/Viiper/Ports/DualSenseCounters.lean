import Viiper.Ports.DualSenseRuns
import Viiper.Verified.Framing

/-!
# The counters of the committed reports

A report carries a sequence byte and a packet sequence.  From its claim on they are the
successors of the committed ones, whatever becomes of the claim: a deferred report keeps
its bytes, and nothing else is committed before it.
-/

namespace Viiper.Ports.DualSense

open Verified Go Run Framing Scheduler

/-- The report carries the counters of the `n`-th commit. -/
def Carries (n : Nat) (report : Bytes) : Prop :=
  report[7]? = some (.ofNat n) ∧ (report.drop 12).take 4 = putUint32 (.ofNat n)

theorem encode_carries (state : InputState) (battery : UInt8) (timestamp : UInt32) (edge : Bool)
    (n : Nat) :
    Carries n (encodeUSBInputReportInto state battery (.ofNat n) (.ofNat n) timestamp edge) := by
  unfold encodeUSBInputReportInto
  split <;> exact ⟨rfl, rfl⟩

/-- The numbers of a report, and its bytes. -/
abbrev Numbers := UInt8 × UInt32 × Bytes

/-- The counters, and the reports which may be committed next. -/
def Scheduler.counters (s : Scheduler) : UInt8 × UInt32 × Option Numbers × Option Numbers :=
  (s.sequence, s.packetSequence, s.retry.map fun r => (r.sequence, r.packetSequence, r.report),
    s.claim.map fun c => (c.sequence, c.packetSequence, c.report))

/-- The numbers of the `n`-th commit. -/
def Numbered (n : Nat) (r : Numbers) : Prop :=
  r.1 = .ofNat n ∧ r.2.1 = .ofNat n ∧ Carries n r.2.2

/-- `n` reports were committed, and the report at hand, if there is one, is the next. -/
structure Counts (n : Nat) (c : UInt8 × UInt32 × Option Numbers × Option Numbers) : Prop where
  sequence : c.1 = .ofNat n
  packetSequence : c.2.1 = .ofNat n
  retry : ∀ r ∈ c.2.2.1, Numbered (n + 1) r
  claim : ∀ r ∈ c.2.2.2, Numbered (n + 1) r ∧ c.2.2.1 = none

/-- After `n` commits, the next report is committed, or none. -/
def Advances (n : Nat) (out : Option ActiveClaim) (s : Scheduler) : Prop :=
  Counts (n + out.toList.length) s.counters ∧ ∀ c ∈ out, Carries (n + 1) c.report

variable {s : Scheduler} {n : Nat} {e : ScheduledInputState}

theorem readLE_putUint32 (v : UInt32) : readLE (putUint32 v) = v.toNat := by
  have hv := v.toNat_lt
  simp [putUint32, readLE, Nat.shiftRight_eq_div_pow]
  omega

theorem Counts.advances (h : Counts n s.counters) : Advances n none s := ⟨h, by rintro c ⟨⟩⟩

/-! ## Steps -/

theorem counters_enqueue : (s.enqueueTransition e).counters = s.counters := by
  unfold enqueueTransition
  split <;> rfl

theorem counters_preserve (t : Side) :
    (s.preserveTriggerPeakBeforeTransition t e).counters = s.counters := by
  unfold preserveTriggerPeakBeforeTransition
  dsimp only
  repeat' split
  all_goals first
    | rfl
    | exact counters_enqueue
    | simp [counters, Function.comp_def]

/-- A received state changes no report which is already made. -/
theorem counters_update (state : Option InputState) (generation : UInt64) (now : Time) :
    (s.updateAt state generation now).1.counters = s.counters := by
  unfold updateAt
  split
  · rfl
  show (schedule _ _ now).counters = _
  unfold schedule
  split
  · simp only [counters_enqueue, preservePeaks, apply_ite counters, counters_preserve, ite_self]
    rfl
  · rfl

theorem Counts.beginClaim (h : Counts n s.counters) (now : Time) (battery : UInt8)
    (destination : Nat) : Counts n (s.beginClaim now battery destination).1.counters := by
  unfold Scheduler.beginClaim
  split
  · exact h
  have hselect : (s.selectState now).1.sequence = s.sequence ∧
      (s.selectState now).1.packetSequence = s.packetSequence ∧
      (s.selectState now).1.retry = none := by
    unfold selectState
    repeat' split
    all_goals exact ⟨rfl, rfl, by first | rfl | assumption⟩
  have hfree : (s.selectState now).1.counters.2.2.1 = none :=
    congrArg (Option.map _) hselect.2.2
  refine ⟨hselect.1.trans h.sequence, hselect.2.1.trans h.packetSequence, ?_, ?_⟩
  · show ∀ r ∈ (s.selectState now).1.counters.2.2.1, _
    rw [hfree]
    rintro r ⟨⟩
  · rintro r ⟨⟩
    refine ⟨?_, hfree⟩
    split
    next retry hr => exact h.retry _ (by simp [counters, hr])
    · have h8 : s.sequence + 1 = .ofNat (n + 1) := by
        rw [UInt8.ofNat_add, ← h.sequence]
        rfl
      have h32 : s.packetSequence + 1 = .ofNat (n + 1) := by
        rw [UInt32.ofNat_add, ← h.packetSequence]
        rfl
      refine ⟨h8, h32, ?_⟩
      rw [h8, h32]
      exact encode_carries ..

/-- A call which resolves the claim commits its report with the next counters, or none. -/
theorem Counts.resolve (h : Counts n s.counters) {op : Op} {token generation : UInt64}
    {outcome : Outcome} {completedAt : Time}
    (hpost : (s.step op).1 = (s.resolveClaimAt token generation outcome completedAt).1)
    (hcommitted : committed (event step s op) =
      if outcome = .commit ∧ (s.resolveClaimAt token generation outcome completedAt).2 = true then
        s.claim else none) :
    Advances n (committed (event step s op)) (s.step op).1 := by
  rw [hcommitted, hpost]
  unfold resolveClaimAt
  split
  · simpa using h.advances
  rename_i c hc
  obtain ⟨hnext, hfree⟩ := h.claim (c.sequence, c.packetSequence, c.report) (by simp [counters, hc])
  split
  · simpa using h.advances
  cases outcome with
  | undefined => exact h.advances
  | retire =>
    exact Counts.advances ⟨h.sequence, h.packetSequence, by rintro r ⟨⟩, by rintro r ⟨⟩⟩
  | commit =>
    rw [hc]
    refine ⟨⟨hnext.1, hnext.2.1, ?_, by rintro r ⟨⟩⟩, ?_⟩
    · show ∀ r ∈ s.counters.2.2.1, _
      rw [hfree]
      rintro r ⟨⟩
    · rintro _ ⟨⟩
      exact hnext.2.2
  | defer =>
    show Advances n none (s.deferClaim c)
    unfold deferClaim
    refine Counts.advances ?_
    split
    · refine ⟨h.sequence, h.packetSequence, ?_, by rintro r ⟨⟩⟩
      rintro r ⟨⟩
      exact hnext
    split
    all_goals exact ⟨h.sequence, h.packetSequence, h.retry, by rintro r ⟨⟩⟩

theorem Counts.step (h : Counts n s.counters) (op : Op) :
    Advances n (committed (event Scheduler.step s op)) (s.step op).1 := by
  cases op with
  | beginReceiveGeneration => exact h.advances
  | update state generation now =>
    refine Counts.advances (s := (s.updateAt state generation now).1) ?_
    rw [counters_update]
    exact h
  | beginClaim now battery destination => exact (h.beginClaim now battery destination).advances
  | complete token presented completedAt =>
    refine h.resolve rfl ?_
    cases presented with
    | false => rfl
    | true =>
      cases hb : (s.resolveClaimAt token ((s.claim.map (·.generation)).getD 0) .commit
        completedAt).2 <;> simp [committed, event, Scheduler.step, hb]
  | resolve token generation outcome completedAt =>
    refine h.resolve rfl ?_
    cases outcome with
    | commit =>
      cases hb : (s.resolveClaimAt token generation .commit completedAt).2 <;>
        simp [committed, event, Scheduler.step, hb]
    | _ => rfl
  | retire generation retiredAt =>
    refine Counts.advances (s := (s.retirePresentationGeneration generation retiredAt).1) ?_
    unfold Scheduler.retirePresentationGeneration
    split
    · exact h
    · exact ⟨h.sequence, h.packetSequence, by rintro r ⟨⟩, by rintro r ⟨⟩⟩

/-! ## Runs -/

/-- The reports committed so far are numbered in their order. -/
structure CommitsCarry (evs : List (Event Scheduler Op Answer)) (s : Scheduler) : Prop where
  counts : Counts (evs.filterMap committed).length s.counters
  carries : ∀ n c, (evs.filterMap committed)[n]? = some c → Carries (n + 1) c.report

theorem commitsCarry_run (edge : Bool) (now : Time) (ops : List Op) :
    CommitsCarry (trace step (newScheduler edge now) ops)
      (final step (newScheduler edge now) ops) := by
  refine history_run (s := newScheduler edge now)
    ⟨⟨rfl, rfl, by rintro r ⟨⟩, by rintro r ⟨⟩⟩, by simp⟩ ?_ ops
  rintro evs s op ⟨hcounts, hall⟩
  obtain ⟨hnext, hcarries⟩ := hcounts.step op
  have hcommits : (evs ++ [event step s op]).filterMap committed =
      evs.filterMap committed ++ (committed (event step s op)).toList := by
    cases hc : committed (event step s op) <;> simp [hc]
  refine ⟨?_, fun n c hc => ?_⟩ <;> rw [hcommits] at *
  · rw [List.length_append]
    exact hnext
  rw [List.getElem?_append] at hc
  split at hc
  · exact hall n c hc
  · -- behind the old commits there is at most the new one
    have hlt := (List.getElem?_eq_some_iff.1 hc).1
    have hone := (committed (event step s op)).length_toList_le
    obtain rfl : n = (evs.filterMap committed).length := by omega
    exact hcarries c (by simpa using List.mem_of_getElem? hc)

/-- **The counters never skip.**  The `n`-th committed report carries the sequence byte
`n mod 2 ^ 8` and the packet sequence `n mod 2 ^ 32`; so two committed reports with the same
packet sequence are at least `2 ^ 32` commits apart. -/
theorem counters_never_skip (edge : Bool) (now : Time) (ops : List Op) :
    let commits := (trace step (newScheduler edge now) ops).filterMap committed
    (∀ n c, commits[n]? = some c → Carries (n + 1) c.report) ∧
      ∀ i j c d, commits[i]? = some c → commits[j]? = some d → i < j → j < i + 2 ^ 32 →
        (c.report.drop 12).take 4 ≠ (d.report.drop 12).take 4 := by
  have hall := (commitsCarry_run edge now ops).carries
  refine ⟨hall, fun i j c d hc hd hlt hnear heq => ?_⟩
  rw [(hall i c hc).2, (hall j d hd).2] at heq
  have hmod := congrArg readLE heq
  rw [readLE_putUint32, readLE_putUint32, UInt32.toNat_ofNat', UInt32.toNat_ofNat'] at hmod
  omega

/-- The second claim is discarded with its presentation generation. -/
def retireRun : List Op :=
  receiveOp (statusState 0 0 10 0) :: presentOps 1 ++
    [receiveOp (statusState 0 0 0 0), .beginClaim 0 0 64, .retire 1 0] ++ presentOps 3

theorem counters_retireRun : ∃ c, ((trace Scheduler.step (newScheduler false 0)
      retireRun).filterMap committed)[1]? = some c ∧ Carries 2 c.report := by
  have hsome : (((trace step (newScheduler false 0)
      retireRun).filterMap committed)[1]?).isSome := by decide +kernel
  obtain ⟨c, hc⟩ := Option.isSome_iff_exists.1 hsome
  exact ⟨c, hc, (counters_never_skip false 0 retireRun).1 1 c hc⟩

end Viiper.Ports.DualSense
