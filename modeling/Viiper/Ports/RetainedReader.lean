import Viiper.Ports.RetainedFraming

/-!
# The reader and the scheduler agree

The command reader makes an envelope of a framed command, or stalls it.  The scheduler
checks the envelope again, copies its payload into a slot of fixed capacity, and later
lends the owner a window of a response buffer of fixed length.  What passes the first check
passes the second, and nothing is cut from a buffer beyond its end.
-/

namespace Viiper.Ports.Retained

open Verified Run Scheduler Retained.System

/-- The payload a slot of the lane has room for, by `initializePayloadSlab`. -/
def Config.payloadCapacity (cfg : Config) : Lane → Nat
  | .control => cfg.limits.maximumControlOut
  | .interruptIn => 0
  | .interruptOut => cfg.limits.maximumInterruptOut

variable {cfg : Config} {e : Envelope} {lane : Lane}

/-- An accepted payload fits a slot. -/
theorem validateEnvelope_fits (h : validateEnvelope cfg e) (hlane : e.lane = some lane) :
    e.data.length ≤ cfg.payloadCapacity lane := by
  unfold validateEnvelope at h
  rw [hlane] at h
  rcases hdirection : e.direction with _ | direction
  · simp [hdirection] at h
  rw [hdirection] at h
  cases lane <;> cases direction <;> simp at h <;> simp_all [Config.payloadCapacity]
  exact h.2.2.1.2 ▸ h.2.2.2

/-- **What the reader accepts, the scheduler accepts.** -/
theorem envelopeForSubmission_valid {header : Header} {payload : List UInt8} {generation : Nat}
    (h : envelopeForSubmission cfg.limits header payload generation = some e) :
    validateEnvelope cfg e := by
  have hlimits := cfg.limits_valid
  simp only [Limits.valid, Bool.and_eq_true, decide_eq_true_eq] at hlimits
  obtain ⟨⟨⟨⟨⟨⟨-, hin⟩, -⟩, hout⟩, -⟩, -⟩, -⟩ := hlimits
  change _ ≤ maximumTransferSize at hin hout
  have hsetup : setupLength header.setup ≤ maximumTransferSize := by
    have h₆ := header.setup[6].toNat_lt
    have h₇ := header.setup[7].toNat_lt
    simp only [setupLength, maximumTransferSize]
    omega
  unfold envelopeForSubmission at h
  split at h
  · cases h
  split at h
  · cases h
  rename_i hgeneration _ direction hdirection
  split at h
  · split at h
    · cases h
    cases direction <;> dsimp only at h <;> split at h <;> cases h <;> simp_all [validateEnvelope]
  · split at h
    · cases h
    cases direction <;> dsimp only at h <;> split at h <;> cases h <;> simp_all [validateEnvelope]
    all_goals omega

/-! ## Along a run -/

section Stored

variable {b b' : Board} {l : Label}

/-- Every queued payload fits its slot. -/
def Stored (cfg : Config) (b : Board) : Prop :=
  ∀ lane, ∀ x ∈ b.lanes lane, x.payload.length ≤ cfg.payloadCapacity lane

theorem stored_rewrite {k : Nat} {g : Slot → Slot} {jobs : List Slot} {n : Nat}
    (h : ∀ x ∈ jobs, x.payload.length ≤ n) (hg : ∀ x, (g x).payload = x.payload) :
    ∀ y ∈ rewriteJob k g jobs, y.payload.length ≤ n := by
  intro y hy
  rcases mem_rewrite.1 hy with ⟨x, hx, -, rfl⟩ | ⟨hy, -⟩
  · exact hg x ▸ h x hx
  · exact h y hy

theorem Stored.move (hm : Move cfg b l b') (h : Stored cfg b) : Stored cfg b' := by
  intro lane
  cases hm with
  | calm _ hcalm => exact hcalm.lanes ▸ h lane
  | @enqueue lane' e _ _ _ hvalid hlane =>
    intro y hy
    by_cases heq : lane = lane'
    · subst heq
      dsimp only at hy
      rw [Function.update_self] at hy
      rcases List.mem_append.1 hy with hy | hy
      · exact h lane y hy
      have hfits := validateEnvelope_fits hvalid hlane
      rw [List.mem_singleton.1 hy]
      unfold slotFor Scheduler.stamp
      split <;> exact hfits
    · exact h lane y (by simpa [heq] using hy)
  | stage =>
    refine stored_rewrite (h lane) fun x => ?_
    unfold Scheduler.refresh ticketSlot
    split <;> rfl
  | pend | admits | claim => exact stored_rewrite (h lane) fun _ => rfl
  | unstage | settle | rotate | release => exact fun y hy => h lane y (mem_drop.1 hy).1
  | unlinkRaw hby => exact fun y hy => h lane y (hby.lanes ▸ (mem_drop.1 hy).1)
  | unlinkStaged hby =>
    refine stored_rewrite (fun x hx => h lane x (hby.lanes ▸ hx)) fun _ => rfl
  | sweep hby =>
    intro y hy
    rcases mem_sweep.1 hy with ⟨hy, -⟩ | ⟨x, hx, -, rfl⟩
    · exact h lane y (hby.lanes ▸ hy)
    · exact h lane x (hby.lanes ▸ hx)
  | route _ hroute =>
    obtain ⟨_, _, _, rfl⟩ := route_spec hroute
    exact h lane
  | _ => exact h lane

end Stored

section Reader

variable {s : SlotSystem} {op : Op}

/-- Nobody but the reader moves the reader. -/
theorem step_reader (hop : ∀ input, op ≠ .read input) : (s.step cfg op).1.reader = s.reader := by
  cases op with
  | read input => exact absurd rfl (hop input)
  | service env =>
    simp only [step, serviceStep, poll, noteRetirement, sample,
      select, prepareStep, recheck, settleStep,
      lifecycleSweep, route, drainCheck, drainFinish]
    repeat' split
    all_goals rfl
  | _ =>
    simp only [step, startRound, startDrain, callEnqueue,
      callUnlink, callRetire, callShutdown, callStep,
      retireFirst, releaseFirst, closeGate, activateImport,
      openAdmission, closeAdmission, fenceReset, reopenAfterReset,
      finishCall]
    repeat' split
    all_goals rfl

/-- What the reader is about to enqueue passes the scheduler's check. -/
def Checked (cfg : Config) (r : ReaderPc) : Prop :=
  ∀ e, r = .enqueueing e → validateEnvelope cfg e

theorem checked_body {header : Header} {input : Input} :
    Checked cfg (s.readBody cfg header input).1.reader := by
  intro e he
  unfold readBody at he
  split at he
  · cases he
  · split at he
    · cases he
    · dsimp only at he
      split at he <;> cases he
  · cases he
  next e' hsubmit =>
    cases he
    unfold classify at hsubmit
    repeat' split at hsubmit
    all_goals cases hsubmit
    exact envelopeForSubmission_valid ‹_›

theorem Checked.step (h : Checked cfg s.reader) (op : Op) :
    Checked cfg (s.step cfg op).1.reader := by
  by_cases hop : ∀ input, op ≠ .read input
  · rw [step_reader hop]
    exact h
  obtain ⟨input, rfl⟩ : ∃ input, op = .read input := by simpa using hop
  intro e he
  simp only [System.step, System.readerStep] at he
  split at he
  · unfold readHeader at he
    repeat' split at he
    all_goals cases he
  · exact checked_body e he
  · repeat' split at he
    all_goals first | cases he | exact h e he
  · split at he <;> cases he
  · dsimp only at he
    split at he <;> cases he
  · unfold readEnqueue at he
    split at he <;> first | cases he | exact h e he
  · exact h e he

/-- A checked envelope with its own reservation is never refused as invalid. -/
theorem enqueue_ne_invalid {e : Envelope} (hvalid : validateEnvelope cfg e)
    (hreserved : e.sequence ∈ s.framingSequences) :
    s.toScheduler.enqueue cfg e true ≠ .error .invalidRequest := by
  obtain ⟨lane, hlane⟩ := validateEnvelope_lane hvalid
  unfold Scheduler.enqueue
  rw [hvalid, hlane]
  dsimp only
  split
  next err herr =>
    intro h
    unfold Scheduler.refusal at herr
    repeat' split at herr
    all_goals simp_all
  · repeat' split
    all_goals simp

theorem readerStep_ne_invalid (hchecked : Checked cfg s.reader)
    (hreserved : s.framingSequences = s.reader.command.reserves) (input : Input) :
    (s.readerStep cfg input).2 ≠ .refused .invalidRequest := by
  unfold readerStep
  split
  · unfold readHeader
    split
    · simp
    split
    · simp
    split
    next err herr =>
      rintro ⟨⟩
      unfold Scheduler.reserveFramingSequence at herr
      repeat' split at herr
      all_goals cases herr
    · simp
  · unfold readBody
    repeat' split
    all_goals simp
  · repeat' split
    all_goals simp
  · split <;> simp
  · simp
  next e he =>
    have hmem : e.sequence ∈ s.framingSequences := by
      simp [hreserved, he, ReaderPc.command, Command.reserves]
    have hne := enqueue_ne_invalid (hchecked e he) hmem
    unfold readEnqueue
    split
    all_goals simp_all
  · simp

end Reader

/-- **The reader and the scheduler agree.**  An envelope the reader makes is accepted by
`validateEnvelope`, its payload fits every slot of its lane, and its response window fits the
reserved buffer.  So in a run no command of the host is refused as invalid, and every
queued submission has its payload inside its slot and its window inside the buffer. -/
theorem submissions_agree (cfg : Config) : (∀ header payload generation e,
      envelopeForSubmission cfg.limits header payload generation = some e →
        validateEnvelope cfg e ∧ (∃ lane, e.lane = some lane ∧
          e.data.length ≤ cfg.payloadCapacity lane) ∧
        ∀ (s : SlotScheduler) (ordinal : Nat),
          responseWindow cfg (slotFor cfg (s.stamp cfg e) ordinal) ≤ cfg.maximumResponseLength) ∧
    ∀ (epoch : Nat) (ops : List Op),
      (∀ ev ∈ trace (System.step cfg) (newSystem cfg epoch) ops, ∀ input, ev.op = .read input →
        ev.out ≠ .refused .invalidRequest) ∧
      ∀ lane, ∀ x ∈ (reached cfg epoch ops).jobs cfg lane,
        x.payload.length ≤ cfg.payloadCapacity lane ∧
          responseWindow cfg x ≤ cfg.maximumResponseLength := by
  refine ⟨fun header payload generation e he => ?_, fun epoch ops => ⟨fun ev hev input hop => ?_,
    fun lane x hx => ⟨?_, responseWindow_le cfg x⟩⟩⟩
  · have hvalid := envelopeForSubmission_valid he
    obtain ⟨lane, hlane⟩ := validateEnvelope_lane hvalid
    exact ⟨hvalid, ⟨lane, hlane, validateEnvelope_fits hvalid hlane⟩,
      fun s ordinal => responseWindow_le cfg _⟩
  · obtain ⟨before, op, after, -, rfl⟩ := mem_trace hev
    obtain rfl : op = .read input := hop
    have hchecked : Checked cfg (reached cfg epoch before).reader :=
      invariant_final (I := fun s : SlotSystem => Checked cfg s.reader) (fun _ op h => h.step op)
        (by rintro _ ⟨⟩) before
    have hreserved := (sequenced_run cfg epoch before).reserved.framing
    exact readerStep_ne_invalid hchecked hreserved input
  · exact labels_rule (P := fun _ b => Stored cfg b) (by rintro _ _ ⟨⟩)
      (fun _ _ _ _ _ hm h => h.move hm) ops lane x hx

/-- An interrupt submission of four bytes. -/
def interruptOutHeader : Header :=
  { command := cmdSubmitCode, seq := 7, dir := dirOut, ep := 1, devid := 0, transferLength := 4 }

theorem interruptOut_agrees : ∃ e,
    envelopeForSubmission smallConfig.limits interruptOutHeader [1, 2, 3, 4] 1 = some e ∧
      validateEnvelope smallConfig e ∧
        e.data.length ≤ smallConfig.payloadCapacity .interruptOut := by
  obtain ⟨hvalid, ⟨_, ⟨⟩, hfits⟩, -⟩ :=
    (submissions_agree smallConfig).1 interruptOutHeader [1, 2, 3, 4] 1 _ rfl
  exact ⟨_, rfl, hvalid, hfits⟩

end Viiper.Ports.Retained
