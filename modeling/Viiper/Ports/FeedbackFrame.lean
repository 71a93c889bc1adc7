import Mathlib.Data.Prod.Lex
import Viiper.Verified.GoTypes

/-!
# The CFBK v1 feedback frame

`Frame` of `controllerfeedback`: one complete four-channel feedback snapshot, its validity,
its freshness window, and the order in which the frames of one publisher supersede each
other.  `Source`, `Command` and `ActuatorMask` are open 8-bit types with named values, as
in the source.

`Mailbox` and `Runtime` advance a slot by the same comparison (`newer` and
`newerRuntimeFrame` have the same body), which refines the order of `Frame.watermark`.
-/

namespace Viiper.Ports.Feedback

def version1 : UInt16 := 1

/-- Bound on a timestamp ahead of the consumer's clock. -/
def maxFutureSkewMicroseconds : UInt64 := 5000

/-- Bound on a producer's actuator lease. -/
def maxTimeToLiveMicroseconds : UInt64 := 250000

/-! ## Source, command and actuators -/

abbrev Source := UInt8

def sourceInvalid : Source := 0
def sourceXboxOneVirtualDevice : Source := 1
def sourceDualShock4VirtualDevice : Source := 6

def sourceValid (source : Source) : Bool :=
  decide (sourceXboxOneVirtualDevice ≤ source) &&
    decide (source ≤ sourceDualShock4VirtualDevice)

abbrev Command := UInt8

def commandInvalid : Command := 0
def commandApply : Command := 1
def commandStop : Command := 3

def commandValid (command : Command) : Bool :=
  decide (commandApply ≤ command) && decide (command ≤ commandStop)

abbrev ActuatorMask := UInt8

def actuatorBodyLow : ActuatorMask := 0x01
def actuatorBodyHigh : ActuatorMask := 0x02
def actuatorLeftTrigger : ActuatorMask := 0x04
def actuatorRightTrigger : ActuatorMask := 0x08
def actuatorAll : ActuatorMask := 0x0F

def actuatorMaskValid (mask : ActuatorMask) : Bool := mask == actuatorAll

/-! ## The frame -/

/-- The sentinel errors `Validate` returns. -/
inductive FrameError
  | invalidVersion | invalidSource | invalidCommand | invalidActuators | invalidAmplitude
  | invalidSequence | invalidGeneration | invalidTTL

structure Frame where
  version : UInt16 := 0
  source : Source := sourceInvalid
  command : Command := commandInvalid
  actuators : ActuatorMask := 0
  (bodyLow bodyHigh leftTrigger rightTrigger : UInt16 := 0)
  sequence : UInt64 := 0
  deviceGeneration : UInt64 := 0
  (transportGeneration ownershipEpoch timestampMicroseconds timeToLiveMicroseconds : UInt64 := 0)
  deriving DecidableEq

namespace Frame

/-- `hasAmplitude` of `Validate`. -/
def hasAmplitude (frame : Frame) : Bool :=
  frame.bodyLow != 0 || frame.bodyHigh != 0 || frame.leftTrigger != 0 || frame.rightTrigger != 0

/-- `Validate`; the checks in the order of the source. -/
def validate (frame : Frame) : Except FrameError Unit :=
  if frame.version ≠ version1 then .error .invalidVersion
  else if !sourceValid frame.source then .error .invalidSource
  else if !commandValid frame.command then .error .invalidCommand
  else if !actuatorMaskValid frame.actuators then .error .invalidActuators
  else if frame.sequence = 0 then .error .invalidSequence
  else if frame.deviceGeneration = 0 ∨ frame.transportGeneration = 0 ∨
      frame.ownershipEpoch = 0 then .error .invalidGeneration
  else if frame.timeToLiveMicroseconds = 0 ∨
      maxTimeToLiveMicroseconds < frame.timeToLiveMicroseconds then
    .error .invalidTTL
  else if (frame.actuators &&& actuatorBodyLow = 0 ∧ frame.bodyLow ≠ 0) ∨
      (frame.actuators &&& actuatorBodyHigh = 0 ∧ frame.bodyHigh ≠ 0) ∨
      (frame.actuators &&& actuatorLeftTrigger = 0 ∧ frame.leftTrigger ≠ 0) ∨
      (frame.actuators &&& actuatorRightTrigger = 0 ∧ frame.rightTrigger ≠ 0) then
    .error .invalidAmplitude
  else if frame.command = commandApply then
    if frame.hasAmplitude then .ok () else .error .invalidAmplitude
  else if frame.hasAmplitude then .error .invalidAmplitude
  else .ok ()

def valid (frame : Frame) : Bool :=
  match frame.validate with
  | .ok _ => true
  | .error _ => false

/-- `FreshAt`.  Neither subtraction can wrap: each is taken on the side where
it is nonnegative. -/
def freshAt (frame : Frame) (nowMicroseconds : UInt64) : Bool :=
  if frame.timestampMicroseconds > nowMicroseconds then
    decide (frame.timestampMicroseconds - nowMicroseconds ≤ maxFutureSkewMicroseconds)
  else
    decide (nowMicroseconds - frame.timestampMicroseconds < frame.timeToLiveMicroseconds)

def expiredAt (frame : Frame) (nowMicroseconds : UInt64) : Bool :=
  !frame.freshAt nowMicroseconds

/-- A frame passes `Validate` exactly when its version, source, command and
mask are the declared ones, its identities are nonzero, its lease is bounded,
and it carries amplitude exactly when it applies one.  The per-actuator mask
check of the source is implied by the full mask. -/
theorem valid_iff (frame : Frame) : frame.valid = true ↔
      frame.version = version1 ∧ sourceValid frame.source ∧
      commandValid frame.command ∧ frame.actuators = actuatorAll ∧
      frame.sequence ≠ 0 ∧ frame.deviceGeneration ≠ 0 ∧
      frame.transportGeneration ≠ 0 ∧ frame.ownershipEpoch ≠ 0 ∧
      frame.timeToLiveMicroseconds ≠ 0 ∧
      frame.timeToLiveMicroseconds ≤ maxTimeToLiveMicroseconds ∧
      (frame.command = commandApply ↔ frame.hasAmplitude) := by
  have hlow : ¬ actuatorAll &&& actuatorBodyLow = 0 := by decide
  have hhigh : ¬ actuatorAll &&& actuatorBodyHigh = 0 := by decide
  have hleft : ¬ actuatorAll &&& actuatorLeftTrigger = 0 := by decide
  have hright : ¬ actuatorAll &&& actuatorRightTrigger = 0 := by decide
  unfold valid validate
  by_cases hmask : frame.actuators = actuatorAll
  · have hvalid : actuatorMaskValid frame.actuators := by
      simp [actuatorMaskValid, hmask]
    by_cases hamp : frame.hasAmplitude = true <;>
      grind
  · have hinvalid : actuatorMaskValid frame.actuators = false := by
      simp [actuatorMaskValid, hmask]
    grind

end Frame

/-! ## The order of one publisher's frames -/

/-- `newer` of the mailbox and `newerRuntimeFrame` of the runtime.  A stop is
terminal for its ownership epoch. -/
def newer (candidate current : Frame) : Bool :=
  if candidate.deviceGeneration ≠ current.deviceGeneration then
    decide (candidate.deviceGeneration > current.deviceGeneration)
  else if candidate.transportGeneration ≠ current.transportGeneration then
    decide (candidate.transportGeneration > current.transportGeneration)
  else if candidate.ownershipEpoch ≠ current.ownershipEpoch then
    decide (candidate.ownershipEpoch > current.ownershipEpoch)
  else
    current.command != commandStop && candidate.source == current.source &&
      decide (candidate.sequence > current.sequence)

/-- The device and transport generation a frame addresses, ordered
lexicographically. -/
def Frame.target (frame : Frame) : ℕ ×ₗ ℕ :=
  toLex (frame.deviceGeneration.toNat, frame.transportGeneration.toNat)

/-- The generation/epoch/sequence order of the frames of one publisher. -/
def Frame.watermark (frame : Frame) : (ℕ ×ₗ ℕ) ×ₗ (ℕ ×ₗ ℕ) :=
  toLex (frame.target, toLex (frame.ownershipEpoch.toNat, frame.sequence.toNat))

/-- **Supersession follows the watermark.**  A frame which replaces another
is strictly later in the generation/epoch/sequence order. -/
theorem newer_watermark {candidate current : Frame} (h : newer candidate current) :
    current.watermark < candidate.watermark := by
  unfold newer at h
  simp only [Frame.watermark, Frame.target, Prod.Lex.toLex_lt_toLex,
    UInt64.lt_iff_toNat_lt, gt_iff_lt] at h ⊢
  split at h
  · exact .inl (.inl (by simpa using h))
  rename_i hdevice
  have hdevice' : candidate.deviceGeneration = current.deviceGeneration := by
    simpa using hdevice
  rw [hdevice']
  split at h
  · exact .inl (.inr ⟨rfl, by simpa using h⟩)
  rename_i htransport
  have htransport' : candidate.transportGeneration = current.transportGeneration := by
    simpa using htransport
  rw [htransport']
  split at h
  · exact .inr ⟨rfl, .inl (by simpa using h)⟩
  rename_i hepoch
  have hepoch' : candidate.ownershipEpoch = current.ownershipEpoch := by
    simpa using hepoch
  rw [hepoch']
  simp only [Bool.and_eq_true, decide_eq_true_eq] at h
  exact .inr ⟨rfl, .inr ⟨rfl, h.2⟩⟩

end Viiper.Ports.Feedback
