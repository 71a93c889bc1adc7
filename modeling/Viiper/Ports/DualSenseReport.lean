import Viiper.Verified.GoTypes

/-!
# DualSense input states and their USB reports

`InputState` is one complete sample of the controller.  The encoder writes it as
the 64-byte HID input report; the two trigger values are bytes 5 and 6.  A state
with a button or d-pad bit the controller does not have is not encoded: its
report is the neutral one.

The report is a list.  The source writes each field at its offset into a cleared
buffer; here the fields follow one another, and what the source leaves cleared is
written as zero.
-/

namespace Viiper.Ports.DualSense

open Verified.Go

/-- The source passes `left bool` for the trigger a function is about. -/
inductive Side
  | left | right
  deriving DecidableEq

/-- `InputState`; the defaults are Go's zero values. -/
structure InputState where
  (lx ly rx ry : Int8 := 0)
  buttons : UInt32 := 0
  (dpad l2 r2 : UInt8 := 0)
  (touch1X touch1Y : UInt16 := 0)
  touch1Active : Bool := false
  touch1Tracking : UInt8 := 0
  (touch2X touch2Y : UInt16 := 0)
  touch2Active : Bool := false
  touch2Tracking : UInt8 := 0
  (gyroX gyroY gyroZ accelX accelY accelZ : Int16 := 0)
  (physicalMetadataValid physicalMetadataEdgeLayout : Bool := false)
  physicalSensorTimestamp : UInt32 := 0
  physicalInputMetadata : Vector UInt8 15 := Vector.replicate 15 0
  deriving DecidableEq

def defaultAccelZRaw : Int16 := -8192

def neutralInputState : InputState := { accelZ := defaultAccelZRaw }

def buttonL2 : UInt32 := 0x0400
def buttonR2 : UInt32 := 0x0800

/-- All buttons from `ButtonSquare` to `ButtonEdgeR4`. -/
def validDualSenseInputButtons : UInt32 := 0x00F7FFF0

def validDualSenseInputDPad : UInt8 := 0x0F

def triggerValue (state : InputState) : Side → UInt8
  | .left => state.l2
  | .right => state.r2

/-- The digital bit of a trigger. -/
def Side.button : Side → UInt32
  | .left => buttonL2
  | .right => buttonR2

def inputStateControlsInvalid (s : InputState) : Bool :=
  s.buttons &&& ~~~validDualSenseInputButtons != 0 || s.dpad &&& ~~~validDualSenseInputDPad != 0

/-! ## The encoder -/

def inputReportSize : Nat := 64

def putUint16 (v : UInt16) : Bytes := [v.toUInt8, (v >>> 8).toUInt8]

def putUint32 (v : UInt32) : Bytes :=
  [v.toUInt8, (v >>> 8).toUInt8, (v >>> 16).toUInt8, (v >>> 24).toUInt8]

def touchInactiveMask : UInt8 := 0x80

def normalizeTouchTracking (active : Bool) (tracking : UInt8) : UInt8 :=
  if active then tracking &&& ~~~touchInactiveMask
  else if tracking == 0 then touchInactiveMask
  else tracking ||| touchInactiveMask

def encodeTouchCoords (x y : UInt16) : Bytes :=
  let x := min x 1920
  let y := min y 1080
  [(x &&& 0xFF).toUInt8, ((x >>> 8) &&& 0x0F).toUInt8 ||| ((y &&& 0x0F) <<< 4).toUInt8,
    (y >>> 4).toUInt8]

/-- The d-pad as a hat switch; bits 0 to 3 are up, down, left and right. -/
def usbDPad (dpad : UInt8) : UInt8 :=
  let up := dpad &&& 0x01 != 0
  let down := dpad &&& 0x02 != 0
  let left := dpad &&& 0x04 != 0
  let right := dpad &&& 0x08 != 0
  if up && right then 0x01
  else if up && left then 0x07
  else if down && right then 0x03
  else if down && left then 0x05
  else if up then 0x00
  else if down then 0x04
  else if left then 0x06
  else if right then 0x02
  else 0x08

/-- `encodeUSBInputStatus`: bytes 49 to 52. -/
def encodeUSBInputStatus (timestamp : UInt32) (edge : Bool) : Bytes :=
  if edge then [0x80, 0, 0, 0] else putUint32 timestamp

/-- `encodeUSBInputMetadata`: bytes 28 to 31, and bytes 41 to 55.  The metadata of
the physical controller is used if it is valid, its layout-dependent bytes only for
a virtual controller of the same layout. -/
def encodeUSBInputMetadata (state : Option InputState) (timestamp : UInt32) (edge : Bool)
    (battery : UInt8) : Bytes × Bytes :=
  match state.filter (·.physicalMetadataValid) with
  | none =>
    (putUint32 timestamp, [0, 0x09, 0x09, 0, 0, 0, 0, 0] ++ encodeUSBInputStatus timestamp edge ++
        [battery, 0x08, 0])
  | some state =>
    let metadata := state.physicalInputMetadata.toList
    (putUint32 state.physicalSensorTimestamp, metadata.take 8 ++
        (if state.physicalMetadataEdgeLayout = edge then (metadata.drop 8).take 4
          else encodeUSBInputStatus timestamp edge) ++
        [state.physicalInputMetadata[12], state.physicalInputMetadata[13] &&& 0x07 ||| 0x08,
          state.physicalInputMetadata[14]])

/-- `resetUSBInputReportToNeutral`, as the encoder calls it: without metadata. -/
def resetUSBInputReportToNeutral (sequence : UInt8) (packetSequence timestamp : UInt32)
    (battery : UInt8) (edge : Bool) : Bytes :=
  let metadata := encodeUSBInputMetadata none timestamp edge battery
  [0x01, 128, 128, 128, 128, 0, 0, sequence, 0x08, 0, 0, 0] ++ putUint32 packetSequence ++
    [0, 0, 0, 0, 0, 0] ++
    (putUint16 0 ++ putUint16 0 ++ putUint16 defaultAccelZRaw.toUInt16) ++
    metadata.1 ++ [0] ++ [touchInactiveMask, 0, 0, 0] ++ [touchInactiveMask, 0, 0, 0] ++
    metadata.2 ++ List.replicate 8 0

def encodeUSBInputReportInto (state : InputState) (battery sequence : UInt8)
    (packetSequence timestamp : UInt32) (edge : Bool) : Bytes :=
  if inputStateControlsInvalid state then
    resetUSBInputReportToNeutral sequence packetSequence timestamp battery edge
  else
    let metadata := encodeUSBInputMetadata (some state) timestamp edge battery
    [0x01, state.lx.toUInt8 + 128, state.ly.toUInt8 + 128, state.rx.toUInt8 + 128,
      state.ry.toUInt8 + 128, state.l2, state.r2, sequence,
      (usbDPad state.dpad &&& 0x0F) ||| (state.buttons.toUInt8 &&& 0xF0),
      (state.buttons >>> 8).toUInt8, (state.buttons >>> 16).toUInt8, 0] ++
      putUint32 packetSequence ++
      (putUint16 state.gyroX.toUInt16 ++ putUint16 state.gyroY.toUInt16 ++
        putUint16 state.gyroZ.toUInt16) ++
      (putUint16 state.accelX.toUInt16 ++ putUint16 state.accelY.toUInt16 ++
        putUint16 state.accelZ.toUInt16) ++
      metadata.1 ++ [0] ++
      ([normalizeTouchTracking state.touch1Active state.touch1Tracking] ++
        encodeTouchCoords state.touch1X state.touch1Y) ++
      ([normalizeTouchTracking state.touch2Active state.touch2Tracking] ++
        encodeTouchCoords state.touch2X state.touch2Y) ++
      metadata.2 ++ List.replicate 8 0

/-- Where a report carries the value of a trigger. -/
def Side.offset : Side → Nat
  | .left => 5
  | .right => 6

/-- The report of a state with known controls carries both trigger values. -/
theorem encode_trigger {state : InputState} (hvalid : inputStateControlsInvalid state = false)
    (battery sequence : UInt8) (packetSequence timestamp : UInt32) (edge : Bool) (t : Side) :
    (encodeUSBInputReportInto state battery sequence packetSequence timestamp edge)[t.offset]? =
      some (triggerValue state t) := by
  unfold encodeUSBInputReportInto
  rw [if_neg (by simp [hvalid])]
  cases t <;> simp [Side.offset, triggerValue]

/-! ## Physical trigger status -/

def physicalMetadataLayoutsMatch (a b : InputState) : Bool :=
  a.physicalMetadataValid == b.physicalMetadataValid &&
    (!a.physicalMetadataValid || a.physicalMetadataEdgeLayout == b.physicalMetadataEdgeLayout)

/-- Byte of `physicalInputMetadata` with the status of a trigger. -/
def Side.status : Side → Fin 15
  | .left => 2
  | .right => 1

/-- The nibble of the shared effect status which belongs to a trigger. -/
def Side.nibble : Side → UInt8
  | .left => 0xF0
  | .right => 0x0F

def physicalMetadataEffectStatus : Fin 15 := 7

def triggerPhysicalStatusMatches (a b : InputState) (t : Side) : Bool :=
  physicalMetadataLayoutsMatch a b && (!a.physicalMetadataValid ||
      (a.physicalInputMetadata[t.status] == b.physicalInputMetadata[t.status] &&
        a.physicalInputMetadata[physicalMetadataEffectStatus] &&& t.nibble ==
          b.physicalInputMetadata[physicalMetadataEffectStatus] &&& t.nibble))

def Side.other : Side → Side
  | .left => .right
  | .right => .left

/-- The source spells the comparison of the other trigger out again. -/
def oppositeTriggerPhysicalStatusMatches (a b : InputState) (t : Side) : Bool :=
  triggerPhysicalStatusMatches a b t.other

/-- Copy the status of one trigger, if both states have metadata of one layout. -/
def copyTriggerPhysicalStatus (destination source : InputState) (t : Side) : InputState :=
  if destination.physicalMetadataValid && source.physicalMetadataValid &&
      destination.physicalMetadataEdgeLayout == source.physicalMetadataEdgeLayout then
    { destination with
      physicalInputMetadata :=
        (destination.physicalInputMetadata.set t.status
          (source.physicalInputMetadata[t.status])).set physicalMetadataEffectStatus
          ((destination.physicalInputMetadata[physicalMetadataEffectStatus] &&& t.other.nibble) |||
            (source.physicalInputMetadata[physicalMetadataEffectStatus] &&& t.nibble)) }
  else destination

/-- `setTriggerPeak`: raise one trigger of a state to a peak and couple its status. -/
def setTriggerPeak (state peakState : InputState) (t : Side) (peak : UInt8) : InputState :=
  let buttons := if peak != 0 then state.buttons ||| t.button else state.buttons
  let raised : InputState :=
    match t with
    | .left => { state with l2 := peak, buttons := buttons }
    | .right => { state with r2 := peak, buttons := buttons }
  copyTriggerPhysicalStatus raised peakState t

/-! ### The status of one trigger -/

section Status

variable {a b c : InputState} {t : Side}

/-- Two states agree on a trigger's status, spelled out. -/
theorem matches_iff : triggerPhysicalStatusMatches a b t = true ↔
    a.physicalMetadataValid = b.physicalMetadataValid ∧
    (a.physicalMetadataValid → a.physicalMetadataEdgeLayout = b.physicalMetadataEdgeLayout ∧
      a.physicalInputMetadata[t.status] = b.physicalInputMetadata[t.status] ∧
      a.physicalInputMetadata[physicalMetadataEffectStatus] &&& t.nibble =
        b.physicalInputMetadata[physicalMetadataEffectStatus] &&& t.nibble) := by
  cases ha : a.physicalMetadataValid <;>
    simp [triggerPhysicalStatusMatches, physicalMetadataLayoutsMatch, ha, and_assoc]

theorem matches_refl (a : InputState) (t : Side) : triggerPhysicalStatusMatches a a t :=
  matches_iff.2 ⟨rfl, fun _ => ⟨rfl, rfl, rfl⟩⟩

theorem matches_symm (h : triggerPhysicalStatusMatches a b t) :
    triggerPhysicalStatusMatches b a t := by
  obtain ⟨hvalid, hstatus⟩ := matches_iff.1 h
  refine matches_iff.2 ⟨hvalid.symm, fun hb => ?_⟩
  obtain ⟨h1, h2, h3⟩ := hstatus (hvalid.trans hb)
  exact ⟨h1.symm, h2.symm, h3.symm⟩

theorem matches_trans (hab : triggerPhysicalStatusMatches a b t)
    (hbc : triggerPhysicalStatusMatches b c t) : triggerPhysicalStatusMatches a c t := by
  obtain ⟨hvalid, hstatus⟩ := matches_iff.1 hab
  obtain ⟨hvalid', hstatus'⟩ := matches_iff.1 hbc
  refine matches_iff.2 ⟨hvalid.trans hvalid', fun ha => ?_⟩
  obtain ⟨h1, h2, h3⟩ := hstatus ha
  obtain ⟨h1', h2', h3'⟩ := hstatus' (hvalid ▸ ha)
  exact ⟨h1.trans h1', h2.trans h2', h3.trans h3'⟩

private theorem and_or_left (x y z : UInt8) : x &&& (y ||| z) = (x &&& y) ||| (x &&& z) := by
  apply UInt8.eq_of_toBitVec_eq
  apply BitVec.eq_of_getLsbD_eq
  simp [Bool.and_or_distrib_left]

/-- A byte is put together from its two nibbles. -/
theorem nibbles (t : Side) (x y : UInt8) (h : x &&& t.nibble = y &&& t.nibble) :
    (x &&& t.other.nibble) ||| (y &&& t.nibble) = x := by
  have hall : t.other.nibble ||| t.nibble = 255 := by cases t <;> decide
  rw [← h, ← and_or_left, hall]
  apply UInt8.eq_of_toBitVec_eq
  exact BitVec.and_allOnes

/-- The nibble of a trigger in a byte put together from two. -/
theorem nibble_of_nibbles (t : Side) (x y : UInt8) :
    ((x &&& t.other.nibble) ||| (y &&& t.nibble)) &&& t.nibble = y &&& t.nibble ∧
      ((x &&& t.other.nibble) ||| (y &&& t.nibble)) &&& t.other.nibble = x &&& t.other.nibble := by
  have hself : ∀ t : Side, t.nibble &&& t.nibble = t.nibble := by intro t; cases t <;> decide
  have hother : t.nibble &&& t.other.nibble = 0 := by cases t <;> decide
  constructor
  · rw [UInt8.and_comm, and_or_left, UInt8.and_comm x, ← UInt8.and_assoc, hother,
      UInt8.and_comm y, ← UInt8.and_assoc, hself]
    simp
  · rw [UInt8.and_comm, and_or_left, UInt8.and_comm x, ← UInt8.and_assoc, hself,
      UInt8.and_comm y, ← UInt8.and_assoc, UInt8.and_comm t.other.nibble t.nibble, hother]
    simp

/-- Copying a status onto a state which already has it changes nothing. -/
theorem copy_eq_of_matches (h : triggerPhysicalStatusMatches a b t) :
    copyTriggerPhysicalStatus a b t = a := by
  obtain ⟨hvalid, hstatus⟩ := matches_iff.1 h
  unfold copyTriggerPhysicalStatus
  split
  next hcopy =>
    simp only [Bool.and_eq_true] at hcopy
    obtain ⟨-, h2, h3⟩ := hstatus hcopy.1.1
    rw [← h2, nibbles t _ _ h3]
    simp
  · rfl

/-- A copied status is the one of the source, if the layouts agree. -/
theorem copy_matches (h : physicalMetadataLayoutsMatch a b) :
    triggerPhysicalStatusMatches (copyTriggerPhysicalStatus a b t) b t := by
  have hne : t.status ≠ physicalMetadataEffectStatus := by cases t <;> decide
  have hval := Fin.val_ne_of_ne hne
  unfold copyTriggerPhysicalStatus
  split
  next hcopy =>
    simp only [Bool.and_eq_true, beq_iff_eq] at hcopy
    refine matches_iff.2 ⟨hcopy.1.1.trans hcopy.1.2.symm, fun _ => ⟨hcopy.2, ?_, ?_⟩⟩
    · simp [hval.symm]
    · simpa using (nibble_of_nibbles t _ _).1
  next hcopy =>
    cases ha : a.physicalMetadataValid <;>
      simp_all [physicalMetadataLayoutsMatch, triggerPhysicalStatusMatches]

/-- The status of the other trigger is left alone. -/
theorem copy_matches_other (a b c : InputState) (t : Side) :
    triggerPhysicalStatusMatches (copyTriggerPhysicalStatus a b t) c t.other =
      triggerPhysicalStatusMatches a c t.other := by
  have hne : t.status ≠ t.other.status := by cases t <;> decide
  have hval := Fin.val_ne_of_ne hne
  have heffect : t.other.status ≠ physicalMetadataEffectStatus := by cases t <;> decide
  have heffect' := Fin.val_ne_of_ne heffect
  unfold copyTriggerPhysicalStatus
  split
  · simp only [triggerPhysicalStatusMatches, physicalMetadataLayoutsMatch, Fin.getElem_fin,
      Vector.getElem_set_ne _ _ heffect'.symm, Vector.getElem_set_ne _ _ hval,
      Vector.getElem_set_self, (nibble_of_nibbles t _ _).2]
  · rfl

@[simp] theorem triggerValue_copy (a b : InputState) (t t' : Side) :
    triggerValue (copyTriggerPhysicalStatus a b t) t' = triggerValue a t' := by
  unfold copyTriggerPhysicalStatus
  split <;> rfl

@[simp] theorem invalid_copy (a b : InputState) (t : Side) :
    inputStateControlsInvalid (copyTriggerPhysicalStatus a b t) = inputStateControlsInvalid a := by
  unfold copyTriggerPhysicalStatus
  split <;> rfl

/-- Raising a trigger adds no control the controller does not have. -/
theorem valid_setTriggerPeak (h : inputStateControlsInvalid a = false) (b : InputState)
    (t : Side) (peak : UInt8) : inputStateControlsInvalid (setTriggerPeak a b t peak) = false := by
  have hbutton : t.button &&& ~~~validDualSenseInputButtons = 0 := by cases t <;> decide
  have hor : (a.buttons ||| t.button) &&& ~~~validDualSenseInputButtons =
      (a.buttons &&& ~~~validDualSenseInputButtons) |||
        (t.button &&& ~~~validDualSenseInputButtons) := by
    apply UInt32.eq_of_toBitVec_eq
    apply BitVec.eq_of_getLsbD_eq
    simp [Bool.and_or_distrib_right]
  rw [hbutton, UInt32.or_zero] at hor
  cases t <;> rw [setTriggerPeak, invalid_copy] <;>
    · simp only [inputStateControlsInvalid] at h ⊢
      split
      · rw [hor]
        exact h
      · exact h

end Status

end Viiper.Ports.DualSense
