import Viiper.Ports.FeedbackFrame
import Viiper.Verified.Framing

/-!
# CFBK v1 on the wire, and its clock

`MarshalTo` and `UnmarshalFrom` of `frame.go`, and `qpcToMicroseconds` of
`clock.go`.  A call answers with its error and with what it leaves behind it: the
destination slice, or the receiver.  `UnmarshalFrom` clears the receiver before
it looks at the source, so the old value plays no part.
-/

namespace Viiper.Ports.Feedback

open Verified Go Framing

/-! ## Fixed-width fields -/

def putUint16 (v : UInt16) : Bytes := le 2 v.toNat
def putUint32 (v : UInt32) : Bytes := le 4 v.toNat
def putUint64 (v : UInt64) : Bytes := le 8 v.toNat

def byteAt (src : Bytes) (i : Nat) : UInt8 := src.getD i 0
def uint16At (src : Bytes) (i : Nat) : UInt16 := .ofNat (readLE (slice src i 2))
def uint32At (src : Bytes) (i : Nat) : UInt32 := .ofNat (readLE (slice src i 4))
def uint64At (src : Bytes) (i : Nat) : UInt64 := .ofNat (readLE (slice src i 8))

section Fields

variable {src : Bytes} {i : Nat}

theorem uint16At_eq {v : UInt16} (h : slice src i 2 = putUint16 v) : uint16At src i = v := by
  have hv : v.toNat < 256 ^ 2 := v.toNat_lt
  rw [uint16At, h, putUint16, readLE_le, Nat.mod_eq_of_lt hv, UInt16.ofNat_toNat]

theorem uint32At_eq {v : UInt32} (h : slice src i 4 = putUint32 v) : uint32At src i = v := by
  have hv : v.toNat < 256 ^ 4 := v.toNat_lt
  rw [uint32At, h, putUint32, readLE_le, Nat.mod_eq_of_lt hv, UInt32.ofNat_toNat]

theorem uint64At_eq {v : UInt64} (h : slice src i 8 = putUint64 v) : uint64At src i = v := by
  have hv : v.toNat < 256 ^ 8 := v.toNat_lt
  rw [uint64At, h, putUint64, readLE_le, Nat.mod_eq_of_lt hv, UInt64.ofNat_toNat]

/-- A number of the width of a slice, read from the slice and written again. -/
theorem le_slice {n v : Nat} (hlen : i + n ≤ src.length)
    (hv : v = readLE (slice src i n) % 256 ^ n) : le n v = slice src i n := by
  have hn : (slice src i n).length = n := by
    rw [slice, List.length_take, List.length_drop]
    omega
  have hle := le_readLE (slice src i n)
  have hlt := readLE_lt (slice src i n)
  rw [hn] at hle hlt
  rw [hv, Nat.mod_eq_of_lt hlt, hle]

theorem singleton_byteAt (h : i < src.length) : [byteAt src i] = slice src i 1 := by
  rw [byteAt, List.getD_eq_getElem?_getD, List.getElem?_eq_getElem h, slice,
    List.drop_eq_getElem_cons h]
  rfl

end Fields

/-! ## The frame -/

def frameSize : Nat := 72

/-- Little-endian bytes spell "CFBK". -/
def wireMagic : UInt32 := 0x4B424643

/-- The sentinel errors of the codec. -/
inductive WireError
  | invalidSize
  | invalidMagic
  | reservedNonZero
  | frame (err : FrameError)

namespace Frame

/-- The bytes `MarshalTo` puts into a cleared destination, field by field; bytes 11
and 20 to 23 stay zero. -/
def fields (frame : Frame) : List Bytes :=
  [putUint32 wireMagic, putUint16 frame.version, putUint16 (.ofNat frameSize), [frame.source],
    [frame.command], [frame.actuators], [0], putUint16 frame.bodyLow, putUint16 frame.bodyHigh,
    putUint16 frame.leftTrigger, putUint16 frame.rightTrigger, [0], [0], [0], [0],
    putUint64 frame.sequence, putUint64 frame.deviceGeneration,
    putUint64 frame.transportGeneration, putUint64 frame.ownershipEpoch,
    putUint64 frame.timestampMicroseconds, putUint64 frame.timeToLiveMicroseconds]

def marshalTo (frame : Frame) (dst : Bytes) : Except WireError Unit × Bytes :=
  if dst.length < frameSize then (.error .invalidSize, dst)
  else
    match frame.validate with
    | .error err => (.error (.frame err), dst)
    | .ok () => (.ok (), frame.fields.flatten ++ dst.drop frameSize)

/-- The candidate of `UnmarshalFrom`. -/
def candidate (src : Bytes) : Frame where
  version := version1
  source := byteAt src 8
  command := byteAt src 9
  actuators := byteAt src 10
  bodyLow := uint16At src 12
  bodyHigh := uint16At src 14
  leftTrigger := uint16At src 16
  rightTrigger := uint16At src 18
  sequence := uint64At src 24
  deviceGeneration := uint64At src 32
  transportGeneration := uint64At src 40
  ownershipEpoch := uint64At src 48
  timestampMicroseconds := uint64At src 56
  timeToLiveMicroseconds := uint64At src 64

def unmarshalFrom (src : Bytes) : Except WireError Unit × Frame :=
  if src.length ≠ frameSize then (.error .invalidSize, {})
  else if uint32At src 0 ≠ wireMagic then (.error .invalidMagic, {})
  else if uint16At src 4 ≠ version1 then (.error (.frame .invalidVersion), {})
  else if uint16At src 6 ≠ .ofNat frameSize then (.error .invalidSize, {})
  else if byteAt src 11 ≠ 0 ∨ byteAt src 20 ≠ 0 ∨ byteAt src 21 ≠ 0 ∨ byteAt src 22 ≠ 0 ∨
      byteAt src 23 ≠ 0 then (.error .reservedNonZero, {})
  else
    match (candidate src).validate with
    | .error err => (.error (.frame err), {})
    | .ok () => (.ok (), candidate src)

variable {frame : Frame} {src dst : Bytes}

theorem length_fields (frame : Frame) : frame.fields.flatten.length = frameSize := rfl

theorem candidate_fields (h : frame.version = version1) :
    candidate frame.fields.flatten = frame := by
  unfold candidate
  rw [uint16At_eq (v := frame.bodyLow) rfl, uint16At_eq (v := frame.bodyHigh) rfl,
    uint16At_eq (v := frame.leftTrigger) rfl, uint16At_eq (v := frame.rightTrigger) rfl,
    uint64At_eq (v := frame.sequence) rfl, uint64At_eq (v := frame.deviceGeneration) rfl,
    uint64At_eq (v := frame.transportGeneration) rfl, uint64At_eq (v := frame.ownershipEpoch) rfl,
    uint64At_eq (v := frame.timestampMicroseconds) rfl,
    uint64At_eq (v := frame.timeToLiveMicroseconds) rfl, ← h]
  rfl

theorem validate_ok (h : frame.valid) : frame.validate = .ok () := by
  unfold valid at h
  split at h
  · assumption
  · cases h

theorem unmarshalFrom_fields (h : frame.valid) :
    unmarshalFrom frame.fields.flatten = (.ok (), frame) := by
  have hversion : frame.version = version1 := ((valid_iff frame).1 h).1
  have hmagic : uint32At frame.fields.flatten 0 = wireMagic := uint32At_eq rfl
  have hread : uint16At frame.fields.flatten 4 = version1 := hversion ▸ uint16At_eq rfl
  have hsize : uint16At frame.fields.flatten 6 = .ofNat frameSize := uint16At_eq rfl
  unfold unmarshalFrom
  rw [if_neg (not_not.2 (length_fields frame)), if_neg (not_not.2 hmagic), if_neg (not_not.2 hread),
    if_neg (not_not.2 hsize), if_neg, candidate_fields hversion, validate_ok h]
  rintro (h | h | h | h | h) <;> exact h rfl

/-- What an accepted source looks like. -/
theorem unmarshalFrom_ok (h : unmarshalFrom src = (.ok (), frame)) :
    frame.valid ∧ frame.fields.flatten = src := by
  simp only [unmarshalFrom, ite_eq_iff, Prod.mk.injEq, reduceCtorEq, false_and, and_false,
    false_or, not_or, not_not] at h
  obtain ⟨hlen, hmagic, hversion, hsize, ⟨h11, h20, h21, h22, h23⟩, h⟩ := h
  split at h
  · cases h
  rename_i hvalid
  cases h
  refine ⟨by rw [valid, hvalid], ?_⟩
  have hlen : src.length = 72 := hlen
  have h1 : ∀ i < 72, [byteAt src i] = slice src i 1 := fun i hi => singleton_byteAt (hlen ▸ hi)
  have h2 : ∀ i, i + 2 ≤ 72 → putUint16 (uint16At src i) = slice src i 2 :=
    fun i hi => le_slice (hlen ▸ hi) UInt16.toNat_ofNat'
  have h4 : putUint32 (uint32At src 0) = slice src 0 4 :=
    le_slice (by omega) UInt32.toNat_ofNat'
  have h8 : ∀ i, i + 8 ≤ 72 → putUint64 (uint64At src i) = slice src i 8 :=
    fun i hi => le_slice (hlen ▸ hi) UInt64.toNat_ofNat'
  have hcuts : (candidate src).fields =
      splitBy [4, 2, 2, 1, 1, 1, 1, 2, 2, 2, 2, 1, 1, 1, 1, 8, 8, 8, 8, 8, 8] src := by
    simp only [fields, splitBy, List.drop_drop, List.cons.injEq, and_true]
    exact ⟨hmagic ▸ h4,
      (congrArg putUint16 hversion.symm).trans (h2 4 (by decide)), hsize ▸ h2 6 (by decide),
      h1 8 (by decide), h1 9 (by decide), h1 10 (by decide), h11 ▸ h1 11 (by decide),
      h2 12 (by decide), h2 14 (by decide), h2 16 (by decide), h2 18 (by decide),
      h20 ▸ h1 20 (by decide), h21 ▸ h1 21 (by decide), h22 ▸ h1 22 (by decide),
      h23 ▸ h1 23 (by decide), h8 24 (by decide), h8 32 (by decide), h8 40 (by decide),
      h8 48 (by decide), h8 56 (by decide), h8 64 (by decide)⟩
  rw [hcuts]
  exact flatten_splitBy (by rw [hlen]; rfl)

/-- **The codec is a bijection onto what it accepts**, and a refused call leaves nothing
behind. -/
theorem frame_codec_bijective :
    (∀ frame : Frame, frame.valid → ∃ wire, wire.length = frameSize ∧
      (∀ dst, frameSize ≤ dst.length → frame.marshalTo dst = (.ok (), wire ++ dst.drop frameSize)) ∧
      unmarshalFrom wire = (.ok (), frame)) ∧
    (∀ src frame, unmarshalFrom src = (.ok (), frame) → ∀ dst, frameSize ≤ dst.length →
      frame.marshalTo dst = (.ok (), src ++ dst.drop frameSize)) ∧
    (∀ (frame : Frame) dst, frame.valid = false ∨ dst.length < frameSize →
      ∃ err, frame.marshalTo dst = (.error err, dst)) ∧
    ∀ src err frame, unmarshalFrom src = (.error err, frame) → frame = {} := by
  have hmarshal : ∀ frame : Frame, frame.valid → ∀ dst, frameSize ≤ dst.length →
      frame.marshalTo dst = (.ok (), frame.fields.flatten ++ dst.drop frameSize) := by
    intro frame h dst hdst
    rw [marshalTo, if_neg (Nat.not_lt.2 hdst), validate_ok h]
  refine ⟨fun frame h => ⟨_, length_fields frame, hmarshal frame h, unmarshalFrom_fields h⟩,
    ?_, ?_, ?_⟩
  · intro src frame h
    obtain ⟨hvalid, hwire⟩ := unmarshalFrom_ok h
    exact hwire ▸ hmarshal frame hvalid
  · rintro frame dst h
    unfold marshalTo
    split
    · exact ⟨_, rfl⟩
    rename_i hlen
    split
    · exact ⟨_, rfl⟩
    rename_i hok
    rw [valid, hok] at h
    exact absurd h (by simp [hlen])
  · intro src err frame h
    unfold unmarshalFrom at h
    repeat' split at h
    all_goals cases h
    all_goals rfl

/-- A frame which drives one trigger. -/
def sampleFrame : Frame :=
  { version := 1, source := 1, command := commandApply, actuators := actuatorAll,
    leftTrigger := 0x1234, sequence := 1, deviceGeneration := 2, transportGeneration := 3,
    ownershipEpoch := 4, timestampMicroseconds := 5, timeToLiveMicroseconds := 250000 }

theorem sampleFrame_codec : (∃ wire, wire.length = frameSize ∧ (∀ dst, frameSize ≤ dst.length →
        sampleFrame.marshalTo dst = (.ok (), wire ++ dst.drop frameSize)) ∧
      unmarshalFrom wire = (.ok (), sampleFrame)) ∧
    (∃ err, sampleFrame.marshalTo [7] = (.error err, [7])) ∧ (unmarshalFrom []).2 = {} :=
  ⟨frame_codec_bijective.1 sampleFrame (by decide),
    frame_codec_bijective.2.2.1 sampleFrame [7] (by decide),
    frame_codec_bijective.2.2.2 [] .invalidSize _ rfl⟩

end Frame

/-! ## The clock -/

def microsecondsPerSecond : UInt64 := 1000000

def maxUint64 : UInt64 := 0xFFFFFFFFFFFFFFFF

/-- `bits.Mul64`: the high and the low half of the product. -/
def mul64 (x y : UInt64) : UInt64 × UInt64 :=
  (.ofNat (x.toNat * y.toNat / 2 ^ 64), .ofNat (x.toNat * y.toNat))

/-- `bits.Div64`: quotient and remainder; it panics unless the quotient fits. -/
def div64 (high low y : UInt64) : Option (UInt64 × UInt64) :=
  if y ≤ high then none
  else
    let x := high.toNat * 2 ^ 64 + low.toNat
    some (.ofNat (x / y.toNat), .ofNat (x % y.toNat))

/-- `qpcToMicroseconds`; `none` would be the panic of `Div64`. -/
def qpcToMicroseconds (counter frequency : UInt64) : Option (UInt64 × Bool) :=
  if frequency = 0 then some (0, false)
  else
    let whole := counter / frequency
    if whole > maxUint64 / microsecondsPerSecond then some (0, false)
    else
      let (high, low) := mul64 (counter % frequency) microsecondsPerSecond
      (div64 high low frequency).map fun (fraction, _) =>
        (whole * microsecondsPerSecond + fraction, true)

section Clock

variable {counter frequency : UInt64}

/-- The quotient the conversion is about. -/
def microseconds (counter frequency : UInt64) : Nat :=
  counter.toNat * 1000000 / frequency.toNat

/-- The product of two words is its two halves. -/
theorem mul64_halves (x y : UInt64) :
    (mul64 x y).1.toNat * 2 ^ 64 + (mul64 x y).2.toNat = x.toNat * y.toNat := by
  have hx := x.toNat_lt
  have hy := y.toNat_lt
  have hlt : x.toNat * y.toNat / 2 ^ 64 < 2 ^ 64 :=
    Nat.div_lt_of_lt_mul (Nat.mul_lt_mul'' hx hy)
  simp only [mul64, UInt64.toNat_ofNat', Nat.mod_eq_of_lt hlt]
  exact Nat.div_add_mod' ..

/-- The division of the fraction never panics. -/
theorem div64_mul64 (h : counter < frequency) :
    div64 (mul64 counter microsecondsPerSecond).1 (mul64 counter microsecondsPerSecond).2
        frequency = some (.ofNat (microseconds counter frequency),
        .ofNat (counter.toNat * 1000000 % frequency.toNat)) := by
  have hhalves := mul64_halves counter microsecondsPerSecond
  have hmul : microsecondsPerSecond.toNat = 1000000 := rfl
  rw [UInt64.lt_iff_toNat_lt] at h
  rw [div64, if_neg, hhalves]
  · rfl
  · rw [UInt64.not_le, UInt64.lt_iff_toNat_lt]
    rw [hmul] at hhalves
    omega

theorem microseconds_eq (h : frequency ≠ 0) : microseconds counter frequency =
    counter.toNat / frequency.toNat * 1000000 + microseconds (counter % frequency) frequency := by
  have hpos : 0 < frequency.toNat := Nat.pos_of_ne_zero fun h0 => h (UInt64.toNat_inj.1 h0)
  have hsplit := Nat.div_add_mod counter.toNat frequency.toNat
  unfold microseconds
  rw [UInt64.toNat_mod, ← Nat.mul_add_div hpos, ← Nat.mul_assoc, ← Nat.add_mul, hsplit]

/-- **What the conversion returns**: the quotient modulo `2 ^ 64`, unless the whole seconds
alone are too many. -/
theorem qpcToMicroseconds_eq (counter frequency : UInt64) : qpcToMicroseconds counter frequency =
      some (if frequency = 0 ∨ 18446744073709 < counter.toNat / frequency.toNat then (0, false)
        else (.ofNat (microseconds counter frequency), true)) := by
  unfold qpcToMicroseconds
  by_cases hzero : frequency = 0
  · rw [if_pos hzero, if_pos (.inl hzero)]
  have hgt : counter / frequency > maxUint64 / microsecondsPerSecond ↔
      18446744073709 < counter.toNat / frequency.toNat := by
    rfl
  rw [if_neg hzero]
  by_cases hwhole : 18446744073709 < counter.toNat / frequency.toNat
  · rw [if_pos (hgt.2 hwhole), if_pos (.inr hwhole)]
  have hmod : counter % frequency < frequency := by
    exact Nat.mod_lt _ (Nat.pos_of_ne_zero fun h0 => hzero (UInt64.toNat_inj.1 h0))
  rw [if_neg (hgt.not.2 hwhole), if_neg (not_or.2 ⟨hzero, hwhole⟩)]
  show Option.map _ (div64 (mul64 _ _).1 (mul64 _ _).2 frequency) = _
  rw [div64_mul64 hmod, Option.map_some]
  have hsum := @microseconds_eq counter frequency hzero
  refine congrArg (fun v => some (v, true)) (UInt64.toNat_inj.1 ?_)
  rw [UInt64.toNat_add, UInt64.toNat_mul, UInt64.toNat_div, UInt64.toNat_ofNat',
    UInt64.toNat_ofNat']
  show (_ * 1000000 % 2 ^ 64 + _) % 2 ^ 64 = _
  omega

/-- The fraction does not carry the last whole second let through over `2 ^ 64`. -/
def NoCarry (counter frequency : UInt64) : Prop :=
  counter.toNat / frequency.toNat = 18446744073709 →
    microseconds (counter % frequency) frequency < 551616

/-- `2 ^ 64` microseconds are 18446744073709 seconds and 551616 microseconds. -/
theorem microseconds_lt_iff (h : frequency ≠ 0) : microseconds counter frequency < 2 ^ 64 ↔
    ¬18446744073709 < counter.toNat / frequency.toNat ∧ NoCarry counter frequency := by
  have hsum := @microseconds_eq counter frequency h
  have hpos : 0 < frequency.toNat := Nat.pos_of_ne_zero fun h0 => h (UInt64.toNat_inj.1 h0)
  have hfraction : microseconds (counter % frequency) frequency < 1000000 := by
    rw [microseconds, UInt64.toNat_mod, Nat.div_lt_iff_lt_mul hpos, Nat.mul_comm 1000000]
    exact (Nat.mul_lt_mul_right (by decide)).2 (Nat.mod_lt _ hpos)
  unfold NoCarry
  omega

/-- Counters of a megahertz or more end before the last second carries. -/
theorem noCarry_of_megahertz (h : 1000000 ≤ frequency) : NoCarry counter frequency := by
  intro hwhole
  have hsplit := Nat.div_add_mod counter.toNat frequency.toNat
  have hcounter := counter.toNat_lt
  have hge : 1000000 ≤ frequency.toNat := h
  rw [hwhole] at hsplit
  have heq : frequency.toNat = 1000000 := by omega
  rw [microseconds, UInt64.toNat_mod, heq, Nat.mul_div_cancel _ (by decide)]
  rw [heq] at hsplit
  omega

/-- An earlier counter is converted too, and to no more. -/
theorem qpc_conversion_le {earlier : UInt64} (hzero : frequency ≠ 0)
    (hfits : microseconds counter frequency < 2 ^ 64) (hle : earlier ≤ counter) :
    ∃ u ≤ UInt64.ofNat (microseconds counter frequency),
      qpcToMicroseconds earlier frequency = some (u, true) := by
  have hmono : microseconds earlier frequency ≤ microseconds counter frequency :=
    Nat.div_le_div_right (Nat.mul_le_mul_right _ hle)
  have hlt := Nat.lt_of_le_of_lt hmono hfits
  refine ⟨.ofNat (microseconds earlier frequency), ?_, ?_⟩
  · rw [UInt64.le_iff_toNat_le, UInt64.toNat_ofNat', UInt64.toNat_ofNat',
      Nat.mod_eq_of_lt hfits, Nat.mod_eq_of_lt hlt]
    exact hmono
  · rw [qpcToMicroseconds_eq, if_neg]
    exact not_or.2 ⟨hzero, ((microseconds_lt_iff hzero).1 hlt).1⟩

/-- **The conversion is exact and monotone if and only if** the fraction does not carry
the last second over `2 ^ 64`, which it never does from a megahertz on. -/
theorem qpc_conversion_exact (counter frequency : UInt64) :
    ((qpcToMicroseconds counter frequency =
        some (if frequency ≠ 0 ∧ microseconds counter frequency < 2 ^ 64 then
          (.ofNat (microseconds counter frequency), true) else (0, false)) ∧
      ∀ v, qpcToMicroseconds counter frequency = some (v, true) → ∀ earlier ≤ counter,
        ∃ u ≤ v, qpcToMicroseconds earlier frequency = some (u, true)) ↔
      NoCarry counter frequency) ∧
    (1000000 ≤ frequency → NoCarry counter frequency) := by
  refine ⟨?_, noCarry_of_megahertz⟩
  by_cases hzero : frequency = 0
  · simp [qpcToMicroseconds_eq, hzero, NoCarry]
  have hiff := @microseconds_lt_iff counter frequency hzero
  constructor
  · rintro ⟨hexact, -⟩ hwhole
    by_contra hcarry
    -- the guard lets the last second through, and the quotient does not fit
    have hbig : ¬(frequency ≠ 0 ∧ microseconds counter frequency < 2 ^ 64) := fun hlt =>
      hcarry ((hiff.1 hlt.2).2 hwhole)
    rw [qpcToMicroseconds_eq, if_neg (by simp [hzero, hwhole]), if_neg hbig] at hexact
    simp at hexact
  · intro hcarry
    have hfits : microseconds counter frequency < 2 ^ 64 ↔
        ¬18446744073709 < counter.toNat / frequency.toNat :=
      hiff.trans (and_iff_left hcarry)
    have hexact : qpcToMicroseconds counter frequency =
        some (if frequency ≠ 0 ∧ microseconds counter frequency < 2 ^ 64 then
          (.ofNat (microseconds counter frequency), true) else (0, false)) := by
      simp only [qpcToMicroseconds_eq, hzero, hfits, ne_eq, not_false_iff, true_and, false_or,
        ite_not]
    refine ⟨hexact, fun v hv earlier hle => ?_⟩
    rw [hexact] at hv
    split at hv
    next hlt =>
      cases hv
      exact qpc_conversion_le hzero hlt.2 hle
    · cases hv

/-- A counter of ten megahertz at a bit more than a second. -/
theorem tenMegahertz_exact : qpcToMicroseconds 10000005 10000000 = some (1000000, true) ∧
      ∀ earlier ≤ (10000005 : UInt64),
        ∃ u ≤ (1000000 : UInt64), qpcToMicroseconds earlier 10000000 = some (u, true) :=
  have h := qpc_conversion_exact 10000005 10000000
  ⟨by decide, (h.1.2 (h.2 (by decide))).2 1000000 (by decide)⟩

/-- **The last second wraps.**  The quotient is `2 ^ 64` or more and the conversion succeeds
with a small number, less than for the counter before it; the second counter is a positive
64-bit integer, as the performance counter is. -/
theorem last_second_wraps : microseconds 18446725626965477907 999999 = 2 ^ 64 ∧
      qpcToMicroseconds 18446725626965477907 999999 = some (0, true) ∧
      qpcToMicroseconds 18446725626965477906 999999 = some (18446744073709551615, true) ∧
      microseconds 9223353590110702099 499999 = 2 ^ 64 + 1 ∧
      qpcToMicroseconds 9223353590110702099 499999 = some (1, true) := by
  decide

end Clock

end Viiper.Ports.Feedback
