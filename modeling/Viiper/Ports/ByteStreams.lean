import Mathlib.Data.List.Basic
import Viiper.Verified.Framing

/-!
# Byte streams and string descriptors

`ReadExactly` of `usbip/usbip.go`, the codec and the stream reader of the keyboard in
`device/keyboard`, and `EncodeStringDescriptor` of `usb/usbdesc.go`.  A reader is given by
its answers to successive calls, so a loop over them is a recursion over a list; a call
which has not been answered yet is waiting.  A Go string is read through `[]rune(s)` only,
a list of Unicode scalar values: bytes which are no UTF-8 have become U+FFFD.
-/

namespace Viiper.Ports.ByteStreams

open Verified Go Function
open List hiding beq_eq_decide

/-- One answer of an `io.Reader`: the bytes it has put into the buffer, and its error. -/
structure Read (ε : Type) where
  data : Bytes
  err : Option ε

variable {ε : Type} {reads : List (Read ε)} {size : Nat}

/-- `ReadExactly`: the error and the buffer, or `none` while it waits. -/
def readExactly (size : Nat) (buf : Bytes) : List (Read ε) → Option (Option ε × Bytes)
  | [] => if buf.length < size then none else some (none, buf)
  | r :: reads =>
    if buf.length < size then
      match r.err with
      | some err => some (some err, buf ++ r.data)
      | none => readExactly size (buf ++ r.data) reads
    else some (none, buf)

/-- The contract of `io.Reader`: no answer is larger than the space it is offered. -/
def Obeys (size : Nat) : List (Read ε) → Prop
  | [] => True
  | r :: reads => r.data.length ≤ size ∧ Obeys (size - r.data.length) reads

/-- The bytes which the reader supplies until it returns an error. -/
def supplied : List (Read ε) → Bytes
  | [] => []
  | r :: reads => r.data ++ if r.err.isSome then [] else supplied reads

theorem Obeys.supplied_le (h : Obeys size reads) : (supplied reads).length ≤ size := by
  induction reads generalizing size with
  | nil => exact Nat.zero_le size
  | cons r reads ih =>
    have hrest := ih h.2
    have hfits := h.1
    rw [supplied, length_append]
    split
    · exact hfits
    · omega

/-- The first answer with an error, if there is still space when it comes, fills the buffer. -/
def ErrsFull (size : Nat) : List (Read ε) → Prop
  | [] => False
  | r :: reads =>
    if r.err.isSome then 0 < size ∧ r.data.length = size
    else ErrsFull (size - r.data.length) reads

theorem ErrsFull.pos (h : ErrsFull size reads) : 0 < size := by
  induction reads generalizing size with
  | nil => exact h.elim
  | cons r reads ih =>
    rw [ErrsFull] at h
    split at h
    · exact h.1
    · exact Nat.lt_of_lt_of_le (ih h) (Nat.sub_le ..)

theorem ErrsFull.length_supplied (h : ErrsFull size reads) (hobeys : Obeys size reads) :
    (supplied reads).length = size := by
  induction reads generalizing size with
  | nil => exact h.elim
  | cons r reads ih =>
    have hfits := hobeys.1
    rw [ErrsFull] at h
    rw [supplied, length_append]
    split at h
    next herr => rw [if_pos herr]; exact h.2
    next herr =>
      have hrest := ih h hobeys.2
      rw [if_neg herr]
      omega

/-- What is returned without an error, and that no result holds more than the buffer. -/
theorem readExactly_from (buf : Bytes) (hbuf : buf.length ≤ size)
    (hobeys : Obeys (size - buf.length) reads) :
    (∀ out, readExactly size buf reads = some (none, out) ↔
      ¬ErrsFull (size - buf.length) reads ∧
        buf.length + (supplied reads).length = size ∧ out = buf ++ supplied reads) ∧
    ∀ result, readExactly size buf reads = some result → result.2.length ≤ size := by
  induction reads generalizing buf with
  | nil =>
    rcases Nat.lt_or_eq_of_le hbuf with hlt | rfl
    · simp [readExactly, supplied, hlt, Nat.ne_of_lt hlt]
    · simp [readExactly, supplied, ErrsFull, eq_comm]
  | cons r reads ih =>
    have hle := hobeys.supplied_le
    have hfits : r.data.length ≤ size - buf.length := hobeys.1
    rw [readExactly]
    rcases Nat.lt_or_eq_of_le hbuf with hlt | rfl
    · rw [if_pos hlt]
      cases herr : r.err with
      | some err =>
        -- the bytes which come with the error are not counted
        have hfull : ¬ErrsFull (size - buf.length) (r :: reads) →
            ¬buf.length + r.data.length = size := by
          simp only [ErrsFull, herr, Option.isSome_some, if_true]
          omega
        have hbound : buf.length + r.data.length ≤ size := by omega
        simpa [supplied, herr, hbound] using fun _ hopen heq _ => hfull hopen heq
      | none =>
        have hlen : (buf ++ r.data).length = buf.length + r.data.length := length_append
        have hnext := ih (buf ++ r.data) (by omega)
          (by rw [hlen, ← Nat.sub_sub]; exact hobeys.2)
        simpa [supplied, ErrsFull, herr, Nat.add_assoc, Nat.sub_sub] using hnext
    · have hnil : supplied (r :: reads) = [] := eq_nil_of_length_eq_zero (by omega)
      have hopen : ¬ErrsFull 0 (r :: reads) := fun h => Nat.lt_irrefl 0 h.pos
      simp [hnil, hopen, eq_comm]

/-- **`ReadExactly` returns no error exactly when** the reader has supplied enough bytes, and
then the buffer holds them, **if and only if** the first answer with an error does not fill
the buffer.  It never takes more bytes than the buffer has. -/
theorem readExactly_fills (size : Nat) (reads : List (Read ε)) (hobeys : Obeys size reads) :
    ((∀ out, readExactly size [] reads = some (none, out) ↔
      (supplied reads).length = size ∧ out = supplied reads) ↔ ¬ErrsFull size reads) ∧
    ∀ result, readExactly size [] reads = some result → result.2.length ≤ size := by
  have hfrom := readExactly_from [] (Nat.zero_le size) hobeys
  simp only [length_nil, Nat.sub_zero, Nat.zero_add, nil_append] at hfrom
  refine ⟨⟨fun hclaim hfull => ?_, fun hopen out => ?_⟩, hfrom.2⟩
  · have hnil := (hclaim _).2 ⟨hfull.length_supplied hobeys, rfl⟩
    exact ((hfrom.1 _).1 hnil).1 hfull
  · rw [hfrom.1 out, and_iff_right hopen]

/-- A short answer with the end of the stream behind it. -/
theorem readExactly_fills_in_two :
    readExactly 2 [] [⟨[7], none⟩, ⟨[9], none⟩, (⟨[], some ()⟩ : Read Unit)] =
      some (none, [7, 9]) :=
  ((readExactly_fills 2 _ (by simp [Obeys])).1.2 (by simp [ErrsFull]) _).2 ⟨rfl, rfl⟩

/-- The last bytes come with the end of the stream: `io.ReadFull` would return no error. -/
theorem readExactly_drops_filled :
    let reads : List (Read Unit) := [⟨[7, 9], some ()⟩]
    Obeys 2 reads ∧ (supplied reads).length = 2 ∧ readExactly 2 [] reads = some (some (), [7, 9]) :=
  ⟨by simp [Obeys], rfl, rfl⟩

/-! ## The keyboard -/

structure InputState where
  modifiers : UInt8
  keyBitmap : Fin 32 → BitVec 8

/-- The byte of the bitmap in which a key has its bit. -/
def byteIdx (key : UInt8) : Fin 32 := ⟨key.toNat / 8, by have := key.toNat_lt; omega⟩

def InputState.pressed (kb : InputState) (key : UInt8) : Bool :=
  (kb.keyBitmap (byteIdx key)).getLsbD (key.toNat % 8)

/-- The codes of the pressed keys, in the order in which `MarshalBinary` finds them. -/
def InputState.keys (kb : InputState) : Bytes :=
  ((List.range 256).map UInt8.ofNat).filter kb.pressed

def InputState.marshalBinary (kb : InputState) : Bytes :=
  kb.modifiers :: UInt8.ofNat kb.keys.length :: kb.keys

def press (bitmap : Fin 32 → BitVec 8) (key : UInt8) : Fin 32 → BitVec 8 :=
  update bitmap (byteIdx key) (bitmap (byteIdx key) ||| 1#8 <<< (key.toNat % 8))

/-- `UnmarshalBinary`; bytes behind the last key are ignored. -/
def unmarshalBinary : Bytes → Option InputState
  | modifiers :: count :: keys =>
    if keys.length < count.toNat then none
    else some ⟨modifiers, (keys.take count.toNat).foldl press fun _ => 0#8⟩
  | _ => none

/-- Why the handler stops. -/
inductive Stop
  | disconnected | readHeader | readKeys | unmarshal

/-- One turn of the handler's loop: the state which it publishes and the rest of the stream. -/
def readState (stream : Bytes) : Except Stop (InputState × Bytes) :=
  match stream with
  | [] => .error .disconnected
  | [_] => .error .readHeader
  | modifiers :: count :: rest =>
    if rest.length < count.toNat then .error .readKeys
    else
      match unmarshalBinary (modifiers :: count :: rest.take count.toNat) with
      | none => .error .unmarshal
      | some state => .ok (state, rest.drop count.toNat)

/-- A number of turns. -/
def readStates : Nat → Bytes → Except Stop (List InputState × Bytes)
  | 0, stream => .ok ([], stream)
  | n + 1, stream => do
    let (state, stream) ← readState stream
    let (states, stream) ← readStates n stream
    return (state :: states, stream)

variable {kb : InputState} {key : UInt8}

theorem getLsbD_press (bitmap : Fin 32 → BitVec 8) (k key : UInt8) :
    (press bitmap k (byteIdx key)).getLsbD (key.toNat % 8) =
      ((bitmap (byteIdx key)).getLsbD (key.toNat % 8) || key == k) := by
  have hkey : key = k ↔ byteIdx key = byteIdx k ∧ key.toNat % 8 = k.toNat % 8 := by
    rw [← UInt8.toNat_inj, byteIdx, byteIdx, Fin.mk.injEq]
    omega
  by_cases hbyte : byteIdx key = byteIdx k
  · have hbit : (1#8 <<< (k.toNat % 8)).getLsbD (key.toNat % 8) =
        decide (key.toNat % 8 = k.toNat % 8) := by
      rw [BitVec.getLsbD_shiftLeft, BitVec.getLsbD_one]
      grind
    rw [press, hbyte, update_self, BitVec.getLsbD_or, hbit]
    simp [beq_eq_decide, hkey, hbyte]
  · rw [press, update_of_ne hbyte]
    simp [beq_eq_decide, hkey, hbyte]

theorem getLsbD_foldl_press (keys : Bytes) (bitmap : Fin 32 → BitVec 8) (key : UInt8) :
    (keys.foldl press bitmap (byteIdx key)).getLsbD (key.toNat % 8) =
      ((bitmap (byteIdx key)).getLsbD (key.toNat % 8) || keys.contains key) := by
  induction keys generalizing bitmap with
  | nil => simp
  | cons k keys ih => rw [foldl_cons, ih, getLsbD_press, contains_cons, Bool.or_assoc]

/-- A bitmap is known by the keys which are pressed in it. -/
theorem bitmap_ext {a b : Fin 32 → BitVec 8} (h : ∀ key : UInt8,
    (a (byteIdx key)).getLsbD (key.toNat % 8) = (b (byteIdx key)).getLsbD (key.toNat % 8)) :
    a = b := by
  funext i
  refine BitVec.eq_of_getLsbD_eq fun j hj => ?_
  have hcode := h (UInt8.ofNat (8 * i + j))
  have hnat : (UInt8.ofNat (8 * i + j)).toNat = 8 * i + j := Nat.mod_eq_of_lt (by omega)
  have hbyte : byteIdx (UInt8.ofNat (8 * i + j)) = i :=
    Fin.ext (by simp only [byteIdx, hnat]; omega)
  rwa [hbyte, hnat, Nat.mul_add_mod, Nat.mod_eq_of_lt hj] at hcode

theorem mem_codes (key : UInt8) : key ∈ (List.range 256).map UInt8.ofNat :=
  mem_map.2 ⟨key.toNat, mem_range.2 key.toNat_lt, UInt8.ofNat_toNat⟩

theorem mem_keys : key ∈ kb.keys ↔ kb.pressed key := by
  rw [InputState.keys, mem_filter, and_iff_right (mem_codes key)]

/-- The keys which are sent bring back the bitmap. -/
theorem foldl_press_keys (kb : InputState) : kb.keys.foldl press (fun _ => 0#8) = kb.keyBitmap := by
  refine bitmap_ext fun key => ?_
  rw [getLsbD_foldl_press, Bool.eq_iff_iff]
  simpa [InputState.pressed] using mem_keys

/-- The count fits its byte. -/
theorem count_keys (h : ∃ key, kb.pressed key = false) :
    (UInt8.ofNat kb.keys.length).toNat = kb.keys.length := by
  obtain ⟨key, hkey⟩ := h
  refine Nat.mod_eq_of_lt ?_
  have hlt := length_filter_lt_length_iff_exists.2 ⟨key, mem_codes key, by simpa using hkey⟩
  simpa [InputState.keys] using hlt

/-- With all keys pressed the count comes round to zero. -/
theorem length_keys (h : ∀ key, kb.pressed key) : kb.keys.length = 256 := by
  have hall : kb.keys = (range 256).map UInt8.ofNat := filter_eq_self.2 fun key _ => h key
  rw [hall, length_map, length_range]

/-- The state which comes back from an encoding with all keys pressed. -/
def InputState.emptied (kb : InputState) : InputState := ⟨kb.modifiers, fun _ => 0#8⟩

theorem emptied_ne (h : ∀ key, kb.pressed key) : kb.emptied ≠ kb := by
  intro heq
  have hzero := h 0
  rw [← heq] at hzero
  simp [InputState.pressed, InputState.emptied] at hzero

theorem readState_marshalBinary (h : ∃ key, kb.pressed key = false) (rest : Bytes) :
    readState (kb.marshalBinary ++ rest) = .ok (kb, rest) := by
  have hcount := count_keys h
  simp [InputState.marshalBinary, readState, unmarshalBinary, hcount, foldl_press_keys,
    Nat.not_lt.2 (Nat.le_add_right _ _)]

/-- The key codes stay in the stream. -/
theorem readState_full (h : ∀ key, kb.pressed key) (rest : Bytes) :
    readState (kb.marshalBinary ++ rest) = .ok (kb.emptied, kb.keys ++ rest) := by
  rw [InputState.marshalBinary, length_keys h]
  rfl

theorem unmarshalBinary_marshalBinary (kb : InputState) :
    unmarshalBinary kb.marshalBinary = some kb ↔ ∃ key, kb.pressed key = false := by
  by_cases h : ∃ key, kb.pressed key = false
  · simp [InputState.marshalBinary, unmarshalBinary, count_keys h, foldl_press_keys, h]
  · have hfull : ∀ key, kb.pressed key := by simpa using h
    have hemptied : unmarshalBinary kb.marshalBinary = some kb.emptied := by
      rw [InputState.marshalBinary, length_keys hfull]
      rfl
    simp [hemptied, emptied_ne hfull, h]

theorem readStates_marshalBinary (states : List InputState) (rest : Bytes) :
    readStates states.length (states.flatMap InputState.marshalBinary ++ rest) =
      .ok (states, rest) ↔ ∀ kb ∈ states, ∃ key, kb.pressed key = false := by
  induction states with
  | nil => simp [readStates]
  | cons kb states ih =>
    rw [flatMap_cons, append_assoc, length_cons, readStates, forall_mem_cons, ← ih]
    by_cases h : ∃ key, kb.pressed key = false
    · rw [readState_marshalBinary h, and_iff_right h]
      show (readStates states.length _ >>= _) = _ ↔ _
      cases readStates states.length (states.flatMap InputState.marshalBinary ++ rest) with
      | error stop => simp [bind, Except.bind]
      | ok result => simp [bind, Except.bind, pure, Except.pure, Prod.ext_iff]
    · have hfull : ∀ key, kb.pressed key := by simpa using h
      rw [readState_full hfull]
      show (readStates states.length _ >>= _) = _ ↔ _
      -- the first state which is published is already another one
      cases readStates states.length (kb.keys ++ _) with
      | error stop => simp [bind, Except.bind, h]
      | ok result => simp [bind, Except.bind, pure, Except.pure, emptied_ne hfull, h]

/-- **A state comes back from its encoding, and a stream of encodings is read state by state
without a byte left over, if and only if** one key is released in each of them. -/
theorem keyboard_stream_lossless (kb : InputState) (states : List InputState) (rest : Bytes) :
    (unmarshalBinary kb.marshalBinary = some kb ↔ ∃ key, kb.pressed key = false) ∧
    (readStates states.length (states.flatMap InputState.marshalBinary ++ rest) =
      .ok (states, rest) ↔ ∀ kb ∈ states, ∃ key, kb.pressed key = false) :=
  ⟨unmarshalBinary_marshalBinary kb, readStates_marshalBinary states rest⟩

/-- With all keys pressed the keys are lost, and their codes are left in the stream. -/
theorem keyboard_count_slips :
    let kb : InputState := ⟨0, fun _ => 0xff⟩
    unmarshalBinary kb.marshalBinary = some ⟨0, fun _ => 0⟩ ∧
      readState kb.marshalBinary = .ok (⟨0, fun _ => 0⟩, kb.keys) ∧ kb.keys.length = 256 := by
  intro kb
  have hbits : ∀ j < 8, (0xff : BitVec 8).getLsbD j := by decide
  have hlen : kb.keys.length = 256 := length_keys fun key => hbits _ (Nat.mod_lt _ (by decide))
  rw [InputState.marshalBinary, hlen]
  exact ⟨rfl, rfl, rfl⟩

end Viiper.Ports.ByteStreams

namespace Viiper.Ports.UsbDescriptors

open Verified Go Framing

def encodeStringDescriptor (runes : List Char) : Bytes :=
  UInt8.ofNat (2 + runes.length * 2) :: 0x03 ::
    runes.flatMap fun r => [UInt8.ofNat r.toNat, UInt8.ofNat (r.toNat / 256)]

def utf16Encode (runes : List Char) : List Nat :=
  runes.flatMap fun r =>
    if r.toNat < 0x10000 then [r.toNat]
    else [0xd800 + (r.toNat - 0x10000) / 0x400, 0xdc00 + (r.toNat - 0x10000) % 0x400]

/-- The code units, two bytes each. -/
def utf16le (runes : List Char) : Bytes := (utf16Encode runes).flatMap (le 2)

structure StringDescriptor (runes : List Char) (bytes : Bytes) : Prop where
  announced : Announced bytes
  kind : bytes.getD 1 0 = 3
  text : bytes.drop 2 = utf16le runes

theorem length_encodeStringDescriptor (runes : List Char) :
    (encodeStringDescriptor runes).length = 2 + runes.length * 2 := by
  have htext : (runes.flatMap fun r => [UInt8.ofNat r.toNat, UInt8.ofNat (r.toNat / 256)]).length =
      runes.length * 2 := by simp
  rw [encodeStringDescriptor, List.length_cons, List.length_cons, htext]
  omega

theorem announced_iff (runes : List Char) :
    Announced (encodeStringDescriptor runes) ↔ runes.length ≤ 126 := by
  rw [Announced, length_encodeStringDescriptor, encodeStringDescriptor]
  refine ⟨fun h => by omega, fun h => ⟨by omega, _, rfl⟩⟩

/-- A character takes one code unit, or two outside the basic plane. -/
theorem length_utf16Encode (runes : List Char) : runes.length ≤ (utf16Encode runes).length ∧
    ((utf16Encode runes).length = runes.length ↔ ∀ r ∈ runes, r.toNat < 0x10000) := by
  induction runes with
  | nil => simp [utf16Encode]
  | cons r runes ih =>
    obtain ⟨hle, hiff⟩ := ih
    have hfirst : (utf16Encode [r]).length = if r.toNat < 0x10000 then 1 else 2 := by
      by_cases hr : r.toNat < 0x10000 <;> simp [utf16Encode, hr]
    have hcons : utf16Encode (r :: runes) = utf16Encode [r] ++ utf16Encode runes := by
      simp [utf16Encode]
    rw [hcons, List.length_append, List.length_cons, hfirst, List.forall_mem_cons, ← hiff]
    split <;> omega

theorem text_iff (runes : List Char) : (encodeStringDescriptor runes).drop 2 = utf16le runes ↔
    ∀ r ∈ runes, r.toNat < 0x10000 := by
  constructor
  · intro h
    have hlen := congrArg List.length h
    rw [List.length_drop, length_encodeStringDescriptor, utf16le] at hlen
    have hunits : ((utf16Encode runes).flatMap (le 2)).length = (utf16Encode runes).length * 2 := by
      simp [le]
    exact (length_utf16Encode runes).2.1 (by omega)
  · intro hplane
    have hunits : utf16Encode runes = runes.map Char.toNat := by
      rw [utf16Encode, List.map_eq_flatMap]
      exact List.flatMap_congr fun r hr => if_pos (hplane r hr)
    rw [utf16le, hunits, List.flatMap_map]
    rfl

/-- **A string of at most 126 code units gets its descriptor, and a longer one a descriptor
with the right length byte, if and only if** a short string is in the basic plane and a
longer one has at most 126 characters. -/
theorem string_descriptor_iff (runes : List Char) :
    ((utf16Encode runes).length ≤ 126 → StringDescriptor runes (encodeStringDescriptor runes)) ∧
      (126 < (utf16Encode runes).length → Announced (encodeStringDescriptor runes) ∧
        (encodeStringDescriptor runes).getD 1 0 = 3) ↔
    ((utf16Encode runes).length ≤ 126 ∧ ∀ r ∈ runes, r.toNat < 0x10000) ∨
      126 < (utf16Encode runes).length ∧ runes.length ≤ 126 := by
  have hle := (length_utf16Encode runes).1
  rcases Nat.lt_or_ge 126 (utf16Encode runes).length with hlong | hshort
  · have hkind : (encodeStringDescriptor runes).getD 1 0 = 3 := rfl
    simp only [hlong, Nat.not_le.2 hlong, announced_iff, hkind, false_imp_iff, true_imp_iff,
      true_and, false_and, false_or, and_true]
  · have hdescriptor : StringDescriptor runes (encodeStringDescriptor runes) ↔
        ∀ r ∈ runes, r.toNat < 0x10000 :=
      ⟨fun h => (text_iff runes).1 h.text, fun h =>
        ⟨(announced_iff runes).2 (Nat.le_trans hle hshort), rfl, (text_iff runes).2 h⟩⟩
    simp only [hshort, Nat.not_lt.2 hshort, hdescriptor, false_imp_iff, true_imp_iff, true_and,
      false_and, or_false, and_true]

theorem string_descriptor_of_viiper : StringDescriptor ['V', 'I', 'I', 'P', 'E', 'R', '€']
      (encodeStringDescriptor ['V', 'I', 'I', 'P', 'E', 'R', '€']) :=
  ((string_descriptor_iff _).2 (.inl ⟨by decide, by simp⟩)).1 (by decide)

/-- A character outside the basic plane loses its high bits, and with 127 characters
the length byte comes round to zero. -/
theorem string_descriptor_slips : ((utf16Encode ['😀']).length ≤ 126 ∧
      (encodeStringDescriptor ['😀']).drop 2 ≠ utf16le ['😀']) ∧
    (encodeStringDescriptor (List.replicate 127 'A')).getD 0 0 = 0 ∧
      (encodeStringDescriptor (List.replicate 127 'A')).length = 256 := by
  refine ⟨by decide, ?_, ?_⟩
  · rw [encodeStringDescriptor, List.length_replicate]
    rfl
  · rw [length_encodeStringDescriptor, List.length_replicate]

end Viiper.Ports.UsbDescriptors
