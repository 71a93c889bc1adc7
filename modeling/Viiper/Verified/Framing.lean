import Viiper.Verified.GoTypes

/-!
# Framing

Big-endian words, little-endian numbers, and lists of pieces laid end to end.  A
message which carries several pieces announces their lengths; a reader recovers
the pieces by cutting the payload at the announced lengths.
-/

namespace Viiper.Verified.Framing

open Go List UInt8

/-! ## Words -/

/-- The four bytes of a word, most significant first. -/
def be32 (v : UInt32) : Bytes :=
  [UInt8.ofNat (v.toNat / 0x1000000), UInt8.ofNat (v.toNat / 0x10000),
    UInt8.ofNat (v.toNat / 0x100), UInt8.ofNat v.toNat]

/-- The word the first four bytes spell. -/
def readBE32 (bytes : Bytes) : UInt32 :=
  UInt32.ofNat ((bytes.getD 0 0).toNat * 0x1000000 + (bytes.getD 1 0).toNat * 0x10000 +
    (bytes.getD 2 0).toNat * 0x100 + (bytes.getD 3 0).toNat)

@[simp] theorem length_be32 (v : UInt32) : (be32 v).length = 4 := rfl

theorem readBE32_be32 (v : UInt32) (rest : Bytes) : readBE32 (be32 v ++ rest) = v := by
  have hv : v.toNat < 2 ^ 32 := v.toNat_lt
  have hval : readBE32 (be32 v ++ rest) = UInt32.ofNat
      ((ofNat (v.toNat / 0x1000000)).toNat * 0x1000000 +
        (ofNat (v.toNat / 0x10000)).toNat * 0x10000 +
        (ofNat (v.toNat / 0x100)).toNat * 0x100 + (ofNat v.toNat).toNat) := rfl
  have hsum : (ofNat (v.toNat / 0x1000000)).toNat * 0x1000000 +
      (ofNat (v.toNat / 0x10000)).toNat * 0x10000 +
      (ofNat (v.toNat / 0x100)).toNat * 0x100 + (ofNat v.toNat).toNat =
        v.toNat := by
    simp only [toNat_ofNat']
    omega
  rw [hval, hsum]
  exact UInt32.ofNat_toNat

/-! ## Numbers -/

/-- The given number of bytes of a number, least significant first. -/
def le : Nat → Nat → Bytes
  | 0, _ => []
  | n + 1, v => UInt8.ofNat v :: le n (v / 256)

/-- The number the bytes spell. -/
def readLE : Bytes → Nat
  | [] => 0
  | b :: bytes => b.toNat + 256 * readLE bytes

/-- The bytes at a fixed position. -/
def slice (bytes : Bytes) (i n : Nat) : Bytes := (bytes.drop i).take n

theorem readLE_le (n v : Nat) : readLE (le n v) = v % 256 ^ n := by
  induction n generalizing v with
  | zero => rw [Nat.pow_zero, Nat.mod_one]; rfl
  | succ n ih =>
    have hpow : 256 ^ (n + 1) = 256 * 256 ^ n := Nat.pow_succ'
    rw [le, readLE, ih, toNat_ofNat', hpow, Nat.mod_mul]

theorem le_readLE (bytes : Bytes) : le bytes.length (readLE bytes) = bytes := by
  induction bytes with
  | nil => rfl
  | cons b bytes ih =>
    have hb : b.toNat < 256 := b.toNat_lt
    have hlow : ofNat (b.toNat + 256 * readLE bytes) = b := by
      refine UInt8.toNat_inj.1 ?_
      rw [UInt8.toNat_ofNat']
      omega
    have hhigh : (b.toNat + 256 * readLE bytes) / 256 = readLE bytes := by omega
    rw [length_cons, readLE, le, hlow, hhigh, ih]

theorem readLE_lt (bytes : Bytes) : readLE bytes < 256 ^ bytes.length := by
  have h := readLE_le bytes.length (readLE bytes)
  rw [le_readLE] at h
  rw [h]
  exact Nat.mod_lt _ (Nat.pow_pos (by decide))

/-! ## Pieces -/

section Pieces

variable {α β : Type}

/-- Cut a list at the given lengths. -/
def splitBy : List Nat → List α → List (List α)
  | [], _ => []
  | n :: lengths, xs => xs.take n :: splitBy lengths (xs.drop n)

theorem splitBy_flatten (pieces : List (List α)) :
    splitBy (pieces.map length) pieces.flatten = pieces := by
  induction pieces with
  | nil => rfl
  | cons piece pieces ih =>
    rw [map_cons, flatten_cons, splitBy, take_left, drop_left, ih]

theorem flatten_splitBy {lengths : List Nat} {xs : List α} (h : lengths.sum = xs.length) :
    (splitBy lengths xs).flatten = xs := by
  induction lengths generalizing xs with
  | nil => exact (eq_nil_of_length_eq_zero h.symm).symm
  | cons n lengths ih =>
    rw [splitBy, flatten_cons, ih, take_append_drop]
    rw [length_drop, ← h, sum_cons, Nat.add_sub_cancel_left]

/-- Read the given number of records of one size. -/
def readRecords (size : Nat) (decode : List α → β) : Nat → List α → List β
  | 0, _ => []
  | n + 1, xs => decode (xs.take size) :: readRecords size decode n (xs.drop size)

/-- Records laid end to end are read back, when each is. -/
theorem readRecords_flatMap {size : Nat} {encode : β → List α}
    {decode : List α → β} (hsize : ∀ x, (encode x).length = size)
    (hdecode : ∀ x, decode (encode x) = x) (records : List β) (rest : List α) :
    readRecords size decode records.length (records.flatMap encode ++ rest) = records := by
  induction records with
  | nil => rfl
  | cons x records ih =>
    rw [length_cons, flatMap_cons, append_assoc, readRecords,
      take_left' (hsize x), drop_left' (hsize x), hdecode, ih]

theorem length_flatMap_records {size : Nat} {encode : β → List α}
    (hsize : ∀ x, (encode x).length = size) (records : List β) :
    (records.flatMap encode).length = records.length * size := by
  induction records with
  | nil => simp
  | cons x records ih =>
    rw [flatMap_cons, length_append, ih, hsize, length_cons, Nat.add_mul, Nat.one_mul, Nat.add_comm]

end Pieces

/-- The first byte of the piece is its length. -/
def Announced (piece : Bytes) : Prop :=
  piece.length < 256 ∧ ∃ rest, piece = UInt8.ofNat piece.length :: rest

end Viiper.Verified.Framing
