import Mathlib.Algebra.Ring.Nat
import TabletDelta.Bytes

/-!
# Words in little-endian bytes

A number that fits in a count of bytes and its little-endian form in so many bytes determine each
other, and a part cut off the front of a byte string is the part that was put there. These are the
facts that both binary formats of the library rest on.
-/

namespace TabletDelta

/-- The number that bytes stand for fits in so many bytes. -/
theorem ofLittleEndian_lt (bytes : Bytes) : ofLittleEndian bytes < 256 ^ bytes.length := by
  induction bytes with
  | nil => exact Nat.one_pos
  | cons b bytes ih =>
    have hb := b.toNat_lt
    rw [List.length_cons, pow_succ, ofLittleEndian]
    omega

/-- A number that fits in a count of bytes is read back from them. -/
theorem ofLittleEndian_littleEndian {width n : Nat} (h : n < 256 ^ width) :
    ofLittleEndian (littleEndian width n) = n := by
  induction width generalizing n with
  | zero =>
    rw [pow_zero] at h
    exact (Nat.lt_one_iff.1 h).symm
  | succ width ih =>
    rw [pow_succ] at h
    have hrest : n / 256 < 256 ^ width := by omega
    have hlow : (UInt8.ofNat n).toNat = n % 256 := UInt8.toNat_ofNat'
    rw [littleEndian, ofLittleEndian, ih hrest, hlow]
    omega

/-- Bytes are written again from the number that they stand for. -/
theorem littleEndian_ofLittleEndian (bytes : Bytes) :
    littleEndian bytes.length (ofLittleEndian bytes) = bytes := by
  induction bytes with
  | nil => rfl
  | cons b bytes ih =>
    have hb := b.toNat_lt
    have hrest : (b.toNat + 256 * ofLittleEndian bytes) / 256 = ofLittleEndian bytes := by omega
    have hlow : UInt8.ofNat (b.toNat + 256 * ofLittleEndian bytes) = b := by
      refine UInt8.toNat_inj.1 ?_
      rw [UInt8.toNat_ofNat']
      omega
    rw [List.length_cons, ofLittleEndian, littleEndian, hrest, ih, hlow]

/-- What was put in front of a byte string is what a cut of its length takes off. -/
theorem splitBytes?_append (head rest : Bytes) :
    splitBytes? head.length (head ++ rest) = some (head, rest) := by
  unfold splitBytes?
  have hlength : ¬ (head ++ rest).length < head.length := by
    rw [List.length_append]
    omega
  rw [if_neg hlength, List.take_left, List.drop_left]

end TabletDelta
