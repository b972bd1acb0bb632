import Mathlib.Data.List.Basic
import Mathlib.Tactic.Common
import Mathlib.Tactic.Ring

/-!
# Little-endian byte strings

Fixed-width little-endian encodings of natural numbers, as written by
`BinaryPrimitives`, `ByteBuffer` and `withUnsafeBytes`.  Writing `n` in `width`
bytes keeps `n` modulo `256 ^ width`, so the encoding is injective exactly
below that bound.
-/

namespace NativeInterop

abbrev Bytes := List UInt8

/-- The `width` low bytes of `n`, least significant first. -/
def littleEndian : ℕ → ℕ → Bytes
  | 0, _ => []
  | width + 1, n => UInt8.ofNat n :: littleEndian width (n / 256)

/-- The number a little-endian byte string stands for. -/
def ofLittleEndian : Bytes → ℕ
  | [] => 0
  | b :: bs => b.toNat + 256 * ofLittleEndian bs

@[simp] theorem littleEndian_length (width n : ℕ) :
    (littleEndian width n).length = width := by
  induction width generalizing n with
  | zero => rfl
  | succ width ih => simp [littleEndian, ih]

theorem ofLittleEndian_littleEndian (width n : ℕ) :
    ofLittleEndian (littleEndian width n) = n % 256 ^ width := by
  induction width generalizing n with
  | zero => simp [littleEndian, ofLittleEndian, Nat.mod_one]
  | succ width ih =>
      have hbyte : (UInt8.ofNat n).toNat = n % 256 := by simp
      simp only [littleEndian, ofLittleEndian, ih, hbyte]
      rw [pow_succ, mul_comm (256 ^ width) 256, Nat.mod_mul]

theorem ofLittleEndian_littleEndian_of_lt {width n : ℕ}
    (hn : n < 256 ^ width) :
    ofLittleEndian (littleEndian width n) = n := by
  rw [ofLittleEndian_littleEndian, Nat.mod_eq_of_lt hn]

theorem littleEndian_ofLittleEndian (bytes : Bytes) :
    littleEndian bytes.length (ofLittleEndian bytes) = bytes := by
  induction bytes with
  | nil => rfl
  | cons b bs ih =>
      have hbyte := b.toNat_lt
      have hrest : (b.toNat + 256 * ofLittleEndian bs) / 256 = ofLittleEndian bs := by omega
      have hlow : UInt8.ofNat (b.toNat + 256 * ofLittleEndian bs) = b := by
        apply UInt8.toNat_inj.mp
        simp only [UInt8.toNat_ofNat']
        omega
      simp only [List.length_cons, littleEndian, ofLittleEndian, hrest, hlow, ih]

theorem ofLittleEndian_lt (bytes : Bytes) : ofLittleEndian bytes < 256 ^ bytes.length := by
  induction bytes with
  | nil => simp [ofLittleEndian]
  | cons b bs ih =>
      have hbyte := b.toNat_lt
      simp only [ofLittleEndian, List.length_cons, pow_succ]
      omega

theorem littleEndian_injective_of_lt {width a b : ℕ}
    (ha : a < 256 ^ width) (hb : b < 256 ^ width)
    (heq : littleEndian width a = littleEndian width b) : a = b := by
  have hvalue := congrArg ofLittleEndian heq
  rwa [ofLittleEndian_littleEndian_of_lt ha,
    ofLittleEndian_littleEndian_of_lt hb] at hvalue

end NativeInterop
