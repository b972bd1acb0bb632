import NativeInterop.LittleEndian
import Mathlib.Tactic

/-!
# HKDF-SHA256

The key derivation of RFC 5869 over an arbitrary HMAC with 32-byte output, and
the loop by which the Android client computes it.  The engine and the iOS
client call their platform's HKDF, which is the function of the RFC.
-/

namespace NativeInterop

namespace Hkdf

structure HmacSha256 where
  mac : Bytes → Bytes → Bytes
  mac_length : ∀ key data, (mac key data).length = 32

def hashLen : ℕ := 32

variable (hmac : HmacSha256)

/-! ## RFC 5869 -/

def extract (salt ikm : Bytes) : Bytes :=
  hmac.mac (if salt = [] then List.replicate hashLen 0 else salt) ikm

def block (prk info : Bytes) : ℕ → Bytes
  | 0 => []
  | i + 1 => hmac.mac prk (block prk info i ++ info ++ [UInt8.ofNat (i + 1)])

/-- `T(1) || ... || T(count)`. -/
def blocks (prk info : Bytes) (count : ℕ) : Bytes :=
  (List.range count).flatMap fun i => block hmac prk info (i + 1)

def expand (prk info : Bytes) (length : ℕ) : Bytes :=
  (blocks hmac prk info ((length + hashLen - 1) / hashLen)).take length

def deriveKey (ikm salt info : Bytes) (length : ℕ) : Bytes :=
  expand hmac (extract hmac salt ikm) info length

/-! ## The Android loop -/

/-- `System.arraycopy(source, 0, target, offset, count)`. -/
def arraycopy (source target : Bytes) (offset count : ℕ) : Bytes :=
  target.take offset ++ source.take count ++ target.drop (offset + count)

/-- The `while (offset < length)` loop of `expand`; running out of fuel means
that the loop has not ended. -/
def expandLoop (prk info : Bytes) (length : ℕ) :
    (fuel : ℕ) → (out previous : Bytes) → (offset counter : ℕ) → Option Bytes
  | 0, _, _, _, _ => none
  | fuel + 1, out, previous, offset, counter =>
      if offset < length then
        let next := hmac.mac prk (previous ++ info ++ [UInt8.ofNat counter])
        let count := min next.length (length - offset)
        expandLoop prk info length fuel (arraycopy next out offset count) next
          (offset + count) (counter + 1)
      else some out

def expandKotlin (prk info : Bytes) (length : ℕ) : Option Bytes :=
  expandLoop hmac prk info length (length + 1) (List.replicate length 0) [] 0 1

/-- `Hkdf.deriveKey`, which refuses a length outside `1 .. 255 * 32`. -/
def deriveKeyKotlin (ikm : Bytes) (length : ℕ) (salt info : Bytes) :
    Option Bytes :=
  if 1 ≤ length ∧ length ≤ 255 * hashLen then
    expandKotlin hmac (extract hmac salt ikm) info length
  else none

/-! ## The loop computes the RFC -/

theorem block_length (prk info : Bytes) (i : ℕ) :
    (block hmac prk info (i + 1)).length = hashLen := by
  simp [block, hmac.mac_length, hashLen]

theorem blocks_succ (prk info : Bytes) (count : ℕ) :
    blocks hmac prk info (count + 1) =
      blocks hmac prk info count ++ block hmac prk info (count + 1) := by
  simp [blocks, List.range_succ]

theorem blocks_length (prk info : Bytes) (count : ℕ) :
    (blocks hmac prk info count).length = count * hashLen := by
  induction count with
  | zero => rfl
  | succ count ih =>
      rw [blocks_succ, List.length_append, ih, block_length]
      ring

theorem blocks_take_of_le (prk info : Bytes) {few many length : ℕ}
    (hle : few ≤ many) (hlength : length ≤ few * hashLen) :
    (blocks hmac prk info many).take length =
      (blocks hmac prk info few).take length := by
  induction many, hle using Nat.le_induction with
  | base => rfl
  | succ many hle ih =>
      rw [blocks_succ, List.take_append_of_le_length, ih]
      rw [blocks_length]
      exact hlength.trans (Nat.mul_le_mul_right hashLen hle)

theorem length_le_ceil (length : ℕ) :
    length ≤ (length + hashLen - 1) / hashLen * hashLen := by
  simp only [hashLen]
  omega

theorem expand_eq_take_blocks (prk info : Bytes) {length count : ℕ}
    (hcount : length ≤ count * hashLen) :
    expand hmac prk info length = (blocks hmac prk info count).take length := by
  unfold expand
  rcases Nat.le_total ((length + hashLen - 1) / hashLen) count with hle | hle
  · exact (blocks_take_of_le hmac prk info hle (length_le_ceil length)).symm
  · exact blocks_take_of_le hmac prk info hle hcount

/-- The output when its last byte falls into block `count + 1`. -/
theorem expand_last_block (prk info : Bytes) {length count : ℕ}
    (hle : count * hashLen ≤ length) (hlast : length ≤ (count + 1) * hashLen) :
    expand hmac prk info length =
      blocks hmac prk info count ++
        (block hmac prk info (count + 1)).take (length - count * hashLen) := by
  have hwhole : (blocks hmac prk info count).take length =
      blocks hmac prk info count := by
    apply List.take_of_length_le
    rw [blocks_length]
    exact hle
  rw [expand_eq_take_blocks hmac prk info hlast, blocks_succ, List.take_append,
    hwhole, blocks_length]

theorem arraycopy_length {source target : Bytes} {offset count : ℕ}
    (hsource : count ≤ source.length) (htarget : offset + count ≤ target.length) :
    (arraycopy source target offset count).length = target.length := by
  simp only [arraycopy, List.length_append, List.length_take, List.length_drop]
  omega

theorem arraycopy_take {source target : Bytes} {offset count : ℕ}
    (hsource : count ≤ source.length) (htarget : offset + count ≤ target.length) :
    (arraycopy source target offset count).take (offset + count) =
      target.take offset ++ source.take count := by
  have hlength : (target.take offset ++ source.take count).length =
      offset + count := by
    simp only [List.length_append, List.length_take]
    omega
  unfold arraycopy
  rw [← hlength, List.take_left]

/-- Copying one more whole block behind the whole blocks. -/
theorem arraycopy_block (prk info : Bytes) {out : Bytes} {count : ℕ}
    (hwhole : (count + 1) * hashLen ≤ out.length)
    (htake : out.take (count * hashLen) = blocks hmac prk info count) :
    (arraycopy (block hmac prk info (count + 1)) out (count * hashLen) hashLen).length =
        out.length ∧
      (arraycopy (block hmac prk info (count + 1)) out (count * hashLen) hashLen).take
        ((count + 1) * hashLen) = blocks hmac prk info (count + 1) := by
  have hoffset : (count + 1) * hashLen = count * hashLen + hashLen := by ring
  have hcopied : hashLen ≤ (block hmac prk info (count + 1)).length :=
    (block_length hmac prk info count).ge
  have hlast : (block hmac prk info (count + 1)).take hashLen =
      block hmac prk info (count + 1) := by
    rw [← block_length hmac prk info count, List.take_length]
  rw [hoffset] at hwhole ⊢
  refine ⟨arraycopy_length hcopied hwhole, ?_⟩
  rw [arraycopy_take hcopied hwhole, htake, hlast, blocks_succ]

/-- Copying what is missing, when that is a block or less. -/
theorem arraycopy_last (prk info : Bytes) {out : Bytes} {count : ℕ}
    (hle : count * hashLen ≤ out.length) (hlast : out.length ≤ (count + 1) * hashLen)
    (htake : out.take (count * hashLen) = blocks hmac prk info count) :
    arraycopy (block hmac prk info (count + 1)) out (count * hashLen)
      (out.length - count * hashLen) = expand hmac prk info out.length := by
  have hend : count * hashLen + (out.length - count * hashLen) = out.length := by omega
  have hcopied : out.length - count * hashLen ≤ (block hmac prk info (count + 1)).length := by
    rw [block_length]
    rw [Nat.add_mul, Nat.one_mul] at hlast
    omega
  have harray := arraycopy_take hcopied hend.le
  have hfull := arraycopy_length hcopied hend.le
  rw [hend, List.take_of_length_le hfull.le] at harray
  rw [harray, htake, expand_last_block hmac prk info hle hlast]

/-- The loop leaves the array alone once it is full. -/
theorem expandLoop_full (prk info : Bytes) (length fuel : ℕ) (out previous : Bytes)
    (counter : ℕ) :
    expandLoop hmac prk info length (fuel + 1) out previous length counter = some out := by
  unfold expandLoop
  rw [if_neg (lt_irrefl length)]

/-- From the state after `count` whole blocks, with enough fuel for the bytes
that are missing, the loop returns the output of the RFC. -/
theorem expandLoop_eq (prk info : Bytes) (length : ℕ) :
    ∀ (fuel count : ℕ) (out : Bytes), out.length = length →
      count * hashLen ≤ length →
      out.take (count * hashLen) = blocks hmac prk info count →
      length < count * hashLen + fuel →
      expandLoop hmac prk info length fuel out (block hmac prk info count)
        (count * hashLen) (count + 1) = some (expand hmac prk info length) := by
  intro fuel
  induction fuel with
  | zero =>
      intro count out _ hle _ hfuel
      omega
  | succ fuel ih =>
      intro count out hout hle htake hfuel
      subst hout
      have hnext : hmac.mac prk (block hmac prk info count ++ info ++
          [UInt8.ofNat (count + 1)]) = block hmac prk info (count + 1) := rfl
      have hoffset : (count + 1) * hashLen = count * hashLen + hashLen := by ring
      by_cases hmore : count * hashLen < out.length
      · unfold expandLoop
        rw [if_pos hmore]
        simp only [hnext, block_length]
        by_cases hwhole : (count + 1) * hashLen ≤ out.length
        · have hmin : min hashLen (out.length - count * hashLen) = hashLen := by omega
          obtain ⟨hlength, hblocks⟩ := arraycopy_block hmac prk info hwhole htake
          rw [hmin, ← hoffset]
          apply ih (count + 1) _ hlength hwhole hblocks
          have hpos : 0 < hashLen := by decide
          omega
        · have hmin : min hashLen (out.length - count * hashLen) =
              out.length - count * hashLen := by
            omega
          have hend : count * hashLen + (out.length - count * hashLen) = out.length := by
            omega
          rw [hmin, hend, arraycopy_last hmac prk info hle (not_le.mp hwhole).le htake]
          cases fuel with
          | zero => omega
          | succ fuel => exact expandLoop_full hmac prk info out.length fuel _ _ _
      · have heq : count * hashLen = out.length := by omega
        rw [heq, expandLoop_full, expand_eq_take_blocks hmac prk info heq.ge, ← htake, heq,
          List.take_length, List.take_length]

theorem expandKotlin_eq (prk info : Bytes) (length : ℕ) :
    expandKotlin hmac prk info length = some (expand hmac prk info length) := by
  have hloop := expandLoop_eq hmac prk info length
    (length + 1) 0 (List.replicate length 0) (by simp) (by simp) (by simp [blocks])
    (by omega)
  simpa [expandKotlin, block] using hloop

/-- The Android derivation agrees with the RFC on every admissible length. -/
theorem deriveKeyKotlin_eq (ikm salt info : Bytes) {length : ℕ}
    (hpos : 1 ≤ length) (hmax : length ≤ 255 * hashLen) :
    deriveKeyKotlin hmac ikm length salt info =
      some (deriveKey hmac ikm salt info length) := by
  rw [deriveKeyKotlin, if_pos ⟨hpos, hmax⟩, expandKotlin_eq]
  rfl

end Hkdf

end NativeInterop
