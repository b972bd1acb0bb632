import NativeInterop.Hkdf
import NativeInterop.Loop
import Mathlib.Tactic

/-!
# The expansion loop of HKDF, pass by pass

`expand` fills one array in place, with an offset into it and a counter that is cast to a byte.
Here every pass of its loop is looked at: the copies lie within the arrays, the counter is never
above 255 where it is cast, and the output is the one of RFC 5869 whatever the array held, so
that no byte of it is left as it was.
-/

namespace NativeInterop

namespace Hkdf

/-- The variables of `expand`. -/
structure Expansion where
  out : Bytes
  previous : Bytes
  offset : ℕ
  counter : ℕ
  deriving DecidableEq

def Expansion.start (out : Bytes) : Expansion := ⟨out, [], 0, 1⟩

/-- `System.arraycopy`, which throws where it would leave an array. -/
def arraycopyWithin (source target : Bytes) (offset count : ℕ) : Option Bytes :=
  if count ≤ source.length ∧ offset + count ≤ target.length then
    some (arraycopy source target offset count)
  else none

def toByte (counter : ℕ) : UInt8 := UInt8.ofNat counter

variable (hmac : HmacSha256) (prk info : Bytes) (length : ℕ)

/-- What a pass appends to the output. -/
def Expansion.next (s : Expansion) : Bytes :=
  hmac.mac prk (s.previous ++ info ++ [toByte s.counter])

def Expansion.take (s : Expansion) : ℕ :=
  min (s.next hmac prk info).length (length - s.offset)

/-- One pass; the loop leaves with the array, or with an exception. -/
def expandPass (s : Expansion) : Expansion ⊕ Option Bytes :=
  if s.offset < length then
    match arraycopyWithin (s.next hmac prk info) s.out s.offset (s.take hmac prk info length) with
    | some out => .inl ⟨out, s.next hmac prk info, s.offset + s.take hmac prk info length,
        s.counter + 1⟩
    | none => .inr none
  else .inr (some s.out)

theorem expandPass_lowers (s t : Expansion) (hpass : expandPass hmac prk info length s = .inl t) :
    length - t.offset < length - s.offset := by
  unfold expandPass at hpass
  split_ifs at hpass with hmore
  split at hpass
  · cases hpass
    have htake : 1 ≤ s.take hmac prk info length := by
      rw [Expansion.take, Expansion.next, hmac.mac_length]
      omega
    simp only
    omega
  · cases hpass

/-- The `while` loop. -/
def expansion : Loop Expansion (Option Bytes) where
  pass := expandPass hmac prk info length
  rank s := length - s.offset
  lowers := expandPass_lowers hmac prk info length

/-! ## Every pass -/

/-- In front of the offset stands the output of the RFC, and the counter numbers the next
block. -/
structure Filled (s : Expansion) : Prop where
  out_length : s.out.length = length
  exists_count : ∃ count, s.counter = count + 1 ∧ s.offset = min (count * hashLen) length ∧
    s.previous = block hmac prk info count ∧
    s.out.take s.offset = expand hmac prk info s.offset

theorem filled_start {out : Bytes} (hout : out.length = length) :
    Filled hmac prk info length (.start out) where
  out_length := hout
  exists_count := by
    refine ⟨0, rfl, ?_, rfl, ?_⟩
    · rw [Nat.zero_mul, Nat.zero_min]
      rfl
    · simp [Expansion.start, expand]

variable {hmac prk info length} {s t : Expansion}

/-- A pass in front of the end copies within the arrays, up to the end of the next block. -/
theorem exists_expandPass (hfilled : Filled hmac prk info length s) (hmore : s.offset < length) :
    ∃ next, expandPass hmac prk info length s = .inl next ∧ Filled hmac prk info length next := by
  obtain ⟨hout, count, hcounter, hoffset, hprevious, hwritten⟩ := hfilled
  have hstart : s.offset = count * hashLen := by omega
  have hnext : s.next hmac prk info = block hmac prk info (count + 1) := by
    rw [Expansion.next, hprevious, hcounter]
    rfl
  have htake : s.take hmac prk info length = min hashLen (length - s.offset) := by
    rw [Expansion.take, hnext, block_length]
  have hsource : s.take hmac prk info length ≤ (s.next hmac prk info).length := by
    rw [Expansion.take]
    exact Nat.min_le_left _ _
  have htarget : s.offset + s.take hmac prk info length ≤ s.out.length := by
    rw [hout, htake]
    omega
  have hblocks : (count + 1) * hashLen = count * hashLen + hashLen := by ring
  refine ⟨⟨arraycopy (s.next hmac prk info) s.out s.offset (s.take hmac prk info length),
    s.next hmac prk info, s.offset + s.take hmac prk info length, s.counter + 1⟩, ?_, ?_⟩
  · rw [expandPass, if_pos hmore, arraycopyWithin, if_pos ⟨hsource, htarget⟩]
  · refine ⟨(arraycopy_length hsource htarget).trans hout, count + 1, ?_, ?_, hnext, ?_⟩
    · rw [hcounter]
    · simp only
      omega
    · have hlast : s.offset + s.take hmac prk info length ≤ (count + 1) * hashLen := by omega
      have hwhole : expand hmac prk info (count * hashLen) = blocks hmac prk info count := by
        rw [expand_eq_take_blocks hmac prk info le_rfl, List.take_of_length_le]
        exact (blocks_length hmac prk info count).le
      have hrest : s.offset + s.take hmac prk info length - count * hashLen =
          s.take hmac prk info length := by
        omega
      simp only
      rw [arraycopy_take hsource htarget, hwritten,
        expand_last_block hmac prk info (by omega) hlast, hrest, hnext, hstart, hwhole]

theorem Filled.pass (hfilled : Filled hmac prk info length s)
    (hpass : expandPass hmac prk info length s = .inl t) : Filled hmac prk info length t := by
  by_cases hmore : s.offset < length
  · obtain ⟨next, hnext, hkept⟩ := exists_expandPass hfilled hmore
    cases hnext.symm.trans hpass
    exact hkept
  · rw [expandPass, if_neg hmore] at hpass
    cases hpass

theorem Filled.exit (hfilled : Filled hmac prk info length s) {result : Option Bytes}
    (hpass : expandPass hmac prk info length s = .inr result) :
    result = some (expand hmac prk info length) := by
  by_cases hmore : s.offset < length
  · obtain ⟨next, hnext, -⟩ := exists_expandPass hfilled hmore
    cases hnext.symm.trans hpass
  · rw [expandPass, if_neg hmore] at hpass
    cases hpass
    obtain ⟨hout, count, -, hoffset, -, hwritten⟩ := hfilled
    have hend : s.offset = length := by omega
    rw [hend, ← hout, List.take_length] at hwritten
    rw [hwritten, hout]

theorem filled_of_reaches {out : Bytes} (hout : out.length = length)
    (hreaches : (expansion hmac prk info length).Reaches (.start out) s) :
    Filled hmac prk info length s := by
  induction hreaches with
  | refl => exact filled_start hmac prk info length hout
  | tail _ hpass ih => exact ih.pass hpass

theorem run_expansion {out : Bytes} (hout : out.length = length) :
    (expansion hmac prk info length).run (.start out) = some (expand hmac prk info length) :=
  (expansion hmac prk info length).run_invariant
    (Q := fun result => result = some (expand hmac prk info length))
    (fun _ _ hfilled hpass => hfilled.pass hpass) (fun _ _ hfilled hpass => hfilled.exit hpass)
    (filled_start hmac prk info length hout)

/-- In front of the end the counter is a byte. -/
theorem Filled.counter_eq (hfilled : Filled hmac prk info length s)
    (hmax : length ≤ 255 * hashLen) (hmore : s.offset < length) :
    1 ≤ s.counter ∧ (toByte s.counter).toNat = s.counter := by
  obtain ⟨-, count, hcounter, hoffset, -, -⟩ := hfilled
  have hcount : count * hashLen < 255 * hashLen := by omega
  have hlt : count < 255 := Nat.lt_of_mul_lt_mul_right hcount
  rw [toByte, UInt8.toNat_ofNat', hcounter]
  omega

theorem expandKotlin_eq_run :
    expandKotlin hmac prk info length =
      (expansion hmac prk info length).run (.start (List.replicate length 0)) := by
  rw [expandKotlin_eq, run_expansion List.length_replicate]

/-- The Android derivation is the RFC's; whatever the array holds before, each byte of it is
written, and no counter is wrapped. -/
theorem deriveKeyKotlin_exact (hmac : HmacSha256) (ikm salt info : Bytes) {length : ℕ}
    (hpos : 1 ≤ length) (hmax : length ≤ 255 * hashLen) :
    deriveKeyKotlin hmac ikm length salt info = some (deriveKey hmac ikm salt info length) ∧
    expandKotlin hmac (extract hmac salt ikm) info length =
      (expansion hmac (extract hmac salt ikm) info length).run
        (.start (List.replicate length 0)) ∧
    ∀ out : Bytes, out.length = length →
      (expansion hmac (extract hmac salt ikm) info length).run (.start out) =
          some (deriveKey hmac ikm salt info length) ∧
        ∀ s, (expansion hmac (extract hmac salt ikm) info length).Reaches (.start out) s →
          s.offset < length → 1 ≤ s.counter ∧ (toByte s.counter).toNat = s.counter := by
  refine ⟨deriveKeyKotlin_eq hmac ikm salt info hpos hmax, expandKotlin_eq_run, ?_⟩
  intro out hout
  refine ⟨run_expansion hout, ?_⟩
  intro s hreaches hmore
  exact (filled_of_reaches hout hreaches).counter_eq hmax hmore

/-! ## The third test vector of the RFC -/

def vectorIkm : Bytes := List.replicate 22 0x0B

def vectorPrk : Bytes :=
  [0x19, 0xEF, 0x24, 0xA3, 0x2C, 0x71, 0x7B, 0x16, 0x7F, 0x33, 0xA9, 0x1D, 0x6F, 0x64,
    0x8B, 0xDF, 0x96, 0x59, 0x67, 0x76, 0xAF, 0xDB, 0x63, 0x77, 0xAC, 0x43, 0x4C, 0x1C,
    0x29, 0x3C, 0xCB, 0x04]

def vectorFirst : Bytes :=
  [0x8D, 0xA4, 0xE7, 0x75, 0xA5, 0x63, 0xC1, 0x8F, 0x71, 0x5F, 0x80, 0x2A, 0x06, 0x3C,
    0x5A, 0x31, 0xB8, 0xA1, 0x1F, 0x5C, 0x5E, 0xE1, 0x87, 0x9E, 0xC3, 0x45, 0x4E, 0x5F,
    0x3C, 0x73, 0x8D, 0x2D]

def vectorSecond : Bytes :=
  [0x9D, 0x20, 0x13, 0x95, 0xFA, 0xA4, 0xB6, 0x1A, 0x96, 0xC8, 0xB2, 0xFB, 0x61, 0x05,
    0x72, 0x44, 0xB3, 0x6C, 0x6D, 0xDD, 0x28, 0x7F, 0x63, 0x47, 0x95, 0xE7, 0xD8, 0x0D,
    0x5F, 0xE2, 0x6B, 0xFC]

/-- The digests that the vector needs. -/
def vectorMac (key data : Bytes) : Bytes :=
  if key = List.replicate 32 0 ∧ data = vectorIkm then vectorPrk
  else if key = vectorPrk ∧ data = [1] then vectorFirst
  else if key = vectorPrk ∧ data = vectorFirst ++ [2] then vectorSecond
  else List.replicate 32 0

def vectorHmac : HmacSha256 where
  mac := vectorMac
  mac_length := by
    intro key data
    unfold vectorMac
    split_ifs <;> rfl

theorem deriveKeyKotlin_exact_vector :
    deriveKeyKotlin vectorHmac vectorIkm 42 [] [] = some (vectorFirst ++ vectorSecond.take 10) := by
  have hexact := (deriveKeyKotlin_exact vectorHmac vectorIkm [] []
    (by decide : 1 ≤ 42) (by decide)).1
  have houtput : deriveKey vectorHmac vectorIkm [] [] 42 =
      vectorFirst ++ vectorSecond.take 10 := by
    decide +kernel
  rw [hexact, houtput]

end Hkdf

end NativeInterop
