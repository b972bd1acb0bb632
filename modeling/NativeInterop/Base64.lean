import Mathlib.Data.List.Basic
import Mathlib.Tactic

/-!
# Base64

The encoding with padding, and a decoder that takes padding or leaves it out in the last unit
but refuses everything else outside the alphabet.  This file is independent of what the bytes
are for; it has the round trip and which code units an accepted text is made of.
-/

namespace NativeInterop

namespace Base64

/-- Capital letters, small letters, digits, plus and slash. -/
def letter (n : ℕ) : UInt16 :=
  if n < 26 then .ofNat (0x41 + n)
  else if n < 52 then .ofNat (0x61 + (n - 26))
  else if n < 62 then .ofNat (0x30 + (n - 52))
  else if n = 62 then 0x2B
  else 0x2F

def sextet (unit : UInt16) : Option ℕ :=
  if 0x41 ≤ unit.toNat ∧ unit.toNat ≤ 0x5A then some (unit.toNat - 0x41)
  else if 0x61 ≤ unit.toNat ∧ unit.toNat ≤ 0x7A then some (unit.toNat - 0x61 + 26)
  else if 0x30 ≤ unit.toNat ∧ unit.toNat ≤ 0x39 then some (unit.toNat - 0x30 + 52)
  else if unit = 0x2B then some 62
  else if unit = 0x2F then some 63
  else none

def pad : UInt16 := 0x3D

def first (p q : ℕ) : UInt8 := .ofNat (p * 4 + q / 16)

def second (q r : ℕ) : UInt8 := .ofNat (q % 16 * 16 + r / 4)

def third (r s : ℕ) : UInt8 := .ofNat (r % 4 * 64 + s)

def encode : List UInt8 → List UInt16
  | [] => []
  | [a] => [letter (a.toNat / 4), letter (a.toNat % 4 * 16), pad, pad]
  | [a, b] =>
      [letter (a.toNat / 4), letter (a.toNat % 4 * 16 + b.toNat / 16), letter (b.toNat % 16 * 4),
        pad]
  | a :: b :: c :: rest =>
      letter (a.toNat / 4) :: letter (a.toNat % 4 * 16 + b.toNat / 16) ::
        letter (b.toNat % 16 * 4 + c.toNat / 64) :: letter (c.toNat % 64) :: encode rest

/-- A last unit of two letters. -/
def decodeTwo (p q : UInt16) : Option (List UInt8) := do
  let p ← sextet p
  let q ← sextet q
  some [first p q]

def decodeThree (p q r : UInt16) : Option (List UInt8) := do
  let p ← sextet p
  let q ← sextet q
  let r ← sextet r
  some [first p q, second q r]

def decodeFour (p q r s : UInt16) : Option (List UInt8) := do
  let p ← sextet p
  let q ← sextet q
  let r ← sextet r
  let s ← sextet s
  some [first p q, second q r, third r s]

def decode : List UInt16 → Option (List UInt8)
  | [] => some []
  | [_] => none
  | [p, q] => decodeTwo p q
  | [p, q, r] => decodeThree p q r
  | p :: q :: r :: s :: rest =>
      if r = pad then (if s = pad ∧ rest = [] then decodeTwo p q else none)
      else if s = pad then (if rest = [] then decodeThree p q r else none)
      else (decodeFour p q r s).bind fun bytes => (decode rest).map (bytes ++ ·)

/-! ## The alphabet -/

def IsUnit (unit : UInt16) : Prop := unit = pad ∨ (sextet unit).isSome

theorem isUnit_pad : IsUnit pad := .inl rfl

theorem letter_ne_pad {n : ℕ} (hn : n < 64) : letter n ≠ pad := by
  interval_cases n <;> decide

theorem sextet_letter {n : ℕ} (hn : n < 64) : sextet (letter n) = some n := by
  interval_cases n <;> decide

theorem isUnit_of_decodeTwo {p q : UInt16} {bytes : List UInt8}
    (hdecode : decodeTwo p q = some bytes) : IsUnit p ∧ IsUnit q := by
  simp only [decodeTwo, Option.bind_eq_bind, Option.bind_eq_some_iff] at hdecode
  obtain ⟨_, hp, _, hq, -⟩ := hdecode
  exact ⟨.inr (by simp [hp]), .inr (by simp [hq])⟩

theorem isUnit_of_decodeThree {p q r : UInt16} {bytes : List UInt8}
    (hdecode : decodeThree p q r = some bytes) : IsUnit p ∧ IsUnit q ∧ IsUnit r := by
  simp only [decodeThree, Option.bind_eq_bind, Option.bind_eq_some_iff] at hdecode
  obtain ⟨_, hp, _, hq, _, hr, -⟩ := hdecode
  exact ⟨.inr (by simp [hp]), .inr (by simp [hq]), .inr (by simp [hr])⟩

theorem isUnit_of_decodeFour {p q r s : UInt16} {bytes : List UInt8}
    (hdecode : decodeFour p q r s = some bytes) :
    IsUnit p ∧ IsUnit q ∧ IsUnit r ∧ IsUnit s := by
  simp only [decodeFour, Option.bind_eq_bind, Option.bind_eq_some_iff] at hdecode
  obtain ⟨_, hp, _, hq, _, hr, _, hs, -⟩ := hdecode
  exact ⟨.inr (by simp [hp]), .inr (by simp [hq]), .inr (by simp [hr]), .inr (by simp [hs])⟩

/-- An accepted text holds letters and padding only. -/
theorem isUnit_of_decode {text : List UInt16} {bytes : List UInt8}
    (hdecode : decode text = some bytes) : ∀ unit ∈ text, IsUnit unit := by
  induction text using decode.induct generalizing bytes with
  | case1 => exact nofun
  | case2 unit => cases hdecode
  | case3 p q =>
      obtain ⟨hp, hq⟩ := isUnit_of_decodeTwo hdecode
      simp [hp, hq]
  | case4 p q r =>
      obtain ⟨hp, hq, hr⟩ := isUnit_of_decodeThree hdecode
      simp [hp, hq, hr]
  | case5 p q s rest hend =>
      obtain ⟨rfl, rfl⟩ := hend
      rw [decode, if_pos rfl, if_pos ⟨rfl, rfl⟩] at hdecode
      obtain ⟨hp, hq⟩ := isUnit_of_decodeTwo hdecode
      simp [hp, hq, isUnit_pad]
  | case6 p q s rest hend =>
      rw [decode, if_pos rfl, if_neg hend] at hdecode
      cases hdecode
  | case7 p q r hr =>
      rw [decode, if_neg hr, if_pos rfl, if_pos rfl] at hdecode
      obtain ⟨hp, hq, hr⟩ := isUnit_of_decodeThree hdecode
      simp [hp, hq, hr, isUnit_pad]
  | case8 p q r rest hr hend =>
      rw [decode, if_neg hr, if_pos rfl, if_neg hend] at hdecode
      cases hdecode
  | case9 p q r s rest hr hs ih =>
      rw [decode, if_neg hr, if_neg hs, Option.bind_eq_some_iff] at hdecode
      obtain ⟨front, hfour, hrest⟩ := hdecode
      obtain ⟨behind, hbehind, -⟩ := Option.map_eq_some_iff.mp hrest
      obtain ⟨hp, hq, hr, hs⟩ := isUnit_of_decodeFour hfour
      simp only [List.forall_mem_cons]
      exact ⟨hp, hq, hr, hs, ih hbehind⟩

/-! ## The round trip -/

theorem first_eq (a : UInt8) {q : ℕ} (hq : q < 16) :
    first (a.toNat / 4) (a.toNat % 4 * 16 + q) = a := by
  have hsum : a.toNat / 4 * 4 + (a.toNat % 4 * 16 + q) / 16 = a.toNat := by omega
  rw [first, hsum, UInt8.ofNat_toNat]

theorem second_eq (b : UInt8) {p r : ℕ} (hr : r < 4) :
    second (p * 16 + b.toNat / 16) (b.toNat % 16 * 4 + r) = b := by
  have hsize := b.toNat_lt
  have hsum : (p * 16 + b.toNat / 16) % 16 * 16 + (b.toNat % 16 * 4 + r) / 4 = b.toNat := by omega
  rw [second, hsum, UInt8.ofNat_toNat]

theorem third_eq (c : UInt8) (q : ℕ) : third (q * 4 + c.toNat / 64) (c.toNat % 64) = c := by
  have hsize := c.toNat_lt
  have hsum : (q * 4 + c.toNat / 64) % 4 * 64 + c.toNat % 64 = c.toNat := by omega
  rw [third, hsum, UInt8.ofNat_toNat]

theorem decode_encode (bytes : List UInt8) : decode (encode bytes) = some bytes := by
  induction bytes using encode.induct with
  | case1 => rfl
  | case2 a =>
      have ha := a.toNat_lt
      have hfirst := first_eq a (by decide : 0 < 16)
      rw [Nat.add_zero] at hfirst
      rw [encode, decode, if_pos rfl, if_pos ⟨rfl, rfl⟩, decodeTwo, sextet_letter (by omega),
        sextet_letter (by omega)]
      simp [hfirst]
  | case3 a b =>
      have ha := a.toNat_lt
      have hb := b.toNat_lt
      have hfirst := first_eq a (by omega : b.toNat / 16 < 16)
      have hsecond := second_eq b (p := a.toNat % 4) (by decide : 0 < 4)
      rw [Nat.add_zero] at hsecond
      rw [encode, decode, if_neg (letter_ne_pad (by omega)), if_pos rfl, if_pos rfl, decodeThree,
        sextet_letter (by omega), sextet_letter (by omega), sextet_letter (by omega)]
      simp [hfirst, hsecond]
  | case4 a b c rest ih =>
      have ha := a.toNat_lt
      have hb := b.toNat_lt
      have hc := c.toNat_lt
      have hfirst := first_eq a (by omega : b.toNat / 16 < 16)
      have hsecond := second_eq b (p := a.toNat % 4) (by omega : c.toNat / 64 < 4)
      have hthird := third_eq c (b.toNat % 16)
      rw [encode, decode, if_neg (letter_ne_pad (by omega)), if_neg (letter_ne_pad (by omega)),
        decodeFour, sextet_letter (by omega), sextet_letter (by omega),
        sextet_letter (by omega), sextet_letter (by omega), ih]
      simp [hfirst, hsecond, hthird]

end Base64

end NativeInterop
