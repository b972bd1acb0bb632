import Mathlib.Data.List.Basic
import Mathlib.Tactic

/-!
# Signed decimal numbers

A reader of integers over any type of characters: an optional sign, then digits, then a range.
Two readers whose characters correspond read the same number, and what decimal notation writes
is read back.
-/

namespace NativeInterop

namespace SignedDecimal

/-- What a runtime takes for digits and signs. -/
structure Alphabet (α : Type*) where
  digitOf : α → Option ℕ
  plus : α
  minus : α

variable {α : Type*}

/-- The loop over the digits. -/
def valueFrom (digitOf : α → Option ℕ) : ℕ → List α → Option ℕ
  | value, [] => some value
  | value, c :: rest => (digitOf c).bind fun digit => valueFrom digitOf (10 * value + digit) rest

def magnitude (digitOf : α → Option ℕ) (text : List α) : Option ℤ :=
  if text.isEmpty then none else (valueFrom digitOf 0 text).map Int.ofNat

def signed [DecidableEq α] (alphabet : Alphabet α) : List α → Option ℤ
  | [] => none
  | first :: rest =>
      if first = alphabet.minus then (magnitude alphabet.digitOf rest).map (- ·)
      else if first = alphabet.plus then magnitude alphabet.digitOf rest
      else magnitude alphabet.digitOf (first :: rest)

def within (least greatest value : ℤ) : Option ℤ :=
  if least ≤ value ∧ value ≤ greatest then some value else none

def parse [DecidableEq α] (alphabet : Alphabet α) (least greatest : ℤ) (text : List α) :
    Option ℤ :=
  (signed alphabet text).bind (within least greatest)

theorem within_eq_some {least greatest value n : ℤ} :
    within least greatest value = some n ↔ value = n ∧ least ≤ n ∧ n ≤ greatest := by
  unfold within
  split_ifs with hrange
  · rw [Option.some.injEq]
    constructor
    · rintro rfl
      exact ⟨rfl, hrange⟩
    · exact And.left
  · constructor
    · exact nofun
    · rintro ⟨rfl, hrange'⟩
      exact absurd hrange' hrange

theorem parse_eq_some [DecidableEq α] {alphabet : Alphabet α} {least greatest n : ℤ}
    {text : List α} : parse alphabet least greatest text = some n ↔
      signed alphabet text = some n ∧ least ≤ n ∧ n ≤ greatest := by
  rw [parse, Option.bind_eq_some_iff]
  constructor
  · rintro ⟨value, hsigned, hwithin⟩
    obtain ⟨rfl, hrange⟩ := within_eq_some.mp hwithin
    exact ⟨hsigned, hrange⟩
  · rintro ⟨hsigned, hrange⟩
    exact ⟨n, hsigned, within_eq_some.mpr ⟨rfl, hrange⟩⟩

theorem isSome_digitOf_of_valueFrom {digitOf : α → Option ℕ} {text : List α} {value n : ℕ}
    (hvalue : valueFrom digitOf value text = some n) : ∀ c ∈ text, (digitOf c).isSome := by
  induction text generalizing value with
  | nil => exact nofun
  | cons c text ih =>
      obtain ⟨digit, hdigit, hrest⟩ := Option.bind_eq_some_iff.mp hvalue
      rw [List.forall_mem_cons]
      exact ⟨by simp [hdigit], ih hrest⟩

theorem isSome_digitOf_of_magnitude {digitOf : α → Option ℕ} {text : List α} {n : ℤ}
    (hmagnitude : magnitude digitOf text = some n) :
    text ≠ [] ∧ ∀ c ∈ text, (digitOf c).isSome := by
  unfold magnitude at hmagnitude
  split_ifs at hmagnitude with hempty
  obtain ⟨value, hvalue, -⟩ := Option.map_eq_some_iff.mp hmagnitude
  exact ⟨by simpa using hempty, isSome_digitOf_of_valueFrom hvalue⟩

/-- A number is made of digits and signs. -/
theorem mem_of_signed [DecidableEq α] {alphabet : Alphabet α} {text : List α} {n : ℤ}
    (hsigned : signed alphabet text = some n) :
    text ≠ [] ∧ ∀ c ∈ text,
      c = alphabet.minus ∨ c = alphabet.plus ∨ (alphabet.digitOf c).isSome := by
  cases text with
  | nil => cases hsigned
  | cons first rest =>
      refine ⟨List.cons_ne_nil first rest, ?_⟩
      rw [List.forall_mem_cons]
      rw [signed] at hsigned
      split_ifs at hsigned with hminus hplus
      · obtain ⟨value, hvalue, -⟩ := Option.map_eq_some_iff.mp hsigned
        have hdigits := (isSome_digitOf_of_magnitude hvalue).2
        exact ⟨.inl hminus, fun c hc => .inr (.inr (hdigits c hc))⟩
      · have hdigits := (isSome_digitOf_of_magnitude hsigned).2
        exact ⟨.inr (.inl hplus), fun c hc => .inr (.inr (hdigits c hc))⟩
      · have hdigits := (isSome_digitOf_of_magnitude hsigned).2
        rw [List.forall_mem_cons] at hdigits
        exact ⟨.inr (.inr hdigits.1), fun c hc => .inr (.inr (hdigits.2 c hc))⟩

section Map

variable {β : Type*} {f : α → β}

theorem valueFrom_map {digitOf : α → Option ℕ} {other : β → Option ℕ} {text : List α}
    (hdigits : ∀ c ∈ text, other (f c) = digitOf c) (value : ℕ) :
    valueFrom other value (text.map f) = valueFrom digitOf value text := by
  induction text generalizing value with
  | nil => rfl
  | cons c text ih =>
      rw [List.forall_mem_cons] at hdigits
      rw [List.map_cons, valueFrom, valueFrom, hdigits.1]
      simp only [ih hdigits.2]

theorem magnitude_map {digitOf : α → Option ℕ} {other : β → Option ℕ} {text : List α}
    (hdigits : ∀ c ∈ text, other (f c) = digitOf c) :
    magnitude other (text.map f) = magnitude digitOf text := by
  rw [magnitude, magnitude, List.isEmpty_map, valueFrom_map hdigits]

/-- Corresponding characters make the same number. -/
theorem signed_map [DecidableEq α] [DecidableEq β] {alphabet : Alphabet α} {other : Alphabet β}
    {text : List α} (hdigits : ∀ c ∈ text, other.digitOf (f c) = alphabet.digitOf c)
    (hminus : ∀ c ∈ text, f c = other.minus ↔ c = alphabet.minus)
    (hplus : ∀ c ∈ text, f c = other.plus ↔ c = alphabet.plus) :
    signed other (text.map f) = signed alphabet text := by
  cases text with
  | nil => rfl
  | cons first rest =>
      have hrest := fun c hc => hdigits c (List.mem_cons_of_mem first hc)
      have hall := magnitude_map hdigits
      rw [List.map_cons] at hall
      rw [List.map_cons, signed, signed]
      simp only [hminus first List.mem_cons_self, hplus first List.mem_cons_self,
        magnitude_map hrest, hall]

end Map

/-! ## Decimal notation -/

def ascii : Alphabet Char where
  digitOf c := if c.isDigit then some (c.toNat - 48) else none
  plus := '+'
  minus := '-'

theorem valueFrom_ascii {text : List Char} (hdigits : ∀ c ∈ text, c.isDigit = true) (value : ℕ) :
    valueFrom ascii.digitOf value text = some (Nat.ofDigitChars 10 text value) := by
  induction text generalizing value with
  | nil => rfl
  | cons c text ih =>
      rw [List.forall_mem_cons] at hdigits
      have hdigit : ascii.digitOf c = some (c.toNat - 48) := by simp [ascii, hdigits.1]
      rw [valueFrom, hdigit, Option.bind_some, ih hdigits.2]
      rfl

theorem signed_toDigits (n : ℕ) : signed ascii (Nat.toDigits 10 n) = some (n : ℤ) := by
  have hdigits : ∀ c ∈ Nat.toDigits 10 n, c.isDigit = true := fun c hc =>
    Nat.isDigit_of_mem_toDigits (by decide) (by decide) hc
  have hmagnitude : magnitude ascii.digitOf (Nat.toDigits 10 n) = some (n : ℤ) := by
    rw [magnitude, if_neg (by simp), valueFrom_ascii hdigits, Nat.ofDigitChars_ten_toDigits]
    rfl
  cases htext : Nat.toDigits 10 n with
  | nil => exact absurd htext Nat.toDigits_ne_nil
  | cons first rest =>
      rw [htext] at hdigits hmagnitude
      have hfirst := hdigits first List.mem_cons_self
      have hminus : first ≠ ascii.minus := by
        rintro rfl
        exact absurd hfirst (by decide)
      have hplus : first ≠ ascii.plus := by
        rintro rfl
        exact absurd hfirst (by decide)
      rw [signed, if_neg hminus, if_neg hplus, hmagnitude]

end SignedDecimal

end NativeInterop
