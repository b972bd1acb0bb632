import Mathlib.Data.List.Basic
import Mathlib.Tactic

/-!
# UTF-16

Characters as one or two code units, and the strict decoder, which refuses a surrogate that
is not half of a pair.  A sequence that has been cut in two is decoded behind the cut as
before it, unless the cut separates the halves of a pair.
-/

namespace NativeInterop

namespace Utf16

/-- The code units of a character. -/
def units (c : Char) : List UInt16 :=
  if c.toNat < 0x10000 then [.ofNat c.toNat]
  else [.ofNat (0xD800 + (c.toNat - 0x10000) / 0x400),
    .ofNat (0xDC00 + (c.toNat - 0x10000) % 0x400)]

def encode (text : List Char) : List UInt16 :=
  text.flatMap units

def isHigh (unit : UInt16) : Bool :=
  0xD800 ≤ unit.toNat && unit.toNat < 0xDC00

def isLow (unit : UInt16) : Bool :=
  0xDC00 ≤ unit.toNat && unit.toNat < 0xE000

/-- The character of a pair of surrogates. -/
def ofPair (high low : UInt16) : Char :=
  .ofNat (0x10000 + (high.toNat - 0xD800) * 0x400 + (low.toNat - 0xDC00))

def decode : List UInt16 → Option (List Char)
  | [] => some []
  | [unit] => if isHigh unit || isLow unit then none else some [.ofNat unit.toNat]
  | unit :: second :: rest =>
      if isHigh unit then
        if isLow second then (decode rest).map (ofPair unit second :: ·) else none
      else if isLow unit then none
      else (decode (second :: rest)).map (.ofNat unit.toNat :: ·)

theorem units_cases (c : Char) :
    (∃ unit, units c = [unit] ∧ isHigh unit = false ∧ isLow unit = false ∧
      Char.ofNat unit.toNat = c) ∨
    (∃ high low, units c = [high, low] ∧ isHigh high = true ∧ isLow low = true ∧
      ofPair high low = c) := by
  have hvalid : c.toNat < 0xD800 ∨ (0xDFFF < c.toNat ∧ c.toNat < 0x110000) := c.valid
  unfold units
  split_ifs with hsmall
  · left
    have hunit : (UInt16.ofNat c.toNat).toNat = c.toNat := by
      rw [UInt16.toNat_ofNat']
      omega
    refine ⟨_, rfl, ?_, ?_, ?_⟩
    · rw [isHigh, hunit, Bool.and_eq_false_iff, decide_eq_false_iff_not, decide_eq_false_iff_not]
      omega
    · rw [isLow, hunit, Bool.and_eq_false_iff, decide_eq_false_iff_not, decide_eq_false_iff_not]
      omega
    · rw [hunit, Char.ofNat_toNat]
  · right
    have hhigh : (UInt16.ofNat (0xD800 + (c.toNat - 0x10000) / 0x400)).toNat =
        0xD800 + (c.toNat - 0x10000) / 0x400 := by
      rw [UInt16.toNat_ofNat']
      omega
    have hlow : (UInt16.ofNat (0xDC00 + (c.toNat - 0x10000) % 0x400)).toNat =
        0xDC00 + (c.toNat - 0x10000) % 0x400 := by
      rw [UInt16.toNat_ofNat']
      omega
    refine ⟨_, _, rfl, ?_, ?_, ?_⟩
    · rw [isHigh, hhigh, Bool.and_eq_true, decide_eq_true_iff, decide_eq_true_iff]
      omega
    · rw [isLow, hlow, Bool.and_eq_true, decide_eq_true_iff, decide_eq_true_iff]
      omega
    · have hvalue : 0x10000 + (0xD800 + (c.toNat - 0x10000) / 0x400 - 0xD800) * 0x400 +
          (0xDC00 + (c.toNat - 0x10000) % 0x400 - 0xDC00) = c.toNat := by
        omega
      rw [ofPair, hhigh, hlow, hvalue, Char.ofNat_toNat]

theorem decode_plain {unit : UInt16} (hhigh : isHigh unit = false) (hlow : isLow unit = false)
    (rest : List UInt16) :
    decode (unit :: rest) = (decode rest).map (Char.ofNat unit.toNat :: ·) := by
  cases rest with
  | nil => simp [decode, hhigh, hlow]
  | cons second rest => simp [decode, hhigh, hlow]

theorem decode_units (c : Char) (rest : List UInt16) :
    decode (units c ++ rest) = (decode rest).map (c :: ·) := by
  rcases units_cases c with ⟨unit, heq, hhigh, hlow, hchar⟩ |
    ⟨high, low, heq, hhigh, hlow, hchar⟩
  · rw [heq, List.singleton_append, decode_plain hhigh hlow, hchar]
  · rw [heq, List.cons_append, List.singleton_append, decode, if_pos hhigh, if_pos hlow, hchar]

theorem decode_encode_append (text : List Char) (rest : List UInt16) :
    decode (encode text ++ rest) = (decode rest).map (text ++ ·) := by
  induction text with
  | nil => simp [encode]
  | cons c text ih =>
      have hsplit : encode (c :: text) ++ rest = units c ++ (encode text ++ rest) := by
        simp [encode]
      rw [hsplit, decode_units, ih, Option.map_map]
      rfl

@[simp] theorem decode_encode (text : List Char) : decode (encode text) = some text := by
  have happend := decode_encode_append text []
  simpa [decode] using happend

theorem encode_append (first second : List Char) :
    encode (first ++ second) = encode first ++ encode second :=
  List.flatMap_append

/-- A high surrogate before anything but a low one is refused. -/
theorem decode_lone (front : List Char) {high next : UInt16} (hhigh : isHigh high = true)
    (hnext : isLow next = false) (rest : List UInt16) :
    decode (encode front ++ high :: next :: rest) = none := by
  rw [decode_encode_append, decode, if_pos hhigh, if_neg (by simp [hnext])]
  rfl

/-- Cutting off a text leaves whole characters, or one more high surrogate. -/
theorem take_encode (text : List Char) (n : ℕ) :
    (∃ front, (encode text).take n = encode front) ∨
      ∃ front high, isHigh high = true ∧ (encode text).take n = encode front ++ [high] := by
  induction text generalizing n with
  | nil => exact Or.inl ⟨[], by simp [encode]⟩
  | cons c text ih =>
      have hsplit : encode (c :: text) = units c ++ encode text := rfl
      by_cases hwhole : (units c).length ≤ n
      · have htake : (encode (c :: text)).take n =
            units c ++ (encode text).take (n - (units c).length) := by
          rw [hsplit, List.take_append, List.take_of_length_le hwhole]
        rcases ih (n - (units c).length) with ⟨front, hfront⟩ | ⟨front, high, hhigh, hfront⟩
        · exact Or.inl ⟨c :: front, by rw [htake, hfront]; rfl⟩
        · refine Or.inr ⟨c :: front, high, hhigh, ?_⟩
          rw [htake, hfront]
          simp [encode]
      · have htake : (encode (c :: text)).take n = (units c).take n := by
          rw [hsplit, List.take_append_of_le_length (by omega)]
        rcases units_cases c with ⟨unit, heq, -⟩ | ⟨high, low, heq, hhigh, -⟩
        · have hzero : n = 0 := by
            rw [heq, List.length_singleton] at hwhole
            omega
          exact Or.inl ⟨[], by simp [hzero, encode]⟩
        · rw [heq, List.length_cons, List.length_singleton] at hwhole
          rcases Nat.eq_zero_or_pos n with hzero | hpos
          · exact Or.inl ⟨[], by simp [hzero, encode]⟩
          · have hone : n = 1 := by omega
            exact Or.inr ⟨[], high, hhigh, by simp [heq, hone, encode]⟩

theorem getLast?_encode {text : List Char} {unit : UInt16}
    (hlast : (encode text).getLast? = some unit) : isHigh unit = false := by
  rcases List.eq_nil_or_concat text with rfl | ⟨front, c, rfl⟩
  · cases hlast
  · have hsplit : encode (front ++ [c]) = encode front ++ units c := by
      simp [encode]
    rw [List.concat_eq_append, hsplit] at hlast
    rcases units_cases c with ⟨other, heq, hhigh, -⟩ | ⟨high, low, heq, -, hlow, -⟩
    · rw [heq, List.getLast?_concat, Option.some.injEq] at hlast
      rw [← hlast]
      exact hhigh
    · have hpair : encode front ++ [high, low] = encode front ++ [high] ++ [low] := by simp
      rw [heq, hpair, List.getLast?_concat, Option.some.injEq] at hlast
      rw [← hlast]
      simp only [isLow, Bool.and_eq_true, decide_eq_true_eq] at hlow
      simp only [isHigh, Bool.and_eq_false_iff, decide_eq_false_iff_not]
      omega

theorem toNat_ofNat {n : ℕ} (hvalid : n.isValidChar) : (Char.ofNat n).toNat = n := by
  rw [Char.ofNat, dif_pos hvalid]
  rfl

theorem units_ofNat {unit : UInt16} (hhigh : isHigh unit = false) (hlow : isLow unit = false) :
    units (.ofNat unit.toNat) = [unit] := by
  have hrange : unit.toNat < 0x10000 := unit.toNat_lt
  simp only [isHigh, Bool.and_eq_false_iff, decide_eq_false_iff_not] at hhigh
  simp only [isLow, Bool.and_eq_false_iff, decide_eq_false_iff_not] at hlow
  have hchar : (Char.ofNat unit.toNat).toNat = unit.toNat := by
    have hvalid : unit.toNat.isValidChar := by
      rw [Nat.isValidChar]
      omega
    exact toNat_ofNat hvalid
  rw [units, hchar, if_pos hrange, UInt16.ofNat_toNat]

theorem units_ofPair {high low : UInt16} (hhigh : isHigh high = true) (hlow : isLow low = true) :
    units (ofPair high low) = [high, low] := by
  simp only [isHigh, Bool.and_eq_true, decide_eq_true_eq] at hhigh
  simp only [isLow, Bool.and_eq_true, decide_eq_true_eq] at hlow
  have hchar : (ofPair high low).toNat =
      0x10000 + (high.toNat - 0xD800) * 0x400 + (low.toNat - 0xDC00) := by
    have hvalid : (0x10000 + (high.toNat - 0xD800) * 0x400 + (low.toNat - 0xDC00)).isValidChar := by
      rw [Nat.isValidChar]
      omega
    exact toNat_ofNat hvalid
  have hfirst : 0xD800 + ((ofPair high low).toNat - 0x10000) / 0x400 = high.toNat := by omega
  have hsecond : 0xDC00 + ((ofPair high low).toNat - 0x10000) % 0x400 = low.toNat := by omega
  rw [units, if_neg (by omega), hfirst, hsecond, UInt16.ofNat_toNat, UInt16.ofNat_toNat]

/-- What the strict decoder accepts is the encoding of the text it reads. -/
theorem encode_of_decode {s : List UInt16} {text : List Char} (hread : decode s = some text) :
    encode text = s := by
  induction s using decode.induct generalizing text with
  | case1 =>
      cases hread
      rfl
  | case2 unit hlone => simp [decode, hlone] at hread
  | case3 unit hplain =>
      rw [decode, if_neg hplain] at hread
      cases hread
      rw [Bool.or_eq_true, not_or, Bool.not_eq_true, Bool.not_eq_true] at hplain
      simp [encode, units_ofNat hplain.1 hplain.2]
  | case4 high low rest hhigh hlow ih =>
      rw [decode, if_pos hhigh, if_pos hlow] at hread
      obtain ⟨behind, hbehind, rfl⟩ := Option.map_eq_some_iff.mp hread
      rw [encode, List.flatMap_cons, units_ofPair hhigh hlow, ← encode, ih hbehind]
      rfl
  | case5 high next rest hhigh hnext => simp [decode, hhigh, hnext] at hread
  | case6 unit next rest hhigh hlow => simp [decode, hhigh, hlow] at hread
  | case7 unit next rest hhigh hlow ih =>
      rw [decode, if_neg hhigh, if_neg hlow] at hread
      obtain ⟨behind, hbehind, rfl⟩ := Option.map_eq_some_iff.mp hread
      rw [Bool.not_eq_true] at hhigh hlow
      rw [encode, List.flatMap_cons, units_ofNat hhigh hlow, ← encode, ih hbehind]
      rfl

/-- Before any unit but a low surrogate a text can be cut. -/
theorem decode_append_cons (front : List UInt16) {unit : UInt16} (hlow : isLow unit = false)
    (rest : List UInt16) :
    decode (front ++ unit :: rest) =
      (decode front).bind fun text =>
        (decode (unit :: rest)).map (text ++ ·) := by
  induction front using decode.induct with
  | case1 => simp [decode]
  | case2 lone hlone =>
      rw [List.singleton_append, decode, decode, if_pos hlone]
      rcases Bool.or_eq_true _ _ ▸ hlone with hlone | hlone <;> simp [hlone, hlow]
  | case3 plain hplain =>
      rw [Bool.or_eq_true, not_or, Bool.not_eq_true, Bool.not_eq_true] at hplain
      rw [List.singleton_append, decode_plain hplain.1 hplain.2]
      simp [decode, hplain]
  | case4 high low front hpair hlower ih =>
      rw [List.cons_append, List.cons_append, decode, decode, if_pos hpair,
        if_pos hlower, if_pos hpair, if_pos hlower, ih]
      cases decode front <;> simp [Function.comp_def]
  | case5 high next front hpair hnext =>
      rw [List.cons_append, List.cons_append, decode, decode, if_pos hpair,
        if_neg hnext, if_pos hpair, if_neg hnext]
      rfl
  | case6 low next front hpair hlower =>
      rw [List.cons_append, List.cons_append, decode, decode, if_neg hpair,
        if_pos hlower, if_neg hpair, if_pos hlower]
      rfl
  | case7 plain next front hpair hlower ih =>
      rw [List.cons_append, List.cons_append, decode, decode, if_neg hpair,
        if_neg hlower, if_neg hpair, if_neg hlower, ← List.cons_append, ih]
      cases decode (next :: front) <;> simp [Function.comp_def]

/-- The cut behind the first `n` units separates the halves of a pair. -/
def splits (text : List UInt16) (n : ℕ) : Bool :=
  (text.take n).getLast?.any isHigh

theorem splits_pair (front : List UInt16) {high : UInt16} (hhigh : isHigh high = true)
    (rest : List UInt16) : splits (front ++ high :: rest) (front.length + 1) = true := by
  have htake : (front ++ high :: rest).take (front.length + 1) = front ++ [high] := by
    simp [List.take_append]
  rw [splits, htake, List.getLast?_concat, Option.any_some, hhigh]

theorem take_of_not_splits {text : List Char} {n : ℕ} (hwhole : splits (encode text) n = false) :
    ∃ front, (encode text).take n = encode front := by
  rcases take_encode text n with hfront | ⟨front, high, hhigh, htake⟩
  · exact hfront
  · rw [splits, htake, List.getLast?_concat, Option.any_some, hhigh] at hwhole
    cases hwhole

theorem take_of_splits {text : List Char} {n : ℕ} (hsplits : splits (encode text) n = true) :
    ∃ front high, isHigh high = true ∧ (encode text).take n = encode front ++ [high] := by
  rcases take_encode text n with ⟨front, htake⟩ | hfront
  · rw [splits, htake] at hsplits
    obtain ⟨unit, hlast, hhigh⟩ := (Option.any_eq_true _ _).mp hsplits
    rw [getLast?_encode hlast] at hhigh
    cases hhigh
  · exact hfront

/-! ## Replacing what is no character -/

def isPlain (unit : UInt16) : Bool := !isHigh unit && !isLow unit

def replaceLone (unit : UInt16) : Char :=
  if isPlain unit then .ofNat unit.toNat else '\uFFFD'

/-- The decoder that writes U+FFFD for a surrogate that is not half of a pair. -/
def decodeReplacing : List UInt16 → List Char
  | [] => []
  | [unit] => [replaceLone unit]
  | unit :: second :: rest =>
      if isHigh unit && isLow second then ofPair unit second :: decodeReplacing rest
      else replaceLone unit :: decodeReplacing (second :: rest)

theorem decodeReplacing_cons {unit : UInt16} (hhigh : isHigh unit = false) (rest : List UInt16) :
    decodeReplacing (unit :: rest) = replaceLone unit :: decodeReplacing rest := by
  cases rest with
  | nil => rfl
  | cons second rest => simp [decodeReplacing, hhigh]

/-- A unit that is no surrogate stands between two texts that are decoded apart. -/
theorem decodeReplacing_append {unit : UInt16} (hplain : isPlain unit = true)
    (front behind : List UInt16) :
    decodeReplacing (front ++ unit :: behind) =
      decodeReplacing front ++ Char.ofNat unit.toNat :: decodeReplacing behind := by
  have hkeep : replaceLone unit = .ofNat unit.toNat := by rw [replaceLone, if_pos hplain]
  simp only [isPlain, Bool.and_eq_true, Bool.not_eq_true'] at hplain
  induction front using decodeReplacing.induct with
  | case1 => rw [List.nil_append, decodeReplacing_cons hplain.1, hkeep, decodeReplacing]; rfl
  | case2 lone =>
      have hrest := decodeReplacing_cons hplain.1 behind
      rw [hkeep] at hrest
      simp [decodeReplacing, hplain.2, hrest]
  | case3 high low rest hpair ih =>
      rw [List.cons_append, List.cons_append, decodeReplacing, if_pos hpair, ih]
      simp [decodeReplacing, hpair]
  | case4 high second rest hpair ih =>
      rw [List.cons_append, List.cons_append, decodeReplacing, if_neg hpair, ← List.cons_append,
        ih]
      simp [decodeReplacing, hpair]

theorem decodeReplacing_encode (text : List Char) : decodeReplacing (encode text) = text := by
  induction text with
  | nil => rfl
  | cons c text ih =>
      have hsplit : encode (c :: text) = units c ++ encode text := rfl
      rw [hsplit]
      rcases units_cases c with ⟨unit, heq, hhigh, hlow, hchar⟩ |
        ⟨high, low, heq, hhigh, hlow, hchar⟩
      · rw [heq, List.singleton_append, decodeReplacing_cons hhigh, ih, replaceLone,
          if_pos (by simp [isPlain, hhigh, hlow]), hchar]
      · rw [heq, List.cons_append, List.singleton_append, decodeReplacing,
          if_pos (by simp [hhigh, hlow]), hchar, ih]

end Utf16

end NativeInterop
