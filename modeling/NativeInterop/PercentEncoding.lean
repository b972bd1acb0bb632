import NativeInterop.Json
import NativeInterop.LittleEndian
import Mathlib.Tactic

/-!
# Percent-encoding

A text is written with an escape for each byte of the characters that are not allowed, and
read back by a decoder that keeps whatever is not the escape of a character.  This file is
independent of any particular protocol: besides the round trip it has what the decoder makes
of an encoding that was cut off.
-/

namespace NativeInterop

namespace PercentEncoding

/-- The characters that stand for themselves, and the digits of the escapes. -/
structure Alphabet where
  digit : ℕ → Char
  allowed : Char → Bool
  reads : ∀ d < 16, Json.hexDigit (digit d) = some d
  allows : ∀ d < 16, allowed (digit d) = true
  escapes : allowed '%' = false

variable (alphabet : Alphabet)

def escapeByte (byte : UInt8) : List Char :=
  ['%', alphabet.digit (byte.toNat / 16), alphabet.digit (byte.toNat % 16)]

def encodeChar (c : Char) : List Char :=
  if alphabet.allowed c then [c]
  else (String.utf8EncodeChar c).flatMap (escapeByte alphabet)

def encode (text : List Char) : List Char :=
  text.flatMap (encodeChar alphabet)

/-- How long the encoding gets: three characters for a byte that is not allowed. -/
def encodedLength (text : List Char) : ℕ :=
  (text.map fun c => if alphabet.allowed c then 1 else 3 * c.utf8Size).sum

def byteOf (high low : Char) : Option UInt8 := do
  let high ← Json.hexDigit high
  let low ← Json.hexDigit low
  some (UInt8.ofNat (high * 16 + low))

/-- The bytes of the escapes at the front of a text. -/
def escapedBytes : List Char → Bytes
  | '%' :: high :: low :: rest =>
      match byteOf high low with
      | some byte => byte :: escapedBytes rest
      | none => []
  | _ => []

def decodeFirst (bytes : Bytes) : Option Char :=
  bytes.toByteArray.utf8DecodeChar? 0

/-- A character is decoded from the escapes of all of its bytes; any other `%` stays. -/
def unescape : List Char → List Char
  | [] => []
  | c :: rest =>
      match if c = '%' then decodeFirst (escapedBytes (c :: rest)) else none with
      | some decoded => decoded :: unescape (rest.drop (3 * decoded.utf8Size - 1))
      | none => c :: unescape rest
termination_by text => text.length
decreasing_by
  all_goals
    simp only [List.length_cons, List.length_drop]
    omega

/-! ## Bytes -/

theorem decodeFirst_append (c : Char) (bytes : Bytes) :
    decodeFirst (String.utf8EncodeChar c ++ bytes) = some c := by
  unfold decodeFirst
  rw [List.toByteArray_append]
  exact ByteArray.utf8DecodeChar?_utf8EncodeChar_append

theorem exists_of_decodeFirst {bytes : Bytes} {c : Char} (hdecode : decodeFirst bytes = some c) :
    ∃ rest, bytes = String.utf8EncodeChar c ++ rest := by
  obtain ⟨rest, hrest⟩ := ByteArray.exists_of_utf8DecodeChar?_eq_some hdecode
  refine ⟨rest.data.toList, ?_⟩
  have hlist := congrArg (fun array : ByteArray => array.data.toList) hrest
  simpa using hlist

/-- No character's bytes begin those of another. -/
theorem decodeFirst_take {c : Char} {count : ℕ} (hcount : count < c.utf8Size) :
    decodeFirst ((String.utf8EncodeChar c).take count) = none := by
  cases hdecode : decodeFirst ((String.utf8EncodeChar c).take count) with
  | none => rfl
  | some other =>
      obtain ⟨rest, hrest⟩ := exists_of_decodeFirst hdecode
      -- the bytes of `c` would begin with those of `other`, and decode to both
      have hbytes : String.utf8EncodeChar c =
          String.utf8EncodeChar other ++ (rest ++ (String.utf8EncodeChar c).drop count) := by
        rw [← List.append_assoc, ← hrest, List.take_append_drop]
      have hother : other = c := by
        have hfirst := decodeFirst_append c []
        rw [List.append_nil, hbytes, decodeFirst_append] at hfirst
        exact Option.some.inj hfirst
      have hlength := congrArg List.length hrest
      rw [hother, List.length_append, List.length_take, String.length_utf8EncodeChar] at hlength
      omega

section Escapes

variable {alphabet}

theorem byteOf_digits (byte : UInt8) :
    byteOf (alphabet.digit (byte.toNat / 16)) (alphabet.digit (byte.toNat % 16)) = some byte := by
  have hbyte : byte.toNat < 256 := byte.toNat_lt
  unfold byteOf
  rw [alphabet.reads _ (by omega), alphabet.reads _ (Nat.mod_lt _ (by omega))]
  simp only [Option.bind_eq_bind, Option.bind_some, Nat.div_add_mod' byte.toNat 16,
    UInt8.ofNat_toNat]

theorem escapedBytes_append (bytes : Bytes) (rest : List Char) :
    escapedBytes (bytes.flatMap (escapeByte alphabet) ++ rest) = bytes ++ escapedBytes rest := by
  induction bytes with
  | nil => rfl
  | cons byte bytes ih =>
      simp only [List.flatMap_cons, escapeByte, List.cons_append, List.nil_append, escapedBytes,
        byteOf_digits]
      rw [ih]

/-- Only whole escapes count. -/
theorem escapedBytes_take (bytes : Bytes) (count : ℕ) :
    escapedBytes ((bytes.flatMap (escapeByte alphabet)).take count) = bytes.take (count / 3) := by
  induction bytes generalizing count with
  | nil => simp [escapedBytes]
  | cons byte bytes ih =>
      match count with
      | 0 | 1 | 2 => rfl
      | count + 3 =>
          rw [show (count + 3) / 3 = count / 3 + 1 by omega, List.take_succ_cons, ← ih count]
          simp only [List.flatMap_cons, escapeByte, List.cons_append, List.nil_append,
            List.take_succ_cons, escapedBytes, byteOf_digits]

theorem escapedBytes_of_length_lt {text : List Char} (hshort : text.length < 3) :
    escapedBytes text = [] := by
  unfold escapedBytes
  split
  · simp only [List.length_cons] at hshort
    omega
  · rfl

/-! ## The round trip -/

theorem unescape_nil : unescape [] = [] := by
  rw [unescape]

theorem unescape_keep {c : Char} {rest : List Char}
    (hkeep : c = '%' → decodeFirst (escapedBytes (c :: rest)) = none) :
    unescape (c :: rest) = c :: unescape rest := by
  rw [unescape]
  split_ifs with hpercent
  · rw [hkeep hpercent]
  · rfl

theorem encodeChar_escaped {c : Char} (hc : ¬ alphabet.allowed c = true) :
    encodeChar alphabet c = (String.utf8EncodeChar c).flatMap (escapeByte alphabet) :=
  if_neg hc

theorem length_flatMap_escapeByte (bytes : Bytes) :
    (bytes.flatMap (escapeByte alphabet)).length = 3 * bytes.length := by
  induction bytes with
  | nil => rfl
  | cons byte bytes ih =>
      rw [List.flatMap_cons, List.length_append, ih, List.length_cons]
      simp only [escapeByte, List.length_cons, List.length_nil]
      omega

theorem exists_encodeChar {c : Char} (hc : ¬ alphabet.allowed c = true) :
    ∃ rest, encodeChar alphabet c = '%' :: rest ∧ rest.length = 3 * c.utf8Size - 1 := by
  have hlength : (encodeChar alphabet c).length = 3 * c.utf8Size := by
    rw [encodeChar_escaped hc, length_flatMap_escapeByte, String.length_utf8EncodeChar]
  cases hbytes : String.utf8EncodeChar c with
  | nil => exact absurd hbytes String.utf8EncodeChar_ne_nil
  | cons byte bytes =>
      have hcons : ∃ rest, encodeChar alphabet c = '%' :: rest := by
        rw [encodeChar_escaped hc, hbytes]
        exact ⟨_, rfl⟩
      obtain ⟨rest, hrest⟩ := hcons
      refine ⟨rest, hrest, ?_⟩
      rw [hrest, List.length_cons] at hlength
      omega

theorem unescape_encodeChar (c : Char) (rest : List Char) :
    unescape (encodeChar alphabet c ++ rest) = c :: unescape rest := by
  by_cases hc : alphabet.allowed c = true
  · rw [encodeChar, if_pos hc]
    refine unescape_keep fun hpercent => ?_
    rw [hpercent, alphabet.escapes] at hc
    cases hc
  · obtain ⟨behind, hbehind, hlength⟩ := exists_encodeChar hc
    have hdecode : decodeFirst (escapedBytes ('%' :: (behind ++ rest))) = some c := by
      rw [← List.cons_append, ← hbehind, encodeChar_escaped hc, escapedBytes_append]
      exact decodeFirst_append c _
    rw [hbehind, List.cons_append, unescape, if_pos rfl, hdecode]
    simp only
    rw [← hlength, List.drop_left]

theorem unescape_encode (text rest : List Char) :
    unescape (encode alphabet text ++ rest) = text ++ unescape rest := by
  induction text with
  | nil => rfl
  | cons c text ih =>
      rw [encode, List.flatMap_cons, List.append_assoc, unescape_encodeChar]
      exact congrArg (c :: ·) ih

/-! ## Encodings cut off -/

theorem unescape_of_length_lt {text : List Char} (hshort : text.length < 3) :
    unescape text = text := by
  induction text with
  | nil => exact unescape_nil
  | cons c rest ih =>
      rw [unescape_keep, ih (Nat.lt_of_succ_lt hshort)]
      intro _
      rw [escapedBytes_of_length_lt hshort]
      rfl

/-- Of a character cut off in its escapes the decoder keeps the first `%`. -/
theorem unescape_take_encodeChar {c : Char} {count : ℕ} (hpos : 0 < count)
    (hcut : count < (encodeChar alphabet c).length) :
    ∃ rest, unescape ((encodeChar alphabet c).take count) = '%' :: rest := by
  by_cases hc : alphabet.allowed c = true
  · rw [encodeChar, if_pos hc, List.length_singleton] at hcut
    omega
  · obtain ⟨behind, hbehind, hlength⟩ := exists_encodeChar hc
    obtain ⟨count, rfl⟩ := Nat.exists_eq_succ_of_ne_zero hpos.ne'
    have hdecode : decodeFirst (escapedBytes ((encodeChar alphabet c).take (count + 1))) =
        none := by
      rw [encodeChar_escaped hc, escapedBytes_take]
      refine decodeFirst_take ?_
      rw [encodeChar_escaped hc, length_flatMap_escapeByte, String.length_utf8EncodeChar] at hcut
      omega
    rw [hbehind, List.take_succ_cons] at hdecode ⊢
    exact ⟨_, unescape_keep fun _ => hdecode⟩

theorem encodeChar_percent :
    encodeChar alphabet '%' = ['%', alphabet.digit 2, alphabet.digit 5] := by
  rw [encodeChar, if_neg (by simp [alphabet.escapes])]
  rfl

@[simp] theorem encode_nil : encode alphabet [] = [] := rfl

@[simp] theorem encode_cons (c : Char) (text : List Char) :
    encode alphabet (c :: text) = encodeChar alphabet c ++ encode alphabet text :=
  List.flatMap_cons

@[simp] theorem encode_append (first second : List Char) :
    encode alphabet (first ++ second) = encode alphabet first ++ encode alphabet second :=
  List.flatMap_append

theorem encodeChar_length_pos (c : Char) : 0 < (encodeChar alphabet c).length := by
  by_cases hc : alphabet.allowed c = true
  · rw [encodeChar, if_pos hc]
    exact Nat.one_pos
  · obtain ⟨rest, hrest, -⟩ := exists_encodeChar hc
    rw [hrest]
    exact Nat.succ_pos _

theorem length_encode (text : List Char) :
    (encode alphabet text).length = encodedLength alphabet text := by
  induction text with
  | nil => rfl
  | cons c text ih =>
      rw [encode_cons, List.length_append, ih]
      refine congrArg (· + encodedLength alphabet text) ?_
      unfold encodeChar
      beta_reduce
      split_ifs
      · rfl
      · rw [length_flatMap_escapeByte, String.length_utf8EncodeChar]

theorem mem_encode {text : List Char} {c : Char} (hc : c ∈ encode alphabet text) :
    c = '%' ∨ alphabet.allowed c = true := by
  obtain ⟨source, -, hsource⟩ := List.mem_flatMap.mp hc
  unfold encodeChar at hsource
  split_ifs at hsource with hallowed
  · rw [List.mem_singleton.mp hsource]
    exact .inr hallowed
  · obtain ⟨byte, -, hbyte⟩ := List.mem_flatMap.mp hsource
    have hlt : byte.toNat < 256 := byte.toNat_lt
    simp only [escapeByte, List.mem_cons, List.not_mem_nil, or_false] at hbyte
    rcases hbyte with rfl | rfl | rfl
    · exact .inl rfl
    · exact .inr (alphabet.allows _ (by omega))
    · exact .inr (alphabet.allows _ (by omega))

theorem exists_cut {text : List Char} {count : ℕ} (hcut : count < (encode alphabet text).length) :
    ∃ front c back inside, text = front ++ c :: back ∧
      count = (encode alphabet front).length + inside ∧
      inside < (encodeChar alphabet c).length := by
  induction text generalizing count with
  | nil => cases hcut
  | cons c text ih =>
      rw [encode, List.flatMap_cons, List.length_append] at hcut
      by_cases hinside : count < (encodeChar alphabet c).length
      · exact ⟨[], c, text, count, rfl, (Nat.zero_add count).symm, hinside⟩
      · obtain ⟨front, other, back, inside, htext, hcount, hother⟩ :=
          ih (show count - (encodeChar alphabet c).length < (encode alphabet text).length by
            rw [encode]
            omega)
        refine ⟨c :: front, other, back, inside, by rw [htext]; rfl, ?_, hother⟩
        rw [encode, List.flatMap_cons, List.length_append, ← encode]
        omega

/-- The decoder takes a character cut off in its escapes for the end of a text only where
`%` is all that it had to keep. -/
theorem unescape_take_encodeChar_eq_iff {c : Char} {back : List Char} {count : ℕ}
    (hcut : count < (encodeChar alphabet c).length) :
    unescape ((encodeChar alphabet c).take count) = c :: back ↔
      c = '%' ∧ (count = 1 ∧ back = [] ∨ count = 2 ∧ back = [alphabet.digit 2]) := by
  constructor
  · intro hunescape
    rcases Nat.eq_zero_or_pos count with rfl | hpos
    · rw [List.take_zero, unescape_nil] at hunescape
      cases hunescape
    · obtain ⟨rest, hrest⟩ := unescape_take_encodeChar hpos hcut
      obtain rfl : c = '%' := by
        rw [hrest] at hunescape
        exact (List.cons.inj hunescape).1.symm
      rw [encodeChar_percent] at hcut hunescape
      have hcount : count = 1 ∨ count = 2 := by
        simp only [List.length_cons, List.length_nil] at hcut
        omega
      rw [unescape_of_length_lt (by rw [List.length_take]; omega)] at hunescape
      rcases hcount with rfl | rfl
      · exact ⟨rfl, .inl ⟨rfl, (List.cons.inj hunescape).2.symm⟩⟩
      · exact ⟨rfl, .inr ⟨rfl, (List.cons.inj hunescape).2.symm⟩⟩
  · rintro ⟨rfl, ⟨rfl, rfl⟩ | ⟨rfl, rfl⟩⟩
    all_goals
      rw [encodeChar_percent]
      exact unescape_of_length_lt (by simp)

theorem encodeChar_digit : encodeChar alphabet (alphabet.digit 2) = [alphabet.digit 2] :=
  if_pos (alphabet.allows 2 (by omega))

/-- Where two characters are cut off from a text that ends so, the cut is in the last `%`. -/
theorem cut_of_ends {front back : List Char} {c : Char} {count : ℕ}
    (hcut : count < (encodeChar alphabet c).length)
    (hlength : (encodeChar alphabet c).length + (encode alphabet back).length = count + 2)
    (hends : ['%'] <:+ front ++ c :: back ∨ ['%', alphabet.digit 2] <:+ front ++ c :: back) :
    c = '%' ∧ (count = 1 ∧ back = [] ∨ count = 2 ∧ back = [alphabet.digit 2]) := by
  match back with
  | [] =>
      rcases hends with ⟨before, hbefore⟩ | ⟨before, hbefore⟩
      · obtain rfl := List.singleton_inj.mp (List.append_inj' hbefore rfl).2
        rw [encodeChar_percent] at hlength
        simp only [encode_nil, List.length_cons, List.length_nil] at hlength
        exact ⟨rfl, .inl ⟨by omega, rfl⟩⟩
      · rw [List.append_cons] at hbefore
        obtain rfl := List.singleton_inj.mp (List.append_inj' hbefore rfl).2
        rw [encodeChar_digit] at hlength hcut
        simp only [encode_nil, List.length_cons, List.length_nil] at hlength hcut
        omega
  | [last] =>
      rw [encode_cons, encode_nil, List.append_nil] at hlength
      rcases hends with ⟨before, hbefore⟩ | ⟨before, hbefore⟩
      · rw [List.append_cons front c] at hbefore
        obtain rfl := List.singleton_inj.mp (List.append_inj' hbefore rfl).2
        rw [encodeChar_percent] at hlength
        simp only [List.length_cons, List.length_nil] at hlength
        omega
      · obtain ⟨rfl, hlast⟩ := List.cons.inj (List.append_inj' hbefore rfl).2
        obtain rfl := List.singleton_inj.mp hlast
        rw [encodeChar_percent, encodeChar_digit] at hlength
        simp only [List.length_cons, List.length_nil] at hlength
        exact ⟨rfl, .inr ⟨by omega, rfl⟩⟩
  | second :: third :: back =>
      have hsecond : 0 < (encodeChar alphabet second).length := encodeChar_length_pos second
      have hthird : 0 < (encodeChar alphabet third).length := encodeChar_length_pos third
      rw [encode_cons, encode_cons, List.length_append, List.length_append] at hlength
      omega

/-- An encoding from which something was cut off reads back whole only when it loses two
characters, from a text that ends in `%` or in `%` and the digit `2`: the first digit of the
escape of `%` is that digit. -/
theorem unescape_take_encode_eq_iff {text : List Char} {count : ℕ}
    (hcut : count < (encode alphabet text).length) :
    unescape ((encode alphabet text).take count) = text ↔
      (encode alphabet text).length = count + 2 ∧
        (['%'] <:+ text ∨ ['%', alphabet.digit 2] <:+ text) := by
  obtain ⟨front, c, back, inside, rfl, rfl, hinside⟩ := exists_cut hcut
  have hread : unescape ((encode alphabet (front ++ c :: back)).take
      ((encode alphabet front).length + inside)) =
        front ++ unescape ((encodeChar alphabet c).take inside) := by
    rw [encode_append, encode_cons, List.take_length_add_append,
      List.take_append_of_le_length hinside.le, unescape_encode]
  rw [hread, List.append_cancel_left_eq, unescape_take_encodeChar_eq_iff hinside]
  constructor
  · rintro ⟨rfl, ⟨rfl, rfl⟩ | ⟨rfl, rfl⟩⟩
    · refine ⟨?_, .inl (List.suffix_append front _)⟩
      simp [encodeChar_percent]
    · refine ⟨?_, .inr (List.suffix_append front _)⟩
      simp [encodeChar_percent, encodeChar_digit]
  · rintro ⟨hlength, hends⟩
    rw [encode_append, encode_cons, List.length_append, List.length_append] at hlength
    exact cut_of_ends hinside (by omega) hends

theorem unescape_take_eq_iff (text : List Char) (count : ℕ) :
    unescape ((encode alphabet text).take count) = text ↔
      encodedLength alphabet text ≤ count ∨ encodedLength alphabet text = count + 2 ∧
        (['%'] <:+ text ∨ ['%', alphabet.digit 2] <:+ text) := by
  rw [← length_encode]
  rcases Nat.lt_or_ge count (encode alphabet text).length with hcut | hwhole
  · rw [unescape_take_encode_eq_iff hcut, or_iff_right (Nat.not_le.mpr hcut)]
  · have hread : unescape (encode alphabet text) = text := by
      rw [← List.append_nil (encode alphabet text), unescape_encode, unescape_nil,
        List.append_nil]
    rw [List.take_of_length_le hwhole]
    exact iff_of_true hread (.inl hwhole)

end Escapes

end PercentEncoding

end NativeInterop
