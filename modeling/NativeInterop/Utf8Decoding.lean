import NativeInterop.LlamaLanguageModel
import Mathlib.Tactic

/-!
# Decoding UTF-8 with replacements

What the decoder behind `Marshal.PtrToStringUTF8` makes of the encoding of a character, of the
encoding of half a surrogate pair, and of any bytes at all: never fewer characters than there
are bytes that can begin one.
-/

namespace NativeInterop.LlamaLanguageModel.Utf8State

/-! ## One byte -/

theorem toNat_byte {n : ℕ} (hn : n < 256) : (UInt8.ofNat n).toNat = n :=
  UInt8.toNat_ofNat_of_lt' hn

/-- A byte at the beginning of a sequence, by its number. -/
theorem first_ofNat {n : ℕ} (hn : n < 256) :
    first (UInt8.ofNat n) =
      if n < 0x80 then ([Char.ofNat n], {})
      else if 0xC2 ≤ n ∧ n ≤ 0xDF then ([], ⟨n - 0xC0, 1, 0x80, 0xBF⟩)
      else if 0xE0 ≤ n ∧ n ≤ 0xEF then
        ([], ⟨n - 0xE0, 2, if n = 0xE0 then 0xA0 else 0x80, if n = 0xED then 0x9F else 0xBF⟩)
      else if 0xF0 ≤ n ∧ n ≤ 0xF4 then
        ([], ⟨n - 0xF0, 3, if n = 0xF0 then 0x90 else 0x80, if n = 0xF4 then 0x8F else 0xBF⟩)
      else (['\uFFFD'], {}) := by
  simp only [first, UInt8.lt_iff_toNat_lt, UInt8.le_iff_toNat_le, ← UInt8.toNat_inj,
    toNat_byte hn]
  rfl

theorem next_within {s : Utf8State} {n : ℕ} (hneeded : s.needed ≠ 0) (hn : n < 0x40)
    (hlow : s.lower.toNat ≤ 0x80 + n) (hhigh : 0x80 + n ≤ s.upper.toNat) :
    s.next (UInt8.ofNat (0x80 + n)) =
      if s.needed = 1 then ([Char.ofNat (s.codePoint * 0x40 + n)], {})
      else ([], { codePoint := s.codePoint * 0x40 + n, needed := s.needed - 1 }) := by
  have hbyte := toNat_byte (show 0x80 + n < 256 by omega)
  have hwithin : s.lower ≤ UInt8.ofNat (0x80 + n) ∧ UInt8.ofNat (0x80 + n) ≤ s.upper := by
    rw [UInt8.le_iff_toNat_le, UInt8.le_iff_toNat_le, hbyte]
    exact ⟨hlow, hhigh⟩
  rw [next, if_neg hneeded, if_pos hwithin, hbyte, Nat.add_sub_cancel_left]

/-! ## Sequences -/

def two (n : ℕ) : List UInt8 :=
  [UInt8.ofNat (0xC0 + n / 0x40), UInt8.ofNat (0x80 + n % 0x40)]

def three (n : ℕ) : List UInt8 :=
  [UInt8.ofNat (0xE0 + n / 0x1000), UInt8.ofNat (0x80 + n / 0x40 % 0x40),
    UInt8.ofNat (0x80 + n % 0x40)]

def four (n : ℕ) : List UInt8 :=
  [UInt8.ofNat (0xF0 + n / 0x40000), UInt8.ofNat (0x80 + n / 0x1000 % 0x40),
    UInt8.ofNat (0x80 + n / 0x40 % 0x40), UInt8.ofNat (0x80 + n % 0x40)]

theorem utf8EncodeChar_eq (c : Char) :
    String.utf8EncodeChar c =
      if c.toNat < 0x80 then [UInt8.ofNat c.toNat]
      else if c.toNat < 0x800 then two c.toNat
      else if c.toNat < 0x10000 then three c.toNat
      else four c.toNat := by
  have hvalid : c.toNat < 0xD800 ∨ (0xDFFF < c.toNat ∧ c.toNat < 0x110000) := c.valid
  have hvalue : c.val.toNat = c.toNat := rfl
  simp only [String.utf8EncodeChar, hvalue]
  split_ifs <;> first | omega | skip
  · rfl
  · rw [two, Nat.mod_eq_of_lt (show c.toNat / 64 < 0x20 by omega), Nat.add_comm _ 0xC0,
      Nat.add_comm _ 0x80]
  · rw [three, Nat.mod_eq_of_lt (show c.toNat / 4096 < 0x10 by omega), Nat.add_comm _ 0xE0,
      Nat.add_comm _ 0x80, Nat.add_comm _ 0x80]
  · rw [four, Nat.mod_eq_of_lt (show c.toNat / 262144 < 0x08 by omega), Nat.add_comm _ 0xF0,
      Nat.add_comm _ 0x80, Nat.add_comm _ 0x80, Nat.add_comm _ 0x80]

@[simp] theorem next_start (byte : UInt8) : ({} : Utf8State).next byte = first byte := rfl

theorem decode_cons (s : Utf8State) (byte : UInt8) (rest : List UInt8) :
    s.decode (byte :: rest) = (s.next byte).1 ++ (s.next byte).2.decode rest := rfl

theorem decode_ascii {n : ℕ} (hn : n < 0x80) (rest : List UInt8) :
    ({} : Utf8State).decode (UInt8.ofNat n :: rest) =
      Char.ofNat n :: ({} : Utf8State).decode rest := by
  rw [decode_cons, next_start, first_ofNat (by omega), if_pos hn]
  rfl

theorem decode_last {s : Utf8State} {n : ℕ} (hneeded : s.needed = 1) (hn : n < 0x40)
    (hlow : s.lower.toNat ≤ 0x80 + n) (hhigh : 0x80 + n ≤ s.upper.toNat) (rest : List UInt8) :
    s.decode (UInt8.ofNat (0x80 + n) :: rest) =
      Char.ofNat (s.codePoint * 0x40 + n) :: ({} : Utf8State).decode rest := by
  rw [decode_cons, next_within (by omega) hn hlow hhigh, if_pos hneeded]
  rfl

theorem decode_middle {s : Utf8State} {n : ℕ} (hneeded : 1 < s.needed) (hn : n < 0x40)
    (hlow : s.lower.toNat ≤ 0x80 + n) (hhigh : 0x80 + n ≤ s.upper.toNat) (rest : List UInt8) :
    s.decode (UInt8.ofNat (0x80 + n) :: rest) =
      decode { codePoint := s.codePoint * 0x40 + n, needed := s.needed - 1 } rest := by
  rw [decode_cons, next_within (by omega) hn hlow hhigh, if_neg (by omega)]
  rfl

theorem decode_two {n : ℕ} (hlow : 0x80 ≤ n) (hhigh : n < 0x800) (rest : List UInt8) :
    ({} : Utf8State).decode (two n ++ rest) = Char.ofNat n :: ({} : Utf8State).decode rest := by
  have hfirst : first (UInt8.ofNat (0xC0 + n / 0x40)) = ([], ⟨n / 0x40, 1, 0x80, 0xBF⟩) := by
    rw [first_ofNat (by omega), if_neg (by omega), if_pos (by omega), Nat.add_sub_cancel_left]
  have hvalue : n / 0x40 * 0x40 + n % 0x40 = n := Nat.div_add_mod' n 0x40
  rw [two, List.cons_append, List.cons_append, List.nil_append, decode_cons, next_start, hfirst,
    List.nil_append, decode_last rfl (by omega) (Nat.le_add_right _ _)
      (show 0x80 + n % 0x40 ≤ 0xBF by omega), hvalue]

/-- The first byte of three, and where the second must lie. -/
theorem decode_first_three {n : ℕ} (hn : n < 0x10000) (rest : List UInt8) :
    ({} : Utf8State).decode (UInt8.ofNat (0xE0 + n / 0x1000) :: rest) =
      decode ⟨n / 0x1000, 2, if n / 0x1000 = 0 then 0xA0 else 0x80,
        if n / 0x1000 = 13 then 0x9F else 0xBF⟩ rest := by
  have hzero : 0xE0 + n / 0x1000 = 0xE0 ↔ n / 0x1000 = 0 := by omega
  have hsurrogates : 0xE0 + n / 0x1000 = 0xED ↔ n / 0x1000 = 13 := by omega
  rw [decode_cons, next_start, first_ofNat (by omega), if_neg (by omega), if_neg (by omega),
    if_pos (by omega), Nat.add_sub_cancel_left]
  simp only [hzero, hsurrogates]
  rfl

theorem decode_three {n : ℕ} (hlow : 0x800 ≤ n) (hhigh : n < 0x10000)
    (hscalar : ¬ (0xD800 ≤ n ∧ n < 0xE000)) (rest : List UInt8) :
    ({} : Utf8State).decode (three n ++ rest) =
      Char.ofNat n :: ({} : Utf8State).decode rest := by
  have hlower : (if n / 0x1000 = 0 then (0xA0 : UInt8) else 0x80).toNat ≤
      0x80 + n / 0x40 % 0x40 := by
    split_ifs
    · show 0xA0 ≤ _
      omega
    · exact Nat.le_add_right _ _
  have hupper : 0x80 + n / 0x40 % 0x40 ≤
      (if n / 0x1000 = 13 then (0x9F : UInt8) else 0xBF).toNat := by
    split_ifs
    · show _ ≤ 0x9F
      omega
    · show _ ≤ 0xBF
      omega
  have hvalue : (n / 0x1000 * 0x40 + n / 0x40 % 0x40) * 0x40 + n % 0x40 = n := by omega
  rw [three, List.cons_append, List.cons_append, List.cons_append, List.nil_append,
    decode_first_three hhigh, decode_middle Nat.one_lt_two (by omega) hlower hupper,
    decode_last rfl (by omega) (Nat.le_add_right _ _) (show 0x80 + n % 0x40 ≤ 0xBF by omega),
    hvalue]

theorem first_continuation {n : ℕ} (hn : n < 0x40) :
    first (UInt8.ofNat (0x80 + n)) = (['\uFFFD'], {}) := by
  rw [first_ofNat (by omega), if_neg (by omega), if_neg (by omega), if_neg (by omega),
    if_neg (by omega)]

theorem decode_stray {n : ℕ} (hn : n < 0x40) (rest : List UInt8) :
    ({} : Utf8State).decode (UInt8.ofNat (0x80 + n) :: rest) =
      '\uFFFD' :: ({} : Utf8State).decode rest := by
  rw [decode_cons, next_start, first_continuation hn]
  rfl

/-- Half a surrogate pair is no character: its bytes are replaced one by one. -/
theorem decode_surrogate {n : ℕ} (hlow : 0xD800 ≤ n) (hhigh : n < 0xE000) (rest : List UInt8) :
    ({} : Utf8State).decode (three n ++ rest) =
      '\uFFFD' :: '\uFFFD' :: '\uFFFD' :: ({} : Utf8State).decode rest := by
  have hbyte := toNat_byte (show 0x80 + n / 0x40 % 0x40 < 256 by omega)
  have hthirteen : n / 0x1000 = 13 := by omega
  have houtside : ¬ (0x80 ≤ UInt8.ofNat (0x80 + n / 0x40 % 0x40) ∧
      UInt8.ofNat (0x80 + n / 0x40 % 0x40) ≤ 0x9F) := by
    rw [UInt8.le_iff_toNat_le, UInt8.le_iff_toNat_le, hbyte]
    rintro ⟨-, hle⟩
    have hle : 0x80 + n / 0x40 % 0x40 ≤ 0x9F := hle
    omega
  have hnext : next ⟨n / 0x1000, 2, 0x80, 0x9F⟩ (UInt8.ofNat (0x80 + n / 0x40 % 0x40)) =
      (['\uFFFD', '\uFFFD'], {}) := by
    rw [next, if_neg (by simp), if_neg houtside, first_continuation (by omega)]
  rw [three, List.cons_append, List.cons_append, List.cons_append, List.nil_append,
    decode_first_three (by omega), if_neg (by omega), if_pos hthirteen, decode_cons, hnext,
    decode_stray (by omega)]
  rfl

theorem decode_four {n : ℕ} (hlow : 0x10000 ≤ n) (hhigh : n < 0x110000) (rest : List UInt8) :
    ({} : Utf8State).decode (four n ++ rest) =
      Char.ofNat n :: ({} : Utf8State).decode rest := by
  have hzero : 0xF0 + n / 0x40000 = 0xF0 ↔ n / 0x40000 = 0 := by omega
  have hmost : 0xF0 + n / 0x40000 = 0xF4 ↔ n / 0x40000 = 4 := by omega
  have hfirst : first (UInt8.ofNat (0xF0 + n / 0x40000)) =
      ([], ⟨n / 0x40000, 3, if n / 0x40000 = 0 then 0x90 else 0x80,
        if n / 0x40000 = 4 then 0x8F else 0xBF⟩) := by
    rw [first_ofNat (by omega), if_neg (by omega), if_neg (by omega), if_neg (by omega),
      if_pos (by omega), Nat.add_sub_cancel_left]
    simp only [hzero, hmost]
  have hlower : (if n / 0x40000 = 0 then (0x90 : UInt8) else 0x80).toNat ≤
      0x80 + n / 0x1000 % 0x40 := by
    split_ifs
    · show 0x90 ≤ _
      omega
    · exact Nat.le_add_right _ _
  have hupper : 0x80 + n / 0x1000 % 0x40 ≤
      (if n / 0x40000 = 4 then (0x8F : UInt8) else 0xBF).toNat := by
    split_ifs
    · show _ ≤ 0x8F
      omega
    · show _ ≤ 0xBF
      omega
  have hvalue : ((n / 0x40000 * 0x40 + n / 0x1000 % 0x40) * 0x40 + n / 0x40 % 0x40) * 0x40 +
      n % 0x40 = n := by omega
  rw [four, List.cons_append, List.cons_append, List.cons_append, List.cons_append,
    List.nil_append, decode_cons, next_start, hfirst, List.nil_append,
    decode_middle (show 1 < 3 by decide) (by omega) hlower hupper,
    decode_middle Nat.one_lt_two (by omega) (Nat.le_add_right _ _)
      (show 0x80 + n / 0x40 % 0x40 ≤ 0xBF by omega),
    decode_last rfl (by omega) (Nat.le_add_right _ _) (show 0x80 + n % 0x40 ≤ 0xBF by omega),
    hvalue]

/-- The encoding of a character is read back, with anything behind it. -/
theorem decode_utf8EncodeChar (c : Char) (rest : List UInt8) :
    ({} : Utf8State).decode (String.utf8EncodeChar c ++ rest) =
      c :: ({} : Utf8State).decode rest := by
  have hvalid : c.toNat < 0xD800 ∨ (0xDFFF < c.toNat ∧ c.toNat < 0x110000) := c.valid
  have hback : Char.ofNat c.toNat = c := Char.ofNat_toNat c
  rw [utf8EncodeChar_eq]
  split_ifs with hascii htwo hthree
  · rw [List.singleton_append, decode_ascii hascii, hback]
  · rw [decode_two (by omega) htwo, hback]
  · rw [decode_three (by omega) hthree (by omega), hback]
  · rw [decode_four (by omega) (by omega), hback]

theorem decode_utf8Encode (text : List Char) (rest : List UInt8) :
    ({} : Utf8State).decode (text.flatMap String.utf8EncodeChar ++ rest) =
      text ++ ({} : Utf8State).decode rest := by
  induction text with
  | nil => rfl
  | cons c text ih =>
      rw [List.flatMap_cons, List.append_assoc, decode_utf8EncodeChar, ih, List.cons_append]

/-! ## Any bytes -/

def isContinuation (byte : UInt8) : Bool :=
  0x80 ≤ byte ∧ byte ≤ 0xBF

/-- The bytes that can begin a character. -/
def leads (bytes : List UInt8) : ℕ :=
  bytes.countP fun byte => !isContinuation byte

theorem leads_cons (byte : UInt8) (rest : List UInt8) :
    leads (byte :: rest) = leads rest + if isContinuation byte then 0 else 1 := by
  cases hbyte : isContinuation byte <;> simp [leads, hbyte]

theorem leads_append (front behind : List UInt8) :
    leads (front ++ behind) = leads front + leads behind :=
  List.countP_append

/-- A sequence under way will be one character more. -/
def pending (s : Utf8State) : ℕ :=
  if s.needed = 0 then 0 else 1

/-- Only continuation bytes continue a sequence. -/
def Within (s : Utf8State) : Prop :=
  s.needed ≠ 0 → 0x80 ≤ s.lower ∧ s.upper ≤ 0xBF

theorem within_start : Within {} := fun hneeded => absurd rfl hneeded

theorem first_total (byte : UInt8) :
    (first byte).1.length + (first byte).2.pending = 1 ∧ (first byte).2.Within := by
  unfold first
  split_ifs <;> simp [pending, Within]

/-- Each byte that can begin a character adds one, read or to come. -/
theorem next_total {s : Utf8State} (hwithin : s.Within) (byte : UInt8) :
    (if isContinuation byte then 0 else 1) + s.pending ≤
        (s.next byte).1.length + (s.next byte).2.pending ∧
      (s.next byte).2.Within := by
  obtain ⟨htotal, hfirst⟩ := first_total byte
  by_cases hneeded : s.needed = 0
  · have hnext : s.next byte = first byte := if_pos hneeded
    rw [hnext, htotal, pending, if_pos hneeded]
    exact ⟨by split_ifs <;> decide, hfirst⟩
  · have hpending : s.pending = 1 := if_neg hneeded
    by_cases hin : s.lower ≤ byte ∧ byte ≤ s.upper
    · obtain ⟨hlower, hupper⟩ := hwithin hneeded
      have hcontinues : isContinuation byte = true :=
        decide_eq_true ⟨UInt8.le_trans hlower hin.1, UInt8.le_trans hin.2 hupper⟩
      rw [next, if_neg hneeded, if_pos hin, if_pos hcontinues, hpending]
      dsimp only
      split_ifs with hlast
      · exact ⟨le_rfl, within_start⟩
      · have hmore : s.needed - 1 ≠ 0 := by omega
        exact ⟨by simp [pending, hmore], fun _ => ⟨UInt8.le_refl _, UInt8.le_refl _⟩⟩
    · rw [next, if_neg hneeded, if_neg hin, hpending]
      refine ⟨?_, hfirst⟩
      dsimp only
      rw [List.length_cons]
      split_ifs <;> omega

/-- No byte that can begin a character is lost. -/
theorem leads_le_length_decode {s : Utf8State} (hwithin : s.Within) (bytes : List UInt8) :
    leads bytes + s.pending ≤ (s.decode bytes).length := by
  induction bytes generalizing s with
  | nil =>
      rw [decode, pending]
      split_ifs <;> simp [leads]
  | cons byte rest ih =>
      obtain ⟨hgrows, hnext⟩ := next_total hwithin byte
      have hrest := ih hnext
      rw [leads_cons, decode_cons, List.length_append]
      omega

/-- A continuation byte without a sequence is one character too many. -/
theorem leads_lt_length_decode {byte : UInt8} (hbyte : isContinuation byte = true)
    (rest : List UInt8) :
    leads (byte :: rest) < (({} : Utf8State).decode (byte :: rest)).length := by
  obtain ⟨htotal, hfirst⟩ := first_total byte
  have hrest := leads_le_length_decode hfirst rest
  rw [leads_cons, hbyte, if_pos rfl, decode_cons, next_start, List.length_append]
  omega

/-! ## The encoding of a text -/

theorem isContinuation_ofNat {n : ℕ} (hn : n < 256) :
    isContinuation (UInt8.ofNat n) = decide (0x80 ≤ n ∧ n ≤ 0xBF) := by
  simp only [isContinuation, UInt8.le_iff_toNat_le, toNat_byte hn]
  rfl

/-- The encoding of a character is a byte that begins it and continuation bytes. -/
theorem utf8EncodeChar_shape (c : Char) :
    ∃ byte rest, String.utf8EncodeChar c = byte :: rest ∧ isContinuation byte = false ∧
      ∀ other ∈ rest, isContinuation other = true := by
  have hvalid : c.toNat < 0xD800 ∨ (0xDFFF < c.toNat ∧ c.toNat < 0x110000) := c.valid
  have hrest : ∀ n, n < 0x40 → isContinuation (UInt8.ofNat (0x80 + n)) = true := by
    intro n hn
    rw [isContinuation_ofNat (by omega)]
    exact decide_eq_true (by omega)
  have hlead : ∀ n, n < 256 → (n < 0x80 ∨ 0xBF < n) → isContinuation (UInt8.ofNat n) = false := by
    intro n hn hrange
    rw [isContinuation_ofNat hn]
    exact decide_eq_false (by omega)
  rw [utf8EncodeChar_eq]
  split_ifs with hascii htwo hthree
  · exact ⟨_, [], rfl, hlead _ (by omega) (by omega), by simp⟩
  · refine ⟨_, _, rfl, hlead _ (by omega) (by omega), ?_⟩
    exact List.forall_mem_singleton.mpr (hrest _ (by omega))
  · refine ⟨_, _, rfl, hlead _ (by omega) (by omega), ?_⟩
    exact List.forall_mem_cons.mpr ⟨hrest _ (by omega),
      List.forall_mem_singleton.mpr (hrest _ (by omega))⟩
  · refine ⟨_, _, rfl, hlead _ (by omega) (by omega), ?_⟩
    exact List.forall_mem_cons.mpr ⟨hrest _ (by omega), List.forall_mem_cons.mpr
      ⟨hrest _ (by omega), List.forall_mem_singleton.mpr (hrest _ (by omega))⟩⟩

theorem leads_utf8Encode (text : List Char) :
    leads (text.flatMap String.utf8EncodeChar) = text.length := by
  induction text with
  | nil => rfl
  | cons c text ih =>
      obtain ⟨byte, rest, hshape, hbyte, hrest⟩ := utf8EncodeChar_shape c
      have hnone : leads rest = 0 := by
        rw [leads, List.countP_eq_zero]
        intro other hother
        simp [hrest other hother]
      rw [List.flatMap_cons, leads_append, ih, hshape, leads_cons, hnone, hbyte, List.length_cons]
      simp [Nat.add_comm]

/-- Cut before a byte that can begin a character, or at the end, the encoding of a text is cut
into encodings. -/
theorem utf8Encode_split {text : List Char} {front behind : List UInt8}
    (hsplit : text.flatMap String.utf8EncodeChar = front ++ behind)
    (hbehind : ∀ byte ∈ behind.head?, isContinuation byte = false) :
    ∃ first second, text = first ++ second ∧ first.flatMap String.utf8EncodeChar = front ∧
      second.flatMap String.utf8EncodeChar = behind := by
  induction text generalizing front with
  | nil =>
      rw [List.flatMap_nil, List.nil_eq, List.append_eq_nil_iff] at hsplit
      obtain ⟨rfl, rfl⟩ := hsplit
      exact ⟨[], [], rfl, rfl, rfl⟩
  | cons c text ih =>
      obtain ⟨byte, rest, hshape, -, hrest⟩ := utf8EncodeChar_shape c
      rw [List.flatMap_cons] at hsplit
      rcases front with _ | ⟨lead, front⟩
      · exact ⟨[], c :: text, rfl, rfl, by rw [List.flatMap_cons, hsplit]; rfl⟩
      rcases List.append_eq_append_iff.mp hsplit with ⟨more, hfront, hmore⟩ | ⟨more, hchar, hmore⟩
      · obtain ⟨first, second, rfl, hfirst, hsecond⟩ := ih hmore
        refine ⟨c :: first, second, rfl, ?_, hsecond⟩
        rw [List.flatMap_cons, hfirst, hfront]
      · -- a cut inside of the character would be before a continuation byte
        rcases more with _ | ⟨other, more⟩
        · rw [List.append_nil] at hchar
          exact ⟨[c], text, rfl, by simpa using hchar, by simpa using hmore.symm⟩
        · have hinside : other ∈ rest := by
            rw [hshape, List.cons_append, List.cons.injEq] at hchar
            rw [hchar.2]
            simp
          have hcontinues := hrest other hinside
          rw [hbehind other (by rw [hmore]; rfl)] at hcontinues
          cases hcontinues

end NativeInterop.LlamaLanguageModel.Utf8State
