import Mathlib.Data.List.Basic
import Mathlib.Data.List.DropRight
import Mathlib.Tactic

/-!
# JSON texts

A reader for the JSON grammar over lists of characters, and compact writers of flat
objects that may escape the characters of a string in any way the reader undoes.  A
number keeps its literal; strings are sequences of Unicode scalar values, so an
escaped surrogate is read only as half of a pair.
-/

namespace NativeInterop

inductive Json where
  | null
  | bool (value : Bool)
  | number (literal : List Char)
  | string (text : String)
  | array (items : List Json)
  | object (members : List (String × Json))

namespace Json

/-! ## Reading -/

def isSpace (c : Char) : Bool :=
  c = ' ' || c = '\t' || c = '\n' || c = '\r'

def skipSpace (input : List Char) : List Char :=
  input.dropWhile isSpace

def hexDigit (c : Char) : Option ℕ :=
  if '0' ≤ c ∧ c ≤ '9' then some (c.toNat - '0'.toNat)
  else if 'a' ≤ c ∧ c ≤ 'f' then some (c.toNat - 'a'.toNat + 10)
  else if 'A' ≤ c ∧ c ≤ 'F' then some (c.toNat - 'A'.toNat + 10)
  else none

def readHex4 : List Char → Option (ℕ × List Char)
  | a :: b :: c :: d :: rest => do
      let a ← hexDigit a
      let b ← hexDigit b
      let c ← hexDigit c
      let d ← hexDigit d
      some (((a * 16 + b) * 16 + c) * 16 + d, rest)
  | _ => none

def isHigh (unit : ℕ) : Bool := 0xD800 ≤ unit && unit < 0xDC00

def isLow (unit : ℕ) : Bool := 0xDC00 ≤ unit && unit < 0xE000

def ofSurrogates (high low : ℕ) : Char :=
  Char.ofNat (0x10000 + (high - 0xD800) * 0x400 + (low - 0xDC00))

/-- What follows `\u`: one code unit, or a pair of surrogates. -/
def readUnicode (input : List Char) : Option (Char × List Char) := do
  let (unit, rest) ← readHex4 input
  if isHigh unit then
    match rest with
    | '\\' :: 'u' :: rest =>
        let (low, rest) ← readHex4 rest
        if isLow low then some (ofSurrogates unit low, rest) else none
    | _ => none
  else if isLow unit then none
  else some (Char.ofNat unit, rest)

/-- What follows a backslash. -/
def readEscape : List Char → Option (Char × List Char)
  | [] => none
  | c :: rest =>
      if c = 'u' then readUnicode rest
      else if c = '"' then some ('"', rest)
      else if c = '\\' then some ('\\', rest)
      else if c = '/' then some ('/', rest)
      else if c = 'b' then some ('\x08', rest)
      else if c = 'f' then some ('\x0c', rest)
      else if c = 'n' then some ('\n', rest)
      else if c = 'r' then some ('\r', rest)
      else if c = 't' then some ('\t', rest)
      else none

def readChar : List Char → Option (Char × List Char)
  | [] => none
  | c :: rest =>
      if c = '\\' then readEscape rest
      else if c.toNat < 0x20 then none
      else some (c, rest)

/-- The characters up to the closing quote. -/
def readString : ℕ → List Char → Option (List Char × List Char)
  | 0, _ => none
  | fuel + 1, input =>
      if input.head? = some '"' then some ([], input.tail)
      else do
        let (c, rest) ← readChar input
        let (text, rest) ← readString fuel rest
        some (c :: text, rest)

def readDigits (input : List Char) : List Char × List Char :=
  (input.takeWhile Char.isDigit, input.dropWhile Char.isDigit)

/-- Digits behind a mark that has been read; at least one. -/
def readTail (mark : List Char) (input : List Char) : Option (List Char × List Char) :=
  match readDigits input with
  | ([], _) => none
  | (digits, rest) => some (mark ++ digits, rest)

def readFraction : List Char → Option (List Char × List Char)
  | '.' :: rest => readTail ['.'] rest
  | input => some ([], input)

def readExponent : List Char → Option (List Char × List Char)
  | e :: sign :: rest =>
      if e = 'e' ∨ e = 'E' then
        if sign = '+' ∨ sign = '-' then readTail [e, sign] rest
        else readTail [e] (sign :: rest)
      else some ([], e :: sign :: rest)
  | [c] => if c = 'e' ∨ c = 'E' then none else some ([], [c])
  | [] => some ([], [])

/-- A number without its sign. -/
def readMagnitude (input : List Char) : Option (List Char × List Char) := do
  let (digits, rest) := readDigits input
  if digits = [] ∨ (digits.head? = some '0' ∧ digits ≠ ['0']) then none
  else
    let (fraction, rest) ← readFraction rest
    let (exponent, rest) ← readExponent rest
    some (digits ++ fraction ++ exponent, rest)

def readNumber (input : List Char) : Option (List Char × List Char) :=
  match input with
  | '-' :: rest => (readMagnitude rest).map fun (literal, rest) => ('-' :: literal, rest)
  | _ => readMagnitude input

def readWord (word : List Char) (value : Json) (input : List Char) :
    Option (Json × List Char) :=
  if word <+: input then some (value, input.drop word.length) else none

mutual

def readValue : ℕ → List Char → Option (Json × List Char)
  | 0, _ => none
  | fuel + 1, input =>
      match skipSpace input with
      | '"' :: rest =>
          (readString rest.length rest).map fun (text, rest) => (.string (.ofList text), rest)
      | '{' :: rest =>
          match skipSpace rest with
          | '}' :: rest => some (.object [], rest)
          | rest => (readMembers fuel rest).map fun (members, rest) => (.object members, rest)
      | '[' :: rest =>
          match skipSpace rest with
          | ']' :: rest => some (.array [], rest)
          | rest => (readItems fuel rest).map fun (items, rest) => (.array items, rest)
      | 't' :: rest => readWord ['r', 'u', 'e'] (.bool true) rest
      | 'f' :: rest => readWord ['a', 'l', 's', 'e'] (.bool false) rest
      | 'n' :: rest => readWord ['u', 'l', 'l'] .null rest
      | rest => (readNumber rest).map fun (literal, rest) => (.number literal, rest)

def readMembers : ℕ → List Char → Option (List (String × Json) × List Char)
  | 0, _ => none
  | fuel + 1, input =>
      match skipSpace input with
      | '"' :: rest => do
          let (key, rest) ← readString rest.length rest
          match skipSpace rest with
          | ':' :: rest => do
              let (value, rest) ← readValue fuel rest
              match skipSpace rest with
              | '}' :: rest => some ([(.ofList key, value)], rest)
              | ',' :: rest => do
                  let (members, rest) ← readMembers fuel rest
                  some ((.ofList key, value) :: members, rest)
              | _ => none
          | _ => none
      | _ => none

def readItems : ℕ → List Char → Option (List Json × List Char)
  | 0, _ => none
  | fuel + 1, input => do
      let (value, rest) ← readValue fuel input
      match skipSpace rest with
      | ']' :: rest => some ([value], rest)
      | ',' :: rest => do
          let (items, rest) ← readItems fuel rest
          some (value :: items, rest)
      | _ => none

end

/-- A whole text: one value, with nothing but space after it. -/
def parse (input : List Char) : Option Json := do
  let (value, rest) ← readValue (input.length + 1) input
  if skipSpace rest = [] then some value else none

/-! ## What a decoder takes from a value -/

/-- The member under a key; a later one counts. -/
def field (key : String) : Json → Option Json
  | .object members => (members.reverse.find? fun member => member.1 = key).map Prod.snd
  | _ => none

def asString : Json → Option String
  | .string text => some text
  | _ => none

def asBool : Json → Option Bool
  | .bool value => some value
  | _ => none

/-- An integer literal. -/
def asInt : Json → Option ℤ
  | .number ('-' :: digits) =>
      if digits.all Char.isDigit then some (-(Nat.ofDigitChars 10 digits 0 : ℤ)) else none
  | .number digits =>
      if digits.all Char.isDigit then some (Nat.ofDigitChars 10 digits 0 : ℤ) else none
  | _ => none

/-! ## Writing -/

/-- An escaping of single characters that the reader undoes. -/
structure Escaping (escape : Char → List Char) : Prop where
  reads : ∀ c rest, readChar (escape c ++ rest) = some (c, rest)
  unquoted : ∀ c, (escape c).head? ≠ some '"'

/-- Four hexadecimal digits. -/
def hex4 (digit : ℕ → Char) (n : ℕ) : List Char :=
  [digit (n / 4096 % 16), digit (n / 256 % 16), digit (n / 16 % 16), digit (n % 16)]

def unicode (digit : ℕ → Char) (unit : ℕ) : List Char :=
  '\\' :: 'u' :: hex4 digit unit

/-- The two code units of a character beyond the basic plane. -/
def surrogates (digit : ℕ → Char) (n : ℕ) : List Char :=
  unicode digit (0xD800 + (n - 0x10000) / 0x400) ++
    unicode digit (0xDC00 + (n - 0x10000) % 0x400)

def quote (escape : Char → List Char) (text : String) : List Char :=
  '"' :: (text.toList.flatMap escape ++ ['"'])

def integer (n : ℤ) : List Char :=
  if n < 0 then '-' :: Nat.toDigits 10 n.natAbs else Nat.toDigits 10 n.natAbs

inductive Scalar where
  | bool (value : Bool)
  | int (value : ℤ)
  | string (text : String)
  deriving DecidableEq, Repr

def Scalar.json : Scalar → Json
  | .bool value => .bool value
  | .int value => .number (integer value)
  | .string text => .string text

def Scalar.write (escape : Char → List Char) : Scalar → List Char
  | .bool true => ['t', 'r', 'u', 'e']
  | .bool false => ['f', 'a', 'l', 's', 'e']
  | .int value => integer value
  | .string text => quote escape text

def writeMember (escape : Char → List Char) (member : String × Scalar) : List Char :=
  quote escape member.1 ++ ':' :: member.2.write escape

/-- The members of an object and its closing brace. -/
def writeMembers (escape : Char → List Char) : List (String × Scalar) → List Char
  | [] => ['}']
  | [member] => writeMember escape member ++ ['}']
  | member :: members => writeMember escape member ++ ',' :: writeMembers escape members

def writeObject (escape : Char → List Char) (members : List (String × Scalar)) : List Char :=
  '{' :: writeMembers escape members

/-! ## Reading back what was written -/

section RoundTrip

variable {escape : Char → List Char}

theorem readHex4_hex4 {digit : ℕ → Char} (hdigit : ∀ d < 16, hexDigit (digit d) = some d)
    {n : ℕ} (hn : n < 65536) (rest : List Char) :
    readHex4 (hex4 digit n ++ rest) = some (n, rest) := by
  have hvalue : ((n / 4096 % 16 * 16 + n / 256 % 16) * 16 + n / 16 % 16) * 16 + n % 16 = n := by
    omega
  simp [readHex4, hex4, hdigit _ (Nat.mod_lt _ (by decide : 0 < 16)), hvalue]

theorem toNat_not_surrogate (c : Char) : isHigh c.toNat = false ∧ isLow c.toNat = false := by
  have hvalid : c.toNat < 0xD800 ∨ (0xDFFF < c.toNat ∧ c.toNat < 0x110000) := c.valid
  simp only [isHigh, isLow, Bool.and_eq_false_iff, decide_eq_false_iff_not]
  omega

/-- A character of one code unit can be written as that unit. -/
theorem readChar_unicode {digit : ℕ → Char} (hdigit : ∀ d < 16, hexDigit (digit d) = some d)
    {c : Char} (hunit : c.toNat < 0x10000) (rest : List Char) :
    readChar (unicode digit c.toNat ++ rest) = some (c, rest) := by
  have hread := readHex4_hex4 hdigit hunit rest
  obtain ⟨hhigh, hlow⟩ := toNat_not_surrogate c
  simp [unicode, readChar, readEscape, readUnicode, hread, hhigh, hlow]

theorem readChar_pair {digit : ℕ → Char} (hdigit : ∀ d < 16, hexDigit (digit d) = some d)
    {high low : ℕ} (hhigh : isHigh high = true) (hlow : isLow low = true) (rest : List Char) :
    readChar (unicode digit high ++ unicode digit low ++ rest) =
      some (ofSurrogates high low, rest) := by
  have hrange : high < 65536 ∧ low < 65536 := by
    simp only [isHigh, isLow, Bool.and_eq_true, decide_eq_true_eq] at hhigh hlow
    omega
  have hreadHigh := readHex4_hex4 hdigit hrange.1 (unicode digit low ++ rest)
  have hreadLow := readHex4_hex4 hdigit hrange.2 rest
  simp only [unicode, List.append_assoc, List.cons_append] at hreadHigh ⊢
  simp [readChar, readEscape, readUnicode, hreadHigh, hreadLow, hhigh, hlow]

theorem ofSurrogates_toNat {c : Char} (hlarge : 0x10000 ≤ c.toNat) :
    ofSurrogates (0xD800 + (c.toNat - 0x10000) / 0x400)
      (0xDC00 + (c.toNat - 0x10000) % 0x400) = c := by
  have hvalue : 0x10000 + (0xD800 + (c.toNat - 0x10000) / 0x400 - 0xD800) * 0x400 +
      (0xDC00 + (c.toNat - 0x10000) % 0x400 - 0xDC00) = c.toNat := by
    omega
  rw [ofSurrogates, hvalue, Char.ofNat_toNat]

theorem readChar_surrogates {digit : ℕ → Char}
    (hdigit : ∀ d < 16, hexDigit (digit d) = some d) {c : Char} (hlarge : 0x10000 ≤ c.toNat)
    (rest : List Char) : readChar (surrogates digit c.toNat ++ rest) = some (c, rest) := by
  have hvalid : c.toNat < 0xD800 ∨ (0xDFFF < c.toNat ∧ c.toNat < 0x110000) := c.valid
  have hhigh : isHigh (0xD800 + (c.toNat - 0x10000) / 0x400) = true := by
    simp only [isHigh, Bool.and_eq_true, decide_eq_true_eq]
    omega
  have hlow : isLow (0xDC00 + (c.toNat - 0x10000) % 0x400) = true := by
    simp only [isLow, Bool.and_eq_true, decide_eq_true_eq]
    omega
  rw [surrogates, readChar_pair hdigit hhigh hlow, ofSurrogates_toNat hlarge]

theorem Escaping.ne_nil (hescape : Escaping escape) (c : Char) : escape c ≠ [] := by
  intro hnil
  have hread := hescape.reads c []
  simp [hnil, readChar] at hread

theorem Escaping.length_le (hescape : Escaping escape) (text : List Char) :
    text.length ≤ (text.flatMap escape).length := by
  induction text with
  | nil => simp
  | cons c text ih =>
      have hpos := List.length_pos_iff.mpr (hescape.ne_nil c)
      simp only [List.flatMap_cons, List.length_cons, List.length_append]
      omega

theorem readString_escaped (hescape : Escaping escape) (text rest : List Char) {fuel : ℕ}
    (hfuel : text.length < fuel) :
    readString fuel (text.flatMap escape ++ '"' :: rest) = some (text, rest) := by
  induction text generalizing fuel with
  | nil =>
      obtain ⟨fuel, rfl⟩ : ∃ k, fuel = k + 1 := ⟨fuel - 1, by omega⟩
      simp [readString]
  | cons c text ih =>
      rw [List.length_cons] at hfuel
      obtain ⟨fuel, rfl⟩ : ∃ k, fuel = k + 1 := ⟨fuel - 1, by omega⟩
      have hhead : (escape c ++ (text.flatMap escape ++ '"' :: rest)).head? ≠ some '"' := by
        rw [List.head?_append_of_ne_nil _ (hescape.ne_nil c)]
        exact hescape.unquoted c
      have hrest := ih (show text.length < fuel by omega)
      rw [List.flatMap_cons, List.append_assoc, readString, if_neg hhead, hescape.reads]
      simp [hrest]

theorem skipSpace_cons {c : Char} (rest : List Char) (hspace : isSpace c = false) :
    skipSpace (c :: rest) = c :: rest := by
  simp [skipSpace, hspace]

theorem isDigit_of_mem_toDigits {n : ℕ} {c : Char} (hmem : c ∈ Nat.toDigits 10 n) :
    c.isDigit = true :=
  Nat.isDigit_of_mem_toDigits (by decide) (by decide) hmem

theorem toDigits_head_ne_zero {n : ℕ} (hpos : 0 < n) :
    (Nat.toDigits 10 n).head? ≠ some '0' := by
  induction n using Nat.strong_induction_on with
  | _ n ih =>
      by_cases hsmall : n < 10
      · rw [Nat.toDigits_of_lt_base hsmall]
        have hdigits : ∀ d < 10, 0 < d → [Nat.digitChar d].head? ≠ some '0' := by decide
        exact hdigits n hsmall hpos
      · rw [Nat.toDigits_of_base_le (by decide) (Nat.not_lt.mp hsmall),
          List.head?_append_of_ne_nil _ Nat.toDigits_ne_nil]
        exact ih (n / 10) (by omega) (by omega)

/-- A comma or a closing brace ends a number. -/
def Closed (rest : List Char) : Prop :=
  rest.head? = some ',' ∨ rest.head? = some '}'

theorem Closed.cases {rest : List Char} (hclosed : Closed rest) :
    ∃ c tail, rest = c :: tail ∧ (c = ',' ∨ c = '}') := by
  cases rest with
  | nil => simp [Closed] at hclosed
  | cons c tail => exact ⟨c, tail, rfl, by simpa [Closed] using hclosed⟩

theorem readDigits_toDigits (n : ℕ) {rest : List Char} (hclosed : Closed rest) :
    readDigits (Nat.toDigits 10 n ++ rest) = (Nat.toDigits 10 n, rest) := by
  obtain ⟨c, tail, rfl, hc⟩ := hclosed.cases
  have hstop : c.isDigit = false := by rcases hc with rfl | rfl <;> rfl
  have hall : ∀ d ∈ Nat.toDigits 10 n, d.isDigit = true := fun _ => isDigit_of_mem_toDigits
  rw [readDigits, List.takeWhile_append_of_pos hall, List.dropWhile_append_of_pos hall]
  simp [hstop]

theorem readFraction_closed {rest : List Char} (hclosed : Closed rest) :
    readFraction rest = some ([], rest) := by
  obtain ⟨c, tail, rfl, rfl | rfl⟩ := hclosed.cases <;> rfl

theorem readExponent_closed {rest : List Char} (hclosed : Closed rest) :
    readExponent rest = some ([], rest) := by
  obtain ⟨c, tail, rfl, rfl | rfl⟩ := hclosed.cases <;> cases tail <;> rfl

theorem readMagnitude_toDigits (n : ℕ) {rest : List Char} (hclosed : Closed rest) :
    readMagnitude (Nat.toDigits 10 n ++ rest) = some (Nat.toDigits 10 n, rest) := by
  have hfirst : ¬ (Nat.toDigits 10 n = [] ∨
      ((Nat.toDigits 10 n).head? = some '0' ∧ Nat.toDigits 10 n ≠ ['0'])) := by
    rintro (hnil | ⟨hzero, hmore⟩)
    · exact Nat.toDigits_ne_nil hnil
    · rcases Nat.eq_zero_or_pos n with rfl | hpos
      · exact hmore (Nat.toDigits_zero 10)
      · exact toDigits_head_ne_zero hpos hzero
  simp only [readMagnitude, readDigits_toDigits n hclosed, if_neg hfirst,
    readFraction_closed hclosed, readExponent_closed hclosed, Option.bind_eq_bind,
    Option.bind_some, List.append_nil]

theorem toDigits_cons (n : ℕ) :
    ∃ c tail, Nat.toDigits 10 n = c :: tail ∧ c.isDigit = true := by
  obtain ⟨c, tail, hcons⟩ := List.exists_cons_of_ne_nil (Nat.toDigits_ne_nil (n := n) (b := 10))
  exact ⟨c, tail, hcons, isDigit_of_mem_toDigits (hcons ▸ List.mem_cons_self)⟩

theorem readNumber_integer (n : ℤ) {rest : List Char} (hclosed : Closed rest) :
    readNumber (integer n ++ rest) = some (integer n, rest) := by
  unfold integer
  split_ifs
  · simp [readNumber, readMagnitude_toDigits _ hclosed]
  · have hread := readMagnitude_toDigits n.natAbs hclosed
    obtain ⟨c, tail, hcons, hdigit⟩ := toDigits_cons n.natAbs
    rw [hcons] at hread ⊢
    rw [List.cons_append] at hread ⊢
    unfold readNumber
    split
    · next heq =>
        cases heq
        cases hdigit
    · exact hread

/-- An integer begins with a digit or a minus sign. -/
theorem integer_cons (n : ℤ) :
    ∃ c tail, integer n = c :: tail ∧ (c = '-' ∨ c.isDigit = true) := by
  unfold integer
  split_ifs
  · exact ⟨'-', _, rfl, Or.inl rfl⟩
  · obtain ⟨c, tail, hcons, hdigit⟩ := toDigits_cons n.natAbs
    exact ⟨c, tail, hcons, Or.inr hdigit⟩

theorem readValue_integer (n : ℤ) {rest : List Char} (hclosed : Closed rest) (fuel : ℕ) :
    readValue (fuel + 1) (integer n ++ rest) = some (.number (integer n), rest) := by
  have hread := readNumber_integer n hclosed
  obtain ⟨c, tail, hcons, hc⟩ := integer_cons n
  have hother : ∀ d : Char, d.isDigit = false → d ≠ '-' → c ≠ d := by
    rintro d hdigit hminus rfl
    rcases hc with rfl | hyes
    · exact hminus rfl
    · rw [hdigit] at hyes
      cases hyes
  have hspace : isSpace c = false := by
    simp [isSpace, hother ' ' rfl (by decide), hother '\t' rfl (by decide),
      hother '\n' rfl (by decide), hother '\r' rfl (by decide)]
  rw [hcons, List.cons_append] at hread ⊢
  rw [readValue, skipSpace_cons _ hspace]
  split
  · next heq => exact absurd (List.cons.inj heq).1 (hother '"' rfl (by decide))
  · next heq => exact absurd (List.cons.inj heq).1 (hother '{' rfl (by decide))
  · next heq => exact absurd (List.cons.inj heq).1 (hother '[' rfl (by decide))
  · next heq => exact absurd (List.cons.inj heq).1 (hother 't' rfl (by decide))
  · next heq => exact absurd (List.cons.inj heq).1 (hother 'f' rfl (by decide))
  · next heq => exact absurd (List.cons.inj heq).1 (hother 'n' rfl (by decide))
  · rw [hread]
    rfl

theorem readString_quote (hescape : Escaping escape) (text : String) (rest : List Char) :
    readString (text.toList.flatMap escape ++ '"' :: rest).length
      (text.toList.flatMap escape ++ '"' :: rest) = some (text.toList, rest) := by
  apply readString_escaped hescape
  have hlength := hescape.length_le text.toList
  simp only [List.length_append, List.length_cons]
  omega

theorem readValue_write (hescape : Escaping escape) (value : Scalar) {rest : List Char}
    (hclosed : Closed rest) (fuel : ℕ) :
    readValue (fuel + 1) (value.write escape ++ rest) = some (value.json, rest) := by
  cases value with
  | bool value => cases value <;> rfl
  | int value => exact readValue_integer value hclosed fuel
  | string text =>
      have hread := readString_quote hescape text rest
      have hsplit : (Scalar.string text).write escape ++ rest =
          '"' :: (text.toList.flatMap escape ++ '"' :: rest) := by
        simp [Scalar.write, quote]
      rw [hsplit, readValue, skipSpace_cons _ (by decide)]
      simp only [hread, Scalar.json, Option.map_some, String.ofList_toList]

theorem writeMember_append (escape : Char → List Char) (member : String × Scalar)
    (rest : List Char) :
    writeMember escape member ++ rest =
      '"' :: (member.1.toList.flatMap escape ++
        '"' :: ':' :: (member.2.write escape ++ rest)) := by
  simp [writeMember, quote]

theorem readMembers_write (hescape : Escaping escape) (member : String × Scalar)
    (members : List (String × Scalar)) (rest : List Char) {fuel : ℕ}
    (hfuel : members.length + 1 < fuel) :
    readMembers fuel (writeMembers escape (member :: members) ++ rest) =
      some ((member :: members).map fun m => (m.1, m.2.json), rest) := by
  induction members generalizing member fuel with
  | nil =>
      obtain ⟨fuel, rfl⟩ : ∃ k, fuel = k + 2 := ⟨fuel - 2, by simp at hfuel; omega⟩
      have hvalue := readValue_write hescape member.2
        (show Closed ('}' :: rest) from Or.inr rfl) fuel
      have hsplit : writeMembers escape [member] ++ rest =
          writeMember escape member ++ '}' :: rest := by
        simp [writeMembers]
      rw [hsplit, writeMember_append, readMembers, skipSpace_cons _ (by decide)]
      simp only [readString_quote hescape]
      simp [skipSpace_cons _ (show isSpace ':' = false by decide), hvalue,
        skipSpace_cons _ (show isSpace '}' = false by decide)]
  | cons second members ih =>
      rw [List.length_cons] at hfuel
      obtain ⟨fuel, rfl⟩ : ∃ k, fuel = k + 2 := ⟨fuel - 2, by omega⟩
      have hvalue := readValue_write hescape member.2
        (show Closed (',' :: (writeMembers escape (second :: members) ++ rest))
          from Or.inl rfl) fuel
      have hrest := ih second (show members.length + 1 < fuel + 1 by omega)
      have hsplit : writeMembers escape (member :: second :: members) ++ rest =
          writeMember escape member ++
            ',' :: (writeMembers escape (second :: members) ++ rest) := by
        simp [writeMembers]
      rw [hsplit, writeMember_append, readMembers, skipSpace_cons _ (by decide)]
      simp only [readString_quote hescape]
      simp [skipSpace_cons _ (show isSpace ':' = false by decide), hvalue,
        skipSpace_cons _ (show isSpace ',' = false by decide), hrest]

theorem writeMembers_length (escape : Char → List Char) (members : List (String × Scalar)) :
    members.length ≤ (writeMembers escape members).length := by
  induction members with
  | nil => simp
  | cons member members ih =>
      cases members with
      | nil => simp [writeMembers]
      | cons second members =>
          simp only [writeMembers, List.length_append, List.length_cons] at ih ⊢
          omega

theorem parse_of_readValue {input : List Char} {value : Json}
    (hread : readValue (input.length + 1) input = some (value, [])) :
    parse input = some value := by
  rw [parse, hread]
  rfl

/-- A flat object that was written is read back, whatever the escaping. -/
theorem parse_writeObject (hescape : Escaping escape) (members : List (String × Scalar)) :
    parse (writeObject escape members) =
      some (.object (members.map fun m => (m.1, m.2.json))) := by
  apply parse_of_readValue
  cases members with
  | nil => rfl
  | cons member members =>
      have hlength := writeMembers_length escape (member :: members)
      have hfuel : members.length + 1 < (writeMembers escape (member :: members)).length + 1 := by
        simp only [List.length_cons] at hlength
        omega
      have hread := readMembers_write hescape member members [] hfuel
      obtain ⟨tail, htail⟩ : ∃ tail, writeMembers escape (member :: members) = '"' :: tail := by
        cases members <;> exact ⟨_, rfl⟩
      rw [List.append_nil] at hread
      rw [writeObject, readValue, skipSpace_cons _ (by decide)]
      simp only [htail, skipSpace_cons _ (show isSpace '"' = false by decide),
        List.length_cons] at hread ⊢
      exact congrArg (Option.map fun read => (object read.1, read.2)) hread

theorem asInt_integer (n : ℤ) : asInt (.number (integer n)) = some n := by
  have hall : ∀ k : ℕ, (Nat.toDigits 10 k).all Char.isDigit = true := by
    intro k
    rw [List.all_eq_true]
    exact fun _ => isDigit_of_mem_toDigits
  have hvalue : ∀ k : ℕ, Nat.ofDigitChars 10 (Nat.toDigits 10 k) 0 = k := fun k =>
    Nat.ofDigitChars_toDigits (by decide) (by decide)
  unfold integer
  split_ifs with hneg
  · simp only [asInt, hall, hvalue, if_true, Option.some.injEq]
    omega
  · have hdigits := hall n.natAbs
    have hnat := hvalue n.natAbs
    obtain ⟨c, tail, hcons, hdigit⟩ := toDigits_cons n.natAbs
    rw [hcons] at hdigits hnat ⊢
    unfold asInt
    split
    · next heq =>
        cases heq
        cases hdigit
    · next digits _ heq =>
        cases heq
        simp only [hdigits, hnat, if_true, Option.some.injEq]
        omega
    · next hno => exact absurd rfl (hno _)

/-- A written object has no control character if its escaping leaves none. -/
theorem printable_writeObject (hprintable : ∀ c, ∀ d ∈ escape c, 0x20 ≤ d.toNat)
    (members : List (String × Scalar)) :
    ∀ d ∈ writeObject escape members, 0x20 ≤ d.toNat := by
  have hquote : ∀ text, ∀ d ∈ quote escape text, 0x20 ≤ d.toNat := by
    intro text d hmem
    simp only [quote, List.mem_cons, List.mem_append, List.mem_flatMap, List.not_mem_nil,
      or_false] at hmem
    rcases hmem with rfl | ⟨c, _, hd⟩ | rfl
    · decide
    · exact hprintable c d hd
    · decide
  have hdigits : ∀ n, ∀ d ∈ Nat.toDigits 10 n, 0x20 ≤ d.toNat := by
    intro n d hmem
    have hdigit := isDigit_of_mem_toDigits hmem
    rw [Char.isDigit_iff_toNat] at hdigit
    have hzero : '0'.toNat = 48 := rfl
    omega
  have hscalar : ∀ value : Scalar, ∀ d ∈ value.write escape, 0x20 ≤ d.toNat := by
    intro value
    cases value with
    | bool value => cases value <;> simp [Scalar.write]
    | int value =>
        intro d hmem
        simp only [Scalar.write, integer] at hmem
        split_ifs at hmem
        · rcases List.mem_cons.mp hmem with rfl | hd
          · decide
          · exact hdigits _ d hd
        · exact hdigits _ d hmem
    | string text => exact hquote text
  have hmember : ∀ member, ∀ d ∈ writeMember escape member, 0x20 ≤ d.toNat := by
    intro member d hmem
    simp only [writeMember, List.mem_append, List.mem_cons] at hmem
    rcases hmem with hd | rfl | hd
    · exact hquote member.1 d hd
    · decide
    · exact hscalar member.2 d hd
  have hmembers : ∀ d ∈ writeMembers escape members, 0x20 ≤ d.toNat := by
    induction members with
    | nil => simp [writeMembers]
    | cons member members ih =>
        cases members with
        | nil =>
            intro d hmem
            simp only [writeMembers, List.mem_append, List.mem_singleton] at hmem
            rcases hmem with hd | rfl
            · exact hmember member d hd
            · decide
        | cons second members =>
            intro d hmem
            simp only [writeMembers, List.mem_append, List.mem_cons] at hmem
            rcases hmem with hd | rfl | hd
            · exact hmember member d hd
            · decide
            · exact ih d hd
  intro d hmem
  rcases List.mem_cons.mp hmem with rfl | hd
  · decide
  · exact hmembers d hd

/-! ## Texts that are refused -/

theorem skipSpace_skipSpace (input : List Char) :
    skipSpace (skipSpace input) = skipSpace input :=
  List.dropWhile_idempotent isSpace input

/-- Characters without a closing quote are no string. -/
theorem readString_unterminated (hescape : Escaping escape) (text : List Char) (fuel : ℕ) :
    readString fuel (text.flatMap escape) = none := by
  induction text generalizing fuel with
  | nil => cases fuel <;> rfl
  | cons c text ih =>
      cases fuel with
      | zero => rfl
      | succ fuel =>
          have hhead : (escape c ++ text.flatMap escape).head? ≠ some '"' := by
            rw [List.head?_append_of_ne_nil _ (hescape.ne_nil c)]
            exact hescape.unquoted c
          rw [List.flatMap_cons, readString, if_neg hhead, hescape.reads]
          simp [ih]

theorem readValue_unterminated (hescape : Escaping escape) (text : List Char) (fuel : ℕ) :
    readValue fuel ('"' :: text.flatMap escape) = none := by
  cases fuel with
  | zero => rfl
  | succ fuel =>
      rw [readValue, skipSpace_cons _ (by decide)]
      simp [readString_unterminated hescape]

theorem readMembers_unterminated (hescape : Escaping escape) (key : String) (text : List Char)
    (fuel : ℕ) :
    readMembers fuel (quote escape key ++ ':' :: '"' :: text.flatMap escape) = none := by
  cases fuel with
  | zero => rfl
  | succ fuel =>
      have hsplit : quote escape key ++ ':' :: '"' :: text.flatMap escape =
          '"' :: (key.toList.flatMap escape ++ '"' :: ':' :: '"' :: text.flatMap escape) := by
        simp [quote]
      rw [hsplit, readMembers, skipSpace_cons _ (by decide)]
      simp only [readString_quote hescape]
      simp [skipSpace_cons _ (show isSpace ':' = false by decide),
        readValue_unterminated hescape]

/-- An object whose last text does not end is refused. -/
theorem parse_unterminated (hescape : Escaping escape) (member : String × Scalar) (key : String)
    (text : List Char) :
    parse ('{' :: (writeMember escape member ++
      ',' :: (quote escape key ++ ':' :: '"' :: text.flatMap escape))) = none := by
  have hmembers : ∀ fuel, readMembers fuel (writeMember escape member ++
      ',' :: (quote escape key ++ ':' :: '"' :: text.flatMap escape)) = none := by
    intro fuel
    match fuel with
    | 0 => rfl
    | 1 =>
        rw [writeMember_append, readMembers, skipSpace_cons _ (by decide)]
        simp only [readString_quote hescape]
        simp [skipSpace_cons _ (show isSpace ':' = false by decide), readValue]
    | fuel + 2 =>
        have hvalue := readValue_write hescape member.2
          (show Closed (',' :: (quote escape key ++ ':' :: '"' :: text.flatMap escape))
            from Or.inl rfl) fuel
        rw [writeMember_append, readMembers, skipSpace_cons _ (by decide)]
        simp only [readString_quote hescape]
        simp [skipSpace_cons _ (show isSpace ':' = false by decide), hvalue,
          skipSpace_cons _ (show isSpace ',' = false by decide),
          readMembers_unterminated hescape]
  rw [parse, readValue, skipSpace_cons _ (by decide)]
  simp only [writeMember_append] at hmembers ⊢
  simp [skipSpace_cons _ (show isSpace '"' = false by decide), hmembers]

/-- A value with members begins with a brace, and a quoted name before a colon. -/
theorem exists_key_of_field {input : List Char} {json value : Json} {key : String}
    (hparse : parse input = some json) (hfield : json.field key = some value) :
    ∃ rest inner name tail, skipSpace input = '{' :: rest ∧ skipSpace rest = '"' :: inner ∧
      readString inner.length inner = some (name, tail) ∧
      (skipSpace tail).head? = some ':' := by
  have hobject : ∃ members, json = .object members ∧ members ≠ [] := by
    cases json with
    | object members =>
        refine ⟨members, rfl, ?_⟩
        rintro rfl
        cases hfield
    | _ => cases hfield
  obtain ⟨members, rfl, hmembers⟩ := hobject
  rw [parse] at hparse
  obtain ⟨⟨read, rest⟩, hread, hend⟩ := Option.bind_eq_some_iff.mp hparse
  have hread' : read = .object members := by
    simp at hend
    exact hend.2
  subst hread'
  rw [readValue] at hread
  split at hread
  · simp at hread
  · next rest' hbrace =>
      split at hread
      · cases hread
        exact absurd rfl hmembers
      · obtain ⟨⟨read, rest''⟩, hmem, hread⟩ := Option.map_eq_some_iff.mp hread
        generalize input.length = fuel at hmem
        cases fuel with
        | zero => cases hmem
        | succ fuel =>
            rw [readMembers, skipSpace_skipSpace] at hmem
            split at hmem
            · next inner hquote =>
                obtain ⟨⟨name, tail⟩, hname, hmem⟩ := Option.bind_eq_some_iff.mp hmem
                refine ⟨rest', inner, name, tail, hbrace, hquote, hname, ?_⟩
                dsimp only at hmem
                split at hmem
                · next hcolon =>
                    rw [hcolon]
                    rfl
                · cases hmem
            · cases hmem
  · split at hread <;> simp at hread
  · simp [readWord] at hread
  · simp [readWord] at hread
  · simp [readWord] at hread
  · simp at hread

end RoundTrip

end Json

end NativeInterop
