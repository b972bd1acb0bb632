import NativeInterop.LittleEndian
import Mathlib.Data.BitVec
import Mathlib.Tactic

/-!
# The protobuf wire format

Varints, tagged fields and the field list of a message, over arbitrary messages.
Encoders and decoders work on lists of bytes; a message is read by looking up
its fields, where the last occurrence counts and unknown fields are skipped.
-/

namespace NativeInterop

namespace ProtoWire

/-! ## Varints -/

def varintFuel : ℕ → ℕ → Bytes
  | 0, n => [UInt8.ofNat n]
  | fuel + 1, n =>
      if n < 128 then [UInt8.ofNat n]
      else UInt8.ofNat (n % 128 + 128) :: varintFuel fuel (n / 128)

def varint (n : ℕ) : Bytes :=
  varintFuel n n

def readVarint : Bytes → Option (ℕ × Bytes)
  | [] => none
  | b :: bs =>
      if b.toNat < 128 then some (b.toNat, bs)
      else (readVarint bs).map fun (n, rest) => (b.toNat - 128 + 128 * n, rest)

theorem readVarint_varintFuel (fuel n : ℕ) (rest : Bytes) (hfuel : n ≤ fuel) :
    readVarint (varintFuel fuel n ++ rest) = some (n, rest) := by
  induction fuel generalizing n with
  | zero =>
      have hzero : n = 0 := by omega
      subst n
      simp [varintFuel, readVarint]
  | succ fuel ih =>
      unfold varintFuel
      by_cases hsmall : n < 128
      · have hbyte : (UInt8.ofNat n).toNat = n := by
          simp only [UInt8.toNat_ofNat']
          omega
        simp [hsmall, readVarint, hbyte]
      · have hbyte : (UInt8.ofNat (n % 128 + 128)).toNat = n % 128 + 128 := by
          simp only [UInt8.toNat_ofNat']
          omega
        have hrest := ih (n / 128) (by omega)
        simp only [hsmall, if_false, List.cons_append, readVarint, hbyte, hrest]
        have hlarge : ¬ n % 128 + 128 < 128 := by omega
        rw [if_neg hlarge]
        have hvalue : n % 128 + 128 - 128 + 128 * (n / 128) = n := by omega
        simp only [Option.map_some, hvalue]

theorem readVarint_varint (n : ℕ) (rest : Bytes) :
    readVarint (varint n ++ rest) = some (n, rest) :=
  readVarint_varintFuel n n rest le_rfl

theorem varint_ne_nil (n : ℕ) : varint n ≠ [] := by
  unfold varint
  cases n with
  | zero => simp [varintFuel]
  | succ n =>
      unfold varintFuel
      split_ifs <;> simp

/-! ## Fields -/

inductive Value where
  | varint (n : ℕ)
  | fixed64 (bits : BitVec 64)
  | bytes (content : Bytes)
  | fixed32 (bits : BitVec 32)
  deriving DecidableEq, Repr

structure Field where
  number : ℕ
  value : Value
  deriving DecidableEq, Repr

def Value.wireType : Value → ℕ
  | .varint _ => 0
  | .fixed64 _ => 1
  | .bytes _ => 2
  | .fixed32 _ => 5

def encodeValue : Value → Bytes
  | .varint n => ProtoWire.varint n
  | .fixed64 bits => littleEndian 8 bits.toNat
  | .bytes content => ProtoWire.varint content.length ++ content
  | .fixed32 bits => littleEndian 4 bits.toNat

def encodeField (field : Field) : Bytes :=
  varint (field.number * 8 + field.value.wireType) ++ encodeValue field.value

def encodeFields (fields : List Field) : Bytes :=
  fields.flatMap encodeField

def takeExact (count : ℕ) (bytes : Bytes) : Option (Bytes × Bytes) :=
  if count ≤ bytes.length then some (bytes.take count, bytes.drop count)
  else none

def readValue (wireType : ℕ) (bytes : Bytes) : Option (Value × Bytes) :=
  match wireType with
  | 0 => do
      let (n, rest) ← readVarint bytes
      some (.varint n, rest)
  | 1 => do
      let (content, rest) ← takeExact 8 bytes
      some (.fixed64 (BitVec.ofNat 64 (ofLittleEndian content)), rest)
  | 2 => do
      let (length, rest) ← readVarint bytes
      let (content, rest) ← takeExact length rest
      some (.bytes content, rest)
  | 5 => do
      let (content, rest) ← takeExact 4 bytes
      some (.fixed32 (BitVec.ofNat 32 (ofLittleEndian content)), rest)
  | _ => none

def readField (bytes : Bytes) : Option (Field × Bytes) := do
  let (tag, rest) ← readVarint bytes
  let (value, rest) ← readValue (tag % 8) rest
  some (⟨tag / 8, value⟩, rest)

def readFieldsFuel : ℕ → Bytes → Option (List Field)
  | _, [] => some []
  | 0, _ :: _ => none
  | fuel + 1, b :: bs => do
      let (field, rest) ← readField (b :: bs)
      let fields ← readFieldsFuel fuel rest
      some (field :: fields)

def readFields (bytes : Bytes) : Option (List Field) :=
  readFieldsFuel bytes.length bytes

theorem takeExact_append (content rest : Bytes) :
    takeExact content.length (content ++ rest) = some (content, rest) := by
  simp [takeExact]

theorem takeExact_littleEndian (width n : ℕ) (rest : Bytes) :
    takeExact width (littleEndian width n ++ rest) =
      some (littleEndian width n, rest) := by
  have happend := takeExact_append (littleEndian width n) rest
  rwa [littleEndian_length] at happend

theorem readValue_encodeValue (value : Value) (rest : Bytes) :
    readValue value.wireType (encodeValue value ++ rest) = some (value, rest) := by
  cases value with
  | varint n =>
      simp [readValue, Value.wireType, encodeValue, readVarint_varint]
  | fixed64 bits =>
      have hlt : bits.toNat < 256 ^ 8 := by
        have hbits := bits.isLt
        norm_num at hbits ⊢
        exact hbits
      simp [readValue, Value.wireType, encodeValue, takeExact_littleEndian,
        ofLittleEndian_littleEndian_of_lt hlt]
  | bytes content =>
      simp [readValue, Value.wireType, encodeValue, readVarint_varint,
        takeExact_append]
  | fixed32 bits =>
      have hlt : bits.toNat < 256 ^ 4 := by
        have hbits := bits.isLt
        norm_num at hbits ⊢
        exact hbits
      simp [readValue, Value.wireType, encodeValue, takeExact_littleEndian,
        ofLittleEndian_littleEndian_of_lt hlt]

theorem wireType_lt (value : Value) : value.wireType < 8 := by
  cases value <;> simp [Value.wireType]

theorem readField_encodeField (field : Field) (rest : Bytes) :
    readField (encodeField field ++ rest) = some (field, rest) := by
  have htype := wireType_lt field.value
  have hmod : (field.number * 8 + field.value.wireType) % 8 =
      field.value.wireType := by omega
  have hdiv : (field.number * 8 + field.value.wireType) / 8 = field.number := by
    omega
  simp [readField, encodeField, readVarint_varint, hmod, hdiv,
    readValue_encodeValue]

theorem encodeField_ne_nil (field : Field) : encodeField field ≠ [] := by
  simp [encodeField, varint_ne_nil]

theorem encodeField_length_pos (field : Field) :
    0 < (encodeField field).length :=
  List.length_pos_iff.mpr (encodeField_ne_nil field)

theorem readFieldsFuel_encodeFields (fields : List Field) (fuel : ℕ)
    (hfuel : (encodeFields fields).length ≤ fuel) :
    readFieldsFuel fuel (encodeFields fields) = some fields := by
  induction fields generalizing fuel with
  | nil => cases fuel <;> rfl
  | cons field fields ih =>
      have hsplit : encodeFields (field :: fields) =
          encodeField field ++ encodeFields fields := rfl
      have hpos := encodeField_length_pos field
      rw [hsplit] at hfuel ⊢
      rw [List.length_append] at hfuel
      have hread := readField_encodeField field (encodeFields fields)
      cases fuel with
      | zero => omega
      | succ fuel =>
          cases hbytes : encodeField field ++ encodeFields fields with
          | nil => simp [encodeField_ne_nil] at hbytes
          | cons b bs =>
              rw [hbytes] at hread
              have hrest := ih fuel (by omega)
              simp [readFieldsFuel, hread, hrest]

theorem readFields_encodeFields (fields : List Field) :
    readFields (encodeFields fields) = some fields :=
  readFieldsFuel_encodeFields fields _ le_rfl

/-! ## Looking up and writing the fields of a message -/

def lookup (number : ℕ) : List Field → Option Value
  | [] => none
  | field :: fields =>
      (lookup number fields).or
        (if field.number = number then some field.value else none)

def bytesOf : Option Value → Bytes
  | some (.bytes content) => content
  | _ => []

def varintOf : Option Value → ℕ
  | some (.varint n) => n
  | _ => 0

def fixed64Of : Option Value → BitVec 64
  | some (.fixed64 bits) => bits
  | _ => 0

def utf8 (text : String) : Bytes :=
  text.toUTF8.data.toList

def ofUtf8 (bytes : Bytes) : Option String :=
  String.fromUTF8? ⟨bytes.toArray⟩

/-- A field with a default value is left out. -/
def bytesField (number : ℕ) (content : Bytes) : List Field :=
  if content = [] then [] else [⟨number, .bytes content⟩]

def varintField (number n : ℕ) : List Field :=
  if n = 0 then [] else [⟨number, .varint n⟩]

def fixed64Field (number : ℕ) (bits : BitVec 64) : List Field :=
  if bits = 0 then [] else [⟨number, .fixed64 bits⟩]

@[simp] theorem ofUtf8_utf8 (text : String) : ofUtf8 (utf8 text) = some text := by
  unfold ofUtf8 utf8
  have hvalid : text.toUTF8.IsValidUTF8 := text.isValidUTF8
  have hdata : (⟨text.toUTF8.data.toList.toArray⟩ : ByteArray) = text.toUTF8 := by
    simp
  rw [hdata, String.fromUTF8?, dif_pos hvalid]
  rfl

@[simp] theorem lookup_append (number : ℕ) (first second : List Field) :
    lookup number (first ++ second) =
      (lookup number second).or (lookup number first) := by
  induction first with
  | nil => simp [lookup]
  | cons field fields ih =>
      simp only [List.cons_append, lookup, ih, Option.or_assoc]

@[simp] theorem lookup_nil (number : ℕ) : lookup number [] = none := rfl

@[simp] theorem lookup_singleton (number : ℕ) (field : Field) :
    lookup number [field] =
      if field.number = number then some field.value else none := by
  simp [lookup]

theorem lookup_bytesField_ne {number other : ℕ} (content : Bytes)
    (hne : other ≠ number) : lookup number (bytesField other content) = none := by
  unfold bytesField
  split_ifs <;> simp [hne]

theorem lookup_varintField_ne {number other : ℕ} (n : ℕ) (hne : other ≠ number) :
    lookup number (varintField other n) = none := by
  unfold varintField
  split_ifs <;> simp [hne]

theorem lookup_fixed64Field_ne {number other : ℕ} (bits : BitVec 64)
    (hne : other ≠ number) : lookup number (fixed64Field other bits) = none := by
  unfold fixed64Field
  split_ifs <;> simp [hne]

@[simp] theorem bytesOf_lookup_bytesField (number : ℕ) (content : Bytes) :
    bytesOf (lookup number (bytesField number content)) = content := by
  unfold bytesField
  split_ifs with hnil <;> simp [bytesOf, hnil]

@[simp] theorem varintOf_lookup_varintField (number n : ℕ) :
    varintOf (lookup number (varintField number n)) = n := by
  unfold varintField
  split_ifs with hzero <;> simp [varintOf, hzero]

@[simp] theorem fixed64Of_lookup_fixed64Field (number : ℕ) (bits : BitVec 64) :
    fixed64Of (lookup number (fixed64Field number bits)) = bits := by
  unfold fixed64Field
  split_ifs with hzero <;> simp [fixed64Of, hzero]

end ProtoWire

end NativeInterop
