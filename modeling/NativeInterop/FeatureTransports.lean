import NativeInterop.AgentStatus
import NativeInterop.HandleClient
import NativeInterop.JniStrings
import NativeInterop.JsonTree
import NativeInterop.LanguageFeatures
import NativeInterop.RagQuery
import NativeInterop.ShowcaseCommand
import Mathlib

/-!
# One run over four transports

The four catalog services of the Android app: through the bridge, over the loopback server,
through the encrypted store and in protobuf envelopes.  Each takes an id to the same engine
and takes its answer back in its own form.  Frames and their encryption are elsewhere; an
envelope is taken as its bytes.
-/

namespace NativeInterop

namespace FeatureTransports

open ShowcaseCommand (FeatureRun Text)
open ProtoWire (utf8 ofUtf8)

/-! ## The answer as JSON -/

/-- The exponent is not the one of the infinities. -/
def isFinite (d : Double) : Prop := d.toNat / 2 ^ 52 % 2 ^ 11 ≠ 2047

/-- How numbers are written and read back; the shortest notation is not lossy. -/
structure DoubleCodec where
  write : Double → List Char
  read : List Char → Option Double
  isNumber_write : ∀ d, isFinite d → Json.IsNumber (write d)
  ascii_write : ∀ d, isFinite d → ∀ c ∈ write d, 0x20 ≤ c.toNat ∧ c.toNat < 0x7F
  read_write : ∀ d, isFinite d → read (write d) = some d

section Answer

variable (codec : DoubleCodec)

/-- `JsonSerializer.Serialize` of a run. -/
def serialize (run : FeatureRun) : List Char :=
  Json.writeRecord Agent.jsonEscape
    [("id", Json.quote Agent.jsonEscape (.ofList run.id)),
      ("result", Json.quote Agent.jsonEscape (.ofList run.result)),
      ("elapsedMs", codec.write run.elapsedMs),
      ("ok", (Json.Scalar.bool run.ok).write Agent.jsonEscape)]

end Answer

/-! ## The services -/

/-- What `WriteJsonAsync` writes. -/
def reply (body : Bytes) : Bytes :=
  utf8 (.ofList ("HTTP/1.1 200 OK\r\nContent-Type: application/json\r\nContent-Length: ".toList ++
    Nat.toDigits 10 body.length ++ "\r\nConnection: close\r\n\r\n".toList)) ++ body

variable (codec : DoubleCodec) (catalog : Catalog)

/-- A row of `feature_runs`, without its time. -/
structure RunRow where
  id : Text
  result : Text
  elapsedMs : Double
  ok : ℤ

def rowOf (run : FeatureRun) : RunRow where
  id := run.id
  result := run.result
  elapsedMs := run.elapsedMs
  ok := if run.ok then 1 else 0

section Decoding

variable {codec : DoubleCodec}

end Decoding

/-! ## The id arrives -/

section Ids

/-- The characters of RFC 3986 that need no escape. -/
def unreserved (c : Char) : Bool :=
  ('A' ≤ c ∧ c ≤ 'Z') ∨ ('a' ≤ c ∧ c ≤ 'z') ∨ ('0' ≤ c ∧ c ≤ '9') ∨ c ∈ ['-', '.', '_', '~']

def Unreserved (text : Text) : Prop := ∀ c ∈ text, unreserved c = true

/-- What the bridge and the request line rely on. -/
structure Plain (c : Char) : Prop where
  ascii : c.toNat < 0x80
  ne_nul : c ≠ '\x00'
  ne_space : c ≠ ' '
  ne_return : c ≠ '\r'
  ne_percent : c ≠ '%'

theorem plain_of_range {c lo hi : Char} (hlo : lo ≤ c) (hhi : c ≤ hi) (hfirst : 0x30 ≤ lo.toNat)
    (hlast : hi.toNat < 0x80) : Plain c := by
  have hle : lo.toNat ≤ c.toNat := UInt32.le_iff_toNat_le.mp hlo
  have hge : c.toNat ≤ hi.toNat := UInt32.le_iff_toNat_le.mp hhi
  have hne : ∀ d : Char, d.toNat < 0x30 → c ≠ d := by
    rintro d hd rfl
    omega
  exact ⟨by omega, hne _ (by decide), hne _ (by decide), hne _ (by decide), hne _ (by decide)⟩

variable {id : Text}

theorem unescape_plain (hplain : ∀ c ∈ id, Plain c) : PercentEncoding.unescape id = id := by
  induction id with
  | nil => exact PercentEncoding.unescape_nil
  | cons c id ih =>
      rw [List.forall_mem_cons] at hplain
      rw [PercentEncoding.unescape_keep fun hpercent => absurd hpercent hplain.1.ne_percent,
        ih hplain.2]

open RawHttpServer HTTPRagService

variable {path : Text}

end Ids

/-! ## The transports agree -/

section Agree

variable {codec : DoubleCodec} {catalog : Catalog} {id : Text}

end Agree

/-- The catalog's own ids need no escape. -/
theorem unreserved_ids : ∀ id ∈ LanguageFeatures.ids, Unreserved id.toList := by
  have hall : (LanguageFeatures.ids.all fun id => id.toList.all unreserved) = true := by
    decide +kernel
  exact fun id hid => List.all_eq_true.mp (List.all_eq_true.mp hall id hid)

theorem isNumber_toDigits (n : ℕ) : Json.IsNumber (Nat.toDigits 10 n) := by
  have hdigits : Json.readDigits (Nat.toDigits 10 n) = (Nat.toDigits 10 n, []) := by
    rw [Json.readDigits, ShowcaseCommand.takeWhile_toDigits, ShowcaseCommand.dropWhile_toDigits]
  have hfirst : ¬ (Nat.toDigits 10 n = [] ∨
      ((Nat.toDigits 10 n).head? = some '0' ∧ Nat.toDigits 10 n ≠ ['0'])) := by
    rintro (hnil | ⟨hzero, hmore⟩)
    · exact Nat.toDigits_ne_nil hnil
    · rcases Nat.eq_zero_or_pos n with hn | hpos
      · exact hmore (by rw [hn, Nat.toDigits_zero])
      · exact Json.toDigits_head_ne_zero hpos hzero
  have hmagnitude : Json.readMagnitude (Nat.toDigits 10 n) = some (Nat.toDigits 10 n, []) := by
    simp only [Json.readMagnitude, hdigits, if_neg hfirst, Json.readFraction,
      Json.readExponent, Option.bind_eq_bind, Option.bind_some, List.append_nil]
  obtain ⟨c, tail, hcons, hc⟩ := Json.toDigits_cons n
  rw [hcons] at hmagnitude ⊢
  have hminus : c ≠ '-' := by
    rintro rfl
    exact absurd hc (by decide)
  rw [Json.IsNumber, Json.readNumber.eq_2 _ fun _ heq => hminus (List.cons.inj heq).1]
  exact hmagnitude

theorem toDigits_ascii (n : ℕ) : ∀ c ∈ Nat.toDigits 10 n, 0x20 ≤ c.toNat ∧ c.toNat < 0x7F := by
  intro c hc
  have hrange : 0x30 ≤ c.toNat ∧ c.toNat ≤ 0x39 :=
    Char.isDigit_iff_toNat.mp (Json.isDigit_of_mem_toDigits hc)
  omega

theorem read_toDigits (d : Double) :
    ((SignedDecimal.magnitude SignedDecimal.ascii.digitOf (Nat.toDigits 10 d.toNat)).map
      fun n => UInt64.ofNat n.toNat) = some d := by
  rw [ShowcaseCommand.magnitude_toDigits, Option.map_some, Int.toNat_natCast, UInt64.ofNat_toNat]

/-- The bit pattern in decimal notation, which is right for zero. -/
def bits : DoubleCodec where
  write d := Nat.toDigits 10 d.toNat
  read text := (SignedDecimal.magnitude SignedDecimal.ascii.digitOf text).map fun n =>
    .ofNat n.toNat
  isNumber_write d _ := isNumber_toDigits d.toNat
  ascii_write d _ := toDigits_ascii d.toNat
  read_write d _ := read_toDigits d

def byteOf (c : Char) : UInt8 := .ofNat c.toNat

end FeatureTransports

end NativeInterop
