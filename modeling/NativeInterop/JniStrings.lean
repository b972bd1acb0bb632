import NativeInterop.FfiSessions
import NativeInterop.TokenBoundaries
import NativeInterop.Utf16
import NativeInterop.Utf8Decoding

/-!
# Java strings in managed code

The bridge passes `GetStringUTFChars` of a Java string to the exports: JNI's modified UTF-8,
in which each half of a surrogate pair has three bytes of its own.  The exports read plain
UTF-8.  The two encodings agree on the Basic Multilingual Plane without NUL, and nowhere
else.
-/

namespace NativeInterop.Jni

open LlamaLanguageModel Utf8State TokenBoundaries

/-! ## The bridge and the exports -/

/-- A code unit in modified UTF-8. -/
def modifiedUtf8 (unit : UInt16) : List UInt8 :=
  if unit ≠ 0 ∧ unit.toNat < 0x80 then [UInt8.ofNat unit.toNat]
  else if unit.toNat < 0x800 then two unit.toNat
  else three unit.toNat

def getStringUtfChars (text : List UInt16) : List UInt8 :=
  text.flatMap modifiedUtf8 ++ [0]

/-- `NativeText.Read`; no bytes are a null pointer. -/
def nativeTextRead (utf8 : Option (List UInt8)) : String :=
  utf8.elim "" ptrToStringUTF8

/-- The text `dni_session_start` makes its request of. -/
def sessionStart (initialized : Bool) (prompt : Option (List UInt8)) (maxTokens : BitVec 32)
    (negativeTemperature : Bool) : Except NativeStatus String :=
  if initialized = false then .error .notInitialized
  else if prompt = none then .error .invalidArgument
  else if maxTokens.toInt ≤ 0 ∨ negativeTemperature = true then .error .invalidArgument
  else .ok (nativeTextRead prompt)

def ragSessionStart : Bool → Option (List UInt8) → BitVec 32 → Bool → Except NativeStatus String :=
  sessionStart

def agentSessionStart (initialized : Bool) (query : Option (List UInt8)) :
    Except NativeStatus String :=
  if initialized = false then .error .notInitialized
  else if query = none then .error .invalidArgument
  else .ok (nativeTextRead query)

def startStreaming (initialized : Bool) (text : Option (List UInt16)) (maxTokens : BitVec 32)
    (negativeTemperature listener isRag : Bool) : Except NativeStatus String :=
  match text with
  | none => .error .invalidArgument
  | some text =>
      if listener = false then .error .invalidArgument
      else
        let start := if isRag then ragSessionStart else sessionStart
        start initialized (some (getStringUtfChars text)) maxTokens negativeTemperature

def jAgentSessionStart (initialized : Bool) (query : Option (List UInt16)) (listener : Bool) :
    Except NativeStatus String :=
  match query with
  | none => .error .invalidArgument
  | some query =>
      if listener = false then .error .invalidArgument
      else agentSessionStart initialized (some (getStringUtfChars query))

/-- The id `dni_feature_run` looks up. -/
def jFeatureRun (id : Option (List UInt16)) : Option String :=
  id.map fun id => nativeTextRead (some (getStringUtfChars id))

def jSqliteRag (q : Option (List UInt16)) : Option String :=
  q.map fun q => nativeTextRead (some (getStringUtfChars q))

/-- The query and the name of the corpus. -/
def jSearch (q c : Option (List UInt16)) : Option (String × String) :=
  q.bind fun q => c.map fun c =>
    (nativeTextRead (some (getStringUtfChars q)), nativeTextRead (some (getStringUtfChars c)))

/-- A function of the bridge, with its arguments other than the text. -/
inductive EntryPoint where
  | startStreaming (initialized : Bool) (maxTokens : BitVec 32)
      (negativeTemperature listener isRag : Bool)
  | jAgentSessionStart (initialized listener : Bool)
  | jFeatureRun
  | jSearch (c : Option (List UInt16))
  | jSqliteRag
  deriving DecidableEq, Repr

/-- The text that managed code obtains, where it comes to that. -/
def EntryPoint.obtained (s : List UInt16) : EntryPoint → Option String
  | .startStreaming initialized maxTokens negativeTemperature listener isRag =>
      (Jni.startStreaming initialized (some s) maxTokens negativeTemperature listener
        isRag).toOption
  | .jAgentSessionStart initialized listener =>
      (Jni.jAgentSessionStart initialized (some s) listener).toOption
  | .jFeatureRun => Jni.jFeatureRun (some s)
  | .jSearch c => (Jni.jSearch (some s) c).map Prod.fst
  | .jSqliteRag => Jni.jSqliteRag (some s)

theorem EntryPoint.obtained_eq {entry : EntryPoint} {s : List UInt16} {text : String}
    (hobtained : entry.obtained s = some text) : text = ptrToStringUTF8 (getStringUtfChars s) := by
  cases entry with
  | startStreaming initialized maxTokens negativeTemperature listener isRag =>
      have hstart : (if isRag then ragSessionStart else sessionStart) = sessionStart := ite_self _
      simp only [obtained, Jni.startStreaming, hstart, sessionStart] at hobtained
      split_ifs at hobtained <;> cases hobtained
      rfl
  | jAgentSessionStart initialized listener =>
      simp only [obtained, Jni.jAgentSessionStart, agentSessionStart] at hobtained
      split_ifs at hobtained <;> cases hobtained
      rfl
  | jFeatureRun =>
      cases hobtained
      rfl
  | jSearch c =>
      cases c with
      | none => cases hobtained
      | some c =>
          cases hobtained
          rfl
  | jSqliteRag =>
      cases hobtained
      rfl

/-! ## Modified UTF-8 read as UTF-8 -/

theorem zero_notMem_modifiedUtf8 (unit : UInt16) : (0 : UInt8) ∉ modifiedUtf8 unit := by
  have hrange := unit.toNat_lt
  unfold modifiedUtf8
  split_ifs with hascii htwo
  · have hpos : unit.toNat ≠ 0 := fun hzero => hascii.1 (UInt16.toNat_inj.mp hzero)
    rw [List.mem_singleton]
    exact zero_ne_ofNat (by omega) (by omega)
  · rw [two, List.mem_cons, List.mem_singleton, not_or]
    exact ⟨zero_ne_ofNat (by omega) (by omega), zero_ne_ofNat (by omega) (by omega)⟩
  · rw [three, List.mem_cons, List.mem_cons, List.mem_singleton, not_or, not_or]
    exact ⟨zero_ne_ofNat (by omega) (by omega), zero_ne_ofNat (by omega) (by omega),
      zero_ne_ofNat (by omega) (by omega)⟩

theorem ptrToStringUTF8_getStringUtfChars (s : List UInt16) :
    ptrToStringUTF8 (getStringUtfChars s) =
      .ofList (({} : Utf8State).decode (s.flatMap modifiedUtf8)) := by
  have hnonzero : ∀ byte ∈ s.flatMap modifiedUtf8, decide (byte ≠ 0) = true := by
    intro byte hbyte
    obtain ⟨unit, -, hunit⟩ := List.mem_flatMap.mp hbyte
    refine decide_eq_true ?_
    rintro rfl
    exact zero_notMem_modifiedUtf8 unit hunit
  rw [ptrToStringUTF8, getStringUtfChars, List.takeWhile_append_of_pos hnonzero]
  simp

/-- What is read of a character other than NUL. -/
def received (c : Char) : List Char :=
  if c.toNat < 0x10000 then [c] else List.replicate 6 '\uFFFD'

theorem decode_units {c : Char} (hnul : c ≠ '\x00') (rest : List UInt8) :
    ({} : Utf8State).decode ((Utf16.units c).flatMap modifiedUtf8 ++ rest) =
      received c ++ ({} : Utf8State).decode rest := by
  have hvalid : c.toNat < 0xD800 ∨ (0xDFFF < c.toNat ∧ c.toNat < 0x110000) := c.valid
  unfold Utf16.units received
  split_ifs with hplane
  · have hunit : (UInt16.ofNat c.toNat).toNat = c.toNat := UInt16.toNat_ofNat_of_lt' hplane
    have hzero : UInt16.ofNat c.toNat ≠ 0 := by
      intro hzero
      have hvalue := congrArg UInt16.toNat hzero
      rw [hunit] at hvalue
      refine hnul ?_
      rw [← Char.ofNat_toNat c, hvalue]
      rfl
    have hutf8 : modifiedUtf8 (UInt16.ofNat c.toNat) = String.utf8EncodeChar c := by
      rw [utf8EncodeChar_eq, modifiedUtf8, hunit]
      simp only [hzero, ne_eq, not_false_eq_true, true_and, if_pos hplane]
    rw [List.flatMap_singleton, hutf8, decode_utf8EncodeChar]
    rfl
  · -- both halves are written as if they were characters
    have hhalf : ∀ n, 0xD800 ≤ n → n < 0xE000 →
        modifiedUtf8 (UInt16.ofNat n) = three n := by
      intro n hlow hhigh
      have hunit : (UInt16.ofNat n).toNat = n := UInt16.toNat_ofNat_of_lt' (by
        show n < 65536
        omega)
      rw [modifiedUtf8, hunit, if_neg (by omega), if_neg (by omega)]
    rw [List.flatMap_cons, List.flatMap_singleton, hhalf _ (by omega) (by omega),
      hhalf _ (by omega) (by omega), List.append_assoc,
      decode_surrogate (by omega) (by omega), decode_surrogate (by omega) (by omega)]
    rfl

theorem decode_encode {text : List Char} (hnul : '\x00' ∉ text) :
    ({} : Utf8State).decode ((Utf16.encode text).flatMap modifiedUtf8) =
      text.flatMap received := by
  induction text with
  | nil => rfl
  | cons c text ih =>
      rw [List.mem_cons, not_or] at hnul
      rw [Utf16.encode, List.flatMap_cons, List.flatMap_append, ← Utf16.encode,
        decode_units (Ne.symm hnul.1), ih hnul.2, List.flatMap_cons]

theorem length_le_received (text : List Char) : text.length ≤ (text.flatMap received).length := by
  induction text with
  | nil => exact le_rfl
  | cons c text ih =>
      have hone : 1 ≤ (received c).length := by
        unfold received
        split_ifs <;> simp
      rw [List.flatMap_cons, List.length_append, List.length_cons]
      omega

/-- A text comes through exactly if each of its characters does. -/
theorem flatMap_received_eq_iff (text : List Char) :
    text.flatMap received = text ↔ ∀ c ∈ text, c.toNat < 0x10000 := by
  constructor
  · intro hsame c hc
    by_contra hplane
    obtain ⟨front, behind, rfl⟩ := List.append_of_mem hc
    have hfront := length_le_received front
    have hbehind := length_le_received behind
    have hlength := congrArg List.length hsame
    have hsix : (received c).length = 6 := by
      rw [received, if_neg hplane, List.length_replicate]
    rw [List.flatMap_append, List.flatMap_cons, List.length_append, List.length_append,
      List.length_append, List.length_cons, hsix] at hlength
    omega
  · intro hplane
    have hsame : text.flatMap received = text.flatMap fun c => [c] :=
      List.flatMap_congr fun c hc => if_pos (hplane c hc)
    rw [hsame, List.flatMap_singleton']

/-! ## Well-formed strings -/

theorem isHigh_encode_iff (text : List Char) :
    (∀ unit ∈ Utf16.encode text, Utf16.isHigh unit = false) ↔ ∀ c ∈ text, c.toNat < 0x10000 := by
  constructor
  · intro hunits c hc
    by_contra hplane
    rcases Utf16.units_cases c with ⟨unit, heq, -⟩ | ⟨high, low, heq, hhigh, -⟩
    · rw [Utf16.units, if_neg hplane] at heq
      cases heq
    · have hmem : high ∈ Utf16.encode text := List.mem_flatMap.mpr ⟨c, hc, by simp [heq]⟩
      rw [hunits high hmem] at hhigh
      cases hhigh
  · intro hplane unit hunit
    obtain ⟨c, hc, hin⟩ := List.mem_flatMap.mp hunit
    rcases Utf16.units_cases c with ⟨other, heq, hhigh, -⟩ | ⟨high, low, heq, -⟩
    · rw [heq, List.mem_singleton] at hin
      exact hin ▸ hhigh
    · rw [Utf16.units, if_pos (hplane c hc)] at heq
      cases heq

/-- A well-formed string without NUL reaches managed code unchanged exactly if it has no
surrogates, whichever function of the bridge takes it there. -/
theorem obtained_unchanged_iff (entry : EntryPoint) (s : List UInt16) (text : String)
    (hvalid : (Utf16.decode s).isSome) (hnul : 0 ∉ s) (hobtained : entry.obtained s = some text) :
    Utf16.encode text.toList = s ↔ ∀ unit ∈ s, Utf16.isHigh unit = false := by
  obtain ⟨chars, hchars⟩ := Option.isSome_iff_exists.mp hvalid
  obtain rfl := Utf16.encode_of_decode hchars
  have hnul : '\x00' ∉ chars := fun hmem => hnul (List.mem_flatMap.mpr ⟨_, hmem, by decide⟩)
  have htext : text.toList = chars.flatMap received := by
    rw [EntryPoint.obtained_eq hobtained, ptrToStringUTF8_getStringUtfChars, String.toList_ofList,
      decode_encode hnul]
  rw [isHigh_encode_iff, ← flatMap_received_eq_iff, htext]
  constructor
  · intro hsame
    have hread := congrArg Utf16.decode hsame
    rw [Utf16.decode_encode, Utf16.decode_encode] at hread
    exact Option.some.inj hread
  · exact congrArg Utf16.encode

theorem obtained_unchanged_accent :
    Utf16.encode "é".toList = [0xE9] ↔ ∀ unit ∈ [(0xE9 : UInt16)], Utf16.isHigh unit = false :=
  obtained_unchanged_iff .jFeatureRun [0xE9] "é" (by decide) (by decide) (by decide)

/-- U+1F600 arrives as six replacement characters. -/
theorem emoji_replaced :
    Utf16.decode [0xD83D, 0xDE00] = some ['😀'] ∧
    EntryPoint.obtained [0xD83D, 0xDE00] (.startStreaming true 256 false true false) =
      some "\uFFFD\uFFFD\uFFFD\uFFFD\uFFFD\uFFFD" ∧
    Utf16.encode "\uFFFD\uFFFD\uFFFD\uFFFD\uFFFD\uFFFD".toList ≠ [0xD83D, 0xDE00] := by
  decide

end NativeInterop.Jni
