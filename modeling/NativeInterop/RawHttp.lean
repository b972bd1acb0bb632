import NativeInterop.EventStream
import NativeInterop.InferenceSession
import NativeInterop.Json
import NativeInterop.ProtoWire
import Mathlib.Tactic

/-!
# The raw HTTP stream

The loopback server writes each token as one server-sent event whose data is a small
JSON object, with an escaping of its own.  A client reads the events and decodes the
objects; whatever the texts are, it gets the tokens back.
-/

namespace NativeInterop

namespace RawHttp

open ProtoWire

/-- One character in `JsonString`. -/
def escape (c : Char) : List Char :=
  if c = '"' then ['\\', '"']
  else if c = '\\' then ['\\', '\\']
  else if c = '\n' then ['\\', 'n']
  else if c = '\r' then ['\\', 'r']
  else if c = '\t' then ['\\', 't']
  else if c.toNat < 0x20 then Json.unicode Nat.digitChar c.toNat
  else [c]

def jsonString (value : String) : List Char :=
  '"' :: (value.toList.flatMap escape ++ ['"'])

/-- The interpolated string of the `/rag` and the showcase route. -/
def sse (token : InferenceToken) : List Char :=
  "data: \x7b\"index\":".toList ++ Json.integer token.index.toInt ++ ",\"text\":".toList ++
    jsonString token.text ++ ",\"final\":".toList ++
    (if token.isFinal then "true" else "false").toList ++ "\x7d\n\n".toList

/-- What the server writes for a list of tokens, in UTF-8. -/
def writeStream (tokens : List InferenceToken) : Bytes :=
  tokens.flatMap fun token => utf8 (.ofList (sse token))

/-- A client's decoder of one event: an index in the range of an `Int`, a text and a
flag. -/
def decodeToken (data : List Char) : Option InferenceToken := do
  let json ← Json.parse data
  let index ← (json.field "index").bind Json.asInt
  let text ← (json.field "text").bind Json.asString
  let isFinal ← (json.field "final").bind Json.asBool
  if -2 ^ 31 ≤ index ∧ index < 2 ^ 31 then some ⟨BitVec.ofInt 32 index, text, isFinal⟩
  else none

def readStream (bytes : Bytes) : Option (List InferenceToken) := do
  let text ← ofUtf8 bytes
  (EventStream.events text.toList).mapM decodeToken

/-! ## The escaping -/

theorem hexDigit_digitChar : ∀ n < 16, Json.hexDigit (Nat.digitChar n) = some n := by
  decide

theorem escape_escaping : Json.Escaping escape where
  reads := by
    intro c rest
    unfold escape
    split_ifs with hquote hslash hfeed hreturn htab hcontrol
    · subst hquote
      rfl
    · subst hslash
      rfl
    · subst hfeed
      rfl
    · subst hreturn
      rfl
    · subst htab
      rfl
    · exact Json.readChar_unicode hexDigit_digitChar (by omega) rest
    · simp [Json.readChar, hslash, hcontrol]
  unquoted := by
    intro c
    unfold escape
    split_ifs with hquote <;> simp [Json.unicode, hquote]

theorem escape_printable (c : Char) : ∀ d ∈ escape c, 0x20 ≤ d.toNat := by
  have hhex : ∀ n < 16, 0x20 ≤ (Nat.digitChar n).toNat := by decide
  have hmarked : ∀ mark : Char, 0x20 ≤ mark.toNat → ∀ d ∈ ['\\', mark], 0x20 ≤ d.toNat := by
    intro mark hmark
    simp [hmark]
  intro d hmem
  unfold escape at hmem
  split_ifs at hmem with hquote hslash hfeed hreturn htab hcontrol
  · exact hmarked _ (by decide) d hmem
  · exact hmarked _ (by decide) d hmem
  · exact hmarked _ (by decide) d hmem
  · exact hmarked _ (by decide) d hmem
  · exact hmarked _ (by decide) d hmem
  · simp only [Json.unicode, Json.hex4, List.mem_cons, List.not_mem_nil, or_false] at hmem
    rcases hmem with rfl | rfl | rfl | rfl | rfl | rfl
    · decide
    · decide
    · exact hhex _ (Nat.mod_lt _ (by decide))
    · exact hhex _ (Nat.mod_lt _ (by decide))
    · exact hhex _ (Nat.mod_lt _ (by decide))
    · exact hhex _ (Nat.mod_lt _ (by decide))
  · rw [List.mem_singleton.mp hmem]
    omega

/-- Beyond ASCII nothing is escaped. -/
theorem escape_large {c : Char} (hlarge : 0x80 ≤ c.toNat) : escape c = [c] := by
  have hne : ∀ d : Char, d.toNat < 0x80 → c ≠ d := by
    rintro d hd rfl
    omega
  have hcontrol : ¬ c.toNat < 0x20 := by omega
  simp [escape, hne '"' (by decide), hne '\\' (by decide), hne '\n' (by decide),
    hne '\r' (by decide), hne '\t' (by decide), hcontrol]

/-! ## The stream -/

def members (token : InferenceToken) : List (String × Json.Scalar) :=
  [("index", .int token.index.toInt), ("text", .string token.text),
    ("final", .bool token.isFinal)]

theorem toList_opening : "data: \x7b\"index\":".toList =
    ['d', 'a', 't', 'a', ':', ' '] ++ '\x7b' :: (Json.quote escape "index" ++ [':']) := by
  decide

theorem toList_text : ",\"text\":".toList = ',' :: (Json.quote escape "text" ++ [':']) := by
  decide

theorem toList_final : ",\"final\":".toList = ',' :: (Json.quote escape "final" ++ [':']) := by
  decide

theorem toList_closing : "\x7d\n\n".toList = ['\x7d', '\n', '\n'] := by
  decide

theorem toList_bool (value : Bool) :
    (if value then "true" else "false").toList = (Json.Scalar.bool value).write escape := by
  cases value <;> rfl

/-- The data of an event is a compact JSON object. -/
theorem sse_eq (token : InferenceToken) :
    sse token = EventStream.frame (Json.writeObject escape (members token)) := by
  have hstring : jsonString token.text = (Json.Scalar.string token.text).write escape := rfl
  have hint : Json.integer token.index.toInt =
      (Json.Scalar.int token.index.toInt).write escape := rfl
  unfold sse
  rw [toList_opening, toList_text, toList_final, toList_closing, toList_bool, hstring, hint]
  simp only [EventStream.frame, Json.writeObject, Json.writeMembers, Json.writeMember, members,
    List.append_assoc, List.cons_append, List.nil_append]

theorem decodeToken_writeObject (token : InferenceToken) :
    decodeToken (Json.writeObject escape (members token)) = some token := by
  have hlow := token.index.le_toInt
  have hhigh := token.index.toInt_lt
  simp [decodeToken, Json.parse_writeObject escape_escaping, members, Json.field,
    Json.Scalar.json, Json.asInt_integer, Json.asString, Json.asBool]
  constructor <;> omega

theorem writeObject_oneLine (token : InferenceToken) :
    ∀ c ∈ Json.writeObject escape (members token), c ≠ '\n' ∧ c ≠ '\r' := by
  intro c hc
  have hprintable := Json.printable_writeObject escape_printable (members token) c hc
  constructor
  · rintro rfl
    exact absurd hprintable (by decide)
  · rintro rfl
    exact absurd hprintable (by decide)

theorem utf8_append (first second : String) :
    utf8 (first ++ second) = utf8 first ++ utf8 second := by
  simp [utf8, ByteArray.data_append]

theorem writeStream_eq (tokens : List InferenceToken) :
    writeStream tokens = utf8 (.ofList (tokens.flatMap sse)) := by
  induction tokens with
  | nil => rfl
  | cons token tokens ih =>
      have hrest : writeStream (token :: tokens) =
          utf8 (.ofList (sse token)) ++ writeStream tokens := rfl
      rw [hrest, ih, List.flatMap_cons, String.ofList_append, utf8_append]

/-- The events of the written frames are the written objects. -/
theorem events_stream (tokens : List InferenceToken) :
    EventStream.events (tokens.flatMap sse) =
      tokens.map fun token => Json.writeObject escape (members token) := by
  have hframes : tokens.flatMap sse =
      (tokens.map fun token => Json.writeObject escape (members token)).flatMap
        EventStream.frame := by
    rw [List.flatMap_map]
    exact List.flatMap_congr fun token _ => sse_eq token
  rw [hframes]
  apply EventStream.events_flatMap
  intro data hdata c hc
  obtain ⟨token, _, rfl⟩ := List.mem_map.mp hdata
  exact writeObject_oneLine token c hc

theorem readStream_writeStream (tokens : List InferenceToken) :
    readStream (writeStream tokens) = some tokens := by
  rw [writeStream_eq, readStream]
  simp only [ofUtf8_utf8, Option.bind_eq_bind, Option.bind_some, String.toList_ofList,
    events_stream]
  have hdecode : (decodeToken ∘ fun token => Json.writeObject escape (members token)) =
      fun token => pure token := funext decodeToken_writeObject
  rw [List.mapM_map, hdecode, List.mapM_pure, List.map_id']
  rfl

end RawHttp

end NativeInterop
