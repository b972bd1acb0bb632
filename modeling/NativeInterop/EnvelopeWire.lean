import NativeInterop.Envelope
import NativeInterop.ProtoWire
import Mathlib.Tactic

/-!
# The proto3 encoding of envelopes

A conforming `EnvelopeCodec`: the messages of `dni_frame.proto` under their
field numbers.  A later body replaces an earlier one.
-/

namespace NativeInterop

namespace Pb

open ProtoWire

def stringField (number : ℕ) (text : String) : List Field :=
  bytesField number (utf8 text)

def readString (number : ℕ) (fields : List Field) : Option String :=
  ofUtf8 (bytesOf (lookup number fields))

/-- An `int32` is sign-extended to 64 bits. -/
def int32Field (number : ℕ) (value : BitVec 32) : List Field :=
  varintField number (value.signExtend 64).toNat

def readInt32 (number : ℕ) (fields : List Field) : BitVec 32 :=
  BitVec.ofNat 32 (varintOf (lookup number fields))

def boolField (number : ℕ) (value : Bool) : List Field :=
  varintField number value.toNat

def readBool (number : ℕ) (fields : List Field) : Bool :=
  varintOf (lookup number fields) ≠ 0

def FeatureDescriptorPb.fields (d : FeatureDescriptorPb) : List Field :=
  stringField 1 d.id ++ stringField 2 d.title ++ stringField 3 d.version ++
    stringField 4 d.code ++ stringField 5 d.expected

def FeatureDescriptorPb.ofFields (fields : List Field) :
    Option FeatureDescriptorPb := do
  let id ← readString 1 fields
  let title ← readString 2 fields
  let version ← readString 3 fields
  let code ← readString 4 fields
  let expected ← readString 5 fields
  some ⟨id, title, version, code, expected⟩

def FeatureRunPb.fields (run : FeatureRunPb) : List Field :=
  stringField 1 run.id ++ stringField 2 run.result ++
    fixed64Field 3 run.elapsedMs ++ boolField 4 run.ok

def FeatureRunPb.ofFields (fields : List Field) : Option FeatureRunPb := do
  let id ← readString 1 fields
  let result ← readString 2 fields
  some ⟨id, result, fixed64Of (lookup 3 fields), readBool 4 fields⟩

def RagChunk.fields (chunk : RagChunk) : List Field :=
  int32Field 1 chunk.index ++ stringField 2 chunk.text ++ boolField 3 chunk.final

def RagChunk.ofFields (fields : List Field) : Option RagChunk := do
  let text ← readString 2 fields
  some ⟨readInt32 1 fields, text, readBool 3 fields⟩

def ErrorFrame.fields (error : ErrorFrame) : List Field :=
  int32Field 1 error.code ++ stringField 2 error.message

def ErrorFrame.ofFields (fields : List Field) : Option ErrorFrame := do
  let message ← readString 2 fields
  some ⟨readInt32 1 fields, message⟩

def HandshakeOffer.fields (offer : HandshakeOffer) : List Field :=
  bytesField 1 offer.kemPublicKey ++ bytesField 2 offer.sigPublicKey ++
    bytesField 3 offer.signature ++ stringField 4 offer.kemAlgorithm ++
    stringField 5 offer.sigAlgorithm ++ stringField 6 offer.cipher ++
    bytesField 7 offer.sessionId

def HandshakeOffer.ofFields (fields : List Field) : Option HandshakeOffer := do
  let kemAlgorithm ← readString 4 fields
  let sigAlgorithm ← readString 5 fields
  let cipher ← readString 6 fields
  some {
    kemPublicKey := bytesOf (lookup 1 fields)
    sigPublicKey := bytesOf (lookup 2 fields)
    signature := bytesOf (lookup 3 fields)
    kemAlgorithm := kemAlgorithm
    sigAlgorithm := sigAlgorithm
    cipher := cipher
    sessionId := bytesOf (lookup 7 fields) }

def readRepeated {α : Type} (number : ℕ) (read : List Field → Option α)
    (fields : List Field) : Option (List α) :=
  (fields.filter fun field => field.number = number).mapM fun field => do
    let content ← readFields (bytesOf (some field.value))
    read content

def Body.number : Body → ℕ
  | .features => 2
  | .run _ => 3
  | .rag _ => 4
  | .ping => 5
  | .bench _ => 6
  | .featuresResponse _ => 7
  | .runResponse _ => 8
  | .ragChunk _ => 9
  | .pingResponse _ => 10
  | .error _ => 11
  | .handshakeOffer _ => 12
  | .handshakeReply _ => 13

def Body.fields : Body → List Field
  | .features => []
  | .run id => stringField 1 id
  | .rag query => stringField 1 query
  | .ping => []
  | .bench command => stringField 1 command
  | .featuresResponse descriptors =>
      descriptors.map fun d => ⟨1, .bytes (encodeFields d.fields)⟩
  | .runResponse none => []
  | .runResponse (some result) => [⟨1, .bytes (encodeFields result.fields)⟩]
  | .ragChunk chunk => chunk.fields
  | .pingResponse reply => stringField 1 reply
  | .error frame => frame.fields
  | .handshakeOffer offer => offer.fields
  | .handshakeReply ciphertext => bytesField 1 ciphertext

def Body.ofFields (number : ℕ) (fields : List Field) : Option Body :=
  match number with
  | 2 => some .features
  | 3 => (readString 1 fields).map .run
  | 4 => (readString 1 fields).map .rag
  | 5 => some .ping
  | 6 => (readString 1 fields).map .bench
  | 7 => (readRepeated 1 FeatureDescriptorPb.ofFields fields).map .featuresResponse
  | 8 =>
      match lookup 1 fields with
      | none => some (.runResponse none)
      | some value => do
          let content ← readFields (bytesOf (some value))
          let run ← FeatureRunPb.ofFields content
          some (.runResponse (some run))
  | 9 => (RagChunk.ofFields fields).map .ragChunk
  | 10 => (readString 1 fields).map .pingResponse
  | 11 => (ErrorFrame.ofFields fields).map .error
  | 12 => (HandshakeOffer.ofFields fields).map .handshakeOffer
  | 13 => some (.handshakeReply (bytesOf (lookup 1 fields)))
  | _ => none

def Envelope.fields (envelope : Envelope) : List Field :=
  stringField 1 envelope.requestId ++
    match envelope.body with
    | none => []
    | some body => [⟨body.number, .bytes (encodeFields body.fields)⟩]

def isBody (field : Field) : Bool :=
  2 ≤ field.number ∧ field.number ≤ 13

def Envelope.ofFields (fields : List Field) : Option Envelope := do
  let requestId ← readString 1 fields
  match (fields.filter isBody).getLast? with
  | none => some ⟨requestId, none⟩
  | some field =>
      let content ← readFields (bytesOf (some field.value))
      let body ← Body.ofFields field.number content
      some ⟨requestId, some body⟩

/-! ## Round trips -/

theorem setWidth_signExtend (value : BitVec 32) :
    (value.signExtend 64).setWidth 32 = value := by
  ext i hi
  have hlt : i < 64 := by omega
  simp [hlt, BitVec.getElem_signExtend, hi]

theorem FeatureDescriptorPb.ofFields_fields (d : FeatureDescriptorPb) :
    FeatureDescriptorPb.ofFields d.fields = some d := by
  simp [ofFields, fields, readString, stringField, lookup_bytesField_ne]

theorem FeatureRunPb.ofFields_fields (run : FeatureRunPb) :
    FeatureRunPb.ofFields run.fields = some run := by
  simp [ofFields, fields, readString, readBool, stringField, boolField,
    lookup_bytesField_ne, lookup_fixed64Field_ne, lookup_varintField_ne]

theorem RagChunk.ofFields_fields (chunk : RagChunk) :
    RagChunk.ofFields chunk.fields = some chunk := by
  simp [ofFields, fields, readString, readInt32, readBool, stringField,
    boolField, int32Field, lookup_bytesField_ne, lookup_varintField_ne,
    setWidth_signExtend]

theorem ErrorFrame.ofFields_fields (error : ErrorFrame) :
    ErrorFrame.ofFields error.fields = some error := by
  simp [ofFields, fields, readString, readInt32, stringField, int32Field,
    lookup_bytesField_ne, lookup_varintField_ne, setWidth_signExtend]

theorem HandshakeOffer.ofFields_fields (offer : HandshakeOffer) :
    HandshakeOffer.ofFields offer.fields = some offer := by
  simp [ofFields, fields, readString, stringField, lookup_bytesField_ne]

theorem readRepeated_map {α : Type} {read : List Field → Option α}
    {write : α → List Field} (hread : ∀ a, read (write a) = some a)
    (number : ℕ) (items : List α) :
    readRepeated number read
      (items.map fun a => ⟨number, .bytes (encodeFields (write a))⟩) =
        some items := by
  unfold readRepeated
  induction items with
  | nil => rfl
  | cons item items ih =>
      simp only [List.map_cons, List.filter_cons, decide_true, if_true] at ih ⊢
      simp [List.mapM_cons, bytesOf, readFields_encodeFields, hread] at ih ⊢
      simp [ih]

theorem Body.ofFields_fields (body : Body) :
    Body.ofFields body.number body.fields = some body := by
  cases body with
  | features => rfl
  | run id => simp [ofFields, number, fields, readString, stringField]
  | rag query => simp [ofFields, number, fields, readString, stringField]
  | ping => rfl
  | bench command => simp [ofFields, number, fields, readString, stringField]
  | featuresResponse descriptors =>
      simp [ofFields, number, fields,
        readRepeated_map FeatureDescriptorPb.ofFields_fields]
  | runResponse result =>
      cases result with
      | none => rfl
      | some result =>
          simp [ofFields, number, fields, bytesOf, readFields_encodeFields,
            FeatureRunPb.ofFields_fields]
  | ragChunk chunk => simp [ofFields, number, fields, RagChunk.ofFields_fields]
  | pingResponse reply => simp [ofFields, number, fields, readString, stringField]
  | error error => simp [ofFields, number, fields, ErrorFrame.ofFields_fields]
  | handshakeOffer offer =>
      simp [ofFields, number, fields, HandshakeOffer.ofFields_fields]
  | handshakeReply ciphertext => simp [ofFields, number, fields]

theorem filter_isBody_stringField (text : String) :
    (stringField 1 text).filter isBody = [] := by
  unfold stringField bytesField
  split_ifs <;> simp [isBody]

theorem isBody_number (body : Body) (content : Bytes) :
    isBody ⟨body.number, .bytes content⟩ = true := by
  cases body <;> simp [isBody, Body.number]

theorem Body.number_ne_one (body : Body) : body.number ≠ 1 := by
  cases body <;> simp [Body.number]

theorem Envelope.ofFields_fields (envelope : Envelope) :
    Envelope.ofFields envelope.fields = some envelope := by
  obtain ⟨requestId, body⟩ := envelope
  cases body with
  | none =>
      have hid : readString 1 (stringField 1 requestId) = some requestId := by
        simp [readString, stringField]
      simp only [ofFields, fields, List.append_nil, hid, filter_isBody_stringField]
      rfl
  | some body =>
      have hid : readString 1 (stringField 1 requestId ++
          [⟨body.number, .bytes (encodeFields body.fields)⟩]) =
            some requestId := by
        simp [readString, stringField, body.number_ne_one]
      simp [ofFields, fields, hid, filter_isBody_stringField, isBody_number,
        bytesOf, readFields_encodeFields, Body.ofFields_fields]

def proto3 : EnvelopeCodec where
  serialize envelope := encodeFields envelope.fields
  parse bytes := (readFields bytes).bind Envelope.ofFields
  parse_serialize envelope := by
    simp [readFields_encodeFields, Envelope.ofFields_fields]
  serialize_ne_nil envelope hbody := by
    obtain ⟨requestId, body⟩ := envelope
    cases body with
    | none => exact absurd rfl hbody
    | some body =>
        simp [Envelope.fields, encodeFields, encodeField_ne_nil]

end Pb

end NativeInterop
