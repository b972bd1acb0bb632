import NativeInterop.LittleEndian
import Mathlib.Tactic.Common

/-!
# The framed-protobuf envelope

The messages of `dni_frame.proto`.  A 32-bit field is a `BitVec 32`; the double
`elapsed_ms` is carried as its 64 bits.  The generated encoders and parsers are
represented by `EnvelopeCodec`, whose two laws are the parts of the proto3
specification the transport relies on.
-/

namespace NativeInterop

namespace Pb

structure FeatureDescriptorPb where
  id : String
  title : String
  version : String
  code : String
  expected : String
  deriving DecidableEq, Repr

structure FeatureRunPb where
  id : String
  result : String
  elapsedMs : BitVec 64
  ok : Bool
  deriving DecidableEq, Repr

structure RagChunk where
  index : BitVec 32
  text : String
  final : Bool
  deriving DecidableEq, Repr

structure ErrorFrame where
  code : BitVec 32
  message : String
  deriving DecidableEq, Repr

structure HandshakeOffer where
  kemPublicKey : Bytes
  sigPublicKey : Bytes
  signature : Bytes
  kemAlgorithm : String
  sigAlgorithm : String
  cipher : String
  sessionId : Bytes
  deriving DecidableEq, Repr

inductive Body where
  | features
  | run (id : String)
  | rag (query : String)
  | ping
  | bench (command : String)
  | featuresResponse (features : List FeatureDescriptorPb)
  | runResponse (run : Option FeatureRunPb)
  | ragChunk (chunk : RagChunk)
  | pingResponse (reply : String)
  | error (error : ErrorFrame)
  | handshakeOffer (offer : HandshakeOffer)
  | handshakeReply (ciphertext : Bytes)
  deriving DecidableEq, Repr

structure Envelope where
  requestId : String
  body : Option Body
  deriving DecidableEq, Repr

/-- `Envelope.BodyOneofCase` as the engine prints it. -/
def Envelope.bodyCase (envelope : Envelope) : String :=
  match envelope.body with
  | none => "None"
  | some .features => "Features"
  | some (.run _) => "Run"
  | some (.rag _) => "Rag"
  | some .ping => "Ping"
  | some (.bench _) => "Bench"
  | some (.featuresResponse _) => "FeaturesResponse"
  | some (.runResponse _) => "RunResponse"
  | some (.ragChunk _) => "RagChunk"
  | some (.pingResponse _) => "PingResponse"
  | some (.error _) => "Error"
  | some (.handshakeOffer _) => "HandshakeOffer"
  | some (.handshakeReply _) => "HandshakeReply"

/-- `Envelope.BodyCase` as the Android client prints it. -/
def Envelope.bodyCaseKotlin (envelope : Envelope) : String :=
  match envelope.body with
  | none => "BODY_NOT_SET"
  | some .features => "FEATURES"
  | some (.run _) => "RUN"
  | some (.rag _) => "RAG"
  | some .ping => "PING"
  | some (.bench _) => "BENCH"
  | some (.featuresResponse _) => "FEATURES_RESPONSE"
  | some (.runResponse _) => "RUN_RESPONSE"
  | some (.ragChunk _) => "RAG_CHUNK"
  | some (.pingResponse _) => "PING_RESPONSE"
  | some (.error _) => "ERROR"
  | some (.handshakeOffer _) => "HANDSHAKE_OFFER"
  | some (.handshakeReply _) => "HANDSHAKE_REPLY"

/-- A conforming pair of encoder and parser; the parser returns nothing where
the generated code throws. -/
structure EnvelopeCodec where
  serialize : Envelope → Bytes
  parse : Bytes → Option Envelope
  parse_serialize : ∀ envelope, parse (serialize envelope) = some envelope
  serialize_ne_nil : ∀ envelope, envelope.body ≠ none → serialize envelope ≠ []

end Pb

end NativeInterop
