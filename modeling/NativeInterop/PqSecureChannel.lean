import NativeInterop.Envelope
import NativeInterop.FrameConnection
import NativeInterop.Hkdf
import Mathlib.Tactic

/-!
# The post-quantum handshake

The server's `ServerHandshakeAsync` and the three clients that answer it.  All
four run over a connection without a cipher: the server writes a signed offer,
the client verifies it, encapsulates and writes the ciphertext back, and each
side derives two directional keys from the shared secret with the salt
`ciphertext || session_id`.

The key-encapsulation and signature primitives of every party are parameters;
a primitive that throws returns nothing or its message.
-/

namespace NativeInterop

open Pb

structure PqcServerIdentity where
  kemPublicKey : Bytes
  sigPublicKey : Bytes
  sign : Bytes → Bytes
  decapsulate : Bytes → Option Bytes

/-- What a client calls: ML-DSA verification, the import of an encoded ML-KEM
public key, and encapsulation to it. -/
structure PqcClient where
  verify : Bytes → Bytes → Bytes → Except String Bool
  importKemPublicKey : Bytes → Except String Unit
  encapsulate : Bytes → Except String (Bytes × Bytes)

namespace PqSecureChannel

/-- `Encoding.ASCII.GetBytes` on ASCII text. -/
def asciiBytes (text : String) : Bytes :=
  text.toList.map fun c => UInt8.ofNat c.toNat

def infoClientToServer : Bytes := asciiBytes "dni-pb c2s v1"

def infoServerToClient : Bytes := asciiBytes "dni-pb s2c v1"

def infoClientToServerKotlin : Bytes := asciiBytes "dni-pb c2s v1"

def infoServerToClientKotlin : Bytes := asciiBytes "dni-pb s2c v1"

def infoClientToServerSwift : Bytes := asciiBytes "dni-pb c2s v1"

def infoServerToClientSwift : Bytes := asciiBytes "dni-pb s2c v1"

theorem infoClientToServer_ne : infoClientToServer ≠ infoServerToClient := by
  decide

def kemAlgorithm : String := "ML-KEM-768"

def sigAlgorithm : String := "ML-DSA-65"

def cipherAlgorithm : String := "AES-256-GCM"

variable {Key : Type*}

/-- `DeriveKeys`: the client-to-server and the server-to-client key. -/
def deriveKeys (hkdf : Bytes → Bytes → Bytes → Key)
    (sharedSecret ciphertext sessionId : Bytes) : Key × Key :=
  (hkdf sharedSecret (ciphertext ++ sessionId) infoClientToServer,
    hkdf sharedSecret (ciphertext ++ sessionId) infoServerToClient)

/-- The two session keys.  The two directions never share a key. -/
structure DirectionalKeys (Key : Type*) where
  clientToServer : Key
  serverToClient : Key
  distinct : clientToServer ≠ serverToClient

def sessionKeys (hkdf : Bytes → Bytes → Bytes → Key)
    (hlabels : ∀ ikm salt,
      hkdf ikm salt infoClientToServer ≠ hkdf ikm salt infoServerToClient)
    (sharedSecret ciphertext sessionId : Bytes) : DirectionalKeys Key where
  clientToServer := (deriveKeys hkdf sharedSecret ciphertext sessionId).1
  serverToClient := (deriveKeys hkdf sharedSecret ciphertext sessionId).2
  distinct := hlabels sharedSecret (ciphertext ++ sessionId)

def offerEnvelope (identity : PqcServerIdentity) (sessionId : Bytes) : Envelope where
  requestId := ""
  body := some (.handshakeOffer {
    kemPublicKey := identity.kemPublicKey
    sigPublicKey := identity.sigPublicKey
    signature := identity.sign (identity.kemPublicKey ++ sessionId)
    kemAlgorithm := kemAlgorithm
    sigAlgorithm := sigAlgorithm
    cipher := cipherAlgorithm
    sessionId := sessionId })

def replyEnvelope (ciphertext : Bytes) : Envelope where
  requestId := ""
  body := some (.handshakeReply ciphertext)

/-! ## The server -/

/-- Why the server's half throws: a `PqcHandshakeException` with its message,
or any other exception. -/
inductive ServerError where
  | handshake (message : String)
  | other
  deriving DecidableEq, Repr

structure ServerHandshakeResult (Key : Type*) where
  cipher : AeadFrameCipher Key
  kemPublicKeyBytes : ℕ
  ciphertextBytes : ℕ
  sharedSecretBytes : ℕ

def decapsulateReply (codec : EnvelopeCodec) (identity : PqcServerIdentity)
    (replyBytes : Bytes) : Except ServerError (Bytes × Bytes) :=
  match codec.parse replyBytes with
  | none => .error .other
  | some reply =>
      match reply.body with
      | some (.handshakeReply ciphertext) =>
          match identity.decapsulate ciphertext with
          | none => .error .other
          | some sharedSecret => .ok (ciphertext, sharedSecret)
      | _ => .error (.handshake
          ("expected a handshake reply but received " ++ reply.bodyCase))

def acceptReply (codec : EnvelopeCodec) (hkdf : Bytes → Bytes → Bytes → Key)
    (identity : PqcServerIdentity) (sessionId replyBytes : Bytes) :
    Except ServerError (ServerHandshakeResult Key) :=
  match decapsulateReply codec identity replyBytes with
  | .error e => .error e
  | .ok (ciphertext, sharedSecret) =>
      let keys := deriveKeys hkdf sharedSecret ciphertext sessionId
      .ok {
        cipher := .create keys.2 keys.1
        kemPublicKeyBytes := identity.kemPublicKey.length
        ciphertextBytes := ciphertext.length
        sharedSecretBytes := sharedSecret.length }

/-- `ServerHandshakeAsync`: the bytes written, the outcome, and the connection
afterwards. -/
def serverHandshake (codec : EnvelopeCodec) (gcm : AesGcm Key)
    (hkdf : Bytes → Bytes → Bytes → Key) (identity : PqcServerIdentity)
    (sessionId : Bytes) (connection : FrameConnection Key) :
    Bytes × Except ServerError (ServerHandshakeResult Key) × FrameConnection Key :=
  let (written, offered) :=
    connection.writeFrame gcm (codec.serialize (offerEnvelope identity sessionId))
  match offered.readFrame gcm with
  | (.error _, next) => (written, .error .other, next)
  | (.ok none, next) =>
      (written, .error (.handshake
        "client closed the connection before sending a handshake reply"), next)
  | (.ok (some replyBytes), next) =>
      (written, acceptReply codec hkdf identity sessionId replyBytes, next)

/-! ## The clients -/

/-- Why a client's half throws.  The last four are the cases of the iOS
`PqHandshakeError`. -/
inductive ClientError where
  | frame (error : FrameError)
  | malformedEnvelope
  | handshake (message : String)
  | provider (message : String)
  | noOffer
  | wrongFrame (body : String)
  | badKemKey (message : String)
  | signatureFailed
  deriving DecidableEq, Repr

structure ClientRun (Key : Type*) (Result : Type*) where
  written : Bytes
  outcome : Except ClientError Result
  connection : FrameConnection Key

structure ClientHandshakeResult (Key : Type*) where
  cipher : AeadFrameCipher Key
  sessionId : Bytes

/-- The engine's own client up to the encapsulation: the offered session id
and the encapsulated ciphertext and secret. -/
def acceptOffer (codec : EnvelopeCodec) (provider : PqcClient)
    (offerBytes : Bytes) : Except ClientError (Bytes × Bytes × Bytes) :=
  match codec.parse offerBytes with
  | none => .error .malformedEnvelope
  | some envelope =>
      match envelope.body with
      | some (.handshakeOffer offer) =>
          match provider.verify offer.sigPublicKey
              (offer.kemPublicKey ++ offer.sessionId) offer.signature with
          | .error message => .error (.provider message)
          | .ok false => .error (.handshake
              "server handshake signature failed ML-DSA verification")
          | .ok true =>
              match provider.importKemPublicKey offer.kemPublicKey with
              | .error message => .error (.provider message)
              | .ok _ =>
                  match provider.encapsulate offer.kemPublicKey with
                  | .error message => .error (.provider message)
                  | .ok (ciphertext, sharedSecret) =>
                      .ok (offer.sessionId, ciphertext, sharedSecret)
      | _ => .error (.handshake
          ("expected a handshake offer but received " ++ envelope.bodyCase))

def clientHandshake (codec : EnvelopeCodec) (gcm : AesGcm Key)
    (hkdf : Bytes → Bytes → Bytes → Key) (provider : PqcClient)
    (connection : FrameConnection Key) :
    ClientRun Key (ClientHandshakeResult Key) :=
  match connection.readFrame gcm with
  | (.error e, next) => ⟨[], .error (.frame e), next⟩
  | (.ok none, next) =>
      ⟨[], .error (.handshake
        "server closed the connection before sending a handshake offer"), next⟩
  | (.ok (some offerBytes), next) =>
      match acceptOffer codec provider offerBytes with
      | .error e => ⟨[], .error e, next⟩
      | .ok (sessionId, ciphertext, sharedSecret) =>
          let (written, replied) :=
            next.writeFrame gcm (codec.serialize (replyEnvelope ciphertext))
          let keys := deriveKeys hkdf sharedSecret ciphertext sessionId
          ⟨written, .ok ⟨.create keys.1 keys.2, sessionId⟩, replied⟩

structure PqChannelParams where
  kem : String
  sig : String
  cipher : String
  kemPublicKeyBytes : ℕ
  ciphertextBytes : ℕ
  sharedSecretBytes : ℕ
  deriving DecidableEq, Repr

structure PqHandshakeResult (Key : Type*) where
  cipher : AeadFrameCipher Key
  params : PqChannelParams

def paramsOf (offer : HandshakeOffer) (ciphertext sharedSecret : Bytes) :
    PqChannelParams where
  kem := if offer.kemAlgorithm = "" then "ML-KEM-768" else offer.kemAlgorithm
  sig := if offer.sigAlgorithm = "" then "ML-DSA-65" else offer.sigAlgorithm
  cipher := if offer.cipher = "" then "AES-256-GCM" else offer.cipher
  kemPublicKeyBytes := offer.kemPublicKey.length
  ciphertextBytes := ciphertext.length
  sharedSecretBytes := sharedSecret.length

/-- The Android client up to the encapsulation; `wrapBc` turns every exception
of the provider into a handshake exception. -/
def acceptOfferKotlin (codec : EnvelopeCodec) (provider : PqcClient)
    (offerBytes : Bytes) :
    Except ClientError (HandshakeOffer × Bytes × Bytes) :=
  match codec.parse offerBytes with
  | none => .error .malformedEnvelope
  | some envelope =>
      match envelope.body with
      | some (.handshakeOffer offer) =>
          match provider.verify offer.sigPublicKey
              (offer.kemPublicKey ++ offer.sessionId) offer.signature with
          | .error message =>
              .error (.handshake ("ML-DSA verification error: " ++ message))
          | .ok false => .error (.handshake
              "server handshake signature failed ML-DSA verification")
          | .ok true =>
              match provider.importKemPublicKey offer.kemPublicKey with
              | .error message => .error (.handshake
                  ("invalid ML-KEM public key in offer: " ++ message))
              | .ok _ =>
                  match provider.encapsulate offer.kemPublicKey with
                  | .error message => .error (.handshake
                      ("ML-KEM encapsulation failed: " ++ message))
                  | .ok (ciphertext, sharedSecret) =>
                      .ok (offer, ciphertext, sharedSecret)
      | _ => .error (.handshake
          ("expected a handshake offer but received " ++ envelope.bodyCaseKotlin))

/-- `PqHandshakeClient.handshake` of the Android client, which derives its keys
with its own HKDF loop. -/
def clientHandshakeKotlin (codec : EnvelopeCodec) (gcm : AesGcm Bytes)
    (hmac : Hkdf.HmacSha256) (provider : PqcClient)
    (connection : FrameConnection Bytes) :
    ClientRun Bytes (PqHandshakeResult Bytes) :=
  match connection.readFrameKotlin gcm with
  | (.error e, next) => ⟨[], .error (.frame e), next⟩
  | (.ok none, next) =>
      ⟨[], .error (.handshake
        "server closed the connection before sending a handshake offer"), next⟩
  | (.ok (some offerBytes), next) =>
      match acceptOfferKotlin codec provider offerBytes with
      | .error e => ⟨[], .error e, next⟩
      | .ok (offer, ciphertext, sharedSecret) =>
          let (written, replied) :=
            next.writeFrameKotlin gcm (codec.serialize (replyEnvelope ciphertext))
          let salt := ciphertext ++ offer.sessionId
          match
              Hkdf.deriveKeyKotlin hmac sharedSecret 32 salt infoClientToServerKotlin,
              Hkdf.deriveKeyKotlin hmac sharedSecret 32 salt infoServerToClientKotlin
            with
          | some clientToServer, some serverToClient =>
              ⟨written, .ok ⟨.create clientToServer serverToClient,
                paramsOf offer ciphertext sharedSecret⟩, replied⟩
          | _, _ =>
              ⟨written, .error (.provider "HKDF output length out of range: 32"),
                replied⟩

/-- The iOS client up to the encapsulation; an unusable signature key counts
as a failed signature. -/
def acceptOfferSwift (codec : EnvelopeCodec) (provider : PqcClient)
    (offerBytes : Bytes) :
    Except ClientError (HandshakeOffer × Bytes × Bytes) :=
  match codec.parse offerBytes with
  | none => .error .malformedEnvelope
  | some envelope =>
      match envelope.body with
      | some (.handshakeOffer offer) =>
          match provider.verify offer.sigPublicKey
              (offer.kemPublicKey ++ offer.sessionId) offer.signature with
          | .ok true =>
              match provider.importKemPublicKey offer.kemPublicKey with
              | .error message => .error (.badKemKey message)
              | .ok _ =>
                  match provider.encapsulate offer.kemPublicKey with
                  | .error message => .error (.provider message)
                  | .ok (ciphertext, sharedSecret) =>
                      .ok (offer, ciphertext, sharedSecret)
          | _ => .error .signatureFailed
      | _ => .error (.wrongFrame envelope.bodyCase)

/-- `PqHandshakeClient.handshake` of the iOS client. -/
def clientHandshakeSwift (codec : EnvelopeCodec) (gcm : AesGcm Bytes)
    (hkdf : Bytes → Bytes → Bytes → Bytes) (provider : PqcClient)
    (connection : FrameConnection Bytes) :
    ClientRun Bytes (PqHandshakeResult Bytes) :=
  match connection.readFrameSwift gcm with
  | (.error e, next) => ⟨[], .error (.frame e), next⟩
  | (.ok none, next) => ⟨[], .error .noOffer, next⟩
  | (.ok (some offerBytes), next) =>
      match acceptOfferSwift codec provider offerBytes with
      | .error e => ⟨[], .error e, next⟩
      | .ok (offer, ciphertext, sharedSecret) =>
          match next.writeFrameSwift gcm
              (codec.serialize (replyEnvelope ciphertext)) with
          | (.error e, replied) => ⟨[], .error (.frame (.cipher e)), replied⟩
          | (.ok written, replied) =>
              let salt := ciphertext ++ offer.sessionId
              let clientToServer := hkdf sharedSecret salt infoClientToServerSwift
              let serverToClient := hkdf sharedSecret salt infoServerToClientSwift
              ⟨written, .ok ⟨.create clientToServer serverToClient,
                paramsOf offer ciphertext sharedSecret⟩, replied⟩

end PqSecureChannel

end NativeInterop
