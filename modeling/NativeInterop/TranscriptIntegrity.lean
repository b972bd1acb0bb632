import NativeInterop.HandshakeAgreement
import Mathlib.Tactic

/-!
# Integrity of the handshake transcript

The server signs its KEM key and the session id, one behind the other, and leaves the labels
of the algorithms and of the cipher unsigned.  A KEM key has one length, so what is signed
can be cut in one place only; the labels reach the parameters that the mobile clients report
as anyone on the way has written them.
-/

namespace NativeInterop

namespace PqSecureChannel

open Pb Agreement

/-! ## What a client ends with -/

/-- The inputs of the key derivation, and the parameters reported; the engine's own client
reports none. -/
structure Ending where
  sharedSecret : Bytes
  salt : Bytes
  params : Option PqChannelParams
  deriving DecidableEq, Repr

/-- A client up to the derivation of its keys, on the payload of the first frame. -/
def ending (kind : ClientKind) (codec : EnvelopeCodec) (provider : PqcClient) (payload : Bytes) :
    Except ClientError Ending :=
  match kind with
  | .csharp =>
      (acceptOffer codec provider payload).map fun (sessionId, ciphertext, sharedSecret) =>
        ⟨sharedSecret, ciphertext ++ sessionId, none⟩
  | .kotlin =>
      (acceptOfferKotlin codec provider payload).map fun (offer, ciphertext, sharedSecret) =>
        ⟨sharedSecret, ciphertext ++ offer.sessionId,
          some (paramsOf offer ciphertext sharedSecret)⟩
  | .swift =>
      (acceptOfferSwift codec provider payload).map fun (offer, ciphertext, sharedSecret) =>
        ⟨sharedSecret, ciphertext ++ offer.sessionId,
          some (paramsOf offer ciphertext sharedSecret)⟩

def clientOutcome (kind : ClientKind) (codec : EnvelopeCodec) (gcm : AesGcm Bytes)
    (hmac : Hkdf.HmacSha256) (provider : PqcClient) (toClient : Bytes) :
    Except ClientError (AeadFrameCipher Bytes × Option PqChannelParams) :=
  let hkdf := fun ikm salt info => Hkdf.deriveKey hmac ikm salt info 32
  match kind with
  | .csharp =>
      (clientHandshake codec gcm hkdf provider ⟨none, toClient⟩).outcome.map fun result =>
        (result.cipher, none)
  | .kotlin =>
      (clientHandshakeKotlin codec gcm hmac provider ⟨none, toClient⟩).outcome.map fun result =>
        (result.cipher, some result.params)
  | .swift =>
      (clientHandshakeSwift codec gcm hkdf provider ⟨none, toClient⟩).outcome.map fun result =>
        (result.cipher, some result.params)

/-- The keys are derived from the inputs and the labels of the two directions. -/
def Ending.result (hmac : Hkdf.HmacSha256) (reached : Ending) :
    AeadFrameCipher Bytes × Option PqChannelParams :=
  (.create (Hkdf.deriveKey hmac reached.sharedSecret reached.salt infoClientToServer 32)
    (Hkdf.deriveKey hmac reached.sharedSecret reached.salt infoServerToClient 32), reached.params)

/-- A whole handshake on one frame returns what its ending determines. -/
theorem clientOutcome_eq (kind : ClientKind) (codec : EnvelopeCodec) (gcm : AesGcm Bytes)
    (hmac : Hkdf.HmacSha256) (provider : PqcClient) {payload : Bytes}
    (hpos : 0 < payload.length) (hfits : payload.length ≤ maxFrameBytes) :
    clientOutcome kind codec gcm hmac provider (encodeFrame payload) =
      (ending kind codec provider payload).map (Ending.result hmac) := by
  cases kind with
  | csharp =>
      have hread : FrameConnection.readFrame gcm ⟨none, encodeFrame payload⟩ =
          (.ok (some payload), ⟨none, []⟩) := by
        apply FrameConnection.readFrameWith_plain
        simpa using readPayload_encodeFrame [] hpos hfits
      simp only [clientOutcome, clientHandshake, hread, ending]
      cases acceptOffer codec provider payload with
      | error e => rfl
      | ok accepted => rfl
  | kotlin =>
      have hread : FrameConnection.readFrameKotlin gcm ⟨none, encodeFrame payload⟩ =
          (.ok (some payload), ⟨none, []⟩) := by
        apply FrameConnection.readFrameWith_plain
        simpa using readPayloadKotlin_encodeFrame [] hpos hfits
      have hderive (ikm salt info : Bytes) : Hkdf.deriveKeyKotlin hmac ikm 32 salt info =
          some (Hkdf.deriveKey hmac ikm salt info 32) :=
        Hkdf.deriveKeyKotlin_eq _ _ _ _ (by norm_num) (by norm_num [Hkdf.hashLen])
      simp only [clientOutcome, clientHandshakeKotlin, hread, ending, hderive]
      cases acceptOfferKotlin codec provider payload with
      | error e => rfl
      | ok accepted => rfl
  | swift =>
      have hread : FrameConnection.readFrameSwift gcm ⟨none, encodeFrame payload⟩ =
          (.ok (some payload), ⟨none, []⟩) := by
        apply FrameConnection.readFrameWith_plain
        simpa using readPayloadSwift_encodeFrame [] hfits
      simp only [clientOutcome, clientHandshakeSwift, hread, ending]
      cases acceptOfferSwift codec provider payload with
      | error e => rfl
      | ok accepted => rfl

/-! ## Offers that are accepted -/

/-- The signature verifies, and the KEM takes the key. -/
def Accepts (provider : PqcClient) (offer : HandshakeOffer) : Prop :=
  provider.verify offer.sigPublicKey (offer.kemPublicKey ++ offer.sessionId) offer.signature =
      .ok true ∧
    provider.importKemPublicKey offer.kemPublicKey = .ok () ∧
    ∃ encapsulation, provider.encapsulate offer.kemPublicKey = .ok encapsulation

def reported (kind : ClientKind) (offer : HandshakeOffer) (ciphertext sharedSecret : Bytes) :
    Option PqChannelParams :=
  if kind = .csharp then none else some (paramsOf offer ciphertext sharedSecret)

section

variable {codec : EnvelopeCodec} {provider : PqcClient} {payload : Bytes} {requestId : String}
  {offer : HandshakeOffer} (kind : ClientKind)

theorem ending_of_accepts
    (hpayload : codec.parse payload = some ⟨requestId, some (.handshakeOffer offer)⟩)
    (haccepts : Accepts provider offer) {ciphertext sharedSecret : Bytes}
    (hencapsulate : provider.encapsulate offer.kemPublicKey = .ok (ciphertext, sharedSecret)) :
    ending kind codec provider payload =
      .ok ⟨sharedSecret, ciphertext ++ offer.sessionId,
        reported kind offer ciphertext sharedSecret⟩ := by
  obtain ⟨hverify, himport, -⟩ := haccepts
  cases kind with
  | csharp =>
      simp only [ending, acceptOffer, hpayload, hverify, himport, hencapsulate]
      rfl
  | kotlin =>
      simp only [ending, acceptOfferKotlin, hpayload, hverify, himport, hencapsulate]
      rfl
  | swift =>
      simp only [ending, acceptOfferSwift, hpayload, hverify, himport, hencapsulate]
      rfl

theorem ending_of_not_accepts
    (hpayload : codec.parse payload = some ⟨requestId, some (.handshakeOffer offer)⟩)
    (hrejected : ¬ Accepts provider offer) :
    ∃ error, ending kind codec provider payload = .error error := by
  cases hverify : provider.verify offer.sigPublicKey (offer.kemPublicKey ++ offer.sessionId)
      offer.signature with
  | error message =>
      cases kind <;>
        simp [ending, acceptOffer, acceptOfferKotlin, acceptOfferSwift, hpayload, hverify,
          Except.map]
  | ok verified =>
      cases verified with
      | false =>
          cases kind <;>
            simp [ending, acceptOffer, acceptOfferKotlin, acceptOfferSwift, hpayload, hverify,
              Except.map]
      | true =>
          cases himport : provider.importKemPublicKey offer.kemPublicKey with
          | error message =>
              cases kind <;>
                simp [ending, acceptOffer, acceptOfferKotlin, acceptOfferSwift, hpayload, hverify,
                  himport, Except.map]
          | ok imported =>
              cases hencapsulate : provider.encapsulate offer.kemPublicKey with
              | error message =>
                  cases kind <;>
                    simp [ending, acceptOffer, acceptOfferKotlin, acceptOfferSwift, hpayload,
                      hverify, himport, hencapsulate, Except.map]
              | ok encapsulation =>
                  exact absurd ⟨hverify, himport, encapsulation, hencapsulate⟩ hrejected

end

/-! ## Modified offers -/

/-- A server, the sessions it has signed an offer for, and the client's primitives: its
signatures verify, no others do under its key, and only keys of the length of the KEM are
imported. -/
structure SignedSessions where
  identity : PqcServerIdentity
  sessions : List Bytes
  provider : PqcClient
  verify_sign : ∀ sessionId ∈ sessions,
    provider.verify identity.sigPublicKey (identity.kemPublicKey ++ sessionId)
      (identity.sign (identity.kemPublicKey ++ sessionId)) = .ok true
  unforgeable : ∀ message signature,
    provider.verify identity.sigPublicKey message signature = .ok true →
      ∃ sessionId ∈ sessions, message = identity.kemPublicKey ++ sessionId
  import_length : ∀ key, provider.importKemPublicKey key = .ok () →
    key.length = identity.kemPublicKey.length

def honestOffer (identity : PqcServerIdentity) (sessionId : Bytes) : HandshakeOffer where
  kemPublicKey := identity.kemPublicKey
  sigPublicKey := identity.sigPublicKey
  signature := identity.sign (identity.kemPublicKey ++ sessionId)
  kemAlgorithm := kemAlgorithm
  sigAlgorithm := sigAlgorithm
  cipher := cipherAlgorithm
  sessionId := sessionId

theorem offerEnvelope_eq (identity : PqcServerIdentity) (sessionId : Bytes) :
    offerEnvelope identity sessionId =
      ⟨"", some (.handshakeOffer (honestOffer identity sessionId))⟩ := rfl

/-- The labels are the server's, or left out. -/
def KeepsLabels (offer : HandshakeOffer) : Prop :=
  (offer.kemAlgorithm = "" ∨ offer.kemAlgorithm = kemAlgorithm) ∧
    (offer.sigAlgorithm = "" ∨ offer.sigAlgorithm = sigAlgorithm) ∧
    (offer.cipher = "" ∨ offer.cipher = cipherAlgorithm)

theorem label_eq_iff (label standard : String) :
    (if label = "" then standard else label) = standard ↔ label = "" ∨ label = standard := by
  split_ifs with hempty
  · simp [hempty]
  · simp [hempty]

theorem paramsOf_eq_iff {offer honest : HandshakeOffer} (hlabels : KeepsLabels honest)
    (hkem : offer.kemPublicKey = honest.kemPublicKey) (ciphertext sharedSecret : Bytes) :
    paramsOf offer ciphertext sharedSecret = paramsOf honest ciphertext sharedSecret ↔
      KeepsLabels offer := by
  obtain ⟨hkemLabel, hsigLabel, hcipherLabel⟩ := hlabels
  rw [← label_eq_iff] at hkemLabel hsigLabel hcipherLabel
  simp only [paramsOf, kemAlgorithm, sigAlgorithm, cipherAlgorithm, PqChannelParams.mk.injEq,
    hkem, KeepsLabels, ← label_eq_iff, and_true] at *
  rw [hkemLabel, hsigLabel, hcipherLabel]

/-- The client aborts, or ends as it does on the honest offer. -/
def Intact (kind : ClientKind) (codec : EnvelopeCodec) (server : SignedSessions)
    (sessionId payload : Bytes) : Prop :=
  (∃ error, ending kind codec server.provider payload = .error error) ∨
    ending kind codec server.provider payload =
      ending kind codec server.provider (codec.serialize (offerEnvelope server.identity sessionId))

namespace SignedSessions

variable (server : SignedSessions) {codec : EnvelopeCodec} {sessionId payload : Bytes}
  {requestId : String} {modified : HandshakeOffer}

/-- What is signed is cut behind the KEM key. -/
theorem kemPublicKey_eq (hkept : modified.sigPublicKey = server.identity.sigPublicKey)
    (haccepts : Accepts server.provider modified) :
    modified.kemPublicKey = server.identity.kemPublicKey ∧
      modified.sessionId ∈ server.sessions := by
  obtain ⟨hverify, himport, -⟩ := haccepts
  rw [hkept] at hverify
  obtain ⟨other, hother, hmessage⟩ := server.unforgeable _ _ hverify
  obtain ⟨hkem, hsession⟩ := List.append_inj hmessage (server.import_length _ himport)
  exact ⟨hkem, hsession ▸ hother⟩

theorem accepts_honest (hsession : sessionId ∈ server.sessions)
    (hkem : modified.kemPublicKey = server.identity.kemPublicKey)
    (haccepts : Accepts server.provider modified) :
    Accepts server.provider (honestOffer server.identity sessionId) := by
  obtain ⟨-, himport, hencapsulate⟩ := haccepts
  rw [hkem] at himport hencapsulate
  exact ⟨server.verify_sign sessionId hsession, himport, hencapsulate⟩

theorem intact_iff_of_accepts (kind : ClientKind) (hsession : sessionId ∈ server.sessions)
    (hkept : modified.sigPublicKey = server.identity.sigPublicKey)
    (hpayload : codec.parse payload = some ⟨requestId, some (.handshakeOffer modified)⟩)
    (haccepts : Accepts server.provider modified) :
    Intact kind codec server sessionId payload ↔
      modified.sessionId = sessionId ∧ (kind ≠ .csharp → KeepsLabels modified) := by
  obtain ⟨hkem, -⟩ := server.kemPublicKey_eq hkept haccepts
  obtain ⟨⟨ciphertext, sharedSecret⟩, hencapsulate⟩ := haccepts.2.2
  have hmodified := ending_of_accepts kind hpayload haccepts hencapsulate
  rw [hkem] at hencapsulate
  have hhonest := ending_of_accepts kind
    (codec.parse_serialize (offerEnvelope server.identity sessionId))
    (server.accepts_honest hsession hkem haccepts) hencapsulate
  have hlabels : KeepsLabels (honestOffer server.identity sessionId) :=
    ⟨Or.inr rfl, Or.inr rfl, Or.inr rfl⟩
  have hreported : reported kind modified ciphertext sharedSecret =
      reported kind (honestOffer server.identity sessionId) ciphertext sharedSecret ↔
        (kind ≠ .csharp → KeepsLabels modified) := by
    unfold reported
    split_ifs with hkind
    · simp [hkind]
    · rw [Option.some.injEq, paramsOf_eq_iff hlabels hkem]
      simp [hkind]
  rw [Intact, hmodified, hhonest, ← hreported]
  simp [honestOffer]

/-- Where nothing is signed but the offers of some sessions, a client aborts on a modified
offer or ends as on the honest one exactly if it refuses the offer, or the offer keeps the
session id and, for the two clients that report them, the labels. -/
theorem intact_iff (kind : ClientKind) (hsession : sessionId ∈ server.sessions)
    (hkept : modified.sigPublicKey = server.identity.sigPublicKey)
    (hpayload : codec.parse payload = some ⟨requestId, some (.handshakeOffer modified)⟩) :
    Intact kind codec server sessionId payload ↔
      (Accepts server.provider modified →
        modified.sessionId = sessionId ∧ (kind ≠ .csharp → KeepsLabels modified)) := by
  by_cases haccepts : Accepts server.provider modified
  · rw [server.intact_iff_of_accepts kind hsession hkept hpayload haccepts]
    simp [haccepts]
  · have haborts := ending_of_not_accepts kind hpayload haccepts
    exact ⟨fun _ haccepted => absurd haccepted haccepts, fun _ => Or.inl haborts⟩

end SignedSessions

/-- A server that has signed two offers. -/
def twoSessions : SignedSessions where
  identity :=
    { kemPublicKey := [1]
      sigPublicKey := [2]
      sign := fun message => 3 :: message
      decapsulate := fun ciphertext => some ciphertext.reverse }
  sessions := [[8], [9]]
  provider :=
    { verify := fun key message signature =>
        .ok (key = [2] ∧ signature = 3 :: message ∧ message ∈ [[1, 8], [1, 9]])
      importKemPublicKey := fun key => if key.length = 1 then .ok () else .error "length"
      encapsulate := fun _ => .ok ([4, 5], [5, 4]) }
  verify_sign := by decide
  unforgeable := by
    intro message signature hverify
    simp only [Except.ok.injEq, decide_eq_true_eq] at hverify
    simpa using hverify.2.2
  import_length := by
    intro key himport
    dsimp only at himport
    split_ifs at himport with hlength
    · exact hlength

/-- The offer of the second session with another cipher. -/
def relabelled : HandshakeOffer :=
  { honestOffer twoSessions.identity [9] with cipher := "none" }

def relabelledBytes : Bytes :=
  proto3.serialize ⟨"", some (.handshakeOffer relabelled)⟩

theorem intact_relabelled_csharp :
    Intact .csharp proto3 twoSessions [9] relabelledBytes :=
  (twoSessions.intact_iff .csharp (by decide) rfl (proto3.parse_serialize _)).mpr
    fun _ => ⟨rfl, fun hkind => absurd rfl hkind⟩

/-- The mobile clients report the cipher that was written over the server's. -/
theorem cipher_relabelled :
    ending .kotlin proto3 twoSessions.provider relabelledBytes =
      .ok ⟨[5, 4], [4, 5, 9], some ⟨"ML-KEM-768", "ML-DSA-65", "none", 1, 2, 2⟩⟩ ∧
    ¬ Intact .kotlin proto3 twoSessions [9] relabelledBytes ∧
    ¬ Intact .swift proto3 twoSessions [9] relabelledBytes := by
  have hpayload := proto3.parse_serialize ⟨"", some (.handshakeOffer relabelled)⟩
  have haccepts : Accepts twoSessions.provider relabelled := ⟨by decide, by decide, _, rfl⟩
  have hlabels : ¬ KeepsLabels relabelled := by
    unfold KeepsLabels
    decide
  refine ⟨(ending_of_accepts .kotlin hpayload haccepts rfl).trans (by decide), ?_, ?_⟩
  · intro hintact
    exact hlabels (((twoSessions.intact_iff_of_accepts .kotlin (by decide) rfl hpayload
      haccepts).mp hintact).2 (by decide))
  · intro hintact
    exact hlabels (((twoSessions.intact_iff_of_accepts .swift (by decide) rfl hpayload
      haccepts).mp hintact).2 (by decide))

end PqSecureChannel

end NativeInterop
