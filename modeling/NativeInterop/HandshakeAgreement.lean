import NativeInterop.EnvelopeWire
import NativeInterop.Machine
import NativeInterop.PqSecureChannel
import Mathlib.Tactic

/-!
# Agreement of the handshake implementations

An honest handshake is an exchange in which each side reads what the other
wrote.  Whichever of the three clients answers the server, both sides end with
mirrored ciphers, and the connection that follows delivers every frame in the
order it was sent, for every interleaving of the two directions.

The readers refuse a payload above the frame cap although the writers send it,
and the counters of the iOS client trap instead of wrapping; `Link.Admissible`
states both limits.
-/

namespace NativeInterop

namespace Agreement

open AeadFrameCipher PqSecureChannel

inductive ClientKind where
  | csharp
  | kotlin
  | swift
  deriving DecidableEq, Repr

/-- The parties of an honest run and what their primitives guarantee. -/
structure HonestParties where
  codec : Pb.EnvelopeCodec
  gcm : AesGcm Bytes
  hmac : Hkdf.HmacSha256
  identity : PqcServerIdentity
  provider : PqcClient
  sessionId : Bytes
  ciphertext : Bytes
  sharedSecret : Bytes
  verify_sign : ∀ message,
    provider.verify identity.sigPublicKey message (identity.sign message) = .ok true
  import_kem : provider.importKemPublicKey identity.kemPublicKey = .ok ()
  encapsulate_kem :
    provider.encapsulate identity.kemPublicKey = .ok (ciphertext, sharedSecret)
  decapsulate_ciphertext : identity.decapsulate ciphertext = some sharedSecret
  offer_fits :
    (codec.serialize (offerEnvelope identity sessionId)).length ≤ maxFrameBytes
  reply_fits : (codec.serialize (replyEnvelope ciphertext)).length ≤ maxFrameBytes

namespace HonestParties

variable (parties : HonestParties)

def hkdf (ikm salt info : Bytes) : Bytes :=
  Hkdf.deriveKey parties.hmac ikm salt info 32

def clientToServer : Bytes :=
  (deriveKeys parties.hkdf parties.sharedSecret parties.ciphertext
    parties.sessionId).1

def serverToClient : Bytes :=
  (deriveKeys parties.hkdf parties.sharedSecret parties.ciphertext
    parties.sessionId).2

def server (toServer : Bytes) :
    Bytes × Except ServerError (ServerHandshakeResult Bytes) ×
      FrameConnection Bytes :=
  serverHandshake parties.codec parties.gcm parties.hkdf parties.identity
    parties.sessionId ⟨none, toServer⟩

/-- A client's half on what the server wrote: the bytes it writes and the
cipher it ends with. -/
def client (kind : ClientKind) (toClient : Bytes) :
    Bytes × Except ClientError (AeadFrameCipher Bytes) :=
  match kind with
  | .csharp =>
      let result := clientHandshake parties.codec parties.gcm parties.hkdf
        parties.provider ⟨none, toClient⟩
      (result.written, result.outcome.map ClientHandshakeResult.cipher)
  | .kotlin =>
      let result := clientHandshakeKotlin parties.codec parties.gcm parties.hmac
        parties.provider ⟨none, toClient⟩
      (result.written, result.outcome.map PqHandshakeResult.cipher)
  | .swift =>
      let result := clientHandshakeSwift parties.codec parties.gcm parties.hkdf
        parties.provider ⟨none, toClient⟩
      (result.written, result.outcome.map PqHandshakeResult.cipher)

def offerBytes : Bytes :=
  parties.codec.serialize (offerEnvelope parties.identity parties.sessionId)

def replyBytes : Bytes :=
  parties.codec.serialize (replyEnvelope parties.ciphertext)

theorem offerBytes_pos : 0 < parties.offerBytes.length := by
  apply List.length_pos_iff.mpr
  apply parties.codec.serialize_ne_nil
  simp [offerEnvelope]

theorem replyBytes_pos : 0 < parties.replyBytes.length := by
  apply List.length_pos_iff.mpr
  apply parties.codec.serialize_ne_nil
  simp [replyEnvelope]

theorem server_written (toServer : Bytes) :
    (parties.server toServer).1 = encodeFrame parties.offerBytes := by
  unfold server serverHandshake
  simp only [FrameConnection.writeFrame]
  split <;> rfl

theorem acceptOffer_offerBytes :
    acceptOffer parties.codec parties.provider parties.offerBytes =
      .ok (parties.sessionId, parties.ciphertext, parties.sharedSecret) := by
  simp [acceptOffer, offerBytes, parties.codec.parse_serialize, offerEnvelope,
    parties.verify_sign, parties.import_kem, parties.encapsulate_kem]

theorem acceptOfferKotlin_offerBytes :
    ∃ offer, acceptOfferKotlin parties.codec parties.provider parties.offerBytes =
        .ok (offer, parties.ciphertext, parties.sharedSecret) ∧
      offer.sessionId = parties.sessionId := by
  simp [acceptOfferKotlin, offerBytes, parties.codec.parse_serialize,
    offerEnvelope, parties.verify_sign, parties.import_kem,
    parties.encapsulate_kem]

theorem acceptOfferSwift_offerBytes :
    ∃ offer, acceptOfferSwift parties.codec parties.provider parties.offerBytes =
        .ok (offer, parties.ciphertext, parties.sharedSecret) ∧
      offer.sessionId = parties.sessionId := by
  simp [acceptOfferSwift, offerBytes, parties.codec.parse_serialize,
    offerEnvelope, parties.verify_sign, parties.import_kem,
    parties.encapsulate_kem]

theorem client_offer (kind : ClientKind) :
    parties.client kind (encodeFrame parties.offerBytes) =
      (encodeFrame parties.replyBytes,
        .ok (.create parties.clientToServer parties.serverToClient)) := by
  have hfits : parties.offerBytes.length ≤ maxFrameBytes := parties.offer_fits
  cases kind with
  | csharp =>
      have hread : FrameConnection.readFrame parties.gcm
          ⟨none, encodeFrame parties.offerBytes⟩ =
            (.ok (some parties.offerBytes), ⟨none, []⟩) := by
        apply FrameConnection.readFrameWith_plain
        simpa using readPayload_encodeFrame [] parties.offerBytes_pos hfits
      simp only [client, clientHandshake, hread, parties.acceptOffer_offerBytes]
      rfl
  | kotlin =>
      have hread : FrameConnection.readFrameKotlin parties.gcm
          ⟨none, encodeFrame parties.offerBytes⟩ =
            (.ok (some parties.offerBytes), ⟨none, []⟩) := by
        apply FrameConnection.readFrameWith_plain
        simpa using readPayloadKotlin_encodeFrame [] parties.offerBytes_pos hfits
      obtain ⟨offer, haccept, hsession⟩ := parties.acceptOfferKotlin_offerBytes
      have hderive (info : Bytes) :
          Hkdf.deriveKeyKotlin parties.hmac parties.sharedSecret 32
            (parties.ciphertext ++ parties.sessionId) info =
          some (parties.hkdf parties.sharedSecret
            (parties.ciphertext ++ parties.sessionId) info) :=
        Hkdf.deriveKeyKotlin_eq _ _ _ _ (by norm_num) (by norm_num [Hkdf.hashLen])
      simp only [client, clientHandshakeKotlin, hread, haccept, hsession, hderive]
      rfl
  | swift =>
      have hread : FrameConnection.readFrameSwift parties.gcm
          ⟨none, encodeFrame parties.offerBytes⟩ =
            (.ok (some parties.offerBytes), ⟨none, []⟩) := by
        apply FrameConnection.readFrameWith_plain
        simpa using readPayloadSwift_encodeFrame [] hfits
      obtain ⟨offer, haccept, hsession⟩ := parties.acceptOfferSwift_offerBytes
      simp only [client, clientHandshakeSwift, hread, haccept, hsession]
      rfl

theorem server_reply :
    ∃ result, (parties.server (encodeFrame parties.replyBytes)).2.1 = .ok result ∧
      result.cipher = .create parties.serverToClient parties.clientToServer := by
  have hfits : parties.replyBytes.length ≤ maxFrameBytes := parties.reply_fits
  have hread : FrameConnection.readFrame parties.gcm
      ⟨none, encodeFrame parties.replyBytes⟩ =
        (.ok (some parties.replyBytes), ⟨none, []⟩) := by
    apply FrameConnection.readFrameWith_plain
    simpa using readPayload_encodeFrame [] parties.replyBytes_pos hfits
  have hsecret : decapsulateReply parties.codec parties.identity
      parties.replyBytes = .ok (parties.ciphertext, parties.sharedSecret) := by
    simp [decapsulateReply, replyBytes, parties.codec.parse_serialize,
      replyEnvelope, parties.decapsulate_ciphertext]
  unfold server serverHandshake
  simp only [FrameConnection.writeFrame, hread, acceptReply, hsecret]
  exact ⟨_, rfl, rfl⟩

end HonestParties

/-! ## The connection after the handshake -/

/-- Both ends of one connection.  Each end's unread bytes are what the other
end has written and it has not read yet. -/
structure Link where
  client : FrameConnection Bytes
  server : FrameConnection Bytes
  clientSent : List Bytes
  clientReceived : List Bytes
  serverSent : List Bytes
  serverReceived : List Bytes
  failed : Bool

def Link.start (client server : AeadFrameCipher Bytes) : Link where
  client := ⟨some client, []⟩
  server := ⟨some server, []⟩
  clientSent := []
  clientReceived := []
  serverSent := []
  serverReceived := []
  failed := false

inductive Action where
  | clientSend (plaintext : Bytes)
  | serverSend (plaintext : Bytes)
  | clientReceive
  | serverReceive
  deriving DecidableEq, Repr

def writeFrameOf (kind : ClientKind) (gcm : AesGcm Bytes)
    (connection : FrameConnection Bytes) (plaintext : Bytes) :
    Except CipherError Bytes × FrameConnection Bytes :=
  match kind with
  | .csharp =>
      let (written, next) := connection.writeFrame gcm plaintext
      (.ok written, next)
  | .kotlin =>
      let (written, next) := connection.writeFrameKotlin gcm plaintext
      (.ok written, next)
  | .swift => connection.writeFrameSwift gcm plaintext

def readFrameOf (kind : ClientKind) (gcm : AesGcm Bytes)
    (connection : FrameConnection Bytes) :
    Except FrameError (Option Bytes) × FrameConnection Bytes :=
  match kind with
  | .csharp => connection.readFrame gcm
  | .kotlin => connection.readFrameKotlin gcm
  | .swift => connection.readFrameSwift gcm

def arrive (connection : FrameConnection Bytes) (bytes : Bytes) :
    FrameConnection Bytes :=
  { connection with unread := connection.unread ++ bytes }

def clientSend (kind : ClientKind) (gcm : AesGcm Bytes) (link : Link)
    (plaintext : Bytes) : Link :=
  match writeFrameOf kind gcm link.client plaintext with
  | (.ok written, next) =>
      { link with
        client := next
        server := arrive link.server written
        clientSent := link.clientSent ++ [plaintext] }
  | (.error _, next) => { link with client := next, failed := true }

def serverSend (gcm : AesGcm Bytes) (link : Link) (plaintext : Bytes) : Link :=
  let (written, next) := link.server.writeFrame gcm plaintext
  { link with
    server := next
    client := arrive link.client written
    serverSent := link.serverSent ++ [plaintext] }

def clientReceive (kind : ClientKind) (gcm : AesGcm Bytes) (link : Link) : Link :=
  match readFrameOf kind gcm link.client with
  | (.ok (some plaintext), next) =>
      { link with
        client := next
        clientReceived := link.clientReceived ++ [plaintext] }
  | (_, next) => { link with client := next, failed := true }

def serverReceive (gcm : AesGcm Bytes) (link : Link) : Link :=
  match link.server.readFrame gcm with
  | (.ok (some plaintext), next) =>
      { link with
        server := next
        serverReceived := link.serverReceived ++ [plaintext] }
  | (_, next) => { link with server := next, failed := true }

/-- A read that finds no bytes waits, so it is not enabled; every other
outcome than a plaintext counts as a failure of the connection. -/
def step (kind : ClientKind) (gcm : AesGcm Bytes) (link : Link) :
    Action → Option Link
  | .clientSend plaintext => some (clientSend kind gcm link plaintext)
  | .serverSend plaintext => some (serverSend gcm link plaintext)
  | .clientReceive =>
      if link.client.unread = [] then none else some (clientReceive kind gcm link)
  | .serverReceive =>
      if link.server.unread = [] then none else some (serverReceive gcm link)

def machine (kind : ClientKind) (gcm : AesGcm Bytes) : Machine Link Action where
  step := step kind gcm

/-- A payload within the frame cap; with the iOS client, also fewer than
`2 ^ 64` frames in each direction. -/
def Link.Admissible (kind : ClientKind) (link : Link) : Action → Prop
  | .clientSend plaintext =>
      plaintext.length + tagBytes ≤ maxFrameBytes ∧
        (kind = .swift → link.clientSent.length + 1 < 2 ^ 64)
  | .serverSend plaintext =>
      plaintext.length + tagBytes ≤ maxFrameBytes ∧
        (kind = .swift → link.serverSent.length + 1 < 2 ^ 64)
  | .clientReceive => True
  | .serverReceive => True

/-- Nothing has failed, each side has received a prefix of what the other
sent, and all of it once nothing is left to read. -/
structure Link.InOrder (link : Link) : Prop where
  notFailed : link.failed = false
  serverReceived : link.serverReceived <+: link.clientSent
  clientReceived : link.clientReceived <+: link.serverSent
  serverAll : link.server.unread = [] → link.serverReceived = link.clientSent
  clientAll : link.client.unread = [] → link.clientReceived = link.serverSent

/-! ## Frames in flight -/

/-- The bytes of consecutive frames, the first of which has number `first`. -/
def inFlight (gcm : AesGcm Bytes) (key : Bytes) : ℕ → List Bytes → Bytes
  | _, [] => []
  | first, plaintext :: rest =>
      encodeFrame (sealFrame gcm key (nonceFor (BitVec.ofNat 64 first)) plaintext) ++
        inFlight gcm key (first + 1) rest

theorem inFlight_append (gcm : AesGcm Bytes) (key : Bytes) (first : ℕ)
    (plaintexts : List Bytes) (plaintext : Bytes) :
    inFlight gcm key first (plaintexts ++ [plaintext]) =
      inFlight gcm key first plaintexts ++
        encodeFrame (sealFrame gcm key
          (nonceFor (BitVec.ofNat 64 (first + plaintexts.length))) plaintext) := by
  induction plaintexts generalizing first with
  | nil => simp [inFlight]
  | cons head tail ih =>
      have hfirst : first + 1 + tail.length = first + (head :: tail).length := by
        simp only [List.length_cons]
        omega
      simp only [List.cons_append, inFlight, ih, hfirst, List.append_assoc]

theorem inFlight_ne_nil (gcm : AesGcm Bytes) (key : Bytes) (first : ℕ)
    (plaintext : Bytes) (rest : List Bytes) :
    inFlight gcm key first (plaintext :: rest) ≠ [] := by
  intro hnil
  have hlength := congrArg List.length hnil
  simp [inFlight, encodeFrame_length] at hlength

structure Direction (gcm : AesGcm Bytes) (key : Bytes)
    (sent received : List Bytes) (unread : Bytes) : Prop where
  pending : ∃ rest, sent = received ++ rest ∧
    unread = inFlight gcm key received.length rest ∧
    ∀ plaintext ∈ rest, plaintext.length + tagBytes ≤ maxFrameBytes

namespace Direction

variable {gcm : AesGcm Bytes} {key : Bytes} {sent received : List Bytes}
  {unread : Bytes}

theorem isPrefix (hdirection : Direction gcm key sent received unread) :
    received <+: sent := by
  obtain ⟨rest, hsent, _⟩ := hdirection.pending
  exact ⟨rest, hsent.symm⟩

theorem all (hdirection : Direction gcm key sent received unread)
    (hunread : unread = []) : received = sent := by
  obtain ⟨rest, hsent, hbytes, _⟩ := hdirection.pending
  cases rest with
  | nil => simpa using hsent.symm
  | cons plaintext rest =>
      rw [hunread] at hbytes
      exact absurd hbytes.symm (inFlight_ne_nil gcm key _ plaintext rest)

theorem send (hdirection : Direction gcm key sent received unread)
    {plaintext : Bytes} (hfits : plaintext.length + tagBytes ≤ maxFrameBytes) :
    Direction gcm key (sent ++ [plaintext]) received
      (unread ++ encodeFrame (sealFrame gcm key
        (nonceFor (BitVec.ofNat 64 sent.length)) plaintext)) := by
  obtain ⟨rest, hsent, hbytes, hrest⟩ := hdirection.pending
  constructor
  refine ⟨rest ++ [plaintext], ?_, ?_, ?_⟩
  · rw [hsent, List.append_assoc]
  · rw [inFlight_append, hbytes, hsent, List.length_append]
  · intro found hfound
    rcases List.mem_append.mp hfound with hold | hnew
    · exact hrest found hold
    · have heq := List.mem_singleton.mp hnew
      subst found
      exact hfits

/-- With bytes unread, the next frame is the next plaintext, sealed under the
number the receiver expects. -/
theorem receive (hdirection : Direction gcm key sent received unread)
    (hunread : unread ≠ []) :
    ∃ plaintext rest, received.length < sent.length ∧
      unread = encodeFrame (sealFrame gcm key
        (nonceFor (BitVec.ofNat 64 received.length)) plaintext) ++ rest ∧
      plaintext.length + tagBytes ≤ maxFrameBytes ∧
      Direction gcm key sent (received ++ [plaintext]) rest := by
  obtain ⟨rest, hsent, hbytes, hrest⟩ := hdirection.pending
  cases rest with
  | nil => exact absurd hbytes hunread
  | cons plaintext rest =>
      refine ⟨plaintext, inFlight gcm key (received.length + 1) rest, ?_, hbytes,
        hrest plaintext (by simp), ?_⟩
      · rw [hsent]
        simp
      · constructor
        refine ⟨rest, ?_, ?_, ?_⟩
        · simpa using hsent
        · simp
        · intro found hfound
          exact hrest found (List.mem_cons_of_mem _ hfound)

end Direction

/-! ## Every step keeps the two directions -/

theorem toNat_counter {n : ℕ} (hn : n < 2 ^ 64) :
    (BitVec.ofNat 64 n).toNat = n := by
  rw [BitVec.toNat_ofNat, Nat.mod_eq_of_lt hn]

def countingCipher (sendKey recvKey : Bytes) (sent received : ℕ) :
    AeadFrameCipher Bytes :=
  ⟨sendKey, recvKey, BitVec.ofNat 64 sent, BitVec.ofNat 64 received⟩

section Steps

variable (kind : ClientKind) (gcm : AesGcm Bytes)

theorem writeFrameOf_counting {sendKey recvKey unread plaintext : Bytes}
    {sent received : ℕ} (hbound : kind = .swift → sent + 1 < 2 ^ 64) :
    writeFrameOf kind gcm
        ⟨some (countingCipher sendKey recvKey sent received), unread⟩ plaintext =
      (.ok (encodeFrame (sealFrame gcm sendKey (nonceFor (BitVec.ofNat 64 sent))
          plaintext)),
        ⟨some (countingCipher sendKey recvKey (sent + 1) received), unread⟩) := by
  unfold countingCipher
  cases kind with
  | csharp =>
      rw [← counter_succ]
      rfl
  | kotlin =>
      rw [← counter_succ]
      rfl
  | swift =>
      have hlt : (BitVec.ofNat 64 sent).toNat + 1 < 2 ^ 64 := by
        have hsent := hbound rfl
        rw [toNat_counter (by omega)]
        exact hsent
      rw [← counter_succ]
      simp [writeFrameOf, FrameConnection.writeFrameSwift,
        encryptOutboundSwift_of_lt gcm ⟨sendKey, recvKey, BitVec.ofNat 64 sent,
          BitVec.ofNat 64 received⟩ plaintext hlt]

theorem readFrameOf_counting {sendKey recvKey rest plaintext : Bytes}
    {sent received : ℕ} (hfits : plaintext.length + tagBytes ≤ maxFrameBytes)
    (hbound : kind = .swift → received + 1 < 2 ^ 64) :
    readFrameOf kind gcm
        ⟨some (countingCipher sendKey recvKey sent received),
          encodeFrame (sealFrame gcm recvKey (nonceFor (BitVec.ofNat 64 received))
            plaintext) ++ rest⟩ =
      (.ok (some plaintext),
        ⟨some (countingCipher sendKey recvKey sent (received + 1)), rest⟩) := by
  have hlength := sealFrame_length gcm recvKey
    (nonceFor (BitVec.ofNat 64 received)) plaintext
  have htag : 0 < tagBytes := by decide
  have hpos : 0 < (sealFrame gcm recvKey
      (nonceFor (BitVec.ofNat 64 received)) plaintext).length := by omega
  have hmax : (sealFrame gcm recvKey
      (nonceFor (BitVec.ofNat 64 received)) plaintext).length ≤ maxFrameBytes := by
    omega
  unfold countingCipher
  rw [← counter_succ]
  cases kind with
  | csharp =>
      exact FrameConnection.readFrameWith_encrypted
        (readPayload_encodeFrame rest hpos hmax)
        (decryptInbound_sealFrame gcm ⟨sendKey, recvKey, BitVec.ofNat 64 sent,
          BitVec.ofNat 64 received⟩ plaintext)
  | kotlin =>
      exact FrameConnection.readFrameWith_encrypted
        (readPayloadKotlin_encodeFrame rest hpos hmax)
        (decryptInboundKotlin_sealFrame gcm ⟨sendKey, recvKey,
          BitVec.ofNat 64 sent, BitVec.ofNat 64 received⟩ plaintext)
  | swift =>
      have hlt : (BitVec.ofNat 64 received).toNat + 1 < 2 ^ 64 := by
        have hreceived := hbound rfl
        rw [toNat_counter (by omega)]
        exact hreceived
      exact FrameConnection.readFrameWith_encrypted
        (readPayloadSwift_encodeFrame rest hmax)
        (decryptInboundSwift_sealFrame gcm ⟨sendKey, recvKey,
          BitVec.ofNat 64 sent, BitVec.ofNat 64 received⟩ plaintext hlt)

theorem writeFrame_counting {sendKey recvKey unread plaintext : Bytes}
    {sent received : ℕ} :
    FrameConnection.writeFrame gcm
        ⟨some (countingCipher sendKey recvKey sent received), unread⟩ plaintext =
      (encodeFrame (sealFrame gcm sendKey (nonceFor (BitVec.ofNat 64 sent))
          plaintext),
        ⟨some (countingCipher sendKey recvKey (sent + 1) received), unread⟩) := by
  unfold countingCipher
  rw [← counter_succ]
  rfl

theorem readFrame_counting {sendKey recvKey rest plaintext : Bytes}
    {sent received : ℕ} (hfits : plaintext.length + tagBytes ≤ maxFrameBytes) :
    FrameConnection.readFrame gcm
        ⟨some (countingCipher sendKey recvKey sent received),
          encodeFrame (sealFrame gcm recvKey (nonceFor (BitVec.ofNat 64 received))
            plaintext) ++ rest⟩ =
      (.ok (some plaintext),
        ⟨some (countingCipher sendKey recvKey sent (received + 1)), rest⟩) :=
  readFrameOf_counting .csharp gcm hfits (by simp)

/-- The two ciphers count the frames of the two directions. -/
structure Link.Invariant (clientToServer serverToClient : Bytes)
    (link : Link) : Prop where
  notFailed : link.failed = false
  clientCipher : link.client.cipher = some (countingCipher clientToServer
    serverToClient link.clientSent.length link.clientReceived.length)
  serverCipher : link.server.cipher = some (countingCipher serverToClient
    clientToServer link.serverSent.length link.serverReceived.length)
  toServer : Direction gcm clientToServer link.clientSent link.serverReceived
    link.server.unread
  toClient : Direction gcm serverToClient link.serverSent link.clientReceived
    link.client.unread
  clientBound : kind = .swift → link.clientSent.length < 2 ^ 64
  serverBound : kind = .swift → link.serverSent.length < 2 ^ 64

variable {kind gcm} {clientToServer serverToClient : Bytes} {link next : Link}

theorem Link.Invariant.inOrder
    (hinv : link.Invariant kind gcm clientToServer serverToClient) :
    link.InOrder := by
  constructor
  · exact hinv.notFailed
  · exact hinv.toServer.isPrefix
  · exact hinv.toClient.isPrefix
  · exact hinv.toServer.all
  · exact hinv.toClient.all

theorem Link.Invariant.client_eq
    (hinv : link.Invariant kind gcm clientToServer serverToClient) :
    link.client = ⟨some (countingCipher clientToServer serverToClient
      link.clientSent.length link.clientReceived.length), link.client.unread⟩ := by
  rw [← hinv.clientCipher]

theorem Link.Invariant.server_eq
    (hinv : link.Invariant kind gcm clientToServer serverToClient) :
    link.server = ⟨some (countingCipher serverToClient clientToServer
      link.serverSent.length link.serverReceived.length), link.server.unread⟩ := by
  rw [← hinv.serverCipher]

theorem start_invariant (kind : ClientKind) (gcm : AesGcm Bytes)
    (clientToServer serverToClient : Bytes) :
    (Link.start (.create clientToServer serverToClient)
      (.create serverToClient clientToServer)).Invariant kind gcm
        clientToServer serverToClient := by
  have hempty (key : Bytes) : Direction gcm key [] [] [] :=
    ⟨[], rfl, rfl, by simp⟩
  constructor
  · rfl
  · rfl
  · rfl
  · exact hempty clientToServer
  · exact hempty serverToClient
  · simp [Link.start]
  · simp [Link.start]

theorem Link.Invariant.clientSend {plaintext : Bytes}
    (hinv : link.Invariant kind gcm clientToServer serverToClient)
    (hadmissible : link.Admissible kind (.clientSend plaintext)) :
    (Agreement.clientSend kind gcm link plaintext).Invariant kind gcm
      clientToServer serverToClient := by
  obtain ⟨hfits, hbound⟩ := hadmissible
  unfold Agreement.clientSend
  rw [hinv.client_eq, writeFrameOf_counting kind gcm hbound]
  constructor
  · exact hinv.notFailed
  · simp
  · exact hinv.serverCipher
  · exact hinv.toServer.send hfits
  · exact hinv.toClient
  · intro hswift
    simpa using hbound hswift
  · exact hinv.serverBound

theorem Link.Invariant.serverSend {plaintext : Bytes}
    (hinv : link.Invariant kind gcm clientToServer serverToClient)
    (hadmissible : link.Admissible kind (.serverSend plaintext)) :
    (Agreement.serverSend gcm link plaintext).Invariant kind gcm
      clientToServer serverToClient := by
  obtain ⟨hfits, hbound⟩ := hadmissible
  unfold Agreement.serverSend
  rw [hinv.server_eq, writeFrame_counting]
  constructor
  · exact hinv.notFailed
  · exact hinv.clientCipher
  · simp
  · exact hinv.toServer
  · exact hinv.toClient.send hfits
  · exact hinv.clientBound
  · intro hswift
    simpa using hbound hswift

theorem Link.Invariant.clientReceive
    (hinv : link.Invariant kind gcm clientToServer serverToClient)
    (hunread : link.client.unread ≠ []) :
    (Agreement.clientReceive kind gcm link).Invariant kind gcm
      clientToServer serverToClient := by
  obtain ⟨plaintext, rest, hlt, hbytes, hfits, hrest⟩ :=
    hinv.toClient.receive hunread
  have hbound : kind = .swift → link.clientReceived.length + 1 < 2 ^ 64 := by
    intro hswift
    have hsent := hinv.serverBound hswift
    omega
  unfold Agreement.clientReceive
  rw [hinv.client_eq, hbytes, readFrameOf_counting kind gcm hfits hbound]
  constructor
  · exact hinv.notFailed
  · simp
  · exact hinv.serverCipher
  · exact hinv.toServer
  · exact hrest
  · exact hinv.clientBound
  · exact hinv.serverBound

theorem Link.Invariant.serverReceive
    (hinv : link.Invariant kind gcm clientToServer serverToClient)
    (hunread : link.server.unread ≠ []) :
    (Agreement.serverReceive gcm link).Invariant kind gcm
      clientToServer serverToClient := by
  obtain ⟨plaintext, rest, _, hbytes, hfits, hrest⟩ :=
    hinv.toServer.receive hunread
  unfold Agreement.serverReceive
  rw [hinv.server_eq, hbytes, readFrame_counting gcm hfits]
  constructor
  · exact hinv.notFailed
  · exact hinv.clientCipher
  · simp
  · exact hrest
  · exact hinv.toClient
  · exact hinv.clientBound
  · exact hinv.serverBound

theorem Link.Invariant.step {action : Action}
    (hinv : link.Invariant kind gcm clientToServer serverToClient)
    (hadmissible : link.Admissible kind action)
    (hstep : (machine kind gcm).step link action = some next) :
    next.Invariant kind gcm clientToServer serverToClient := by
  simp only [machine, Agreement.step] at hstep
  cases action with
  | clientSend plaintext =>
      have heq := Option.some.inj hstep
      subst next
      exact hinv.clientSend hadmissible
  | serverSend plaintext =>
      have heq := Option.some.inj hstep
      subst next
      exact hinv.serverSend hadmissible
  | clientReceive =>
      by_cases hunread : link.client.unread = []
      · simp [hunread] at hstep
      · simp only [if_neg hunread, Option.some.injEq] at hstep
        subst next
        exact hinv.clientReceive hunread
  | serverReceive =>
      by_cases hunread : link.server.unread = []
      · simp [hunread] at hstep
      · simp only [if_neg hunread, Option.some.injEq] at hstep
        subst next
        exact hinv.serverReceive hunread

end Steps

def Mirrored (client server : AeadFrameCipher Bytes) : Prop :=
  client.sendKey = server.recvKey ∧ client.recvKey = server.sendKey ∧
    client.sendCounter = 0 ∧ client.recvCounter = 0 ∧
    server.sendCounter = 0 ∧ server.recvCounter = 0

/-- Whichever client answers it, an honest handshake ends with mirrored
ciphers, and every admissible run of the connection delivers every frame to
the other side in the order it was sent. -/
theorem handshake_agreement (parties : HonestParties) (kind : ClientKind)
    (toClient toServer : Bytes)
    (hserver : (parties.server toServer).1 = toClient)
    (hclient : (parties.client kind toClient).1 = toServer) :
    ∃ client result, (parties.client kind toClient).2 = .ok client ∧
      (parties.server toServer).2.1 = .ok result ∧
      Mirrored client result.cipher ∧
      ∀ acts link,
        (machine kind parties.gcm).RunMeets (Link.Admissible kind)
          (Link.start client result.cipher) acts →
        (machine kind parties.gcm).run (Link.start client result.cipher) acts =
          some link → link.InOrder := by
  rw [parties.server_written] at hserver
  subst toClient
  rw [parties.client_offer kind] at hclient ⊢
  subst toServer
  obtain ⟨result, hresult, hcipher⟩ := parties.server_reply
  refine ⟨_, result, rfl, hresult, ?_, ?_⟩
  · rw [hcipher]
    exact ⟨rfl, rfl, rfl, rfl, rfl, rfl⟩
  · rw [hcipher]
    intro acts link hadmissible hrun
    have hinv : link.Invariant kind parties.gcm parties.clientToServer
        parties.serverToClient :=
      (machine kind parties.gcm).run_invariant
        (fun _ _ _ hinv hmeets hstep => Link.Invariant.step hinv hmeets hstep)
        (start_invariant kind parties.gcm _ _) hadmissible hrun
    exact hinv.inOrder

/-! ## The two limits -/

def loopback : HonestParties where
  codec := Pb.proto3
  gcm := AesGcm.clear
  hmac := ⟨fun key data => ((data ++ key).take 32 ++ List.replicate 32 0).take 32,
    by intro key data; simp⟩
  identity :=
    { kemPublicKey := [1], sigPublicKey := [2], sign := fun message => 3 :: message
      decapsulate := fun ciphertext => some ciphertext.reverse }
  provider :=
    { verify := fun _ message signature => .ok (signature = 3 :: message)
      importKemPublicKey := fun _ => .ok ()
      encapsulate := fun _ => .ok ([4, 5], [5, 4]) }
  sessionId := List.replicate 32 9
  ciphertext := [4, 5]
  sharedSecret := [5, 4]
  verify_sign := by simp
  import_kem := rfl
  encapsulate_kem := rfl
  decapsulate_ciphertext := rfl
  offer_fits := by decide
  reply_fits := by decide

theorem handshake_agreement_loopback :
    ∃ client result,
      (loopback.client .kotlin (encodeFrame loopback.offerBytes)).2 = .ok client ∧
      (loopback.server (encodeFrame loopback.replyBytes)).2.1 = .ok result ∧
      Mirrored client result.cipher ∧
      ∃ link, (machine .kotlin loopback.gcm).run (Link.start client result.cipher)
          [.clientSend [1, 2], .serverSend [3]] = some link ∧ link.InOrder := by
  have hserver := loopback.server_written (encodeFrame loopback.replyBytes)
  have hclient : (loopback.client .kotlin (encodeFrame loopback.offerBytes)).1 =
      encodeFrame loopback.replyBytes := by
    rw [loopback.client_offer]
  obtain ⟨client, result, hok, hresult, hmirrored, hrun⟩ :=
    handshake_agreement loopback .kotlin _ _ hserver hclient
  have hadmissible : (machine .kotlin loopback.gcm).RunMeets
      (Link.Admissible .kotlin) (Link.start client result.cipher)
      [.clientSend [1, 2], .serverSend [3]] := by
    refine ⟨⟨by decide, by simp⟩, fun next _ => ⟨⟨by decide, by simp⟩, ?_⟩⟩
    intro _ _
    trivial
  exact ⟨client, result, hok, hresult, hmirrored, _, rfl,
    hrun _ _ hadmissible rfl⟩

theorem oversized_run (gcm : AesGcm Bytes) (client server : AeadFrameCipher Bytes)
    (plaintext : Bytes) (hlarge : maxFrameBytes < plaintext.length + tagBytes)
    (hlt : plaintext.length + tagBytes < 256 ^ 4) :
    ∃ link, (machine .csharp gcm).run (Link.start client server)
        [.clientSend plaintext, .serverReceive] = some link ∧
      link.failed = true := by
  have hlength := sealFrame_length gcm client.sendKey
    (nonceFor client.sendCounter) plaintext
  generalize hframe : sealFrame gcm client.sendKey
    (nonceFor client.sendCounter) plaintext = frame at hlength
  have hread : readPayload (encodeFrame frame) =
      .error (.lengthOutOfRange frame.length) := by
    have hrefused := readPayload_encodeFrame_of_large [] (show
      maxFrameBytes < frame.length by omega) (by omega)
    simpa using hrefused
  have hne : encodeFrame frame ≠ [] := by
    intro hnil
    have hzero := congrArg List.length hnil
    simp [encodeFrame_length] at hzero
  have hserver : (clientSend .csharp gcm (Link.start client server)
      plaintext).server = ⟨some server, encodeFrame frame⟩ := by
    simp only [clientSend, writeFrameOf, Link.start, FrameConnection.writeFrame,
      encryptOutbound, hframe, arrive, List.nil_append]
  refine ⟨serverReceive gcm
    (clientSend .csharp gcm (Link.start client server) plaintext), ?_, ?_⟩
  · simp [Machine.run, machine, step, hserver, hne]
  · simp [serverReceive, hserver, FrameConnection.readFrame,
      FrameConnection.readFrameWith, hread]

/-- The iOS client gets through any number of frames below `2 ^ 64`. -/
theorem swift_sends (gcm : AesGcm Bytes) (clientToServer serverToClient : Bytes)
    (n : ℕ) (hn : n < 2 ^ 64) :
    ∃ link, (machine .swift gcm).run
        (Link.start (.create clientToServer serverToClient)
          (.create serverToClient clientToServer))
        (List.replicate n (.clientSend [])) = some link ∧
      link.Invariant .swift gcm clientToServer serverToClient ∧
      link.clientSent.length = n := by
  induction n with
  | zero => exact ⟨_, rfl, start_invariant .swift gcm _ _, rfl⟩
  | succ n ih =>
      obtain ⟨link, hrun, hinv, hcount⟩ := ih (by omega)
      have hadmissible : link.Admissible .swift (.clientSend []) := by
        refine ⟨by decide, fun _ => ?_⟩
        omega
      refine ⟨clientSend .swift gcm link [], ?_, hinv.clientSend hadmissible, ?_⟩
      · rw [List.replicate_succ', (machine .swift gcm).run_append_of_run hrun]
        rfl
      · unfold clientSend
        rw [hinv.client_eq, writeFrameOf_counting .swift gcm hadmissible.2]
        simp [hcount]

theorem swift_overflow (gcm : AesGcm Bytes) (clientToServer serverToClient : Bytes) :
    ∃ link, (machine .swift gcm).run
        (Link.start (.create clientToServer serverToClient)
          (.create serverToClient clientToServer))
        (List.replicate (2 ^ 64) (.clientSend [])) = some link ∧
      link.failed = true := by
  obtain ⟨link, hrun, hinv, hcount⟩ :=
    swift_sends gcm clientToServer serverToClient (2 ^ 64 - 1) (by norm_num)
  refine ⟨clientSend .swift gcm link [], ?_, ?_⟩
  · have hsplit : (2 : ℕ) ^ 64 = 2 ^ 64 - 1 + 1 := by norm_num
    rw [hsplit, List.replicate_succ', (machine .swift gcm).run_append_of_run hrun]
    rfl
  · have htrap : advanceSwift (BitVec.ofNat 64 (2 ^ 64 - 1)) =
        .error .counterOverflow := by decide
    unfold clientSend
    rw [hinv.client_eq, hcount]
    simp only [writeFrameOf, FrameConnection.writeFrameSwift, encryptOutboundSwift,
      countingCipher, htrap]

theorem disorder_beyond_limits :
    ∃ client result,
      (loopback.client .csharp (encodeFrame loopback.offerBytes)).2 = .ok client ∧
      (loopback.client .swift (encodeFrame loopback.offerBytes)).2 = .ok client ∧
      (loopback.server (encodeFrame loopback.replyBytes)).2.1 = .ok result ∧
      (∃ link, (machine .csharp loopback.gcm).run (Link.start client result.cipher)
          [.clientSend (List.replicate maxFrameBytes 0), .serverReceive] =
            some link ∧ ¬ link.InOrder) ∧
      ∃ link, (machine .swift loopback.gcm).run (Link.start client result.cipher)
          (List.replicate (2 ^ 64) (.clientSend [])) = some link ∧
        ¬ link.InOrder := by
  obtain ⟨result, hresult, hcipher⟩ := loopback.server_reply
  refine ⟨_, result, by rw [loopback.client_offer], by rw [loopback.client_offer],
    hresult, ?_, ?_⟩
  · obtain ⟨link, hrun, hfailed⟩ := oversized_run loopback.gcm
      (.create loopback.clientToServer loopback.serverToClient) result.cipher
      (List.replicate maxFrameBytes 0)
      (by rw [List.length_replicate]; decide)
      (by rw [List.length_replicate]; norm_num [maxFrameBytes, tagBytes])
    refine ⟨link, hrun, fun horder => ?_⟩
    simp [horder.notFailed] at hfailed
  · rw [hcipher]
    obtain ⟨link, hrun, hfailed⟩ := swift_overflow loopback.gcm
      loopback.clientToServer loopback.serverToClient
    refine ⟨link, hrun, fun horder => ?_⟩
    simp [horder.notFailed] at hfailed

end Agreement

end NativeInterop
