import NativeInterop.HandleClient
import NativeInterop.InferenceSession
import Mathlib.Tactic

/-!
# The streaming clients

The Android `PbInferenceClient` and the iOS `PbRagService` read the chunks that
`StreamRagAsync` writes until one is final.  A fault of the engine, or the loss
of the connection, cuts this stream after any number of chunks and any number
of bytes of the next frame, and the client then meets either the end of the
stream or a reset.

Both readers return nothing at a clean end of stream, and both loops leave on
nothing; what follows decides for every cut whether the client notices.
-/

namespace NativeInterop

namespace RagClients

open AeadFrameCipher HandleClient Pb

variable {Key : Type*}

inductive Ending where
  | eof
  | reset
  deriving DecidableEq, Repr

inductive StreamError where
  | frame (error : FrameError)
  | connectionReset
  | malformedEnvelope
  | errorFrame (code : BitVec 32) (message : String)
  | unexpectedBody (message : String)
  deriving DecidableEq, Repr

/-- How a stream ends for its consumer: normally, with or without a final
chunk having been received, or with an error. -/
inductive Outcome where
  | completed (finalReceived : Bool)
  | failed (error : StreamError)
  | unfinished
  deriving DecidableEq, Repr

structure Token where
  index : BitVec 32
  text : String
  isFinal : Bool
  deriving DecidableEq, Repr

/-- `readEnvelope` over an implementation's `readFrame`. -/
def readEnvelopeWith
    (readFrame : FrameConnection Key →
      Except FrameError (Option Bytes) × FrameConnection Key)
    (codec : EnvelopeCodec) (ending : Ending) (connection : FrameConnection Key) :
    Except StreamError (Option Envelope) × FrameConnection Key :=
  match readFrame connection with
  | (.error e, next) => (.error (.frame e), next)
  | (.ok none, next) =>
      match ending with
      | .eof => (.ok none, next)
      | .reset => (.error .connectionReset, next)
  | (.ok (some bytes), next) =>
      match codec.parse bytes with
      | none => (.error .malformedEnvelope, next)
      | some envelope => (.ok (some envelope), next)

/-- The reading loop of both clients: what is handed on for each chunk, and how
the stream ends. -/
def relay {α : Type*}
    (readEnvelope : FrameConnection Key →
      Except StreamError (Option Envelope) × FrameConnection Key)
    (emit : RagChunk → List α) (unexpected : Envelope → String) :
    ℕ → FrameConnection Key → List α × Outcome
  | 0, _ => ([], .unfinished)
  | fuel + 1, connection =>
      match readEnvelope connection with
      | (.error e, _) => ([], .failed e)
      | (.ok none, _) => ([], .completed false)
      | (.ok (some envelope), next) =>
          match envelope.body with
          | some (.ragChunk chunk) =>
              if chunk.final then (emit chunk, .completed true)
              else
                let (items, outcome) := relay readEnvelope emit unexpected fuel next
                (emit chunk ++ items, outcome)
          | some (.error error) => ([], .failed (.errorFrame error.code error.message))
          | _ => ([], .failed (.unexpectedBody (unexpected envelope)))

section Clients

variable (codec : EnvelopeCodec) (gcm : AesGcm Key) (ending : Ending)
  (connection : FrameConnection Key)

/-- `PbInferenceClient.stream`. -/
def streamKotlin : List Token × Outcome :=
  relay (readEnvelopeWith (FrameConnection.readFrameKotlin gcm) codec ending)
    (fun chunk => [⟨chunk.index, chunk.text, chunk.final⟩])
    (fun envelope => "framed-protobuf: unexpected " ++ envelope.bodyCaseKotlin ++
      " during rag stream")
    (connection.unread.length + 1) connection

/-- `PbRagService.answer`. -/
def answerSwift : List String × Outcome :=
  relay (readEnvelopeWith (FrameConnection.readFrameSwift gcm) codec ending)
    (fun chunk => if chunk.final then [] else [chunk.text])
    (fun _ => "rag: expected ragChunk")
    (connection.unread.length + 1) connection

end Clients

def Outcome.Honest (outcome : Outcome) : Prop :=
  outcome = .completed true ∨ ∃ error, outcome = .failed error

/-! ## What the server wrote -/

def chunkEnvelope (requestId : String) (chunk : RagChunk) : Envelope :=
  ⟨requestId, some (.ragChunk chunk)⟩

def payloadOf (codec : EnvelopeCodec) (gcm : AesGcm Key)
    (connection : FrameConnection Key) (envelope : Envelope) : Bytes :=
  match connection.cipher with
  | none => codec.serialize envelope
  | some cipher =>
      sealFrame gcm cipher.sendKey (nonceFor cipher.sendCounter)
        (codec.serialize envelope)

/-- The bytes `StreamRagAsync` has put on the wire for the given chunks. -/
def streamBytes (codec : EnvelopeCodec) (gcm : AesGcm Key) (requestId : String) :
    FrameConnection Key → List RagChunk → Bytes
  | _, [] => []
  | server, chunk :: rest =>
      let (bytes, next) :=
        server.writeFrame gcm (codec.serialize (chunkEnvelope requestId chunk))
      bytes ++ streamBytes codec gcm requestId next rest

/-- The two ends agree on the key and the number of the next frame. -/
def Synced (server client : FrameConnection Key) : Prop :=
  match server.cipher, client.cipher with
  | none, none => True
  | some s, some c => c.recvKey = s.sendKey ∧ c.recvCounter = s.sendCounter
  | _, _ => False

/-- The beginning of a frame that was not written to its end. -/
def CutFrame (bytes : Bytes) : Prop :=
  ∃ payload : Bytes, payload.length < 256 ^ 4 ∧ bytes <+: encodeFrame payload ∧
    bytes.length < (encodeFrame payload).length

def Oversized (codec : EnvelopeCodec) (server : FrameConnection Key)
    (requestId : String) (chunk : RagChunk) : Prop :=
  maxFrameBytes < (codec.serialize (chunkEnvelope requestId chunk)).length +
    (if server.cipher.isSome then tagBytes else 0)

instance (codec : EnvelopeCodec) (server : FrameConnection Key) (requestId : String)
    (chunk : RagChunk) : Decidable (Oversized codec server requestId chunk) :=
  inferInstanceAs (Decidable (_ < _))

/-- The frame counter reaches its last value within the next `count` frames. -/
def CounterExhausted (server : FrameConnection Key) (count : ℕ) : Prop :=
  ∃ cipher, server.cipher = some cipher ∧ 2 ^ 64 ≤ cipher.sendCounter.toNat + count

/-- The client has a reason to stop that is not a clean end of stream: a final
or an oversized chunk, a counter that ran out, a reset, or a cut that is not
quiet. -/
def Noticed (codec : EnvelopeCodec) (exhausted : FrameConnection Key → ℕ → Prop)
    (quiet : Bytes → Prop) (server : FrameConnection Key) (requestId : String)
    (chunks : List RagChunk) (cut : Bytes) (ending : Ending) : Prop :=
  (∃ chunk ∈ chunks, chunk.final = true ∨ Oversized codec server requestId chunk) ∨
    exhausted server chunks.length ∨ ending = .reset ∨ ¬ quiet cut

/-- For the Android client a cut inside the length prefix is quiet. -/
def NoticedKotlin (codec : EnvelopeCodec) :
    FrameConnection Key → String → List RagChunk → Bytes → Ending → Prop :=
  Noticed codec (fun _ _ => False) fun cut => cut.length < 4

/-- For the iOS client only a cut at the frame boundary is quiet, and its
counter traps where the engine's wraps. -/
def NoticedSwift (codec : EnvelopeCodec) :
    FrameConnection Key → String → List RagChunk → Bytes → Ending → Prop :=
  Noticed codec CounterExhausted fun cut => cut = []

section Server

variable (codec : EnvelopeCodec) (gcm : AesGcm Key)

theorem writeFrame_payloadOf (server : FrameConnection Key) (envelope : Envelope) :
    (server.writeFrame gcm (codec.serialize envelope)).1 =
      encodeFrame (payloadOf codec gcm server envelope) := by
  unfold FrameConnection.writeFrame payloadOf
  cases server.cipher with
  | none => rfl
  | some cipher => rfl

theorem payloadOf_length (server : FrameConnection Key) (envelope : Envelope) :
    (payloadOf codec gcm server envelope).length =
      (codec.serialize envelope).length +
        (if server.cipher.isSome then tagBytes else 0) := by
  unfold payloadOf
  cases server.cipher with
  | none => rfl
  | some cipher => simp

theorem payloadOf_pos (server : FrameConnection Key) (requestId : String)
    (chunk : RagChunk) :
    0 < (payloadOf codec gcm server (chunkEnvelope requestId chunk)).length := by
  have hne := codec.serialize_ne_nil (chunkEnvelope requestId chunk)
    (by simp [chunkEnvelope])
  have hpos := List.length_pos_iff.mpr hne
  rw [payloadOf_length]
  omega

theorem writeFrame_cipher_isSome (server : FrameConnection Key) (plaintext : Bytes) :
    (server.writeFrame gcm plaintext).2.cipher.isSome = server.cipher.isSome := by
  unfold FrameConnection.writeFrame
  cases hcipher : server.cipher with
  | none => simp [hcipher]
  | some cipher => simp

theorem oversized_writeFrame (server : FrameConnection Key) (plaintext : Bytes)
    (requestId : String) (chunk : RagChunk) :
    Oversized codec (server.writeFrame gcm plaintext).2 requestId chunk ↔
      Oversized codec server requestId chunk := by
  unfold Oversized
  rw [writeFrame_cipher_isSome]

theorem streamBytes_eq (server : FrameConnection Key) (requestId : String)
    (chunks : List RagChunk) :
    streamBytes codec gcm requestId server chunks =
      (writeEnvelopes codec gcm server
        (chunks.map (chunkEnvelope requestId))).1.flatMap Event.bytes := by
  induction chunks generalizing server with
  | nil => rfl
  | cons chunk rest ih =>
      simp only [streamBytes, ih, List.map_cons, writeEnvelopes, writeEnvelope,
        List.flatMap_cons, Event.bytes]

theorem length_le_streamBytes (server : FrameConnection Key) (requestId : String)
    (chunks : List RagChunk) :
    chunks.length ≤ (streamBytes codec gcm requestId server chunks).length := by
  induction chunks generalizing server with
  | nil => simp
  | cons chunk rest ih =>
      have hrest := ih
        (server.writeFrame gcm (codec.serialize (chunkEnvelope requestId chunk))).2
      simp only [streamBytes, writeFrame_payloadOf, List.length_append, List.length_cons,
        encodeFrame_length]
      omega

end Server

/-! ## Cut frames -/

theorem readPayloadKotlin_short {bytes : Bytes} (hshort : bytes.length < 4) :
    readPayloadKotlin bytes = .ok none := by
  unfold readPayloadKotlin
  rw [readExact_eq_none_iff.mpr hshort]

/-- A complete prefix of a cut frame announces more bytes than follow. -/
theorem CutFrame.header {bytes : Bytes} (hcut : CutFrame bytes)
    (hlong : 4 ≤ bytes.length) :
    (bytes.drop 4).length < ofLittleEndian (bytes.take 4) := by
  obtain ⟨payload, hlt, hbegin, hless⟩ := hcut
  have htake : bytes.take 4 = littleEndian 4 payload.length := by
    obtain ⟨rest, hrest⟩ := hbegin
    have hframe : (encodeFrame payload).take 4 = littleEndian 4 payload.length := by
      unfold encodeFrame
      rw [List.take_left' (littleEndian_length 4 _)]
    rw [← hframe, ← hrest, List.take_append_of_le_length hlong]
  rw [htake, ofLittleEndian_littleEndian_of_lt hlt, List.length_drop]
  rw [encodeFrame_length] at hless
  omega

theorem readPayloadKotlin_cut {bytes : Bytes} (hcut : CutFrame bytes)
    (hlong : 4 ≤ bytes.length) : ∃ error, readPayloadKotlin bytes = .error error := by
  have hheader := hcut.header hlong
  unfold readPayloadKotlin
  simp only [readExact, if_pos hlong]
  split_ifs with hrange hfits
  · exact ⟨_, rfl⟩
  · omega
  · exact ⟨_, rfl⟩

theorem readPayloadSwift_nil : readPayloadSwift [] = .ok none := rfl

theorem readPayloadSwift_cut {bytes : Bytes} (hcut : CutFrame bytes)
    (hne : bytes ≠ []) : ∃ error, readPayloadSwift bytes = .error error := by
  unfold readPayloadSwift readExactlySwift
  by_cases hlong : 4 ≤ bytes.length
  · have hheader := hcut.header hlong
    simp only [if_pos hlong, bind, Except.bind]
    split_ifs with hlarge hzero hfits hnil
    · exact ⟨_, rfl⟩
    · omega
    · omega
    · exact ⟨_, rfl⟩
    · exact ⟨_, rfl⟩
  · simp only [if_neg hlong, if_neg hne, bind, Except.bind]
    exact ⟨_, rfl⟩

theorem readPayloadKotlin_encodeFrame_of_large {payload : Bytes} (rest : Bytes)
    (hlarge : maxFrameBytes < payload.length) (hlt : payload.length < 256 ^ 4) :
    readPayloadKotlin (encodeFrame payload ++ rest) =
      .error (.lengthOutOfRange payload.length) := by
  simp only [readPayloadKotlin, readExact_prefix_encodeFrame,
    ofLittleEndian_littleEndian_of_lt hlt, hlarge, or_true, if_true]

theorem readPayloadSwift_encodeFrame_of_large {payload : Bytes} (rest : Bytes)
    (hlarge : maxFrameBytes < payload.length) (hlt : payload.length < 256 ^ 4) :
    readPayloadSwift (encodeFrame payload ++ rest) =
      .error (.frameTooLarge payload.length) := by
  simp only [readPayloadSwift, readExactlySwift_prefix_encodeFrame,
    ofLittleEndian_littleEndian_of_lt hlt, hlarge, if_true, bind, Except.bind]

/-! ## One frame -/

/-- What the loop needs to know of an implementation's `readFrame`.  `exhausted
server count` says that the cipher stops within the next `count` frames, and
`quiet` tells the cuts that are taken for a clean end of stream. -/
structure StreamReader (codec : EnvelopeCodec) (gcm : AesGcm Key)
    (readFrame : FrameConnection Key →
      Except FrameError (Option Bytes) × FrameConnection Key)
    (exhausted : FrameConnection Key → ℕ → Prop) (quiet : Bytes → Prop) : Prop where
  exhausted_zero : ∀ server, ¬ exhausted server 0
  exhausted_succ : ∀ server plaintext count,
    exhausted server (count + 1) ↔
      exhausted server 1 ∨ exhausted (server.writeFrame gcm plaintext).2 count
  reads : ∀ server client envelope rest, Synced server client →
    client.unread = encodeFrame (payloadOf codec gcm server envelope) ++ rest →
    0 < (payloadOf codec gcm server envelope).length →
    (payloadOf codec gcm server envelope).length ≤ maxFrameBytes →
    ¬ exhausted server 1 →
    ∃ next, readFrame client = (.ok (some (codec.serialize envelope)), next) ∧
      next.unread = rest ∧
      Synced (server.writeFrame gcm (codec.serialize envelope)).2 next
  stops : ∀ server client envelope rest, Synced server client →
    client.unread = encodeFrame (payloadOf codec gcm server envelope) ++ rest →
    0 < (payloadOf codec gcm server envelope).length →
    (payloadOf codec gcm server envelope).length ≤ maxFrameBytes →
    exhausted server 1 → ∃ error next, readFrame client = (.error error, next)
  refuses : ∀ (client : FrameConnection Key) (payload rest : Bytes),
    client.unread = encodeFrame payload ++ rest →
    maxFrameBytes < payload.length → payload.length < 256 ^ 4 →
    ∃ error next, readFrame client = (.error error, next)
  loud : ∀ client : FrameConnection Key, CutFrame client.unread →
    ¬ quiet client.unread → ∃ error next, readFrame client = (.error error, next)
  ends : ∀ client : FrameConnection Key, CutFrame client.unread →
    quiet client.unread → ∃ next, readFrame client = (.ok none, next)

section Readers

variable {readPayload : Bytes → Except FrameError (Option (Bytes × Bytes))}
  {decrypt : AeadFrameCipher Key → Bytes →
    Except CipherError Bytes × AeadFrameCipher Key}

theorem readFrameWith_error {client : FrameConnection Key}
    (hread : ∃ error, readPayload client.unread = .error error) :
    ∃ error next,
      FrameConnection.readFrameWith readPayload decrypt client = (.error error, next) := by
  obtain ⟨error, hread⟩ := hread
  unfold FrameConnection.readFrameWith
  rw [hread]
  exact ⟨_, _, rfl⟩

theorem readFrameWith_none {client : FrameConnection Key}
    (hread : readPayload client.unread = .ok none) :
    ∃ next, FrameConnection.readFrameWith readPayload decrypt client =
      (.ok none, next) := by
  unfold FrameConnection.readFrameWith
  rw [hread]
  exact ⟨_, rfl⟩

/-- A synced client that decrypts what the server sealed reads the frame and
stays synced. -/
theorem readFrameWith_reads {codec : EnvelopeCodec} {gcm : AesGcm Key}
    {server client : FrameConnection Key} {envelope : Envelope} {rest : Bytes}
    (hsynced : Synced server client)
    (hread : readPayload client.unread =
      .ok (some (payloadOf codec gcm server envelope, rest)))
    (hdecrypt : ∀ cipher, client.cipher = some cipher →
      decrypt cipher (sealFrame gcm cipher.recvKey (nonceFor cipher.recvCounter)
        (codec.serialize envelope)) =
        (.ok (codec.serialize envelope),
          { cipher with recvCounter := cipher.recvCounter + 1 })) :
    ∃ next, FrameConnection.readFrameWith readPayload decrypt client =
        (.ok (some (codec.serialize envelope)), next) ∧
      next.unread = rest ∧
      Synced (server.writeFrame gcm (codec.serialize envelope)).2 next := by
  obtain ⟨serverCipher, serverUnread⟩ := server
  obtain ⟨clientCipher, clientUnread⟩ := client
  cases serverCipher with
  | none =>
      cases clientCipher with
      | none =>
          exact ⟨_, FrameConnection.readFrameWith_plain hread, rfl, trivial⟩
      | some cipher => exact hsynced.elim
  | some sending =>
      cases clientCipher with
      | none => exact hsynced.elim
      | some cipher =>
          obtain ⟨hkey, hcounter⟩ := hsynced
          have hopen := hdecrypt cipher rfl
          rw [hkey, hcounter] at hopen
          have hframe := FrameConnection.readFrameWith_encrypted hread hopen
          exact ⟨_, hframe, rfl, rfl, rfl⟩

end Readers

theorem streamReader_kotlin (codec : EnvelopeCodec) (gcm : AesGcm Key) :
    StreamReader codec gcm (FrameConnection.readFrameKotlin gcm) (fun _ _ => False)
      (fun cut => cut.length < 4) where
  exhausted_zero := fun _ => id
  exhausted_succ := by simp
  reads := by
    intro server client envelope rest hsynced hunread hpos hmax _
    apply readFrameWith_reads hsynced
    · rw [hunread]
      exact readPayloadKotlin_encodeFrame rest hpos hmax
    · intro cipher _
      exact cipher.decryptInboundKotlin_sealFrame gcm _
  stops := fun _ _ _ _ _ _ _ _ hstop => hstop.elim
  refuses := by
    intro client payload rest hunread hlarge hlt
    apply readFrameWith_error
    rw [hunread, readPayloadKotlin_encodeFrame_of_large rest hlarge hlt]
    exact ⟨_, rfl⟩
  loud := by
    intro client hcut hlong
    exact readFrameWith_error (readPayloadKotlin_cut hcut (Nat.not_lt.mp hlong))
  ends := by
    intro client _ hshort
    exact readFrameWith_none (readPayloadKotlin_short hshort)

theorem counterExhausted_succ (gcm : AesGcm Key) (server : FrameConnection Key)
    (plaintext : Bytes) (count : ℕ) :
    CounterExhausted server (count + 1) ↔
      CounterExhausted server 1 ∨
        CounterExhausted (server.writeFrame gcm plaintext).2 count := by
  obtain ⟨cipher, unread⟩ := server
  cases cipher with
  | none => simp [CounterExhausted, FrameConnection.writeFrame]
  | some cipher =>
      have hlt := cipher.sendCounter.isLt
      simp only [CounterExhausted, FrameConnection.writeFrame, encryptOutbound,
        Option.some.injEq, exists_eq_left', BitVec.toNat_add]
      by_cases hlast : 2 ^ 64 ≤ cipher.sendCounter.toNat + 1
      · simp only [hlast, true_or, iff_true]
        omega
      · have hmod : (cipher.sendCounter.toNat + 1) % 2 ^ 64 =
            cipher.sendCounter.toNat + 1 := Nat.mod_eq_of_lt (Nat.not_le.mp hlast)
        simp only [hlast, false_or]
        rw [show BitVec.toNat (1 : BitVec 64) = 1 from rfl, hmod]
        omega

theorem decryptInboundSwift_exhausted (gcm : AesGcm Key)
    (cipher : AeadFrameCipher Key) (plaintext : Bytes)
    (hlast : 2 ^ 64 ≤ cipher.recvCounter.toNat + 1) :
    cipher.decryptInboundSwift gcm
        (sealFrame gcm cipher.recvKey (nonceFor cipher.recvCounter) plaintext) =
      (.error .counterOverflow, cipher) := by
  have hstop : advanceSwift cipher.recvCounter = .error .counterOverflow := by
    rw [advanceSwift, if_neg (Nat.not_lt.mpr hlast)]
  simp [decryptInboundSwift, hstop]

theorem streamReader_swift (codec : EnvelopeCodec) (gcm : AesGcm Key) :
    StreamReader codec gcm (FrameConnection.readFrameSwift gcm) CounterExhausted
      (fun cut => cut = []) where
  exhausted_zero := by
    rintro server ⟨cipher, _, hlarge⟩
    have hlt := cipher.sendCounter.isLt
    omega
  exhausted_succ := counterExhausted_succ gcm
  reads := by
    intro server client envelope rest hsynced hunread _ hmax hcounter
    apply readFrameWith_reads hsynced
    · rw [hunread]
      exact readPayloadSwift_encodeFrame rest hmax
    · intro cipher hcipher
      apply cipher.decryptInboundSwift_sealFrame gcm
      by_contra hlast
      unfold Synced at hsynced
      cases hserver : server.cipher with
      | none => simp [hserver, hcipher] at hsynced
      | some sending =>
          simp only [hserver, hcipher] at hsynced
          rw [hsynced.2] at hlast
          exact hcounter ⟨sending, hserver, Nat.not_lt.mp hlast⟩
  stops := by
    rintro server ⟨clientCipher, unread⟩ envelope rest hsynced hunread _ hmax
      ⟨sending, hserver, hlast⟩
    have hread := readPayloadSwift_encodeFrame rest hmax
    rw [← hunread] at hread
    cases clientCipher with
    | none => simp [Synced, hserver] at hsynced
    | some cipher =>
        simp only [Synced, hserver] at hsynced
        have hpayload : payloadOf codec gcm server envelope =
            sealFrame gcm cipher.recvKey (nonceFor cipher.recvCounter)
              (codec.serialize envelope) := by
          simp only [payloadOf, hserver, hsynced.1, hsynced.2]
        have hstop := decryptInboundSwift_exhausted gcm cipher
          (codec.serialize envelope) (by rw [hsynced.2]; exact hlast)
        refine ⟨.cipher .counterOverflow, ⟨some cipher, rest⟩, ?_⟩
        simp only [FrameConnection.readFrameSwift, FrameConnection.readFrameWith, hread,
          hpayload, hstop]
  refuses := by
    intro client payload rest hunread hlarge hlt
    apply readFrameWith_error
    rw [hunread, readPayloadSwift_encodeFrame_of_large rest hlarge hlt]
    exact ⟨_, rfl⟩
  loud := by
    intro client hcut hne
    exact readFrameWith_error (readPayloadSwift_cut hcut hne)
  ends := by
    intro client _ hnil
    apply readFrameWith_none
    rw [hnil]
    exact readPayloadSwift_nil

/-! ## The loop -/

section Loop

variable {α : Type*} {codec : EnvelopeCodec} {gcm : AesGcm Key}
  {readFrame : FrameConnection Key →
    Except FrameError (Option Bytes) × FrameConnection Key}
  {exhausted : FrameConnection Key → ℕ → Prop} {quiet : Bytes → Prop}
  {emit : RagChunk → List α} {unexpected : Envelope → String} {ending : Ending}
  {client next : FrameConnection Key} {fuel : ℕ}

theorem relay_error {error : FrameError} (hread : readFrame client = (.error error, next)) :
    (relay (readEnvelopeWith readFrame codec ending) emit unexpected (fuel + 1)
      client).2.Honest := by
  right
  exact ⟨.frame error, by simp [relay, readEnvelopeWith, hread]⟩

theorem relay_end (hread : readFrame client = (.ok none, next)) :
    (relay (readEnvelopeWith readFrame codec ending) emit unexpected (fuel + 1)
      client).2.Honest ↔ ending = .reset := by
  cases ending with
  | eof => simp [relay, readEnvelopeWith, hread, Outcome.Honest]
  | reset => simp [relay, readEnvelopeWith, hread, Outcome.Honest]

theorem relay_chunk {requestId : String} {chunk : RagChunk}
    (hread : readFrame client =
      (.ok (some (codec.serialize (chunkEnvelope requestId chunk))), next)) :
    (relay (readEnvelopeWith readFrame codec ending) emit unexpected (fuel + 1)
      client).2.Honest ↔
      chunk.final = true ∨
        (relay (readEnvelopeWith readFrame codec ending) emit unexpected fuel
          next).2.Honest := by
  simp only [relay, readEnvelopeWith, hread, codec.parse_serialize, chunkEnvelope]
  cases chunk.final with
  | true => simp [Outcome.Honest]
  | false => simp

theorem noticed_cons (hreader : StreamReader codec gcm readFrame exhausted quiet)
    {server : FrameConnection Key} (requestId : String) (chunk : RagChunk)
    (rest : List RagChunk) (cut : Bytes)
    (hfits : ¬ Oversized codec server requestId chunk)
    (hcounter : ¬ exhausted server 1) (plaintext : Bytes) :
    Noticed codec exhausted quiet server requestId (chunk :: rest) cut ending ↔
      chunk.final = true ∨
        Noticed codec exhausted quiet (server.writeFrame gcm plaintext).2 requestId
          rest cut ending := by
  simp only [Noticed, List.mem_cons, exists_eq_or_imp, hfits, or_false,
    List.length_cons, hreader.exhausted_succ server plaintext rest.length, hcounter,
    false_or, oversized_writeFrame, or_assoc]

/-- Behind the last frame the reader meets the cut. -/
theorem relay_cut_honest_iff (hreader : StreamReader codec gcm readFrame exhausted quiet)
    (requestId : String) (server : FrameConnection Key) (hcut : CutFrame client.unread) :
    (relay (readEnvelopeWith readFrame codec ending) emit unexpected (fuel + 1)
      client).2.Honest ↔
      Noticed codec exhausted quiet server requestId [] client.unread ending := by
  simp only [Noticed, List.not_mem_nil, false_and, exists_false, List.length_nil,
    hreader.exhausted_zero, false_or]
  by_cases hquiet : quiet client.unread
  · obtain ⟨next, hread⟩ := hreader.ends client hcut hquiet
    simp [relay_end hread, hquiet]
  · obtain ⟨error, next, hread⟩ := hreader.loud client hcut hquiet
    simp [relay_error hread, hquiet]

/-- The loop ends honestly exactly when the cut is noticed: one case for each
way the next frame can be met. -/
theorem relay_honest_iff (hreader : StreamReader codec gcm readFrame exhausted quiet)
    (requestId : String) {cut : Bytes} (hcut : CutFrame cut)
    {chunks : List RagChunk} {server : FrameConnection Key}
    (hsize : ∀ chunk ∈ chunks,
      (codec.serialize (chunkEnvelope requestId chunk)).length + tagBytes < 2 ^ 31)
    (hsynced : Synced server client)
    (hunread : client.unread = streamBytes codec gcm requestId server chunks ++ cut)
    (hfuel : client.unread.length < fuel) :
    (relay (readEnvelopeWith readFrame codec ending) emit unexpected fuel
      client).2.Honest ↔
      Noticed codec exhausted quiet server requestId chunks cut ending := by
  induction chunks generalizing server client fuel with
  | nil =>
      obtain ⟨fuel, rfl⟩ : ∃ k, fuel = k + 1 := ⟨fuel - 1, by omega⟩
      obtain rfl : client.unread = cut := by simpa [streamBytes] using hunread
      exact relay_cut_honest_iff hreader requestId server hcut
  | cons chunk rest ih =>
      obtain ⟨fuel, rfl⟩ : ∃ k, fuel = k + 1 := ⟨fuel - 1, by omega⟩
      simp only [streamBytes, writeFrame_payloadOf, List.append_assoc] at hunread
      have hlength := payloadOf_length codec gcm server (chunkEnvelope requestId chunk)
      have hpos := payloadOf_pos codec gcm server requestId chunk
      have hbound := hsize chunk (List.mem_cons_self)
      by_cases hfits : Oversized codec server requestId chunk
      · have hlt : (payloadOf codec gcm server (chunkEnvelope requestId chunk)).length <
            256 ^ 4 := by
          rw [hlength]
          split_ifs <;> omega
        have hlarge : maxFrameBytes <
            (payloadOf codec gcm server (chunkEnvelope requestId chunk)).length := by
          rw [hlength]
          exact hfits
        obtain ⟨error, next, hread⟩ := hreader.refuses client _ _ hunread hlarge hlt
        have hnoticed : Noticed codec exhausted quiet server requestId (chunk :: rest)
            cut ending := Or.inl ⟨chunk, List.mem_cons_self, Or.inr hfits⟩
        simp only [relay_error hread, hnoticed]
      · have hmax : (payloadOf codec gcm server (chunkEnvelope requestId chunk)).length ≤
            maxFrameBytes := by
          rw [hlength]
          exact Nat.not_lt.mp hfits
        by_cases hcounter : exhausted server 1
        · obtain ⟨error, next, hread⟩ :=
            hreader.stops server client _ _ hsynced hunread hpos hmax hcounter
          have hnoticed : Noticed codec exhausted quiet server requestId (chunk :: rest)
              cut ending := by
            right
            left
            exact (hreader.exhausted_succ server [] rest.length).mpr (Or.inl hcounter)
          simp only [relay_error hread, hnoticed]
        · obtain ⟨next, hread, hrest, hnext⟩ :=
            hreader.reads server client _ _ hsynced hunread hpos hmax hcounter
          have hshorter : next.unread.length < fuel := by
            have htotal := congrArg List.length hunread
            simp only [List.length_append, encodeFrame_length] at htotal
            rw [hrest, List.length_append]
            omega
          rw [relay_chunk hread, noticed_cons hreader requestId chunk rest cut hfits
            hcounter (codec.serialize (chunkEnvelope requestId chunk))]
          rw [ih (fun other hother => hsize other (List.mem_cons_of_mem chunk hother))
            hnext hrest hshorter]

/-- A whole stream of frames within the limit is handed on chunk by chunk, and the
loop leaves on its final chunk. -/
theorem relay_all (hreader : StreamReader codec gcm readFrame exhausted quiet)
    (requestId : String) {init : List RagChunk} {last : RagChunk}
    {server : FrameConnection Key} (hinit : ∀ chunk ∈ init, chunk.final = false)
    (hlast : last.final = true)
    (hfits : ∀ chunk ∈ init ++ [last], ¬ Oversized codec server requestId chunk)
    (hcounter : ¬ exhausted server (init.length + 1)) (hsynced : Synced server client)
    (hunread : client.unread = streamBytes codec gcm requestId server (init ++ [last]))
    (hfuel : init.length < fuel) :
    relay (readEnvelopeWith readFrame codec ending) emit unexpected fuel client =
      ((init ++ [last]).flatMap emit, .completed true) := by
  have hstep : ∀ {client server : FrameConnection Key} {chunk : RagChunk} {rest : List RagChunk},
      Synced server client → ¬ Oversized codec server requestId chunk →
      ¬ exhausted server 1 →
      client.unread = streamBytes codec gcm requestId server (chunk :: rest) →
      ∃ next, readFrame client =
          (.ok (some (codec.serialize (chunkEnvelope requestId chunk))), next) ∧
        next.unread = streamBytes codec gcm requestId
          (server.writeFrame gcm (codec.serialize (chunkEnvelope requestId chunk))).2 rest ∧
        Synced (server.writeFrame gcm (codec.serialize (chunkEnvelope requestId chunk))).2
          next := by
    intro client server chunk rest hsynced hfit hone hunread
    simp only [streamBytes, writeFrame_payloadOf] at hunread
    have hmax : (payloadOf codec gcm server (chunkEnvelope requestId chunk)).length ≤
        maxFrameBytes := by
      rw [payloadOf_length]
      exact Nat.not_lt.mp hfit
    exact hreader.reads server client _ _ hsynced hunread
      (payloadOf_pos codec gcm server requestId chunk) hmax hone
  induction init generalizing server client fuel with
  | nil =>
      obtain ⟨fuel, rfl⟩ : ∃ k, fuel = k + 1 := ⟨fuel - 1, by simp at hfuel; omega⟩
      obtain ⟨next, hread, _⟩ := hstep hsynced (hfits last (by simp)) hcounter hunread
      simp [relay, readEnvelopeWith, hread, codec.parse_serialize, chunkEnvelope, hlast]
  | cons chunk init ih =>
      rw [List.length_cons] at hfuel hcounter
      obtain ⟨fuel, rfl⟩ : ∃ k, fuel = k + 1 := ⟨fuel - 1, by omega⟩
      obtain ⟨hone, hmore⟩ := not_or.mp (mt (hreader.exhausted_succ server
        (codec.serialize (chunkEnvelope requestId chunk)) (init.length + 1)).mpr hcounter)
      obtain ⟨next, hread, hrest, hnext⟩ :=
        hstep hsynced (hfits chunk (by simp)) hone hunread
      have htail := ih (fun other hother => hinit other (List.mem_cons_of_mem chunk hother))
        (fun other hother => by
          rw [oversized_writeFrame]
          exact hfits other (List.mem_cons_of_mem chunk hother)) hmore hnext hrest
        (Nat.lt_of_succ_lt_succ hfuel)
      simp [relay, readEnvelopeWith, hread, codec.parse_serialize, chunkEnvelope,
        hinit chunk (by simp), htail]

end Loop

/-- The chunks `StreamRagAsync` has written after `count` tokens of an answer. -/
def ragChunks (fragments : List String) (count : ℕ) : List RagChunk :=
  ((InferenceOrchestrator.run ⟨fragments, false⟩).take count).map fun token =>
    ⟨token.index, token.text, token.isFinal⟩

/-- A stream cut after any number of chunks and any number of further bytes
ends honestly for a client exactly when the client notices the cut. -/
theorem truncated_stream_honest_iff (codec : EnvelopeCodec) (gcm : AesGcm Key)
    (requestId : String) (fragments : List String) (count : ℕ) (cut : Bytes)
    (ending : Ending) (server client : FrameConnection Key)
    (hsize : ∀ chunk ∈ ragChunks fragments count,
      (codec.serialize (chunkEnvelope requestId chunk)).length + tagBytes < 2 ^ 31)
    (hsynced : Synced server client) (hcut : CutFrame cut)
    (hunread : client.unread =
      streamBytes codec gcm requestId server (ragChunks fragments count) ++ cut) :
    ((streamKotlin codec gcm ending client).2.Honest ↔
      NoticedKotlin codec server requestId (ragChunks fragments count) cut ending) ∧
    ((answerSwift codec gcm ending client).2.Honest ↔
      NoticedSwift codec server requestId (ragChunks fragments count) cut ending) := by
  constructor
  · exact relay_honest_iff (streamReader_kotlin codec gcm) requestId hcut hsize hsynced
      hunread (Nat.lt_succ_self _)
  · exact relay_honest_iff (streamReader_swift codec gcm) requestId hcut hsize hsynced
      hunread (Nat.lt_succ_self _)

def plainServer : FrameConnection Unit := ⟨none, []⟩

/-- What a plaintext client finds when the engine fails after one of two
fragments: one chunk, and a clean end of stream. -/
def clientAfterFault : FrameConnection Unit where
  cipher := none
  unread := streamBytes proto3 .clear "q1" plainServer (ragChunks ["all ", "clear"] 1)

theorem truncated_stream_after_fault :
    ((streamKotlin proto3 .clear .eof clientAfterFault).2.Honest ↔
      NoticedKotlin proto3 plainServer "q1" (ragChunks ["all ", "clear"] 1) [] .eof) ∧
    ((answerSwift proto3 .clear .eof clientAfterFault).2.Honest ↔
      NoticedSwift proto3 plainServer "q1" (ragChunks ["all ", "clear"] 1) [] .eof) := by
  apply truncated_stream_honest_iff proto3 .clear "q1" ["all ", "clear"] 1 [] .eof
    plainServer clientAfterFault
  · decide
  · trivial
  · exact ⟨[0], by decide, List.nil_prefix, by decide⟩
  · simp [clientAfterFault]

/-- Both clients end normally on it, without a final chunk and without an
error, after handing on the first fragment. -/
theorem truncated_answer_completes :
    ¬ (streamKotlin proto3 .clear .eof clientAfterFault).2.Honest ∧
    ¬ (answerSwift proto3 .clear .eof clientAfterFault).2.Honest ∧
    streamKotlin proto3 .clear .eof clientAfterFault =
      ([⟨0, "all ", false⟩], .completed false) ∧
    answerSwift proto3 .clear .eof clientAfterFault =
      (["all "], .completed false) := by
  have hkotlin : streamKotlin proto3 .clear .eof clientAfterFault =
      ([⟨0, "all ", false⟩], .completed false) := by
    rfl
  have hswift : answerSwift proto3 .clear .eof clientAfterFault =
      (["all "], .completed false) := by
    rfl
  rw [hkotlin, hswift]
  simp [Outcome.Honest]

end RagClients

end NativeInterop
