import NativeInterop.EnvelopeWire
import NativeInterop.PqSecureChannel
import Mathlib.Tactic

/-!
# One connection from its first byte to its close

`HandleClientAsync` with its handshake, its read loop and `DispatchAsync`, as a
function from everything the client sends to the list of what the server does
on the connection.  The server is not stopped and the socket stays writable;
the engine is arbitrary and may throw in any request, after any number of
streamed chunks.

Every refusal of the server is an event of the trace, so that a silent close is
a refusal with no error frame between it and the end.
-/

namespace NativeInterop

namespace HandleClient

open Pb PqSecureChannel

variable {Key : Type*}

def errorUnknownRequest : BitVec 32 := 1

def errorHandshakeFailed : BitVec 32 := 2

def errorTamper : BitVec 32 := 3

def errorInternal : BitVec 32 := 4

def errorEnvelope (requestId : String) (code : BitVec 32) (message : String) :
    Envelope where
  requestId := requestId
  body := some (.error ⟨code, message⟩)

/-- What the engine does with the request it is given as the `n`-th: nothing
is returned where it throws, and a stream may throw after its chunks. -/
structure Engine where
  descriptors : ℕ → Option (List FeatureDescriptorPb)
  run : ℕ → String → Option FeatureRunPb
  rag : ℕ → String → List RagChunk × Bool

/-- How `DispatchAsync` ends, with the envelopes it writes. -/
inductive Reply where
  | answered (envelopes : List Envelope)
  | threw (envelopes : List Envelope)
  | unsupported (error : Envelope)

def runToEnvelope (engine : Engine) (n : ℕ) (requestId id : String) : Reply :=
  match engine.run n id with
  | some run => .answered [⟨requestId, some (.runResponse (some run))⟩]
  | none => .threw []

def streamRag (engine : Engine) (n : ℕ) (requestId query : String) : Reply :=
  let envelopes := (engine.rag n query).1.map fun chunk =>
    (⟨requestId, some (.ragChunk chunk)⟩ : Envelope)
  if (engine.rag n query).2 then .answered envelopes else .threw envelopes

def dispatch (engine : Engine) (n : ℕ) (request : Envelope) : Reply :=
  match request.body with
  | some .features =>
      match engine.descriptors n with
      | some features =>
          .answered [⟨request.requestId, some (.featuresResponse features)⟩]
      | none => .threw []
  | some (.run id) => runToEnvelope engine n request.requestId id
  | some (.bench command) => runToEnvelope engine n request.requestId command
  | some .ping =>
      match engine.run n "ping" with
      | some run => .answered [⟨request.requestId, some (.pingResponse run.result)⟩]
      | none => .threw []
  | some (.rag query) => streamRag engine n request.requestId query
  | _ => .unsupported (errorEnvelope request.requestId errorUnknownRequest
      ("Unsupported request: " ++ request.bodyCase ++ "."))

inductive Refusal where
  | handshake
  | lengthOutOfRange
  | authentication
  | malformedFrame
  | unsupportedRequest
  | requestFailed
  deriving DecidableEq, Repr

inductive Event where
  | sent (envelope : Envelope) (bytes : Bytes)
  | refused (refusal : Refusal)
  | closed
  deriving DecidableEq, Repr

def Event.bytes : Event → Bytes
  | .sent _ bytes => bytes
  | _ => []

section Server

variable (codec : EnvelopeCodec) (gcm : AesGcm Key)

def writeEnvelope (connection : FrameConnection Key) (envelope : Envelope) :
    Event × FrameConnection Key :=
  let (bytes, next) := connection.writeFrame gcm (codec.serialize envelope)
  (.sent envelope bytes, next)

def writeEnvelopes (connection : FrameConnection Key) :
    List Envelope → List Event × FrameConnection Key
  | [] => ([], connection)
  | envelope :: rest =>
      let (event, next) := writeEnvelope codec gcm connection envelope
      let (events, last) := writeEnvelopes next rest
      (event :: events, last)

/-- Refuse, send a typed error and close. -/
def refuse (connection : FrameConnection Key) (refusal : Refusal)
    (code : BitVec 32) (message : String) : List Event :=
  [.refused refusal,
    (writeEnvelope codec gcm connection (errorEnvelope "" code message)).1, .closed]

/-- `DispatchAsync` on the connection, and what the loop does after it.  An
exception that no inner clause catches reaches the outer one, which closes
without a word. -/
def dispatchThen (engine : Engine) (n : ℕ) (request : Envelope)
    (connection : FrameConnection Key)
    (continueWith : FrameConnection Key → List Event) : List Event :=
  match dispatch engine n request with
  | .answered envelopes =>
      let (events, next) := writeEnvelopes codec gcm connection envelopes
      events ++ continueWith next
  | .threw envelopes =>
      (writeEnvelopes codec gcm connection envelopes).1 ++
        [.refused .requestFailed, .closed]
  | .unsupported error =>
      let (event, next) := writeEnvelope codec gcm connection error
      .refused .unsupportedRequest :: event :: continueWith next

/-- The loop of `HandleClientAsync`. -/
def serve (engine : Engine) : (fuel n : ℕ) → FrameConnection Key → List Event
  | 0, _, _ => []
  | fuel + 1, n, connection =>
      match connection.readFrame gcm with
      | (.error (.cipher _), next) =>
          refuse codec gcm next .authentication errorTamper
            "frame authentication failed"
      | (.error _, _) => [.refused .lengthOutOfRange, .closed]
      | (.ok none, _) => [.closed]
      | (.ok (some frame), next) =>
          match codec.parse frame with
          | none =>
              refuse codec gcm next .malformedFrame errorInternal
                "malformed request frame"
          | some request =>
              dispatchThen codec gcm engine n request next
                (serve engine fuel (n + 1))

/-- `HandleClientAsync` on everything the client sends. -/
def handleClient (hkdf : Bytes → Bytes → Bytes → Key) (engine : Engine)
    (requirePq : Bool) (identity : Option PqcServerIdentity)
    (sessionId stream : Bytes) : List Event :=
  let connection : FrameConnection Key := ⟨none, stream⟩
  if requirePq then
    match identity with
    | none =>
        refuse codec gcm connection .handshake errorHandshakeFailed
          "server PQ identity unavailable"
    | some identity =>
        match serverHandshake codec gcm hkdf identity sessionId connection with
        | (written, .ok result, next) =>
            .sent (offerEnvelope identity sessionId) written ::
              serve codec gcm engine (stream.length + 1) 0
                (next.useCipher result.cipher)
        | (written, .error (.handshake message), next) =>
            .sent (offerEnvelope identity sessionId) written ::
              refuse codec gcm next .handshake errorHandshakeFailed message
        | (written, .error .other, next) =>
            .sent (offerEnvelope identity sessionId) written ::
              refuse codec gcm next .handshake errorHandshakeFailed
                "handshake failed"
  else serve codec gcm engine (stream.length + 1) 0 connection

end Server

def Event.isError : Event → Bool
  | .sent ⟨_, some (.error _)⟩ _ => true
  | _ => false

def NeverSilent : List Event → Prop
  | [] => True
  | .refused _ :: rest => (∃ event ∈ rest, event.isError = true) ∧ NeverSilent rest
  | .sent _ _ :: rest => NeverSilent rest
  | .closed :: rest => NeverSilent rest

/-! ## When nothing is refused silently -/

/-- The payloads of the complete frames of a stream, and the length out of
range that ends them, if one does. -/
def frames : (fuel : ℕ) → Bytes → List Bytes × Option ℕ
  | 0, _ => ([], none)
  | fuel + 1, stream =>
      match readPayload stream with
      | .error (.lengthOutOfRange length) => ([], some length)
      | .error _ => ([], none)
      | .ok none => ([], none)
      | .ok (some (payload, rest)) =>
          (payload :: (frames fuel rest).1, (frames fuel rest).2)

def openPayload (gcm : AesGcm Key) (recv : Option (Key × BitVec 64))
    (payload : Bytes) : Option Bytes :=
  match recv with
  | none => some payload
  | some (key, counter) =>
      if payload.length < AeadFrameCipher.tagBytes then none
      else AeadFrameCipher.openFrame gcm key (AeadFrameCipher.nonceFor counter) payload

def advance (recv : Option (Key × BitVec 64)) : Option (Key × BitVec 64) :=
  recv.map fun (key, counter) => (key, counter + 1)

/-- The requests in front of the first payload that does not authenticate or
parse, and whether there is no such payload. -/
def requests (codec : EnvelopeCodec) (gcm : AesGcm Key) :
    Option (Key × BitVec 64) → List Bytes → List Envelope × Bool
  | _, [] => ([], true)
  | recv, payload :: rest =>
      match (openPayload gcm recv payload).bind codec.parse with
      | none => ([], false)
      | some request =>
          (request :: (requests codec gcm (advance recv) rest).1,
            (requests codec gcm (advance recv) rest).2)

def Engine.completes (engine : Engine) (n : ℕ) (request : Envelope) : Bool :=
  match request.body with
  | some .features => (engine.descriptors n).isSome
  | some (.run id) => (engine.run n id).isSome
  | some (.bench command) => (engine.run n command).isSome
  | some .ping => (engine.run n "ping").isSome
  | some (.rag query) => (engine.rag n query).2
  | _ => true

/-- The engine completes every request in front of the first refused payload,
and if there is none, the stream does not end in a length out of range. -/
def WellServed (codec : EnvelopeCodec) (gcm : AesGcm Key) (engine : Engine)
    (fuel n : ℕ) (recv : Option (Key × BitVec 64)) (stream : Bytes) : Prop :=
  (∀ k request, (requests codec gcm recv (frames fuel stream).1).1[k]? =
    some request → engine.completes (n + k) request = true) ∧
  ((requests codec gcm recv (frames fuel stream).1).2 = true →
    (frames fuel stream).2 = none)

/-- The same for a whole connection: behind a handshake that fails there is
nothing to serve. -/
def WellServedConnection (codec : EnvelopeCodec) (gcm : AesGcm Key)
    (hkdf : Bytes → Bytes → Bytes → Key) (engine : Engine) (requirePq : Bool)
    (identity : Option PqcServerIdentity) (sessionId stream : Bytes) : Prop :=
  if requirePq then
    match identity, readPayload stream with
    | some identity, .ok (some (payload, rest)) =>
        match acceptReply codec hkdf identity sessionId payload with
        | .ok result =>
            WellServed codec gcm engine (stream.length + 1) 0
              (some (result.cipher.recvKey, 0)) rest
        | .error _ => True
    | _, _ => True
  else WellServed codec gcm engine (stream.length + 1) 0 none stream

theorem readPayload_error {stream : Bytes} {error : FrameError}
    (hread : readPayload stream = .error error) :
    ∃ length, error = .lengthOutOfRange length := by
  unfold readPayload at hread
  split at hread
  · cases hread
  · simp only at hread
    split_ifs at hread with hrange
    · exact ⟨_, (Except.error.inj hread).symm⟩

theorem readPayload_rest {stream payload rest : Bytes}
    (hread : readPayload stream = .ok (some (payload, rest))) :
    rest.length < stream.length := by
  unfold readPayload at hread
  split at hread
  · cases hread
  next lengthPrefix behind hheader =>
    simp only at hread
    split_ifs at hread with hrange
    simp only [readExact] at hheader hread
    split_ifs at hheader hread with hfour hlength
    · simp only [Option.some.injEq, Prod.mk.injEq, Except.ok.injEq] at hheader hread
      rw [← hread.2, ← hheader.2, List.length_drop, List.length_drop]
      omega
    · cases hread

def recvOf (connection : FrameConnection Key) : Option (Key × BitVec 64) :=
  connection.cipher.map fun cipher => (cipher.recvKey, cipher.recvCounter)

section Reading

variable {gcm : AesGcm Key} {connection : FrameConnection Key}
  {payload rest : Bytes}

theorem readFrame_opened {plaintext : Bytes}
    (hread : readPayload connection.unread = .ok (some (payload, rest)))
    (hopen : openPayload gcm (recvOf connection) payload = some plaintext) :
    ∃ next, connection.readFrame gcm = (.ok (some plaintext), next) ∧
      next.unread = rest ∧ recvOf next = advance (recvOf connection) := by
  cases hcipher : connection.cipher with
  | none =>
      have hsame : payload = plaintext := by
        simpa [openPayload, recvOf, hcipher] using hopen
      subst plaintext
      refine ⟨{ connection with unread := rest }, ?_, rfl, ?_⟩
      · simp [FrameConnection.readFrame, FrameConnection.readFrameWith, hread,
          hcipher]
      · simp [recvOf, advance, hcipher]
  | some cipher =>
      simp only [openPayload, recvOf, hcipher, Option.map_some] at hopen
      split_ifs at hopen with hshort
      refine ⟨⟨some { cipher with recvCounter := cipher.recvCounter + 1 }, rest⟩,
        ?_, rfl, ?_⟩
      · simp [FrameConnection.readFrame, FrameConnection.readFrameWith, hread,
          hcipher, AeadFrameCipher.decryptInbound, hshort, hopen]
      · simp [recvOf, advance, hcipher]

theorem readFrame_refused
    (hread : readPayload connection.unread = .ok (some (payload, rest)))
    (hopen : openPayload gcm (recvOf connection) payload = none) :
    ∃ error next, connection.readFrame gcm = (.error (.cipher error), next) := by
  cases hcipher : connection.cipher with
  | none => simp [openPayload, recvOf, hcipher] at hopen
  | some cipher =>
      simp only [openPayload, recvOf, hcipher, Option.map_some] at hopen
      by_cases hshort : payload.length < AeadFrameCipher.tagBytes
      · refine ⟨.tagMismatch, ⟨some cipher, rest⟩, ?_⟩
        simp [FrameConnection.readFrame, FrameConnection.readFrameWith, hread,
          hcipher, AeadFrameCipher.decryptInbound, hshort]
      · rw [if_neg hshort] at hopen
        refine ⟨.tagMismatch,
          ⟨some { cipher with recvCounter := cipher.recvCounter + 1 }, rest⟩, ?_⟩
        simp [FrameConnection.readFrame, FrameConnection.readFrameWith, hread,
          hcipher, AeadFrameCipher.decryptInbound, hshort, hopen]

theorem readFrame_ended (gcm : AesGcm Key) (hread : readPayload connection.unread = .ok none) :
    ∃ next, connection.readFrame gcm = (.ok none, next) := by
  simp [FrameConnection.readFrame, FrameConnection.readFrameWith, hread]

theorem readFrame_outOfRange (gcm : AesGcm Key) {length : ℕ}
    (hread : readPayload connection.unread = .error (.lengthOutOfRange length)) :
    ∃ next, connection.readFrame gcm = (.error (.lengthOutOfRange length), next) := by
  simp [FrameConnection.readFrame, FrameConnection.readFrameWith, hread]

end Reading

section Writing

variable (codec : EnvelopeCodec) (gcm : AesGcm Key)

theorem writeFrame_keeps (connection : FrameConnection Key) (plaintext : Bytes) :
    (connection.writeFrame gcm plaintext).2.unread = connection.unread ∧
      recvOf (connection.writeFrame gcm plaintext).2 = recvOf connection := by
  unfold FrameConnection.writeFrame
  cases hcipher : connection.cipher with
  | none => exact ⟨rfl, rfl⟩
  | some cipher => simp [recvOf, AeadFrameCipher.encryptOutbound, hcipher]

theorem writeEnvelope_keeps (connection : FrameConnection Key)
    (envelope : Envelope) :
    (writeEnvelope codec gcm connection envelope).2.unread = connection.unread ∧
      recvOf (writeEnvelope codec gcm connection envelope).2 =
        recvOf connection :=
  writeFrame_keeps gcm connection (codec.serialize envelope)

theorem writeEnvelopes_keeps (connection : FrameConnection Key)
    (envelopes : List Envelope) :
    (writeEnvelopes codec gcm connection envelopes).2.unread = connection.unread ∧
      recvOf (writeEnvelopes codec gcm connection envelopes).2 =
        recvOf connection := by
  induction envelopes generalizing connection with
  | nil => exact ⟨rfl, rfl⟩
  | cons envelope rest ih =>
      have hone := writeEnvelope_keeps codec gcm connection envelope
      have hrest := ih (writeEnvelope codec gcm connection envelope).2
      exact ⟨hrest.1.trans hone.1, hrest.2.trans hone.2⟩

theorem neverSilent_writeEnvelopes (connection : FrameConnection Key)
    (envelopes : List Envelope) (rest : List Event) :
    NeverSilent ((writeEnvelopes codec gcm connection envelopes).1 ++ rest) ↔
      NeverSilent rest := by
  induction envelopes generalizing connection with
  | nil => rfl
  | cons envelope envelopes ih =>
      exact ih (writeEnvelope codec gcm connection envelope).2

theorem neverSilent_refuse (connection : FrameConnection Key) (refusal : Refusal)
    (code : BitVec 32) (message : String) :
    NeverSilent (refuse codec gcm connection refusal code message) := by
  refine ⟨⟨_, List.mem_cons_self, rfl⟩, trivial⟩

end Writing

/-! ## Dispatch and completion -/

/-- How a dispatch can end, against whether the engine completes. -/
inductive Dispatched (engine : Engine) (n : ℕ) (request : Envelope) : Prop where
  | answered (envelopes : List Envelope)
      (reply : dispatch engine n request = .answered envelopes)
      (completes : engine.completes n request = true)
  | threw (envelopes : List Envelope)
      (reply : dispatch engine n request = .threw envelopes)
      (completes : engine.completes n request = false)
  | unsupported (requestId : String) (code : BitVec 32) (message : String)
      (reply : dispatch engine n request =
        .unsupported (errorEnvelope requestId code message))
      (completes : engine.completes n request = true)

theorem runToEnvelope_cases (engine : Engine) (n : ℕ) (requestId id : String) :
    (∃ envelopes, runToEnvelope engine n requestId id = .answered envelopes ∧
      (engine.run n id).isSome = true) ∨
    (∃ envelopes, runToEnvelope engine n requestId id = .threw envelopes ∧
      (engine.run n id).isSome = false) := by
  unfold runToEnvelope
  cases hrun : engine.run n id with
  | none => exact Or.inr ⟨[], rfl, rfl⟩
  | some run => exact Or.inl ⟨_, rfl, rfl⟩

theorem dispatched (engine : Engine) (n : ℕ) (request : Envelope) :
    Dispatched engine n request := by
  obtain ⟨requestId, body⟩ := request
  cases body with
  | none => exact .unsupported _ _ _ rfl rfl
  | some body =>
      cases body with
      | features =>
          cases hfeatures : engine.descriptors n with
          | none =>
              exact .threw [] (by simp [dispatch, hfeatures])
                (by simp [Engine.completes, hfeatures])
          | some features =>
              exact .answered [⟨requestId, some (.featuresResponse features)⟩]
                (by simp [dispatch, hfeatures])
                (by simp [Engine.completes, hfeatures])
      | run id =>
          rcases runToEnvelope_cases engine n requestId id with
            ⟨envelopes, hreply, hrun⟩ | ⟨envelopes, hreply, hrun⟩
          · exact .answered envelopes hreply hrun
          · exact .threw envelopes hreply hrun
      | bench command =>
          rcases runToEnvelope_cases engine n requestId command with
            ⟨envelopes, hreply, hrun⟩ | ⟨envelopes, hreply, hrun⟩
          · exact .answered envelopes hreply hrun
          · exact .threw envelopes hreply hrun
      | ping =>
          cases hrun : engine.run n "ping" with
          | none =>
              exact .threw [] (by simp [dispatch, hrun])
                (by simp [Engine.completes, hrun])
          | some run =>
              exact .answered [⟨requestId, some (.pingResponse run.result)⟩]
                (by simp [dispatch, hrun]) (by simp [Engine.completes, hrun])
      | rag query =>
          cases hrag : (engine.rag n query).2 with
          | false =>
              exact .threw ((engine.rag n query).1.map fun chunk =>
                ⟨requestId, some (.ragChunk chunk)⟩)
                (by simp [dispatch, streamRag, hrag]) hrag
          | true =>
              exact .answered ((engine.rag n query).1.map fun chunk =>
                ⟨requestId, some (.ragChunk chunk)⟩)
                (by simp [dispatch, streamRag, hrag]) hrag
      | featuresResponse features => exact .unsupported _ _ _ rfl rfl
      | runResponse run => exact .unsupported _ _ _ rfl rfl
      | ragChunk chunk => exact .unsupported _ _ _ rfl rfl
      | pingResponse reply => exact .unsupported _ _ _ rfl rfl
      | error error => exact .unsupported _ _ _ rfl rfl
      | handshakeOffer offer => exact .unsupported _ _ _ rfl rfl
      | handshakeReply ciphertext => exact .unsupported _ _ _ rfl rfl

/-! ## The condition, one frame at a time -/

section Condition

variable {codec : EnvelopeCodec} {gcm : AesGcm Key} {engine : Engine}
  {fuel n : ℕ} {recv : Option (Key × BitVec 64)} {stream payload rest : Bytes}

theorem wellServed_request {request : Envelope}
    (hread : readPayload stream = .ok (some (payload, rest)))
    (hrequest : (openPayload gcm recv payload).bind codec.parse = some request) :
    WellServed codec gcm engine (fuel + 1) n recv stream ↔
      engine.completes n request = true ∧
        WellServed codec gcm engine fuel (n + 1) (advance recv) rest := by
  unfold WellServed
  simp only [frames, hread, requests, hrequest]
  constructor
  · rintro ⟨hcompletes, htail⟩
    refine ⟨hcompletes 0 request rfl, ?_, htail⟩
    intro k later hlater
    have hshift : n + 1 + k = n + (k + 1) := by omega
    rw [hshift]
    exact hcompletes (k + 1) later hlater
  · rintro ⟨hfirst, hcompletes, htail⟩
    refine ⟨?_, htail⟩
    intro k later hlater
    cases k with
    | zero =>
        have hsame : request = later := by simpa using hlater
        subst later
        exact hfirst
    | succ k =>
        have hshift : n + (k + 1) = n + 1 + k := by omega
        rw [hshift]
        exact hcompletes k later hlater

theorem wellServed_refused
    (hread : readPayload stream = .ok (some (payload, rest)))
    (hrequest : (openPayload gcm recv payload).bind codec.parse = none) :
    WellServed codec gcm engine (fuel + 1) n recv stream := by
  simp [WellServed, frames, hread, requests, hrequest]

theorem wellServed_ended (hread : readPayload stream = .ok none) :
    WellServed codec gcm engine (fuel + 1) n recv stream := by
  simp [WellServed, frames, hread, requests]

theorem not_wellServed_outOfRange {length : ℕ}
    (hread : readPayload stream = .error (.lengthOutOfRange length)) :
    ¬ WellServed codec gcm engine (fuel + 1) n recv stream := by
  simp [WellServed, frames, hread, requests]

end Condition

/-! ## One iteration of the loop -/

/-- What an iteration reads, and the trace from there on. -/
inductive Iteration (codec : EnvelopeCodec) (gcm : AesGcm Key) (engine : Engine)
    (fuel n : ℕ) (connection : FrameConnection Key) : Prop where
  | outOfRange (length : ℕ)
      (read : readPayload connection.unread = .error (.lengthOutOfRange length))
      (trace : serve codec gcm engine (fuel + 1) n connection =
        [.refused .lengthOutOfRange, .closed])
  | ended (read : readPayload connection.unread = .ok none)
      (trace : serve codec gcm engine (fuel + 1) n connection = [.closed])
  | refused (payload rest : Bytes) (next : FrameConnection Key) (refusal : Refusal)
      (code : BitVec 32) (message : String)
      (read : readPayload connection.unread = .ok (some (payload, rest)))
      (unparsed : (openPayload gcm (recvOf connection) payload).bind codec.parse =
        none)
      (trace : serve codec gcm engine (fuel + 1) n connection =
        refuse codec gcm next refusal code message)
  | request (payload rest : Bytes) (next : FrameConnection Key) (request : Envelope)
      (read : readPayload connection.unread = .ok (some (payload, rest)))
      (parsed : (openPayload gcm (recvOf connection) payload).bind codec.parse =
        some request)
      (unread : next.unread = rest)
      (recv : recvOf next = advance (recvOf connection))
      (trace : serve codec gcm engine (fuel + 1) n connection =
        dispatchThen codec gcm engine n request next
          (serve codec gcm engine fuel (n + 1)))

theorem iteration (codec : EnvelopeCodec) (gcm : AesGcm Key) (engine : Engine)
    (fuel n : ℕ) (connection : FrameConnection Key) :
    Iteration codec gcm engine fuel n connection := by
  cases hread : readPayload connection.unread with
  | error error =>
      obtain ⟨length, hlength⟩ := readPayload_error hread
      subst error
      obtain ⟨next, hframe⟩ := readFrame_outOfRange gcm hread
      exact .outOfRange length hread (by simp only [serve, hframe])
  | ok found =>
      cases found with
      | none =>
          obtain ⟨next, hframe⟩ := readFrame_ended gcm hread
          exact .ended hread (by simp only [serve, hframe])
      | some found =>
          obtain ⟨payload, rest⟩ := found
          cases hopen : openPayload gcm (recvOf connection) payload with
          | none =>
              obtain ⟨error, next, hframe⟩ := readFrame_refused hread hopen
              exact .refused payload rest next .authentication errorTamper
                "frame authentication failed" hread (by simp [hopen])
                (by simp only [serve, hframe])
          | some plaintext =>
              obtain ⟨next, hframe, hunread, hrecv⟩ := readFrame_opened hread hopen
              cases hparse : codec.parse plaintext with
              | none =>
                  exact .refused payload rest next .malformedFrame errorInternal
                    "malformed request frame" hread (by simp [hopen, hparse])
                    (by simp only [serve, hframe, hparse])
              | some request =>
                  exact .request payload rest next request hread
                    (by simp [hopen, hparse]) hunread hrecv
                    (by simp only [serve, hframe, hparse])

/-- After a request the trace goes on silently only if the engine threw. -/
theorem neverSilent_dispatchThen (codec : EnvelopeCodec) (gcm : AesGcm Key)
    (engine : Engine) (n : ℕ) (request : Envelope)
    (connection : FrameConnection Key)
    {continueWith : FrameConnection Key → List Event} {goesOn : Prop}
    (hcontinue : ∀ next, next.unread = connection.unread →
      recvOf next = recvOf connection → (NeverSilent (continueWith next) ↔ goesOn)) :
    NeverSilent (dispatchThen codec gcm engine n request connection continueWith) ↔
      engine.completes n request = true ∧ goesOn := by
  unfold dispatchThen
  cases dispatched engine n request with
  | answered envelopes hreply hcompletes =>
      have hkeeps := writeEnvelopes_keeps codec gcm connection envelopes
      simp only [hreply, hcompletes, true_and]
      rw [neverSilent_writeEnvelopes]
      exact hcontinue _ hkeeps.1 hkeeps.2
  | threw envelopes hreply hcompletes =>
      simp only [hreply, hcompletes]
      rw [neverSilent_writeEnvelopes]
      simp [NeverSilent, Event.isError]
  | unsupported requestId code message hreply hcompletes =>
      have hkeeps := writeEnvelope_keeps codec gcm connection
        (errorEnvelope requestId code message)
      simp only [hreply, hcompletes, true_and]
      rw [← hcontinue _ hkeeps.1 hkeeps.2]
      constructor
      · exact fun hsilent => hsilent.2
      · exact fun hrest => ⟨⟨_, List.mem_cons_self, rfl⟩, hrest⟩

/-- The loop answers every refusal exactly when the engine completes what it
is given and no length out of range is reached. -/
theorem neverSilent_serve (codec : EnvelopeCodec) (gcm : AesGcm Key)
    (engine : Engine) (fuel n : ℕ) (connection : FrameConnection Key)
    (hfuel : connection.unread.length < fuel) :
    NeverSilent (serve codec gcm engine fuel n connection) ↔
      WellServed codec gcm engine fuel n (recvOf connection) connection.unread := by
  induction fuel generalizing n connection with
  | zero => omega
  | succ fuel ih =>
      cases iteration codec gcm engine fuel n connection with
      | outOfRange length hread htrace =>
          rw [htrace]
          simp [NeverSilent, Event.isError, not_wellServed_outOfRange hread]
      | ended hread htrace =>
          rw [htrace]
          exact iff_of_true trivial (wellServed_ended hread)
      | refused payload rest next refusal code message hread hrequest htrace =>
          rw [htrace]
          exact iff_of_true (neverSilent_refuse codec gcm _ _ _ _)
            (wellServed_refused hread hrequest)
      | request payload rest next request hread hrequest hunread hrecv htrace =>
          have hrest := readPayload_rest hread
          rw [htrace, wellServed_request hread hrequest]
          apply neverSilent_dispatchThen
          intro later hlaterUnread hlaterRecv
          have hlater := ih (n + 1) later (by rw [hlaterUnread, hunread]; omega)
          rwa [hlaterUnread, hlaterRecv, hunread, hrecv] at hlater

theorem dispatchThen_closes (codec : EnvelopeCodec) (gcm : AesGcm Key)
    (engine : Engine) (n : ℕ) (request : Envelope)
    (connection : FrameConnection Key)
    {continueWith : FrameConnection Key → List Event}
    (hcontinue : ∀ next, next.unread = connection.unread →
      (continueWith next).getLast? = some .closed) :
    (dispatchThen codec gcm engine n request connection continueWith).getLast? =
      some .closed := by
  unfold dispatchThen
  cases dispatch engine n request with
  | answered envelopes =>
      have hlast := hcontinue _ (writeEnvelopes_keeps codec gcm connection envelopes).1
      simp [List.getLast?_append, hlast]
  | threw envelopes => simp
  | unsupported error =>
      have hlast := hcontinue _ (writeEnvelope_keeps codec gcm connection error).1
      simp [List.getLast?_cons, hlast]

theorem serve_closes (codec : EnvelopeCodec) (gcm : AesGcm Key)
    (engine : Engine) (fuel n : ℕ) (connection : FrameConnection Key)
    (hfuel : connection.unread.length < fuel) :
    (serve codec gcm engine fuel n connection).getLast? = some .closed := by
  induction fuel generalizing n connection with
  | zero => omega
  | succ fuel ih =>
      cases iteration codec gcm engine fuel n connection with
      | outOfRange length hread htrace =>
          rw [htrace]
          rfl
      | ended hread htrace =>
          rw [htrace]
          rfl
      | refused payload rest next refusal code message hread hrequest htrace =>
          rw [htrace]
          rfl
      | request payload rest next request hread hrequest hunread hrecv htrace =>
          have hrest := readPayload_rest hread
          rw [htrace]
          apply dispatchThen_closes
          intro later hlater
          apply ih
          rw [hlater, hunread]
          omega

/-! ## Whole connections -/

theorem acceptReply_recvCounter {codec : EnvelopeCodec}
    {hkdf : Bytes → Bytes → Bytes → Key} {identity : PqcServerIdentity}
    {sessionId replyBytes : Bytes} {result : ServerHandshakeResult Key}
    (haccept : acceptReply codec hkdf identity sessionId replyBytes = .ok result) :
    result.cipher.recvCounter = 0 := by
  unfold acceptReply at haccept
  split at haccept
  · cases haccept
  · have heq := Except.ok.inj haccept
    subst result
    rfl

section Handshake

variable (codec : EnvelopeCodec) (gcm : AesGcm Key)
  (hkdf : Bytes → Bytes → Bytes → Key) (identity : PqcServerIdentity)
  (sessionId : Bytes) {stream : Bytes}

theorem serverHandshake_reply {payload rest : Bytes}
    (hread : readPayload stream = .ok (some (payload, rest))) :
    serverHandshake codec gcm hkdf identity sessionId ⟨none, stream⟩ =
      (encodeFrame (codec.serialize (offerEnvelope identity sessionId)),
        acceptReply codec hkdf identity sessionId payload, ⟨none, rest⟩) := by
  simp [serverHandshake, FrameConnection.writeFrame, FrameConnection.readFrame,
    FrameConnection.readFrameWith, hread]

theorem serverHandshake_noReply
    (hread : ∀ payload rest, readPayload stream ≠ .ok (some (payload, rest))) :
    ∃ written error next,
      serverHandshake codec gcm hkdf identity sessionId ⟨none, stream⟩ =
        (written, .error error, next) := by
  cases hpayload : readPayload stream with
  | error error =>
      simp [serverHandshake, FrameConnection.writeFrame, FrameConnection.readFrame,
        FrameConnection.readFrameWith, hpayload]
  | ok found =>
      cases found with
      | none =>
          simp [serverHandshake, FrameConnection.writeFrame,
            FrameConnection.readFrame, FrameConnection.readFrameWith, hpayload]
      | some found => exact absurd hpayload (hread found.1 found.2)

/-- A handshake succeeds on a reply that is accepted, and fails on everything else. -/
theorem serverHandshake_cases :
    (∃ payload rest result, readPayload stream = .ok (some (payload, rest)) ∧
      acceptReply codec hkdf identity sessionId payload = .ok result ∧
      serverHandshake codec gcm hkdf identity sessionId ⟨none, stream⟩ =
        (encodeFrame (codec.serialize (offerEnvelope identity sessionId)), .ok result,
          ⟨none, rest⟩)) ∨
    ∃ written error next,
      serverHandshake codec gcm hkdf identity sessionId ⟨none, stream⟩ =
        (written, .error error, next) ∧
      ∀ payload rest, readPayload stream = .ok (some (payload, rest)) →
        acceptReply codec hkdf identity sessionId payload = .error error := by
  by_cases hreply : ∃ payload rest, readPayload stream = .ok (some (payload, rest))
  · obtain ⟨payload, rest, hread⟩ := hreply
    have hshake := serverHandshake_reply codec gcm hkdf identity sessionId hread
    cases haccept : acceptReply codec hkdf identity sessionId payload with
    | error error =>
        rw [haccept] at hshake
        refine Or.inr ⟨_, error, _, hshake, ?_⟩
        intro other behind hother
        cases hread.symm.trans hother
        exact haccept
    | ok result =>
        rw [haccept] at hshake
        exact Or.inl ⟨payload, rest, result, hread, haccept, hshake⟩
  · have hread : ∀ payload rest, readPayload stream ≠ .ok (some (payload, rest)) :=
      fun payload rest hread => hreply ⟨payload, rest, hread⟩
    obtain ⟨written, error, next, hfailed⟩ :=
      serverHandshake_noReply codec gcm hkdf identity sessionId hread
    exact Or.inr ⟨written, error, next, hfailed,
      fun payload rest hother => absurd hother (hread payload rest)⟩

theorem neverSilent_failedHandshake (engine : Engine) {written : Bytes}
    {error : ServerError} {next : FrameConnection Key}
    (hfailed : serverHandshake codec gcm hkdf identity sessionId ⟨none, stream⟩ =
      (written, .error error, next)) :
    NeverSilent (handleClient codec gcm hkdf engine true (some identity) sessionId
      stream) := by
  simp only [handleClient, if_true, hfailed]
  cases error with
  | handshake message =>
      exact neverSilent_refuse codec gcm next .handshake errorHandshakeFailed message
  | other =>
      exact neverSilent_refuse codec gcm next .handshake errorHandshakeFailed
        "handshake failed"

end Handshake

/-- The server answers every refusal on a connection if and only if, behind a
handshake that succeeds where one is required, the engine completes every
request in front of the first refused payload and the frames do not end in a
length out of range. -/
theorem neverSilent_iff (codec : EnvelopeCodec) (gcm : AesGcm Key)
    (hkdf : Bytes → Bytes → Bytes → Key) (engine : Engine) (requirePq : Bool)
    (identity : Option PqcServerIdentity) (sessionId stream : Bytes) :
    NeverSilent (handleClient codec gcm hkdf engine requirePq identity sessionId
        stream) ↔
      WellServedConnection codec gcm hkdf engine requirePq identity sessionId
        stream := by
  cases requirePq with
  | false => exact neverSilent_serve codec gcm engine _ 0 ⟨none, stream⟩ (by simp)
  | true =>
      cases identity with
      | none => exact iff_of_true (neverSilent_refuse codec gcm _ _ _ _) trivial
      | some identity =>
          rcases @serverHandshake_cases _ codec gcm hkdf identity sessionId stream with
            ⟨payload, rest, result, hread, haccept, hshake⟩ |
              ⟨written, error, next, hfailed, hrefused⟩
          · have hrest := readPayload_rest hread
            simp only [WellServedConnection, if_true, hread, haccept]
            simp only [handleClient, if_true, hshake, NeverSilent]
            have hserve := neverSilent_serve codec gcm engine
              (stream.length + 1) 0
              ((⟨none, rest⟩ : FrameConnection Key).useCipher result.cipher)
              (by simp only [FrameConnection.useCipher]; omega)
            simpa only [recvOf, FrameConnection.useCipher, Option.map_some,
              acceptReply_recvCounter haccept] using hserve
          · refine iff_of_true (neverSilent_failedHandshake codec gcm hkdf identity
              sessionId engine hfailed) ?_
            simp only [WellServedConnection, if_true]
            split
            · next found payload rest hsame hread =>
                cases hsame
                rw [hrefused payload rest hread]
                trivial
            · trivial

/-- Whatever the client sends, the server ends by closing the connection. -/
theorem handleClient_closes (codec : EnvelopeCodec) (gcm : AesGcm Key)
    (hkdf : Bytes → Bytes → Bytes → Key) (engine : Engine) (requirePq : Bool)
    (identity : Option PqcServerIdentity) (sessionId stream : Bytes) :
    (handleClient codec gcm hkdf engine requirePq identity sessionId
      stream).getLast? = some .closed := by
  cases requirePq with
  | false => exact serve_closes codec gcm engine _ 0 ⟨none, stream⟩ (by simp)
  | true =>
      cases identity with
      | none => rfl
      | some identity =>
          rcases @serverHandshake_cases _ codec gcm hkdf identity sessionId stream with
            ⟨payload, rest, result, hread, -, hshake⟩ | ⟨written, error, next, hfailed, -⟩
          · have hrest := readPayload_rest hread
            simp only [handleClient, if_true, hshake]
            have hserve := serve_closes codec gcm engine (stream.length + 1) 0
              ((⟨none, rest⟩ : FrameConnection Key).useCipher result.cipher)
              (by simp only [FrameConnection.useCipher]; omega)
            simp [List.getLast?_cons, hserve]
          · simp only [handleClient, if_true, hfailed]
            cases error <;> rfl

def steadyEngine : Engine where
  descriptors _ := some []
  run _ id := some ⟨id, "", 0, true⟩
  rag _ _ := ([⟨0, "", true⟩], true)

/-- Four zero bytes: the length is refused and the socket closed without a
frame. -/
theorem zero_length_closed_silently :
    ¬ NeverSilent (handleClient proto3 (AesGcm.clear : AesGcm Unit)
      (fun _ _ _ => ()) steadyEngine false none [] [0, 0, 0, 0]) := by
  have htrace : handleClient proto3 (AesGcm.clear : AesGcm Unit)
      (fun _ _ _ => ()) steadyEngine false none [] [0, 0, 0, 0] =
        [.refused .lengthOutOfRange, .closed] := by
    rfl
  rw [htrace]
  simp [NeverSilent, Event.isError]

end HandleClient

end NativeInterop
