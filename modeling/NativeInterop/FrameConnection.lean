import NativeInterop.AeadFrameCipher
import Mathlib.Tactic

/-!
# Length-prefixed frames

A frame on the wire is a little-endian 32-bit length followed by that many
payload bytes.  The engine's `FrameConnection`, the Android `FrameChannel` and
the iOS `PbConnection` read the same layout but answer end of stream, a zero
length and an oversized length differently, so each reader keeps its own body.

The readers are functions of the whole unread stream, which is assumed to end
after its last byte.  The engine's reader is also given in the form the socket
drives it, one completed `ReadAsync` at a time, and `FrameReader.resume_onRead`
shows that the two agree at every read, however the bytes are split.
-/

namespace NativeInterop

inductive FrameError where
  | lengthOutOfRange (length : ℕ)
  | truncatedFrame (length : ℕ)
  | frameTooLarge (length : ℕ)
  | closedEarly
  | cipher (error : CipherError)
  deriving DecidableEq, Repr

def maxFrameBytes : ℕ := 16 * 1024 * 1024

/-- `ReadExactAsync`: the next `count` bytes, or nothing if the stream ends
before them. -/
def readExact (count : ℕ) (stream : Bytes) : Option (Bytes × Bytes) :=
  if count ≤ stream.length then some (stream.take count, stream.drop count)
  else none

def encodeFrame (payload : Bytes) : Bytes :=
  littleEndian 4 payload.length ++ payload

/-- The engine's framing: the next payload and the bytes after it, nothing at
end of stream, also when it falls inside a prefix or a payload. -/
def readPayload (stream : Bytes) : Except FrameError (Option (Bytes × Bytes)) :=
  match readExact 4 stream with
  | none => .ok none
  | some (lengthPrefix, rest) =>
      let length := ofLittleEndian lengthPrefix
      if length = 0 ∨ maxFrameBytes < length then
        .error (.lengthOutOfRange length)
      else
        .ok (readExact length rest)

/-- The Android framing: a payload cut short is an error, a length prefix cut
short is not. -/
def readPayloadKotlin (stream : Bytes) :
    Except FrameError (Option (Bytes × Bytes)) :=
  match readExact 4 stream with
  | none => .ok none
  | some (lengthPrefix, rest) =>
      let length := ofLittleEndian lengthPrefix
      if length = 0 ∨ maxFrameBytes < length then
        .error (.lengthOutOfRange length)
      else
        match readExact length rest with
        | none => .error (.truncatedFrame length)
        | some found => .ok (some found)

/-- The iOS `readExactly`: end of stream is clean only before the first byte. -/
def readExactlySwift (count : ℕ) (stream : Bytes) :
    Except FrameError (Option (Bytes × Bytes)) :=
  if count ≤ stream.length then
    .ok (some (stream.take count, stream.drop count))
  else if stream = [] then .ok none
  else .error .closedEarly

/-- The iOS framing: a zero length is an empty frame. -/
def readPayloadSwift (stream : Bytes) :
    Except FrameError (Option (Bytes × Bytes)) := do
  match ← readExactlySwift 4 stream with
  | none => .ok none
  | some (header, rest) =>
      let length := ofLittleEndian header
      if maxFrameBytes < length then .error (.frameTooLarge length)
      else if length = 0 then .ok (some ([], rest))
      else
        match ← readExactlySwift length rest with
        | none => .error .closedEarly
        | some found => .ok (some found)

/-- One endpoint of the engine's framed transport: the attached cipher and the
incoming bytes not yet read. -/
structure FrameConnection (Key : Type*) where
  cipher : Option (AeadFrameCipher Key)
  unread : Bytes

namespace FrameConnection

variable {Key : Type*}

def encrypted (connection : FrameConnection Key) : Bool :=
  connection.cipher.isSome

def useCipher (connection : FrameConnection Key) (cipher : AeadFrameCipher Key) :
    FrameConnection Key :=
  { connection with cipher := some cipher }

/-- Reading one frame, given the framing and the cipher of an implementation:
`ok none` is the null returned at end of stream. -/
def readFrameWith
    (readPayload : Bytes → Except FrameError (Option (Bytes × Bytes)))
    (decrypt : AeadFrameCipher Key → Bytes →
      Except CipherError Bytes × AeadFrameCipher Key)
    (connection : FrameConnection Key) :
    Except FrameError (Option Bytes) × FrameConnection Key :=
  match readPayload connection.unread with
  | .error e => (.error e, { connection with unread := connection.unread.drop 4 })
  | .ok none => (.ok none, { connection with unread := [] })
  | .ok (some (payload, rest)) =>
      match connection.cipher with
      | none => (.ok (some payload), { connection with unread := rest })
      | some cipher =>
          match decrypt cipher payload with
          | (.ok plaintext, next) => (.ok (some plaintext), ⟨some next, rest⟩)
          | (.error e, next) => (.error (.cipher e), ⟨some next, rest⟩)

def readFrame (gcm : AesGcm Key) :
    FrameConnection Key → Except FrameError (Option Bytes) × FrameConnection Key :=
  readFrameWith readPayload fun cipher => cipher.decryptInbound gcm

def readFrameKotlin (gcm : AesGcm Key) :
    FrameConnection Key → Except FrameError (Option Bytes) × FrameConnection Key :=
  readFrameWith readPayloadKotlin fun cipher => cipher.decryptInboundKotlin gcm

def readFrameSwift (gcm : AesGcm Key) :
    FrameConnection Key → Except FrameError (Option Bytes) × FrameConnection Key :=
  readFrameWith readPayloadSwift fun cipher => cipher.decryptInboundSwift gcm

def writeFrame (gcm : AesGcm Key) (connection : FrameConnection Key)
    (plaintext : Bytes) : Bytes × FrameConnection Key :=
  match connection.cipher with
  | none => (encodeFrame plaintext, connection)
  | some cipher =>
      let (payload, next) := cipher.encryptOutbound gcm plaintext
      (encodeFrame payload, { connection with cipher := some next })

def writeFrameKotlin (gcm : AesGcm Key) (connection : FrameConnection Key)
    (plaintext : Bytes) : Bytes × FrameConnection Key :=
  match connection.cipher with
  | none => (encodeFrame plaintext, connection)
  | some cipher =>
      let (payload, next) := cipher.encryptOutboundKotlin gcm plaintext
      (encodeFrame payload, { connection with cipher := some next })

/-- `writeRequest` of the iOS client, whose cipher may trap. -/
def writeFrameSwift (gcm : AesGcm Key) (connection : FrameConnection Key)
    (plaintext : Bytes) : Except CipherError Bytes × FrameConnection Key :=
  match connection.cipher with
  | none => (.ok (encodeFrame plaintext), connection)
  | some cipher =>
      match cipher.encryptOutboundSwift gcm plaintext with
      | (.ok payload, next) =>
          (.ok (encodeFrame payload), { connection with cipher := some next })
      | (.error e, next) => (.error e, { connection with cipher := some next })

end FrameConnection

/-! ## Round trip of one frame -/

theorem readExact_append (stream rest : Bytes) :
    readExact stream.length (stream ++ rest) = some (stream, rest) := by
  simp [readExact]

theorem readExact_eq_none_iff {count : ℕ} {stream : Bytes} :
    readExact count stream = none ↔ stream.length < count := by
  simp [readExact]

theorem encodeFrame_length (payload : Bytes) :
    (encodeFrame payload).length = payload.length + 4 := by
  simp [encodeFrame, Nat.add_comm]

theorem readExact_prefix_encodeFrame (payload rest : Bytes) :
    readExact 4 (encodeFrame payload ++ rest) =
      some (littleEndian 4 payload.length, payload ++ rest) := by
  have h := readExact_append (littleEndian 4 payload.length) (payload ++ rest)
  rw [littleEndian_length] at h
  simpa [encodeFrame, List.append_assoc] using h

theorem ofLittleEndian_prefix {payload : Bytes}
    (hmax : payload.length ≤ maxFrameBytes) :
    ofLittleEndian (littleEndian 4 payload.length) = payload.length := by
  apply ofLittleEndian_littleEndian_of_lt
  have hcap : maxFrameBytes < 256 ^ 4 := by norm_num [maxFrameBytes]
  omega

theorem inRange_of_bounds {payload : Bytes} (hpos : 0 < payload.length)
    (hmax : payload.length ≤ maxFrameBytes) :
    ¬ (payload.length = 0 ∨ maxFrameBytes < payload.length) := by
  omega

theorem readPayload_encodeFrame {payload : Bytes} (rest : Bytes)
    (hpos : 0 < payload.length) (hmax : payload.length ≤ maxFrameBytes) :
    readPayload (encodeFrame payload ++ rest) = .ok (some (payload, rest)) := by
  simp only [readPayload, readExact_prefix_encodeFrame,
    ofLittleEndian_prefix hmax, if_neg (inRange_of_bounds hpos hmax),
    readExact_append]

/-- The reader refuses what the writer sends above the cap. -/
theorem readPayload_encodeFrame_of_large {payload : Bytes} (rest : Bytes)
    (hlarge : maxFrameBytes < payload.length) (hlt : payload.length < 256 ^ 4) :
    readPayload (encodeFrame payload ++ rest) =
      .error (.lengthOutOfRange payload.length) := by
  simp only [readPayload, readExact_prefix_encodeFrame,
    ofLittleEndian_littleEndian_of_lt hlt, hlarge, or_true, if_true]

theorem readPayloadKotlin_encodeFrame {payload : Bytes} (rest : Bytes)
    (hpos : 0 < payload.length) (hmax : payload.length ≤ maxFrameBytes) :
    readPayloadKotlin (encodeFrame payload ++ rest) =
      .ok (some (payload, rest)) := by
  simp only [readPayloadKotlin, readExact_prefix_encodeFrame,
    ofLittleEndian_prefix hmax, if_neg (inRange_of_bounds hpos hmax),
    readExact_append]

theorem readExactlySwift_append (stream rest : Bytes) :
    readExactlySwift stream.length (stream ++ rest) =
      .ok (some (stream, rest)) := by
  simp [readExactlySwift]

theorem readExactlySwift_prefix_encodeFrame (payload rest : Bytes) :
    readExactlySwift 4 (encodeFrame payload ++ rest) =
      .ok (some (littleEndian 4 payload.length, payload ++ rest)) := by
  have h := readExactlySwift_append (littleEndian 4 payload.length) (payload ++ rest)
  rw [littleEndian_length] at h
  simpa [encodeFrame, List.append_assoc] using h

theorem readPayloadSwift_encodeFrame {payload : Bytes} (rest : Bytes)
    (hmax : payload.length ≤ maxFrameBytes) :
    readPayloadSwift (encodeFrame payload ++ rest) =
      .ok (some (payload, rest)) := by
  simp only [readPayloadSwift, readExactlySwift_prefix_encodeFrame,
    ofLittleEndian_prefix hmax, if_neg (Nat.not_lt.mpr hmax), bind, Except.bind]
  split_ifs with hzero
  · have hnil : payload = [] := List.length_eq_zero_iff.mp hzero
    subst payload
    rfl
  · rw [readExactlySwift_append]

namespace FrameConnection

variable {Key : Type*}
  {readPayload : Bytes → Except FrameError (Option (Bytes × Bytes))}
  {decrypt : AeadFrameCipher Key → Bytes →
    Except CipherError Bytes × AeadFrameCipher Key}

theorem readFrameWith_plain {unread payload rest : Bytes}
    (hread : readPayload unread = .ok (some (payload, rest))) :
    readFrameWith readPayload decrypt ⟨none, unread⟩ =
      (.ok (some payload), ⟨none, rest⟩) := by
  simp [readFrameWith, hread]

theorem readFrameWith_encrypted {unread payload rest plaintext : Bytes}
    {cipher next : AeadFrameCipher Key}
    (hread : readPayload unread = .ok (some (payload, rest)))
    (hdecrypt : decrypt cipher payload = (.ok plaintext, next)) :
    readFrameWith readPayload decrypt ⟨some cipher, unread⟩ =
      (.ok (some plaintext), ⟨some next, rest⟩) := by
  simp [readFrameWith, hread, hdecrypt]

end FrameConnection

/-! ## The engine's reader, one `ReadAsync` at a time -/

/-- A pending `ReadExactAsync`: `length` is absent while the length prefix is
being read, and the buffer is never full. -/
structure FrameReader where
  length : Option ℕ
  buffer : Bytes
  incomplete : buffer.length < length.getD 4

namespace FrameReader

def start : FrameReader where
  length := none
  buffer := []
  incomplete := by simp

def wanted (reader : FrameReader) : ℕ :=
  reader.length.getD 4 - reader.buffer.length

/-- What a completed `ReadAsync` leads to. -/
inductive Progress where
  | reading (reader : FrameReader)
  | payload (payload : Bytes)
  | outOfRange (length : ℕ)
  | endOfStream

/-- The length check between the two `ReadExactAsync` calls. -/
def afterPrefix (length : ℕ) : Progress :=
  if h : length = 0 ∨ maxFrameBytes < length then .outOfRange length
  else .reading ⟨some length, [], by simp only [Option.getD_some]; simp; omega⟩

/-- Consume the bytes of one `ReadAsync`; no bytes means end of stream. -/
def onRead (reader : FrameReader) (chunk : Bytes) : Progress :=
  if chunk = [] then .endOfStream
  else if h : (reader.buffer ++ chunk).length < reader.length.getD 4 then
    .reading ⟨reader.length, reader.buffer ++ chunk, h⟩
  else
    match reader.length with
    | none => afterPrefix (ofLittleEndian (reader.buffer ++ chunk))
    | some _ => .payload (reader.buffer ++ chunk)

/-- The outcome of the pending `ReadFrameAsync` on the remaining stream, in
the terms of `readPayload`. -/
def resume (reader : FrameReader) (stream : Bytes) :
    Except FrameError (Option (Bytes × Bytes)) :=
  match reader.length with
  | none => readPayload (reader.buffer ++ stream)
  | some length => .ok (readExact length (reader.buffer ++ stream))

def Progress.finish : Progress → Bytes → Except FrameError (Option (Bytes × Bytes))
  | .reading reader, rest => reader.resume rest
  | .payload bytes, rest => .ok (some (bytes, rest))
  | .outOfRange length, _ => .error (.lengthOutOfRange length)
  | .endOfStream, _ => .ok none

@[simp] theorem resume_start (stream : Bytes) :
    start.resume stream = readPayload stream := rfl

theorem resume_nil (reader : FrameReader) : reader.resume [] = .ok none := by
  have hshort := reader.incomplete
  unfold resume
  cases hlength : reader.length with
  | none =>
      rw [hlength, Option.getD_none] at hshort
      have hnone : readExact 4 (reader.buffer ++ []) = none := by
        rw [readExact_eq_none_iff]
        simpa using hshort
      simp only [readPayload, hnone]
  | some length =>
      rw [hlength, Option.getD_some] at hshort
      have hnone : readExact length (reader.buffer ++ []) = none := by
        rw [readExact_eq_none_iff]
        simpa using hshort
      simp only [hnone]

theorem afterPrefix_finish (length : ℕ) (rest : Bytes) :
    (afterPrefix length).finish rest =
      if length = 0 ∨ maxFrameBytes < length then
        .error (.lengthOutOfRange length)
      else .ok (readExact length rest) := by
  unfold afterPrefix
  split_ifs with hrange
  · rfl
  · simp [Progress.finish, resume]

/-- Every completed read keeps the outcome of the frame: the reader driven by
the socket computes what `readPayload` computes on the whole stream. -/
theorem resume_onRead (reader : FrameReader) {chunk : Bytes} (rest : Bytes)
    (hchunk : chunk ≠ []) (hfits : chunk.length ≤ reader.wanted) :
    reader.resume (chunk ++ rest) = (reader.onRead chunk).finish rest := by
  have hshort := reader.incomplete
  simp only [onRead, if_neg hchunk]
  split_ifs with hmore
  · simp only [Progress.finish, resume, List.append_assoc]
  · have hfull : (reader.buffer ++ chunk).length = reader.length.getD 4 := by
      simp only [wanted, List.length_append] at hfits hmore ⊢
      omega
    cases hlength : reader.length with
    | none =>
        rw [hlength, Option.getD_none] at hfull
        have hheader : readExact 4 (reader.buffer ++ chunk ++ rest) =
            some (reader.buffer ++ chunk, rest) := by
          rw [← hfull]
          exact readExact_append _ _
        simp only [resume, hlength, ← List.append_assoc, readPayload, hheader]
        rw [afterPrefix_finish]
    | some length =>
        rw [hlength, Option.getD_some] at hfull
        simp only [resume, hlength, Progress.finish, ← List.append_assoc]
        rw [← hfull, readExact_append]

@[simp] theorem wanted_start : start.wanted = 4 := rfl

theorem onRead_frame {payload : Bytes} (hpos : 0 < payload.length)
    (hmax : payload.length ≤ maxFrameBytes) :
    ∃ reader, start.onRead (littleEndian 4 payload.length) = .reading reader ∧
      payload.length ≤ reader.wanted ∧ reader.onRead payload = .payload payload := by
  have hrange := inRange_of_bounds hpos hmax
  have hheader : littleEndian 4 payload.length ≠ [] := by
    intro hnil
    have hlength := congrArg List.length hnil
    simp at hlength
  have hpayload : payload ≠ [] := by
    intro hnil
    simp [hnil] at hpos
  refine ⟨⟨some payload.length, [], by simpa using hpos⟩, ?_, ?_, ?_⟩
  · have hread : start.onRead (littleEndian 4 payload.length) =
        afterPrefix payload.length := by
      simp [onRead, start, hheader, ofLittleEndian_prefix hmax]
    rw [hread, afterPrefix, dif_neg hrange]
  · simp [wanted]
  · simp [onRead, hpayload]

end FrameReader

end NativeInterop
