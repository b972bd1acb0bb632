import NativeInterop.FrameReaders
import Mathlib.Tactic

/-!
# Streams of frames, read to the end

The engine's `FrameConnection` and the Android `FrameChannel` over a stream whose reads come
short in any way.  Both are first brought to one equation in the bytes left unread; they
differ only in what they make of a payload cut short.  Then follow what a list of written
frames reads back as, and which streams a null return tells the truth about.
-/

namespace NativeInterop

/-- The two implementations that share the layout and the limits of a frame. -/
inductive FrameEndpoint where
  | engine
  | android
  deriving DecidableEq, Repr

namespace FrameEndpoint

open FrameConnection

variable {Key : Type*}

/-! ## The readers -/

/-- `ReadExactAsync` and the Kotlin `readExactly`, with what they leave of the stream. -/
def readExactly (offers : ℕ → ℕ) (count : ℕ) (stream : Bytes) : Option Bytes × Bytes :=
  let (buffer, rest) := readLoop offers count [] stream
  (if buffer.length < count then none else some buffer, rest)

/-- The payload as it is, or opened by the attached cipher. -/
def openPayload
    (decrypt : AeadFrameCipher Key → Bytes → Except CipherError Bytes × AeadFrameCipher Key)
    (cipher : Option (AeadFrameCipher Key)) (payload rest : Bytes) :
    Except FrameError (Option Bytes) × FrameConnection Key :=
  match cipher with
  | none => (.ok (some payload), ⟨none, rest⟩)
  | some cipher =>
      match decrypt cipher payload with
      | (.ok plaintext, next) => (.ok (some plaintext), ⟨some next, rest⟩)
      | (.error error, next) => (.error (.cipher error), ⟨some next, rest⟩)

/-- `ReadFrameAsync` of the engine. -/
def readFrameAsync (gcm : AesGcm Key) (offers : ℕ → ℕ) (connection : FrameConnection Key) :
    Except FrameError (Option Bytes) × FrameConnection Key :=
  match readExactly offers 4 connection.unread with
  | (none, rest) => (.ok none, { connection with unread := rest })
  | (some lengthPrefix, rest) =>
      let length := ofLittleEndian lengthPrefix
      if length = 0 ∨ maxFrameBytes < length then
        (.error (.lengthOutOfRange length), { connection with unread := rest })
      else
        match readExactly offers length rest with
        | (none, rest) => (.ok none, { connection with unread := rest })
        | (some payload, rest) =>
            openPayload (fun cipher => cipher.decryptInbound gcm) connection.cipher payload rest

/-- `readFrame` of the Android client, whose length is a masked signed number. -/
def readFrameKotlin (gcm : AesGcm Key) (offers : ℕ → ℕ) (connection : FrameConnection Key) :
    Except FrameError (Option Bytes) × FrameConnection Key :=
  match readExactly offers 4 connection.unread with
  | (none, rest) => (.ok none, { connection with unread := rest })
  | (some lengthPrefix, rest) =>
      let length := maskedLength lengthPrefix
      if length.toInt = 0 ∨ (maxFrameBytes : ℤ) < length.toInt then
        (.error (.lengthOutOfRange length.toInt.toNat), { connection with unread := rest })
      else
        match readExactly offers (length.setWidth 32).toInt.toNat rest with
        | (none, rest) =>
            (.error (.truncatedFrame length.toInt.toNat), { connection with unread := rest })
        | (some payload, rest) =>
            openPayload (fun cipher => cipher.decryptInboundKotlin gcm) connection.cipher
              payload rest

def readFrame (endpoint : FrameEndpoint) (gcm : AesGcm Key) (offers : ℕ → ℕ) :
    FrameConnection Key → Except FrameError (Option Bytes) × FrameConnection Key :=
  match endpoint with
  | .engine => readFrameAsync gcm offers
  | .android => readFrameKotlin gcm offers

def writeFrame (endpoint : FrameEndpoint) (gcm : AesGcm Key) :
    FrameConnection Key → Bytes → Bytes × FrameConnection Key :=
  match endpoint with
  | .engine => FrameConnection.writeFrame gcm
  | .android => FrameConnection.writeFrameKotlin gcm

/-! ## One equation for both readers -/

def decrypt (endpoint : FrameEndpoint) (gcm : AesGcm Key) :
    AeadFrameCipher Key → Bytes → Except CipherError Bytes × AeadFrameCipher Key :=
  match endpoint with
  | .engine => fun cipher => cipher.decryptInbound gcm
  | .android => fun cipher => cipher.decryptInboundKotlin gcm

def cutPayload (endpoint : FrameEndpoint) (length : ℕ) : Except FrameError (Option Bytes) :=
  match endpoint with
  | .engine => .ok none
  | .android => .error (.truncatedFrame length)

theorem readExactly_eq (offers : ℕ → ℕ) (count : ℕ) (stream : Bytes) :
    readExactly offers count stream =
      (if stream.length < count then none else some (stream.take count),
        stream.drop count) := by
  simp only [readExactly, readLoop_eq, List.length_nil, Nat.sub_zero, List.nil_append,
    List.length_take]
  by_cases hshort : stream.length < count
  · rw [if_pos hshort, if_pos (by omega)]
  · rw [if_neg hshort, if_neg (by omega)]

/-- A length within the limit survives the conversion back to a Kotlin `Int`. -/
theorem maskedLength_toIntKotlin {header : Bytes} (hheader : header.length = 4)
    (hmax : ofLittleEndian header ≤ maxFrameBytes) :
    ((maskedLength header).setWidth 32).toInt.toNat = ofLittleEndian header := by
  have hmasked := maskedLength_toInt hheader
  have hcap : maxFrameBytes = 16777216 := rfl
  have hlow : (maskedLength header).toNat = ofLittleEndian header := by
    have hcases := BitVec.toInt_eq_toNat_cond (maskedLength header)
    have hlt := (maskedLength header).isLt
    split_ifs at hcases <;> omega
  have hwidth : ((maskedLength header).setWidth 32).toNat = ofLittleEndian header := by
    rw [BitVec.toNat_setWidth, hlow, Nat.mod_eq_of_lt (by omega)]
  rw [BitVec.toInt_eq_toNat_of_lt (by omega), hwidth, Int.toNat_natCast]

theorem kotlin_outOfRange_iff {header : Bytes} (hheader : header.length = 4) :
    ((maskedLength header).toInt = 0 ∨ (maxFrameBytes : ℤ) < (maskedLength header).toInt) ↔
      ofLittleEndian header = 0 ∨ maxFrameBytes < ofLittleEndian header := by
  rw [maskedLength_toInt hheader]
  omega

theorem readFrame_eq (endpoint : FrameEndpoint) (gcm : AesGcm Key) (offers : ℕ → ℕ)
    (connection : FrameConnection Key) :
    endpoint.readFrame gcm offers connection =
      if connection.unread.length < 4 then (.ok none, { connection with unread := [] })
      else
        let length := ofLittleEndian (connection.unread.take 4)
        let rest := connection.unread.drop 4
        if length = 0 ∨ maxFrameBytes < length then
          (.error (.lengthOutOfRange length), { connection with unread := rest })
        else if rest.length < length then
          (endpoint.cutPayload length, { connection with unread := [] })
        else
          openPayload (endpoint.decrypt gcm) connection.cipher (rest.take length)
            (rest.drop length) := by
  obtain ⟨cipher, unread⟩ := connection
  by_cases hshort : unread.length < 4
  · have hdrop : unread.drop 4 = [] := List.drop_eq_nil_of_le (by omega)
    cases endpoint <;>
      simp [readFrame, readFrameAsync, readFrameKotlin, readExactly_eq, hshort, hdrop]
  · have hheader : (unread.take 4).length = 4 := by
      rw [List.length_take]
      omega
    have hdrop : ∀ length, (unread.drop 4).length < length →
        (unread.drop 4).drop length = [] := fun length hcut =>
      List.drop_eq_nil_of_le (Nat.le_of_lt hcut)
    rw [if_neg hshort]
    cases endpoint with
    | engine =>
        simp only [readFrame, readFrameAsync, readExactly_eq, if_neg hshort]
        split_ifs with hrange hcut
        · rfl
        · simp only [hdrop _ hcut, cutPayload]
        · rfl
    | android =>
        have hkotlin := kotlin_outOfRange_iff hheader
        simp only [readFrame, readFrameKotlin, readExactly_eq, if_neg hshort]
        by_cases hrange : ofLittleEndian (unread.take 4) = 0 ∨
            maxFrameBytes < ofLittleEndian (unread.take 4)
        · rw [if_pos hrange, if_pos (hkotlin.mpr hrange), maskedLength_toInt hheader,
            Int.toNat_natCast]
        · rw [if_neg hrange, if_neg (hkotlin.not.mpr hrange), maskedLength_toInt hheader,
            maskedLength_toIntKotlin hheader (by omega)]
          split_ifs with hcut
          · simp only [hdrop _ hcut, cutPayload, Int.toNat_natCast]
          · rfl

/-! ## What was written is read back -/

/-- `count` calls of a reader, one after the other. -/
def readFrames (endpoint : FrameEndpoint) (gcm : AesGcm Key) (offers : ℕ → ℕ) :
    ℕ → FrameConnection Key → List (Except FrameError (Option Bytes))
  | 0, _ => []
  | count + 1, connection =>
      let (result, next) := endpoint.readFrame gcm offers connection
      result :: endpoint.readFrames gcm offers count next

def writeFrames (endpoint : FrameEndpoint) (gcm : AesGcm Key) :
    FrameConnection Key → List Bytes → Bytes
  | _, [] => []
  | connection, plaintext :: plaintexts =>
      let (frame, next) := endpoint.writeFrame gcm connection plaintext
      frame ++ endpoint.writeFrames gcm next plaintexts

/-- The receiver opens what the sender seals next. -/
def Paired (sender receiver : Option (AeadFrameCipher Key)) : Prop :=
  match sender, receiver with
  | none, none => True
  | some sender, some receiver =>
      receiver.recvKey = sender.sendKey ∧ receiver.recvCounter = sender.sendCounter
  | _, _ => False

def wireLength (cipher : Option (AeadFrameCipher Key)) (plaintext : Bytes) : ℕ :=
  match cipher with
  | none => plaintext.length
  | some _ => plaintext.length + AeadFrameCipher.tagBytes

theorem readFrame_encodeFrame (endpoint : FrameEndpoint) (gcm : AesGcm Key) (offers : ℕ → ℕ)
    (cipher : Option (AeadFrameCipher Key)) {payload : Bytes} (rest : Bytes)
    (hpos : 1 ≤ payload.length) (hmax : payload.length ≤ maxFrameBytes) :
    endpoint.readFrame gcm offers ⟨cipher, encodeFrame payload ++ rest⟩ =
      openPayload (endpoint.decrypt gcm) cipher payload rest := by
  have hlength : ¬ (encodeFrame payload ++ rest).length < 4 := by
    rw [List.length_append, encodeFrame_length]
    omega
  have hfour : (littleEndian 4 payload.length).length = 4 := littleEndian_length _ _
  have htake : (encodeFrame payload ++ rest).take 4 = littleEndian 4 payload.length := by
    rw [encodeFrame, List.append_assoc, List.take_left' hfour]
  have hdrop : (encodeFrame payload ++ rest).drop 4 = payload ++ rest := by
    rw [encodeFrame, List.append_assoc, List.drop_left' hfour]
  have hcut : ¬ (payload ++ rest).length < payload.length := by
    rw [List.length_append]
    omega
  rw [readFrame_eq]
  simp only [if_neg hlength, htake, hdrop, ofLittleEndian_prefix hmax,
    if_neg (inRange_of_bounds hpos hmax), if_neg hcut, List.take_left, List.drop_left]

theorem readFrame_nil (endpoint : FrameEndpoint) (gcm : AesGcm Key) (offers : ℕ → ℕ)
    (cipher : Option (AeadFrameCipher Key)) :
    endpoint.readFrame gcm offers ⟨cipher, []⟩ = (.ok none, ⟨cipher, []⟩) := by
  rw [readFrame_eq]
  rfl

theorem readFrame_outOfRange (endpoint : FrameEndpoint) (gcm : AesGcm Key) (offers : ℕ → ℕ)
    (cipher : Option (AeadFrameCipher Key)) {header : Bytes} (behind : Bytes)
    (hheader : header.length = 4)
    (hrange : ofLittleEndian header = 0 ∨ maxFrameBytes < ofLittleEndian header) :
    endpoint.readFrame gcm offers ⟨cipher, header ++ behind⟩ =
      (.error (.lengthOutOfRange (ofLittleEndian header)), ⟨cipher, behind⟩) := by
  have hlength : ¬ (header ++ behind).length < 4 := by
    rw [List.length_append]
    omega
  rw [readFrame_eq]
  simp only [if_neg hlength, List.take_left' hheader, List.drop_left' hheader, if_pos hrange]

theorem decrypt_sealFrame (endpoint : FrameEndpoint) (gcm : AesGcm Key)
    (cipher : AeadFrameCipher Key) (plaintext : Bytes) :
    endpoint.decrypt gcm cipher (AeadFrameCipher.sealFrame gcm cipher.recvKey
        (AeadFrameCipher.nonceFor cipher.recvCounter) plaintext) =
      (.ok plaintext, { cipher with recvCounter := cipher.recvCounter + 1 }) := by
  cases endpoint with
  | engine => exact AeadFrameCipher.decryptInbound_sealFrame gcm cipher plaintext
  | android => exact AeadFrameCipher.decryptInboundKotlin_sealFrame gcm cipher plaintext

theorem writeFrame_eq (endpoint : FrameEndpoint) (gcm : AesGcm Key)
    (connection : FrameConnection Key) (plaintext : Bytes) :
    endpoint.writeFrame gcm connection plaintext =
      FrameConnection.writeFrame gcm connection plaintext := by
  cases endpoint <;> rfl

/-- One written frame: its payload has the length it should have, and the other end opens it. -/
theorem writeFrame_opened (writer reader : FrameEndpoint) (gcm : AesGcm Key)
    (sender : FrameConnection Key) {receiver : Option (AeadFrameCipher Key)}
    (hpaired : Paired sender.cipher receiver) (plaintext : Bytes) :
    ∃ payload next receiver', writer.writeFrame gcm sender plaintext = (encodeFrame payload, next) ∧
      payload.length = wireLength sender.cipher plaintext ∧
      (∀ other, wireLength next.cipher other = wireLength sender.cipher other) ∧
      Paired next.cipher receiver' ∧
      ∀ rest, openPayload (reader.decrypt gcm) receiver payload rest =
        (.ok (some plaintext), ⟨receiver', rest⟩) := by
  obtain ⟨cipher, unread⟩ := sender
  rw [writeFrame_eq]
  match cipher, receiver, hpaired with
  | none, none, _ =>
      exact ⟨plaintext, ⟨none, unread⟩, none, rfl, rfl, fun _ => rfl, trivial, fun _ => rfl⟩
  | some sender, some receiver, ⟨hkey, hcounter⟩ =>
      refine ⟨_, _, some { receiver with recvCounter := receiver.recvCounter + 1 }, rfl,
        AeadFrameCipher.sealFrame_length _ _ _ _, fun _ => rfl, ⟨hkey, ?_⟩, fun rest => ?_⟩
      · simp only [hcounter]
      · have hopened := decrypt_sealFrame reader gcm receiver plaintext
        simp only [openPayload, ← hkey, ← hcounter, hopened]

theorem readFrames_nil (endpoint : FrameEndpoint) (gcm : AesGcm Key) (offers : ℕ → ℕ)
    (cipher : Option (AeadFrameCipher Key)) (count : ℕ) :
    endpoint.readFrames gcm offers count ⟨cipher, []⟩ = List.replicate count (.ok none) := by
  induction count with
  | zero => rfl
  | succ count ih =>
      rw [readFrames, readFrame_nil, List.replicate_succ]
      simp only [ih]

theorem readFrames_writeFrames (writer reader : FrameEndpoint) (gcm : AesGcm Key)
    (offers : ℕ → ℕ) (later : ℕ) {plaintexts : List Bytes} (sender : FrameConnection Key)
    {receiver : Option (AeadFrameCipher Key)} (hpaired : Paired sender.cipher receiver)
    (hrange : ∀ plaintext ∈ plaintexts, 1 ≤ wireLength sender.cipher plaintext ∧
      wireLength sender.cipher plaintext ≤ maxFrameBytes) :
    reader.readFrames gcm offers (plaintexts.length + later)
        ⟨receiver, writer.writeFrames gcm sender plaintexts⟩ =
      plaintexts.map (fun plaintext => .ok (some plaintext)) ++
        List.replicate later (.ok none) := by
  induction plaintexts generalizing sender receiver with
  | nil =>
      rw [List.length_nil, Nat.zero_add, List.map_nil, List.nil_append]
      exact readFrames_nil reader gcm offers receiver later
  | cons plaintext plaintexts ih =>
      rw [List.forall_mem_cons] at hrange
      obtain ⟨payload, next, receiver', hwrite, hlength, hsame, hnext, hopen⟩ :=
        writeFrame_opened writer reader gcm sender hpaired plaintext
      have hlater := ih next hnext (by simpa only [hsame] using hrange.2)
      have hread := readFrame_encodeFrame reader gcm offers receiver
        (writer.writeFrames gcm next plaintexts) (hlength ▸ hrange.1.1) (hlength ▸ hrange.1.2)
      rw [hopen] at hread
      rw [List.length_cons, Nat.add_right_comm, readFrames, writeFrames, hwrite]
      simp only [hread, hlater, List.map_cons, List.cons_append]

/-- The frames of either writer, through either reader and in any pieces, are the written
plaintexts and then the end of the stream; a length out of range is refused on its prefix
alone. -/
theorem framing_round_trip (gcm : AesGcm Key) (writer reader : FrameEndpoint)
    (offers : ℕ → ℕ) (later : ℕ) (sender : FrameConnection Key)
    (receiver : Option (AeadFrameCipher Key)) (hpaired : Paired sender.cipher receiver)
    (plaintexts : List Bytes)
    (hrange : ∀ plaintext ∈ plaintexts, 1 ≤ wireLength sender.cipher plaintext ∧
      wireLength sender.cipher plaintext ≤ maxFrameBytes) :
    reader.readFrames gcm offers (plaintexts.length + later)
        ⟨receiver, writer.writeFrames gcm sender plaintexts⟩ =
        plaintexts.map (fun plaintext => .ok (some plaintext)) ++
          List.replicate later (.ok none) ∧
      ∀ header behind : Bytes, header.length = 4 →
        ofLittleEndian header = 0 ∨ maxFrameBytes < ofLittleEndian header →
        reader.readFrame gcm offers ⟨receiver, header ++ behind⟩ =
          (.error (.lengthOutOfRange (ofLittleEndian header)), ⟨receiver, behind⟩) := by
  constructor
  · exact readFrames_writeFrames writer reader gcm offers later sender hpaired hrange
  · intro header behind hheader hout
    exact readFrame_outOfRange reader gcm offers receiver behind hheader hout

/-- Two frames on an encrypted channel, and a length with its top bit set. -/
theorem framing_round_trip_two :
    FrameEndpoint.android.readFrames AesGcm.clear (fun left => left % 3) 3
        ⟨some (AeadFrameCipher.create true false),
          FrameEndpoint.engine.writeFrames AesGcm.clear
            ⟨some (AeadFrameCipher.create false true), []⟩ [[1, 2], []]⟩ =
        [.ok (some [1, 2]), .ok (some []), .ok none] ∧
      FrameEndpoint.android.readFrame AesGcm.clear (fun left => left % 3)
          ⟨some (AeadFrameCipher.create true false), [0, 0, 0, 0x80] ++ [7]⟩ =
        (.error (.lengthOutOfRange 0x80000000),
          ⟨some (AeadFrameCipher.create true false), [7]⟩) := by
  have hboth := framing_round_trip AesGcm.clear .engine .android (fun left => left % 3) 1
    ⟨some (AeadFrameCipher.create false true), []⟩
    (some (AeadFrameCipher.create true false)) ⟨rfl, rfl⟩ [[1, 2], []]
    (by simp [wireLength, AeadFrameCipher.tagBytes, maxFrameBytes])
  exact ⟨hboth.1, hboth.2 [0, 0, 0, 0x80] [7] rfl (by decide)⟩

/-! ## What a null return says -/

/-- The plaintexts that the calls of a reader have returned, and the connection after them. -/
inductive Delivers
    (read : FrameConnection Key → Except FrameError (Option Bytes) × FrameConnection Key) :
    FrameConnection Key → List Bytes → FrameConnection Key → Prop where
  | none (connection : FrameConnection Key) : Delivers read connection [] connection
  | frame {connection next last : FrameConnection Key} {plaintext : Bytes}
      {plaintexts : List Bytes} (hread : read connection = (.ok (some plaintext), next))
      (hlater : Delivers read next plaintexts last) :
      Delivers read connection (plaintext :: plaintexts) last

/-- The stream ends inside a length prefix. -/
def CutPrefix (stream : Bytes) : Prop :=
  stream ≠ [] ∧ stream.length < 4

/-- The stream ends inside a payload whose length is in range. -/
def CutPayload (stream : Bytes) : Prop :=
  4 ≤ stream.length ∧
    ¬ (ofLittleEndian (stream.take 4) = 0 ∨ maxFrameBytes < ofLittleEndian (stream.take 4)) ∧
    (stream.drop 4).length < ofLittleEndian (stream.take 4)

/-- The cipher, where there is one, opens these payloads one after the other. -/
def Accepts (gcm : AesGcm Key) : Option (AeadFrameCipher Key) → List Bytes → Prop
  | _, [] => True
  | none, _ :: _ => True
  | some cipher, payload :: payloads =>
      AeadFrameCipher.tagBytes ≤ payload.length ∧
        AeadFrameCipher.openFrame gcm cipher.recvKey (AeadFrameCipher.nonceFor cipher.recvCounter)
          payload ≠ none ∧
        Accepts gcm (some { cipher with recvCounter := cipher.recvCounter + 1 }) payloads

/-- The stream is complete frames that the channel accepts, and then a tail of this kind. -/
def EndsIn (gcm : AesGcm Key) (connection : FrameConnection Key) (Tail : Bytes → Prop) : Prop :=
  ∃ (payloads : List Bytes) (tail : Bytes),
    connection.unread = (payloads.map encodeFrame).flatten ++ tail ∧
      (∀ payload ∈ payloads, 1 ≤ payload.length ∧ payload.length ≤ maxFrameBytes) ∧
      Accepts gcm connection.cipher payloads ∧ Tail tail

/-- A reader returns null only at the end of the stream, and an error where the stream ends
inside a length prefix or inside a payload. -/
def NullMeansEnd
    (read : FrameConnection Key → Except FrameError (Option Bytes) × FrameConnection Key)
    (connection : FrameConnection Key) : Prop :=
  ∀ plaintexts last, Delivers read connection plaintexts last →
    ((read last).1 = .ok none → last.unread = []) ∧
      (CutPrefix last.unread ∨ CutPayload last.unread → ∃ error, (read last).1 = .error error)

theorem decrypt_accepted (endpoint : FrameEndpoint) (gcm : AesGcm Key)
    (cipher : AeadFrameCipher Key) {payload plaintext : Bytes}
    (htag : AeadFrameCipher.tagBytes ≤ payload.length)
    (hopen : AeadFrameCipher.openFrame gcm cipher.recvKey
      (AeadFrameCipher.nonceFor cipher.recvCounter) payload = some plaintext) :
    endpoint.decrypt gcm cipher payload =
      (.ok plaintext, { cipher with recvCounter := cipher.recvCounter + 1 }) := by
  have hlong := Nat.not_lt.mpr htag
  cases endpoint <;>
    simp [decrypt, AeadFrameCipher.decryptInbound, AeadFrameCipher.decryptInboundKotlin,
      hlong, hopen]

theorem decrypt_ok (endpoint : FrameEndpoint) (gcm : AesGcm Key)
    {cipher next : AeadFrameCipher Key} {payload plaintext : Bytes}
    (hdecrypt : endpoint.decrypt gcm cipher payload = (.ok plaintext, next)) :
    AeadFrameCipher.tagBytes ≤ payload.length ∧
      AeadFrameCipher.openFrame gcm cipher.recvKey
        (AeadFrameCipher.nonceFor cipher.recvCounter) payload ≠ none ∧
      next = { cipher with recvCounter := cipher.recvCounter + 1 } := by
  by_cases htag : payload.length < AeadFrameCipher.tagBytes
  · cases endpoint <;>
      simp [decrypt, AeadFrameCipher.decryptInbound, AeadFrameCipher.decryptInboundKotlin,
        htag] at hdecrypt
  · refine ⟨Nat.le_of_not_lt htag, ?_, ?_⟩
    · intro hnone
      cases endpoint <;>
        simp [decrypt, AeadFrameCipher.decryptInbound, AeadFrameCipher.decryptInboundKotlin,
          htag, hnone] at hdecrypt
    · cases hopen : AeadFrameCipher.openFrame gcm cipher.recvKey
          (AeadFrameCipher.nonceFor cipher.recvCounter) payload with
      | none =>
          cases endpoint <;>
            simp [decrypt, AeadFrameCipher.decryptInbound, AeadFrameCipher.decryptInboundKotlin,
              htag, hopen] at hdecrypt
      | some opened =>
          rw [decrypt_accepted endpoint gcm cipher (Nat.le_of_not_lt htag) hopen] at hdecrypt
          exact (Prod.mk.inj hdecrypt).2.symm

theorem openPayload_plaintext (endpoint : FrameEndpoint) (gcm : AesGcm Key)
    {cipher : Option (AeadFrameCipher Key)} {payload rest plaintext : Bytes}
    {next : FrameConnection Key}
    (hopen : openPayload (endpoint.decrypt gcm) cipher payload rest =
      (.ok (some plaintext), next)) :
    next.unread = rest ∧ ∀ payloads, Accepts gcm next.cipher payloads →
      Accepts gcm cipher (payload :: payloads) := by
  cases cipher with
  | none =>
      cases hopen
      exact ⟨rfl, fun _ _ => trivial⟩
  | some cipher =>
      rcases hdecrypt : endpoint.decrypt gcm cipher payload with ⟨error | opened, after⟩
      · simp only [openPayload, hdecrypt] at hopen
        cases hopen
      · simp only [openPayload, hdecrypt] at hopen
        cases hopen
        obtain ⟨htag, hopened, rfl⟩ := decrypt_ok endpoint gcm hdecrypt
        exact ⟨rfl, fun payloads haccepts => ⟨htag, hopened, haccepts⟩⟩

/-- Bytes that are neither cut short nor out of range begin with a frame. -/
theorem eq_frame_of_uncut {unread : Bytes} (hlong : ¬ unread.length < 4)
    (hcut : ¬ (unread.drop 4).length < ofLittleEndian (unread.take 4)) :
    ∃ payload, unread = encodeFrame payload ++
        (unread.drop 4).drop (ofLittleEndian (unread.take 4)) ∧
      payload = (unread.drop 4).take (ofLittleEndian (unread.take 4)) ∧
      payload.length = ofLittleEndian (unread.take 4) := by
  have hpayload : ((unread.drop 4).take (ofLittleEndian (unread.take 4))).length =
      ofLittleEndian (unread.take 4) := by
    rw [List.length_take]
    omega
  have hheader : (unread.take 4).length = 4 := by
    rw [List.length_take]
    omega
  exact ⟨_, frame_of_header ⟨(List.take_append_drop 4 unread).symm, hheader⟩
    ⟨(List.take_append_drop _ _).symm, hpayload⟩, rfl, hpayload⟩

/-- A call that returns a plaintext has read one frame that the channel accepts. -/
theorem readFrame_plaintext (endpoint : FrameEndpoint) (gcm : AesGcm Key) (offers : ℕ → ℕ)
    {connection next : FrameConnection Key} {plaintext : Bytes}
    (hread : endpoint.readFrame gcm offers connection = (.ok (some plaintext), next)) :
    ∃ payload, connection.unread = encodeFrame payload ++ next.unread ∧
      (1 ≤ payload.length ∧ payload.length ≤ maxFrameBytes) ∧
      ∀ payloads, Accepts gcm next.cipher payloads →
        Accepts gcm connection.cipher (payload :: payloads) := by
  rw [readFrame_eq] at hread
  simp only at hread
  split_ifs at hread with hshort hrange hcut
  · cases hread
  · cases hread
  · cases endpoint <;> cases hread
  · obtain ⟨payload, hframe, hpayload, hlength⟩ := eq_frame_of_uncut hshort hcut
    rw [← hpayload] at hread
    obtain ⟨hunread, haccepts⟩ := openPayload_plaintext endpoint gcm hread
    rw [← hunread] at hframe
    exact ⟨payload, hframe, by omega, haccepts⟩

theorem frames_of_delivers (endpoint : FrameEndpoint) (gcm : AesGcm Key) (offers : ℕ → ℕ)
    {plaintexts : List Bytes} {connection last : FrameConnection Key}
    (hdelivers : Delivers (endpoint.readFrame gcm offers) connection plaintexts last)
    {Tail : Bytes → Prop} (htail : Tail last.unread) : EndsIn gcm connection Tail := by
  induction hdelivers with
  | none connection => exact ⟨[], connection.unread, rfl, by simp, by trivial, htail⟩
  | frame hread _ ih =>
      obtain ⟨payloads, tail, hunread, hrange, haccepts, hkind⟩ := ih htail
      obtain ⟨payload, hframe, hbounds, hstep⟩ := readFrame_plaintext endpoint gcm offers hread
      refine ⟨payload :: payloads, tail, ?_, List.forall_mem_cons.mpr ⟨hbounds, hrange⟩,
        hstep payloads haccepts, hkind⟩
      rw [hframe, hunread, List.map_cons, List.flatten_cons, List.append_assoc]

theorem delivers_frames (endpoint : FrameEndpoint) (gcm : AesGcm Key) (offers : ℕ → ℕ)
    {payloads : List Bytes} {tail : Bytes} (connection : FrameConnection Key)
    (hunread : connection.unread = (payloads.map encodeFrame).flatten ++ tail)
    (hrange : ∀ payload ∈ payloads, 1 ≤ payload.length ∧ payload.length ≤ maxFrameBytes)
    (haccepts : Accepts gcm connection.cipher payloads) :
    ∃ plaintexts last, Delivers (endpoint.readFrame gcm offers) connection plaintexts last ∧
      last.unread = tail := by
  induction payloads generalizing connection with
  | nil => exact ⟨[], connection, .none connection, hunread⟩
  | cons payload payloads ih =>
      obtain ⟨cipher, unread⟩ := connection
      rw [List.map_cons, List.flatten_cons, List.append_assoc] at hunread
      simp only at hunread
      subst hunread
      rw [List.forall_mem_cons] at hrange
      have hread := readFrame_encodeFrame endpoint gcm offers cipher
        ((payloads.map encodeFrame).flatten ++ tail) hrange.1.1 hrange.1.2
      cases cipher with
      | none =>
          have hnone : Accepts gcm none payloads := by cases payloads <;> trivial
          obtain ⟨plaintexts, last, hlater, hlast⟩ :=
            ih ⟨none, (payloads.map encodeFrame).flatten ++ tail⟩ rfl hrange.2 hnone
          exact ⟨payload :: plaintexts, last, .frame hread hlater, hlast⟩
      | some cipher =>
          obtain ⟨htag, hopen, haccepts⟩ := haccepts
          obtain ⟨plaintext, hopen⟩ := Option.ne_none_iff_exists'.mp hopen
          have hdecrypt := decrypt_accepted endpoint gcm cipher htag hopen
          simp only [openPayload, hdecrypt] at hread
          obtain ⟨plaintexts, last, hlater, hlast⟩ :=
            ih ⟨some { cipher with recvCounter := cipher.recvCounter + 1 },
              (payloads.map encodeFrame).flatten ++ tail⟩ rfl hrange.2 haccepts
          exact ⟨plaintext :: plaintexts, last, .frame hread hlater, hlast⟩

theorem readFrame_cutPrefix (endpoint : FrameEndpoint) (gcm : AesGcm Key) (offers : ℕ → ℕ)
    {connection : FrameConnection Key} (hcut : CutPrefix connection.unread) :
    (endpoint.readFrame gcm offers connection).1 = .ok none := by
  rw [readFrame_eq, if_pos hcut.2]

theorem readFrame_cutPayload (endpoint : FrameEndpoint) (gcm : AesGcm Key) (offers : ℕ → ℕ)
    {connection : FrameConnection Key} (hcut : CutPayload connection.unread) :
    (endpoint.readFrame gcm offers connection).1 =
      endpoint.cutPayload (ofLittleEndian (connection.unread.take 4)) := by
  rw [readFrame_eq, if_neg (Nat.not_lt.mpr hcut.1)]
  simp only [if_neg hcut.2.1, if_pos hcut.2.2]

theorem openPayload_ne_null
    (decrypt : AeadFrameCipher Key → Bytes → Except CipherError Bytes × AeadFrameCipher Key)
    (cipher : Option (AeadFrameCipher Key)) (payload rest : Bytes) :
    (openPayload decrypt cipher payload rest).1 ≠ .ok none := by
  cases cipher with
  | none => simp [openPayload]
  | some cipher =>
      rcases hdecrypt : decrypt cipher payload with ⟨error | plaintext, next⟩ <;>
        simp [openPayload, hdecrypt]

theorem readFrame_null_iff (endpoint : FrameEndpoint) (gcm : AesGcm Key) (offers : ℕ → ℕ)
    (connection : FrameConnection Key) :
    (endpoint.readFrame gcm offers connection).1 = .ok none ↔
      connection.unread = [] ∨ CutPrefix connection.unread ∨
        (endpoint = .engine ∧ CutPayload connection.unread) := by
  constructor
  · intro hnull
    rw [readFrame_eq] at hnull
    simp only at hnull
    split_ifs at hnull with hshort hrange hcut
    · by_cases hempty : connection.unread = []
      · exact .inl hempty
      · exact .inr (.inl ⟨hempty, hshort⟩)
    · cases endpoint with
      | engine => exact .inr (.inr ⟨rfl, Nat.le_of_not_lt hshort, hrange, hcut⟩)
      | android => cases hnull
    · exact absurd hnull (openPayload_ne_null _ _ _ _)
  · rintro (hempty | hcut | ⟨rfl, hcut⟩)
    · rw [readFrame_eq, hempty]
      rfl
    · exact readFrame_cutPrefix endpoint gcm offers hcut
    · exact readFrame_cutPayload .engine gcm offers hcut

theorem nullMeansEnd_iff (endpoint : FrameEndpoint) (gcm : AesGcm Key) (offers : ℕ → ℕ)
    (connection : FrameConnection Key) :
    NullMeansEnd (endpoint.readFrame gcm offers) connection ↔
      ¬ EndsIn gcm connection fun tail =>
        CutPrefix tail ∨ (endpoint = .engine ∧ CutPayload tail) := by
  constructor
  · rintro hmeans ⟨payloads, tail, hunread, hrange, haccepts, hcut⟩
    obtain ⟨plaintexts, last, hdelivers, rfl⟩ :=
      delivers_frames endpoint gcm offers connection hunread hrange haccepts
    have hended := (hmeans plaintexts last hdelivers).1
      ((readFrame_null_iff endpoint gcm offers last).mpr (.inr hcut))
    rcases hcut with hcut | ⟨-, hcut⟩
    · exact hcut.1 hended
    · have hlong := hcut.1
      simp [hended] at hlong
  · intro huncut plaintexts last hdelivers
    have hnot : ¬ (CutPrefix last.unread ∨ (endpoint = .engine ∧ CutPayload last.unread)) :=
      fun hcut => huncut (frames_of_delivers endpoint gcm offers hdelivers hcut)
    rw [not_or] at hnot
    constructor
    · intro hnull
      rcases (readFrame_null_iff endpoint gcm offers last).mp hnull with hended | hcut
      · exact hended
      · exact absurd hcut (not_or.mpr hnot)
    · rintro (hcut | hcut)
      · exact absurd hcut hnot.1
      · have hread := readFrame_cutPayload endpoint gcm offers hcut
        cases endpoint with
        | engine => exact absurd ⟨rfl, hcut⟩ hnot.2
        | android => exact ⟨_, hread⟩

/-- The engine's reader tells the truth with its null unless the stream ends inside a length
prefix or inside a payload, the Android client's unless it ends inside a length prefix. -/
theorem null_means_end_iff (gcm : AesGcm Key) (offers : ℕ → ℕ)
    (connection : FrameConnection Key) :
    (NullMeansEnd (FrameEndpoint.engine.readFrame gcm offers) connection ↔
        ¬ EndsIn gcm connection fun tail => CutPrefix tail ∨ CutPayload tail) ∧
      (NullMeansEnd (FrameEndpoint.android.readFrame gcm offers) connection ↔
        ¬ EndsIn gcm connection CutPrefix) := by
  constructor
  · simpa using nullMeansEnd_iff .engine gcm offers connection
  · simpa using nullMeansEnd_iff .android gcm offers connection

/-- Five bytes are promised and one arrives; one byte of a length prefix arrives. -/
theorem null_inside_frame :
    ¬ NullMeansEnd (FrameEndpoint.engine.readFrame (AesGcm.clear : AesGcm Unit) id)
        ⟨none, [5, 0, 0, 0, 1]⟩ ∧
      ¬ NullMeansEnd (FrameEndpoint.android.readFrame (AesGcm.clear : AesGcm Unit) id)
        ⟨none, [5]⟩ := by
  rw [nullMeansEnd_iff, nullMeansEnd_iff, not_not, not_not]
  constructor
  · exact ⟨[], [5, 0, 0, 0, 1], rfl, by simp, trivial, .inr ⟨rfl, by decide, by decide, by decide⟩⟩
  · exact ⟨[], [5], rfl, by simp, trivial, .inl ⟨by decide, by decide⟩⟩

/-- The iOS reader, the counterpart, returns nothing only at the end of the stream. -/
theorem readPayloadSwift_null_iff (stream : Bytes) :
    readPayloadSwift stream = .ok none ↔ stream = [] := by
  constructor
  · intro hnull
    unfold readPayloadSwift at hnull
    rcases hheader : readExactlySwift 4 stream with error | (_ | ⟨header, rest⟩)
    · rw [hheader] at hnull
      cases hnull
    · unfold readExactlySwift at hheader
      split_ifs at hheader with hlong hempty
      · cases hheader
      · exact hempty
    · rw [hheader] at hnull
      simp only [bind, Except.bind] at hnull
      split_ifs at hnull
      · cases hnull
      · split at hnull
        · cases hnull
        · split at hnull <;> cases hnull
  · rintro rfl
    rfl

end FrameEndpoint

end NativeInterop
