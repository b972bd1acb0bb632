import NativeInterop.RagClients
import NativeInterop.RawHttp
import NativeInterop.SqliteBroker
import Mathlib.Data.List.TakeWhile
import Mathlib.Tactic

/-!
# One answer over four boundaries

A session hands the tokens of an answer to the callback of the FFI, to the raw HTTP
stream, to the framed protobuf connection and to the table of the SQLite broker.
Each has its own encoding, and each its own limit: a C string ends at its first NUL,
a frame has at most 16 MiB, and the rows are ordered by a signed 32-bit index.  HTTP
has none.
-/

namespace NativeInterop

namespace TokenBoundaries

open InferenceOrchestrator ProtoWire Pb RagClients

/-! ## The callback -/

/-- The arguments of `dni_token_cb` other than `user_data`; the text is what memory
holds from the pointer on. -/
structure CallbackArguments where
  index : BitVec 32
  text : Bytes
  isFinal : BitVec 32
  deriving DecidableEq

/-- `NativeText.Allocate`: a NUL-terminated copy in UTF-8. -/
def allocate (value : String) : Bytes :=
  utf8 value ++ [0]

/-- The call in `Invoke`. -/
def invoke (token : InferenceToken) : CallbackArguments where
  index := token.index
  text := allocate token.text
  isFinal := if token.isFinal then 1 else 0

def readCString (memory : Bytes) : Option String :=
  ofUtf8 (memory.takeWhile (· ≠ 0))

def receive (arguments : CallbackArguments) : Option InferenceToken :=
  (readCString arguments.text).map fun text => ⟨arguments.index, text, arguments.isFinal ≠ 0⟩

theorem utf8_ofList (chars : List Char) :
    utf8 (.ofList chars) = chars.flatMap String.utf8EncodeChar := by
  simp [utf8, List.utf8Encode]

theorem zero_ne_ofNat {n : ℕ} (hlow : 0 < n) (hhigh : n < 256) : (0 : UInt8) ≠ UInt8.ofNat n := by
  intro heq
  have hvalue := congrArg UInt8.toNat heq
  simp only [UInt8.toNat_zero, UInt8.toNat_ofNat'] at hvalue
  omega

theorem zero_mem_utf8EncodeChar (c : Char) :
    (0 : UInt8) ∈ String.utf8EncodeChar c ↔ c = '\x00' := by
  have hnul : c = '\x00' ↔ c.val.toNat = 0 := by
    rw [← Char.val_inj, ← UInt32.toNat_inj]
    rfl
  rw [hnul]
  unfold String.utf8EncodeChar
  dsimp only
  generalize c.val.toNat = v
  split_ifs with hone htwo hthree
  · rcases Nat.eq_zero_or_pos v with rfl | hpos
    · decide
    · have hne := zero_ne_ofNat hpos (by omega)
      simp [hne, Nat.pos_iff_ne_zero.mp hpos]
  -- the bytes of a longer encoding all have their highest bit set
  all_goals
    simp only [List.mem_cons, List.not_mem_nil, or_false]
    constructor
  · rintro (hbyte | hbyte) <;> exact absurd hbyte (zero_ne_ofNat (by omega) (by omega))
  · omega
  · rintro (hbyte | hbyte | hbyte) <;> exact absurd hbyte (zero_ne_ofNat (by omega) (by omega))
  · omega
  · rintro (hbyte | hbyte | hbyte | hbyte) <;>
      exact absurd hbyte (zero_ne_ofNat (by omega) (by omega))
  · omega

theorem zero_mem_utf8 (text : String) : (0 : UInt8) ∈ utf8 text ↔ '\x00' ∈ text.toList := by
  have htext : text = .ofList text.toList := by simp
  rw [htext, utf8_ofList]
  simp [zero_mem_utf8EncodeChar]

theorem utf8_of_ofUtf8 {bytes : Bytes} {text : String} (hread : ofUtf8 bytes = some text) :
    utf8 text = bytes := by
  unfold ofUtf8 String.fromUTF8? at hread
  split_ifs at hread
  cases hread
  simp [utf8, String.fromUTF8]

/-- The callback's reader gets the text back exactly if it has no NUL. -/
theorem readCString_allocate (text : String) :
    readCString (allocate text) = some text ↔ '\x00' ∉ text.toList := by
  rw [← zero_mem_utf8]
  constructor
  · intro hread hzero
    have hbytes := utf8_of_ofUtf8 hread
    have hnever := List.mem_takeWhile_imp (hbytes ▸ hzero)
    simp at hnever
  · intro hfree
    have hall : ∀ byte ∈ utf8 text, decide (byte ≠ 0) = true := by
      intro byte hbyte
      simp only [ne_eq, decide_not, Bool.not_eq_true', decide_eq_false_iff_not]
      rintro rfl
      exact hfree hbyte
    rw [readCString, allocate, List.takeWhile_append_of_pos hall]
    simp

theorem receive_invoke (token : InferenceToken) :
    receive (invoke token) = some token ↔ '\x00' ∉ token.text.toList := by
  rw [← readCString_allocate]
  obtain ⟨index, text, isFinal⟩ := token
  cases hread : readCString (allocate text) with
  | none => simp [receive, invoke, hread]
  | some found => cases isFinal <;> simp [receive, invoke, hread]

theorem mapM_eq_some_self {α : Type*} {f : α → Option α} {items : List α} :
    items.mapM f = some items ↔ ∀ item ∈ items, f item = some item := by
  induction items with
  | nil => simp
  | cons item items ih =>
      simp only [List.mapM_cons, List.forall_mem_cons, ← ih]
      cases f item <;> cases items.mapM f <;> simp

theorem run_eq_stream (fragments : List String) :
    run ⟨fragments, false⟩ = stream fragments := by
  rw [run_eq]
  rfl

/-- The callback sees the answer exactly if no fragment has a NUL. -/
theorem callback_iff (fragments : List String) :
    ((run ⟨fragments, false⟩).mapM fun token => receive (invoke token)) =
        some (run ⟨fragments, false⟩) ↔
      ∀ fragment ∈ fragments, '\x00' ∉ fragment.toList := by
  rw [mapM_eq_some_self, run_eq_stream]
  simp only [receive_invoke]
  constructor
  · intro hfree fragment hmem
    obtain ⟨i, hi, rfl⟩ := List.mem_iff_getElem.mp hmem
    exact hfree ⟨BitVec.ofNat 32 i, fragments[i], false⟩
      (List.mem_append_left _ (List.mem_mapIdx.mpr ⟨i, hi, rfl⟩))
  · intro hfree token hmem
    rcases List.mem_append.mp hmem with htoken | hlast
    · obtain ⟨i, hi, rfl⟩ := List.mem_mapIdx.mp htoken
      exact hfree _ (List.getElem_mem hi)
    · rw [List.mem_singleton.mp hlast]
      simp [InferenceToken.final]

/-! ## The frames -/

variable {Key : Type*}

def chunkOf (token : InferenceToken) : RagChunk :=
  ⟨token.index, token.text, token.isFinal⟩

def tokenOf (token : Token) : InferenceToken :=
  ⟨token.index, token.text, token.isFinal⟩

/-- The Android client hands on the answer and ends on its final chunk, if every
frame is within the limit. -/
theorem streamKotlin_all (codec : EnvelopeCodec) (gcm : AesGcm Key) (ending : Ending)
    (requestId : String) {server client : FrameConnection Key} {fragments : List String}
    (hsynced : Synced server client)
    (hunread : client.unread =
      streamBytes codec gcm requestId server ((run ⟨fragments, false⟩).map chunkOf))
    (hfits : ∀ token ∈ run ⟨fragments, false⟩,
      ¬ Oversized codec server requestId (chunkOf token)) :
    (streamKotlin codec gcm ending client).1.map tokenOf = run ⟨fragments, false⟩ ∧
      (streamKotlin codec gcm ending client).2 = .completed true := by
  have hsplit : (run ⟨fragments, false⟩).map chunkOf =
      (tokens fragments).map chunkOf ++
        [chunkOf (.final (BitVec.ofNat 32 fragments.length))] := by
    rw [run_eq_stream, stream, List.map_append]
    rfl
  have hpieces : ∀ chunk ∈ (run ⟨fragments, false⟩).map chunkOf,
      ¬ Oversized codec server requestId chunk := by
    intro chunk hchunk
    obtain ⟨token, htoken, rfl⟩ := List.mem_map.mp hchunk
    exact hfits token htoken
  rw [hsplit] at hunread hpieces
  have hlength : ((tokens fragments).map chunkOf).length < client.unread.length + 1 := by
    have hbytes := length_le_streamBytes codec gcm server requestId
      ((tokens fragments).map chunkOf ++
        [chunkOf (.final (BitVec.ofNat 32 fragments.length))])
    rw [← hunread, List.length_append] at hbytes
    omega
  have hinit : ∀ chunk ∈ (tokens fragments).map chunkOf, chunk.final = false := by
    intro chunk hchunk
    obtain ⟨token, htoken, rfl⟩ := List.mem_map.mp hchunk
    exact isFinal_of_mem_tokens htoken
  have hall : streamKotlin codec gcm ending client = _ :=
    relay_all (streamReader_kotlin codec gcm) requestId hinit rfl hpieces
      (fun hfalse => hfalse) hsynced hunread hlength
  rw [hall, ← hsplit]
  refine ⟨?_, rfl⟩
  rw [← List.map_eq_flatMap, List.map_map, List.map_map]
  exact List.map_id' _

/-! ## The four together -/

/-- Each boundary hands on the answer as the orchestrator yields it: the callback if
and only if no fragment has a NUL, HTTP always, the framed connection while no frame
is above its limit, and the table, for texts without NUL, if and only if the answer
has fewer than 2^31 fragments. -/
theorem tokens_cross_boundaries (codec : EnvelopeCodec) (gcm : AesGcm Key) (ending : Ending)
    (requestId : String) {server client : FrameConnection Key}
    (hsynced : Synced server client) (column : String → String)
    (hcolumn : ∀ text : String, '\x00' ∉ text.toList → column text = text)
    {rows : List SqliteBroker.TokenRow} {rowId : ℤ}
    (hfresh : ∀ row ∈ rows, row.requestId ≠ rowId) (fragments : List String)
    (hunread : client.unread =
      streamBytes codec gcm requestId server ((run ⟨fragments, false⟩).map chunkOf)) :
    (((run ⟨fragments, false⟩).mapM fun token => receive (invoke token)) =
        some (run ⟨fragments, false⟩) ↔
      ∀ fragment ∈ fragments, '\x00' ∉ fragment.toList) ∧
    RawHttp.readStream (RawHttp.writeStream (run ⟨fragments, false⟩)) =
      some (run ⟨fragments, false⟩) ∧
    ((∀ token ∈ run ⟨fragments, false⟩, ¬ Oversized codec server requestId (chunkOf token)) →
      (streamKotlin codec gcm ending client).1.map tokenOf = run ⟨fragments, false⟩ ∧
        (streamKotlin codec gcm ending client).2 = .completed true) ∧
    ((∀ fragment ∈ fragments, '\x00' ∉ fragment.toList) →
      (SqliteBroker.readTokens column
          (SqliteBroker.processPending rows rowId ⟨fragments, false⟩).1 rowId =
        run ⟨fragments, false⟩ ↔ fragments.length < 2 ^ 31)) := by
  refine ⟨callback_iff fragments, RawHttp.readStream_writeStream _, ?_, ?_⟩
  · exact streamKotlin_all codec gcm ending requestId hsynced hunread
  · exact SqliteBroker.readTokens_iff hcolumn hfresh

/-- What a plaintext client finds of an answer. -/
def plainClient (fragments : List String) : FrameConnection Unit where
  cipher := none
  unread := streamBytes proto3 .clear "q1" plainServer ((run ⟨fragments, false⟩).map chunkOf)

theorem tokens_cross_quoted :
    ((run ⟨["say \"hi\"\n"], false⟩).mapM fun token => receive (invoke token)) =
        some (run ⟨["say \"hi\"\n"], false⟩) ∧
      (streamKotlin proto3 .clear .eof (plainClient ["say \"hi\"\n"])).1.map tokenOf =
        run ⟨["say \"hi\"\n"], false⟩ := by
  have hsynced : Synced plainServer (plainClient ["say \"hi\"\n"]) := trivial
  have hfresh : ∀ row ∈ ([] : List SqliteBroker.TokenRow), row.requestId ≠ 1 := by simp
  have hcross := tokens_cross_boundaries proto3 .clear .eof "q1" hsynced (fun text => text)
    (fun _ _ => rfl) hfresh ["say \"hi\"\n"] rfl
  refine ⟨hcross.1.mpr (by decide), (hcross.2.2.1 ?_).1⟩
  decide

/-! ## At the limits -/

theorem varintFuel_length_le (fuel n : ℕ) : (varintFuel fuel n).length ≤ fuel + 1 := by
  induction fuel generalizing n with
  | zero => simp [varintFuel]
  | succ fuel ih =>
      unfold varintFuel
      split_ifs
      · simp
      · simpa using ih (n / 128)

/-- A crude bound on the size of a field from both sides. -/
theorem encodeField_bytes_length (number : ℕ) (content : Bytes) :
    content.length ≤ (encodeField ⟨number, .bytes content⟩).length ∧
      (encodeField ⟨number, .bytes content⟩).length ≤ 8 * number + 2 * content.length + 4 := by
  have htag := varintFuel_length_le (number * 8 + 2) (number * 8 + 2)
  have hlength := varintFuel_length_le content.length content.length
  simp only [encodeField, encodeValue, Value.wireType, varint, List.length_append]
  omega

def longText (n : ℕ) : String :=
  .ofList (List.replicate n 'a')

theorem utf8_longText (n : ℕ) : (utf8 (longText n)).length = n := by
  rw [longText, utf8_ofList]
  induction n with
  | zero => rfl
  | succ n ih =>
      rw [List.replicate_succ, List.flatMap_cons, List.length_append, ih]
      exact Nat.add_comm _ _

/-- The envelope of a long first chunk, in bytes. -/
theorem serialize_longText {n : ℕ} (hpos : 0 < n) :
    n < (proto3.serialize (chunkEnvelope "q1" ⟨0, longText n, false⟩)).length ∧
      (proto3.serialize (chunkEnvelope "q1" ⟨0, longText n, false⟩)).length ≤
        4 * n + 200 := by
  have hutf8 := utf8_longText n
  have hne : utf8 (longText n) ≠ [] := List.ne_nil_of_length_pos (by omega)
  have hfields : RagChunk.fields ⟨0#32, longText n, false⟩ =
      [⟨2, .bytes (utf8 (longText n))⟩] := by
    simp [RagChunk.fields, int32Field, boolField, stringField, varintField, bytesField, hne]
  have hinner := encodeField_bytes_length 2 (utf8 (longText n))
  have houter := encodeField_bytes_length 9 (encodeField ⟨2, .bytes (utf8 (longText n))⟩)
  have hid : (encodeFields (stringField 1 "q1")).length = 4 := by
    decide
  have hserialize : proto3.serialize (chunkEnvelope "q1" ⟨0, longText n, false⟩) =
      encodeFields (stringField 1 "q1") ++
        encodeField ⟨9, .bytes (encodeField ⟨2, .bytes (utf8 (longText n))⟩)⟩ := by
    simp [proto3, chunkEnvelope, Envelope.fields, Body.fields, Body.number, hfields,
      encodeFields]
  rw [hserialize, List.length_append, hid]
  omega

theorem streamKotlin_oversized {n : ℕ} (hlarge : 2 ^ 24 ≤ n) (hsmall : n < 2 ^ 28) :
    (streamKotlin proto3 .clear .eof (plainClient [longText n])).1 = [] := by
  obtain ⟨hlow, hhigh⟩ := serialize_longText (n := n) (by omega)
  have hlength := payloadOf_length proto3 .clear plainServer
    (chunkEnvelope "q1" ⟨0, longText n, false⟩)
  have hplain : (if plainServer.cipher.isSome then AeadFrameCipher.tagBytes else 0) = 0 := rfl
  rw [hplain, Nat.add_zero] at hlength
  have hunread : ∃ rest, (plainClient [longText n]).unread =
      encodeFrame (payloadOf proto3 .clear plainServer
        (chunkEnvelope "q1" ⟨0, longText n, false⟩)) ++ rest := ⟨_, rfl⟩
  obtain ⟨rest, hunread⟩ := hunread
  obtain ⟨error, next, hread⟩ := (streamReader_kotlin proto3 .clear).refuses _ _ _ hunread
    (by simp only [maxFrameBytes]; omega) (by omega)
  simp [streamKotlin, relay, readEnvelopeWith, hread]

theorem readTokens_wrapped {n : ℕ} (hcount : 2 ^ 31 ≤ n) :
    SqliteBroker.readTokens (fun text => text)
        (SqliteBroker.processPending [] 1 ⟨List.replicate n "", false⟩).1 1 ≠
      run ⟨List.replicate n "", false⟩ := by
  have hempty : ∀ fragment ∈ List.replicate n "", '\x00' ∉ fragment.toList := by
    intro fragment hmem
    rw [List.eq_of_mem_replicate hmem]
    decide
  rw [Ne, SqliteBroker.readTokens_iff (fun _ _ => rfl) (by simp) hempty, List.length_replicate]
  exact Nat.not_lt.mpr hcount

/-- An embedded NUL, a chunk of 16 MiB and 2^31 fragments are each lost on the way. -/
theorem boundaries_at_limits :
    ((run ⟨["a\x00b"], false⟩).mapM fun token => receive (invoke token)) ≠
        some (run ⟨["a\x00b"], false⟩) ∧
    (streamKotlin proto3 .clear .eof (plainClient [longText (2 ^ 24)])).1 = [] ∧
    SqliteBroker.readTokens (fun text => text)
        (SqliteBroker.processPending [] 1 ⟨List.replicate (2 ^ 31) "", false⟩).1 1 ≠
      run ⟨List.replicate (2 ^ 31) "", false⟩ := by
  refine ⟨?_, ?_, ?_⟩
  · rw [Ne, callback_iff]
    decide
  · exact streamKotlin_oversized le_rfl (by decide)
  · exact readTokens_wrapped le_rfl

end TokenBoundaries

end NativeInterop
