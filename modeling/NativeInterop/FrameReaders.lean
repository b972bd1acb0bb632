import NativeInterop.FrameConnection
import Mathlib.Tactic

/-!
# The three frame readers

The engine, the Android client and the iOS client each have a reader of their own for the
frames of one format.  This file compares the frames they deliver on one byte stream, up
to the first error or the end of the stream.  Of a reader it matters which frames it
takes; whether it stops with an error or at the end of the stream does not.
-/

namespace NativeInterop

/-! ## Reads that come short -/

/-- The loop of `ReadExactAsync` and of both `readExactly`.  A read returns at least one
byte unless the stream has ended; `offers` says how many more, by the number of bytes
that were left. -/
def readLoop (offers : ℕ → ℕ) (count : ℕ) (buffer stream : Bytes) : Bytes × Bytes :=
  if buffer.length < count ∧ stream ≠ [] then
    let n := min (count - buffer.length) (offers stream.length + 1)
    readLoop offers count (buffer ++ stream.take n) (stream.drop n)
  else (buffer, stream)
termination_by stream.length
decreasing_by
  next hmore =>
    have hpos := List.length_pos_of_ne_nil hmore.2
    rw [List.length_drop]
    omega

theorem readLoop_eq (offers : ℕ → ℕ) (count : ℕ) (buffer stream : Bytes) :
    readLoop offers count buffer stream =
      (buffer ++ stream.take (count - buffer.length), stream.drop (count - buffer.length)) := by
  induction buffer, stream using readLoop.induct offers count with
  | case1 buffer stream hmore n ih =>
      have hn : n ≤ count - buffer.length := Nat.min_le_left _ _
      rw [readLoop, if_pos hmore]
      simp only
      rw [ih, List.length_append, List.append_assoc, List.length_take, List.drop_drop]
      by_cases hlong : n ≤ stream.length
      · rw [Nat.min_eq_left hlong, Nat.sub_add_eq, ← List.take_add, Nat.add_sub_cancel' hn]
      · rw [List.drop_eq_nil_of_le (Nat.le_of_not_le hlong), List.take_nil,
          List.append_nil, List.take_of_length_le (Nat.le_of_not_le hlong),
          List.take_of_length_le (by omega), List.drop_eq_nil_of_le (by omega),
          List.drop_eq_nil_of_le (by omega)]
  | case2 buffer stream hdone =>
      rw [readLoop, if_neg hdone]
      rw [not_and_or, Nat.not_lt, not_not] at hdone
      rcases hdone with hfull | hended
      · simp [Nat.sub_eq_zero_of_le hfull]
      · simp [hended]

/-- The loop of `ReadExactAsync`, and of the Kotlin `readExactly`. -/
theorem readExact_eq_readLoop (offers : ℕ → ℕ) (count : ℕ) (stream : Bytes) :
    readExact count stream =
      let (buffer, rest) := readLoop offers count [] stream
      if buffer.length < count then none else some (buffer, rest) := by
  simp only [readLoop_eq, readExact, List.length_nil, Nat.sub_zero, List.nil_append,
    List.length_take]
  by_cases hfits : count ≤ stream.length
  · rw [if_pos hfits, if_neg (by omega)]
  · rw [if_neg hfits, if_pos (by omega)]

/-- The loop of the Swift `readExactly`, which tells an empty buffer from a begun one. -/
theorem readExactlySwift_eq_readLoop (offers : ℕ → ℕ) (count : ℕ) (stream : Bytes) :
    readExactlySwift count stream =
      let (buffer, rest) := readLoop offers count [] stream
      if buffer.length < count then
        if buffer = [] then .ok none else .error .closedEarly
      else .ok (some (buffer, rest)) := by
  simp only [readLoop_eq, readExactlySwift, List.length_nil, Nat.sub_zero, List.nil_append,
    List.length_take]
  by_cases hfits : count ≤ stream.length
  · rw [if_pos hfits, if_neg (by omega)]
  · have hshort : min count stream.length < count := by omega
    rw [if_neg hfits, if_pos hshort, List.take_of_length_le (by omega)]

/-- The Kotlin length is read as a signed number and masked. -/
def maskedLength (header : Bytes) : BitVec 64 :=
  (BitVec.ofNat 32 (ofLittleEndian header)).signExtend 64 &&& 0xFFFFFFFF#64

theorem maskedLength_toInt {header : Bytes} (hheader : header.length = 4) :
    (maskedLength header).toInt = ofLittleEndian header := by
  have hlt := ofLittleEndian_lt header
  rw [hheader] at hlt
  have hmask : 0xFFFFFFFF#64 = (BitVec.allOnes 32).setWidth 64 := rfl
  have hset : maskedLength header = (BitVec.ofNat 32 (ofLittleEndian header)).setWidth 64 := by
    apply BitVec.eq_of_getLsbD_eq
    intro i hi
    rw [maskedLength, hmask, BitVec.getLsbD_and, BitVec.getLsbD_setWidth, BitVec.getLsbD_setWidth,
      BitVec.getLsbD_allOnes, BitVec.getLsbD_signExtend]
    by_cases hlow : i < 32
    · simp [hlow, hi]
    · simp [hlow, BitVec.getLsbD_of_ge _ i (Nat.not_lt.mp hlow)]
  rw [hset, BitVec.toInt_eq_toNat_of_lt]
  · simp
    omega
  · simp
    omega

/-! ## What the readers take -/

theorem readExact_eq_some_iff {count : ℕ} {stream payload rest : Bytes} :
    readExact count stream = some (payload, rest) ↔
      stream = payload ++ rest ∧ payload.length = count := by
  constructor
  · intro hread
    rw [readExact] at hread
    split_ifs at hread with hfits
    simp only [Option.some.injEq, Prod.mk.injEq] at hread
    obtain ⟨rfl, rfl⟩ := hread
    exact ⟨(List.take_append_drop _ _).symm, by simpa using hfits⟩
  · rintro ⟨rfl, rfl⟩
    exact readExact_append payload rest

theorem readExactlySwift_eq_some_iff {count : ℕ} {stream payload rest : Bytes} :
    readExactlySwift count stream = .ok (some (payload, rest)) ↔
      stream = payload ++ rest ∧ payload.length = count := by
  rw [← readExact_eq_some_iff, readExactlySwift, readExact]
  split_ifs <;> simp

/-- A header and as many bytes as it says are a frame. -/
theorem frame_of_header {stream header behind payload rest : Bytes}
    (hheader : stream = header ++ behind ∧ header.length = 4)
    (hpayload : behind = payload ++ rest ∧ payload.length = ofLittleEndian header) :
    stream = encodeFrame payload ++ rest := by
  rw [encodeFrame, hpayload.2, ← hheader.2, littleEndian_ofLittleEndian, hheader.1,
    hpayload.1, List.append_assoc]

theorem readPayload_eq_some_iff {stream payload rest : Bytes} :
    readPayload stream = .ok (some (payload, rest)) ↔
      stream = encodeFrame payload ++ rest ∧
        1 ≤ payload.length ∧ payload.length ≤ maxFrameBytes := by
  constructor
  · intro hread
    unfold readPayload at hread
    split at hread
    · cases hread
    · next header behind hheader =>
        simp only at hread
        split_ifs at hread with hrange
        simp only [Except.ok.injEq] at hread
        rw [readExact_eq_some_iff] at hread hheader
        refine ⟨frame_of_header hheader hread, ?_⟩
        omega
  · rintro ⟨rfl, hpos, hmax⟩
    exact readPayload_encodeFrame rest hpos hmax

theorem readPayloadKotlin_eq_some_iff {stream payload rest : Bytes} :
    readPayloadKotlin stream = .ok (some (payload, rest)) ↔
      stream = encodeFrame payload ++ rest ∧
        1 ≤ payload.length ∧ payload.length ≤ maxFrameBytes := by
  rw [← readPayload_eq_some_iff]
  unfold readPayloadKotlin readPayload
  split
  · rfl
  · next header behind hheader =>
      simp only
      split_ifs
      · rfl
      · split
        · next hcut => simp [hcut]
        · next found hfound => simp [hfound]

theorem readPayloadSwift_eq_some_iff {stream payload rest : Bytes} :
    readPayloadSwift stream = .ok (some (payload, rest)) ↔
      stream = encodeFrame payload ++ rest ∧
        0 ≤ payload.length ∧ payload.length ≤ maxFrameBytes := by
  constructor
  · intro hread
    unfold readPayloadSwift at hread
    cases hheader : readExactlySwift 4 stream with
    | error error =>
        rw [hheader] at hread
        cases hread
    | ok found =>
        rw [hheader] at hread
        cases found with
        | none => cases hread
        | some found =>
            obtain ⟨header, behind⟩ := found
            simp only [bind, Except.bind] at hread
            rw [readExactlySwift_eq_some_iff] at hheader
            split_ifs at hread with hlarge hzero
            · simp only [Except.ok.injEq, Option.some.injEq, Prod.mk.injEq] at hread
              obtain ⟨rfl, rfl⟩ := hread
              exact ⟨frame_of_header hheader ⟨rfl, hzero.symm⟩, Nat.zero_le _, Nat.zero_le _⟩
            · cases hpayload : readExactlySwift (ofLittleEndian header) behind with
              | error error =>
                  rw [hpayload] at hread
                  cases hread
              | ok found =>
                  rw [hpayload] at hread
                  cases found with
                  | none => cases hread
                  | some found =>
                      simp only [Except.ok.injEq, Option.some.injEq] at hread
                      subst hread
                      rw [readExactlySwift_eq_some_iff] at hpayload
                      refine ⟨frame_of_header hheader hpayload, Nat.zero_le _, ?_⟩
                      omega
  · rintro ⟨rfl, -, hmax⟩
    exact readPayloadSwift_encodeFrame rest hmax

/-- A reader of plaintext frames, with the length of the shortest payload it takes. -/
structure PayloadReader where
  read : Bytes → Except FrameError (Option (Bytes × Bytes))
  shortest : ℕ
  takes : ∀ stream payload rest, read stream = .ok (some (payload, rest)) ↔
    stream = encodeFrame payload ++ rest ∧
      shortest ≤ payload.length ∧ payload.length ≤ maxFrameBytes

namespace PayloadReader

def engine : PayloadReader := ⟨readPayload, 1, fun _ _ _ => readPayload_eq_some_iff⟩

def android : PayloadReader := ⟨readPayloadKotlin, 1, fun _ _ _ => readPayloadKotlin_eq_some_iff⟩

def ios : PayloadReader := ⟨readPayloadSwift, 0, fun _ _ _ => readPayloadSwift_eq_some_iff⟩

variable (reader : PayloadReader)

/-- The frames delivered before the first error or the end of the stream. -/
def frames (stream : Bytes) : List Bytes :=
  match _hread : reader.read stream with
  | .ok (some (payload, rest)) => payload :: frames rest
  | .ok none => []
  | .error _ => []
termination_by stream.length
decreasing_by
  rw [((reader.takes _ _ _).mp _hread).1, List.length_append, encodeFrame_length]
  omega

theorem frames_cons {stream payload rest : Bytes}
    (hread : reader.read stream = .ok (some (payload, rest))) :
    reader.frames stream = payload :: reader.frames rest := by
  rw [frames]
  split
  · next heq =>
      rw [hread] at heq
      cases heq
      rfl
  · next heq => cases hread.symm.trans heq
  · next heq => cases hread.symm.trans heq

theorem frames_stop {stream : Bytes}
    (hstop : ∀ payload rest, reader.read stream ≠ .ok (some (payload, rest))) :
    reader.frames stream = [] := by
  rw [frames]
  split
  · next heq => exact absurd heq (hstop _ _)
  · rfl
  · rfl

theorem frames_induction {motive : Bytes → Prop}
    (taken : ∀ stream payload rest, reader.read stream = .ok (some (payload, rest)) →
      motive rest → motive stream)
    (stopped : ∀ stream, (∀ payload rest, reader.read stream ≠ .ok (some (payload, rest))) →
      motive stream)
    (stream : Bytes) : motive stream := by
  induction stream using frames.induct reader with
  | case1 stream payload rest hread ih => exact taken stream payload rest hread ih
  | case2 stream hread => exact stopped stream (by simp [hread])
  | case3 stream error hread => exact stopped stream (by simp [hread])

/-- On a channel without a cipher a frame is what the framing delivers. -/
theorem readFrameWith_uncovered {Key : Type*} (decrypt : AeadFrameCipher Key → Bytes →
      Except CipherError Bytes × AeadFrameCipher Key) (stream : Bytes) :
    (FrameConnection.readFrameWith reader.read decrypt ⟨none, stream⟩).1 =
      (reader.read stream).map (Option.map Prod.fst) := by
  unfold FrameConnection.readFrameWith
  rcases hread : reader.read stream with error | (_ | ⟨payload, rest⟩) <;> simp [Except.map]

/-- Readers that take the same payloads deliver the same frames. -/
theorem frames_eq_of_shortest {first second : PayloadReader}
    (hshortest : first.shortest = second.shortest) (stream : Bytes) :
    first.frames stream = second.frames stream := by
  have hsame : ∀ stream payload rest, first.read stream = .ok (some (payload, rest)) ↔
      second.read stream = .ok (some (payload, rest)) := by
    intro stream payload rest
    rw [first.takes, second.takes, hshortest]
  induction stream using frames_induction first with
  | taken stream payload rest hread ih =>
      rw [frames_cons _ hread, frames_cons _ ((hsame _ _ _).mp hread), ih]
  | stopped stream hstop =>
      rw [frames_stop _ hstop, frames_stop]
      intro payload rest hread
      exact hstop payload rest ((hsame _ _ _).mpr hread)

theorem frames_encodeFrames {payloads : List Bytes}
    (hpayloads : ∀ payload ∈ payloads,
      reader.shortest ≤ payload.length ∧ payload.length ≤ maxFrameBytes) (rest : Bytes) :
    reader.frames ((payloads.map encodeFrame).flatten ++ rest) =
      payloads ++ reader.frames rest := by
  induction payloads with
  | nil => rfl
  | cons payload payloads ih =>
      rw [List.forall_mem_cons] at hpayloads
      rw [List.map_cons, List.flatten_cons, List.append_assoc, List.cons_append,
        ← ih hpayloads.2]
      exact reader.frames_cons ((reader.takes _ _ _).mpr ⟨rfl, hpayloads.1⟩)

end PayloadReader

/-! ## Where they differ -/

/-- Frames that every reader takes, and then a length of zero. -/
def MeetsEmptyFrame (stream : Bytes) : Prop :=
  ∃ (payloads : List Bytes) (rest : Bytes),
    (∀ payload ∈ payloads, 1 ≤ payload.length ∧ payload.length ≤ maxFrameBytes) ∧
      stream = (payloads.map encodeFrame).flatten ++ ([0, 0, 0, 0] ++ rest)

theorem MeetsEmptyFrame.cons {payload rest : Bytes} (hmeets : MeetsEmptyFrame rest)
    (hpos : 1 ≤ payload.length) (hmax : payload.length ≤ maxFrameBytes) :
    MeetsEmptyFrame (encodeFrame payload ++ rest) := by
  obtain ⟨payloads, tail, hpayloads, rfl⟩ := hmeets
  refine ⟨payload :: payloads, tail, ?_, by simp⟩
  exact List.forall_mem_cons.mpr ⟨⟨hpos, hmax⟩, hpayloads⟩

namespace PayloadReader

theorem android_frames_eq (stream : Bytes) : android.frames stream = engine.frames stream :=
  frames_eq_of_shortest (show android.shortest = engine.shortest from rfl) stream

theorem engine_frames_emptyFrame (rest : Bytes) : engine.frames ([0, 0, 0, 0] ++ rest) = [] := by
  apply frames_stop
  intro payload after hread
  cases hread

theorem ios_frames_emptyFrame (rest : Bytes) :
    ios.frames ([0, 0, 0, 0] ++ rest) = [] :: ios.frames rest :=
  frames_cons ios (((ios.takes _ [] rest).mpr ⟨rfl, Nat.zero_le _, Nat.zero_le _⟩))

theorem ios_frames_ne_of_meetsEmptyFrame {stream : Bytes} (hmeets : MeetsEmptyFrame stream) :
    ios.frames stream ≠ engine.frames stream := by
  obtain ⟨payloads, rest, hpayloads, rfl⟩ := hmeets
  rw [frames_encodeFrames ios fun payload hmem => ⟨Nat.zero_le _, (hpayloads payload hmem).2⟩,
    frames_encodeFrames engine hpayloads, engine_frames_emptyFrame, ios_frames_emptyFrame]
  simp

theorem ios_frames_eq {stream : Bytes} (hmeets : ¬ MeetsEmptyFrame stream) :
    ios.frames stream = engine.frames stream := by
  induction stream using frames_induction ios with
  | taken stream payload rest hread ih =>
      obtain ⟨hstream, -, hmax⟩ := (ios.takes _ _ _).mp hread
      subst hstream
      by_cases hempty : payload.length = 0
      · rw [List.length_eq_zero_iff] at hempty
        subst hempty
        exact absurd ⟨[], rest, by simp, rfl⟩ hmeets
      · have hpos := Nat.pos_of_ne_zero hempty
        rw [frames_cons ios hread, frames_cons engine ((engine.takes _ _ _).mpr ⟨rfl, hpos, hmax⟩),
          ih fun hrest => hmeets (hrest.cons hpos hmax)]
  | stopped stream hstop =>
      rw [frames_stop _ hstop, frames_stop]
      intro payload rest hread
      obtain ⟨hstream, -, hmax⟩ := (engine.takes _ _ _).mp hread
      exact hstop payload rest ((ios.takes _ _ _).mpr ⟨hstream, Nat.zero_le _, hmax⟩)

/-- The three readers deliver the same frames unless the stream comes to a length of zero,
which the iOS client takes for an empty frame. -/
theorem frames_agree_iff (stream : Bytes) :
    (android.frames stream = engine.frames stream ∧ ios.frames stream = engine.frames stream) ↔
      ¬ MeetsEmptyFrame stream := by
  constructor
  · rintro ⟨-, hios⟩ hmeets
    exact ios_frames_ne_of_meetsEmptyFrame hmeets hios
  · intro hmeets
    exact ⟨android_frames_eq stream, ios_frames_eq hmeets⟩

theorem frames_emptyFrame :
    engine.frames [0, 0, 0, 0] = [] ∧ android.frames [0, 0, 0, 0] = [] ∧
      ios.frames [0, 0, 0, 0] = [[]] ∧
      ios.frames [0, 0, 0, 0] ≠ engine.frames [0, 0, 0, 0] := by
  have hengine := engine_frames_emptyFrame []
  have hios := ios_frames_emptyFrame []
  have hnil : ios.frames [] = [] := by
    apply frames_stop
    intro payload rest hread
    cases hread
  rw [hnil] at hios
  refine ⟨hengine, (android_frames_eq _).trans hengine, hios, ?_⟩
  exact ios_frames_ne_of_meetsEmptyFrame ⟨[], [], by simp, rfl⟩

end PayloadReader

end NativeInterop
