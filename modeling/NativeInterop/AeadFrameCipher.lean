import NativeInterop.LittleEndian
import Mathlib.Data.BitVec

/-!
# The per-frame cipher

`AeadFrameCipher` exists three times: in the engine, in the Android client and
in the iOS client.  All three keep one AES-256-GCM key and one frame counter
per direction, never transmit the nonce, and lay an encrypted payload out as
ciphertext followed by the 16-byte tag.  They differ in when a failing call
advances the counter and in what happens when the counter overflows, so each
keeps its own definitions.
-/

namespace NativeInterop

/-- AES-GCM as the three ciphers call it.  `encrypt key nonce plaintext`
returns the ciphertext and the tag; `decrypt key nonce ciphertext tag` returns
nothing when the tag does not verify. -/
structure AesGcm (Key : Type*) where
  encrypt : Key → Bytes → Bytes → Bytes × Bytes
  decrypt : Key → Bytes → Bytes → Bytes → Option Bytes
  ciphertext_length : ∀ key nonce plaintext,
    (encrypt key nonce plaintext).1.length = plaintext.length
  tag_length : ∀ key nonce plaintext,
    (encrypt key nonce plaintext).2.length = 16
  decrypt_encrypt : ∀ key nonce plaintext,
    decrypt key nonce (encrypt key nonce plaintext).1
      (encrypt key nonce plaintext).2 = some plaintext

/-- A cipher that hides nothing and accepts one tag, for concrete runs. -/
def AesGcm.clear {Key : Type*} : AesGcm Key where
  encrypt _ _ plaintext := (plaintext, List.replicate 16 0)
  decrypt _ _ ciphertext tag :=
    if tag = List.replicate 16 0 then some ciphertext else none
  ciphertext_length := by simp
  tag_length := by simp
  decrypt_encrypt := by simp

structure AeadFrameCipher (Key : Type*) where
  sendKey : Key
  recvKey : Key
  sendCounter : BitVec 64
  recvCounter : BitVec 64
  deriving DecidableEq, Repr

/-- Why a cipher call did not return: an authentication failure, the iOS
client's `closedEarly`, or the iOS client's trap on counter overflow. -/
inductive CipherError where
  | tagMismatch
  | closedEarly
  | counterOverflow
  deriving DecidableEq, Repr

namespace AeadFrameCipher

variable {Key : Type*}

def tagBytes : ℕ := 16

def create (sendKey recvKey : Key) : AeadFrameCipher Key where
  sendKey := sendKey
  recvKey := recvKey
  sendCounter := 0
  recvCounter := 0

/-- The little-endian frame counter in the low eight bytes of a 12-byte nonce,
the high four bytes zero. -/
def nonceFor (counter : BitVec 64) : Bytes :=
  littleEndian 8 counter.toNat ++ List.replicate 4 0

def sealFrame (gcm : AesGcm Key) (key : Key) (nonce plaintext : Bytes) : Bytes :=
  (gcm.encrypt key nonce plaintext).1 ++ (gcm.encrypt key nonce plaintext).2

def openFrame (gcm : AesGcm Key) (key : Key) (nonce frame : Bytes) :
    Option Bytes :=
  gcm.decrypt key nonce (frame.take (frame.length - tagBytes))
    (frame.drop (frame.length - tagBytes))

/-! ## The engine -/

def encryptOutbound (gcm : AesGcm Key) (cipher : AeadFrameCipher Key)
    (plaintext : Bytes) : Bytes × AeadFrameCipher Key :=
  (sealFrame gcm cipher.sendKey (nonceFor cipher.sendCounter) plaintext,
    { cipher with sendCounter := cipher.sendCounter + 1 })

/-- A frame shorter than the tag is refused before the receive counter moves;
every other frame advances it, whether or not the tag verifies. -/
def decryptInbound (gcm : AesGcm Key) (cipher : AeadFrameCipher Key)
    (frame : Bytes) : Except CipherError Bytes × AeadFrameCipher Key :=
  if frame.length < tagBytes then
    (.error .tagMismatch, cipher)
  else
    (match openFrame gcm cipher.recvKey (nonceFor cipher.recvCounter) frame with
      | some plaintext => .ok plaintext
      | none => .error .tagMismatch,
      { cipher with recvCounter := cipher.recvCounter + 1 })

/-! ## The Android client -/

def encryptOutboundKotlin (gcm : AesGcm Key) (cipher : AeadFrameCipher Key)
    (plaintext : Bytes) : Bytes × AeadFrameCipher Key :=
  cipher.encryptOutbound gcm plaintext

/-- `doFinal` throws `AEADBadTagException` on a frame shorter than the tag too,
but only after the counter has been advanced. -/
def decryptInboundKotlin (gcm : AesGcm Key) (cipher : AeadFrameCipher Key)
    (frame : Bytes) : Except CipherError Bytes × AeadFrameCipher Key :=
  let advanced := { cipher with recvCounter := cipher.recvCounter + 1 }
  if frame.length < tagBytes then
    (.error .tagMismatch, advanced)
  else
    match openFrame gcm cipher.recvKey (nonceFor cipher.recvCounter) frame with
    | some plaintext => (.ok plaintext, advanced)
    | none => (.error .tagMismatch, advanced)

/-! ## The iOS client -/

/-- Swift's `+=` on `UInt64` traps instead of wrapping. -/
def advanceSwift (counter : BitVec 64) : Except CipherError (BitVec 64) :=
  if counter.toNat + 1 < 2 ^ 64 then .ok (counter + 1)
  else .error .counterOverflow

def encryptOutboundSwift (gcm : AesGcm Key) (cipher : AeadFrameCipher Key)
    (plaintext : Bytes) : Except CipherError Bytes × AeadFrameCipher Key :=
  match advanceSwift cipher.sendCounter with
  | .error e => (.error e, cipher)
  | .ok next =>
      (.ok (sealFrame gcm cipher.sendKey (nonceFor cipher.sendCounter) plaintext),
        { cipher with sendCounter := next })

def decryptInboundSwift (gcm : AesGcm Key) (cipher : AeadFrameCipher Key)
    (frame : Bytes) : Except CipherError Bytes × AeadFrameCipher Key :=
  if frame.length < tagBytes then
    (.error .closedEarly, cipher)
  else
    match advanceSwift cipher.recvCounter with
    | .error e => (.error e, cipher)
    | .ok next =>
        (match openFrame gcm cipher.recvKey (nonceFor cipher.recvCounter) frame with
          | some plaintext => .ok plaintext
          | none => .error .tagMismatch,
          { cipher with recvCounter := next })

/-! ## Nonces and layout -/

@[simp] theorem nonceFor_length (counter : BitVec 64) :
    (nonceFor counter).length = 12 := by
  simp [nonceFor]

theorem nonceFor_injective : Function.Injective nonceFor := by
  intro a b heq
  have hlow : littleEndian 8 a.toNat = littleEndian 8 b.toNat :=
    List.append_cancel_right heq
  have hbound (c : BitVec 64) : c.toNat < 256 ^ 8 := by
    have hlt := c.isLt
    norm_num at hlt ⊢
    exact hlt
  exact BitVec.eq_of_toNat_eq
    (littleEndian_injective_of_lt (hbound a) (hbound b) hlow)

theorem nonceFor_ofNat_injective {a b : ℕ} (ha : a < 2 ^ 64) (hb : b < 2 ^ 64)
    (heq : nonceFor (BitVec.ofNat 64 a) = nonceFor (BitVec.ofNat 64 b)) :
    a = b := by
  have hcounter := congrArg BitVec.toNat (nonceFor_injective heq)
  rwa [BitVec.toNat_ofNat, BitVec.toNat_ofNat, Nat.mod_eq_of_lt ha,
    Nat.mod_eq_of_lt hb] at hcounter

theorem counter_succ (n : ℕ) :
    BitVec.ofNat 64 n + 1 = BitVec.ofNat 64 (n + 1) := by
  apply BitVec.eq_of_toNat_eq
  simp [BitVec.toNat_add]

@[simp] theorem sealFrame_length (gcm : AesGcm Key) (key : Key)
    (nonce plaintext : Bytes) :
    (sealFrame gcm key nonce plaintext).length = plaintext.length + tagBytes := by
  simp [sealFrame, gcm.ciphertext_length, gcm.tag_length, tagBytes]

theorem openFrame_sealFrame (gcm : AesGcm Key) (key : Key)
    (nonce plaintext : Bytes) :
    openFrame gcm key nonce (sealFrame gcm key nonce plaintext) =
      some plaintext := by
  have hsplit :
      (sealFrame gcm key nonce plaintext).length - tagBytes =
        (gcm.encrypt key nonce plaintext).1.length := by
    rw [sealFrame_length, gcm.ciphertext_length]
    omega
  unfold openFrame
  rw [hsplit]
  simp only [sealFrame, List.take_left, List.drop_left]
  exact gcm.decrypt_encrypt key nonce plaintext

theorem decryptInbound_sealFrame (gcm : AesGcm Key)
    (cipher : AeadFrameCipher Key) (plaintext : Bytes) :
    cipher.decryptInbound gcm
        (sealFrame gcm cipher.recvKey (nonceFor cipher.recvCounter) plaintext) =
      (.ok plaintext, { cipher with recvCounter := cipher.recvCounter + 1 }) := by
  simp [decryptInbound, openFrame_sealFrame]

theorem decryptInboundKotlin_sealFrame (gcm : AesGcm Key)
    (cipher : AeadFrameCipher Key) (plaintext : Bytes) :
    cipher.decryptInboundKotlin gcm
        (sealFrame gcm cipher.recvKey (nonceFor cipher.recvCounter) plaintext) =
      (.ok plaintext, { cipher with recvCounter := cipher.recvCounter + 1 }) := by
  simp [decryptInboundKotlin, openFrame_sealFrame]

theorem advanceSwift_of_lt {counter : BitVec 64}
    (hlt : counter.toNat + 1 < 2 ^ 64) :
    advanceSwift counter = .ok (counter + 1) := by
  rw [advanceSwift, if_pos hlt]

theorem encryptOutboundSwift_of_lt (gcm : AesGcm Key)
    (cipher : AeadFrameCipher Key) (plaintext : Bytes)
    (hlt : cipher.sendCounter.toNat + 1 < 2 ^ 64) :
    cipher.encryptOutboundSwift gcm plaintext =
      (.ok (sealFrame gcm cipher.sendKey (nonceFor cipher.sendCounter) plaintext),
        { cipher with sendCounter := cipher.sendCounter + 1 }) := by
  simp [encryptOutboundSwift, advanceSwift_of_lt hlt]

theorem decryptInboundSwift_sealFrame (gcm : AesGcm Key)
    (cipher : AeadFrameCipher Key) (plaintext : Bytes)
    (hlt : cipher.recvCounter.toNat + 1 < 2 ^ 64) :
    cipher.decryptInboundSwift gcm
        (sealFrame gcm cipher.recvKey (nonceFor cipher.recvCounter) plaintext) =
      (.ok plaintext, { cipher with recvCounter := cipher.recvCounter + 1 }) := by
  simp [decryptInboundSwift, advanceSwift_of_lt hlt, openFrame_sealFrame]

end AeadFrameCipher

end NativeInterop
