import NativeInterop.EnvelopeWire
import NativeInterop.Machine
import NativeInterop.PqSecureChannel
import Mathlib.Tactic

/-!
# No key and nonce is used twice

The machine below is every honest party at once: server boots, the handshakes
of all their connections, honest clients answering arbitrary offers, and the
frames of all connections, in any interleaving.  A server connection is given
arbitrary reply bytes, so a replayed ciphertext is one of the cases.

Two connections of one role are kept apart by the part of the salt they drew
themselves, which has a fixed length: the session id ends a server's salt and
the ciphertext begins a client's.  The direction label keeps the roles apart.
-/

namespace NativeInterop

namespace Nonces

open AeadFrameCipher PqSecureChannel

variable {Key : Type*}

structure Derivation where
  sharedSecret : Bytes
  salt : Bytes
  info : Bytes
  deriving DecidableEq, Repr

def Derivation.key (hkdf : Bytes → Bytes → Bytes → Key) (d : Derivation) : Key :=
  hkdf d.sharedSecret d.salt d.info

def derivations (sharedSecret ciphertext sessionId : Bytes) : List Derivation :=
  [⟨sharedSecret, ciphertext ++ sessionId, infoClientToServer⟩,
    ⟨sharedSecret, ciphertext ++ sessionId, infoServerToClient⟩]

inductive Role where
  | server (identity : PqcServerIdentity) (sessionId : Bytes)
  | client (ciphertext : Bytes)

/-- A connection of an honest party.  A server's connection has no cipher
before its handshake completes, and gets none once it has failed. -/
structure Connection (Key : Type*) where
  role : Role
  failed : Bool
  cipher : Option (AeadFrameCipher Key)
  sent : ℕ

def Connection.sessionId? (c : Connection Key) : Option Bytes :=
  match c.role with
  | .server _ sessionId => some sessionId
  | .client _ => none

def Connection.ciphertext? (c : Connection Key) : Option Bytes :=
  match c.role with
  | .server _ _ => none
  | .client ciphertext => some ciphertext

/-- One call of `EncryptOutbound`: on which connection, as its how-manieth
frame, and with which key and nonce. -/
structure Call (Key : Type*) where
  connection : ℕ
  frame : ℕ
  key : Key
  nonce : Bytes
  deriving DecidableEq, Repr

structure State (Key : Type*) where
  identities : List PqcServerIdentity
  connections : List (Connection Key)
  derived : List Derivation
  calls : List (Call Key)

def State.initial : State Key where
  identities := []
  connections := []
  derived := []
  calls := []

inductive Action where
  | boot (identity : PqcServerIdentity)
  | serverOffer (boot : ℕ) (sessionId : Bytes)
  | serverReply (connection : ℕ) (replyBytes : Bytes)
  | clientHandshake (provider : PqcClient) (offerBytes : Bytes)
  | encrypt (connection : ℕ) (plaintext : Bytes)
  | decrypt (connection : ℕ) (frame : Bytes)

def State.setConnection (s : State Key) (i : ℕ) (c : Connection Key) : State Key :=
  { s with connections := s.connections.set i c }

def State.addConnection (s : State Key) (c : Connection Key) : State Key :=
  { s with connections := s.connections ++ [c] }

def State.derive (s : State Key) (more : List Derivation) : State Key :=
  { s with derived := s.derived ++ more }

variable (codec : Pb.EnvelopeCodec) (gcm : AesGcm Key)
  (hkdf : Bytes → Bytes → Bytes → Key)

/-- The server draws 32 bytes and waits for the reply. -/
def serverOffer (s : State Key) (boot : ℕ) (sessionId : Bytes) :
    Option (State Key) :=
  match s.identities[boot]? with
  | none => none
  | some identity =>
      if sessionId.length = 32 then
        some (s.addConnection ⟨.server identity sessionId, false, none, 0⟩)
      else none

def serverReply (s : State Key) (i : ℕ) (replyBytes : Bytes) :
    Option (State Key) :=
  match s.connections[i]? with
  | none => none
  | some c =>
      match c.role, c.failed, c.cipher with
      | .server identity sessionId, false, none =>
          match decapsulateReply codec identity replyBytes,
              acceptReply codec hkdf identity sessionId replyBytes with
          | .ok (ciphertext, sharedSecret), .ok result =>
              some ((s.derive
                (derivations sharedSecret ciphertext sessionId)).setConnection i
                  { c with cipher := some result.cipher })
          | _, _ => some (s.setConnection i { c with failed := true })
      | _, _, _ => none

/-- A client that refuses the offer encrypts nothing. -/
def clientHandshake (s : State Key) (provider : PqcClient) (offerBytes : Bytes) :
    Option (State Key) :=
  match acceptOffer codec provider offerBytes with
  | .error _ => some s
  | .ok (sessionId, ciphertext, sharedSecret) =>
      let keys := deriveKeys hkdf sharedSecret ciphertext sessionId
      some ((s.derive (derivations sharedSecret ciphertext sessionId)).addConnection
        ⟨.client ciphertext, false, some (.create keys.1 keys.2), 0⟩)

def encrypt (s : State Key) (i : ℕ) (plaintext : Bytes) : Option (State Key) :=
  match s.connections[i]? with
  | none => none
  | some c =>
      match c.cipher with
      | none => none
      | some cipher =>
          let s' := s.setConnection i { c with
            cipher := some (cipher.encryptOutbound gcm plaintext).2
            sent := c.sent + 1 }
          some { s' with calls := s'.calls ++
            [⟨i, c.sent, cipher.sendKey, nonceFor cipher.sendCounter⟩] }

def decrypt (s : State Key) (i : ℕ) (frame : Bytes) : Option (State Key) :=
  match s.connections[i]? with
  | none => none
  | some c =>
      match c.cipher with
      | none => none
      | some cipher =>
          some (s.setConnection i
            { c with cipher := some (cipher.decryptInbound gcm frame).2 })

def step (s : State Key) : Action → Option (State Key)
  | .boot identity => some { s with identities := s.identities ++ [identity] }
  | .serverOffer boot sessionId => serverOffer s boot sessionId
  | .serverReply i replyBytes => serverReply codec hkdf s i replyBytes
  | .clientHandshake provider offerBytes =>
      clientHandshake codec hkdf s provider offerBytes
  | .encrypt i plaintext => encrypt gcm s i plaintext
  | .decrypt i frame => decrypt gcm s i frame

def machine : Machine (State Key) Action where
  step := step codec gcm hkdf

/-! ## The invariant -/

def Connection.SendsUnder (c : Connection Key) (d : Derivation) : Prop :=
  match c.role with
  | .server _ sessionId =>
      ∃ ciphertext, d.salt = ciphertext ++ sessionId ∧ d.info = infoServerToClient
  | .client ciphertext =>
      ∃ sessionId, d.salt = ciphertext ++ sessionId ∧ d.info = infoClientToServer

structure Connection.Invariant (derived : List Derivation)
    (c : Connection Key) : Prop where
  sessionIdLength : ∀ sessionId, c.sessionId? = some sessionId →
    sessionId.length = 32
  keyed : ∀ cipher, c.cipher = some cipher →
    ∃ d ∈ derived, cipher.sendKey = d.key hkdf ∧ c.SendsUnder d
  counted : ∀ cipher, c.cipher = some cipher →
    cipher.sendCounter = BitVec.ofNat 64 c.sent
  unsent : c.cipher = none → c.sent = 0

/-- Every recorded call is an earlier frame of the connection it names, sealed
under that connection's key, and no frame is recorded twice. -/
structure Invariant (s : State Key) : Prop where
  connections : ∀ c ∈ s.connections, c.Invariant hkdf s.derived
  recorded : ∀ call ∈ s.calls, ∃ c cipher,
    s.connections[call.connection]? = some c ∧ c.cipher = some cipher ∧
      call.key = cipher.sendKey ∧
      call.nonce = nonceFor (BitVec.ofNat 64 call.frame) ∧ call.frame < c.sent
  numbered : s.calls.Pairwise fun a b =>
    a.connection = b.connection → a.frame ≠ b.frame

variable {codec gcm hkdf}

theorem Connection.Invariant.derive {derived : List Derivation}
    {c : Connection Key} (hc : c.Invariant hkdf derived) (more : List Derivation) :
    c.Invariant hkdf (derived ++ more) := by
  constructor
  · exact hc.sessionIdLength
  · intro cipher hcipher
    obtain ⟨d, hd, hkey, hsends⟩ := hc.keyed cipher hcipher
    exact ⟨d, List.mem_append_left more hd, hkey, hsends⟩
  · exact hc.counted
  · exact hc.unsent

theorem Invariant.derive {s : State Key} (hinv : Invariant hkdf s)
    (more : List Derivation) : Invariant hkdf (s.derive more) := by
  constructor
  · intro c hc
    exact (hinv.connections c hc).derive more
  · exact hinv.recorded
  · exact hinv.numbered

theorem Invariant.addConnection {s : State Key} (hinv : Invariant hkdf s)
    {c : Connection Key} (hc : c.Invariant hkdf s.derived) :
    Invariant hkdf (s.addConnection c) := by
  constructor
  · intro c' hmem
    rcases List.mem_append.mp hmem with hold | hnew
    · exact hinv.connections c' hold
    · have heq := List.mem_singleton.mp hnew
      subst c'
      exact hc
  · intro call hcall
    obtain ⟨c', cipher, hget, hrest⟩ := hinv.recorded call hcall
    refine ⟨c', cipher, ?_, hrest⟩
    have hlt : call.connection < s.connections.length :=
      (List.getElem?_eq_some_iff.mp hget).1
    rw [State.addConnection, List.getElem?_append_left hlt]
    exact hget
  · exact hinv.numbered

/-- Replacing a connection by one that still sends under the same key and has
sent at least as much keeps the invariant. -/
theorem Invariant.setConnection {s : State Key} (hinv : Invariant hkdf s)
    {i : ℕ} {c c' : Connection Key} (hget : s.connections[i]? = some c)
    (hc' : c'.Invariant hkdf s.derived)
    (hkey : ∀ cipher, c.cipher = some cipher →
      ∃ cipher', c'.cipher = some cipher' ∧ cipher'.sendKey = cipher.sendKey)
    (hsent : c.sent ≤ c'.sent) : Invariant hkdf (s.setConnection i c') := by
  constructor
  · intro other hother
    rcases List.mem_or_eq_of_mem_set hother with hold | hnew
    · exact hinv.connections other hold
    · subst other
      exact hc'
  · intro call hcall
    obtain ⟨found, cipher, hfound, hcipher, hrest⟩ := hinv.recorded call hcall
    by_cases heq : call.connection = i
    · have hsame : found = c := by
        rw [heq] at hfound
        exact Option.some.inj (hfound.symm.trans hget)
      subst found
      obtain ⟨cipher', hcipher', hsendKey⟩ := hkey cipher hcipher
      refine ⟨c', cipher', ?_, hcipher', ?_⟩
      · have hlt := (List.getElem?_eq_some_iff.mp hget).1
        rw [State.setConnection, heq, List.getElem?_set_self hlt]
      · rw [hsendKey]
        exact ⟨hrest.1, hrest.2.1, hrest.2.2.trans_le hsent⟩
    · refine ⟨found, cipher, ?_, hcipher, hrest⟩
      rw [State.setConnection, List.getElem?_set_ne (Ne.symm heq)]
      exact hfound
  · exact hinv.numbered

theorem initial_invariant : Invariant hkdf (State.initial : State Key) := by
  constructor
  · simp [State.initial]
  · simp [State.initial]
  · simp [State.initial]

/-! ## Every step keeps the invariant -/

theorem decapsulateReply_of_acceptReply {identity : PqcServerIdentity}
    {sessionId replyBytes ciphertext sharedSecret : Bytes}
    {result : ServerHandshakeResult Key}
    (hsecret : decapsulateReply codec identity replyBytes =
      .ok (ciphertext, sharedSecret))
    (haccept : acceptReply codec hkdf identity sessionId replyBytes = .ok result) :
    result.cipher = .create (deriveKeys hkdf sharedSecret ciphertext sessionId).2
      (deriveKeys hkdf sharedSecret ciphertext sessionId).1 := by
  simp only [acceptReply, hsecret, Except.ok.injEq] at haccept
  rw [← haccept]

theorem Invariant.serverOffer {s next : State Key} (hinv : Invariant hkdf s)
    {boot : ℕ} {sessionId : Bytes}
    (hstep : serverOffer s boot sessionId = some next) : Invariant hkdf next := by
  unfold Nonces.serverOffer at hstep
  cases hidentity : s.identities[boot]? with
  | none => simp [hidentity] at hstep
  | some identity =>
      simp only [hidentity] at hstep
      by_cases hlength : sessionId.length = 32
      · rw [if_pos hlength, Option.some.injEq] at hstep
        subst next
        apply hinv.addConnection
        constructor
        · intro found hfound
          have heq : sessionId = found := Option.some.inj hfound
          subst found
          exact hlength
        · intro cipher hcipher
          cases hcipher
        · intro cipher hcipher
          cases hcipher
        · intro _
          rfl
      · simp [hlength] at hstep

theorem Invariant.serverReply {s next : State Key} (hinv : Invariant hkdf s)
    {i : ℕ} {replyBytes : Bytes}
    (hstep : serverReply codec hkdf s i replyBytes = some next) :
    Invariant hkdf next := by
  unfold Nonces.serverReply at hstep
  cases hget : s.connections[i]? with
  | none => simp [hget] at hstep
  | some c =>
      have hmem : c ∈ s.connections := List.mem_of_getElem? hget
      have hc := hinv.connections c hmem
      simp only [hget] at hstep
      split at hstep
      next identity sessionId hrole hfailed hcipher =>
        have hunsent := hc.unsent hcipher
        split at hstep
        next ciphertext sharedSecret result hsecret haccept =>
          have hresult := decapsulateReply_of_acceptReply hsecret haccept
          rw [Option.some.injEq] at hstep
          subst next
          refine (hinv.derive _).setConnection hget ?_ (by simp [hcipher]) ?_
          swap
          · exact Nat.le_refl c.sent
          constructor
          · exact hc.sessionIdLength
          · intro cipher hnew
            have heq : result.cipher = cipher := Option.some.inj hnew
            subst cipher
            refine ⟨⟨sharedSecret, ciphertext ++ sessionId, infoServerToClient⟩,
              ?_, ?_, ?_⟩
            · simp [State.derive, derivations]
            · rw [hresult]
              rfl
            · simp [Connection.SendsUnder, hrole]
          · intro cipher hnew
            have heq : result.cipher = cipher := Option.some.inj hnew
            subst cipher
            rw [hresult, hunsent]
            rfl
          · intro hnone
            cases hnone
        next =>
          rw [Option.some.injEq] at hstep
          subst next
          refine hinv.setConnection hget ?_ (by simp [hcipher]) ?_
          · exact ⟨hc.sessionIdLength, hc.keyed, hc.counted, hc.unsent⟩
          · exact Nat.le_refl c.sent
      next => cases hstep

theorem Invariant.clientHandshake {s next : State Key} (hinv : Invariant hkdf s)
    {provider : PqcClient} {offerBytes : Bytes}
    (hstep : clientHandshake codec hkdf s provider offerBytes = some next) :
    Invariant hkdf next := by
  unfold Nonces.clientHandshake at hstep
  cases haccept : acceptOffer codec provider offerBytes with
  | error e =>
      simp only [haccept, Option.some.injEq] at hstep
      subst next
      exact hinv
  | ok accepted =>
      obtain ⟨sessionId, ciphertext, sharedSecret⟩ := accepted
      simp only [haccept, Option.some.injEq] at hstep
      subst next
      apply (hinv.derive _).addConnection
      constructor
      · intro found hfound
        cases hfound
      · intro cipher hcipher
        cases hcipher
        refine ⟨⟨sharedSecret, ciphertext ++ sessionId, infoClientToServer⟩,
          ?_, rfl, sessionId, rfl, rfl⟩
        simp [State.derive, derivations]
      · intro cipher hcipher
        cases hcipher
        rfl
      · intro hnone
        cases hnone

/-- A cipher may move on under its key, with the counter at what has been sent. -/
theorem Invariant.setCipher {s : State Key} (hinv : Invariant hkdf s) {i : ℕ}
    {c : Connection Key} (hget : s.connections[i]? = some c) {cipher after : AeadFrameCipher Key}
    (hcipher : c.cipher = some cipher) (hkey : after.sendKey = cipher.sendKey) {sent : ℕ}
    (hcounter : after.sendCounter = BitVec.ofNat 64 sent) (hsent : c.sent ≤ sent) :
    Invariant hkdf (s.setConnection i { c with cipher := some after, sent := sent }) := by
  have hc := hinv.connections c (List.mem_of_getElem? hget)
  apply hinv.setConnection hget _ _ hsent
  · constructor
    · exact hc.sessionIdLength
    · intro found hfound
      cases hfound
      rw [hkey]
      exact hc.keyed cipher hcipher
    · intro found hfound
      cases hfound
      exact hcounter
    · intro hnone
      cases hnone
  · intro found hfound
    have heq : cipher = found := Option.some.inj (hcipher.symm.trans hfound)
    subst found
    exact ⟨after, rfl, hkey⟩

theorem Invariant.encrypt {s next : State Key} (hinv : Invariant hkdf s)
    {i : ℕ} {plaintext : Bytes}
    (hstep : encrypt gcm s i plaintext = some next) : Invariant hkdf next := by
  unfold Nonces.encrypt at hstep
  cases hget : s.connections[i]? with
  | none => simp [hget] at hstep
  | some c =>
      have hmem : c ∈ s.connections := List.mem_of_getElem? hget
      have hc := hinv.connections c hmem
      cases hcipher : c.cipher with
      | none => simp [hget, hcipher] at hstep
      | some cipher =>
          simp only [hget, hcipher, Option.some.injEq] at hstep
          subst next
          have hcounter := hc.counted cipher hcipher
          have hkey : (cipher.encryptOutbound gcm plaintext).2.sendKey = cipher.sendKey := rfl
          have hafter : (cipher.encryptOutbound gcm plaintext).2.sendCounter =
              BitVec.ofNat 64 (c.sent + 1) := by
            simp only [encryptOutbound, hcounter, counter_succ]
          have hset := hinv.setCipher hget hcipher hkey hafter (Nat.le_succ c.sent)
          constructor
          · exact hset.connections
          · intro call hcall
            rcases List.mem_append.mp hcall with hold | hnew
            · exact hset.recorded call hold
            · have heq := List.mem_singleton.mp hnew
              subst call
              have hlt := (List.getElem?_eq_some_iff.mp hget).1
              refine ⟨_, _, List.getElem?_set_self hlt, rfl, rfl, ?_,
                Nat.lt_succ_self _⟩
              rw [hcounter]
          · rw [List.pairwise_append]
            refine ⟨hset.numbered, List.pairwise_singleton _ _, ?_⟩
            intro call hcall new hnew hconnection
            have heq := List.mem_singleton.mp hnew
            subst new
            obtain ⟨found, _, hfound, _, _, _, hframe⟩ := hinv.recorded call hcall
            rw [hconnection] at hfound
            have hsame : found = c := Option.some.inj (hfound.symm.trans hget)
            subst found
            exact Nat.ne_of_lt hframe

theorem decryptInbound_send (gcm : AesGcm Key) (cipher : AeadFrameCipher Key)
    (frame : Bytes) :
    (cipher.decryptInbound gcm frame).2.sendKey = cipher.sendKey ∧
      (cipher.decryptInbound gcm frame).2.sendCounter = cipher.sendCounter := by
  unfold decryptInbound
  split_ifs <;> exact ⟨rfl, rfl⟩

theorem Invariant.decrypt {s next : State Key} (hinv : Invariant hkdf s)
    {i : ℕ} {frame : Bytes} (hstep : decrypt gcm s i frame = some next) :
    Invariant hkdf next := by
  unfold Nonces.decrypt at hstep
  cases hget : s.connections[i]? with
  | none => simp [hget] at hstep
  | some c =>
      have hmem : c ∈ s.connections := List.mem_of_getElem? hget
      have hc := hinv.connections c hmem
      cases hcipher : c.cipher with
      | none => simp [hget, hcipher] at hstep
      | some cipher =>
          obtain ⟨hkey, hcounter⟩ := decryptInbound_send gcm cipher frame
          simp only [hget, hcipher, Option.some.injEq] at hstep
          subst next
          exact hinv.setCipher hget hcipher hkey (hcounter.trans (hc.counted cipher hcipher)) le_rfl

theorem Invariant.step {s next : State Key} {action : Action}
    (hinv : Invariant hkdf s)
    (hstep : (machine codec gcm hkdf).step s action = some next) :
    Invariant hkdf next := by
  cases action with
  | boot identity =>
      have heq := Option.some.inj hstep
      subst next
      exact ⟨hinv.connections, hinv.recorded, hinv.numbered⟩
  | serverOffer boot sessionId => exact hinv.serverOffer hstep
  | serverReply i replyBytes => exact hinv.serverReply hstep
  | clientHandshake provider offerBytes => exact hinv.clientHandshake hstep
  | encrypt i plaintext => exact hinv.encrypt hstep
  | decrypt i frame => exact hinv.decrypt hstep

theorem invariant_of_run {s : State Key} {acts : List Action}
    (hrun : (machine codec gcm hkdf).run State.initial acts = some s) :
    Invariant hkdf s :=
  (machine codec gcm hkdf).run_invariant_of_step
    (fun _ _ _ hinv hstep => Invariant.step hinv hstep) initial_invariant hrun

/-! ## Different connections send under different keys -/

/-- A list whose drawn values are pairwise distinct has each of them at one
position only. -/
theorem eq_of_drawn_nodup {α β : Type*} {draw : α → Option β} {items : List α}
    (hnodup : (items.filterMap draw).Nodup) {i j : ℕ} {a b : α} {value : β}
    (ha : items[i]? = some a) (hb : items[j]? = some b)
    (hdrawa : draw a = some value) (hdrawb : draw b = some value) : i = j := by
  have hpairwise := List.pairwise_filterMap.mp hnodup
  obtain ⟨hi, hia⟩ := List.getElem?_eq_some_iff.mp ha
  obtain ⟨hj, hjb⟩ := List.getElem?_eq_some_iff.mp hb
  rw [List.pairwise_iff_getElem] at hpairwise
  rcases Nat.lt_trichotomy i j with hlt | heq | hgt
  · have hne := hpairwise i j hi hj hlt value (by rw [hia]; exact hdrawa) value
      (by rw [hjb]; exact hdrawb)
    exact absurd rfl hne
  · exact heq
  · have hne := hpairwise j i hj hi hgt value (by rw [hjb]; exact hdrawb) value
      (by rw [hia]; exact hdrawa)
    exact absurd rfl hne

/-- What the parties draw: session ids and ciphertexts never repeat, and all
ciphertexts have one length. -/
structure State.Fresh (ciphertextBytes : ℕ) (s : State Key) : Prop where
  sessionIds : (s.connections.filterMap Connection.sessionId?).Nodup
  ciphertexts : (s.connections.filterMap Connection.ciphertext?).Nodup
  ciphertextLength : ∀ c ∈ s.connections, ∀ ciphertext,
    c.ciphertext? = some ciphertext → ciphertext.length = ciphertextBytes

theorem connection_eq_of_derivation_eq {ciphertextBytes : ℕ} {s : State Key}
    (hinv : Invariant hkdf s) (hfresh : s.Fresh ciphertextBytes) {i j : ℕ}
    {a b : Connection Key} (ha : s.connections[i]? = some a)
    (hb : s.connections[j]? = some b) {d : Derivation}
    (hsendsa : a.SendsUnder d) (hsendsb : b.SendsUnder d) : i = j := by
  have hmema : a ∈ s.connections := List.mem_of_getElem? ha
  have hmemb : b ∈ s.connections := List.mem_of_getElem? hb
  unfold Connection.SendsUnder at hsendsa hsendsb
  cases hrolea : a.role with
  | server identitya sessionIda =>
      have hida : a.sessionId? = some sessionIda := by
        simp [Connection.sessionId?, hrolea]
      simp only [hrolea] at hsendsa
      obtain ⟨ciphertexta, hsalta, hinfoa⟩ := hsendsa
      cases hroleb : b.role with
      | server identityb sessionIdb =>
          have hidb : b.sessionId? = some sessionIdb := by
            simp [Connection.sessionId?, hroleb]
          simp only [hroleb] at hsendsb
          obtain ⟨ciphertextb, hsaltb, _⟩ := hsendsb
          have hlengtha := (hinv.connections a hmema).sessionIdLength _ hida
          have hlengthb := (hinv.connections b hmemb).sessionIdLength _ hidb
          have hsession : sessionIda = sessionIdb :=
            (List.append_inj' (hsalta.symm.trans hsaltb)
              (hlengtha.trans hlengthb.symm)).2
          subst sessionIdb
          exact eq_of_drawn_nodup hfresh.sessionIds ha hb hida hidb
      | client ciphertextb =>
          simp only [hroleb] at hsendsb
          obtain ⟨_, _, hinfob⟩ := hsendsb
          exact absurd (hinfob.symm.trans hinfoa) infoClientToServer_ne
  | client ciphertexta =>
      have hida : a.ciphertext? = some ciphertexta := by
        simp [Connection.ciphertext?, hrolea]
      simp only [hrolea] at hsendsa
      obtain ⟨sessionIda, hsalta, hinfoa⟩ := hsendsa
      cases hroleb : b.role with
      | server identityb sessionIdb =>
          simp only [hroleb] at hsendsb
          obtain ⟨_, _, hinfob⟩ := hsendsb
          exact absurd (hinfoa.symm.trans hinfob) infoClientToServer_ne
      | client ciphertextb =>
          have hidb : b.ciphertext? = some ciphertextb := by
            simp [Connection.ciphertext?, hroleb]
          simp only [hroleb] at hsendsb
          obtain ⟨sessionIdb, hsaltb, _⟩ := hsendsb
          have hlengtha := hfresh.ciphertextLength a hmema _ hida
          have hlengthb := hfresh.ciphertextLength b hmemb _ hidb
          have hciphertext : ciphertexta = ciphertextb :=
            (List.append_inj (hsalta.symm.trans hsaltb)
              (hlengtha.trans hlengthb.symm)).1
          subst ciphertextb
          exact eq_of_drawn_nodup hfresh.ciphertexts ha hb hida hidb

/-- No two calls of `EncryptOutbound` in the whole run use the same key and
nonce, as long as the derivation is injective on what the run derives, the
parties draw fresh values, and no connection sends `2 ^ 64` frames. -/
theorem key_nonce_nodup (codec : Pb.EnvelopeCodec) (gcm : AesGcm Key)
    (hkdf : Bytes → Bytes → Bytes → Key) (ciphertextBytes : ℕ)
    (acts : List Action) (s : State Key)
    (hrun : (machine codec gcm hkdf).run State.initial acts = some s)
    (hhkdf : ∀ d ∈ s.derived, ∀ d' ∈ s.derived, d.key hkdf = d'.key hkdf → d = d')
    (hfresh : s.Fresh ciphertextBytes)
    (hframes : ∀ c ∈ s.connections, c.sent < 2 ^ 64) :
    (s.calls.map fun call => (call.key, call.nonce)).Nodup := by
  have hinv := invariant_of_run hrun
  unfold List.Nodup
  rw [List.pairwise_map]
  apply hinv.numbered.imp_of_mem
  intro first second hfirst hsecond hframe heq
  rw [Prod.mk.injEq] at heq
  obtain ⟨a, ciphera, hgeta, hciphera, hkeya, hnoncea, hlta⟩ :=
    hinv.recorded first hfirst
  obtain ⟨b, cipherb, hgetb, hcipherb, hkeyb, hnonceb, hltb⟩ :=
    hinv.recorded second hsecond
  have hmema : a ∈ s.connections := List.mem_of_getElem? hgeta
  have hmemb : b ∈ s.connections := List.mem_of_getElem? hgetb
  obtain ⟨da, hda, hsendKeya, hsendsa⟩ :=
    (hinv.connections a hmema).keyed ciphera hciphera
  obtain ⟨db, hdb, hsendKeyb, hsendsb⟩ :=
    (hinv.connections b hmemb).keyed cipherb hcipherb
  have hderivation : da = db := by
    apply hhkdf da hda db hdb
    rw [← hsendKeya, ← hsendKeyb, ← hkeya, ← hkeyb]
    exact heq.1
  subst db
  have hconnection : first.connection = second.connection :=
    connection_eq_of_derivation_eq hinv hfresh hgeta hgetb hsendsa hsendsb
  have hframea := hlta.trans (hframes a hmema)
  have hframeb := hltb.trans (hframes b hmemb)
  have hsame : first.frame = second.frame := by
    apply nonceFor_ofNat_injective hframea hframeb
    rw [← hnoncea, ← hnonceb]
    exact heq.2
  exact hframe hconnection hsame

/-- One boot, a client, and a second handshake in which the client's reply is
replayed byte for byte. -/
def replayIdentity : PqcServerIdentity where
  kemPublicKey := [1]
  sigPublicKey := [2]
  sign message := message
  decapsulate ciphertext := some ciphertext

def replayProvider : PqcClient where
  verify _ message signature := .ok (message = signature)
  importKemPublicKey _ := .ok ()
  encapsulate _ := .ok ([7, 8], [7, 8])

def replaySessionId (boot : UInt8) : Bytes :=
  List.replicate 32 boot

def replayHkdf (ikm salt info : Bytes) : Bytes :=
  ikm ++ salt ++ info

def replayActions : List Action :=
  let reply := Pb.proto3.serialize (replyEnvelope [7, 8])
  [.boot replayIdentity, .serverOffer 0 (replaySessionId 1),
    .clientHandshake replayProvider
      (Pb.proto3.serialize (offerEnvelope replayIdentity (replaySessionId 1))),
    .serverReply 0 reply, .serverOffer 0 (replaySessionId 2), .serverReply 2 reply,
    .encrypt 0 [5], .encrypt 1 [5], .encrypt 2 [5], .encrypt 2 [6]]

theorem key_nonce_nodup_replay :
    ∃ s, (machine Pb.proto3 AesGcm.clear replayHkdf).run State.initial replayActions =
        some s ∧ s.calls.length = 4 ∧
      (s.calls.map fun call => (call.key, call.nonce)).Nodup := by
  refine ⟨_, rfl, rfl, ?_⟩
  apply key_nonce_nodup Pb.proto3 AesGcm.clear replayHkdf 2 replayActions _ rfl
  · decide
  · constructor
    · decide
    · decide
    · decide
  · decide

end Nonces

end NativeInterop
