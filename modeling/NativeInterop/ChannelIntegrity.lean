import NativeInterop.Machine
import NativeInterop.PqSecureChannel
import Mathlib.Tactic

/-!
# Integrity of the encrypted channel

The machine below is one encrypted connection after its handshake: the client
writes frames, the server reads them, and every byte the server's socket
returns is chosen by an adversary.  Nothing the server receives is related to
`wire` except through the cipher.

Decryption is ideal along a run when it only ever succeeds on a frame that an
earlier encryption under the same key and nonce produced.  The proof relates
the two implicit counters: while the server is still reading, its receive
counter counts the plaintexts it has handed on, the client's send counter
counts the plaintexts it has written, and an entry of the encryption log under
the client's key is identified by its nonce.
-/

namespace NativeInterop

open AeadFrameCipher
open PqSecureChannel

structure SealedFrame (Key : Type*) where
  key : Key
  nonce : Bytes
  plaintext : Bytes
  frame : Bytes

namespace Channel

/-- Where `HandleClientAsync` stands: inside `ReadFrameAsync`, between a
delivered frame and the next read, or past its loop. -/
inductive Phase where
  | reading (reader : FrameReader)
  | handling
  | closed

inductive Event where
  | delivered (plaintext : Bytes)
  | authenticationFailed
  | lengthOutOfRange (length : ℕ)
  | endOfStream

def Event.isFailure : Event → Bool
  | .delivered _ => false
  | _ => true

def Event.plaintext? : Event → Option Bytes
  | .delivered plaintext => some plaintext
  | _ => none

structure State (Key : Type*) where
  client : AeadFrameCipher Key
  server : AeadFrameCipher Key
  written : List Bytes
  wire : Bytes
  sealedFrames : List (SealedFrame Key)
  phase : Phase
  events : List Event

variable {Key : Type*}

def State.delivered (s : State Key) : List Bytes :=
  s.events.filterMap Event.plaintext?

def State.initial (keys : DirectionalKeys Key) : State Key where
  client := create keys.clientToServer keys.serverToClient
  server := create keys.serverToClient keys.clientToServer
  written := []
  wire := []
  sealedFrames := []
  phase := .reading .start
  events := []

/-- `serverRead` is one completed `ReadAsync` with the bytes the adversary
chose.  `handled` ends the processing of a delivered frame: the loop continues,
or it is left because the frame did not parse or its dispatch threw.  `stop`
leaves the loop at any point. -/
inductive Action where
  | clientWrite (plaintext : Bytes)
  | serverWrite (plaintext : Bytes)
  | serverRead (chunk : Bytes)
  | handled (continues : Bool)
  | stop

def sealedBy (gcm : AesGcm Key) (cipher : AeadFrameCipher Key)
    (plaintext : Bytes) : SealedFrame Key where
  key := cipher.sendKey
  nonce := nonceFor cipher.sendCounter
  plaintext := plaintext
  frame := (cipher.encryptOutbound gcm plaintext).1

/-- `DecryptInbound` on a complete payload, with the `catch` that ends the
loop on an authentication failure. -/
def State.onPayload (gcm : AesGcm Key) (s : State Key) (payload : Bytes) :
    State Key :=
  match s.server.decryptInbound gcm payload with
  | (.ok plaintext, next) =>
      { s with
        server := next
        phase := .handling
        events := s.events ++ [.delivered plaintext] }
  | (.error _, next) =>
      { s with
        server := next
        phase := .closed
        events := s.events ++ [.authenticationFailed] }

def State.onProgress (gcm : AesGcm Key) (s : State Key) :
    FrameReader.Progress → State Key
  | .reading reader => { s with phase := .reading reader }
  | .payload payload => s.onPayload gcm payload
  | .outOfRange length =>
      { s with
        phase := .closed
        events := s.events ++ [.lengthOutOfRange length] }
  | .endOfStream =>
      { s with phase := .closed, events := s.events ++ [.endOfStream] }

def step (gcm : AesGcm Key) (s : State Key) : Action → Option (State Key)
  | .clientWrite plaintext =>
      let (payload, next) := s.client.encryptOutbound gcm plaintext
      some { s with
        client := next
        written := s.written ++ [plaintext]
        wire := s.wire ++ encodeFrame payload
        sealedFrames := s.sealedFrames ++ [sealedBy gcm s.client plaintext] }
  | .serverWrite plaintext =>
      some { s with
        server := (s.server.encryptOutbound gcm plaintext).2
        sealedFrames := s.sealedFrames ++ [sealedBy gcm s.server plaintext] }
  | .serverRead chunk =>
      match s.phase with
      | .reading reader =>
          if chunk.length ≤ reader.wanted then
            some (s.onProgress gcm (reader.onRead chunk))
          else none
      | _ => none
  | .handled continues =>
      match s.phase with
      | .handling =>
          some { s with phase := if continues then .reading .start else .closed }
      | _ => none
  | .stop => some { s with phase := .closed }

def machine (gcm : AesGcm Key) : Machine (State Key) Action where
  step := step gcm

/-- No forgery in this step: if the read completes a frame that decrypts, then
that frame was produced by an encryption of the same plaintext under the same
key and nonce. -/
def IdealStep (gcm : AesGcm Key) (s : State Key) (action : Action) : Prop :=
  ∀ chunk reader payload plaintext,
    action = .serverRead chunk → s.phase = .reading reader →
    reader.onRead chunk = .payload payload →
    openFrame gcm s.server.recvKey (nonceFor s.server.recvCounter) payload =
      some plaintext →
    ⟨s.server.recvKey, nonceFor s.server.recvCounter, plaintext, payload⟩ ∈
      s.sealedFrames

/-! ## One step -/

theorem step_serverRead_eq_some {gcm : AesGcm Key} {s next : State Key}
    {chunk : Bytes} (hstep : step gcm s (.serverRead chunk) = some next) :
    ∃ reader, s.phase = .reading reader ∧
      next = s.onProgress gcm (reader.onRead chunk) := by
  simp only [step] at hstep
  cases hphase : s.phase with
  | reading reader =>
      simp only [hphase] at hstep
      split_ifs at hstep with hfits
      exact ⟨reader, rfl, (Option.some.inj hstep).symm⟩
  | handling => simp [hphase] at hstep
  | closed => simp [hphase] at hstep

theorem step_handled_eq_some {gcm : AesGcm Key} {s next : State Key}
    {continues : Bool} (hstep : step gcm s (.handled continues) = some next) :
    s.phase = .handling ∧
      next = { s with phase := if continues then .reading .start else .closed } := by
  simp only [step] at hstep
  cases hphase : s.phase with
  | handling =>
      simp only [hphase, Option.some.injEq] at hstep
      exact ⟨rfl, hstep.symm⟩
  | reading reader => simp [hphase] at hstep
  | closed => simp [hphase] at hstep

/-- What a completed payload does to the server: nothing but the phase, the
receive counter and one event, and a delivery is a successful decryption. -/
theorem State.onPayload_cases (gcm : AesGcm Key) (s : State Key)
    (payload : Bytes) :
    (∃ plaintext,
      openFrame gcm s.server.recvKey (nonceFor s.server.recvCounter) payload =
        some plaintext ∧
      s.onPayload gcm payload =
        { s with
          server := { s.server with recvCounter := s.server.recvCounter + 1 }
          phase := .handling
          events := s.events ++ [.delivered plaintext] }) ∨
    (∃ counter,
      s.onPayload gcm payload =
        { s with
          server := { s.server with recvCounter := counter }
          phase := .closed
          events := s.events ++ [.authenticationFailed] }) := by
  unfold State.onPayload decryptInbound
  by_cases hshort : payload.length < tagBytes
  · right
    exact ⟨s.server.recvCounter, by simp [hshort]⟩
  · cases hopen : openFrame gcm s.server.recvKey
        (nonceFor s.server.recvCounter) payload with
    | none =>
        right
        exact ⟨s.server.recvCounter + 1, by simp [hshort]⟩
    | some plaintext =>
        left
        exact ⟨plaintext, rfl, by simp [hshort]⟩

/-! ## The invariant -/

/-- The state of a run as far as the server's trust in its input goes. -/
structure Invariant (keys : DirectionalKeys Key) (s : State Key) : Prop where
  clientKey : s.client.sendKey = keys.clientToServer
  serverRecvKey : s.server.recvKey = keys.clientToServer
  serverSendKey : s.server.sendKey = keys.serverToClient
  clientCounter : s.client.sendCounter = BitVec.ofNat 64 s.written.length
  serverCounter : s.phase ≠ .closed →
    s.server.recvCounter = BitVec.ofNat 64 s.delivered.length
  sealedByClient : ∀ entry ∈ s.sealedFrames,
    entry.key = keys.clientToServer →
      ∃ i, entry.nonce = nonceFor (BitVec.ofNat 64 i) ∧
        s.written[i]? = some entry.plaintext
  deliveredPrefix : s.written.length < 2 ^ 64 → s.delivered <+: s.written
  openWithoutFailure : s.phase ≠ .closed →
    ∀ event ∈ s.events, event.isFailure = false
  failureLast : s.events.Pairwise fun earlier _ => earlier.isFailure = false

theorem initial_invariant (keys : DirectionalKeys Key) :
    Invariant keys (State.initial keys) := by
  constructor <;> simp [State.initial, State.delivered, create]

theorem Invariant.clientWrite {gcm : AesGcm Key} {keys : DirectionalKeys Key}
    {s next : State Key} {plaintext : Bytes} (hinv : Invariant keys s)
    (hstep : step gcm s (.clientWrite plaintext) = some next) :
    Invariant keys next := by
  simp only [step, Option.some.injEq] at hstep
  subst next
  constructor
  · exact hinv.clientKey
  · exact hinv.serverRecvKey
  · exact hinv.serverSendKey
  · simp only [encryptOutbound, hinv.clientCounter, counter_succ,
      List.length_append, List.length_singleton]
  · exact hinv.serverCounter
  · intro entry hentry hkey
    rcases List.mem_append.mp hentry with hold | hnew
    · obtain ⟨i, hnonce, hwritten⟩ := hinv.sealedByClient entry hold hkey
      refine ⟨i, hnonce, ?_⟩
      obtain ⟨hlt, _⟩ := List.getElem?_eq_some_iff.mp hwritten
      simpa [List.getElem?_append_left hlt] using hwritten
    · have heq := List.mem_singleton.mp hnew
      subst entry
      refine ⟨s.written.length, ?_, by simp [sealedBy]⟩
      simp [sealedBy, hinv.clientCounter]
  · intro hcount
    have hold : s.delivered <+: s.written := by
      apply hinv.deliveredPrefix
      simp only [List.length_append, List.length_singleton] at hcount
      omega
    exact hold.trans (List.prefix_append _ _)
  · exact hinv.openWithoutFailure
  · exact hinv.failureLast

theorem Invariant.serverWrite {gcm : AesGcm Key} {keys : DirectionalKeys Key}
    {s next : State Key} {plaintext : Bytes} (hinv : Invariant keys s)
    (hstep : step gcm s (.serverWrite plaintext) = some next) :
    Invariant keys next := by
  simp only [step, Option.some.injEq] at hstep
  subst next
  constructor
  · exact hinv.clientKey
  · exact hinv.serverRecvKey
  · exact hinv.serverSendKey
  · exact hinv.clientCounter
  · exact hinv.serverCounter
  · intro entry hentry hkey
    rcases List.mem_append.mp hentry with hold | hnew
    · exact hinv.sealedByClient entry hold hkey
    · have heq := List.mem_singleton.mp hnew
      subst entry
      have hserver : keys.serverToClient = keys.clientToServer := by
        simpa [sealedBy, hinv.serverSendKey] using hkey
      exact absurd hserver.symm keys.distinct
  · exact hinv.deliveredPrefix
  · exact hinv.openWithoutFailure
  · exact hinv.failureLast

/-- While the connection is open nothing has failed yet. -/
theorem Invariant.failureLast_append {keys : DirectionalKeys Key} {s : State Key}
    (hinv : Invariant keys s) (hopen : s.phase ≠ .closed) (event : Event) :
    (s.events ++ [event]).Pairwise fun earlier _ => earlier.isFailure = false := by
  rw [List.pairwise_append]
  refine ⟨hinv.failureLast, List.pairwise_singleton _ _, ?_⟩
  intro earlier hearlier _ _
  exact hinv.openWithoutFailure hopen earlier hearlier

theorem Invariant.close {keys : DirectionalKeys Key} {s : State Key}
    (hinv : Invariant keys s) (hopen : s.phase ≠ .closed)
    (counter : BitVec 64) {event : Event} (hevent : event.plaintext? = none) :
    Invariant keys
      { s with
        server := { s.server with recvCounter := counter }
        phase := .closed
        events := s.events ++ [event] } := by
  have hsame : (s.events ++ [event]).filterMap Event.plaintext? = s.delivered := by
    simp [State.delivered, hevent]
  constructor
  · exact hinv.clientKey
  · exact hinv.serverRecvKey
  · exact hinv.serverSendKey
  · exact hinv.clientCounter
  · intro hclosed
    exact absurd rfl hclosed
  · exact hinv.sealedByClient
  · intro hcount
    simp only [State.delivered, hsame]
    exact hinv.deliveredPrefix hcount
  · intro hclosed
    exact absurd rfl hclosed
  · exact hinv.failureLast_append hopen _

theorem Invariant.setPhase {keys : DirectionalKeys Key} {s : State Key}
    (hinv : Invariant keys s) {phase : Phase}
    (hphase : phase ≠ .closed → s.phase ≠ .closed) :
    Invariant keys { s with phase := phase } :=
  { hinv with
    serverCounter := fun hopen => hinv.serverCounter (hphase hopen)
    openWithoutFailure := fun hopen => hinv.openWithoutFailure (hphase hopen) }

/-- The decisive step: an ideal decryption at the server's current counter can
only be the next plaintext the client wrote. -/
theorem Invariant.next_written {keys : DirectionalKeys Key} {s : State Key}
    (hinv : Invariant keys s) (hopen : s.phase ≠ .closed)
    (hcount : s.written.length < 2 ^ 64) {plaintext payload : Bytes}
    (hsealed : ⟨s.server.recvKey, nonceFor s.server.recvCounter, plaintext,
      payload⟩ ∈ s.sealedFrames) :
    s.written[s.delivered.length]? = some plaintext := by
  obtain ⟨i, hnonce, hwritten⟩ :=
    hinv.sealedByClient _ hsealed hinv.serverRecvKey
  have hle : s.delivered.length ≤ s.written.length :=
    (hinv.deliveredPrefix hcount).length_le
  obtain ⟨hi, _⟩ := List.getElem?_eq_some_iff.mp hwritten
  have heq : s.delivered.length = i := by
    apply nonceFor_ofNat_injective (by omega) (by omega)
    simpa [hinv.serverCounter hopen] using hnonce
  rw [heq]
  exact hwritten

theorem Invariant.deliver {keys : DirectionalKeys Key} {s : State Key}
    (hinv : Invariant keys s) (hopen : s.phase ≠ .closed)
    {plaintext payload : Bytes}
    (hsealed : ⟨s.server.recvKey, nonceFor s.server.recvCounter, plaintext,
      payload⟩ ∈ s.sealedFrames) :
    Invariant keys
      { s with
        server := { s.server with recvCounter := s.server.recvCounter + 1 }
        phase := .handling
        events := s.events ++ [.delivered plaintext] } := by
  have happend :
      (s.events ++ [Event.delivered plaintext]).filterMap Event.plaintext? =
        s.delivered ++ [plaintext] := by
    simp [State.delivered, Event.plaintext?]
  constructor
  · exact hinv.clientKey
  · exact hinv.serverRecvKey
  · exact hinv.serverSendKey
  · exact hinv.clientCounter
  · intro _
    simp only [State.delivered, happend, hinv.serverCounter hopen, counter_succ,
      List.length_append, List.length_singleton]
  · exact hinv.sealedByClient
  · intro hcount
    simp only [State.delivered, happend]
    obtain ⟨rest, hrest⟩ := hinv.deliveredPrefix hcount
    have hnext := hinv.next_written hopen hcount hsealed
    rw [← hrest] at hnext
    simp only [List.getElem?_append_right (le_refl _), Nat.sub_self] at hnext
    cases rest with
    | nil => simp at hnext
    | cons head tail =>
        simp only [List.getElem?_cons_zero, Option.some.injEq] at hnext
        subst head
        exact ⟨tail, by simpa [State.delivered] using hrest⟩
  · intro _ event hevent
    rcases List.mem_append.mp hevent with hold | hnew
    · exact hinv.openWithoutFailure hopen event hold
    · have heq := List.mem_singleton.mp hnew
      subst event
      rfl
  · exact hinv.failureLast_append hopen _

theorem Invariant.serverRead {gcm : AesGcm Key} {keys : DirectionalKeys Key}
    {s next : State Key} {chunk : Bytes} (hinv : Invariant keys s)
    (hideal : IdealStep gcm s (.serverRead chunk))
    (hstep : step gcm s (.serverRead chunk) = some next) :
    Invariant keys next := by
  obtain ⟨reader, hphase, rfl⟩ := step_serverRead_eq_some hstep
  have hopen : s.phase ≠ .closed := by simp [hphase]
  cases hprogress : reader.onRead chunk with
  | reading following =>
      exact hinv.setPhase (fun _ => hopen)
  | outOfRange length =>
      exact hinv.close hopen s.server.recvCounter rfl
  | endOfStream =>
      exact hinv.close hopen s.server.recvCounter rfl
  | payload payload =>
      simp only [State.onProgress]
      rcases s.onPayload_cases gcm payload with
        ⟨plaintext, hplaintext, heq⟩ | ⟨counter, heq⟩
      · rw [heq]
        exact hinv.deliver hopen
          (hideal chunk reader payload plaintext rfl hphase hprogress hplaintext)
      · rw [heq]
        exact hinv.close hopen counter rfl

theorem Invariant.step {gcm : AesGcm Key} {keys : DirectionalKeys Key}
    {s next : State Key} {action : Action} (hinv : Invariant keys s)
    (hideal : IdealStep gcm s action)
    (hstep : (machine gcm).step s action = some next) :
    Invariant keys next := by
  cases action with
  | clientWrite plaintext => exact hinv.clientWrite hstep
  | serverWrite plaintext => exact hinv.serverWrite hstep
  | serverRead chunk => exact hinv.serverRead hideal hstep
  | handled continues =>
      have hhandled : Channel.step gcm s (.handled continues) = some next := hstep
      obtain ⟨hphase, rfl⟩ := step_handled_eq_some hhandled
      exact hinv.setPhase (fun _ => by simp [hphase])
  | stop =>
      have heq : { s with phase := .closed } = next := Option.some.inj hstep
      subst next
      exact hinv.setPhase (fun hclosed => absurd rfl hclosed)

theorem invariant_of_run {gcm : AesGcm Key} {keys : DirectionalKeys Key}
    {s : State Key} {acts : List Action}
    (hideal : (machine gcm).RunMeets (IdealStep gcm) (State.initial keys) acts)
    (hrun : (machine gcm).run (State.initial keys) acts = some s) :
    Invariant keys s :=
  (machine gcm).run_invariant
    (fun _ _ _ hinv hstep hnext => Invariant.step hinv hstep hnext)
    (initial_invariant keys) hideal hrun

/-- Along every ideal run, against any bytes whatever, what the server has
delivered is a prefix of what the client has written as long as the client has
written fewer than `2 ^ 64` frames, and nothing is delivered after an
authentication failure, a length out of range or the end of the stream. -/
theorem delivered_isPrefix_written (gcm : AesGcm Key)
    (keys : DirectionalKeys Key) (acts : List Action) (s : State Key)
    (hideal : (machine gcm).RunMeets (IdealStep gcm) (State.initial keys) acts)
    (hrun : (machine gcm).run (State.initial keys) acts = some s) :
    (s.written.length < 2 ^ 64 → s.delivered <+: s.written) ∧
      s.events.Pairwise fun earlier later =>
        earlier.isFailure = true → ∀ plaintext, later ≠ .delivered plaintext := by
  have hinv := invariant_of_run hideal hrun
  refine ⟨hinv.deliveredPrefix, hinv.failureLast.imp ?_⟩
  intro earlier later hgood hfailure
  rw [hgood] at hfailure
  contradiction

/-! ## Delivering one frame, and the bound -/

def State.afterDelivery (s : State Key) (plaintext : Bytes) : State Key :=
  { s with
    server := { s.server with recvCounter := s.server.recvCounter + 1 }
    phase := .reading .start
    events := s.events ++ [.delivered plaintext] }

theorem deliver_sealed {gcm : AesGcm Key} {s : State Key} {plaintext : Bytes}
    (hphase : s.phase = .reading .start)
    (hmax : plaintext.length + tagBytes ≤ maxFrameBytes)
    (hsealed : ⟨s.server.recvKey, nonceFor s.server.recvCounter, plaintext,
      sealFrame gcm s.server.recvKey (nonceFor s.server.recvCounter) plaintext⟩ ∈
        s.sealedFrames) :
    ∃ acts, (machine gcm).run s acts = some (s.afterDelivery plaintext) ∧
      (machine gcm).RunMeets (IdealStep gcm) s acts := by
  have hlength : (sealFrame gcm s.server.recvKey
      (nonceFor s.server.recvCounter) plaintext).length =
        plaintext.length + tagBytes := sealFrame_length _ _ _ _
  have hpos : 0 < tagBytes := by decide
  generalize hframe : sealFrame gcm s.server.recvKey
    (nonceFor s.server.recvCounter) plaintext = frame at hsealed hlength
  obtain ⟨reader, hheader, hfits, hbody⟩ :=
    FrameReader.onRead_frame (show 0 < frame.length by omega) (by omega)
  have hopened : openFrame gcm s.server.recvKey
      (nonceFor s.server.recvCounter) frame = some plaintext := by
    rw [← hframe]
    exact openFrame_sealFrame _ _ _ _
  have hdecrypt : s.server.decryptInbound gcm frame =
      (.ok plaintext, { s.server with recvCounter := s.server.recvCounter + 1 }) := by
    rw [← hframe]
    exact decryptInbound_sealFrame gcm s.server plaintext
  have hread : (machine gcm).step s (.serverRead (littleEndian 4 frame.length)) =
      some { s with phase := .reading reader } := by
    simp [machine, step, hphase, hheader, State.onProgress,
      FrameReader.wanted_start]
  have hdeliver : (machine gcm).step { s with phase := .reading reader }
      (.serverRead frame) =
      some { s with
        server := { s.server with recvCounter := s.server.recvCounter + 1 }
        phase := .handling
        events := s.events ++ [.delivered plaintext] } := by
    simp [machine, step, hfits, hbody, State.onProgress, State.onPayload,
      hdecrypt]
  refine ⟨[.serverRead (littleEndian 4 frame.length), .serverRead frame,
    .handled true], ?_, ?_⟩
  · rw [(machine gcm).run_cons_of_step hread,
      (machine gcm).run_cons_of_step hdeliver]
    rfl
  · refine ⟨?_, fun first hfirst => ⟨?_, fun second _ => ⟨?_, fun _ _ => trivial⟩⟩⟩
    · intro chunk other payload _ hchunk hother hpayload
      cases hchunk
      rw [hphase] at hother
      cases hother
      rw [hheader] at hpayload
      cases hpayload
    · have heq : { s with phase := .reading reader } = first :=
        Option.some.inj (hread.symm.trans hfirst)
      subst first
      intro chunk other payload found hchunk hother hpayload hfound
      cases hchunk
      cases hother
      rw [hbody] at hpayload
      cases hpayload
      have hsame : found = plaintext :=
        Option.some.inj (hfound.symm.trans hopened)
      subst found
      exact hsealed
    · intro chunk _ _ _ hchunk
      cases hchunk

def clearKeys : DirectionalKeys Bool where
  clientToServer := false
  serverToClient := true
  distinct := by decide

/-- The client writes one byte behind `n` frames; the server has seen nothing of it. -/
theorem lockstep_write {s : State Bool} {n : ℕ}
    (hclient : s.client = ⟨false, true, BitVec.ofNat 64 n, 0⟩) (hwritten : s.written.length = n) :
    ∃ written, (machine AesGcm.clear).step s (.clientWrite [0]) = some written ∧
      written.phase = s.phase ∧ written.server = s.server ∧ written.events = s.events ∧
      written.client = ⟨false, true, BitVec.ofNat 64 (n + 1), 0⟩ ∧
      written.written.length = n + 1 ∧
      written.sealedFrames = s.sealedFrames ++
        [⟨false, nonceFor (BitVec.ofNat 64 n), [0],
          sealFrame AesGcm.clear false (nonceFor (BitVec.ofNat 64 n)) [0]⟩] := by
  refine ⟨_, rfl, rfl, rfl, rfl, ?_, ?_, ?_⟩
  · simp only [hclient, counter_succ]
  · simp [hwritten]
  · simp [sealedBy, encryptOutbound, hclient]

/-- `n` one-byte frames written and delivered in lockstep. -/
theorem lockstep_run (n : ℕ) :
    ∃ acts s, (machine AesGcm.clear).run (State.initial clearKeys) acts = some s ∧
      (machine AesGcm.clear).RunMeets (IdealStep AesGcm.clear)
        (State.initial clearKeys) acts ∧
      s.phase = .reading .start ∧
      s.client = ⟨false, true, BitVec.ofNat 64 n, 0⟩ ∧
      s.server = ⟨true, false, 0, BitVec.ofNat 64 n⟩ ∧
      s.written.length = n ∧ s.delivered.length = n ∧
      ∀ i < n, (⟨false, nonceFor (BitVec.ofNat 64 i), [0],
        sealFrame AesGcm.clear false (nonceFor (BitVec.ofNat 64 i)) [0]⟩ :
          SealedFrame Bool) ∈ s.sealedFrames := by
  induction n with
  | zero =>
      exact ⟨[], State.initial clearKeys, rfl, trivial, rfl, rfl, rfl, rfl, rfl,
        by simp⟩
  | succ n ih =>
      obtain ⟨acts, s, hrun, hideal, hphase, hclient, hserver, hwritten,
        hdelivered, hsealed⟩ := ih
      obtain ⟨written, hwrite, hwrittenPhase, hwrittenServer, hwrittenEvents,
          hwrittenClient, hwrittenLength, hwrittenSealed⟩ := lockstep_write hclient hwritten
      have hmem : (⟨written.server.recvKey, nonceFor written.server.recvCounter,
          [0], sealFrame AesGcm.clear written.server.recvKey
            (nonceFor written.server.recvCounter) [0]⟩ : SealedFrame Bool) ∈
              written.sealedFrames := by
        rw [hwrittenSealed, hwrittenServer, hserver]
        exact List.mem_append_right _ (List.mem_singleton.mpr rfl)
      obtain ⟨more, hmore, hmoreIdeal⟩ :=
        deliver_sealed (hwrittenPhase.trans hphase) (by decide) hmem
      refine ⟨acts ++ (.clientWrite [0] :: more), written.afterDelivery [0],
        ?_, ?_, rfl, hwrittenClient,
        ?_, hwrittenLength, ?_, ?_⟩
      · rw [(machine AesGcm.clear).run_append_of_run hrun,
          (machine AesGcm.clear).run_cons_of_step hwrite]
        exact hmore
      · refine (machine AesGcm.clear).runMeets_append hrun hideal ⟨?_, ?_⟩
        · intro chunk _ _ _ hchunk
          cases hchunk
        · intro other hother
          have heq : written = other := Option.some.inj (hwrite.symm.trans hother)
          subst other
          exact hmoreIdeal
      · simp only [State.afterDelivery, hwrittenServer, hserver, counter_succ]
      · have hcount : (s.events.filterMap Event.plaintext?).length = n := hdelivered
        simp [State.afterDelivery, State.delivered, hwrittenEvents, hcount,
          Event.plaintext?]
      · intro i hi
        simp only [State.afterDelivery, hwrittenSealed]
        by_cases heq : i = n
        · subst i
          exact List.mem_append_right _ (List.mem_singleton.mpr rfl)
        · exact List.mem_append_left _ (hsealed i (by omega))

/-- After `2 ^ 64` frames the counters have wrapped, and the very first frame
is delivered once more although the client wrote nothing else. -/
theorem replay_after_wrap :
    ∃ acts s, (machine AesGcm.clear).run (State.initial clearKeys) acts = some s ∧
      (machine AesGcm.clear).RunMeets (IdealStep AesGcm.clear)
        (State.initial clearKeys) acts ∧
      s.written.length = 2 ^ 64 ∧ ¬ s.delivered <+: s.written := by
  obtain ⟨acts, s, hrun, hideal, hphase, hclient, hserver, hwritten, hdelivered,
    hsealed⟩ := lockstep_run (2 ^ 64)
  have hwrap : BitVec.ofNat 64 (2 ^ 64) = BitVec.ofNat 64 0 := by
    apply BitVec.eq_of_toNat_eq
    simp
  have hmem : (⟨s.server.recvKey, nonceFor s.server.recvCounter, [0],
      sealFrame AesGcm.clear s.server.recvKey
        (nonceFor s.server.recvCounter) [0]⟩ : SealedFrame Bool) ∈
          s.sealedFrames := by
    rw [hserver, hwrap]
    exact hsealed 0 (by norm_num)
  obtain ⟨more, hmore, hmoreIdeal⟩ := deliver_sealed hphase (by decide) hmem
  refine ⟨acts ++ more, s.afterDelivery [0], ?_, ?_, hwritten, ?_⟩
  · rw [(machine AesGcm.clear).run_append_of_run hrun]
    exact hmore
  · exact (machine AesGcm.clear).runMeets_append hrun hideal hmoreIdeal
  · intro hheader
    have hle := hheader.length_le
    have hcount : (s.events.filterMap Event.plaintext?).length = 2 ^ 64 := hdelivered
    simp only [State.afterDelivery, State.delivered, List.filterMap_append,
      List.length_append, hcount, hwritten] at hle
    simp [Event.plaintext?] at hle

theorem delivered_isPrefix_written_three :
    ∃ acts s, (machine AesGcm.clear).run (State.initial clearKeys) acts = some s ∧
      s.written.length = 3 ∧ s.delivered.length = 3 ∧
      s.delivered <+: s.written := by
  obtain ⟨acts, s, hrun, hideal, _, _, _, hwritten, hdelivered, _⟩ :=
    lockstep_run 3
  refine ⟨acts, s, hrun, hwritten, hdelivered, ?_⟩
  exact (delivered_isPrefix_written AesGcm.clear clearKeys acts s hideal hrun).1
    (by omega)

end Channel

end NativeInterop
