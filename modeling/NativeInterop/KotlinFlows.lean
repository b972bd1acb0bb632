import NativeInterop.Machine
import Mathlib.Tactic

/-!
# The Kotlin flows over native sessions

`FfiClient.stream`, `FfiRagService.answer`, `FfiAgentService.run` and
`FfiBoundaryService.stream` start a native session inside a `withContext`, collect a
channel, and cancel and free the session in a `finally` block that is again a
`withContext`.  The job of the collecting coroutine can be cancelled at any moment.
A `withContext` of a cancelled job throws on entry, and drops the result of its block
when the job was cancelled meanwhile; one with `NonCancellable` does neither.
-/

namespace NativeInterop

namespace Kotlin

inductive StartCall where
  | nativeSessionStart
  | nativeRagSessionStart
  | nativeAgentSessionStart
  | nativeFfiStreamStart
  deriving DecidableEq, Repr

inductive NativeCall where
  | start (call : StartCall) (sessionId : ℤ)
  | nativeSessionCancel (sessionId : ℤ)
  | nativeSessionFree (sessionId : ℤ)
  deriving DecidableEq, Repr

/-- Where the four flows differ: the start call, and whether the cleanup runs in
`NonCancellable`. -/
structure ClientFlow where
  startCall : StartCall
  nonCancellable : Bool
  deriving DecidableEq, Repr

def ffiClientStream : ClientFlow := ⟨.nativeSessionStart, true⟩

def ffiRagServiceAnswer : ClientFlow := ⟨.nativeRagSessionStart, true⟩

def ffiAgentServiceRun : ClientFlow := ⟨.nativeAgentSessionStart, true⟩

def ffiBoundaryServiceStream : ClientFlow := ⟨.nativeFfiStreamStart, false⟩

inductive Point where
  | enterStart
  | callStart
  | leaveStart (sessionId : ℤ)
  | checkId (sessionId : ℤ)
  | receive (sessionId : ℤ)
  | emit (sessionId : ℤ)
  | enterCleanup (sessionId : ℤ)
  | callCancel (sessionId : ℤ)
  | callFree (sessionId : ℤ)
  | ended
  deriving DecidableEq, Repr

/-- What one round of `for (token in channel)` finds: an element, the channel closed,
the channel closed with an error, or a cancelled job. -/
inductive Received where
  | element
  | closed
  | failed
  | cancelled
  deriving DecidableEq, Repr

structure FlowState where
  point : Point
  cancelled : Bool
  calls : List NativeCall
  deriving DecidableEq, Repr

def FlowState.initial : FlowState := ⟨.enterStart, false, []⟩

/-- The choices of the surroundings: when the job is cancelled, what the start call
returns, what the channel gives and whether `emit` throws. -/
inductive FlowAct where
  | cancelJob
  | next
  | started (sessionId : ℤ)
  | received (result : Received)
  | emitted (thrown : Bool)
  deriving DecidableEq, Repr

namespace FlowState

def goTo (s : FlowState) (point : Point) : FlowState := { s with point := point }

def call (s : FlowState) (call : NativeCall) (point : Point) : FlowState :=
  { s with calls := s.calls ++ [call], point := point }

end FlowState

def step (client : ClientFlow) (s : FlowState) : FlowAct → Option FlowState
  | .cancelJob => some { s with cancelled := true }
  | .next =>
      match s.point with
      | .enterStart => some (s.goTo (if s.cancelled then .ended else .callStart))
      | .leaveStart sessionId =>
          some (s.goTo (if s.cancelled then .ended else .checkId sessionId))
      | .checkId sessionId =>
          some (s.goTo (if sessionId ≤ 0 then .ended else .receive sessionId))
      | .enterCleanup sessionId =>
          some (s.goTo
            (if s.cancelled ∧ ¬ client.nonCancellable then .ended else .callCancel sessionId))
      | .callCancel sessionId =>
          some (s.call (.nativeSessionCancel sessionId) (.callFree sessionId))
      | .callFree sessionId => some (s.call (.nativeSessionFree sessionId) .ended)
      | _ => none
  | .started result =>
      match s.point with
      | .callStart => some (s.call (.start client.startCall result) (.leaveStart result))
      | _ => none
  | .received result =>
      match s.point with
      | .receive sessionId =>
          match result with
          | .element => some (s.goTo (.emit sessionId))
          | .closed => some (s.goTo (.enterCleanup sessionId))
          | .failed => some (s.goTo (.enterCleanup sessionId))
          | .cancelled =>
              if s.cancelled then some (s.goTo (.enterCleanup sessionId)) else none
      | _ => none
  | .emitted thrown =>
      match s.point with
      | .emit sessionId =>
          some (s.goTo (if thrown then .enterCleanup sessionId else .receive sessionId))
      | _ => none

def machine (client : ClientFlow) : Machine FlowState FlowAct := ⟨step client⟩

/-- Every session a start call returned has been cancelled once and freed once. -/
def FlowState.Freed (client : ClientFlow) (s : FlowState) : Prop :=
  ∀ sessionId, 0 < sessionId → .start client.startCall sessionId ∈ s.calls →
    s.calls.count (.nativeSessionCancel sessionId) = 1 ∧
      s.calls.count (.nativeSessionFree sessionId) = 1

/-- The job is not cancelled when the start's `withContext` returns an id, nor when
a cleanup without `NonCancellable` is entered. -/
def keepsSession (client : ClientFlow) (s : FlowState) : FlowAct → Bool
  | .next =>
      match s.point with
      | .leaveStart sessionId => sessionId ≤ 0 || !s.cancelled
      | .enterCleanup _ => client.nonCancellable || !s.cancelled
      | _ => true
  | _ => true

/-- The calls made by the time a flow stands at a point, if it has lost no
session. -/
inductive Ledger (client : ClientFlow) : Point → List NativeCall → Prop where
  | enterStart : Ledger client .enterStart []
  | callStart : Ledger client .callStart []
  | leaveStart (id : ℤ) : Ledger client (.leaveStart id) [.start client.startCall id]
  | checkId (id : ℤ) : Ledger client (.checkId id) [.start client.startCall id]
  | receive (id : ℤ) (hid : 0 < id) :
      Ledger client (.receive id) [.start client.startCall id]
  | emit (id : ℤ) (hid : 0 < id) : Ledger client (.emit id) [.start client.startCall id]
  | enterCleanup (id : ℤ) (hid : 0 < id) :
      Ledger client (.enterCleanup id) [.start client.startCall id]
  | callCancel (id : ℤ) (hid : 0 < id) :
      Ledger client (.callCancel id) [.start client.startCall id]
  | callFree (id : ℤ) (hid : 0 < id) :
      Ledger client (.callFree id) [.start client.startCall id, .nativeSessionCancel id]
  | unstarted : Ledger client .ended []
  | refused (id : ℤ) (hid : id ≤ 0) : Ledger client .ended [.start client.startCall id]
  | freed (id : ℤ) (hid : 0 < id) :
      Ledger client .ended
        [.start client.startCall id, .nativeSessionCancel id, .nativeSessionFree id]

/-- A flow that has ended without the calls for its session. -/
def Lost (client : ClientFlow) (s : FlowState) : Prop :=
  s.point = .ended ∧ ∃ sessionId, 0 < sessionId ∧ s.calls = [.start client.startCall sessionId]

section Runs

variable {client : ClientFlow} {s t : FlowState}

theorem Ledger.next (hledger : Ledger client s.point s.calls)
    (hkeeps : keepsSession client s .next = true)
    (hstep : Kotlin.step client s .next = some t) : Ledger client t.point t.calls := by
  obtain ⟨point, cancelled, calls⟩ := s
  cases hledger with
  | enterStart =>
      obtain rfl := Option.some.inj hstep
      cases cancelled with
      | true => exact .unstarted
      | false => exact .callStart
  | leaveStart id =>
      obtain rfl := Option.some.inj hstep
      cases cancelled with
      | true =>
          have hid : id ≤ 0 := by simpa [keepsSession] using hkeeps
          exact .refused id hid
      | false => exact .checkId id
  | checkId id =>
      obtain rfl := Option.some.inj hstep
      by_cases hid : id ≤ 0
      · simpa [FlowState.goTo, hid] using Ledger.refused id hid
      · simpa [FlowState.goTo, hid] using Ledger.receive id (not_le.mp hid)
  | enterCleanup id hid =>
      obtain rfl := Option.some.inj hstep
      have hentered : ¬ (cancelled = true ∧ ¬ client.nonCancellable = true) := by
        rintro ⟨rfl, hplain⟩
        simp [keepsSession, hplain] at hkeeps
      simp only [FlowState.goTo, if_neg hentered]
      exact .callCancel id hid
  | callCancel id hid =>
      obtain rfl := Option.some.inj hstep
      exact .callFree id hid
  | callFree id hid =>
      obtain rfl := Option.some.inj hstep
      exact .freed id hid
  | _ => cases hstep

theorem Ledger.received {result : Received} (hledger : Ledger client s.point s.calls)
    (hstep : Kotlin.step client s (.received result) = some t) :
    Ledger client t.point t.calls := by
  obtain ⟨point, cancelled, calls⟩ := s
  cases hledger with
  | receive id hid =>
      cases result with
      | element =>
          obtain rfl := Option.some.inj hstep
          exact .emit id hid
      | closed =>
          obtain rfl := Option.some.inj hstep
          exact .enterCleanup id hid
      | failed =>
          obtain rfl := Option.some.inj hstep
          exact .enterCleanup id hid
      | cancelled =>
          simp only [Kotlin.step] at hstep
          split_ifs at hstep
          obtain rfl := Option.some.inj hstep
          exact .enterCleanup id hid
  | _ => cases hstep

theorem Ledger.step {a : FlowAct} (hledger : Ledger client s.point s.calls)
    (hkeeps : keepsSession client s a = true) (hstep : Kotlin.step client s a = some t) :
    Ledger client t.point t.calls := by
  cases a with
  | cancelJob =>
      obtain rfl := Option.some.inj hstep
      exact hledger
  | next => exact hledger.next hkeeps hstep
  | started id =>
      obtain ⟨point, cancelled, calls⟩ := s
      cases hledger with
      | callStart =>
          obtain rfl := Option.some.inj hstep
          exact .leaveStart id
      | _ => cases hstep
  | received result => exact hledger.received hstep
  | emitted thrown =>
      obtain ⟨point, cancelled, calls⟩ := s
      cases hledger with
      | emit id hid =>
          obtain rfl := Option.some.inj hstep
          cases thrown with
          | true => exact .enterCleanup id hid
          | false => exact .receive id hid
      | _ => cases hstep

/-- The two steps that lose a session end the flow at once. -/
theorem Ledger.lost {a : FlowAct} (hledger : Ledger client s.point s.calls)
    (hloses : keepsSession client s a = false) (hstep : Kotlin.step client s a = some t) :
    Lost client t := by
  obtain ⟨point, cancelled, calls⟩ := s
  cases a with
  | next =>
      cases hledger with
      | leaveStart id =>
          obtain ⟨hid, hcancelled⟩ : 0 < id ∧ cancelled = true := by
            simpa [keepsSession] using hloses
          obtain rfl := Option.some.inj hstep
          exact ⟨by simp [FlowState.goTo, hcancelled], id, hid, rfl⟩
      | enterCleanup id hid =>
          obtain ⟨hplain, hcancelled⟩ :
              client.nonCancellable = false ∧ cancelled = true := by
            simpa [keepsSession] using hloses
          obtain rfl := Option.some.inj hstep
          exact ⟨by simp [FlowState.goTo, hcancelled, hplain], id, hid, rfl⟩
      | _ => cases hloses
  | _ => cases hloses

theorem Lost.step {a : FlowAct} (hlost : Lost client s)
    (hstep : Kotlin.step client s a = some t) : Lost client t := by
  obtain ⟨point, cancelled, calls⟩ := s
  obtain ⟨rfl, hcalls⟩ := hlost
  cases a with
  | cancelJob =>
      obtain rfl := Option.some.inj hstep
      exact ⟨rfl, hcalls⟩
  | _ => cases hstep

theorem Lost.not_freed (hlost : Lost client s) : ¬ s.Freed client := by
  obtain ⟨_, id, hid, hcalls⟩ := hlost
  intro hfreed
  have hcount := (hfreed id hid (by simp [hcalls])).1
  simp [hcalls] at hcount

theorem Ledger.freed_of_ended (hledger : Ledger client s.point s.calls)
    (hended : s.point = .ended) : s.Freed client := by
  obtain ⟨point, cancelled, calls⟩ := s
  obtain rfl : point = .ended := hended
  intro sessionId hid hstarted
  cases hledger with
  | unstarted => cases hstarted
  | refused id hrefused =>
      obtain rfl : sessionId = id := by simpa using hstarted
      omega
  | freed id _ =>
      obtain rfl : sessionId = id := by simpa using hstarted
      simp

/-- A flow that frees its session in the end has lost it at no step. -/
theorem Ledger.runMeets {acts : List FlowAct} (hledger : Ledger client s.point s.calls)
    (hrun : (machine client).run s acts = some t) (hfreed : t.Freed client) :
    (machine client).RunMeets (fun s a => keepsSession client s a = true) s acts := by
  induction acts generalizing s with
  | nil => trivial
  | cons a acts ih =>
      obtain ⟨next, hstep, hrest⟩ := ((machine client).run_cons_eq_some).mp hrun
      have hkeeps : keepsSession client s a = true := by
        by_contra hloses
        rw [Bool.not_eq_true] at hloses
        have hlost : Lost client t :=
          (machine client).run_invariant_of_step (I := Lost client)
            (fun _ _ _ hlost hstep => hlost.step hstep) (hledger.lost hloses hstep) hrest
        exact hlost.not_freed hfreed
      refine ⟨hkeeps, ?_⟩
      intro other hother
      obtain rfl : next = other := Option.some.inj (hstep.symm.trans hother)
      exact ih (hledger.step hkeeps hstep) hrest

end Runs

/-- A flow that has ended has cancelled and freed its session exactly when its job
was at no moment cancelled where the session is dropped. -/
theorem flow_frees_session_iff (client : ClientFlow) {acts : List FlowAct} {s : FlowState}
    (hrun : (machine client).run .initial acts = some s) (hended : s.point = .ended) :
    s.Freed client ↔
      (machine client).RunMeets (fun s a => keepsSession client s a = true) .initial acts := by
  constructor
  · exact Ledger.runMeets .enterStart hrun
  · intro hmeets
    have hledger : Ledger client s.point s.calls :=
      (machine client).run_invariant (I := fun s => Ledger client s.point s.calls)
        (fun _ _ _ hledger hkeeps hstep => hledger.step hkeeps hstep) .enterStart hmeets hrun
    exact hledger.freed_of_ended hended

/-- The user leaves while the flow collects. -/
def leftRun : List FlowAct :=
  [.next, .started 1, .next, .next, .received .element, .emitted false, .cancelJob,
    .received .cancelled, .next, .next, .next]

theorem flow_frees_session_left :
    ∃ s, (machine ffiRagServiceAnswer).run .initial leftRun = some s ∧
      s.Freed ffiRagServiceAnswer := by
  have hrun : ∃ s, (machine ffiRagServiceAnswer).run .initial leftRun = some s ∧
      s.point = .ended := ⟨_, rfl, rfl⟩
  obtain ⟨s, hrun, hended⟩ := hrun
  have hcheck : (machine ffiRagServiceAnswer).check (keepsSession ffiRagServiceAnswer)
      .initial leftRun = true := by
    decide
  exact ⟨s, hrun, (flow_frees_session_iff ffiRagServiceAnswer hrun hended).mpr
    (Machine.runMeets_of_check _ hcheck)⟩

/-- In each of the four flows a session whose start returns to a cancelled job is
lost, and the boundary stream loses it also when the user leaves while it collects. -/
theorem flow_loses_session :
    (∀ client ∈ [ffiClientStream, ffiRagServiceAnswer, ffiAgentServiceRun,
        ffiBoundaryServiceStream],
      ∃ s, (machine client).run .initial [.next, .cancelJob, .started 1, .next] = some s ∧
        s.point = .ended ∧ ¬ s.Freed client) ∧
    ∃ s, (machine ffiBoundaryServiceStream).run .initial
        [.next, .started 1, .next, .next, .cancelJob, .received .cancelled, .next] = some s ∧
      s.point = .ended ∧ ¬ s.Freed ffiBoundaryServiceStream := by
  constructor
  · intro client _
    refine ⟨_, rfl, rfl, Lost.not_freed ⟨rfl, 1, by decide, rfl⟩⟩
  · refine ⟨_, rfl, rfl, Lost.not_freed ⟨rfl, 1, by decide, rfl⟩⟩

end Kotlin

end NativeInterop
