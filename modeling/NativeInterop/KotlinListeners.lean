import NativeInterop.AgentStatus
import NativeInterop.FfiDelivery
import NativeInterop.Machine
import Mathlib.Tactic

/-!
# The listeners of the Kotlin clients

Each client collects a channel of 64 slots that only its listener closes: on the
final token, or with an error when there is no room for another element.  A fault of
the engine reaches the drain and stops there, so a listener that has met neither
never closes its channel.
-/

namespace NativeInterop

namespace Kotlin

open Ffi

/-- Where the listeners differ: what they send for a token, if anything, and the
error of a full buffer. -/
structure Listener (γ : Type*) where
  element : InferenceToken → Option γ
  overflow : String

/-- The listener of `FfiClient.stream`: `Token` has the fields of the callback. -/
def ffiClientListener : Listener InferenceToken where
  element := some
  overflow := "FFI token buffer overflow"

def ifNotEmpty {γ : Type*} (element : String → γ) (token : InferenceToken) : Option γ :=
  if token.text = "" then none else some (element token.text)

def ffiRagListener : Listener String where
  element := ifNotEmpty fun text => text
  overflow := "RAG token buffer overflow"

/-- What `FfiAgentService.run` makes of a text: the parsed fragment, or the error
status of an unparseable one. -/
def agentFragment (text : String) : Agent.AgentFragment :=
  (Agent.parseAgentFragmentKotlin text).getD
    (.status ⟨.error, 0, "unknown (status fragment unparseable)"⟩)

def ffiAgentListener : Listener Agent.AgentFragment where
  element := ifNotEmpty agentFragment
  overflow := "Agent fragment buffer overflow"

variable {γ : Type*}

/-- `channel.trySend`, and the close of a buffer that has overflown. -/
def Listener.send (listener : Listener γ) (token : InferenceToken)
    (channel : BoundedChannel γ) : BoundedChannel γ :=
  match listener.element token with
  | none => channel
  | some element =>
      match channel.tryWrite element with
      | some channel => channel
      | none => if token.isFinal then channel else channel.tryComplete .faulted

def Listener.onToken (listener : Listener γ) (token : InferenceToken)
    (channel : BoundedChannel γ) : BoundedChannel γ :=
  if token.isFinal then (listener.send token channel).tryComplete .finished
  else listener.send token channel

/-- What the collector of a closed channel throws. -/
def Listener.error (listener : Listener γ) (channel : BoundedChannel γ) : Option String :=
  if channel.completion = some .faulted then some listener.overflow else none

/-- A started session with the channel of the flow that collects it. -/
structure Collected (γ : Type*) where
  entry : FfiSession
  channel : BoundedChannel γ

def Collected.start (generation : Generation) : Collected γ where
  entry := (FfiSession.create generation).schedule
  channel := .create 64

/-- The pump, the drain and the flow move in any order; the client may cancel. -/
inductive CollectAct where
  | pump (act : PumpAct)
  | read
  | invoke
  | endDrain
  | receive
  | cancel
  deriving DecidableEq, Repr

namespace Collected

def invoke (listener : Listener γ) (s : Collected γ) : Option (Collected γ) :=
  match s.entry.drain, s.entry.invoke with
  | .holding token, some entry => some ⟨entry, listener.onToken token s.channel⟩
  | _, _ => none

def step (listener : Listener γ) (s : Collected γ) : CollectAct → Option (Collected γ)
  | .pump act => (s.entry.pumpStep act).map fun entry => { s with entry := entry }
  | .read => s.entry.read.map fun entry => { s with entry := entry }
  | .invoke => s.invoke listener
  | .endDrain => s.entry.endDrain.map fun entry => { s with entry := entry }
  | .receive => s.channel.tryRead.map fun (_, channel) => { s with channel := channel }
  | .cancel => some { s with entry := s.entry.cancel }

def machine (listener : Listener γ) : Machine (Collected γ) CollectAct := ⟨step listener⟩

/-- The callback finds room for what it sends. -/
def fits (listener : Listener γ) (s : Collected γ) : CollectAct → Bool
  | .invoke =>
      match s.entry.drain with
      | .holding token =>
          (listener.element token).isNone || decide (s.channel.items.length < 64)
      | _ => true
  | _ => true

/-- The session belongs to a model that throws after its fragments. -/
structure Faulting (fragments : List String) (s : Collected γ) : Prop where
  delivers : s.entry.Delivers ⟨fragments, true⟩
  room : s.channel.capacity = 64
  failed : ∀ completion, s.channel.completion = some completion → completion = .faulted

section Runs

variable {listener : Listener γ} {s t : Collected γ} {fragments : List String}

theorem Faulting.not_final {token : InferenceToken} (hfaulting : Faulting fragments s)
    (hdrain : s.entry.drain = .holding token) : token.isFinal = false := by
  have hmem : token ∈ s.entry.taken := by simp [FfiSession.taken, hdrain, Drain.held]
  have hrun := ((List.prefix_append _ _).trans hfaulting.delivers.isPrefix).subset hmem
  rw [InferenceOrchestrator.run_eq] at hrun
  exact InferenceOrchestrator.isFinal_of_mem_tokens (by simpa using hrun)

theorem Faulting.start (fragments : List String) :
    Faulting fragments (Collected.start ⟨fragments, true⟩ : Collected γ) where
  delivers := (create_delivers _).schedule rfl
  room := rfl
  failed := by simp [Collected.start, BoundedChannel.create]

/-- A token that is not final closes an open channel exactly when there is no room
for what is sent. -/
theorem send_eq (listener : Listener γ) {token : InferenceToken} (channel : BoundedChannel γ)
    (hfinal : token.isFinal = false) :
    (listener.send token channel).capacity = channel.capacity ∧
      (listener.send token channel).completion =
        if (listener.element token).isNone ∨ channel.items.length < channel.capacity then
          channel.completion
        else some (channel.completion.getD .faulted) := by
  unfold Listener.send
  cases helement : listener.element token with
  | none => simp
  | some element =>
      dsimp only
      cases hwrite : channel.tryWrite element with
      | some next =>
          obtain ⟨_, hcompletion, hcapacity⟩ := BoundedChannel.tryWrite_eq_some hwrite
          have hroom : channel.items.length < channel.capacity := by
            unfold BoundedChannel.tryWrite at hwrite
            split_ifs at hwrite with hopen
            exact hopen.2
          simp [hcompletion, hcapacity, hroom]
      | none =>
          have hclosed : channel.items.length < channel.capacity →
              channel.completion ≠ none := fun hroom hopen =>
            BoundedChannel.tryWrite_ne_none element hopen hroom hwrite
          simp only [hfinal, Bool.false_eq_true, if_false, BoundedChannel.tryComplete,
            Option.isNone_some, false_or, true_and]
          split_ifs with hroom
          · obtain ⟨completion, hcompletion⟩ := Option.ne_none_iff_exists'.mp (hclosed hroom)
            simp [hcompletion]
          · rfl

theorem step_invoke_fits (hfaulting : Faulting fragments s)
    (hstep : s.invoke listener = some t) :
    Faulting fragments t ∧ (t.channel.completion ≠ none ↔
      s.channel.completion ≠ none ∨ ¬ fits listener s .invoke = true) := by
  unfold invoke at hstep
  split at hstep
  · next token entry hdrain hinvoke =>
      cases hstep
      have hfinal := hfaulting.not_final hdrain
      obtain ⟨hcapacity, hcompletion⟩ := send_eq listener s.channel hfinal
      rw [hfaulting.room] at hcompletion
      have hfits : fits listener s .invoke = true ↔
          ((listener.element token).isNone ∨ s.channel.items.length < 64) := by
        simp [fits, hdrain]
      simp only [Listener.onToken, hfinal, Bool.false_eq_true, if_false]
      rw [hcompletion, hfits]
      split_ifs with hroom
      · simp only [hroom, not_true_eq_false, or_false, and_true]
        refine ⟨hfaulting.delivers.invoke hinvoke, hcapacity.trans hfaulting.room, ?_⟩
        rw [hcompletion, if_pos hroom]
        exact hfaulting.failed
      · refine ⟨⟨hfaulting.delivers.invoke hinvoke, hcapacity.trans hfaulting.room, ?_⟩, ?_⟩
        · rw [hcompletion, if_neg hroom]
          intro completion hclosed
          cases hbefore : s.channel.completion with
          | none => simpa [hbefore] using hclosed.symm
          | some before =>
              have hfaulted := hfaulting.failed before hbefore
              simpa [hbefore, hfaulted] using hclosed.symm
        · exact ⟨fun _ => Or.inr hroom, fun _ => Option.some_ne_none _⟩
  · cases hstep

theorem step_fits {a : CollectAct} (hfaulting : Faulting fragments s)
    (hstep : step listener s a = some t) :
    Faulting fragments t ∧ (t.channel.completion ≠ none ↔
      s.channel.completion ≠ none ∨ ¬ fits listener s a = true) := by
  cases a with
  | invoke => exact step_invoke_fits hfaulting hstep
  | pump act =>
      obtain ⟨entry, hmove, rfl⟩ := Option.map_eq_some_iff.mp hstep
      refine ⟨⟨hfaulting.delivers.pumpStep hmove, hfaulting.room, hfaulting.failed⟩, ?_⟩
      simp [fits]
  | read =>
      obtain ⟨entry, hmove, rfl⟩ := Option.map_eq_some_iff.mp hstep
      refine ⟨⟨hfaulting.delivers.read hmove, hfaulting.room, hfaulting.failed⟩, ?_⟩
      simp [fits]
  | endDrain =>
      obtain ⟨entry, hmove, rfl⟩ := Option.map_eq_some_iff.mp hstep
      refine ⟨⟨hfaulting.delivers.endDrain hmove, hfaulting.room, hfaulting.failed⟩, ?_⟩
      simp [fits]
  | receive =>
      obtain ⟨⟨element, channel⟩, hread, rfl⟩ := Option.map_eq_some_iff.mp hstep
      obtain ⟨_, hcompletion, hcapacity⟩ := BoundedChannel.tryRead_eq_some hread
      refine ⟨⟨hfaulting.delivers, hcapacity.trans hfaulting.room, ?_⟩, ?_⟩
      · rw [hcompletion]
        exact hfaulting.failed
      · simp [fits, hcompletion]
  | cancel =>
      obtain rfl := Option.some.inj hstep
      refine ⟨⟨?_, hfaulting.room, hfaulting.failed⟩, by simp [fits]⟩
      exact hfaulting.delivers.untouched (cancel_untouched s.entry)

/-- Once pump and drain have ended, only the flow itself can move. -/
theorem step_over {a : CollectAct} (hpump : s.entry.session.pump = .done)
    (hdrain : s.entry.drain = .done) (hstep : step listener s a = some t) :
    (t.entry.session.pump = .done ∧ t.entry.drain = .done) ∧
      t.channel.completion = s.channel.completion := by
  cases a with
  | pump act =>
      obtain ⟨entry, hmove, rfl⟩ := Option.map_eq_some_iff.mp hstep
      obtain ⟨session, hpumped, rfl⟩ := Option.map_eq_some_iff.mp hmove
      rw [InferenceSession.pumpStep_done act hpump] at hpumped
      cases hpumped
  | read => simp [step, FfiSession.read, hdrain] at hstep
  | invoke => simp [step, invoke, hdrain] at hstep
  | endDrain => simp [step, FfiSession.endDrain, hdrain] at hstep
  | receive =>
      obtain ⟨⟨element, channel⟩, hread, rfl⟩ := Option.map_eq_some_iff.mp hstep
      exact ⟨⟨hpump, hdrain⟩, (BoundedChannel.tryRead_eq_some hread).2.1⟩
  | cancel =>
      obtain rfl := Option.some.inj hstep
      exact ⟨⟨hpump, hdrain⟩, rfl⟩

end Runs

/-- A session whose model throws: the flow's channel is closed, and then with the
error of a full buffer, exactly when some callback of the run found the buffer full;
and once pump and drain have ended nothing closes it any more. -/
theorem fault_closes_channel_iff (listener : Listener γ) (fragments : List String)
    {acts : List CollectAct} {s : Collected γ}
    (hrun : (machine listener).run (.start ⟨fragments, true⟩) acts = some s) :
    (s.channel.completion ≠ none ↔
      ¬ (machine listener).RunMeets (fun s a => fits listener s a = true)
        (.start ⟨fragments, true⟩) acts) ∧
    (s.channel.completion ≠ none → listener.error s.channel = some listener.overflow) ∧
    (s.entry.session.pump = .done → s.entry.drain = .done → ∀ more t,
      (machine listener).run s more = some t →
      t.channel.completion = s.channel.completion) := by
  have hfaulting : Faulting fragments s :=
    (machine listener).run_invariant_of_step
      (fun _ _ _ hbefore hstep => (step_fits hbefore hstep).1) (Faulting.start fragments) hrun
  refine ⟨?_, ?_, ?_⟩
  · have hflag := (machine listener).run_flag_iff
      (P := fun s a => fits listener s a = true) (F := fun s => s.channel.completion ≠ none)
      (fun _ _ _ hbefore hstep => step_fits hbefore hstep) (Faulting.start fragments) hrun
    simpa [Collected.start, BoundedChannel.create] using hflag
  · intro hclosed
    obtain ⟨completion, hcompletion⟩ := Option.ne_none_iff_exists'.mp hclosed
    simp [Listener.error, hcompletion, hfaulting.failed completion hcompletion]
  · intro hpump hdrain more t hmore
    exact (machine listener).run_constant
      (I := fun s => s.entry.session.pump = .done ∧ s.entry.drain = .done)
      (fun _ _ _ hover hstep => step_over hover.1 hover.2 hstep) ⟨hpump, hdrain⟩ hmore

/-- The model throws after one fragment, which the flow has collected. -/
def faultRun : List CollectAct :=
  [.pump .fetch, .pump .enterWrite, .pump .write, .read, .invoke, .receive, .pump .fetch,
    .endDrain]

theorem fault_closes_channel_room :
    ∃ s, (machine ffiRagListener).run (.start ⟨["all "], true⟩) faultRun = some s ∧
      ∀ more t, (machine ffiRagListener).run s more = some t →
        t.channel.completion = none := by
  obtain ⟨s, hrun, hpump, hdrain⟩ :
      ∃ s, (machine ffiRagListener).run (.start ⟨["all "], true⟩) faultRun = some s ∧
        s.entry.session.pump = .done ∧ s.entry.drain = .done := ⟨_, rfl, rfl, rfl⟩
  obtain ⟨hclosed, _, hstays⟩ := fault_closes_channel_iff ffiRagListener ["all "] hrun
  have hcheck : (machine ffiRagListener).check (fits ffiRagListener)
      (.start ⟨["all "], true⟩) faultRun = true := by
    rfl
  have hopen : s.channel.completion = none := by
    by_contra hne
    exact hclosed.mp hne (Machine.runMeets_of_check _ hcheck)
  refine ⟨s, hrun, ?_⟩
  intro more t hmore
  rw [hstays hpump hdrain more t hmore]
  exact hopen

theorem fault_leaves_open :
    ∃ s : Collected InferenceToken,
      (machine ffiClientListener).run (.start ⟨["all "], true⟩) faultRun = some s ∧
      s.entry.session.pump = .done ∧ s.entry.drain = .done ∧
      s.entry.session.cancelled = false ∧ s.channel.completion = none :=
  ⟨_, rfl, rfl, rfl, rfl, rfl⟩

end Collected

end Kotlin

end NativeInterop
