import NativeInterop.KotlinListeners
import Mathlib.Tactic

/-!
# What the Kotlin FFI streams emit

The callbacks of a native session and the collector of the flow share a channel of 64 slots.
`FfiClient.stream` closes it with an error when a token that is not the final one finds no
room; `FfiBoundaryService.stream` looks at no result of `trySend`.  Both close it normally
behind the final token, whether or not that was sent.
-/

namespace NativeInterop

namespace Kotlin

open Ffi

structure BoundaryStreamToken where
  index : BitVec 32
  text : String
  isFinal : Bool
  managedThreadId : BitVec 64
  elapsedUs : BitVec 64
  deriving DecidableEq, Repr

/-- A callback with the channel it closes over. -/
structure StreamCallback (γ : Type*) where
  isFinal : γ → Bool
  deliver : γ → BoundedChannel γ → BoundedChannel γ

def onToken : StreamCallback InferenceToken where
  isFinal := InferenceToken.isFinal
  deliver := ffiClientListener.onToken

def onTrace : StreamCallback BoundaryStreamToken where
  isFinal := BoundaryStreamToken.isFinal
  deliver token channel :=
    let sent := (channel.tryWrite token).getD channel
    if token.isFinal then sent.tryComplete .finished else sent

inductive FlowEnd where
  | normal
  | error
  | cancelled
  deriving DecidableEq, Repr

inductive StreamPhase where
  | starting
  | collecting
  | ended (how : FlowEnd)
  deriving DecidableEq, Repr

structure StreamState (γ : Type*) where
  phase : StreamPhase
  pending : List γ
  channel : BoundedChannel γ
  emitted : List γ
  deriving DecidableEq

def StreamState.start {γ : Type*} (tokens : List γ) : StreamState γ where
  phase := .starting
  pending := tokens
  channel := .create 64
  emitted := []

/-- The native thread and the coroutine of the flow move in any order; the job may be
cancelled. -/
inductive StreamAct where
  | started (sessionId : ℤ)
  | callback
  | receive
  | finish
  | cancel
  deriving DecidableEq, Repr

namespace StreamState

variable {γ : Type*}

def step (callback : StreamCallback γ) (s : StreamState γ) : StreamAct → Option (StreamState γ)
  | .started sessionId =>
      if s.phase = .starting then
        some { s with phase := if sessionId ≤ 0 then .ended .error else .collecting }
      else none
  | .callback =>
      match s.pending with
      | [] => none
      | token :: rest =>
          some { s with pending := rest, channel := callback.deliver token s.channel }
  | .receive =>
      if s.phase = .collecting then
        s.channel.tryRead.map fun (token, channel) =>
          { s with channel := channel, emitted := s.emitted ++ [token] }
      else none
  | .finish =>
      if s.phase = .collecting ∧ s.channel.items = [] then
        s.channel.completion.map fun completion =>
          { s with phase := .ended (if completion = .faulted then .error else .normal) }
      else none
  | .cancel =>
      if s.phase = .starting ∨ s.phase = .collecting then
        some { s with phase := .ended .cancelled }
      else none

def machine (callback : StreamCallback γ) : Machine (StreamState γ) StreamAct := ⟨step callback⟩

end StreamState

/-! ## What a callback does with its token -/

section Callback

variable {γ : Type*}

def HasRoom (channel : BoundedChannel γ) : Prop :=
  channel.completion = none ∧ channel.items.length < channel.capacity

/-- With room the token is kept; without, it is lost, and `faults` says whether a token that is
not the final one then closes the channel with an error. -/
structure Delivers (callback : StreamCallback γ) (faults : Bool) : Prop where
  capacity : ∀ token channel, (callback.deliver token channel).capacity = channel.capacity
  kept : ∀ token channel, HasRoom channel →
    (callback.deliver token channel).items = channel.items ++ [token] ∧
      (callback.deliver token channel).completion =
        if callback.isFinal token then some .finished else none
  lost : ∀ token channel, ¬ HasRoom channel →
    (callback.deliver token channel).items = channel.items ∧
      (callback.deliver token channel).completion =
        if callback.isFinal token then some (channel.completion.getD .finished)
        else if faults then some (channel.completion.getD .faulted)
        else channel.completion

theorem tryWrite_of_room {channel : BoundedChannel γ} (token : γ) (hroom : HasRoom channel) :
    ∃ next, channel.tryWrite token = some next ∧ next.items = channel.items ++ [token] ∧
      next.completion = none ∧ next.capacity = channel.capacity := by
  obtain ⟨next, hwrite⟩ :=
    Option.ne_none_iff_exists'.mp (BoundedChannel.tryWrite_ne_none token hroom.1 hroom.2)
  obtain ⟨hitems, hcompletion, hcapacity⟩ := BoundedChannel.tryWrite_eq_some hwrite
  exact ⟨next, hwrite, hitems, hcompletion.trans hroom.1, hcapacity⟩

theorem tryWrite_of_not_room {channel : BoundedChannel γ} (token : γ)
    (hroom : ¬ HasRoom channel) : channel.tryWrite token = none := by
  rw [BoundedChannel.tryWrite]
  exact dif_neg hroom

theorem delivers_onTrace : Delivers onTrace false where
  capacity := by
    intro token channel
    by_cases hroom : HasRoom channel
    · obtain ⟨next, hwrite, -, -, hcapacity⟩ := tryWrite_of_room token hroom
      simp only [onTrace, hwrite, Option.getD_some]
      split_ifs <;> exact hcapacity
    · simp only [onTrace, tryWrite_of_not_room token hroom, Option.getD_none]
      split_ifs <;> rfl
  kept := by
    intro token channel hroom
    obtain ⟨next, hwrite, hitems, hcompletion, -⟩ := tryWrite_of_room token hroom
    simp only [onTrace, hwrite, Option.getD_some]
    by_cases hfinal : token.isFinal = true
    · simp [hfinal, hitems, hcompletion, BoundedChannel.tryComplete]
    · simp [hfinal, hitems, hcompletion]
  lost := by
    intro token channel hroom
    simp only [onTrace, tryWrite_of_not_room token hroom, Option.getD_none]
    by_cases hfinal : token.isFinal = true
    · simp [hfinal, BoundedChannel.tryComplete]
    · simp [hfinal]

theorem delivers_onToken : Delivers onToken true where
  capacity := by
    intro token channel
    by_cases hroom : HasRoom channel
    · obtain ⟨next, hwrite, -, -, hcapacity⟩ := tryWrite_of_room token hroom
      simp only [onToken, Listener.onToken, Listener.send, ffiClientListener, hwrite]
      split_ifs <;> exact hcapacity
    · simp only [onToken, Listener.onToken, Listener.send, ffiClientListener,
        tryWrite_of_not_room token hroom]
      split_ifs <;> rfl
  kept := by
    intro token channel hroom
    obtain ⟨next, hwrite, hitems, hcompletion, -⟩ := tryWrite_of_room token hroom
    simp only [onToken, Listener.onToken, Listener.send, ffiClientListener, hwrite]
    by_cases hfinal : token.isFinal = true
    · simp [hfinal, hitems, hcompletion, BoundedChannel.tryComplete]
    · simp [hfinal, hitems, hcompletion]
  lost := by
    intro token channel hroom
    simp only [onToken, Listener.onToken, Listener.send, ffiClientListener,
      tryWrite_of_not_room token hroom]
    by_cases hfinal : token.isFinal = true
    · simp [hfinal, BoundedChannel.tryComplete]
    · simp [hfinal, BoundedChannel.tryComplete]

end Callback

/-! ## Runs -/

section Runs

variable {γ : Type*}

/-- The callback finds room, or it closes the channel with an error or finds it closed so. -/
def safe (callback : StreamCallback γ) (faults : Bool) (s : StreamState γ) : StreamAct → Prop
  | .callback =>
      ∀ token ∈ s.pending.head?, s.channel.completion = some .faulted ∨
        (s.channel.completion = none ∧
          (s.channel.items.length < 64 ∨ (faults = true ∧ callback.isFinal token = false)))
  | _ => True

/-- The tokens as a session delivers them: none but the last one is final. -/
def FinalLast (callback : StreamCallback γ) (tokens : List γ) : Prop :=
  ∀ token ∈ tokens.dropLast, callback.isFinal token = false

/-- The tokens that have not been lost. -/
def StreamState.left (s : StreamState γ) : List γ :=
  s.emitted ++ (s.channel.items ++ s.pending)

structure Accounts (callback : StreamCallback γ) (faults : Bool) (tokens : List γ)
    (s : StreamState γ) : Prop where
  room : s.channel.capacity = 64
  kept : s.left.Sublist tokens
  rest : s.pending <:+ tokens
  whole : faults = true → s.channel.completion = none → s.left = tokens
  finished : FinalLast callback tokens →
    s.channel.completion = some .finished → s.pending = []
  normal : s.phase = .ended .normal →
    s.channel.items = [] ∧ s.channel.completion = some .finished

/-- Tokens are missing, and no error tells. -/
def Misses (tokens : List γ) (s : StreamState γ) : Prop :=
  s.channel.completion ≠ some .faulted ∧ s.left ≠ tokens

theorem accounts_start (callback : StreamCallback γ) (faults : Bool) (tokens : List γ) :
    Accounts callback faults tokens (.start tokens) where
  room := rfl
  kept := List.Sublist.refl tokens
  rest := List.suffix_rfl
  whole := fun _ _ => rfl
  finished := fun _ => nofun
  normal := nofun

variable {callback : StreamCallback γ} {faults : Bool} {tokens : List γ} {s t : StreamState γ}

theorem rest_eq_nil_of_final {token : γ} {rest : List γ} (hlast : FinalLast callback tokens)
    (hsuffix : token :: rest <:+ tokens) (hfinal : callback.isFinal token = true) : rest = [] := by
  by_contra hrest
  obtain ⟨front, rfl⟩ := hsuffix
  have hmem : token ∈ (front ++ token :: rest).dropLast := by
    rw [List.dropLast_append_of_ne_nil (List.cons_ne_nil token rest),
      List.dropLast_cons_of_ne_nil hrest]
    simp
  rw [hlast token hmem] at hfinal
  cases hfinal

theorem safe_callback_iff {token : γ} {rest : List γ} (hpending : s.pending = token :: rest) :
    safe callback faults s .callback ↔ s.channel.completion = some .faulted ∨
      (s.channel.completion = none ∧
        (s.channel.items.length < 64 ∨ (faults = true ∧ callback.isFinal token = false))) := by
  simp [safe, hpending]

/-- A callback with room moves its token from one place to the next. -/
theorem accounts_kept (hdelivers : Delivers callback faults)
    (haccounts : Accounts callback faults tokens s) {token : γ} {rest : List γ}
    (hpending : s.pending = token :: rest) (hroom : HasRoom s.channel)
    (hnext : t = { s with pending := rest, channel := callback.deliver token s.channel }) :
    Accounts callback faults tokens t ∧
      (Misses tokens t ↔ Misses tokens s ∨ ¬ safe callback faults s .callback) := by
  obtain ⟨hitems, hcompletion⟩ := hdelivers.kept token s.channel hroom
  have hsuffix := haccounts.rest
  rw [hpending] at hsuffix
  have hleft : t.left = s.left := by
    rw [hnext, StreamState.left, StreamState.left, hitems, hpending, List.append_assoc]
    rfl
  have hsafe : safe callback faults s .callback := by
    rw [safe_callback_iff hpending]
    exact .inr ⟨hroom.1, .inl (haccounts.room ▸ hroom.2)⟩
  have hopen : t.channel.completion ≠ some .faulted := by
    rw [hnext, hcompletion]
    split_ifs <;> simp
  refine ⟨⟨?_, ?_, ?_, ?_, ?_, ?_⟩, ?_⟩
  · rw [hnext]
    exact (hdelivers.capacity token s.channel).trans haccounts.room
  · rw [hleft]
    exact haccounts.kept
  · rw [hnext]
    exact (List.suffix_cons token rest).trans hsuffix
  · intro hfaults _
    rw [hleft]
    exact haccounts.whole hfaults hroom.1
  · intro hlast hfinished
    rw [hnext, hcompletion] at hfinished
    split_ifs at hfinished with hfinal
    rw [hnext]
    exact rest_eq_nil_of_final hlast hsuffix hfinal
  · intro hphase
    rw [hnext] at hphase
    have hclosed := (haccounts.normal hphase).2
    rw [hroom.1] at hclosed
    cases hclosed
  · simp [Misses, hleft, hopen, hroom.1, hsafe]

/-- A callback without room loses its token; whether an error tells is up to the channel. -/
theorem accounts_lost (hdelivers : Delivers callback faults)
    (haccounts : Accounts callback faults tokens s) {token : γ} {rest : List γ}
    (hpending : s.pending = token :: rest) (hroom : ¬ HasRoom s.channel)
    (hnext : t = { s with pending := rest, channel := callback.deliver token s.channel }) :
    Accounts callback faults tokens t ∧
      (Misses tokens t ↔ Misses tokens s ∨ ¬ safe callback faults s .callback) := by
  obtain ⟨hitems, hcompletion⟩ := hdelivers.lost token s.channel hroom
  have hsuffix := haccounts.rest
  rw [hpending] at hsuffix
  have hshorter : t.left.Sublist s.left ∧ t.left.length < s.left.length := by
    rw [hnext, StreamState.left, StreamState.left, hitems, hpending]
    constructor
    · exact ((List.sublist_cons_self token rest).append_left _).append_left _
    · simp
  have hne : t.left ≠ tokens := by
    intro hsame
    have hlength := haccounts.kept.length_le
    rw [← hsame] at hlength
    omega
  have hchannel : t.channel.completion =
      if callback.isFinal token then some (s.channel.completion.getD .finished)
      else if faults then some (s.channel.completion.getD .faulted)
      else s.channel.completion := by
    rw [hnext]
    exact hcompletion
  refine ⟨⟨?_, ?_, ?_, ?_, ?_, ?_⟩, ?_⟩
  · rw [hnext]
    exact (hdelivers.capacity token s.channel).trans haccounts.room
  · exact hshorter.1.trans haccounts.kept
  · rw [hnext]
    exact (List.suffix_cons token rest).trans hsuffix
  · intro hfaults hnone
    rw [hchannel, hfaults, if_pos rfl] at hnone
    split_ifs at hnone
  · intro hlast hfinished
    rw [hnext]
    by_cases hfinal : callback.isFinal token = true
    · exact rest_eq_nil_of_final hlast hsuffix hfinal
    · have hbefore : s.channel.completion = some .finished := by
        rw [hchannel, if_neg hfinal] at hfinished
        cases hcompletion : s.channel.completion with
        | none => simp [hcompletion] at hfinished
        | some completion => simpa [hcompletion] using hfinished
      have hnil := haccounts.finished hlast hbefore
      rw [hpending] at hnil
      cases hnil
  · intro hphase
    rw [hnext] at hphase
    obtain ⟨hempty, hfinished⟩ := haccounts.normal hphase
    rw [hchannel, hfinished, hnext]
    exact ⟨hitems.trans hempty, by simp⟩
  · rw [safe_callback_iff hpending, Misses, Misses, and_iff_left hne]
    cases hcompletion : s.channel.completion with
    | none =>
        have hfull : ¬ s.channel.items.length < 64 := by
          rw [← haccounts.room]
          exact fun hlength => hroom ⟨hcompletion, hlength⟩
        rw [hchannel, hcompletion]
        have hwhole := fun hfaults : faults = true => haccounts.whole hfaults hcompletion
        cases hfinal : callback.isFinal token with
        | true => simp [hfull]
        | false =>
            cases faults with
            | true => simp [hwhole rfl]
            | false => simp [hfull]
    | some completion =>
        rw [hchannel, hcompletion]
        cases completion with
        | finished => simp
        | faulted => simp

/-- The phase alone changes, and to a normal end only when all has been read. -/
theorem accounts_phase {phase : StreamPhase} (haccounts : Accounts callback faults tokens s)
    (hnormal : phase = .ended .normal →
      s.channel.items = [] ∧ s.channel.completion = some .finished) :
    Accounts callback faults tokens { s with phase := phase } ∧
      (Misses tokens { s with phase := phase } ↔ Misses tokens s) :=
  ⟨⟨haccounts.room, haccounts.kept, haccounts.rest, haccounts.whole, haccounts.finished, hnormal⟩,
    Iff.rfl⟩

/-- The collector moves a token from the channel to what it has emitted. -/
theorem accounts_receive {token : γ} {channel : BoundedChannel γ}
    (haccounts : Accounts callback faults tokens s) (hphase : s.phase = .collecting)
    (hread : s.channel.tryRead = some (token, channel)) :
    Accounts callback faults tokens { s with channel := channel, emitted := s.emitted ++ [token] } ∧
      (Misses tokens { s with channel := channel, emitted := s.emitted ++ [token] } ↔
        Misses tokens s) := by
  obtain ⟨hitems, hcompletion, hcapacity⟩ := BoundedChannel.tryRead_eq_some hread
  have hleft : s.emitted ++ [token] ++ (channel.items ++ s.pending) = s.left := by
    rw [StreamState.left, hitems]
    simp
  refine ⟨⟨hcapacity.trans haccounts.room, ?_, haccounts.rest, ?_, ?_, ?_⟩, ?_⟩
  · rw [StreamState.left, hleft]
    exact haccounts.kept
  · rw [StreamState.left, hleft, hcompletion]
    exact haccounts.whole
  · rw [hcompletion]
    exact haccounts.finished
  · rw [hphase]
    exact nofun
  · simp only [Misses, StreamState.left] at hleft ⊢
    rw [hleft, hcompletion]

theorem step_flag (hdelivers : Delivers callback faults) {a : StreamAct}
    (haccounts : Accounts callback faults tokens s)
    (hstep : StreamState.step callback s a = some t) :
    Accounts callback faults tokens t ∧
      (Misses tokens t ↔ Misses tokens s ∨ ¬ safe callback faults s a) := by
  cases a with
  | callback =>
      cases hpending : s.pending with
      | nil => simp [StreamState.step, hpending] at hstep
      | cons token rest =>
          simp only [StreamState.step, hpending, Option.some.injEq] at hstep
          by_cases hroom : HasRoom s.channel
          · exact accounts_kept hdelivers haccounts hpending hroom hstep.symm
          · exact accounts_lost hdelivers haccounts hpending hroom hstep.symm
  | started sessionId =>
      simp only [safe, not_true_eq_false, or_false]
      simp only [StreamState.step] at hstep
      split_ifs at hstep with hphase
      · cases hstep
        exact accounts_phase haccounts nofun
      · cases hstep
        exact accounts_phase haccounts nofun
  | receive =>
      simp only [safe, not_true_eq_false, or_false]
      simp only [StreamState.step] at hstep
      split_ifs at hstep with hphase
      obtain ⟨⟨token, channel⟩, hread, rfl⟩ := Option.map_eq_some_iff.mp hstep
      exact accounts_receive haccounts hphase hread
  | finish =>
      simp only [safe, not_true_eq_false, or_false]
      simp only [StreamState.step] at hstep
      split_ifs at hstep with hready
      obtain ⟨completion, hcompletion, rfl⟩ := Option.map_eq_some_iff.mp hstep
      apply accounts_phase haccounts
      intro hphase
      cases completion with
      | faulted => cases hphase
      | finished => exact ⟨hready.2, hcompletion⟩
  | cancel =>
      simp only [safe, not_true_eq_false, or_false]
      simp only [StreamState.step] at hstep
      split_ifs at hstep with hphase
      cases hstep
      exact accounts_phase haccounts nofun

theorem accounts_of_run (hdelivers : Delivers callback faults) {acts : List StreamAct}
    (hrun : (StreamState.machine callback).run (.start tokens) acts = some t) :
    Accounts callback faults tokens t :=
  (StreamState.machine callback).run_invariant_of_step
    (fun _ _ _ haccounts hstep => (step_flag hdelivers haccounts hstep).1)
    (accounts_start callback faults tokens) hrun

/-- A flow that has ended normally has emitted every token so far exactly where every callback
was safe. -/
theorem emitted_eq_iff (hdelivers : Delivers callback faults) {acts : List StreamAct}
    (hrun : (StreamState.machine callback).run (.start tokens) acts = some t)
    (hnormal : t.phase = .ended .normal) :
    t.emitted ++ t.pending = tokens ↔
      (StreamState.machine callback).RunMeets (safe callback faults) (.start tokens) acts := by
  have hflag := (StreamState.machine callback).run_flag_iff (F := Misses tokens)
    (fun _ _ _ haccounts hstep => step_flag hdelivers haccounts hstep)
    (accounts_start callback faults tokens) hrun
  obtain ⟨hitems, hcompletion⟩ := (accounts_of_run hdelivers hrun).normal hnormal
  have hleft : t.left = t.emitted ++ t.pending := by
    rw [StreamState.left, hitems, List.nil_append]
  have hstart : ¬ Misses tokens (.start tokens) := fun hmisses => hmisses.2 rfl
  rw [or_iff_right hstart, Misses, hleft, hcompletion] at hflag
  have hnot : (some Completion.finished ≠ some .faulted) := by decide
  rw [and_iff_right hnot] at hflag
  exact not_iff_not.mp hflag

/-- Where the final token is the last one, a flow that has ended normally has had them all. -/
theorem pending_eq_nil (hdelivers : Delivers callback faults) {acts : List StreamAct}
    (hrun : (StreamState.machine callback).run (.start tokens) acts = some t)
    (hnormal : t.phase = .ended .normal) (hlast : FinalLast callback tokens) :
    t.pending = [] := by
  have haccounts := accounts_of_run hdelivers hrun
  exact haccounts.finished hlast (haccounts.normal hnormal).2

end Runs

/-! ## The two clients -/

/-- In both clients a flow that has ended normally has emitted every token that was delivered
exactly where no callback has lost one in silence: in `FfiClient.stream` the final token without
room, in `FfiBoundaryService.stream` any token without room. -/
theorem streams_emit_all_iff (tokens : List InferenceToken) (traces : List BoundaryStreamToken)
    (acts : List StreamAct) :
    (∀ t, (StreamState.machine onToken).run (.start tokens) acts = some t →
      t.phase = .ended .normal →
        (t.emitted ++ t.pending = tokens ↔
          (StreamState.machine onToken).RunMeets (safe onToken true) (.start tokens) acts) ∧
        (FinalLast onToken tokens → t.pending = [])) ∧
    (∀ t, (StreamState.machine onTrace).run (.start traces) acts = some t →
      t.phase = .ended .normal →
        (t.emitted ++ t.pending = traces ↔
          (StreamState.machine onTrace).RunMeets (safe onTrace false) (.start traces) acts) ∧
        (FinalLast onTrace traces → t.pending = [])) :=
  ⟨fun _ hrun hnormal => ⟨emitted_eq_iff delivers_onToken hrun hnormal,
      pending_eq_nil delivers_onToken hrun hnormal⟩,
    fun _ hrun hnormal => ⟨emitted_eq_iff delivers_onTrace hrun hnormal,
      pending_eq_nil delivers_onTrace hrun hnormal⟩⟩

/-- A collector that keeps up with two callbacks. -/
def keepingUp : List StreamAct := [.started 1, .callback, .receive, .callback, .receive, .finish]

def twoTokens : List InferenceToken := [⟨0, "Hi", false⟩, ⟨1, "", true⟩]

def twoTraces : List BoundaryStreamToken := [⟨0, "Hi", false, 9, 1⟩, ⟨1, "", true, 9, 2⟩]

theorem streams_emit_all_two :
    (∃ t, (StreamState.machine onToken).run (.start twoTokens) keepingUp = some t ∧
      (t.emitted ++ t.pending = twoTokens ↔
        (StreamState.machine onToken).RunMeets (safe onToken true) (.start twoTokens)
          keepingUp) ∧ t.pending = []) ∧
    (∃ t, (StreamState.machine onTrace).run (.start twoTraces) keepingUp = some t ∧
      (t.emitted ++ t.pending = twoTraces ↔
        (StreamState.machine onTrace).RunMeets (safe onTrace false) (.start twoTraces)
          keepingUp) ∧ t.pending = []) := by
  have htokens : FinalLast onToken twoTokens := by simp [FinalLast, twoTokens, onToken]
  have htraces : FinalLast onTrace twoTraces := by simp [FinalLast, twoTraces, onTrace]
  obtain ⟨hclient, hboundary⟩ := streams_emit_all_iff twoTokens twoTraces keepingUp
  obtain ⟨hemitted, hpending⟩ := hclient _ rfl rfl
  obtain ⟨hemitted', hpending'⟩ := hboundary _ rfl rfl
  exact ⟨⟨_, rfl, hemitted, hpending htokens⟩, ⟨_, rfl, hemitted', hpending' htraces⟩⟩

/-- All callbacks come before the collector reads anything. -/
def lateCollector (callbacks : ℕ) : List StreamAct :=
  .started 1 :: (List.replicate callbacks .callback ++ List.replicate 64 .receive ++ [.finish])

def EndsShort {γ : Type} [DecidableEq γ] (callback : StreamCallback γ) (tokens : List γ)
    (acts : List StreamAct) : Bool :=
  ((StreamState.machine callback).run (.start tokens) acts).any fun t =>
    t.phase = .ended .normal ∧ t.emitted ≠ tokens

def fullBuffer : List InferenceToken := List.replicate 64 ⟨0, "x", false⟩ ++ [⟨64, "", true⟩]

def overFullBuffer : List BoundaryStreamToken :=
  List.replicate 65 ⟨0, "x", false, 9, 1⟩ ++ [⟨65, "", true, 9, 2⟩]

theorem not_emits_of_endsShort {γ : Type} [DecidableEq γ] {callback : StreamCallback γ}
    {tokens : List γ} {acts : List StreamAct} (hlast : FinalLast callback tokens)
    (hshort : EndsShort callback tokens acts = true) :
    ¬ ∀ tokens acts t, FinalLast callback tokens →
      (StreamState.machine callback).run (.start tokens) acts = some t →
      t.phase = .ended .normal → t.emitted = tokens := by
  intro hall
  rw [EndsShort, Option.any_eq_true] at hshort
  obtain ⟨t, hrun, hended⟩ := hshort
  rw [decide_eq_true_eq] at hended
  exact hended.2 (hall tokens acts t hlast hrun hended.1)

/-- Sixty-four tokens fill the buffer, and the final one is lost; with one more, the trace loses
one that is not final as well. -/
theorem streams_end_short :
    (¬ ∀ tokens acts t, FinalLast onToken tokens →
      (StreamState.machine onToken).run (.start tokens) acts = some t →
      t.phase = .ended .normal → t.emitted = tokens) ∧
    (¬ ∀ tokens acts t, FinalLast onTrace tokens →
      (StreamState.machine onTrace).run (.start tokens) acts = some t →
      t.phase = .ended .normal → t.emitted = tokens) := by
  have htoken : FinalLast onToken fullBuffer := by
    unfold FinalLast
    decide
  have htrace : FinalLast onTrace overFullBuffer := by
    unfold FinalLast
    decide
  have hclient : EndsShort onToken fullBuffer (lateCollector 65) = true := by decide +kernel
  have hboundary : EndsShort onTrace overFullBuffer (lateCollector 66) = true := by
    decide +kernel
  exact ⟨not_emits_of_endsShort htoken hclient, not_emits_of_endsShort htrace hboundary⟩

end Kotlin

end NativeInterop
