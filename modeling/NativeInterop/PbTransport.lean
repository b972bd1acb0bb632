import NativeInterop.PbServerRuns
import Mathlib.Tactic

/-!
# The iOS transport mode and the native server

`PbTransport` records whether connections are to be secure.  `setSecure` stops the
native server and records the new mode, both under a lock; `open` reads the mode under
the lock and starts the server after it has released it.  `Start` and `Stop` of the
server hold its own lock from beginning to end, so of the server only its mode counts
here, and a call of either is one step.
-/

namespace NativeInterop

/-! ## The mode of the native server -/

inductive StartStatus where
  | port
  | invalidArgument
  | internal
  deriving DecidableEq, Repr

/-- `Start`, on the mode of the running server; `fails` says whether something thrown
keeps a stopped server from starting. -/
def nativeStart (server : Option Bool) (requirePq fails : Bool) : Option Bool × StartStatus :=
  match server with
  | some mode => (server, if requirePq ≠ mode then .invalidArgument else .port)
  | none => if fails then (none, .internal) else (some requirePq, .port)

namespace PbFrameServer

def State.mode (s : State) : Option Bool :=
  s.listener.map fun _ => s.requirePq

theorem State.mode_eq {s next : State} (hlistener : next.listener = s.listener)
    (hflag : next.requirePq = s.requirePq) : next.mode = s.mode := by
  rw [mode, mode, hlistener, hflag]

theorem handlerStep_mode {s next : State} {j : ℕ} {c : Connection}
    (hstep : s.handlerStep j c = some next) : next.mode = s.mode := by
  have hfields : next.listener = s.listener ∧ next.requirePq = s.requirePq := by
    unfold State.handlerStep at hstep
    cases hpc : c.pc with
    | publish params =>
        simp only [hpc] at hstep
        split at hstep
        · cases hstep
          exact ⟨rfl, rfl⟩
        · split_ifs at hstep
          all_goals
            cases hstep
            exact ⟨rfl, rfl⟩
        · cases hstep
    | readIdentity provider =>
        simp only [hpc] at hstep
        split at hstep
        all_goals
          cases hstep
          exact ⟨rfl, rfl⟩
    | accepted | readProvider | useCipher | loop | received =>
        simp only [hpc] at hstep
        cases hstep
        exact ⟨rfl, rfl⟩
    | handshake | reading | dispatching | closed =>
        simp only [hpc] at hstep
        cases hstep
  exact State.mode_eq hfields.1 hfields.2

theorem publishNested_mode {s next : State} {j : ℕ} {c : Connection}
    (hstep : s.publishNested j c = some next) : next.mode = s.mode := by
  unfold State.publishNested at hstep
  split at hstep
  · split_ifs at hstep
    all_goals
      cases hstep
      rfl
  · split_ifs at hstep
    all_goals
      cases hstep
      rfl
  · cases hstep

/-- Of a call of `Start` only the publication of the listener changes the mode. -/
theorem startStep_mode {s : State} (hinv : Invariant s) {pc : StartPc} {flags : BitVec 32}
    (hgate : s.gate = .start pc flags) :
    (s.startStep pc flags).mode = s.mode ∨
      (s.startStep pc flags).mode = (nativeStart s.mode (requiresPq flags) false).1 := by
  have hconsistent := hinv.consistent
  simp only [State.Consistent, hgate] at hconsistent
  cases pc with
  | enter =>
      left
      simp only [State.startStep]
      split
      · split_ifs
        · rfl
        · rfl
      · rfl
  | initEngine | createProvider | createIdentity | listen | launch => exact .inl rfl
  | setFlag =>
      left
      simp [State.startStep, State.mode, hconsistent.1]
  | setListener launched =>
      right
      simp [State.startStep, State.mode, nativeStart, hconsistent]
  | setCts launched => exact .inl rfl

theorem stopStep_mode (s : State) (pc : StopPc) (target : Option ℕ) :
    (s.stopStep pc target).mode = s.mode ∨ (s.stopStep pc target).mode = none := by
  cases pc with
  | cancel =>
      left
      unfold State.stopStep
      cases s.cts with
      | none => rfl
      | some i => rfl
  | stopListener =>
      left
      unfold State.stopStep
      cases hlistener : s.listener with
      | none => rfl
      | some i => rfl
  | clearListener => exact .inr rfl
  | dispose | clearCts | clearProvider | clearIdentity | clearPosture => exact .inl rfl

/-- Whatever else the process does, the mode changes as `nativeStart` says, in a call of
`Start`, or to none, in a call of `Stop`. -/
theorem step_mode {s next : State} {action : Action} (hinv : Invariant s)
    (hstep : machine.step s action = some next) :
    next.mode = s.mode ∨
      (∃ pc flags, s.gate = .start pc flags ∧
        next.mode = (nativeStart s.mode (requiresPq flags) false).1) ∨
      (∃ pc target, s.gate = .stop pc target ∧ next.mode = none) := by
  cases action with
  | callStart flags =>
      simp only [machine, PbFrameServer.step] at hstep
      split_ifs at hstep
      cases hstep
      exact .inl rfl
  | startStep =>
      simp only [machine, PbFrameServer.step] at hstep
      split at hstep
      · next pc flags hgate =>
          cases hstep
          exact (startStep_mode hinv hgate).imp_right fun hmode => .inl ⟨pc, flags, hgate, hmode⟩
      · cases hstep
  | startThrow =>
      simp only [machine, PbFrameServer.step] at hstep
      split at hstep
      · split_ifs at hstep
        cases hstep
        exact .inl rfl
      · cases hstep
  | callStop =>
      simp only [machine, PbFrameServer.step] at hstep
      split_ifs at hstep
      cases hstep
      exact .inl rfl
  | stopStep =>
      simp only [machine, PbFrameServer.step] at hstep
      split at hstep
      · next pc target hgate =>
          cases hstep
          exact (stopStep_mode s pc target).imp_right fun hmode => .inr ⟨pc, target, hgate, hmode⟩
      · cases hstep
  | accept owner =>
      simp only [machine, PbFrameServer.step] at hstep
      unfold State.accept at hstep
      split at hstep
      · cases hstep
      · split_ifs at hstep
        cases hstep
        exact .inl rfl
  | handlerStep j =>
      simp only [machine, PbFrameServer.step] at hstep
      split at hstep
      · cases hstep
      · exact .inl (handlerStep_mode hstep)
  | publishNested j =>
      simp only [machine, PbFrameServer.step] at hstep
      split at hstep
      · cases hstep
      · exact .inl (publishNested_mode hstep)
  | outcome j result =>
      simp only [machine, PbFrameServer.step] at hstep
      split at hstep
      · cases hstep
      · obtain ⟨c, -, rfl⟩ := Option.map_eq_some_iff.mp hstep
        exact .inl rfl

/-- A running server answers a start as `nativeStart` says. -/
theorem startStep_enter_result {s : State} {flags : BitVec 32} {launched : ℕ}
    (hlistener : s.listener = some launched) (fails : Bool) :
    (s.startStep .enter flags).results = s.results ++
      [if (nativeStart s.mode (requiresPq flags) fails).2 = .invalidArgument then
        .invalidArgument else .port launched] := by
  by_cases hmode : requiresPq flags = s.requirePq
  · simp [State.startStep, State.mode, nativeStart, State.returns, hlistener, hmode]
  · simp [State.startStep, State.mode, nativeStart, State.returns, hlistener, hmode]

end PbFrameServer

namespace PbTransport

/-! ## Callers of the transport -/

inductive OpenError where
  | serverUnavailable (status : StartStatus)
  | connection
  deriving DecidableEq, Repr

/-- Where a call of `open` or `setSecure` stands.  A call of `setSecure` that has the lock
is described by the lock. -/
inductive Caller where
  | opening
  | starting (wantSecure : Bool)
  | connecting (wantSecure : Bool)
  | switching (enabled : Bool)
  | locked
  | returned
  | threw (error : OpenError)
  deriving DecidableEq, Repr

/-- The lock of the transport; `setSecure` keeps it while it stops the server and until
it has recorded the mode. -/
inductive Lock where
  | free
  | stopping (caller : ℕ) (enabled : Bool)
  | flipping (caller : ℕ) (enabled : Bool)
  deriving DecidableEq, Repr

structure State where
  secure : Bool
  lock : Lock
  server : Option Bool
  callers : List Caller
  deriving DecidableEq, Repr

def State.initial : State := ⟨false, .free, none, []⟩

inductive Action where
  | callOpen
  | callSetSecure (enabled : Bool)
  | readSecure (caller : ℕ)
  | start (caller : ℕ) (fails : Bool)
  | connect (caller : ℕ) (fails : Bool)
  | enter (caller : ℕ)
  | stop
  | flip
  deriving DecidableEq, Repr

def State.setCaller (s : State) (i : ℕ) (caller : Caller) : State :=
  { s with callers := s.callers.set i caller }

/-- What `open` does with the status of the start. -/
def afterStart (wantSecure : Bool) (status : StartStatus) : Caller :=
  match status with
  | .port => .connecting wantSecure
  | status => .threw (.serverUnavailable status)

def step (s : State) (action : Action) : Option State :=
  match action with
  | .callOpen => some { s with callers := s.callers ++ [.opening] }
  | .callSetSecure enabled => some { s with callers := s.callers ++ [.switching enabled] }
  | .readSecure i =>
      match s.lock, s.callers[i]? with
      | .free, some .opening => some (s.setCaller i (.starting s.secure))
      | _, _ => none
  | .start i fails =>
      match s.callers[i]? with
      | some (.starting wantSecure) =>
          let (server, status) := nativeStart s.server wantSecure fails
          some { s.setCaller i (afterStart wantSecure status) with server := server }
      | _ => none
  | .connect i fails =>
      match s.callers[i]? with
      | some (.connecting _) =>
          some (s.setCaller i (if fails then .threw .connection else .returned))
      | _ => none
  | .enter i =>
      match s.lock, s.callers[i]? with
      | .free, some (.switching enabled) =>
          if s.secure ≠ enabled then
            some { s.setCaller i .locked with lock := .stopping i enabled }
          else some (s.setCaller i .returned)
      | _, _ => none
  | .stop =>
      match s.lock with
      | .stopping i enabled => some { s with server := none, lock := .flipping i enabled }
      | _ => none
  | .flip =>
      match s.lock with
      | .flipping i enabled =>
          some { s.setCaller i .returned with secure := enabled, lock := .free }
      | _ => none

def machine : Machine State Action where
  step := step

/-! ## Agreement at rest -/

def Caller.finished : Caller → Bool
  | .returned => true
  | .threw _ => true
  | _ => false

/-- No `open` and no `setSecure` is in progress. -/
def State.AtRest (s : State) : Prop :=
  s.lock = .free ∧ ∀ caller ∈ s.callers, caller.finished = true

instance (s : State) : Decidable s.AtRest := inferInstanceAs (Decidable (_ ∧ _))

/-- The server is stopped or runs in the recorded mode, and does not reject the next
`open`. -/
structure State.Agrees (s : State) : Prop where
  server : s.server = none ∨ s.server = some s.secure
  accepts : ∀ fails, (nativeStart s.server s.secure fails).2 ≠ .invalidArgument

/-- The mode a server started now has to have: the recorded one, or the one a `setSecure`
past its stop is about to record.  A server that is about to be stopped may have any. -/
def State.settled (s : State) : Option Bool :=
  match s.lock with
  | .free => some s.secure
  | .stopping _ _ => none
  | .flipping _ enabled => some enabled

/-- No stopped server is started with a mode that has been superseded since it was read. -/
def State.upToDate (s : State) : Action → Bool
  | .start i _ =>
      match s.callers[i]?, s.server, s.settled with
      | some (.starting wantSecure), none, some mode => wantSecure = mode
      | _, _, _ => true
  | _ => true

def State.Settled (s : State) : Prop :=
  ∀ running mode, s.server = some running → s.settled = some mode → running = mode

theorem settled_initial : State.initial.Settled := by
  intro running mode hserver
  cases hserver

theorem State.Settled.start {s : State} (hsettled : s.Settled) {i : ℕ} {wantSecure fails : Bool}
    (hup : s.server = none → ∀ mode, s.settled = some mode → wantSecure = mode)
    (caller : Caller) :
    State.Settled { s.setCaller i caller with
      server := (nativeStart s.server wantSecure fails).1 } := by
  intro running mode hserver hmode
  change (nativeStart s.server wantSecure fails).1 = some running at hserver
  cases hold : s.server with
  | some old =>
      rw [hold] at hserver
      exact hsettled running mode (hold.trans hserver) hmode
  | none =>
      rw [hold, nativeStart] at hserver
      split_ifs at hserver
      cases hserver
      exact hup hold mode hmode

theorem State.Settled.step {s next : State} {action : Action} (hsettled : s.Settled)
    (hup : s.upToDate action = true) (hstep : machine.step s action = some next) :
    next.Settled := by
  cases action with
  | callOpen =>
      cases hstep
      exact hsettled
  | callSetSecure enabled =>
      cases hstep
      exact hsettled
  | readSecure i =>
      simp only [machine, PbTransport.step] at hstep
      split at hstep
      · cases hstep
        exact hsettled
      · cases hstep
  | start i fails =>
      simp only [machine, PbTransport.step] at hstep
      split at hstep
      · next wantSecure hcaller =>
          cases hstep
          apply hsettled.start
          intro hserver mode hmode
          simpa [State.upToDate, hcaller, hserver, hmode] using hup
      · cases hstep
  | connect i fails =>
      simp only [machine, PbTransport.step] at hstep
      split at hstep
      · cases hstep
        exact hsettled
      · cases hstep
  | enter i =>
      simp only [machine, PbTransport.step] at hstep
      split at hstep
      · next enabled hlock _ =>
          split_ifs at hstep
          · cases hstep
            intro running mode _ hmode
            cases hmode
          · cases hstep
            exact hsettled
      · cases hstep
  | stop =>
      simp only [machine, PbTransport.step] at hstep
      split at hstep
      · cases hstep
        intro running mode hserver
        cases hserver
      · cases hstep
  | flip =>
      simp only [machine, PbTransport.step] at hstep
      split at hstep
      · next i enabled hlock =>
          cases hstep
          intro running mode hserver hmode
          cases hmode
          exact hsettled running enabled hserver (by rw [State.settled, hlock])
      · cases hstep

theorem State.Settled.agrees {s : State} (hsettled : s.Settled) (hrest : s.AtRest) :
    s.Agrees := by
  have hmode : s.settled = some s.secure := by rw [State.settled, hrest.1]
  cases hserver : s.server with
  | none =>
      constructor
      · exact .inl hserver
      · intro fails
        rw [hserver, nativeStart]
        split_ifs <;> simp
  | some running =>
      have heq := hsettled running s.secure hserver hmode
      subst heq
      constructor
      · exact .inr hserver
      · intro fails
        simp [hserver, nativeStart]

/-- As long as no superseded mode starts the server, the server and the transport agree
whenever no call is in progress. -/
theorem agrees_of_upToDate {s : State} {actions : List Action}
    (hrun : machine.run State.initial actions = some s)
    (hup : machine.RunMeets (fun s action => s.upToDate action = true) State.initial actions)
    (hrest : s.AtRest) : s.Agrees := by
  have hsettled : s.Settled :=
    machine.run_invariant (fun _ _ _ hsettled hup hstep => hsettled.step hup hstep)
      settled_initial hup hrun
  exact hsettled.agrees hrest

/-- A connection is opened, the transport is switched, and another is opened. -/
def switchBetween : List Action :=
  [.callOpen, .readSecure 0, .start 0 false, .connect 0 false, .callSetSecure true, .enter 1,
    .stop, .flip, .callOpen, .readSecure 2, .start 2 false, .connect 2 false]

theorem agrees_of_upToDate_switchBetween :
    ∃ s, machine.run State.initial switchBetween = some s ∧
      machine.RunMeets (fun s action => s.upToDate action = true) State.initial switchBetween ∧
      s.AtRest ∧ s.Agrees := by
  have hrun : machine.run State.initial switchBetween =
      some ⟨true, .free, some true, [.returned, .returned, .returned]⟩ := by decide
  have hup : machine.RunMeets (fun s action => s.upToDate action = true) State.initial
      switchBetween := machine.runMeets_of_check (by decide)
  exact ⟨_, hrun, hup, by decide, agrees_of_upToDate hrun hup (by decide)⟩

/-- The switch falls between the read of the mode and the start. -/
def switchInside : List Action :=
  [.callOpen, .readSecure 0, .callSetSecure true, .enter 1, .stop, .flip, .start 0 false,
    .connect 0 false]

theorem not_agrees_switchInside :
    ∃ s, machine.run State.initial switchInside = some s ∧ s.AtRest ∧ s.secure = true ∧
      s.server = some false ∧
      (∀ fails, (nativeStart s.server s.secure fails).2 = .invalidArgument) ∧ ¬ s.Agrees := by
  refine ⟨⟨true, .free, some false, [.returned, .returned]⟩, by decide, by decide, rfl, rfl,
    by decide, ?_⟩
  intro hagrees
  exact hagrees.accepts false rfl

end PbTransport

end NativeInterop
