import NativeInterop.Machine
import NativeInterop.PqSecureChannel
import Mathlib.Tactic

/-!
# Start, Stop and the connection handlers

`PbFrameServer` keeps its listener, its cancellation source, the require-PQ
flag and the per-boot identity in static fields.  `Start` and `Stop` write them
under the lock `Gate`, one field at a time; the handlers of all connections
read them without the lock, at any moment.  One action is one such access, so
the runs of the machine are the interleavings of any number of callers and
connections.
-/

namespace NativeInterop

namespace PbFrameServer

open PqSecureChannel

/-- Bit 0 of the start flags. -/
def requiresPq (flags : BitVec 32) : Bool :=
  flags &&& 1 ≠ 0

structure Instance where
  requirePq : Bool
  listening : Bool
  cancelled : Bool
  deriving DecidableEq, Repr

inductive StartPc where
  | enter
  | initEngine
  | setFlag
  | createProvider
  | createIdentity
  | listen
  | launch
  | setListener (launched : ℕ)
  | setCts (launched : ℕ)
  deriving DecidableEq, Repr

inductive StopPc where
  | cancel
  | stopListener
  | dispose
  | clearListener
  | clearCts
  | clearProvider
  | clearIdentity
  | clearPosture
  deriving DecidableEq, Repr

/-- Who holds `Gate`.  A `Stop` remembers the instance it found. -/
inductive Gate where
  | free
  | start (pc : StartPc) (flags : BitVec 32)
  | stop (pc : StopPc) (target : Option ℕ)
  | publish (connection : ℕ) (checked : Bool)
  deriving DecidableEq, Repr

/-- Where a handler stands.  `received` remembers whether the handshake had
completed and the cipher was attached when the frame was read. -/
inductive HandlerPc where
  | accepted
  | readProvider
  | readIdentity (provider : Option ℕ)
  | handshake (provider identity : ℕ)
  | useCipher (params : PqChannelParams)
  | publish (params : PqChannelParams)
  | loop
  | reading
  | received (completed attached : Bool)
  | dispatching
  | closed
  deriving DecidableEq, Repr

structure Connection where
  owner : ℕ
  pc : HandlerPc
  handshakeCompleted : Bool
  cipherAttached : Bool
  deriving DecidableEq, Repr

/-- A call of `DispatchAsync`, with the state of the connection at the moment
its frame was read. -/
structure Dispatch where
  connection : ℕ
  handshakeCompleted : Bool
  cipherAttached : Bool
  deriving DecidableEq, Repr

structure Posture where
  connection : ℕ
  params : PqChannelParams
  deriving DecidableEq, Repr

inductive StartResult where
  | port (launched : ℕ)
  | invalidArgument
  | threw
  deriving DecidableEq, Repr

structure State where
  gate : Gate
  listener : Option ℕ
  cts : Option ℕ
  requirePq : Bool
  provider : Option ℕ
  identity : Option ℕ
  boots : ℕ
  posture : Option Posture
  instances : List Instance
  connections : List Connection
  dispatched : List Dispatch
  results : List StartResult
  deriving DecidableEq, Repr

def State.initial : State where
  gate := .free
  listener := none
  cts := none
  requirePq := false
  provider := none
  identity := none
  boots := 0
  posture := none
  instances := []
  connections := []
  dispatched := []
  results := []

/-! ## Start and Stop -/

def State.returns (s : State) (result : StartResult) : State :=
  { s with gate := .free, results := s.results ++ [result] }

def State.startStep (s : State) (pc : StartPc) (flags : BitVec 32) : State :=
  match pc with
  | .enter =>
      match s.listener with
      | some launched =>
          if requiresPq flags ≠ s.requirePq then s.returns .invalidArgument
          else s.returns (.port launched)
      | none => { s with gate := .start .initEngine flags }
  | .initEngine => { s with gate := .start .setFlag flags }
  | .setFlag =>
      { s with
        requirePq := requiresPq flags
        gate := .start (if requiresPq flags then .createProvider else .listen) flags }
  | .createProvider =>
      { s with
        provider := some s.boots
        boots := s.boots + 1
        gate := .start .createIdentity flags }
  | .createIdentity =>
      { s with identity := s.provider, gate := .start .listen flags }
  | .listen => { s with gate := .start .launch flags }
  | .launch =>
      { s with
        instances := s.instances ++ [⟨requiresPq flags, true, false⟩]
        gate := .start (.setListener s.instances.length) flags }
  | .setListener launched =>
      { s with listener := some launched, gate := .start (.setCts launched) flags }
  | .setCts launched =>
      { s with cts := some launched }.returns (.port launched)

/-- The calls of `Start` that may throw: the engine's initialization, the
provider, the identity, and the listener. -/
def StartPc.mayThrow : StartPc → Bool
  | .initEngine => true
  | .createProvider => true
  | .createIdentity => true
  | .listen => true
  | _ => false

def State.setInstance (s : State) (i : ℕ) (update : Instance → Instance) : State :=
  { s with instances := s.instances.modify i update }

def State.stopStep (s : State) (pc : StopPc) (target : Option ℕ) : State :=
  match pc with
  | .cancel =>
      let cancelled :=
        match s.cts with
        | none => s
        | some i => s.setInstance i fun inst => { inst with cancelled := true }
      { cancelled with gate := .stop .stopListener target }
  | .stopListener =>
      let stopped :=
        match s.listener with
        | none => s
        | some i => s.setInstance i fun inst => { inst with listening := false }
      { stopped with gate := .stop .dispose target }
  | .dispose => { s with gate := .stop .clearListener target }
  | .clearListener => { s with listener := none, gate := .stop .clearCts target }
  | .clearCts => { s with cts := none, gate := .stop .clearProvider target }
  | .clearProvider =>
      { s with provider := none, gate := .stop .clearIdentity target }
  | .clearIdentity =>
      { s with identity := none, gate := .stop .clearPosture target }
  | .clearPosture => { s with posture := none, gate := .free }

/-! ## The handlers -/

def State.setConnection (s : State) (j : ℕ) (c : Connection) : State :=
  { s with connections := s.connections.set j c }

def State.cancelled (s : State) (i : ℕ) : Bool :=
  match s.instances[i]? with
  | none => false
  | some inst => inst.cancelled

/-- The steps of a handler that depend on nothing but the shared state. -/
def State.handlerStep (s : State) (j : ℕ) (c : Connection) : Option State :=
  match c.pc with
  | .accepted =>
      some (s.setConnection j
        { c with pc := if s.requirePq then .readProvider else .loop })
  | .readProvider =>
      some (s.setConnection j { c with pc := .readIdentity s.provider })
  | .readIdentity provider =>
      match provider, s.identity with
      | some provider, some identity =>
          some (s.setConnection j { c with pc := .handshake provider identity })
      | _, _ => some (s.setConnection j { c with pc := .closed })
  | .useCipher params =>
      some (s.setConnection j
        { c with pc := .publish params, cipherAttached := true })
  | .publish params =>
      match s.gate with
      | .free => some { s with gate := .publish j false }
      | .publish holder checked =>
          if holder = j then
            if checked then
              some { s.setConnection j { c with pc := .loop } with
                posture := some ⟨j, params⟩, gate := .free }
            else if s.cancelled c.owner then
              some { s.setConnection j { c with pc := .loop } with gate := .free }
            else some { s with gate := .publish j true }
          else none
      | _ => none
  | .loop =>
      some (s.setConnection j
        { c with pc := if s.cancelled c.owner then .closed else .reading })
  | .received completed attached =>
      some { s.setConnection j { c with pc := .dispatching } with
        dispatched := s.dispatched ++ [⟨j, completed, attached⟩] }
  | _ => none

/-- `lock` is reentrant: a handler that runs inside `Cancel`, or inside the
first synchronous part of the accept loop, enters it on the holder's thread. -/
def State.publishNested (s : State) (j : ℕ) (c : Connection) : Option State :=
  match c.pc, s.gate with
  | .publish params, .start (.setListener _) _ =>
      if s.cancelled c.owner then some (s.setConnection j { c with pc := .loop })
      else some { s.setConnection j { c with pc := .loop } with
        posture := some ⟨j, params⟩ }
  | .publish params, .stop .stopListener _ =>
      if s.cancelled c.owner then some (s.setConnection j { c with pc := .loop })
      else some { s.setConnection j { c with pc := .loop } with
        posture := some ⟨j, params⟩ }
  | _, _ => none

/-- What the environment decides for a handler: how the handshake ends, what a
read returns, whether the frame parses, how the dispatch ends. -/
inductive Outcome where
  | handshakeCompleted (params : PqChannelParams)
  | handshakeFailed
  | frameRead
  | readEnded
  | malformedFrame
  | dispatchReturned
  | dispatchThrew
  deriving DecidableEq, Repr

def Connection.after (c : Connection) (outcome : Outcome) : Option Connection :=
  match c.pc, outcome with
  | .handshake _ _, .handshakeCompleted params =>
      some { c with pc := .useCipher params, handshakeCompleted := true }
  | .handshake _ _, .handshakeFailed => some { c with pc := .closed }
  | .reading, .frameRead =>
      some { c with pc := .received c.handshakeCompleted c.cipherAttached }
  | .reading, .readEnded => some { c with pc := .closed }
  | .received _ _, .malformedFrame => some { c with pc := .closed }
  | .dispatching, .dispatchReturned => some { c with pc := .loop }
  | .dispatching, .dispatchThrew => some { c with pc := .closed }
  | _, _ => none

inductive Action where
  | callStart (flags : BitVec 32)
  | startStep
  | startThrow
  | callStop
  | stopStep
  | accept (owner : ℕ)
  | handlerStep (connection : ℕ)
  | publishNested (connection : ℕ)
  | outcome (connection : ℕ) (outcome : Outcome)
  deriving DecidableEq, Repr

def State.accept (s : State) (owner : ℕ) : Option State :=
  match s.instances[owner]? with
  | none => none
  | some inst =>
      if inst.listening then
        some { s with connections :=
          s.connections ++ [⟨owner, .accepted, false, false⟩] }
      else none

def step (s : State) (action : Action) : Option State :=
  match action with
  | .callStart flags =>
      if s.gate = .free then some { s with gate := .start .enter flags } else none
  | .startStep =>
      match s.gate with
      | .start pc flags => some (s.startStep pc flags)
      | _ => none
  | .startThrow =>
      match s.gate with
      | .start pc _ => if pc.mayThrow then some (s.returns .threw) else none
      | _ => none
  | .callStop =>
      if s.gate = .free then some { s with gate := .stop .cancel s.cts } else none
  | .stopStep =>
      match s.gate with
      | .stop pc target => some (s.stopStep pc target)
      | _ => none
  | .accept owner => s.accept owner
  | .handlerStep j =>
      match s.connections[j]? with
      | none => none
      | some c => s.handlerStep j c
  | .publishNested j =>
      match s.connections[j]? with
      | none => none
      | some c => s.publishNested j c
  | .outcome j result =>
      match s.connections[j]? with
      | none => none
      | some c => (c.after result).map (s.setConnection j)

def machine : Machine State Action where
  step := step

end PbFrameServer

end NativeInterop
