import NativeInterop.Machine
import Mathlib.Tactic

/-!
# The llama handle, its sessions and its host

`EngineHost` loads one llama handle, hands it to every RAG session through the
orchestrator it caches, and frees it in `Reset`.  A session of any transport
captures the orchestrator when it starts; `LlamaLanguageModel.GenerateAsync` then
runs `dni_llama_generate` on the thread pool, and its iterator leaves as soon as
the token is cancelled, whether or not the native call has returned.

One action is one access to a static field, one completed wait of
`dni_shutdown` or `dni_initialize`, or one step of a session: the scheduling of
the native call, its begin and its end, and every batch it decodes and every
piece it samples in the context of its handle.
-/

namespace NativeInterop

namespace Llama

/-- Who started the session.  The SQLite export runs the orchestrator without a
cancellation token. -/
inductive Transport where
  | ffi
  | http
  | pb
  | sqlite
  deriving DecidableEq, Repr

/-- What a batch left in the memory of a context: the session that decoded it
and its text. -/
structure Kv where
  session : ℕ
  text : String
  deriving DecidableEq, Repr

/-- The native call of a session.  A running call has a batch to decode next, or
has decoded it and samples. -/
inductive NativeCall where
  | absent
  | queued
  | running (batch : Option String)
  | ended
  | dropped
  deriving DecidableEq, Repr

inductive Iterator where
  | retrieving
  | streaming
  | ended
  deriving DecidableEq, Repr

/-- A RAG session; `handle` is absent when the orchestrator it captured runs the
extractive model.  A sample is a piece with the memory it was sampled from. -/
structure Session where
  transport : Transport
  prompt : String
  maxTokens : ℕ
  handle : Option ℕ
  tracked : Bool
  cancelled : Bool
  iterator : Iterator
  call : NativeCall
  samples : List (String × List Kv)
  deriving DecidableEq, Repr

/-- What a session, its pump and its native call do.  `cancel` is
`dni_session_cancel`, the dispose inside `dni_session_free`, or the loss of the
client of a server; `untrack` is the first step of `dni_session_free`. -/
inductive SessionAct where
  | track
  | untrack
  | cancel
  | retrieveFails
  | schedule
  | drop
  | begin
  | decode
  | sample (piece : String)
  | finish
  | abandon
  | complete
  deriving DecidableEq, Repr

inductive Gguf where
  | missing
  | loads
  | loadsThenThrows
  deriving DecidableEq, Repr

/-- A call of `dni_initialize` or `dni_shutdown`, named by what it does next. -/
inductive Thread where
  | initCheck (gguf : Gguf)
  | initEnter (gguf : Gguf)
  | initOrchestrator (gguf : Gguf)
  | initModel (gguf : Gguf)
  | initPublish (model : Option ℕ)
  | initLeave
  | shutdownEnumerate
  | shutdownRemove (ids pending : List ℕ)
  | shutdownAwait (pending : List ℕ)
  | resetEnter
  | resetDispose
  | resetModel
  | resetOrchestrator
  | resetRag
  | resetLeave
  | returned
  deriving DecidableEq, Repr

/-- The static fields, the handles loaded so far, which of them were freed, and
the memory of their contexts. -/
structure Host where
  gate : Option ℕ
  orchestrator : Bool
  ragOrchestrator : Option (Option ℕ)
  ragModelDisposable : Option ℕ
  loaded : ℕ
  freed : List ℕ
  memory : ℕ → List Kv
  sessions : List Session

structure State where
  host : Host
  threads : List Thread

def State.initial : State where
  host := ⟨none, false, none, none, 0, [], fun _ => [], []⟩
  threads := []

inductive Act where
  | initEngine (gguf : Gguf)
  | shutdown
  | advance (thread : ℕ)
  | start (transport : Transport) (prompt : String) (maxTokens : ℕ)
  | session (n : ℕ) (act : SessionAct)
  deriving DecidableEq, Repr

/-! ## One session -/

namespace Session

def create (transport : Transport) (prompt : String) (maxTokens : ℕ)
    (handle : Option ℕ) : Session where
  transport := transport
  prompt := prompt
  maxTokens := maxTokens
  handle := handle
  tracked := false
  cancelled := false
  iterator := .retrieving
  call := .absent
  samples := []

def running (session : Session) : Bool :=
  match session.call with
  | .running _ => true
  | _ => false

/-- The native call is running, or may still begin. -/
def mayGenerate (session : Session) : Bool :=
  match session.call with
  | .running _ => true
  | .queued => !session.cancelled
  | .absent => !session.cancelled && session.iterator = .retrieving
  | .ended => false
  | .dropped => false

/-- One step of the session numbered `n` on the memory of its context: nothing
where the step is not possible.  `Task.Run` does not start a task whose token is
cancelled, and `dni_llama_generate` clears the memory before it decodes. -/
def step (n : ℕ) (memory : List Kv) (session : Session) :
    SessionAct → Option (Session × List Kv)
  | .track =>
      if session.transport = .ffi then some ({ session with tracked := true }, memory)
      else none
  | .untrack => some ({ session with tracked := false }, memory)
  | .cancel =>
      if session.transport = .sqlite then none
      else some ({ session with cancelled := true }, memory)
  | .retrieveFails =>
      if session.iterator = .retrieving then
        some ({ session with iterator := .ended }, memory)
      else none
  | .schedule =>
      if session.iterator = .retrieving ∧ session.call = .absent ∧
          session.handle ≠ none then
        some ({ session with
          iterator := .streaming
          call := if session.cancelled then .dropped else .queued }, memory)
      else none
  | .drop =>
      if session.call = .queued ∧ session.cancelled then
        some ({ session with call := .dropped }, memory)
      else none
  | .begin =>
      if session.call = .queued ∧ session.cancelled = false then
        some ({ session with call := .running (some session.prompt) }, [])
      else none
  | .decode =>
      match session.call with
      | .running (some batch) =>
          if session.samples.length < session.maxTokens then
            some ({ session with call := .running none }, memory ++ [⟨n, batch⟩])
          else none
      | _ => none
  | .sample piece =>
      if session.call = .running none then
        some ({ session with
          call := .running (some piece)
          samples := session.samples ++ [(piece, memory)] }, memory)
      else none
  | .finish =>
      if session.running then some ({ session with call := .ended }, memory) else none
  | .abandon =>
      if session.iterator = .streaming ∧ session.cancelled then
        some ({ session with iterator := .ended }, memory)
      else none
  | .complete =>
      if session.call = .ended ∨ session.handle = none then
        some ({ session with iterator := .ended }, memory)
      else none

end Session

/-! ## The host -/

namespace Host

def modifySession (host : Host) (n : ℕ) (update : Session → Session) : Host :=
  { host with sessions := host.sessions.modify n update }

def tracks (host : Host) (n : ℕ) : Bool :=
  (host.sessions[n]?).any fun session => session.tracked

def trackedSessions (host : Host) : List ℕ :=
  (List.range host.sessions.length).filter host.tracks

def pumpDone (host : Host) (n : ℕ) : Bool :=
  (host.sessions[n]?).any fun session => session.iterator = .ended

/-- `RemoveAsync` up to its first wait. -/
def dispose (session : Session) : Session :=
  { session with tracked := false, cancelled := true }

/-- `new LlamaLanguageModel(gguf)`, kept for `Reset`. -/
def load (host : Host) : Host :=
  { host with loaded := host.loaded + 1, ragModelDisposable := some host.loaded }

def free (host : Host) (handle : ℕ) : Host :=
  { host with freed := host.freed ++ [handle] }

/-- The next step of the call that is thread `i`. -/
def advance (host : Host) (i : ℕ) : Thread → Option (Host × Thread)
  | .initCheck gguf =>
      if host.orchestrator ∧ host.ragOrchestrator ≠ none then some (host, .returned)
      else some (host, .initEnter gguf)
  | .initEnter gguf =>
      if host.gate = none then some ({ host with gate := some i }, .initOrchestrator gguf)
      else none
  | .initOrchestrator gguf =>
      some ({ host with orchestrator := true }, .initModel gguf)
  | .initModel gguf =>
      if host.ragOrchestrator ≠ none then some (host, .initLeave)
      else
        match gguf with
        | .missing => some (host, .initPublish none)
        | .loads => some (host.load, .initPublish (some host.loaded))
        | .loadsThenThrows => some (host.load, .initPublish none)
  | .initPublish model =>
      some ({ host with ragOrchestrator := some model }, .initLeave)
  | .initLeave => some ({ host with gate := none }, .returned)
  | .shutdownEnumerate => some (host, .shutdownRemove host.trackedSessions [])
  | .shutdownRemove [] pending => some (host, .shutdownAwait pending)
  | .shutdownRemove (n :: rest) pending =>
      if host.tracks n then
        some (host.modifySession n dispose, .shutdownRemove rest (pending ++ [n]))
      else some (host, .shutdownRemove rest pending)
  | .shutdownAwait [] => some (host, .resetEnter)
  | .shutdownAwait (n :: pending) =>
      if host.pumpDone n then some (host, .shutdownAwait pending) else none
  | .resetEnter =>
      if host.gate = none then some ({ host with gate := some i }, .resetDispose)
      else none
  | .resetDispose =>
      match host.ragModelDisposable with
      | none => some (host, .resetModel)
      | some handle => some (host.free handle, .resetModel)
  | .resetModel => some ({ host with ragModelDisposable := none }, .resetOrchestrator)
  | .resetOrchestrator => some ({ host with orchestrator := false }, .resetRag)
  | .resetRag => some ({ host with ragOrchestrator := none }, .resetLeave)
  | .resetLeave => some ({ host with gate := none }, .returned)
  | .returned => none

/-- A session start: reading `RagOrchestrator` throws where it is null. -/
def start (host : Host) (transport : Transport) (prompt : String) (maxTokens : ℕ) :
    Option Host :=
  host.ragOrchestrator.map fun model =>
    { host with
      sessions := host.sessions ++ [.create transport prompt maxTokens model] }

def memoryOf (host : Host) (handle : Option ℕ) : List Kv :=
  handle.elim [] host.memory

def setMemory (host : Host) (handle : Option ℕ) (memory : List Kv) : Host :=
  { host with
    memory := handle.elim host.memory fun h => Function.update host.memory h memory }

def stepSession (host : Host) (n : ℕ) (act : SessionAct) : Option Host :=
  (host.sessions[n]?).bind fun session =>
    (session.step n (host.memoryOf session.handle) act).map fun (next, memory) =>
      { host.setMemory session.handle memory with sessions := host.sessions.set n next }

end Host

def step (s : State) : Act → Option State
  | .initEngine gguf => some { s with threads := s.threads ++ [.initCheck gguf] }
  | .shutdown => some { s with threads := s.threads ++ [.shutdownEnumerate] }
  | .advance i =>
      (s.threads[i]?).bind fun thread =>
        (s.host.advance i thread).map fun (host, next) => ⟨host, s.threads.set i next⟩
  | .start transport prompt maxTokens =>
      (s.host.start transport prompt maxTokens).map fun host => { s with host := host }
  | .session n act => (s.host.stepSession n act).map fun host => { s with host := host }

def machine : Machine State Act := ⟨step⟩

end Llama

end NativeInterop
