import NativeInterop.PbTransport
import Mathlib.Tactic

/-!
# The Android transport mode and the native server

`PbTransport` of the Android host keeps the mode, the port of the server and one connection
that all requests share.  All of it is used behind one mutex: `setSecure` closes the connection,
stops the server and records the new mode; a request opens the connection on demand, which
starts the server, and is tried once more after an `IOException`.  A cancelled coroutine runs
its block on the IO dispatcher to the end and goes no further, so that a cancelled `setSecure`
may have stopped the server without recording anything.
-/

namespace NativeInterop

namespace KotlinPbTransport

/-- A server that runs.  Every start binds a port of its own. -/
structure Server where
  port : ℕ
  requirePq : Bool
  deriving DecidableEq, Repr

/-- A connection the host has opened.  It is published when the server is through with its
handshake. -/
structure Connection where
  port : ℕ
  secure : Bool
  published : Bool := false
  deriving DecidableEq, Repr

/-- The transport object, the native server and the posture it publishes.  A connection is
named by its index. -/
structure Transport where
  secureMode : Bool
  port : Option ℕ
  shared : Option ℕ
  lastParams : Option ℕ
  connections : List Connection
  server : Option Server
  ports : ℕ
  posture : Option ℕ
  deriving DecidableEq, Repr

def Transport.initial : Transport := ⟨false, none, none, none, [], none, 0, none⟩

inductive Call where
  | setSecure (value : Bool)
  | withConnection
  | openConnection
  deriving DecidableEq, Repr

inductive Request where
  | shared (retried : Bool)
  | dedicated
  deriving DecidableEq, Repr

/-- Where the call that has the mutex stands. -/
inductive Pc where
  | comparing (value : Bool)
  | closing (value : Bool)
  | stopping (value : Bool)
  | recording (value : Bool)
  | ensuring (request : Request)
  | starting (request : Request)
  | connecting (port : ℕ) (request : Request)
  | requesting (connection : ℕ) (retried : Bool)
  deriving DecidableEq, Repr

def Call.entry : Call → Pc
  | .setSecure value => .comparing value
  | .withConnection => .ensuring (.shared false)
  | .openConnection => .starting .dedicated

/-- The block on the IO dispatcher has yet to begin, so that a cancelled caller may throw
before it does. -/
def Pc.atBlock : Pc → Bool
  | .closing _ => true
  | .ensuring (.shared false) => true
  | .starting .dedicated => true
  | _ => false

inductive Progress where
  | at (pc : Pc)
  | ended (ok : Bool)
  deriving DecidableEq, Repr

/-- How the native call, the connect or the exchange of a step goes: it returns, throws an
`IOException`, or throws something else. -/
inductive Answer where
  | ok
  | io
  | other
  deriving DecidableEq, Repr

namespace Transport

/-! ## One call, step by step -/

/-- `nativePbStart`, and the port it returns: that of the running server, or a new one. -/
def startServer (t : Transport) (fails : Bool) : Option (Transport × ℕ) :=
  match nativeStart (t.server.map Server.requirePq) t.secureMode fails with
  | (_, .port) =>
      match t.server with
      | some server => some ({ t with port := some server.port }, server.port)
      | none => some ({ t with
          port := some t.ports
          server := some ⟨t.ports, t.secureMode⟩
          ports := t.ports + 1 }, t.ports)
  | _ => none

/-- `PbConnection.open` can return: the server is there, and completes the handshake of a
secure connection. -/
def accepts (t : Transport) (port : ℕ) : Bool :=
  match t.server with
  | some server => server.port = port && (!t.secureMode || server.requirePq)
  | none => false

def connect (t : Transport) (port : ℕ) : Transport :=
  { t with
    connections := t.connections ++ [⟨port, t.secureMode, false⟩]
    lastParams := if t.secureMode then some t.connections.length else t.lastParams }

/-- The server of a connection is there and speaks its mode; it reads no request before its
side of the handshake is through. -/
def answers (t : Transport) (connection : ℕ) : Bool :=
  match t.connections[connection]?, t.server with
  | some c, some server =>
      server.port = c.port && c.secure = server.requirePq && (!c.secure || c.published)
  | _, _ => false

/-- `catch (e: IOException)`. -/
def catchIo (t : Transport) : Request → Transport × Progress
  | .shared false => ({ t with shared := none }, .at (.ensuring (.shared true)))
  | _ => (t, .ended false)

/-- The step of a call that is not kept from its block. -/
def proceed (t : Transport) (cancelled : Bool) (answer : Answer) :
    Pc → Option (Transport × Progress)
  | .comparing value =>
      if value = t.secureMode then some (t, .ended true)
      else if cancelled then some (t, .ended false)
      else some (t, .at (.closing value))
  | .closing value => some ({ t with shared := none }, .at (.stopping value))
  | .stopping value =>
      some ({ t with server := none, posture := none }, .at (.recording value))
  | .recording value =>
      if cancelled then some (t, .ended false)
      else some ({ t with port := none, secureMode := value, lastParams := none }, .ended true)
  | .ensuring request =>
      match request, t.shared with
      | .shared retried, some connection => some (t, .at (.requesting connection retried))
      | _, _ => some (t, .at (.starting request))
  | .starting request =>
      match t.port with
      | some port => some (t, .at (.connecting port request))
      | none =>
          match t.startServer (answer ≠ .ok) with
          | some (started, port) => some (started, .at (.connecting port request))
          | none => some (t, .ended false)
  | .connecting port request =>
      match answer, request with
      | .ok, .shared retried =>
          if t.accepts port then
            some ({ t.connect port with shared := some t.connections.length },
              .at (.requesting t.connections.length retried))
          else none
      | .ok, .dedicated => if t.accepts port then some (t.connect port, .ended true) else none
      | .io, _ => some (t.catchIo request)
      | .other, _ => some (t, .ended false)
  | .requesting connection retried =>
      match answer with
      | .ok => if t.answers connection then some (t, .ended true) else none
      | .io => some (t.catchIo (.shared retried))
      | .other => some (t, .ended false)

def advance (t : Transport) (cancelled : Bool) (answer : Answer) (pc : Pc) :
    Option (Transport × Progress) :=
  if cancelled ∧ pc.atBlock = true ∧ answer = .other then some (t, .ended false)
  else t.proceed cancelled answer pc

/-- The server completes the handshake of a secure connection and publishes its parameters;
a `Stop` that comes first keeps it from doing so. -/
def publish (t : Transport) (connection : ℕ) : Option Transport :=
  match t.connections[connection]?, t.server with
  | some c, some server =>
      if server.port = c.port ∧ server.requirePq = true ∧ c.secure = true then
        some { t with
          connections := t.connections.set connection { c with published := true }
          posture := some connection }
      else none
  | _, _ => none

end Transport

/-! ## The mutex -/

structure Holder where
  pc : Pc
  cancelled : Bool := false
  deriving DecidableEq, Repr

structure State where
  transport : Transport
  holder : Option Holder
  deriving DecidableEq, Repr

def State.initial : State := ⟨.initial, none⟩

/-- A caller gets the mutex, its call moves on or is cancelled, or the server publishes. -/
inductive Action where
  | enter (call : Call)
  | advance (answer : Answer)
  | cancel
  | publish (connection : ℕ)
  deriving DecidableEq, Repr

def Action.switches : Action → Bool
  | .enter (.setSecure _) => true
  | _ => false

/-- The next state, and how the call that has the mutex has ended if it has. -/
def step (s : State) : Action → Option (State × Option Bool)
  | .enter call =>
      match s.holder with
      | none => some ({ s with holder := some ⟨call.entry, false⟩ }, none)
      | some _ => none
  | .advance answer =>
      match s.holder with
      | none => none
      | some holder =>
          match s.transport.advance holder.cancelled answer holder.pc with
          | none => none
          | some (next, .at pc) => some (⟨next, some { holder with pc := pc }⟩, none)
          | some (next, .ended ok) => some (⟨next, none⟩, some ok)
  | .cancel =>
      match s.holder with
      | none => none
      | some holder => some ({ s with holder := some { holder with cancelled := true } }, none)
  | .publish connection =>
      match s.transport.publish connection with
      | none => none
      | some next => some ({ s with transport := next }, none)

def machine : Machine State Action where
  step s action := (step s action).map Prod.fst

/-! ## What is consistent -/

/-- The server runs in the recorded mode on the recorded port, every connection to it speaks its
mode, and the posture reports a channel of it as soon as there is one. -/
structure Transport.Consistent (t : Transport) : Prop where
  port_lt : ∀ port, t.port = some port → port < t.ports
  connection_lt : ∀ c ∈ t.connections, c.port < t.ports
  running : ∀ server, t.server = some server →
    server.requirePq = t.secureMode ∧ t.port = some server.port
  mode : ∀ c ∈ t.connections, ∀ server, t.server = some server → server.port = c.port →
    c.secure = server.requirePq
  reported : ∀ i, t.posture = some i → ∃ c server, t.connections[i]? = some c ∧
    c.published = true ∧ t.server = some server ∧ server.port = c.port ∧ server.requirePq = true
  published : ∀ c ∈ t.connections, c.published = true → ∀ server, t.server = some server →
    server.port = c.port → t.posture ≠ none
  shared : ∀ i, t.shared = some i → ∃ c, t.connections[i]? = some c ∧ t.port = some c.port

namespace Transport

variable {t : Transport}

theorem consistent_initial : Transport.initial.Consistent := by
  constructor <;> simp [Transport.initial]

theorem Consistent.closeShared (hconsistent : t.Consistent) :
    Consistent { t with shared := none } where
  port_lt := hconsistent.port_lt
  connection_lt := hconsistent.connection_lt
  running := hconsistent.running
  mode := hconsistent.mode
  reported := hconsistent.reported
  published := hconsistent.published
  shared := nofun

theorem Consistent.stop (hconsistent : t.Consistent) :
    Consistent { t with server := none, posture := none } where
  port_lt := hconsistent.port_lt
  connection_lt := hconsistent.connection_lt
  running := nofun
  mode := nofun
  reported := nofun
  published := nofun
  shared := hconsistent.shared

theorem Consistent.posture_eq_none (hconsistent : t.Consistent) (hserver : t.server = none) :
    t.posture = none := by
  cases hposture : t.posture with
  | none => rfl
  | some i =>
      obtain ⟨c, server, -, -, hrunning, -⟩ := hconsistent.reported i hposture
      rw [hserver] at hrunning
      cases hrunning

theorem Consistent.record (hconsistent : t.Consistent) (hserver : t.server = none)
    (hshared : t.shared = none) (value : Bool) :
    Consistent { t with port := none, secureMode := value, lastParams := none } := by
  constructor
  · exact nofun
  · exact hconsistent.connection_lt
  · simp [hserver]
  · simp [hserver]
  · simp [hconsistent.posture_eq_none hserver]
  · simp [hserver]
  · simp [hshared]

theorem Consistent.server_eq_none (hconsistent : t.Consistent) (hport : t.port = none) :
    t.server = none := by
  cases hserver : t.server with
  | none => rfl
  | some server =>
      have hrunning := (hconsistent.running server hserver).2
      rw [hport] at hrunning
      cases hrunning

theorem Consistent.shared_eq_none (hconsistent : t.Consistent) (hport : t.port = none) :
    t.shared = none := by
  cases hshared : t.shared with
  | none => rfl
  | some i =>
      obtain ⟨c, -, hc⟩ := hconsistent.shared i hshared
      rw [hport] at hc
      cases hc

theorem Consistent.start (hconsistent : t.Consistent) (hport : t.port = none) :
    Consistent { t with
      port := some t.ports
      server := some ⟨t.ports, t.secureMode⟩
      ports := t.ports + 1 } := by
  have hserver := hconsistent.server_eq_none hport
  have hfresh : ∀ c ∈ t.connections, t.ports ≠ c.port :=
    fun c hmem => (hconsistent.connection_lt c hmem).ne'
  constructor
  · rintro port ⟨⟩
    exact Nat.lt_succ_self _
  · exact fun c hmem => (hconsistent.connection_lt c hmem).trans (Nat.lt_succ_self _)
  · rintro server ⟨⟩
    exact ⟨rfl, rfl⟩
  · rintro c hmem server ⟨⟩ hsame
    exact absurd hsame (hfresh c hmem)
  · simp [hconsistent.posture_eq_none hserver]
  · rintro c hmem - server ⟨⟩ hsame
    exact absurd hsame (hfresh c hmem)
  · simp [hconsistent.shared_eq_none hport]

theorem getElem?_connect {i : ℕ} {c : Connection} (hget : t.connections[i]? = some c)
    (port : ℕ) : (t.connect port).connections[i]? = some c := by
  rw [connect, List.getElem?_append_left (List.getElem?_eq_some_iff.mp hget).1]
  exact hget

theorem Consistent.connect (hconsistent : t.Consistent) {port : ℕ} (hport : t.port = some port) :
    (t.connect port).Consistent := by
  constructor
  · exact hconsistent.port_lt
  · intro c hmem
    rcases List.mem_append.mp hmem with hold | hnew
    · exact hconsistent.connection_lt c hold
    · rw [List.mem_singleton.mp hnew]
      exact hconsistent.port_lt port hport
  · exact hconsistent.running
  · intro c hmem server hserver hsame
    rcases List.mem_append.mp hmem with hold | hnew
    · exact hconsistent.mode c hold server hserver hsame
    · rw [List.mem_singleton.mp hnew]
      exact (hconsistent.running server hserver).1.symm
  · intro i hposture
    obtain ⟨c, server, hget, hrest⟩ := hconsistent.reported i hposture
    exact ⟨c, server, getElem?_connect hget port, hrest⟩
  · intro c hmem hpublished
    rcases List.mem_append.mp hmem with hold | hnew
    · exact hconsistent.published c hold hpublished
    · rw [List.mem_singleton.mp hnew] at hpublished
      cases hpublished
  · intro i hshared
    obtain ⟨c, hget, hc⟩ := hconsistent.shared i hshared
    exact ⟨c, getElem?_connect hget port, hc⟩

theorem Consistent.share (hconsistent : t.Consistent) {i : ℕ} {c : Connection}
    (hget : t.connections[i]? = some c) (hport : t.port = some c.port) :
    Consistent { t with shared := some i } where
  port_lt := hconsistent.port_lt
  connection_lt := hconsistent.connection_lt
  running := hconsistent.running
  mode := hconsistent.mode
  reported := hconsistent.reported
  published := hconsistent.published
  shared := by
    rintro j ⟨⟩
    exact ⟨c, hget, hport⟩

theorem publish_eq_some {i : ℕ} {next : Transport} (hnext : t.publish i = some next) :
    ∃ c server, t.connections[i]? = some c ∧ t.server = some server ∧ server.port = c.port ∧
      server.requirePq = true ∧ c.secure = true ∧
      next = { t with
        connections := t.connections.set i { c with published := true }
        posture := some i } := by
  unfold publish at hnext
  split at hnext
  · next c server hget hserver =>
      split_ifs at hnext with hfits
      exact ⟨c, server, hget, hserver, hfits.1, hfits.2.1, hfits.2.2, (Option.some.inj hnext).symm⟩
  · cases hnext

theorem Consistent.publish (hconsistent : t.Consistent) {i : ℕ} {next : Transport}
    (hnext : t.publish i = some next) : next.Consistent := by
  obtain ⟨c, server, hget, hserver, hport, hpq, hsecure, rfl⟩ := publish_eq_some hnext
  have hlt := (List.getElem?_eq_some_iff.mp hget).1
  constructor
  · exact hconsistent.port_lt
  · intro d hmem
    rcases List.mem_or_eq_of_mem_set hmem with hold | rfl
    · exact hconsistent.connection_lt d hold
    · exact hconsistent.connection_lt c (List.mem_of_getElem? hget)
  · exact hconsistent.running
  · intro d hmem
    rcases List.mem_or_eq_of_mem_set hmem with hold | rfl
    · exact hconsistent.mode d hold
    · exact hconsistent.mode c (List.mem_of_getElem? hget)
  · rintro j ⟨⟩
    exact ⟨_, server, List.getElem?_set_self hlt, rfl, hserver, hport, hpq⟩
  · exact fun _ _ _ _ _ _ => nofun
  · intro j hshared
    obtain ⟨d, hd, hdport⟩ := hconsistent.shared j hshared
    rcases eq_or_ne i j with rfl | hne
    · rw [hget] at hd
      cases hd
      exact ⟨_, List.getElem?_set_self hlt, hdport⟩
    · exact ⟨d, by rwa [List.getElem?_set_ne hne], hdport⟩

end Transport

/-! ## What holds where a call stands -/

def Request.usesShared : Request → Bool
  | .shared _ => true
  | .dedicated => false

def Pc.Holds (t : Transport) : Pc → Prop
  | .comparing _ => True
  | .closing value => value ≠ t.secureMode
  | .stopping value => value ≠ t.secureMode ∧ t.shared = none
  | .recording value => value ≠ t.secureMode ∧ t.shared = none ∧ t.server = none
  | .ensuring _ => True
  | .starting request => request.usesShared = true → t.shared = none
  | .connecting port request =>
      t.port = some port ∧ (request.usesShared = true → t.shared = none)
  | .requesting connection _ => t.shared = some connection

def Progress.Holds (t : Transport) : Progress → Prop
  | .at pc => pc.Holds t
  | .ended _ => True

namespace Transport

variable {t : Transport}

theorem startServer_eq {port : ℕ} {next : Transport} {fails : Bool} (hserver : t.server = none)
    (hnext : t.startServer fails = some (next, port)) :
    port = t.ports ∧ next = { t with
      port := some t.ports
      server := some ⟨t.ports, t.secureMode⟩
      ports := t.ports + 1 } := by
  simp only [startServer, hserver, Option.map_none, nativeStart] at hnext
  split_ifs at hnext
  cases hnext
  exact ⟨rfl, rfl⟩

theorem Consistent.catchIo (hconsistent : t.Consistent) {request : Request} {next : Transport}
    {progress : Progress} (hnext : t.catchIo request = (next, progress)) :
    next.Consistent ∧ progress.Holds next := by
  unfold Transport.catchIo at hnext
  split at hnext
  · cases hnext
    exact ⟨hconsistent.closeShared, trivial⟩
  · cases hnext
    exact ⟨hconsistent, trivial⟩

theorem Consistent.proceed (hconsistent : t.Consistent) {cancelled : Bool} {answer : Answer}
    {pc : Pc} (hpc : pc.Holds t) {next : Transport} {progress : Progress}
    (hnext : t.proceed cancelled answer pc = some (next, progress)) :
    next.Consistent ∧ progress.Holds next := by
  cases pc with
  | comparing value =>
      simp only [Transport.proceed] at hnext
      split_ifs at hnext with hsame hcancelled
      · cases hnext
        exact ⟨hconsistent, trivial⟩
      · cases hnext
        exact ⟨hconsistent, trivial⟩
      · cases hnext
        exact ⟨hconsistent, hsame⟩
  | closing value =>
      cases hnext
      exact ⟨hconsistent.closeShared, hpc, rfl⟩
  | stopping value =>
      cases hnext
      exact ⟨hconsistent.stop, hpc.1, hpc.2, rfl⟩
  | recording value =>
      simp only [Transport.proceed] at hnext
      split_ifs at hnext with hcancelled
      · cases hnext
        exact ⟨hconsistent, trivial⟩
      · cases hnext
        exact ⟨hconsistent.record hpc.2.2 hpc.2.1 value, trivial⟩
  | ensuring request =>
      cases request with
      | dedicated =>
          cases hnext
          exact ⟨hconsistent, nofun⟩
      | shared retried =>
          cases hshared : t.shared with
          | none =>
              simp only [Transport.proceed, hshared] at hnext
              cases hnext
              exact ⟨hconsistent, fun _ => hshared⟩
          | some i =>
              simp only [Transport.proceed, hshared] at hnext
              cases hnext
              exact ⟨hconsistent, hshared⟩
  | starting request =>
      simp only [Transport.proceed] at hnext
      split at hnext
      · next port hport =>
          cases hnext
          exact ⟨hconsistent, hport, hpc⟩
      · next hport =>
          split at hnext
          · next started port hstarted =>
              cases hnext
              obtain ⟨rfl, rfl⟩ := startServer_eq (hconsistent.server_eq_none hport) hstarted
              exact ⟨hconsistent.start hport, rfl, fun _ => hconsistent.shared_eq_none hport⟩
          · cases hnext
            exact ⟨hconsistent, trivial⟩
  | connecting port request =>
      obtain ⟨hport, -⟩ := hpc
      simp only [Transport.proceed] at hnext
      split at hnext
      · split_ifs at hnext
        cases hnext
        have hget : (t.connect port).connections[t.connections.length]? =
            some ⟨port, t.secureMode, false⟩ := List.getElem?_concat_length
        exact ⟨(hconsistent.connect hport).share hget hport, rfl⟩
      · split_ifs at hnext
        cases hnext
        exact ⟨hconsistent.connect hport, trivial⟩
      · exact hconsistent.catchIo (Option.some.inj hnext)
      · cases hnext
        exact ⟨hconsistent, trivial⟩
  | requesting connection retried =>
      simp only [Transport.proceed] at hnext
      split at hnext
      · split_ifs at hnext
        cases hnext
        exact ⟨hconsistent, trivial⟩
      · exact hconsistent.catchIo (Option.some.inj hnext)
      · cases hnext
        exact ⟨hconsistent, trivial⟩

theorem advance_eq_some {cancelled : Bool} {answer : Answer} {pc : Pc} {next : Transport}
    {progress : Progress} (hnext : t.advance cancelled answer pc = some (next, progress)) :
    (next = t ∧ progress = .ended false) ∨
      t.proceed cancelled answer pc = some (next, progress) := by
  unfold advance at hnext
  split_ifs at hnext
  · cases hnext
    exact .inl ⟨rfl, rfl⟩
  · exact .inr hnext

theorem Consistent.advance (hconsistent : t.Consistent) {cancelled : Bool} {answer : Answer}
    {pc : Pc} (hpc : pc.Holds t) {next : Transport} {progress : Progress}
    (hnext : t.advance cancelled answer pc = some (next, progress)) :
    next.Consistent ∧ progress.Holds next := by
  rcases advance_eq_some hnext with ⟨rfl, rfl⟩ | hproceed
  · exact ⟨hconsistent, trivial⟩
  · exact hconsistent.proceed hpc hproceed

end Transport

theorem Pc.Holds.publish {t next : Transport} {pc : Pc} (hpc : pc.Holds t) {i : ℕ}
    (hnext : t.publish i = some next) : pc.Holds next := by
  obtain ⟨c, server, -, -, -, -, -, rfl⟩ := Transport.publish_eq_some hnext
  cases pc <;> exact hpc

structure State.Invariant (s : State) : Prop where
  consistent : s.transport.Consistent
  holds : ∀ holder, s.holder = some holder → holder.pc.Holds s.transport

theorem invariant_initial : State.initial.Invariant :=
  ⟨Transport.consistent_initial, nofun⟩

/-! ## Steps -/

theorem step_enter_eq_some {s : State} {call : Call} {result : State × Option Bool}
    (hstep : step s (.enter call) = some result) :
    s.holder = none ∧ result = (⟨s.transport, some ⟨call.entry, false⟩⟩, none) := by
  simp only [step] at hstep
  split at hstep
  · next hfree =>
      cases hstep
      exact ⟨hfree, rfl⟩
  · cases hstep

theorem step_cancel_eq_some {s : State} {result : State × Option Bool}
    (hstep : step s .cancel = some result) :
    ∃ holder, s.holder = some holder ∧
      result = (⟨s.transport, some { holder with cancelled := true }⟩, none) := by
  simp only [step] at hstep
  split at hstep
  · cases hstep
  · next holder hheld =>
      cases hstep
      exact ⟨holder, hheld, rfl⟩

theorem step_publish_eq_some {s : State} {i : ℕ} {result : State × Option Bool}
    (hstep : step s (.publish i) = some result) :
    ∃ next, s.transport.publish i = some next ∧ result = (⟨next, s.holder⟩, none) := by
  simp only [step] at hstep
  split at hstep
  · cases hstep
  · next next hnext =>
      cases hstep
      exact ⟨next, hnext, rfl⟩

/-- A call moves on and keeps the mutex, or ends and leaves it. -/
theorem step_advance_eq_some {s : State} {answer : Answer} {result : State × Option Bool}
    (hstep : step s (.advance answer) = some result) :
    ∃ holder next, s.holder = some holder ∧
      ((∃ pc, s.transport.advance holder.cancelled answer holder.pc = some (next, .at pc) ∧
          result = (⟨next, some { holder with pc := pc }⟩, none)) ∨
        ∃ ok, s.transport.advance holder.cancelled answer holder.pc = some (next, .ended ok) ∧
          result = (⟨next, none⟩, some ok)) := by
  simp only [step] at hstep
  split at hstep
  · cases hstep
  · next holder hheld =>
      split at hstep
      · cases hstep
      · next next pc hnext =>
          cases hstep
          exact ⟨holder, next, hheld, .inl ⟨pc, hnext, rfl⟩⟩
      · next next ok hnext =>
          cases hstep
          exact ⟨holder, next, hheld, .inr ⟨ok, hnext, rfl⟩⟩

theorem step_at {s : State} {holder : Holder} (hheld : s.holder = some holder) {answer : Answer}
    {next : Transport} {pc : Pc}
    (hnext : s.transport.advance holder.cancelled answer holder.pc = some (next, .at pc)) :
    step s (.advance answer) = some (⟨next, some { holder with pc := pc }⟩, none) := by
  simp only [step, hheld, hnext]

theorem step_ended {s : State} {holder : Holder} (hheld : s.holder = some holder)
    {answer : Answer} {next : Transport} {ok : Bool}
    (hnext : s.transport.advance holder.cancelled answer holder.pc = some (next, .ended ok)) :
    step s (.advance answer) = some (⟨next, none⟩, some ok) := by
  simp only [step, hheld, hnext]

theorem State.Invariant.afterStep {s : State} {action : Action} {result : State × Option Bool}
    (hinv : s.Invariant) (hstep : step s action = some result) : result.1.Invariant := by
  cases action with
  | enter call =>
      obtain ⟨-, rfl⟩ := step_enter_eq_some hstep
      refine ⟨hinv.consistent, ?_⟩
      rintro holder ⟨⟩
      cases call with
      | setSecure value => trivial
      | withConnection => trivial
      | openConnection => exact nofun
  | advance answer =>
      obtain ⟨holder, next, hheld, ⟨pc, hnext, rfl⟩ | ⟨ok, hnext, rfl⟩⟩ :=
        step_advance_eq_some hstep
      · have hadvance := hinv.consistent.advance (hinv.holds holder hheld) hnext
        refine ⟨hadvance.1, ?_⟩
        rintro moved ⟨⟩
        exact hadvance.2
      · exact ⟨(hinv.consistent.advance (hinv.holds holder hheld) hnext).1, nofun⟩
  | cancel =>
      obtain ⟨holder, hheld, rfl⟩ := step_cancel_eq_some hstep
      refine ⟨hinv.consistent, ?_⟩
      rintro cancelled ⟨⟩
      exact hinv.holds holder hheld
  | publish i =>
      obtain ⟨next, hnext, rfl⟩ := step_publish_eq_some hstep
      exact ⟨hinv.consistent.publish hnext,
        fun holder hheld => (hinv.holds holder hheld).publish hnext⟩

theorem machine_step_eq_some {s next : State} {action : Action}
    (hstep : machine.step s action = some next) : ∃ ended, step s action = some (next, ended) := by
  obtain ⟨⟨_, ended⟩, hsome, rfl⟩ := Option.map_eq_some_iff.mp hstep
  exact ⟨ended, hsome⟩

theorem invariant_of_run {s : State} {actions : List Action}
    (hrun : machine.run State.initial actions = some s) : s.Invariant := by
  refine machine.run_invariant_of_step (I := State.Invariant) ?_ invariant_initial hrun
  intro _ _ _ hinv hstep
  obtain ⟨ended, hsome⟩ := machine_step_eq_some hstep
  exact hinv.afterStep hsome

/-! ## Agreement -/

/-- A request on a server started for it, a switch, a request over a secure connection, and a
switch that is cancelled before the mutex is free again. -/
def switchTwice : List Action :=
  [.enter .withConnection, .advance .ok, .advance .ok, .advance .ok, .advance .ok,
    .enter (.setSecure true), .advance .ok, .advance .ok, .advance .ok, .advance .ok,
    .enter .withConnection, .advance .ok, .advance .ok, .advance .ok, .publish 1, .advance .ok,
    .enter (.setSecure false), .advance .ok, .cancel, .advance .ok, .advance .ok, .advance .ok]

/-- At every moment of every run a running server is in the recorded mode and on the recorded
port, no start is rejected, every connection to the server speaks its mode, and the posture
reports a channel exactly if a connection of the server has completed its handshake. -/
theorem mode_agrees {s : State} {actions : List Action}
    (hrun : machine.run State.initial actions = some s) :
    (∀ server, s.transport.server = some server →
      server.requirePq = s.transport.secureMode ∧ s.transport.port = some server.port) ∧
    (s.transport.port = none → ∀ fails, (nativeStart (s.transport.server.map Server.requirePq)
      s.transport.secureMode fails).2 ≠ .invalidArgument) ∧
    (∀ c ∈ s.transport.connections, ∀ server, s.transport.server = some server →
      server.port = c.port → c.secure = s.transport.secureMode) ∧
    (s.transport.posture ≠ none ↔ ∃ c ∈ s.transport.connections, c.published = true ∧
      ∃ server, s.transport.server = some server ∧ server.port = c.port) := by
  have hconsistent := (invariant_of_run hrun).consistent
  refine ⟨hconsistent.running, ?_, ?_, ?_⟩
  · intro hport fails
    rw [hconsistent.server_eq_none hport, Option.map_none, nativeStart]
    split_ifs <;> simp
  · intro c hmem server hserver hsame
    rw [hconsistent.mode c hmem server hserver hsame, (hconsistent.running server hserver).1]
  · constructor
    · intro hposture
      obtain ⟨i, hi⟩ := Option.ne_none_iff_exists'.mp hposture
      obtain ⟨c, server, hget, hpublished, hserver, hsame, -⟩ := hconsistent.reported i hi
      exact ⟨c, List.mem_of_getElem? hget, hpublished, server, hserver, hsame⟩
    · rintro ⟨c, hmem, hpublished, server, hserver, hsame⟩
      exact hconsistent.published c hmem hpublished server hserver hsame

theorem mode_agrees_switchTwice :
    ∃ s, machine.run State.initial (switchTwice.take 16) = some s ∧
      s.transport.server = some ⟨1, true⟩ ∧ s.transport.secureMode = true ∧
      s.transport.posture ≠ none := by
  have hrun : machine.run State.initial (switchTwice.take 16) =
      some ⟨⟨true, some 1, some 1, some 1, [⟨0, false, false⟩, ⟨1, true, true⟩],
        some ⟨1, true⟩, 2, some 1⟩, none⟩ := by decide
  refine ⟨_, hrun, rfl, rfl, (mode_agrees hrun).2.2.2.mpr ?_⟩
  exact ⟨⟨1, true, true⟩, by simp, rfl, ⟨1, true⟩, rfl, rfl⟩

/-! ## What a call does to the mode and to the posture -/

def Pc.call : Pc → Call
  | .comparing value => .setSecure value
  | .closing value => .setSecure value
  | .stopping value => .setSecure value
  | .recording value => .setSecure value
  | .ensuring (.shared _) => .withConnection
  | .ensuring .dedicated => .openConnection
  | .starting (.shared _) => .withConnection
  | .starting .dedicated => .openConnection
  | .connecting _ (.shared _) => .withConnection
  | .connecting _ .dedicated => .openConnection
  | .requesting _ _ => .withConnection

@[simp] theorem Call.call_entry (call : Call) : call.entry.call = call := by
  cases call <;> rfl

/-- The posture, the mode and a running server are as they were, and no connection is gone. -/
structure Transport.Kept (t next : Transport) : Prop where
  posture : next.posture = t.posture
  secureMode : next.secureMode = t.secureMode
  server : ∀ server, t.server = some server → next.server = some server
  connections : ∀ (i : ℕ) (c : Connection), t.connections[i]? = some c →
    next.connections[i]? = some c

theorem Transport.Kept.refl (t : Transport) : t.Kept t :=
  ⟨rfl, rfl, fun _ => id, fun _ _ => id⟩

theorem Transport.kept_closeShared (t : Transport) : t.Kept { t with shared := none } :=
  ⟨rfl, rfl, fun _ => id, fun _ _ => id⟩

theorem Transport.kept_connect (t : Transport) (port : ℕ) : t.Kept (t.connect port) :=
  ⟨rfl, rfl, fun _ => id, fun _ _ hget => Transport.getElem?_connect hget port⟩

theorem Transport.kept_startServer {t next : Transport} {fails : Bool} {port : ℕ}
    (hnext : t.startServer fails = some (next, port)) : t.Kept next := by
  unfold Transport.startServer at hnext
  split at hnext
  · split at hnext
    · cases hnext
      exact ⟨rfl, rfl, fun _ => id, fun _ _ => id⟩
    · next hnone =>
        cases hnext
        refine ⟨rfl, rfl, fun server hserver => ?_, fun _ _ => id⟩
        rw [hnone] at hserver
        cases hserver
  · cases hnext

/-- What one step of a call leaves of the call and of the transport. -/
structure Frame (pc : Pc) (t next : Transport) (progress : Progress) : Prop where
  call : ∀ moved, progress = .at moved → moved.call = pc.call
  posture : (∀ value, pc ≠ .stopping value) → next.posture = t.posture
  server : (∀ value, pc ≠ .stopping value) →
    ∀ server, t.server = some server → next.server = some server
  secureMode : (∀ value, pc ≠ .recording value) → next.secureMode = t.secureMode
  connections : ∀ (i : ℕ) (c : Connection), t.connections[i]? = some c →
    next.connections[i]? = some c

theorem Transport.Kept.frame {pc : Pc} {t next : Transport} {progress : Progress}
    (hkept : t.Kept next) (hcall : ∀ moved, progress = .at moved → moved.call = pc.call) :
    Frame pc t next progress :=
  ⟨hcall, fun _ => hkept.posture, fun _ => hkept.server, fun _ => hkept.secureMode,
    hkept.connections⟩

theorem Frame.of_catchIo {pc : Pc} {t next : Transport} {request : Request}
    {progress : Progress} (hpc : request.usesShared = true → pc.call = .withConnection)
    (hnext : t.catchIo request = (next, progress)) : Frame pc t next progress := by
  unfold Transport.catchIo at hnext
  split at hnext
  · cases hnext
    refine t.kept_closeShared.frame ?_
    rintro moved ⟨⟩
    exact (hpc rfl).symm
  · cases hnext
    exact (Transport.Kept.refl t).frame nofun

theorem Transport.advance_frame {t next : Transport} {cancelled : Bool} {answer : Answer}
    {pc : Pc} {progress : Progress}
    (hnext : t.advance cancelled answer pc = some (next, progress)) :
    Frame pc t next progress := by
  rcases Transport.advance_eq_some hnext with ⟨rfl, rfl⟩ | hnext
  · exact (Transport.Kept.refl _).frame nofun
  cases pc with
  | comparing value =>
      simp only [Transport.proceed] at hnext
      split_ifs at hnext
      · cases hnext
        exact (Transport.Kept.refl t).frame nofun
      · cases hnext
        exact (Transport.Kept.refl t).frame nofun
      · cases hnext
        refine (Transport.Kept.refl t).frame ?_
        rintro moved ⟨⟩
        rfl
  | closing value =>
      cases hnext
      refine t.kept_closeShared.frame ?_
      rintro moved ⟨⟩
      rfl
  | stopping value =>
      cases hnext
      refine ⟨?_, fun hother => absurd rfl (hother value), fun hother => absurd rfl (hother value),
        fun _ => rfl, fun _ _ => id⟩
      rintro moved ⟨⟩
      rfl
  | recording value =>
      simp only [Transport.proceed] at hnext
      split_ifs at hnext
      · cases hnext
        exact (Transport.Kept.refl t).frame nofun
      · cases hnext
        exact ⟨nofun, fun _ => rfl, fun _ _ => id, fun hother => absurd rfl (hother value),
          fun _ _ => id⟩
  | ensuring request =>
      cases request with
      | dedicated =>
          cases hnext
          refine (Transport.Kept.refl t).frame ?_
          rintro moved ⟨⟩
          rfl
      | shared retried =>
          simp only [Transport.proceed] at hnext
          split at hnext
          · cases hnext
            refine (Transport.Kept.refl t).frame ?_
            rintro moved ⟨⟩
            rfl
          · cases hnext
            refine (Transport.Kept.refl t).frame ?_
            rintro moved ⟨⟩
            rfl
  | starting request =>
      have hcall : ∀ port, (Pc.connecting port request).call = (Pc.starting request).call := by
        cases request with
        | shared retried => exact fun _ => rfl
        | dedicated => exact fun _ => rfl
      simp only [Transport.proceed] at hnext
      split at hnext
      · cases hnext
        refine (Transport.Kept.refl t).frame ?_
        rintro moved ⟨⟩
        exact hcall _
      · split at hnext
        · next hstarted =>
            cases hnext
            refine (Transport.kept_startServer hstarted).frame ?_
            rintro moved ⟨⟩
            exact hcall _
        · cases hnext
          exact (Transport.Kept.refl t).frame nofun
  | connecting port request =>
      simp only [Transport.proceed] at hnext
      split at hnext
      · split_ifs at hnext
        cases hnext
        refine Transport.Kept.frame ?_ ?_
        · exact ⟨rfl, rfl, fun _ => id, (t.kept_connect port).connections⟩
        · rintro moved ⟨⟩
          rfl
      · split_ifs at hnext
        cases hnext
        exact (t.kept_connect port).frame nofun
      · refine .of_catchIo ?_ (Option.some.inj hnext)
        intro huses
        cases request with
        | shared retried => rfl
        | dedicated => cases huses
      · cases hnext
        exact (Transport.Kept.refl t).frame nofun
  | requesting connection retried =>
      simp only [Transport.proceed] at hnext
      split at hnext
      · split_ifs at hnext
        cases hnext
        exact (Transport.Kept.refl t).frame nofun
      · exact .of_catchIo (fun _ => rfl) (Option.some.inj hnext)
      · cases hnext
        exact (Transport.Kept.refl t).frame nofun

/-- A switch that is not cancelled ends in the mode it was asked for. -/
theorem Transport.switch_ended {t next : Transport} {answer : Answer} {pc : Pc} {value ok : Bool}
    (hpc : pc.call = .setSecure value)
    (hnext : t.advance false answer pc = some (next, .ended ok)) :
    ok = true ∧ next.secureMode = value := by
  simp only [Transport.advance, Bool.false_eq_true, false_and, if_false] at hnext
  cases pc with
  | comparing asked =>
      cases hpc
      simp only [Transport.proceed, Bool.false_eq_true, if_false] at hnext
      split_ifs at hnext with hsame
      · cases hnext
        exact ⟨rfl, hsame.symm⟩
      · cases hnext
  | closing asked => cases hnext
  | stopping asked => cases hnext
  | recording asked =>
      cases hpc
      cases hnext
      exact ⟨rfl, rfl⟩
  | ensuring request => cases request <;> cases hpc
  | starting request => cases request <;> cases hpc
  | connecting port request => cases request <;> cases hpc
  | requesting => cases hpc

/-- A request that comes to a good end has been answered. -/
theorem Transport.request_ended {t next : Transport} {cancelled : Bool} {answer : Answer}
    {pc : Pc} (hpc : pc.call = .withConnection)
    (hnext : t.advance cancelled answer pc = some (next, .ended true)) :
    next = t ∧ ∃ i, t.answers i = true := by
  rcases Transport.advance_eq_some hnext with ⟨-, hended⟩ | hnext
  · cases hended
  have hcatch : ∀ request, t.catchIo request ≠ (next, .ended true) := by
    intro request hcatch
    unfold Transport.catchIo at hcatch
    split at hcatch <;> cases hcatch
  cases pc with
  | comparing | closing | stopping | recording => cases hpc
  | ensuring request =>
      simp only [Transport.proceed] at hnext
      split at hnext <;> cases hnext
  | starting request =>
      simp only [Transport.proceed] at hnext
      split at hnext
      · cases hnext
      · split at hnext <;> cases hnext
  | connecting port request =>
      cases request with
      | dedicated => cases hpc
      | shared retried =>
          cases answer with
          | ok =>
              simp only [Transport.proceed] at hnext
              split_ifs at hnext
              cases hnext
          | io => exact absurd (Option.some.inj hnext) (hcatch _)
          | other => cases hnext
  | requesting connection retried =>
      simp only [Transport.proceed] at hnext
      split at hnext
      · split_ifs at hnext with hanswers
        cases hnext
        exact ⟨rfl, connection, hanswers⟩
      · exact absurd (Option.some.inj hnext) (hcatch _)
      · cases hnext

/-- In secure mode whoever is answered is answered over a channel that is reported. -/
theorem Transport.Consistent.reported_of_answers {t : Transport} (hconsistent : t.Consistent)
    (hsecure : t.secureMode = true) {i : ℕ} (hanswers : t.answers i = true) :
    t.posture ≠ none := by
  unfold Transport.answers at hanswers
  split at hanswers
  · next c server hget hserver =>
      simp only [Bool.and_eq_true, decide_eq_true_eq, Bool.or_eq_true, Bool.not_eq_true']
        at hanswers
      obtain ⟨⟨hsame, hmode⟩, hready⟩ := hanswers
      have hpq : c.secure = true := by
        rw [hmode, (hconsistent.running server hserver).1, hsecure]
      have hpublished : c.published = true := by
        rcases hready with hplain | hpublished
        · rw [hpq] at hplain
          cases hplain
        · exact hpublished
      exact hconsistent.published c (List.mem_of_getElem? hget) hpublished server hserver hsame
  · cases hanswers

theorem Transport.Consistent.secure_of_posture {t : Transport} (hconsistent : t.Consistent)
    (hposture : t.posture ≠ none) : t.secureMode = true := by
  obtain ⟨i, hi⟩ := Option.ne_none_iff_exists'.mp hposture
  obtain ⟨c, server, -, -, hserver, -, hpq⟩ := hconsistent.reported i hi
  rw [← (hconsistent.running server hserver).1, hpq]

end KotlinPbTransport

end NativeInterop
