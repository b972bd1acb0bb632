import NativeInterop.Evolution
import NativeInterop.InferenceSession
import NativeInterop.Machine
import Mathlib.Tactic

/-!
# The FFI exports and their sessions

Any number of host threads call the session exports, `dni_shutdown` and
`dni_initialize`.  Each call advances by one dictionary operation, one field
access or one completed wait at a time, and between any two of these the pumps
and the drain tasks of all sessions move.

A host may release the `user_data` of a session once `dni_session_free` has
returned `Ok` for it, or `dni_shutdown` has returned after it was registered.
Both wait for the pump and neither waits for the drain, so the callback is safe
exactly as far as nothing is left for the drain at that moment.
-/

namespace NativeInterop

inductive NativeStatus where
  | ok
  | notInitialized
  | invalidArgument
  | unknownSession
  | internal
  deriving DecidableEq, Repr

namespace Ffi

inductive Drain where
  | unscheduled
  | reading
  | holding (token : InferenceToken)
  | done
  deriving DecidableEq, Repr

/-- A session with its drain, the id it was registered under, the tokens its
callback was invoked with, and whether its `user_data` may be gone. -/
structure FfiSession where
  session : InferenceSession
  drain : Drain
  id : Option ℕ
  delivered : List InferenceToken
  disposed : Bool
  released : Bool
  deriving DecidableEq

/-- Which start export was called; the agent does not read `EngineHost`. -/
inductive StartKind where
  | session
  | rag
  | agent
  deriving DecidableEq, Repr

/-- A call of an export in progress, named by what it does next. -/
inductive Thread where
  | startCheck (kind : StartKind) (validArguments : Bool) (generation : Generation)
  | startCreate (kind : StartKind) (generation : Generation)
  | startNumber (session : ℕ)
  | startRegister (session id : ℕ)
  | startTrack (session id : ℕ)
  | startDrain (session id : ℕ)
  | startReturn (id : ℕ)
  | cancelLookup (id : ℕ)
  | cancelSession (session : ℕ)
  | freeUntrack (id : ℕ)
  | freeRemove (id : ℕ)
  | freeCancel (id session : ℕ)
  | freeAwait (id session : ℕ)
  | freeReturn (id session : ℕ)
  | shutdownEnumerate
  | shutdownRemove (ids pending : List ℕ)
  | shutdownCancel (session : ℕ) (ids pending : List ℕ)
  | shutdownClear (pending : List ℕ)
  | shutdownAwait (pending : List ℕ)
  | shutdownReset
  | shutdownReturn
  | initEngine
  | started (id : ℕ)
  | freed (id : ℕ) (status : NativeStatus)
  | returned (status : NativeStatus)
  deriving DecidableEq, Repr

structure Bridge where
  initialized : Bool
  sessions : List FfiSession
  next : ℕ
  registry : List (ℕ × ℕ)
  allocatedIds : List ℕ
  deriving DecidableEq

structure State where
  bridge : Bridge
  threads : List Thread
  deriving DecidableEq

def State.initial : State where
  bridge := ⟨false, [], 0, [], []⟩
  threads := []

inductive Call where
  | start (kind : StartKind) (validArguments : Bool) (generation : Generation)
  | cancel (id : ℕ)
  | free (id : ℕ)
  | shutdown
  | initEngine
  deriving DecidableEq, Repr

inductive Act where
  | call (call : Call)
  | advance (thread : ℕ)
  | pump (session : ℕ) (act : PumpAct)
  | read (session : ℕ)
  | invoke (session : ℕ)
  | endDrain (session : ℕ)
  deriving DecidableEq, Repr

def Call.entry : Call → Thread
  | .start kind validArguments generation =>
      .startCheck kind validArguments generation
  | .cancel id => .cancelLookup id
  | .free id => .freeUntrack id
  | .shutdown => .shutdownEnumerate
  | .initEngine => .initEngine

namespace Bridge

def modifySession (bridge : Bridge) (n : ℕ) (update : FfiSession → FfiSession) :
    Bridge :=
  { bridge with sessions := bridge.sessions.modify n update }

def tryGet (bridge : Bridge) (id : ℕ) : Option ℕ :=
  (bridge.registry.find? fun entry => entry.1 == id).map Prod.snd

/-- The dictionary part of `SessionRegistry.RemoveAsync`. -/
def unregister (bridge : Bridge) (id : ℕ) : Bridge :=
  { bridge with registry := bridge.registry.filter fun entry => entry.1 ≠ id }

def pumpDone (bridge : Bridge) (n : ℕ) : Bool :=
  (bridge.sessions[n]?).any fun entry => entry.session.pump = .done

end Bridge

def FfiSession.create (generation : Generation) : FfiSession where
  session := .start generation
  drain := .unscheduled
  id := none
  delivered := []
  disposed := false
  released := false

def FfiSession.cancel (entry : FfiSession) : FfiSession :=
  { entry with session := entry.session.cancel }

def FfiSession.register (id : ℕ) (entry : FfiSession) : FfiSession :=
  { entry with id := some id }

def FfiSession.schedule (entry : FfiSession) : FfiSession :=
  { entry with drain := .reading }

def FfiSession.dispose (entry : FfiSession) : FfiSession :=
  { entry with disposed := true }

def FfiSession.release (entry : FfiSession) : FfiSession :=
  { entry with released := true }

/-- What `dni_shutdown` releases by returning: every session registered by
then. -/
def FfiSession.releaseRegistered (entry : FfiSession) : FfiSession :=
  if entry.id.isSome then entry.release else entry

/-- The next step of a call and what it does to the bridge; nothing while the
call waits for a pump, or once it has returned. -/
def Bridge.advance (bridge : Bridge) : Thread → Option (Bridge × Thread)
  | .startCheck kind validArguments generation =>
      some (bridge,
        if ¬ bridge.initialized then .returned .notInitialized
        else if ¬ validArguments then .returned .invalidArgument
        else .startCreate kind generation)
  | .startCreate kind generation =>
      if kind = .agent ∨ bridge.initialized then
        some ({ bridge with sessions := bridge.sessions ++ [.create generation] },
          .startNumber bridge.sessions.length)
      else some (bridge, .returned .internal)
  | .startNumber session =>
      some ({ bridge with next := bridge.next + 1 },
        .startRegister session (bridge.next + 1))
  | .startRegister session id =>
      some ({ bridge with registry := bridge.registry ++ [(id, session)] }.modifySession
        session (.register id), .startTrack session id)
  | .startTrack session id =>
      some ({ bridge with allocatedIds := bridge.allocatedIds ++ [id] },
        .startDrain session id)
  | .startDrain session id =>
      some (bridge.modifySession session .schedule, .startReturn id)
  | .startReturn id => some (bridge, .started id)
  | .cancelLookup id =>
      match bridge.tryGet id with
      | none => some (bridge, .returned .unknownSession)
      | some session => some (bridge, .cancelSession session)
  | .cancelSession session =>
      some (bridge.modifySession session .cancel, .returned .ok)
  | .freeUntrack id =>
      some ({ bridge with allocatedIds := bridge.allocatedIds.filter (· ≠ id) },
        .freeRemove id)
  | .freeRemove id =>
      match bridge.tryGet id with
      | none => some (bridge, .freed id .unknownSession)
      | some session => some (bridge.unregister id, .freeCancel id session)
  | .freeCancel id session =>
      some (bridge.modifySession session .cancel, .freeAwait id session)
  | .freeAwait id session =>
      if bridge.pumpDone session then
        some (bridge.modifySession session .dispose, .freeReturn id session)
      else none
  | .freeReturn id session =>
      some (bridge.modifySession session .release, .freed id .ok)
  | .shutdownEnumerate => some (bridge, .shutdownRemove bridge.allocatedIds [])
  | .shutdownRemove [] pending => some (bridge, .shutdownClear pending)
  | .shutdownRemove (id :: ids) pending =>
      match bridge.tryGet id with
      | none => some (bridge, .shutdownRemove ids pending)
      | some session =>
          some (bridge.unregister id, .shutdownCancel session ids pending)
  | .shutdownCancel session ids pending =>
      some (bridge.modifySession session .cancel,
        .shutdownRemove ids (pending ++ [session]))
  | .shutdownClear pending =>
      some ({ bridge with allocatedIds := [] }, .shutdownAwait pending)
  | .shutdownAwait [] => some (bridge, .shutdownReset)
  | .shutdownAwait (session :: pending) =>
      if bridge.pumpDone session then
        some (bridge.modifySession session .dispose, .shutdownAwait pending)
      else none
  | .shutdownReset => some ({ bridge with initialized := false }, .shutdownReturn)
  | .shutdownReturn =>
      some ({ bridge with sessions := bridge.sessions.map .releaseRegistered },
        .returned .ok)
  | .initEngine => some ({ bridge with initialized := true }, .returned .ok)
  | .started _ => none
  | .freed _ _ => none
  | .returned _ => none

def FfiSession.pumpStep (act : PumpAct) (entry : FfiSession) : Option FfiSession :=
  (entry.session.pumpStep act).map fun session => { entry with session := session }

def FfiSession.read (entry : FfiSession) : Option FfiSession :=
  match entry.drain, entry.session.read with
  | .reading, some (token, session) =>
      some { entry with session := session, drain := .holding token }
  | _, _ => none

/-- `Invoke`: the callback runs with the session's `user_data`. -/
def FfiSession.invoke (entry : FfiSession) : Option FfiSession :=
  match entry.drain with
  | .holding token =>
      some { entry with drain := .reading, delivered := entry.delivered ++ [token] }
  | _ => none

def FfiSession.endDrain (entry : FfiSession) : Option FfiSession :=
  if entry.drain = .reading ∧ entry.session.ended then
    some { entry with drain := .done }
  else none

def Bridge.stepSession (bridge : Bridge) (n : ℕ)
    (move : FfiSession → Option FfiSession) : Option Bridge :=
  (bridge.sessions[n]?).bind fun entry =>
    (move entry).map fun next =>
      { bridge with sessions := bridge.sessions.set n next }

def State.advance (s : State) (i : ℕ) : Option State :=
  (s.threads[i]?).bind fun thread =>
    (s.bridge.advance thread).map fun (bridge, next) => ⟨bridge, s.threads.set i next⟩

def State.stepSession (s : State) (n : ℕ)
    (move : FfiSession → Option FfiSession) : Option State :=
  (s.bridge.stepSession n move).map fun bridge => { s with bridge := bridge }

def step (s : State) : Act → Option State
  | .call call => some { s with threads := s.threads ++ [call.entry] }
  | .advance i => s.advance i
  | .pump n act => s.stepSession n (FfiSession.pumpStep act)
  | .read n => s.stepSession n FfiSession.read
  | .invoke n => s.stepSession n FfiSession.invoke
  | .endDrain n => s.stepSession n FfiSession.endDrain

def machine : Machine State Act := ⟨step⟩

/-! ## The callback after free -/

def FfiSession.holding (entry : FfiSession) : Bool :=
  match entry.drain with
  | .holding _ => true
  | _ => false

/-- Neither the pump nor the drain can bring the callback another token. -/
def FfiSession.Quiet (entry : FfiSession) : Prop :=
  entry.session.Exhausted ∧ entry.holding = false

instance (entry : FfiSession) : Decidable entry.Quiet :=
  inferInstanceAs (Decidable (_ ∧ _))

/-- Whenever `dni_session_free` returns, nothing is left in the channel or in the
hands of the drain, and whenever `dni_shutdown` returns, this holds of every
session registered by then and its pump will not write any more. -/
def quietReturn (s : State) : Act → Bool
  | .advance i =>
      match s.threads[i]? with
      | some (.freeReturn _ n) => (s.bridge.sessions[n]?).all fun entry =>
          entry.session.channel.items = [] ∧ entry.holding = false
      | some .shutdownReturn => s.bridge.sessions.all fun entry =>
          entry.id = none ∨ entry.Quiet
      | _ => true
  | _ => true

/-- What one step does to a session that matters here: a pump that has ended
stays so, and a released session is quiet if it was. -/
structure Settles (before after : FfiSession) : Prop where
  done : before.session.pump = .done → after.session.pump = .done
  quiet : (before.released = true → before.Quiet) → after.released = true → after.Quiet

theorem pumpStep_settles {act : PumpAct} {entry next : FfiSession}
    (hmove : entry.pumpStep act = some next) : Settles entry next := by
  obtain ⟨session, hstep, rfl⟩ := Option.map_eq_some_iff.mp hmove
  have hrunning : entry.session.pump ≠ .done := by
    intro hdone
    rw [InferenceSession.pumpStep_done act hdone] at hstep
    cases hstep
  constructor
  · intro hdone
    exact absurd hdone hrunning
  · intro hquiet hreleased
    have hbefore := hquiet hreleased
    exact ⟨InferenceSession.pumpStep_exhausted hstep hbefore.1, hbefore.2⟩

theorem read_settles {entry next : FfiSession} (hmove : entry.read = some next) :
    Settles entry next := by
  unfold FfiSession.read at hmove
  split at hmove
  · next token session hdrain hread =>
      obtain rfl := Option.some.inj hmove
      constructor
      · intro hdone
        unfold InferenceSession.read at hread
        obtain ⟨found, _, hfound⟩ := Option.map_eq_some_iff.mp hread
        rw [← (Prod.mk.inj hfound).2]
        exact hdone
      · intro hquiet hreleased
        rw [InferenceSession.read_exhausted (hquiet hreleased).1] at hread
        cases hread
  · cases hmove

theorem invoke_settles {entry next : FfiSession} (hmove : entry.invoke = some next) :
    Settles entry next := by
  unfold FfiSession.invoke at hmove
  split at hmove
  · next token hdrain =>
      obtain rfl := Option.some.inj hmove
      constructor
      · exact id
      · intro hquiet hreleased
        have hidle := (hquiet hreleased).2
        simp [FfiSession.holding, hdrain] at hidle
  · cases hmove

theorem endDrain_settles {entry next : FfiSession} (hmove : entry.endDrain = some next) :
    Settles entry next := by
  unfold FfiSession.endDrain at hmove
  split at hmove
  · obtain rfl := Option.some.inj hmove
    constructor
    · exact id
    · intro hquiet hreleased
      exact ⟨(hquiet hreleased).1, rfl⟩
  · cases hmove

theorem Settles.refl (entry : FfiSession) : Settles entry entry := ⟨id, id⟩

theorem cancel_settles (entry : FfiSession) : Settles entry entry.cancel := by
  constructor
  · exact id
  · intro hquiet hreleased
    have hbefore := hquiet hreleased
    exact ⟨InferenceSession.cancel_exhausted hbefore.1, hbefore.2⟩

theorem register_settles (id : ℕ) (entry : FfiSession) :
    Settles entry (entry.register id) := ⟨fun h => h, fun h => h⟩

theorem dispose_settles (entry : FfiSession) : Settles entry entry.dispose := ⟨id, id⟩

theorem schedule_settles (entry : FfiSession) : Settles entry entry.schedule := by
  constructor
  · exact id
  · intro hquiet hreleased
    exact ⟨(hquiet hreleased).1, rfl⟩

theorem release_settles {entry : FfiSession} (hquiet : entry.Quiet) :
    Settles entry entry.release := ⟨id, fun _ _ => hquiet⟩

theorem releaseRegistered_settles {entry : FfiSession}
    (hquiet : entry.id ≠ none → entry.Quiet) :
    Settles entry entry.releaseRegistered := by
  unfold FfiSession.releaseRegistered
  split_ifs with hid
  · exact release_settles (hquiet (Option.isSome_iff_ne_none.mp hid))
  · exact Settles.refl entry

def SessionsSettle : List FfiSession → List FfiSession → Prop :=
  Evolves Settles fun entry => entry.released = false

theorem released_quiet {before after : List FfiSession}
    (hevolves : SessionsSettle before after)
    (hquiet : ∀ entry ∈ before, entry.released = true → entry.Quiet) :
    ∀ entry ∈ after, entry.released = true → entry.Quiet := by
  apply Evolves.forall_mem hevolves _ _ hquiet
  · intro entry next hsettles
    exact hsettles.quiet
  · intro entry hfresh hreleased
    rw [hfresh] at hreleased
    cases hreleased

theorem pumpDone_eq_true {bridge : Bridge} {n : ℕ} :
    bridge.pumpDone n = true ↔
      ∃ entry, bridge.sessions[n]? = some entry ∧ entry.session.pump = .done := by
  unfold Bridge.pumpDone
  cases bridge.sessions[n]? with
  | none => simp
  | some entry => simp

theorem pumpDone_of_settle {bridge next : Bridge} {n : ℕ}
    (hevolves : SessionsSettle bridge.sessions next.sessions)
    (hdone : bridge.pumpDone n = true) : next.pumpDone n = true := by
  obtain ⟨entry, hentry, hpump⟩ := pumpDone_eq_true.mp hdone
  obtain ⟨after, hafter, hsettles⟩ := hevolves.kept n entry hentry
  exact pumpDone_eq_true.mpr ⟨after, hafter, hsettles.done hpump⟩

/-- The sessions behind one step of a call.  Only the two returns release, and
a free has waited for its pump by then. -/
theorem advance_settles {bridge next : Bridge} {thread after : Thread}
    (hadvance : bridge.advance thread = some (next, after))
    (hfree : ∀ id n, thread = .freeReturn id n → ∀ entry,
      bridge.sessions[n]? = some entry → entry.Quiet)
    (hshutdown : thread = .shutdownReturn → ∀ entry ∈ bridge.sessions,
      entry.id ≠ none → entry.Quiet) :
    SessionsSettle bridge.sessions next.sessions := by
  cases thread with
  | startCreate kind generation =>
      simp only [Bridge.advance] at hadvance
      split_ifs at hadvance
      · cases hadvance
        exact Evolves.append Settles.refl _ rfl
      · cases hadvance
        exact Evolves.refl Settles.refl _
  | startRegister session id =>
      cases hadvance
      exact Evolves.modify Settles.refl fun entry _ => register_settles id entry
  | startDrain session id =>
      cases hadvance
      exact Evolves.modify Settles.refl fun entry _ => schedule_settles entry
  | cancelSession session =>
      cases hadvance
      exact Evolves.modify Settles.refl fun entry _ => cancel_settles entry
  | freeCancel id session =>
      cases hadvance
      exact Evolves.modify Settles.refl fun entry _ => cancel_settles entry
  | freeAwait id session =>
      simp only [Bridge.advance] at hadvance
      split_ifs at hadvance
      cases hadvance
      exact Evolves.modify Settles.refl fun entry _ => dispose_settles entry
  | freeReturn id session =>
      cases hadvance
      exact Evolves.modify Settles.refl fun entry hentry =>
        release_settles (hfree id session rfl entry hentry)
  | shutdownCancel session ids pending =>
      cases hadvance
      exact Evolves.modify Settles.refl fun entry _ => cancel_settles entry
  | shutdownAwait pending =>
      cases pending with
      | nil =>
          cases hadvance
          exact Evolves.refl Settles.refl _
      | cons session pending =>
          simp only [Bridge.advance] at hadvance
          split_ifs at hadvance
          cases hadvance
          exact Evolves.modify Settles.refl fun entry _ => dispose_settles entry
  | shutdownReturn =>
      cases hadvance
      exact Evolves.map fun entry hentry =>
        releaseRegistered_settles (hshutdown rfl entry hentry)
  | shutdownRemove ids pending =>
      cases ids with
      | nil =>
          cases hadvance
          exact Evolves.refl Settles.refl _
      | cons id ids =>
          simp only [Bridge.advance] at hadvance
          split at hadvance
          · cases hadvance
            exact Evolves.refl Settles.refl _
          · cases hadvance
            exact Evolves.refl Settles.refl _
  | cancelLookup id =>
      simp only [Bridge.advance] at hadvance
      split at hadvance
      · cases hadvance
        exact Evolves.refl Settles.refl _
      · cases hadvance
        exact Evolves.refl Settles.refl _
  | freeRemove id =>
      simp only [Bridge.advance] at hadvance
      split at hadvance
      · cases hadvance
        exact Evolves.refl Settles.refl _
      · cases hadvance
        exact Evolves.refl Settles.refl _
  | started id => cases hadvance
  | freed id status => cases hadvance
  | returned status => cases hadvance
  | _ =>
      cases hadvance
      exact Evolves.refl Settles.refl _

theorem advance_freeReturn {bridge next : Bridge} {thread : Thread} {id n : ℕ}
    (hadvance : bridge.advance thread = some (next, .freeReturn id n)) :
    bridge.pumpDone n = true := by
  cases thread with
  | freeAwait other session =>
      simp only [Bridge.advance] at hadvance
      split_ifs at hadvance with hdone
      cases hadvance
      exact hdone
  | startCheck kind validArguments generation =>
      have hthread := (Prod.mk.inj (Option.some.inj hadvance)).2
      split_ifs at hthread
  | startCreate kind generation =>
      simp only [Bridge.advance] at hadvance
      split_ifs at hadvance <;> cases hadvance
  | cancelLookup other =>
      simp only [Bridge.advance] at hadvance
      split at hadvance <;> cases hadvance
  | freeRemove other =>
      simp only [Bridge.advance] at hadvance
      split at hadvance <;> cases hadvance
  | shutdownRemove ids pending =>
      cases ids with
      | nil => cases hadvance
      | cons other ids =>
          simp only [Bridge.advance] at hadvance
          split at hadvance <;> cases hadvance
  | shutdownAwait pending =>
      cases pending with
      | nil => cases hadvance
      | cons session pending =>
          simp only [Bridge.advance] at hadvance
          split_ifs at hadvance
          cases hadvance
  | _ => cases hadvance

/-- A free about to return has waited for its pump, and what is released is
quiet. -/
structure Invariant (s : State) : Prop where
  awaited : ∀ id n, .freeReturn id n ∈ s.threads → s.bridge.pumpDone n = true
  quiet : ∀ entry ∈ s.bridge.sessions, entry.released = true → entry.Quiet

theorem invariant_initial : Invariant .initial where
  awaited := by simp [State.initial]
  quiet := by simp [State.initial]

theorem Invariant.advance {s t : State} {i : ℕ} (hinv : Invariant s)
    (hquiet : quietReturn s (.advance i) = true) (hstep : s.advance i = some t) :
    Invariant t := by
  obtain ⟨thread, hthread, hmap⟩ := Option.bind_eq_some_iff.mp hstep
  obtain ⟨⟨bridge, after⟩, hadvance, rfl⟩ := Option.map_eq_some_iff.mp hmap
  have hmem : thread ∈ s.threads := List.mem_of_getElem? hthread
  have hevolves : SessionsSettle s.bridge.sessions bridge.sessions := by
    apply advance_settles hadvance
    · intro id n hfree entry hentry
      subst hfree
      simp only [quietReturn, hthread, hentry, Option.all_some,
        decide_eq_true_eq] at hquiet
      obtain ⟨found, hfound, hpump⟩ := pumpDone_eq_true.mp (hinv.awaited id n hmem)
      obtain rfl := Option.some.inj (hentry.symm.trans hfound)
      exact ⟨⟨InferenceSession.mayWrite_done hpump, hquiet.1⟩, hquiet.2⟩
    · intro hshutdown entry hentry hregistered
      subst hshutdown
      simp only [quietReturn, hthread, List.all_eq_true, decide_eq_true_eq] at hquiet
      exact (hquiet entry hentry).resolve_left hregistered
  constructor
  · intro id n hfree
    rcases List.mem_or_eq_of_mem_set hfree with hold | hnew
    · exact pumpDone_of_settle hevolves (hinv.awaited id n hold)
    · subst hnew
      exact pumpDone_of_settle hevolves (advance_freeReturn hadvance)
  · exact released_quiet hevolves hinv.quiet

theorem Invariant.stepSession {s t : State} {n : ℕ}
    {move : FfiSession → Option FfiSession} (hinv : Invariant s)
    (hmove : ∀ entry next, move entry = some next → Settles entry next)
    (hstep : s.stepSession n move = some t) : Invariant t := by
  obtain ⟨bridge, hbridge, rfl⟩ := Option.map_eq_some_iff.mp hstep
  obtain ⟨entry, hentry, hmap⟩ := Option.bind_eq_some_iff.mp hbridge
  obtain ⟨next, hnext, rfl⟩ := Option.map_eq_some_iff.mp hmap
  have hevolves : SessionsSettle s.bridge.sessions (s.bridge.sessions.set n next) :=
    Evolves.set Settles.refl hentry (hmove entry next hnext)
  constructor
  · intro id m hfree
    exact pumpDone_of_settle hevolves (hinv.awaited id m hfree)
  · exact released_quiet hevolves hinv.quiet

theorem Invariant.step {s t : State} {a : Act} (hinv : Invariant s)
    (hquiet : quietReturn s a = true) (hstep : machine.step s a = some t) : Invariant t := by
  cases a with
  | call call =>
      obtain rfl := Option.some.inj hstep
      constructor
      · intro id n hfree
        rcases List.mem_append.mp hfree with hold | hnew
        · exact hinv.awaited id n hold
        · cases call <;> simp [Call.entry] at hnew
      · exact hinv.quiet
  | advance i => exact hinv.advance hquiet hstep
  | pump n act => exact hinv.stepSession (fun _ _ => pumpStep_settles) hstep
  | read n => exact hinv.stepSession (fun _ _ => read_settles) hstep
  | invoke n => exact hinv.stepSession (fun _ _ => invoke_settles) hstep
  | endDrain n => exact hinv.stepSession (fun _ _ => endDrain_settles) hstep

theorem invoke_quiet {s : State} {n : ℕ} {entry : FfiSession}
    (hentry : s.bridge.sessions[n]? = some entry) (hquiet : entry.Quiet) :
    machine.step s (.invoke n) = none := by
  have hidle : entry.invoke = none := by
    unfold FfiSession.invoke
    split
    · next token hholding =>
        have hfalse := hquiet.2
        simp [FfiSession.holding, hholding] at hfalse
    · rfl
  simp [machine, Ffi.step, State.stepSession, Bridge.stepSession, hentry, hidle]

/-- In every run whose returns are quiet, no state lets the callback be invoked
for a session whose `user_data` may be gone. -/
theorem no_callback_after_release {acts : List Act} {s : State}
    (hmeets : machine.RunMeets (fun s a => quietReturn s a = true) .initial acts)
    (hrun : machine.run .initial acts = some s) {n : ℕ} {entry : FfiSession}
    (hentry : s.bridge.sessions[n]? = some entry) (hreleased : entry.released = true) :
    machine.step s (.invoke n) = none := by
  have hinv : Invariant s :=
    machine.run_invariant (fun _ _ _ hinv hquiet hstep => hinv.step hquiet hstep)
      invariant_initial hmeets hrun
  exact invoke_quiet hentry (hinv.quiet entry (List.mem_of_getElem? hentry) hreleased)

/-- The first session of the process up to the scheduling of its drain, with the
first fragment in the channel. -/
def startedRun : List Act :=
  [.call .initEngine, .advance 0,
    .call (.start .rag true ⟨["all ", "clear"], false⟩), .advance 1, .advance 1,
    .advance 1, .advance 1, .advance 1, .advance 1, .advance 1,
    .pump 0 .fetch, .pump 0 .enterWrite, .pump 0 .write]

/-- `dni_session_free` from its call to its return, the pump stopped by the
cancellation in between. -/
def freeRun : List Act :=
  [.call (.free 1), .advance 2, .advance 2, .advance 2, .pump 0 .fetch,
    .pump 0 .enterWrite, .advance 2, .advance 2]

/-- Free returns `Ok` with a token in the channel; the drain reads it and the
callback is invoked. -/
theorem callback_after_free :
    ∃ s entry, machine.run .initial (startedRun ++ freeRun ++ [.read 0]) = some s ∧
      Thread.freed 1 .ok ∈ s.threads ∧ s.bridge.sessions[0]? = some entry ∧
      entry.released = true ∧ machine.step s (.invoke 0) ≠ none := by
  refine ⟨_, _, rfl, ?_, rfl, rfl, ?_⟩
  · decide
  · exact Option.some_ne_none _

/-- With the token delivered before the free, the callback stays silent. -/
theorem no_callback_after_quiet_free :
    ∃ s entry,
      machine.run .initial (startedRun ++ [.read 0, .invoke 0] ++ freeRun) = some s ∧
        s.bridge.sessions[0]? = some entry ∧ entry.released = true ∧
        machine.step s (.invoke 0) = none := by
  have hcheck : machine.check quietReturn .initial
      (startedRun ++ [.read 0, .invoke 0] ++ freeRun) = true := by
    rfl
  refine ⟨_, _, rfl, rfl, rfl, ?_⟩
  exact no_callback_after_release (machine.runMeets_of_check hcheck) rfl rfl rfl

end Ffi

end NativeInterop
