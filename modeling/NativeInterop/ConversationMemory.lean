import NativeInterop.ForemanAgent
import NativeInterop.Machine
import Mathlib.Tactic

/-!
# The memory of a conversation

One `ConversationSession` is shared by every turn of the process.  A turn takes its
snapshot when `RunTurnAsync` begins and appends itself when it finishes, and between the
two other turns may begin and finish and the conversation may be reset.  Every access
holds the lock of the session, so a run is a list of accesses, and the log of a run keeps
what each of them has read or written.
-/

namespace NativeInterop

namespace Agent

/-! ## Sessions on texts -/

namespace ConversationSession

theorem evict_eq_drop (turns : List ConversationTurn) :
    evict turns = turns.drop (turns.length - maxTurns) := by
  induction turns with
  | nil => rfl
  | cons oldest rest ih =>
      rw [evict]
      split_ifs with hmany
      · rw [List.length_cons] at hmany ⊢
        rw [ih, Nat.succ_sub (Nat.lt_succ_iff.mp hmany), List.drop_succ_cons]
      · rw [Nat.sub_eq_zero_of_le (Nat.not_lt.mp hmany), List.drop_zero]

def empty : ConversationSession := ⟨[], Nat.zero_le _⟩

/-- `Append`, on any strings: a `string` need not be well-formed UTF-16. -/
def appendUnits (session : ConversationSession) (query answer : List UInt16) :
    ConversationSession where
  turns := evict (session.turns ++ [⟨clamp query maxQueryChars, clamp answer maxAnswerChars⟩])
  bounded := length_evict_le _

theorem turns_appendUnits (session : ConversationSession) (query answer : List UInt16) :
    (session.appendUnits query answer).turns =
      List.drop (session.turns.length + 1 - maxTurns)
        (session.turns ++ [⟨clamp query maxQueryChars, clamp answer maxAnswerChars⟩]) := by
  rw [show (session.appendUnits query answer).turns = evict _ from rfl, evict_eq_drop,
    List.length_append, List.length_singleton]

theorem append_eq_appendUnits (session : ConversationSession) (query answer : String) :
    session.append query answer = session.appendUnits (utf16 query) (utf16 answer) := rfl

end ConversationSession

/-! ## What the session is a memory of -/

/-- An access to the session, under its lock. -/
inductive MemoryEvent
  | snapshot (turns : List ConversationTurn)
  | append (query answer : List UInt16)
  | reset
  deriving DecidableEq, Repr

def MemoryEvent.apply (appended : List (List UInt16 × List UInt16)) :
    MemoryEvent → List (List UInt16 × List UInt16)
  | .snapshot _ => appended
  | .append query answer => appended ++ [(query, answer)]
  | .reset => []

/-- The turns appended since the last reset, oldest first. -/
def sinceReset (log : List MemoryEvent) : List (List UInt16 × List UInt16) :=
  log.foldl MemoryEvent.apply []

@[simp] theorem sinceReset_snoc (log : List MemoryEvent) (event : MemoryEvent) :
    sinceReset (log ++ [event]) = event.apply (sinceReset log) := by
  simp [sinceReset]

/-- A stored text is the text itself, or its beginning with a visible suffix. -/
def StoredAs (max : ℕ) (text stored : List UInt16) : Prop :=
  (text.length ≤ max ∧ stored = text) ∨
    (max < text.length ∧ stored = text.take max ++ utf16 "…(truncated)")

def Stores (turn : List UInt16 × List UInt16) (stored : ConversationTurn) : Prop :=
  StoredAs ConversationSession.maxQueryChars turn.1 stored.query ∧
    StoredAs ConversationSession.maxAnswerChars turn.2 stored.answer

/-- The retained turns are the last of the appended ones. -/
def Remembers (appended : List (List UInt16 × List UInt16)) (turns : List ConversationTurn) :
    Prop :=
  List.Forall₂ Stores
    (appended.drop (appended.length - min appended.length ConversationSession.maxTurns)) turns

theorem storedAs_clamp (max : ℕ) (text : List UInt16) :
    StoredAs max text (ConversationSession.clamp text max) := by
  rw [ConversationSession.clamp]
  split_ifs with hshort
  · exact .inl ⟨hshort, rfl⟩
  · exact .inr ⟨Nat.not_le.mp hshort, rfl⟩

theorem remembers_nil : Remembers [] [] := .nil

theorem Remembers.length_eq {appended : List (List UInt16 × List UInt16)}
    {turns : List ConversationTurn} (hremembers : Remembers appended turns) :
    turns.length = min appended.length ConversationSession.maxTurns := by
  have hlength := List.Forall₂.length_eq hremembers
  rw [List.length_drop] at hlength
  omega

theorem Remembers.appendUnits {appended : List (List UInt16 × List UInt16)}
    {session : ConversationSession} (hremembers : Remembers appended session.turns)
    (query answer : List UInt16) :
    Remembers (appended ++ [(query, answer)]) (session.appendUnits query answer).turns := by
  have hlength := hremembers.length_eq
  have hsnoc : List.Forall₂ Stores
      (appended.drop (appended.length - min appended.length ConversationSession.maxTurns) ++
        [(query, answer)])
      (session.turns ++ [⟨ConversationSession.clamp query ConversationSession.maxQueryChars,
        ConversationSession.clamp answer ConversationSession.maxAnswerChars⟩]) :=
    List.rel_append hremembers (.cons ⟨storedAs_clamp _ _, storedAs_clamp _ _⟩ .nil)
  rw [← List.drop_append_of_le_length (by omega)] at hsnoc
  have hdrop := List.forall₂_drop (session.turns.length + 1 - ConversationSession.maxTurns) hsnoc
  rw [List.drop_drop] at hdrop
  rw [Remembers, ConversationSession.turns_appendUnits]
  convert hdrop using 2
  simp only [List.length_append, List.length_singleton]
  omega

/-! ## Turns that share a session -/

/-- A turn of `RunTurnAsync`: its query, the snapshot its context holds, and whether the
call has returned or thrown. -/
structure SharedTurn where
  query : List UInt16
  history : List ConversationTurn
  ended : Bool
  deriving DecidableEq

structure SharedMemory where
  session : ConversationSession
  turns : List SharedTurn
  log : List MemoryEvent
  deriving DecidableEq

namespace SharedMemory

def initial : SharedMemory := ⟨.empty, [], []⟩

/-- A turn begins with its snapshot.  It ends in `Finish`, with the text that has reached
its sink, or in a cancellation, which passes `Finish` by. -/
inductive Action
  | begin (query : List UInt16)
  | finish (turn : ℕ) (answer : List UInt16)
  | cancelled (turn : ℕ)
  | reset
  deriving DecidableEq, Repr

def snapshot (s : SharedMemory) (query : List UInt16) : SharedMemory :=
  { s with
    turns := s.turns ++ [⟨query, s.session.turns, false⟩]
    log := s.log ++ [.snapshot s.session.turns] }

def endTurn (s : SharedMemory) (turn : ℕ) : SharedMemory :=
  { s with turns := s.turns.modify turn fun shared => { shared with ended := true } }

def append (s : SharedMemory) (query answer : List UInt16) : SharedMemory :=
  { s with
    session := s.session.appendUnits query answer
    log := s.log ++ [.append query answer] }

def reset (s : SharedMemory) : SharedMemory :=
  { s with session := .empty, log := s.log ++ [.reset] }

def running (s : SharedMemory) (turn : ℕ) : Option SharedTurn :=
  s.turns[turn]?.filter fun shared => !shared.ended

def machine : Machine SharedMemory Action where
  step s
    | .begin query => some (s.snapshot query)
    | .finish turn answer =>
        (s.running turn).map fun shared => (s.append shared.query answer).endTurn turn
    | .cancelled turn => (s.running turn).map fun _ => s.endTurn turn
    | .reset => some s.reset

/-- Every snapshot so far, and the session as it stands, is the memory of the accesses
before it. -/
structure Inv (s : SharedMemory) : Prop where
  session : Remembers (sinceReset s.log) s.session.turns
  snapshots : ∀ (i : ℕ) (turns : List ConversationTurn), s.log[i]? = some (.snapshot turns) →
    Remembers (sinceReset (s.log.take i)) turns

theorem inv_initial : initial.Inv := by
  constructor
  · exact remembers_nil
  · intro i turns hevent
    simp [initial] at hevent

/-- An access extends the log; a snapshot reads what the session remembers. -/
theorem Inv.log {s next : SharedMemory} (hinv : s.Inv) {event : MemoryEvent}
    (hlog : next.log = s.log ++ [event])
    (hsession : Remembers (event.apply (sinceReset s.log)) next.session.turns)
    (hread : ∀ turns, event = .snapshot turns → turns = s.session.turns) : next.Inv := by
  constructor
  · rw [hlog, sinceReset_snoc]
    exact hsession
  · intro i turns hevent
    rw [hlog] at hevent ⊢
    rcases Nat.lt_trichotomy i s.log.length with hbefore | hlast | hbeyond
    · rw [List.getElem?_append_left hbefore] at hevent
      rw [List.take_append_of_le_length (Nat.le_of_lt hbefore)]
      exact hinv.snapshots i turns hevent
    · subst hlast
      rw [List.getElem?_concat_length, Option.some.injEq] at hevent
      rw [List.take_left, hread turns hevent]
      exact hinv.session
    · rw [List.getElem?_eq_none (by simp; omega)] at hevent
      cases hevent

theorem Inv.endTurn {s : SharedMemory} (hinv : s.Inv) (turn : ℕ) : (s.endTurn turn).Inv :=
  ⟨hinv.session, hinv.snapshots⟩

theorem Inv.snapshot {s : SharedMemory} (hinv : s.Inv) (query : List UInt16) :
    (s.snapshot query).Inv := by
  have hread : ∀ turns, MemoryEvent.snapshot s.session.turns = .snapshot turns →
      turns = s.session.turns := by
    intro turns hturns
    cases hturns
    rfl
  exact hinv.log rfl hinv.session hread

theorem Inv.append {s : SharedMemory} (hinv : s.Inv) (query answer : List UInt16) :
    (s.append query answer).Inv :=
  hinv.log rfl (hinv.session.appendUnits query answer) nofun

theorem Inv.reset {s : SharedMemory} (hinv : s.Inv) : s.reset.Inv :=
  hinv.log rfl remembers_nil nofun

theorem Inv.step {s next : SharedMemory} {action : Action} (hinv : s.Inv)
    (hstep : machine.step s action = some next) : next.Inv := by
  cases action with
  | begin query =>
      cases hstep
      exact hinv.snapshot query
  | finish turn answer =>
      obtain ⟨shared, _, rfl⟩ := Option.map_eq_some_iff.mp hstep
      exact (hinv.append shared.query answer).endTurn turn
  | cancelled turn =>
      obtain ⟨shared, _, rfl⟩ := Option.map_eq_some_iff.mp hstep
      exact hinv.endTurn turn
  | reset =>
      cases hstep
      exact hinv.reset

theorem Inv.run {t : SharedMemory} {actions : List Action}
    (hrun : machine.run initial actions = some t) : t.Inv :=
  machine.run_invariant_of_step (fun _ _ _ hinv hstep => hinv.step hstep) inv_initial hrun

/-- However turns and resets interleave, a snapshot holds the last turns that were
appended since the conversation was reset. -/
theorem snapshot_remembers {t : SharedMemory} {actions : List Action}
    (hrun : machine.run initial actions = some t) (i : ℕ) (turns : List ConversationTurn)
    (hsnapshot : t.log[i]? = some (.snapshot turns)) :
    Remembers (sinceReset (t.log.take i)) turns :=
  (Inv.run hrun).snapshots i turns hsnapshot

/-- Two turns overlap, a reset lands before the second one ends, and the third sees the
second alone. -/
def overlapping : List Action :=
  [.begin [1], .begin [2], .finish 0 [3], .reset, .finish 1 [4], .begin [5]]

theorem snapshot_remembers_overlapping :
    ∃ t, machine.run initial overlapping = some t ∧
      t.log[5]? = some (.snapshot [⟨[2], [4]⟩]) ∧
      Remembers (sinceReset (t.log.take 5)) [⟨[2], [4]⟩] := by
  have hrun : machine.run initial overlapping = some
      ⟨⟨[⟨[2], [4]⟩], by decide⟩,
        [⟨[1], [], true⟩, ⟨[2], [], true⟩, ⟨[5], [⟨[2], [4]⟩], false⟩],
        [.snapshot [], .snapshot [], .append [1] [3], .reset, .append [2] [4],
          .snapshot [⟨[2], [4]⟩]]⟩ := by
    decide
  exact ⟨_, hrun, rfl, snapshot_remembers hrun 5 _ rfl⟩

end SharedMemory

/-! ## The accesses of one turn -/

/-- A turn that returns has appended its query and answer; one that throws, nothing. -/
def Ended.Appends (ended : Ended) (query : String) : Prop :=
  ended.turn.appended =
    match ended.outcome with
    | .ok result => [(query, result.answer)]
    | .error _ => []

theorem Turn.finish_appends {turn : Turn} (hnone : turn.appended = []) (query : String)
    (reason : ForemanStopReason) : (turn.finish query reason).Appends query := by
  simp [Ended.Appends, Turn.finish, hnone]

theorem Turn.contain_appends {turn : Turn} (hnone : turn.appended = []) (query : String)
    (ex : Thrown) : (turn.contain query ex).Appends query := by
  rw [Turn.contain]
  split_ifs
  · exact hnone
  · have hsunk : (turn.sink ("(agent error: " ++ ex.typeName ++ ")")).appended = [] := hnone
    exact Turn.finish_appends hsunk query .error

namespace ForemanAgent

theorem streamAnswer_appends (agent : ForemanAgent) (query : String)
    (history : List ConversationTurn) {turn : Turn} (hnone : turn.appended = [])
    (reason : ForemanStopReason) :
    (agent.streamAnswer query history turn reason).Appends query := by
  have hsunk : ∀ (fragments : List String) (thrown : Option Thrown),
      (fragments.foldl Turn.sink
        { turn with streams := turn.streams ++ [thrown] }).appended = [] := by
    intro fragments thrown
    rw [foldl_sink]
    exact hnone
  cases hstream : (agent.brain.streamAnswerAsync ⟨query, turn.steps, history⟩).2 with
  | none =>
      rw [streamAnswer_none hstream]
      exact Turn.finish_appends (hsunk _ _) query reason
  | some ex =>
      rw [streamAnswer_some hstream]
      exact Turn.contain_appends (hsunk _ _) query ex

theorem runTurn_appends (agent : ForemanAgent) (query : String)
    (history : List ConversationTurn) : (agent.runTurn query history).Appends query := by
  refine (agent.loop query history).run_invariant (I := fun turn => turn.appended = [])
    (Q := fun ended => ended.Appends query) ?_ ?_ rfl
  · intro turn next hnone hpass
    have hcase := agent.passes query history turn
    rw [show agent.pass query history turn = .inl next from hpass] at hcase
    cases hcase with
    | calls => exact hnone
  · intro turn ended hnone hpass
    have hcase := agent.passes query history turn
    rw [show agent.pass query history turn = .inr ended from hpass] at hcase
    have hdecided : ∀ outcome, (turn.decided outcome).appended = [] := fun _ => hnone
    cases hcase with
    | threw => exact Turn.contain_appends (hdecided _) query _
    | answers => exact agent.streamAnswer_appends query history (hdecided _) .answered
    | capped => exact agent.streamAnswer_appends query history (hdecided _) .stepCapReached
    | canceled => exact hnone

/-- What `RunTurnAsync` does to the session it is given is one turn of the shared memory. -/
theorem runTurnAsync_runs (agent : ForemanAgent) (s : SharedMemory) (query : String) :
    ∃ last t, SharedMemory.machine.run s [.begin (utf16 query), last] = some t ∧
      t.turns[s.turns.length]? = some ⟨utf16 query, s.session.turns, true⟩ ∧
      (agent.runTurnAsync (some s.session) query).2 = some t.session := by
  have happends := agent.runTurn_appends query s.session.turns
  rw [Ended.Appends] at happends
  have hrunning : (s.snapshot (utf16 query)).running s.turns.length =
      some ⟨utf16 query, s.session.turns, false⟩ := by
    simp [SharedMemory.running, SharedMemory.snapshot]
  cases houtcome : (agent.runTurn query s.session.turns).outcome with
  | ok result =>
      rw [houtcome] at happends
      refine ⟨.finish s.turns.length (utf16 result.answer),
        ((s.snapshot (utf16 query)).append (utf16 query) (utf16 result.answer)).endTurn
          s.turns.length, ?_, ?_, ?_⟩
      · simp [Machine.run_cons, SharedMemory.machine, hrunning]
      · simp [SharedMemory.endTurn, SharedMemory.append, SharedMemory.snapshot]
      · simp only [runTurnAsync, Option.map_some, Option.getD_some, happends, List.foldl_cons,
          List.foldl_nil, ConversationSession.append_eq_appendUnits]
        rfl
  | error ex =>
      rw [houtcome] at happends
      refine ⟨.cancelled s.turns.length, (s.snapshot (utf16 query)).endTurn s.turns.length,
        ?_, ?_, ?_⟩
      · simp [Machine.run_cons, SharedMemory.machine, hrunning]
      · simp [SharedMemory.endTurn, SharedMemory.snapshot]
      · simp only [runTurnAsync, Option.map_some, Option.getD_some, happends, List.foldl_nil]
        rfl

end ForemanAgent

end Agent

end NativeInterop
