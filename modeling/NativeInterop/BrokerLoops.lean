import NativeInterop.LanguageFeatures
import NativeInterop.Machine
import NativeInterop.SqliteBroker
import Mathlib.Tactic

/-!
# The poll loops of the SQLite broker

`dni_broker_start` and `dni_broker_stop` keep one broker in a static field; a stop takes it
out of the field under the lock and waits for its poll loop outside.  A poll loop claims a
request with two statements, a `SELECT` of the oldest pending row and an unconditional
`UPDATE`, and then inserts one row for each token.

One step of the model is one statement, one critical section, one observed cancellation or
the death of the process.
-/

namespace NativeInterop

namespace SqliteBroker

structure RequestRow where
  id : ℤ
  prompt : String
  maxTokens : ℤ
  status : RequestStatus
  deriving DecidableEq, Repr

/-- A row of `response_tokens` and the loop that has inserted it. -/
structure WrittenRow where
  row : TokenRow
  loop : ℕ
  deriving DecidableEq, Repr

/-- `inserting` holds the tokens that are still to come and whether the engine faults behind
them; `failing` is the `catch` block of `ProcessNextPendingAsync`. -/
inductive LoopPhase where
  | polling
  | selected (requestId : ℤ)
  | inserting (requestId : ℤ) (tokens : List InferenceToken) (faults : Bool)
  | failing (requestId : ℤ)
  | delaying
  | ended
  deriving DecidableEq, Repr

structure PollLoop where
  phase : LoopPhase := .polling
  cancelled : Bool := false
  deriving DecidableEq, Repr

inductive StopPhase where
  | taken
  | cancelled
  | returned
  deriving DecidableEq, Repr

/-- A call of `dni_broker_stop` that has taken a broker. -/
structure StopCall where
  loop : ℕ
  phase : StopPhase := .taken
  deriving DecidableEq, Repr

/-- A request has been marked as running by a loop. -/
structure Claim where
  requestId : ℤ
  loop : ℕ
  deriving DecidableEq, Repr

/-- `nextId` is the `AUTOINCREMENT` sequence, `broker` the static field. -/
structure State where
  requests : List RequestRow := []
  rows : List WrittenRow := []
  nextId : ℤ := 1
  loops : List PollLoop := []
  broker : Option ℕ := none
  stops : List StopCall := []
  claims : List Claim := []
  deriving DecidableEq, Repr

/-- `fault` is the number of lines behind which the engine faults, if it does. -/
inductive Action where
  | insert (prompt : String) (maxTokens : ℤ)
  | start
  | stop
  | cancel (j : ℕ)
  | finish (j : ℕ)
  | crash
  | poll (i : ℕ)
  | interrupt (i : ℕ)
  | claim (i : ℕ) (fault : Option ℕ)
  | insertRow (i : ℕ)
  | markDone (i : ℕ)
  | markError (i : ℕ)
  | wake (i : ℕ)
  deriving DecidableEq, Repr

/-! ## Statements -/

/-- `ORDER BY id ASC LIMIT 1`. -/
def oldest : List RequestRow → Option RequestRow
  | [] => none
  | row :: rows =>
      match oldest rows with
      | none => some row
      | some other => some (if row.id ≤ other.id then row else other)

/-- `SELECT ... WHERE status = 'pending' ORDER BY id ASC LIMIT 1`. -/
def selectPending (requests : List RequestRow) : Option RequestRow :=
  oldest (requests.filter fun row => row.status = .pending)

/-- `UPDATE requests SET status = $status WHERE id = $id`. -/
def markStatus (requests : List RequestRow) (requestId : ℤ) (status : RequestStatus) :
    List RequestRow :=
  requests.map fun row => if row.id = requestId then { row with status := status } else row

/-- `GetInt32` throws outside of these. -/
def isInt32 (value : ℤ) : Bool := -(2 ^ 31) ≤ value ∧ value < 2 ^ 31

def tokenRows (s : State) : List TokenRow := s.rows.map WrittenRow.row

def setPhase (s : State) (i : ℕ) (phase : LoopPhase) : State :=
  { s with loops := s.loops.modify i fun loop => { loop with phase := phase } }

def insert (s : State) (prompt : String) (maxTokens : ℤ) : State :=
  { s with
    requests := s.requests ++ [⟨s.nextId, prompt, maxTokens, .pending⟩]
    nextId := s.nextId + 1 }

/-! ## The exports -/

/-- `dni_broker_start`, which is one critical section. -/
def start (s : State) : State :=
  match s.broker with
  | some _ => s
  | none => { s with loops := s.loops ++ [{}], broker := some s.loops.length }

/-- The critical section of `dni_broker_stop`. -/
def stop (s : State) : State :=
  match s.broker with
  | none => s
  | some loop => { s with broker := none, stops := s.stops ++ [{ loop := loop }] }

/-- `_cts.Cancel()`. -/
def cancel (s : State) (j : ℕ) (call : StopCall) : State :=
  { s with
    loops := s.loops.modify call.loop fun loop => { loop with cancelled := true }
    stops := s.stops.set j { call with phase := .cancelled } }

def hasEnded (s : State) (i : ℕ) : Bool :=
  s.loops[i]?.all fun loop => loop.phase = .ended

/-- The process is killed: the tables stay. -/
def crash (s : State) : State :=
  { s with
    loops := s.loops.map fun loop => { loop with phase := .ended }
    broker := none
    stops := [] }

/-! ## The loop -/

/-- The condition of the `while` and the `SELECT`. -/
def poll (s : State) (i : ℕ) (loop : PollLoop) : State :=
  if loop.cancelled then setPhase s i .ended
  else
    match selectPending s.requests with
    | none => setPhase s i .delaying
    | some row => setPhase s i (if isInt32 row.maxTokens then .selected row.id else .ended)

/-- Awaited calls look at the token; the statements themselves do not. -/
def awaits : LoopPhase → Bool
  | .polling => true
  | .inserting _ _ _ => true
  | .delaying => true
  | _ => false

/-- What the engine gives for a request: the lines of the showcase, or some of them and a
fault. -/
def generation (lines : List String) : Option ℕ → Generation
  | none => ⟨lines, false⟩
  | some n => ⟨lines.take n, true⟩

def claim (s : State) (i : ℕ) (requestId : ℤ) (answer : Generation) : State :=
  { setPhase s i (.inserting requestId (InferenceOrchestrator.run answer) answer.faults) with
    requests := markStatus s.requests requestId .running
    claims := s.claims ++ [⟨requestId, i⟩] }

/-- `InsertToken`; a taken key is caught like any other fault. -/
def insertRow (s : State) (i : ℕ) (requestId : ℤ) (token : InferenceToken)
    (tokens : List InferenceToken) (faults : Bool) : State :=
  match insertToken (tokenRows s) requestId token with
  | none => setPhase s i (.failing requestId)
  | some _ =>
      { setPhase s i (.inserting requestId tokens faults) with
        rows := s.rows ++ [⟨rowOf requestId token, i⟩] }

/-- The end of the stream: `done`, or the `catch` block. -/
def markDone (s : State) (i : ℕ) (requestId : ℤ) (faults : Bool) : State :=
  if faults then setPhase s i (.failing requestId)
  else { setPhase s i .delaying with requests := markStatus s.requests requestId .done }

def markError (s : State) (i : ℕ) (requestId : ℤ) : State :=
  { setPhase s i .delaying with requests := markStatus s.requests requestId .error }

def loopStep (lines : List String) (s : State) (i : ℕ) (loop : PollLoop) :
    Action → Option State
  | .poll _ => if loop.phase = .polling then some (poll s i loop) else none
  | .interrupt _ =>
      if loop.cancelled ∧ awaits loop.phase then some (setPhase s i .ended) else none
  | .claim _ fault =>
      match loop.phase with
      | .selected requestId => some (claim s i requestId (generation lines fault))
      | _ => none
  | .insertRow _ =>
      match loop.phase with
      | .inserting requestId (token :: tokens) faults =>
          some (insertRow s i requestId token tokens faults)
      | _ => none
  | .markDone _ =>
      match loop.phase with
      | .inserting requestId [] faults => some (markDone s i requestId faults)
      | _ => none
  | .markError _ =>
      match loop.phase with
      | .failing requestId => some (markError s i requestId)
      | _ => none
  | .wake _ => if loop.phase = .delaying then some (setPhase s i .polling) else none
  | _ => none

def step (lines : List String) (s : State) (action : Action) : Option State :=
  match action with
  | .insert prompt maxTokens => some (insert s prompt maxTokens)
  | .start => some (start s)
  | .stop => some (stop s)
  | .cancel j => do
      let call ← s.stops[j]?
      if call.phase = .taken then some (cancel s j call) else none
  | .finish j => do
      let call ← s.stops[j]?
      if call.phase = .cancelled ∧ hasEnded s call.loop then
        some { s with stops := s.stops.set j { call with phase := .returned } }
      else none
  | .crash => some (crash s)
  | .poll i | .interrupt i | .claim i _ | .insertRow i | .markDone i | .markError i | .wake i => do
      let loop ← s.loops[i]?
      loopStep lines s i loop action

def machine (lines : List String) : Machine State Action where
  step := step lines

/-- A broker is started only when the loops of earlier brokers have ended. -/
def sequential (s : State) : Action → Bool
  | .start => s.broker.isSome ∨ s.loops.all fun loop => loop.phase = .ended
  | _ => true

/-! ## What a step can do -/

def isFree : LoopPhase → Bool
  | .polling => true
  | .delaying => true
  | .ended => true
  | _ => false

/-- The steps, by what they do to the tables and to the loop that takes them.  `administer`
covers the exports: they touch neither the tables nor the phases of loops. -/
inductive Moves (lines : List String) (s : State) : Action → State → Prop
  | insert (prompt : String) (maxTokens : ℤ) :
      Moves lines s (.insert prompt maxTokens) (insert s prompt maxTokens)
  | start (hbroker : s.broker = none) :
      Moves lines s .start { s with loops := s.loops ++ [{}], broker := some s.loops.length }
  | administer {action : Action} {loops : List PollLoop} {broker : Option ℕ}
      {stops : List StopCall} (hphases : loops.map PollLoop.phase = s.loops.map PollLoop.phase) :
      Moves lines s action { s with loops := loops, broker := broker, stops := stops }
  | crash : Moves lines s .crash (crash s)
  | free {action : Action} {i : ℕ} {loop : PollLoop} {phase : LoopPhase}
      (hloop : s.loops[i]? = some loop) (hactive : loop.phase ≠ .ended)
      (hfree : isFree phase = true) : Moves lines s action (setPhase s i phase)
  | select {i : ℕ} {loop : PollLoop} {row : RequestRow} (hloop : s.loops[i]? = some loop)
      (hphase : loop.phase = .polling) (hrow : selectPending s.requests = some row) :
      Moves lines s (.poll i) (setPhase s i (.selected row.id))
  | claim {i : ℕ} {loop : PollLoop} {requestId : ℤ} {fault : Option ℕ}
      (hloop : s.loops[i]? = some loop) (hphase : loop.phase = .selected requestId) :
      Moves lines s (.claim i fault) (claim s i requestId (generation lines fault))
  | insertRow {i : ℕ} {loop : PollLoop} {requestId : ℤ} {token : InferenceToken}
      {tokens : List InferenceToken} {faults : Bool} (hloop : s.loops[i]? = some loop)
      (hphase : loop.phase = .inserting requestId (token :: tokens) faults) :
      Moves lines s (.insertRow i) (insertRow s i requestId token tokens faults)
  | markDone {i : ℕ} {loop : PollLoop} {requestId : ℤ} {faults : Bool}
      (hloop : s.loops[i]? = some loop) (hphase : loop.phase = .inserting requestId [] faults) :
      Moves lines s (.markDone i) (markDone s i requestId faults)
  | markError {i : ℕ} {loop : PollLoop} {requestId : ℤ} (hloop : s.loops[i]? = some loop)
      (hphase : loop.phase = .failing requestId) :
      Moves lines s (.markError i) (markError s i requestId)

theorem map_phase_modify (loops : List PollLoop) (i : ℕ) :
    (loops.modify i fun loop => { loop with cancelled := true }).map PollLoop.phase =
      loops.map PollLoop.phase := by
  apply List.ext_getElem?
  intro j
  rw [List.getElem?_map, List.getElem?_map, List.getElem?_modify]
  cases loops[j]? with
  | none => rfl
  | some loop => by_cases hij : i = j <;> simp [hij]

theorem moves_of_loopStep {lines : List String} {s next : State} {i : ℕ} {loop : PollLoop}
    {action : Action} (hloop : s.loops[i]? = some loop)
    (hself : action ∈ [.poll i, .interrupt i, .insertRow i, .markDone i, .markError i, .wake i] ∨
      ∃ fault, action = .claim i fault)
    (hstep : loopStep lines s i loop action = some next) : Moves lines s action next := by
  rcases hself with hself | ⟨fault, rfl⟩
  · simp only [List.mem_cons, List.not_mem_nil, or_false] at hself
    rcases hself with rfl | rfl | rfl | rfl | rfl | rfl
    · simp only [loopStep] at hstep
      split_ifs at hstep with hphase
      cases hstep
      have hactive : loop.phase ≠ .ended := by rw [hphase]; exact nofun
      unfold poll
      split_ifs with hcancelled
      · exact .free hloop hactive rfl
      · cases hselect : selectPending s.requests with
        | none => exact .free hloop hactive rfl
        | some row =>
            simp only
            split_ifs
            · exact .select hloop hphase hselect
            · exact .free hloop hactive rfl
    · simp only [loopStep] at hstep
      split_ifs at hstep with hawaits
      cases hstep
      have hactive : loop.phase ≠ .ended := by
        intro hended
        rw [hended] at hawaits
        cases hawaits.2
      exact .free hloop hactive rfl
    · simp only [loopStep] at hstep
      split at hstep
      · next hphase =>
          cases hstep
          exact .insertRow hloop hphase
      · cases hstep
    · simp only [loopStep] at hstep
      split at hstep
      · next hphase =>
          cases hstep
          exact .markDone hloop hphase
      · cases hstep
    · simp only [loopStep] at hstep
      split at hstep
      · next hphase =>
          cases hstep
          exact .markError hloop hphase
      · cases hstep
    · simp only [loopStep] at hstep
      split_ifs at hstep with hphase
      cases hstep
      have hactive : loop.phase ≠ .ended := by rw [hphase]; exact nofun
      exact .free hloop hactive rfl
  · simp only [loopStep] at hstep
    split at hstep
    · next hphase =>
        cases hstep
        exact .claim hloop hphase
    · cases hstep

theorem moves_of_step {lines : List String} {s next : State} {action : Action}
    (hstep : (machine lines).step s action = some next) : Moves lines s action next := by
  have hloops : ∀ i, (s.loops[i]?.bind fun loop => loopStep lines s i loop action) = some next →
      (action ∈ [.poll i, .interrupt i, .insertRow i, .markDone i, .markError i, .wake i] ∨
        ∃ fault, action = .claim i fault) → Moves lines s action next := by
    intro i hbind hself
    obtain ⟨loop, hloop, hmoves⟩ := Option.bind_eq_some_iff.mp hbind
    exact moves_of_loopStep hloop hself hmoves
  cases action with
  | insert prompt maxTokens =>
      cases hstep
      exact .insert prompt maxTokens
  | start =>
      cases hstep
      unfold start
      split
      · exact .administer rfl
      · next hbroker => exact .start hbroker
  | stop =>
      cases hstep
      unfold stop
      split
      · exact .administer rfl
      · exact .administer rfl
  | cancel j =>
      simp only [machine, step, Option.bind_eq_bind, Option.bind_eq_some_iff] at hstep
      obtain ⟨call, -, hstep⟩ := hstep
      split_ifs at hstep
      cases hstep
      exact .administer (map_phase_modify s.loops call.loop)
  | finish j =>
      simp only [machine, step, Option.bind_eq_bind, Option.bind_eq_some_iff] at hstep
      obtain ⟨call, -, hstep⟩ := hstep
      split_ifs at hstep
      cases hstep
      exact .administer rfl
  | crash =>
      cases hstep
      exact .crash
  | poll i => exact hloops i hstep (by simp)
  | interrupt i => exact hloops i hstep (by simp)
  | claim i fault => exact hloops i hstep (by simp)
  | insertRow i => exact hloops i hstep (by simp)
  | markDone i => exact hloops i hstep (by simp)
  | markError i => exact hloops i hstep (by simp)
  | wake i => exact hloops i hstep (by simp)

/-! ## The rows of an answer -/

def rowsOf (s : State) (requestId : ℤ) : List TokenRow :=
  (tokenRows s).filter fun row => row.requestId = requestId

def HasFinal (rows : List TokenRow) : Prop := ∃ row ∈ rows, row.isFinal ≠ 0

/-- The indices are `0, 1, ...`, and only the last row may be final. -/
def Indexed (rows : List TokenRow) : Prop :=
  ∀ (j : ℕ) (row : TokenRow), rows[j]? = some row →
    row.idx = j ∧ (row.isFinal ≠ 0 → j + 1 = rows.length)

structure Consistent (status : RequestStatus) (rows : List TokenRow) : Prop where
  indexed : Indexed rows
  pending : status = .pending → rows = []
  done : status = .done → HasFinal rows
  error : status = .error → ¬ HasFinal rows

/-- A request whose first tokens have become rows and whose other tokens are to come. -/
def Answering (requestId : ℤ) (rows : List TokenRow) (tokens : List InferenceToken)
    (faults : Bool) : Prop :=
  ∃ (answer : Generation) (written : List InferenceToken), answer.fragments.length < 2 ^ 31 ∧
    answer.faults = faults ∧ InferenceOrchestrator.run answer = written ++ tokens ∧
    rows = written.map (rowOf requestId)

section Answering

open InferenceOrchestrator

variable {requestId : ℤ} {rows : List TokenRow} {tokens : List InferenceToken} {faults : Bool}

theorem rowOf_isFinal (requestId : ℤ) (token : InferenceToken) :
    (rowOf requestId token).isFinal ≠ 0 ↔ token.isFinal = true := by
  obtain ⟨index, text, isFinal⟩ := token
  cases isFinal <;> simp [rowOf]

theorem Answering.indexed (hanswering : Answering requestId rows tokens faults) :
    Indexed rows := by
  obtain ⟨answer, written, hshort, -, hrun, rfl⟩ := hanswering
  have hfront : written <+: stream answer.fragments :=
    (List.prefix_append written tokens).trans (hrun ▸ run_isPrefix_stream answer)
  intro j row hrow
  rw [List.getElem?_map, Option.map_eq_some_iff] at hrow
  obtain ⟨token, htoken, rfl⟩ := hrow
  have hstream : (stream answer.fragments)[j]? = some token := by
    obtain ⟨rest, hrest⟩ := hfront
    rw [← hrest, List.getElem?_append_left (List.getElem?_eq_some_iff.mp htoken).1]
    exact htoken
  have hbound := (List.getElem?_eq_some_iff.mp hstream).1
  rw [length_stream] at hbound
  constructor
  · simp only [rowOf]
    rw [index_of_getElem?_stream hstream, toInt_ofNat_of_lt (by omega)]
  · intro hfinal
    have hmark := (rowOf_isFinal requestId token).mp hfinal
    have hall := eq_stream_of_final hfront (List.mem_of_getElem? htoken) hmark
    -- the mark is not among the fragments, so it stands at the end
    have hlast : ¬ j < answer.fragments.length := by
      intro hlt
      have hlength : (InferenceOrchestrator.tokens answer.fragments).length =
          answer.fragments.length := by
        simp [InferenceOrchestrator.tokens]
      rw [stream, List.getElem?_append_left (by omega)] at hstream
      rw [isFinal_of_mem_tokens (List.mem_of_getElem? hstream)] at hmark
      cases hmark
    rw [List.length_map, hall, length_stream]
    omega

theorem Answering.hasFinal (hanswering : Answering requestId rows [] false) : HasFinal rows := by
  obtain ⟨answer, written, -, hfaults, hrun, rfl⟩ := hanswering
  rw [List.append_nil, run_eq, hfaults] at hrun
  refine ⟨rowOf requestId (.final (BitVec.ofNat 32 answer.fragments.length)), ?_, ?_⟩
  · apply List.mem_map_of_mem
    simp [← hrun]
  · exact (rowOf_isFinal requestId _).mpr rfl

theorem Answering.not_hasFinal (hanswering : Answering requestId rows tokens true) :
    ¬ HasFinal rows := by
  obtain ⟨answer, written, -, hfaults, hrun, rfl⟩ := hanswering
  rintro ⟨row, hrow, hfinal⟩
  obtain ⟨token, htoken, rfl⟩ := List.mem_map.mp hrow
  have hmem : token ∈ InferenceOrchestrator.tokens answer.fragments := by
    rw [run_eq, hfaults, if_pos rfl, List.append_nil] at hrun
    rw [hrun]
    exact List.mem_append_left tokens htoken
  have hmark := (rowOf_isFinal requestId token).mp hfinal
  rw [isFinal_of_mem_tokens hmem] at hmark
  cases hmark

theorem answering_run {answer : Generation} (hshort : answer.fragments.length < 2 ^ 31)
    (requestId : ℤ) : Answering requestId [] (run answer) answer.faults :=
  ⟨answer, [], hshort, rfl, rfl, rfl⟩

theorem Answering.insert {token : InferenceToken}
    (hanswering : Answering requestId rows (token :: tokens) faults) :
    Answering requestId (rows ++ [rowOf requestId token]) tokens faults := by
  obtain ⟨answer, written, hshort, hfaults, hrun, rfl⟩ := hanswering
  refine ⟨answer, written ++ [token], hshort, hfaults, ?_, ?_⟩
  · rw [hrun, List.append_assoc]
    rfl
  · rw [List.map_append]
    rfl

theorem Answering.free {token : InferenceToken}
    (hanswering : Answering requestId rows (token :: tokens) faults) :
    ∀ row ∈ rows, row.idx ≠ token.index.toInt := by
  intro row hrow hsame
  obtain ⟨j, hj⟩ := List.getElem?_of_mem hrow
  have hlt := (List.getElem?_eq_some_iff.mp hj).1
  have hindexed := hanswering.insert.indexed
  have hold := (hindexed j row (by rw [List.getElem?_append_left hlt]; exact hj)).1
  have hnew := (hindexed rows.length (rowOf requestId token) (by simp)).1
  have hidx : (rowOf requestId token).idx = token.index.toInt := rfl
  rw [← hsame, hold] at hidx
  rw [hidx] at hnew
  omega

end Answering

/-! ## The invariant -/

def phaseAt (s : State) (i : ℕ) : Option LoopPhase := (s.loops.map PollLoop.phase)[i]?

def HasStatus (s : State) (requestId : ℤ) (status : RequestStatus) : Prop :=
  ∃ row ∈ s.requests, row.id = requestId ∧ row.status = status

def LoopHolds (s : State) (i : ℕ) : LoopPhase → Prop
  | .selected requestId => HasStatus s requestId .pending
  | .inserting requestId tokens faults =>
      ⟨requestId, i⟩ ∈ s.claims ∧ HasStatus s requestId .running ∧
        Answering requestId (rowsOf s requestId) tokens faults
  | .failing requestId =>
      ⟨requestId, i⟩ ∈ s.claims ∧ HasStatus s requestId .running ∧
        ¬ HasFinal (rowsOf s requestId)
  | _ => True

/-- The tables, whatever the loops do. -/
structure Tables (s : State) : Prop where
  sorted : s.requests.Pairwise fun a b => a.id < b.id
  below : ∀ row ∈ s.requests, row.id < s.nextId
  consistent : ∀ row ∈ s.requests, Consistent row.status (rowsOf s row.id)
  once : s.claims.Pairwise fun a b => a.requestId ≠ b.requestId
  claimed : ∀ claim ∈ s.claims,
    ∃ row ∈ s.requests, row.id = claim.requestId ∧ row.status ≠ .pending
  written : ∀ row ∈ s.rows, ⟨row.row.requestId, row.loop⟩ ∈ s.claims

structure Inv (s : State) : Prop extends Tables s where
  holds : ∀ i phase, phaseAt s i = some phase → LoopHolds s i phase
  single : ∀ i j p q, phaseAt s i = some p → phaseAt s j = some q → p ≠ .ended → q ≠ .ended →
    i = j

theorem eq_of_id_eq {requests : List RequestRow} {a b : RequestRow}
    (hsorted : requests.Pairwise fun a b => a.id < b.id) (ha : a ∈ requests) (hb : b ∈ requests)
    (hid : a.id = b.id) : a = b := by
  have hnodup : (requests.map RequestRow.id).Nodup :=
    List.pairwise_map.mpr (hsorted.imp fun hlt => ne_of_lt hlt)
  exact List.inj_on_of_nodup_map hnodup ha hb hid

theorem phaseAt_of_loop {s : State} {i : ℕ} {loop : PollLoop} (hloop : s.loops[i]? = some loop) :
    phaseAt s i = some loop.phase := by
  rw [phaseAt, List.getElem?_map, hloop, Option.map_some]

theorem phaseAt_setPhase_self {s : State} {i : ℕ} {before : LoopPhase} (phase : LoopPhase)
    (hbefore : phaseAt s i = some before) : phaseAt (setPhase s i phase) i = some phase := by
  rw [phaseAt, List.getElem?_map, Option.map_eq_some_iff] at hbefore
  obtain ⟨loop, hloop, -⟩ := hbefore
  simp [phaseAt, setPhase, hloop]

theorem phaseAt_setPhase_ne {s : State} {i j : ℕ} (phase : LoopPhase) (hne : j ≠ i) :
    phaseAt (setPhase s i phase) j = phaseAt s j := by
  simp [phaseAt, setPhase, hne.symm]

section Loops

variable {s next : State} {i : ℕ} {before : LoopPhase}

/-- A loop that is not ended may go to any phase whose assumption holds: the others have
ended and assume nothing. -/
theorem Inv.advance (hinv : Inv s) (phase : LoopPhase) (hbefore : phaseAt s i = some before)
    (hactive : before ≠ .ended) (hloops : next.loops = (setPhase s i phase).loops)
    (htables : Tables next) (hholds : LoopHolds next i phase) : Inv next := by
  have hphases : ∀ j, phaseAt next j = phaseAt (setPhase s i phase) j := by
    intro j
    rw [phaseAt, hloops, phaseAt]
  -- loop `i` was the one that had not ended
  have hothers : ∀ j other, j ≠ i → phaseAt next j = some other → other = .ended := by
    intro j other hne hother
    rw [hphases, phaseAt_setPhase_ne phase hne] at hother
    by_contra hnot
    exact hne (hinv.single j i other before hother hbefore hnot hactive)
  refine { toTables := htables, holds := ?_, single := ?_ }
  · intro j other hother
    by_cases hne : j = i
    · subst hne
      rw [hphases, phaseAt_setPhase_self phase hbefore] at hother
      cases hother
      exact hholds
    · rw [hothers j other hne hother]
      trivial
  · intro j k p q hj hk hp hq
    have hown : ∀ m r, phaseAt next m = some r → r ≠ .ended → m = i := by
      intro m r hm hr
      by_contra hne
      exact hr (hothers m r hne hm)
    rw [hown j p hj hp, hown k q hk hq]

theorem Inv.free (hinv : Inv s) {phase : LoopPhase} (hbefore : phaseAt s i = some before)
    (hactive : before ≠ .ended) (hfree : isFree phase = true) : Inv (setPhase s i phase) := by
  refine hinv.advance phase hbefore hactive rfl ?_ ?_
  · exact ⟨hinv.sorted, hinv.below, hinv.consistent, hinv.once, hinv.claimed, hinv.written⟩
  · cases phase with
    | polling => trivial
    | delaying => trivial
    | ended => trivial
    | selected requestId => cases hfree
    | inserting requestId tokens faults => cases hfree
    | failing requestId => cases hfree

/-- Phases decide: the exports may change everything else about the loops. -/
theorem Inv.of_phases (hinv : Inv s) (htables : Tables next)
    (hphases : ∀ i, phaseAt next i = phaseAt s i)
    (hholds : ∀ i phase, LoopHolds s i phase → LoopHolds next i phase) : Inv next where
  toTables := htables
  holds := fun i phase hphase => hholds i phase (hinv.holds i phase (hphases i ▸ hphase))
  single := fun i j p q hi hj => hinv.single i j p q (hphases i ▸ hi) (hphases j ▸ hj)

theorem Inv.administer (hinv : Inv s) {loops : List PollLoop} {broker : Option ℕ}
    {stops : List StopCall}
    (hphases : loops.map PollLoop.phase = s.loops.map PollLoop.phase) :
    Inv { s with loops := loops, broker := broker, stops := stops } := by
  refine hinv.of_phases ?_ ?_ ?_
  · exact ⟨hinv.sorted, hinv.below, hinv.consistent, hinv.once, hinv.claimed, hinv.written⟩
  · intro j
    simp only [phaseAt, hphases]
  · intro j phase hholds
    cases phase <;> exact hholds

theorem Inv.crash (hinv : Inv s) : Inv (SqliteBroker.crash s) := by
  have hended : ∀ i phase, phaseAt (SqliteBroker.crash s) i = some phase → phase = .ended := by
    intro i phase hphase
    simp only [phaseAt, SqliteBroker.crash, List.map_map, List.getElem?_map,
      Option.map_eq_some_iff] at hphase
    obtain ⟨loop, -, rfl⟩ := hphase
    rfl
  refine { toTables := ?_, holds := ?_, single := ?_ }
  · exact ⟨hinv.sorted, hinv.below, hinv.consistent, hinv.once, hinv.claimed, hinv.written⟩
  · intro i phase hphase
    rw [hended i phase hphase]
    trivial
  · intro i j p q hi _ hp
    exact absurd (hended i p hi) hp

/-- A new loop beside loops that have ended. -/
theorem Inv.start (hinv : Inv s) (hended : ∀ loop ∈ s.loops, loop.phase = .ended)
    (broker : Option ℕ) : Inv { s with loops := s.loops ++ [{}], broker := broker } := by
  have hphases : ∀ i phase,
      phaseAt { s with loops := s.loops ++ [{}], broker := broker } i = some phase →
      phase = .ended ∨ (i = s.loops.length ∧ phase = .polling) := by
    intro i phase hphase
    simp only [phaseAt, List.getElem?_map, Option.map_eq_some_iff] at hphase
    obtain ⟨loop, hloop, rfl⟩ := hphase
    rcases Nat.lt_or_ge i s.loops.length with hlt | hge
    · rw [List.getElem?_append_left hlt] at hloop
      exact .inl (hended loop (List.mem_of_getElem? hloop))
    · rw [List.getElem?_append_right hge, List.getElem?_singleton] at hloop
      split_ifs at hloop with hzero
      cases hloop
      exact .inr ⟨by omega, rfl⟩
  refine { toTables := ?_, holds := ?_, single := ?_ }
  · exact ⟨hinv.sorted, hinv.below, hinv.consistent, hinv.once, hinv.claimed, hinv.written⟩
  · intro i phase hphase
    rcases hphases i phase hphase with rfl | ⟨-, rfl⟩
    · trivial
    · trivial
  · intro i j p q hi hj hp hq
    rcases hphases i p hi with hended | ⟨hlast, -⟩
    · exact absurd hended hp
    · rcases hphases j q hj with hended | ⟨hsame, -⟩
      · exact absurd hended hq
      · rw [hlast, hsame]

end Loops

/-! ## The statements keep the tables -/

section Statements

variable {s next : State} {requestId : ℤ} {status : RequestStatus}

def marked (requestId : ℤ) (status : RequestStatus) (row : RequestRow) : RequestRow :=
  if row.id = requestId then { row with status := status } else row

@[simp] theorem marked_id (requestId : ℤ) (status : RequestStatus) (row : RequestRow) :
    (marked requestId status row).id = row.id := by
  unfold marked
  split_ifs <;> rfl

theorem markStatus_eq (requests : List RequestRow) (requestId : ℤ) (status : RequestStatus) :
    markStatus requests requestId status = requests.map (marked requestId status) := rfl

theorem marked_of_id {row : RequestRow} (hid : row.id = requestId) :
    (marked requestId status row).status = status := by
  rw [marked, if_pos hid]

theorem marked_of_id_ne {row : RequestRow} (hid : row.id ≠ requestId) :
    marked requestId status row = row :=
  if_neg hid

/-- `MarkStatus`, for a status that the rows of the request agree with. -/
theorem Tables.mark (htables : Tables s)
    (hconsistent : Consistent status (rowsOf s requestId)) (hstatus : status ≠ .pending)
    (hrequests : next.requests = markStatus s.requests requestId status)
    (hrows : next.rows = s.rows) (hnextId : next.nextId = s.nextId)
    (hclaims : next.claims = s.claims) : Tables next := by
  have hsame : ∀ id, rowsOf next id = rowsOf s id := fun id => by
    simp only [rowsOf, tokenRows, hrows]
  rw [markStatus_eq] at hrequests
  refine ⟨?_, ?_, ?_, ?_, ?_, ?_⟩
  · rw [hrequests, List.pairwise_map]
    simpa using htables.sorted
  · intro row hrow
    rw [hrequests] at hrow
    obtain ⟨old, hold, rfl⟩ := List.mem_map.mp hrow
    rw [marked_id, hnextId]
    exact htables.below old hold
  · intro row hrow
    rw [hrequests] at hrow
    obtain ⟨old, hold, rfl⟩ := List.mem_map.mp hrow
    rw [hsame, marked_id]
    by_cases hid : old.id = requestId
    · rw [marked_of_id hid, hid]
      exact hconsistent
    · rw [marked_of_id_ne hid]
      exact htables.consistent old hold
  · rw [hclaims]
    exact htables.once
  · intro claim hclaim
    obtain ⟨old, hold, hid, hrunning⟩ := htables.claimed claim (hclaims ▸ hclaim)
    refine ⟨marked requestId status old, hrequests ▸ List.mem_map_of_mem hold, ?_, ?_⟩
    · rw [marked_id, hid]
    · by_cases hown : old.id = requestId
      · rw [marked_of_id hown]
        exact hstatus
      · rw [marked_of_id_ne hown]
        exact hrunning
  · intro row hrow
    rw [hclaims]
    exact htables.written row (hrows ▸ hrow)

theorem hasStatus_mark (hstatus : ∃ old, HasStatus s requestId old)
    (hrequests : next.requests = markStatus s.requests requestId status) :
    HasStatus next requestId status := by
  obtain ⟨old, row, hrow, hid, -⟩ := hstatus
  rw [markStatus_eq] at hrequests
  exact ⟨marked requestId status row, hrequests ▸ List.mem_map_of_mem hrow,
    (marked_id requestId status row).trans hid, marked_of_id hid⟩

/-- A request that is pending has no rows and has never been claimed. -/
theorem Tables.unclaimed (htables : Tables s) (hpending : HasStatus s requestId .pending) :
    rowsOf s requestId = [] ∧ ∀ claim ∈ s.claims, claim.requestId ≠ requestId := by
  obtain ⟨row, hrow, rfl, hstatus⟩ := hpending
  refine ⟨(htables.consistent row hrow).pending hstatus, ?_⟩
  intro claim hclaim hsame
  obtain ⟨other, hother, hid, hnot⟩ := htables.claimed claim hclaim
  rw [eq_of_id_eq htables.sorted hother hrow (hid.trans hsame)] at hnot
  exact hnot hstatus

theorem indexed_nil : Indexed [] := fun _ _ hrow => by cases hrow

/-- The `UPDATE` that claims a pending request. -/
theorem Tables.claim (htables : Tables s) (hpending : HasStatus s requestId .pending) (i : ℕ)
    (answer : Generation) : Tables (SqliteBroker.claim s i requestId answer) := by
  obtain ⟨hempty, hnew⟩ := htables.unclaimed hpending
  have hrunning : Consistent .running (rowsOf s requestId) :=
    ⟨by rw [hempty]; exact indexed_nil, nofun, nofun, nofun⟩
  have hmarked : Tables { s with requests := markStatus s.requests requestId .running } :=
    htables.mark hrunning (by decide) rfl rfl rfl rfl
  refine ⟨hmarked.sorted, hmarked.below, hmarked.consistent, ?_, ?_, ?_⟩
  · simp only [SqliteBroker.claim, List.pairwise_append, List.pairwise_singleton, true_and]
    refine ⟨htables.once, ?_⟩
    intro old hold fresh hfresh
    rw [List.mem_singleton.mp hfresh]
    exact hnew old hold
  · intro claim hclaim
    rcases List.mem_append.mp hclaim with hold | hfresh
    · exact hmarked.claimed claim hold
    · rw [List.mem_singleton.mp hfresh]
      have hnow : HasStatus { s with requests := markStatus s.requests requestId .running }
          requestId .running := hasStatus_mark ⟨_, hpending⟩ rfl
      obtain ⟨row, hrow, hid, hstatus⟩ := hnow
      exact ⟨row, hrow, hid, by rw [hstatus]; exact nofun⟩
  · intro row hrow
    exact List.mem_append_left _ (htables.written row hrow)

theorem rowsOf_insert_self (s : State) (loop : ℕ) (token : InferenceToken)
    (hrows : next.rows = s.rows ++ [⟨rowOf requestId token, loop⟩]) :
    rowsOf next requestId = rowsOf s requestId ++ [rowOf requestId token] := by
  simp [rowsOf, tokenRows, hrows, rowOf]

theorem rowsOf_insert_ne (s : State) (loop : ℕ) (token : InferenceToken) {other : ℤ}
    (hne : other ≠ requestId) (hrows : next.rows = s.rows ++ [⟨rowOf requestId token, loop⟩]) :
    rowsOf next other = rowsOf s other := by
  simp [rowsOf, tokenRows, hrows, rowOf, hne.symm]

/-- The `INSERT` of the next token of a running request. -/
theorem Tables.insertRow (htables : Tables s) {i : ℕ} {token : InferenceToken}
    (hclaim : ⟨requestId, i⟩ ∈ s.claims) (hrunning : HasStatus s requestId .running)
    (hindexed : Indexed (rowsOf s requestId ++ [rowOf requestId token]))
    (hrequests : next.requests = s.requests)
    (hrows : next.rows = s.rows ++ [⟨rowOf requestId token, i⟩])
    (hnextId : next.nextId = s.nextId) (hclaims : next.claims = s.claims) : Tables next := by
  refine ⟨hrequests ▸ htables.sorted, ?_, ?_, hclaims ▸ htables.once, ?_, ?_⟩
  · intro row hrow
    rw [hnextId]
    exact htables.below row (hrequests ▸ hrow)
  · intro row hrow
    rw [hrequests] at hrow
    by_cases hid : row.id = requestId
    · obtain ⟨own, hown, hownId, hstatus⟩ := hrunning
      rw [eq_of_id_eq htables.sorted hrow hown (hid.trans hownId.symm), hstatus, hownId,
        rowsOf_insert_self s i token hrows]
      exact ⟨hindexed, nofun, nofun, nofun⟩
    · rw [rowsOf_insert_ne s i token hid hrows]
      exact htables.consistent row hrow
  · intro claim hmem
    rw [hrequests]
    exact htables.claimed claim (hclaims ▸ hmem)
  · intro row hrow
    rw [hclaims]
    rw [hrows] at hrow
    rcases List.mem_append.mp hrow with hold | hnew
    · exact htables.written row hold
    · rw [List.mem_singleton.mp hnew]
      exact hclaim

theorem Tables.exists_request (htables : Tables s) {row : TokenRow} (hrow : row ∈ tokenRows s) :
    ∃ request ∈ s.requests, request.id = row.requestId := by
  obtain ⟨written, hwritten, rfl⟩ := List.mem_map.mp hrow
  obtain ⟨request, hrequest, hid, -⟩ := htables.claimed _ (htables.written written hwritten)
  exact ⟨request, hrequest, hid⟩

theorem Tables.rowsOf_nextId (htables : Tables s) : rowsOf s s.nextId = [] := by
  rw [rowsOf, List.filter_eq_nil_iff]
  intro row hrow
  rw [decide_eq_true_eq]
  intro hid
  obtain ⟨request, hrequest, hsame⟩ := htables.exists_request hrow
  have hbelow := htables.below request hrequest
  omega

theorem Tables.insert (htables : Tables s) (prompt : String) (maxTokens : ℤ) :
    Tables (SqliteBroker.insert s prompt maxTokens) := by
  refine ⟨?_, ?_, ?_, htables.once, ?_, htables.written⟩
  · simp only [SqliteBroker.insert, List.pairwise_append, List.pairwise_singleton, true_and]
    refine ⟨htables.sorted, ?_⟩
    intro old hold new hnew
    rw [List.mem_singleton.mp hnew]
    exact htables.below old hold
  · intro row hrow
    rcases List.mem_append.mp hrow with hold | hnew
    · exact (htables.below row hold).trans (Int.lt_succ s.nextId)
    · rw [List.mem_singleton.mp hnew]
      exact Int.lt_succ s.nextId
  · intro row hrow
    rcases List.mem_append.mp hrow with hold | hnew
    · exact htables.consistent row hold
    · rw [List.mem_singleton.mp hnew]
      have hnone : rowsOf (SqliteBroker.insert s prompt maxTokens) s.nextId = [] :=
        htables.rowsOf_nextId
      rw [hnone]
      exact ⟨indexed_nil, fun _ => rfl, nofun, nofun⟩
  · intro claim hclaim
    obtain ⟨row, hrow, hid⟩ := htables.claimed claim hclaim
    exact ⟨row, List.mem_append_left _ hrow, hid⟩

end Statements

/-! ## Runs -/

section Runs

variable {s next : State}

theorem oldest_eq_none {rows : List RequestRow} (hnone : oldest rows = none) : rows = [] := by
  cases rows with
  | nil => rfl
  | cons first rows =>
      rw [oldest] at hnone
      split at hnone <;> cases hnone

theorem oldest_eq_some {rows : List RequestRow} {row : RequestRow} (hrow : oldest rows = some row) :
    row ∈ rows ∧ ∀ other ∈ rows, row.id ≤ other.id := by
  induction rows generalizing row with
  | nil => cases hrow
  | cons first rows ih =>
      rw [oldest] at hrow
      split at hrow
      · next hnone =>
          cases hrow
          simp [oldest_eq_none hnone]
      · next best hbest =>
          obtain ⟨hmem, hleast⟩ := ih hbest
          cases hrow
          split_ifs with hle
          · refine ⟨List.mem_cons_self, ?_⟩
            intro other hother
            rcases List.mem_cons.mp hother with rfl | hrest
            · exact le_rfl
            · exact hle.trans (hleast other hrest)
          · refine ⟨List.mem_cons_of_mem first hmem, ?_⟩
            intro other hother
            rcases List.mem_cons.mp hother with rfl | hrest
            · exact (not_le.mp hle).le
            · exact hleast other hrest

theorem selectPending_eq_none {requests : List RequestRow} (hnone : selectPending requests = none) :
    ∀ row ∈ requests, row.status ≠ .pending := by
  have hempty := oldest_eq_none hnone
  simpa [List.filter_eq_nil_iff] using hempty

theorem selectPending_eq_some {requests : List RequestRow} {row : RequestRow}
    (hrow : selectPending requests = some row) :
    row ∈ requests ∧ row.status = .pending ∧
      ∀ other ∈ requests, other.status = .pending → row.id ≤ other.id := by
  obtain ⟨hmem, hleast⟩ := oldest_eq_some hrow
  rw [List.mem_filter, decide_eq_true_eq] at hmem
  refine ⟨hmem.1, hmem.2, fun other hother hpending => hleast other ?_⟩
  rw [List.mem_filter, decide_eq_true_eq]
  exact ⟨hother, hpending⟩

theorem Inv.select (hinv : Inv s) {i : ℕ} {row : RequestRow}
    (hphase : phaseAt s i = some .polling) (hrow : selectPending s.requests = some row) :
    Inv (setPhase s i (.selected row.id)) := by
  obtain ⟨hmem, hpending, -⟩ := selectPending_eq_some hrow
  refine hinv.advance _ hphase nofun rfl ?_ ⟨row, hmem, rfl, hpending⟩
  exact ⟨hinv.sorted, hinv.below, hinv.consistent, hinv.once, hinv.claimed, hinv.written⟩

theorem Inv.claim (hinv : Inv s) {i : ℕ} {requestId : ℤ} {answer : Generation}
    (hphase : phaseAt s i = some (.selected requestId))
    (hshort : answer.fragments.length < 2 ^ 31) :
    Inv (SqliteBroker.claim s i requestId answer) := by
  have hpending : HasStatus s requestId .pending := hinv.holds i _ hphase
  have hempty : rowsOf (SqliteBroker.claim s i requestId answer) requestId = [] :=
    (hinv.toTables.unclaimed hpending).1
  refine hinv.advance _ hphase nofun rfl (hinv.toTables.claim hpending i answer) ?_
  refine ⟨List.mem_append_right _ (List.mem_singleton.mpr rfl), ?_, ?_⟩
  · exact hasStatus_mark ⟨_, hpending⟩ rfl
  · rw [hempty]
    exact answering_run hshort requestId

theorem Inv.insertToken (hinv : Inv s) {i : ℕ} {requestId : ℤ} {token : InferenceToken}
    {tokens : List InferenceToken} {faults : Bool}
    (hphase : phaseAt s i = some (.inserting requestId (token :: tokens) faults)) :
    SqliteBroker.insertToken (tokenRows s) requestId token =
      some (tokenRows s ++ [rowOf requestId token]) := by
  obtain ⟨-, -, hanswering⟩ := hinv.holds i _ hphase
  have hfree : ¬ (tokenRows s).any (fun row =>
      row.requestId = requestId ∧ row.idx = token.index.toInt) = true := by
    simp only [List.any_eq_true, decide_eq_true_eq]
    rintro ⟨row, hrow, hid, hidx⟩
    refine hanswering.free row ?_ hidx
    rw [rowsOf, List.mem_filter, decide_eq_true_eq]
    exact ⟨hrow, hid⟩
  rw [SqliteBroker.insertToken, if_neg hfree]
  rfl

theorem Inv.insertRow (hinv : Inv s) {i : ℕ} {requestId : ℤ} {token : InferenceToken}
    {tokens : List InferenceToken} {faults : Bool}
    (hphase : phaseAt s i = some (.inserting requestId (token :: tokens) faults)) :
    Inv (SqliteBroker.insertRow s i requestId token tokens faults) := by
  obtain ⟨hclaim, hrunning, hanswering⟩ := hinv.holds i _ hphase
  simp only [SqliteBroker.insertRow, hinv.insertToken hphase]
  refine hinv.advance _ hphase nofun rfl ?_ ⟨hclaim, hrunning, ?_⟩
  · exact hinv.toTables.insertRow hclaim hrunning hanswering.insert.indexed rfl rfl rfl rfl
  · rw [rowsOf_insert_self s i token rfl]
    exact hanswering.insert

theorem Inv.markDone (hinv : Inv s) {i : ℕ} {requestId : ℤ} {faults : Bool}
    (hphase : phaseAt s i = some (.inserting requestId [] faults)) :
    Inv (SqliteBroker.markDone s i requestId faults) := by
  obtain ⟨hclaim, hrunning, hanswering⟩ := hinv.holds i _ hphase
  cases faults with
  | true =>
      refine hinv.advance (.failing requestId) hphase nofun rfl ?_ ?_
      · exact ⟨hinv.sorted, hinv.below, hinv.consistent, hinv.once, hinv.claimed, hinv.written⟩
      · exact ⟨hclaim, hrunning, hanswering.not_hasFinal⟩
  | false =>
      have hdone : Consistent .done (rowsOf s requestId) :=
        ⟨hanswering.indexed, nofun, fun _ => hanswering.hasFinal, nofun⟩
      refine hinv.advance .delaying hphase nofun rfl ?_ trivial
      exact hinv.toTables.mark hdone (by decide) rfl rfl rfl rfl

theorem Inv.markError (hinv : Inv s) {i : ℕ} {requestId : ℤ}
    (hphase : phaseAt s i = some (.failing requestId)) :
    Inv (SqliteBroker.markError s i requestId) := by
  obtain ⟨-, ⟨row, hrow, rfl, hstatus⟩, hnot⟩ := hinv.holds i _ hphase
  have herror : Consistent .error (rowsOf s row.id) :=
    ⟨(hinv.consistent row hrow).indexed, nofun, nofun, fun _ => hnot⟩
  refine hinv.advance .delaying hphase nofun rfl ?_ trivial
  exact hinv.toTables.mark herror (by decide) rfl rfl rfl rfl

theorem Inv.insert (hinv : Inv s) (prompt : String) (maxTokens : ℤ) :
    Inv (SqliteBroker.insert s prompt maxTokens) := by
  have hkept : ∀ requestId status, HasStatus s requestId status →
      HasStatus (SqliteBroker.insert s prompt maxTokens) requestId status := by
    rintro requestId status ⟨row, hrow, hid⟩
    exact ⟨row, List.mem_append_left _ hrow, hid⟩
  refine hinv.of_phases (hinv.toTables.insert prompt maxTokens) (fun _ => rfl) ?_
  intro i phase hholds
  cases phase with
  | selected requestId => exact hkept _ _ hholds
  | inserting requestId tokens faults => exact ⟨hholds.1, hkept _ _ hholds.2.1, hholds.2.2⟩
  | failing requestId => exact ⟨hholds.1, hkept _ _ hholds.2.1, hholds.2.2⟩
  | polling => trivial
  | delaying => trivial
  | ended => trivial

theorem length_generation {lines : List String} (hlines : lines.length < 2 ^ 31)
    (fault : Option ℕ) : (generation lines fault).fragments.length < 2 ^ 31 := by
  cases fault with
  | none => exact hlines
  | some n => exact (List.length_take_le' n lines).trans_lt hlines

theorem inv_step {lines : List String} (hlines : lines.length < 2 ^ 31) {action : Action}
    (hinv : Inv s) (hsequential : sequential s action = true)
    (hstep : (machine lines).step s action = some next) : Inv next := by
  cases moves_of_step hstep with
  | insert prompt maxTokens => exact hinv.insert prompt maxTokens
  | start hbroker =>
      simp only [sequential, hbroker, Option.isSome_none, Bool.false_eq_true, false_or,
        decide_eq_true_eq, List.all_eq_true] at hsequential
      exact hinv.start hsequential _
  | administer hphases => exact hinv.administer hphases
  | crash => exact hinv.crash
  | free hloop hactive hfree => exact hinv.free (phaseAt_of_loop hloop) hactive hfree
  | select hloop hphase hrow => exact hinv.select (hphase ▸ phaseAt_of_loop hloop) hrow
  | claim hloop hphase =>
      exact hinv.claim (hphase ▸ phaseAt_of_loop hloop) (length_generation hlines _)
  | insertRow hloop hphase => exact hinv.insertRow (hphase ▸ phaseAt_of_loop hloop)
  | markDone hloop hphase => exact hinv.markDone (hphase ▸ phaseAt_of_loop hloop)
  | markError hloop hphase => exact hinv.markError (hphase ▸ phaseAt_of_loop hloop)

theorem inv_initial : Inv {} where
  sorted := List.Pairwise.nil
  below := nofun
  consistent := nofun
  once := List.Pairwise.nil
  claimed := nofun
  written := nofun
  holds := nofun
  single := nofun

theorem inv_of_run {lines : List String} (hlines : lines.length < 2 ^ 31) {t : State}
    {actions : List Action}
    (hsequential : (machine lines).RunMeets (fun s action => sequential s action = true) {}
      actions)
    (hrun : (machine lines).run {} actions = some t) : Inv t :=
  (machine lines).run_invariant
    (fun _ _ _ hinv hsequential hstep => inv_step hlines hinv hsequential hstep) inv_initial
    hsequential hrun

end Runs

/-! ## One claim for each request -/

/-- No request has been claimed twice, a loop that inserts finds no rows but its own, and no
insert is refused. -/
structure Exclusive (s : State) : Prop where
  once : s.claims.Pairwise fun a b => a.requestId ≠ b.requestId
  own : ∀ i requestId tokens faults, phaseAt s i = some (.inserting requestId tokens faults) →
    ∀ row ∈ s.rows, row.row.requestId = requestId → row.loop = i
  inserts : ∀ i requestId token tokens faults,
    phaseAt s i = some (.inserting requestId (token :: tokens) faults) →
      ∃ rows, insertToken (tokenRows s) requestId token = some rows

theorem Inv.exclusive {s : State} (hinv : Inv s) : Exclusive s where
  once := hinv.once
  own := by
    intro i requestId tokens faults hphase row hrow hid
    obtain ⟨hclaim, -, -⟩ := hinv.holds i _ hphase
    have hwritten := hinv.written row hrow
    by_contra hne
    have hdistinct : (⟨row.row.requestId, row.loop⟩ : Claim) ≠ ⟨requestId, i⟩ := fun heq =>
      hne (congrArg Claim.loop heq)
    have hsymm : Std.Symm fun a b : Claim => a.requestId ≠ b.requestId := ⟨fun _ _ => Ne.symm⟩
    exact hinv.once.forall hwritten hclaim hdistinct hid
  inserts := fun i requestId token tokens faults hphase => ⟨_, hinv.insertToken hphase⟩

/-- As long as no broker is started before the loops of earlier brokers have ended, no
request is claimed by two loops. -/
theorem claimed_once_of_sequential (catalog : LanguageFeatureCatalog) {actions : List Action}
    {t : State}
    (hrun : (machine (LanguageFeatures.showcase catalog.descriptors)).run {} actions = some t)
    (hsequential : (machine (LanguageFeatures.showcase catalog.descriptors)).RunMeets
      (fun s action => sequential s action = true) {} actions) :
    Exclusive t :=
  (inv_of_run catalog.short hsequential hrun).exclusive

/-- A restart that waits for the loop: the second loop takes the second request. -/
def restart : List Action :=
  [.insert "first" 256, .start, .poll 0, .claim 0 (some 0), .insert "second" 256, .stop,
    .cancel 0, .interrupt 0, .finish 0, .start, .poll 1, .claim 1 none]

theorem claimed_once_restart :
    ∃ t, (machine (LanguageFeatures.showcase LanguageFeatureCatalog.bare.descriptors)).run {}
        restart = some t ∧ t.claims = [⟨1, 0⟩, ⟨2, 1⟩] ∧ Exclusive t := by
  have hsequential := Machine.runMeets_of_check
    (machine (LanguageFeatures.showcase LanguageFeatureCatalog.bare.descriptors))
    (show Machine.check _ sequential {} restart = true by decide)
  exact ⟨_, rfl, rfl, claimed_once_of_sequential .bare rfl hsequential⟩

/-- A start between the critical section of a stop and the end of the stopped loop. -/
def overlap : List Action :=
  [.insert "hi" 256, .start, .poll 0, .stop, .start, .poll 1, .claim 1 none, .claim 0 none]

theorem not_exclusive_overlap :
    ∃ t, (machine (LanguageFeatures.showcase LanguageFeatureCatalog.bare.descriptors)).run {}
        overlap = some t ∧ t.claims = [⟨1, 1⟩, ⟨1, 0⟩] ∧ ¬ Exclusive t := by
  refine ⟨_, rfl, rfl, ?_⟩
  intro hexclusive
  have honce : List.Pairwise (fun a b : Claim => a.requestId ≠ b.requestId) [⟨1, 1⟩, ⟨1, 0⟩] :=
    hexclusive.once
  exact absurd honce (by decide)

end SqliteBroker

end NativeInterop
