import NativeInterop.BrokerLoops
import Mathlib.Data.List.Sort
import Mathlib.Tactic

/-!
# The SQLite client of the Android host

`SqliteClient.stream` inserts a request and watches the tables of the broker with two
observers: one forwards new token rows through a channel of 64 tokens, the other closes the
channel when the status of the request says so.  Room hands out the whole result of a query
on every change, so the first observer remembers the highest index it has forwarded.

The clients run beside the broker and see its tables between any two statements.
-/

namespace NativeInterop

namespace SqliteBroker

/-! ## What a statement does to a request -/

inductive StatusMove : RequestStatus → RequestStatus → Prop
  | same (status : RequestStatus) : StatusMove status status
  | claimed : StatusMove .pending .running
  | done : StatusMove .running .done
  | failed : StatusMove .running .error

def held : LoopPhase → Option ℤ
  | .selected requestId => some requestId
  | .inserting requestId _ _ => some requestId
  | .failing requestId => some requestId
  | _ => none

def heldAt (s : State) (i : ℕ) : Option ℤ := (phaseAt s i).bind held

def IsOldestPending (s : State) (requestId : ℤ) : Prop :=
  HasStatus s requestId .pending ∧
    ∀ row ∈ s.requests, row.status = .pending → requestId ≤ row.id

/-- What one step may do: requests move on in their life, a loop takes up the oldest
pending request only, and rows are appended. -/
structure StepKeeps (s next : State) : Prop where
  moves : ∀ row ∈ s.requests, ∃ after ∈ next.requests,
    after.id = row.id ∧ StatusMove row.status after.status
  born : ∀ after ∈ next.requests, (∃ row ∈ s.requests, row.id = after.id) ∨
    after.status = .pending
  takes : ∀ i requestId, heldAt next i = some requestId → heldAt s i ≠ some requestId →
    IsOldestPending s requestId
  grows : s.rows <+: next.rows

section Steps

variable {s next : State}

theorem heldAt_of_phase {i : ℕ} {phase : LoopPhase} (hphase : phaseAt s i = some phase) :
    heldAt s i = held phase := by
  rw [heldAt, hphase, Option.bind_some]

theorem held_of_isFree {phase : LoopPhase} (hfree : isFree phase = true) : held phase = none := by
  cases phase with
  | polling => rfl
  | delaying => rfl
  | ended => rfl
  | selected requestId => cases hfree
  | inserting requestId tokens faults => cases hfree
  | failing requestId => cases hfree

theorem StepKeeps.of_tables (hrequests : next.requests = s.requests) (hrows : next.rows = s.rows)
    (htakes : ∀ i requestId, heldAt next i = some requestId → heldAt s i ≠ some requestId →
      IsOldestPending s requestId) : StepKeeps s next where
  moves := fun row hrow => ⟨row, hrequests ▸ hrow, rfl, .same row.status⟩
  born := fun after hafter => .inl ⟨after, hrequests ▸ hafter, rfl⟩
  takes := htakes
  grows := hrows ▸ List.prefix_rfl

/-- One loop moves, and keeps its request, lays it down or takes up the oldest one. -/
theorem takes_of_setPhase {i : ℕ} {before : LoopPhase} (phase : LoopPhase)
    (hbefore : phaseAt s i = some before) (hloops : next.loops = (setPhase s i phase).loops)
    (hheld : held phase = none ∨ held phase = held before ∨
      ∃ requestId, held phase = some requestId ∧ IsOldestPending s requestId) :
    ∀ j requestId, heldAt next j = some requestId → heldAt s j ≠ some requestId →
      IsOldestPending s requestId := by
  intro j requestId hnext hnot
  have hphases : phaseAt next j = phaseAt (setPhase s i phase) j := by
    rw [phaseAt, hloops, phaseAt]
  by_cases hij : j = i
  · subst hij
    rw [heldAt_of_phase (hphases.trans (phaseAt_setPhase_self phase hbefore))] at hnext
    rw [heldAt_of_phase hbefore] at hnot
    rcases hheld with hnone | hsame | ⟨other, hother, holdest⟩
    · rw [hnone] at hnext
      cases hnext
    · exact absurd (hsame.symm.trans hnext) hnot
    · rw [hother] at hnext
      cases hnext
      exact holdest
  · rw [heldAt, hphases, phaseAt_setPhase_ne phase hij] at hnext
    exact absurd hnext hnot

theorem moves_of_mark (hsorted : s.requests.Pairwise fun a b => a.id < b.id) {requestId : ℤ}
    {old status : RequestStatus} (hold : HasStatus s requestId old)
    (hmove : StatusMove old status)
    (hrequests : next.requests = markStatus s.requests requestId status) :
    (∀ row ∈ s.requests, ∃ after ∈ next.requests,
      after.id = row.id ∧ StatusMove row.status after.status) ∧
    ∀ after ∈ next.requests, ∃ row ∈ s.requests, row.id = after.id := by
  rw [markStatus_eq] at hrequests
  constructor
  · intro row hrow
    refine ⟨marked requestId status row, hrequests ▸ List.mem_map_of_mem hrow,
      marked_id requestId status row, ?_⟩
    by_cases hid : row.id = requestId
    · obtain ⟨own, hown, hownId, rfl⟩ := hold
      rw [marked_of_id hid, eq_of_id_eq hsorted hrow hown (hid.trans hownId.symm)]
      exact hmove
    · rw [marked_of_id_ne hid]
      exact .same row.status
  · intro after hafter
    rw [hrequests] at hafter
    obtain ⟨row, hrow, rfl⟩ := List.mem_map.mp hafter
    exact ⟨row, hrow, (marked_id requestId status row).symm⟩

theorem StepKeeps.mark (hinv : Inv s) {i : ℕ} {before : LoopPhase} (phase : LoopPhase)
    {requestId : ℤ} {old status : RequestStatus} (hbefore : phaseAt s i = some before)
    (hold : HasStatus s requestId old) (hmove : StatusMove old status)
    (hheld : held phase = none ∨ held phase = held before)
    (hloops : next.loops = (setPhase s i phase).loops)
    (hrequests : next.requests = markStatus s.requests requestId status)
    (hrows : next.rows = s.rows) : StepKeeps s next := by
  obtain ⟨hmoves, hborn⟩ := moves_of_mark hinv.sorted hold hmove hrequests
  refine ⟨hmoves, fun after hafter => .inl (hborn after hafter), ?_, hrows ▸ List.prefix_rfl⟩
  exact takes_of_setPhase phase hbefore hloops (hheld.imp_right Or.inl)

theorem takes_of_phases (hphases : ∀ i phase, phaseAt next i = some phase →
      phaseAt s i = some phase ∨ isFree phase = true) :
    ∀ i requestId, heldAt next i = some requestId → heldAt s i ≠ some requestId →
      IsOldestPending s requestId := by
  intro i requestId hnext hnot
  obtain ⟨phase, hphase, hheld⟩ := Option.bind_eq_some_iff.mp hnext
  rcases hphases i phase hphase with hsame | hfree
  · exact absurd ((heldAt_of_phase hsame).trans hheld) hnot
  · rw [held_of_isFree hfree] at hheld
    cases hheld

theorem isOldestPending_of_select {row : RequestRow} (hrow : selectPending s.requests = some row) :
    IsOldestPending s row.id := by
  obtain ⟨hmem, hpending, hleast⟩ := selectPending_eq_some hrow
  exact ⟨⟨row, hmem, rfl, hpending⟩, hleast⟩

theorem stepKeeps_of_insertRow (hinv : Inv s) {i : ℕ} {requestId : ℤ} {token : InferenceToken}
    {tokens : List InferenceToken} {faults : Bool}
    (hphase : phaseAt s i = some (.inserting requestId (token :: tokens) faults)) :
    StepKeeps s (insertRow s i requestId token tokens faults) := by
  simp only [insertRow, hinv.insertToken hphase]
  refine ⟨fun row hrow => ⟨row, hrow, rfl, .same row.status⟩,
    fun after hafter => .inl ⟨after, hafter, rfl⟩, ?_, List.prefix_append s.rows _⟩
  exact takes_of_setPhase _ hphase rfl (.inr (.inl rfl))

theorem stepKeeps_of_markDone (hinv : Inv s) {i : ℕ} {requestId : ℤ} {faults : Bool}
    (hphase : phaseAt s i = some (.inserting requestId [] faults)) :
    StepKeeps s (markDone s i requestId faults) := by
  obtain ⟨-, hrunning, -⟩ := hinv.holds i _ hphase
  cases faults with
  | true =>
      exact .of_tables rfl rfl (takes_of_setPhase (.failing requestId) hphase rfl
        (.inr (.inl rfl)))
  | false =>
      exact .mark hinv .delaying hphase hrunning .done (.inl rfl) rfl rfl rfl

theorem stepKeeps_of_step {lines : List String} {action : Action} (hinv : Inv s)
    (hstep : (machine lines).step s action = some next) : StepKeeps s next := by
  cases moves_of_step hstep with
  | insert prompt maxTokens =>
      refine ⟨fun row hrow => ⟨row, List.mem_append_left _ hrow, rfl, .same row.status⟩, ?_, ?_,
        List.prefix_rfl⟩
      · intro after hafter
        rcases List.mem_append.mp hafter with hold | hnew
        · exact .inl ⟨after, hold, rfl⟩
        · rw [List.mem_singleton.mp hnew]
          exact .inr rfl
      · exact takes_of_phases fun i phase hphase => .inl hphase
  | start hbroker =>
      refine .of_tables rfl rfl (takes_of_phases fun i phase hphase => ?_)
      simp only [phaseAt, List.map_append, List.map_cons, List.map_nil] at hphase
      rcases Nat.lt_or_ge i s.loops.length with hlt | hge
      · rw [List.getElem?_append_left (by simpa using hlt)] at hphase
        exact .inl hphase
      · rw [List.getElem?_append_right (by simpa using hge), List.getElem?_singleton] at hphase
        split_ifs at hphase
        cases hphase
        exact .inr rfl
  | administer hphases =>
      refine .of_tables rfl rfl (takes_of_phases fun i phase hphase => .inl ?_)
      rw [phaseAt, ← hphases]
      exact hphase
  | crash =>
      refine .of_tables rfl rfl (takes_of_phases fun i phase hphase => .inr ?_)
      simp only [phaseAt, crash, List.map_map, List.getElem?_map, Option.map_eq_some_iff] at hphase
      obtain ⟨loop, -, rfl⟩ := hphase
      rfl
  | free hloop hactive hfree =>
      exact .of_tables rfl rfl (takes_of_setPhase _ (phaseAt_of_loop hloop) rfl
        (.inl (held_of_isFree hfree)))
  | select hloop hphase hrow =>
      exact .of_tables rfl rfl (takes_of_setPhase _ (phaseAt_of_loop hloop) rfl
        (.inr (.inr ⟨_, rfl, isOldestPending_of_select hrow⟩)))
  | claim hloop hphase =>
      have hbefore := hphase ▸ phaseAt_of_loop hloop
      exact .mark hinv (.inserting _ _ _) hbefore (hinv.holds _ _ hbefore) .claimed (.inr rfl) rfl
        rfl rfl
  | insertRow hloop hphase =>
      exact stepKeeps_of_insertRow hinv (hphase ▸ phaseAt_of_loop hloop)
  | markDone hloop hphase =>
      exact stepKeeps_of_markDone hinv (hphase ▸ phaseAt_of_loop hloop)
  | markError hloop hphase =>
      have hbefore := hphase ▸ phaseAt_of_loop hloop
      obtain ⟨-, hrunning, -⟩ := hinv.holds _ _ hbefore
      exact .mark hinv .delaying hbefore hrunning .failed (.inl rfl) rfl rfl rfl

end Steps

end SqliteBroker

namespace SqliteClient

open SqliteBroker (State TokenRow RequestRow RequestStatus rowsOf tokenRows HasStatus HasFinal
  Indexed)

structure Token where
  idx : ℤ
  text : String
  isFinal : Bool
  deriving DecidableEq, Repr

def Token.ofRow (row : TokenRow) : Token := ⟨row.idx, row.text, row.isFinal ≠ 0⟩

/-- The token observer: waiting for Room, in the loop over the rows of a result, before and
in `channel.send`, and before `channel.close()`. -/
inductive ObserverPhase where
  | waiting
  | walking (rows : List TokenRow)
  | sending (row : TokenRow) (rows : List TokenRow)
  | sent (row : TokenRow) (rows : List TokenRow)
  | closing
  | stopped
  deriving DecidableEq, Repr

inductive Outcome where
  | completed
  | failed
  | abandoned
  deriving DecidableEq, Repr

/-- A collected `stream`.  The element of a suspended `send` stands in the channel already;
`closed` is the first `close`, which is faulted where it has a cause. -/
structure Client where
  requestId : ℤ
  lastSeenIdx : ℤ := -1
  observer : ObserverPhase := .waiting
  channel : List Token := []
  closed : Option Completion := none
  emitted : List Token := []
  outcome : Option Outcome := none
  deriving DecidableEq, Repr

def capacity : ℕ := 64

/-- `observeTokensAfter`. -/
def tokensAfter (s : State) (requestId afterIdx : ℤ) : List TokenRow :=
  ((tokenRows s).filter fun row => row.requestId = requestId ∧ row.idx > afterIdx).insertionSort
    fun a b => a.idx ≤ b.idx

/-- `observeStatus`. -/
def statusOf (s : State) (requestId : ℤ) : Option RequestStatus :=
  (s.requests.find? fun row => row.id = requestId).map RequestRow.status

inductive ClientAction where
  | observe
  | walk
  | send
  | resume
  | close
  | status
  | receive
  | finish
  | abandon
  deriving DecidableEq, Repr

def Client.close (client : Client) (completion : Completion) : Client :=
  { client with closed := some (client.closed.getD completion) }

/-- One row of the loop. -/
def Client.walk (client : Client) : List TokenRow → Client
  | [] => { client with observer := .waiting }
  | row :: rows =>
      if row.idx > client.lastSeenIdx then
        { client with lastSeenIdx := row.idx, observer := .sending row rows }
      else { client with observer := .walking rows }

/-- `channel.send`: a channel that is closed without a cause throws what the observer
catches, one that is closed with a cause throws the cause, which ends the whole scope. -/
def Client.send (client : Client) (row : TokenRow) (rows : List TokenRow) : Client :=
  match client.closed with
  | none =>
      { client with channel := client.channel ++ [Token.ofRow row], observer := .sent row rows }
  | some .finished => { client with observer := .stopped }
  | some .faulted => { client with outcome := some .failed }

/-- `send` has returned: the final row breaks out of the loop. -/
def Client.resume (client : Client) (row : TokenRow) (rows : List TokenRow) : Client :=
  { client with observer := if row.isFinal ≠ 0 then .closing else .walking rows }

/-- The status observer. -/
def Client.status (client : Client) : Option RequestStatus → Client
  | some .error => client.close .faulted
  | some .canceled => client.close .finished
  | _ => client

/-- The loop over the channel, at its end. -/
def Client.finish (client : Client) : Completion → Client
  | .finished => { client with outcome := some .completed }
  | .faulted => { client with outcome := some .failed }

/-- `abandon` is a cancelled collector or an exception of Room. -/
def clientStep (s : State) (client : Client) (action : ClientAction) : Option Client :=
  if client.outcome ≠ none then none
  else
    match action, client.observer with
    | .observe, .waiting =>
        some { client with observer := .walking (tokensAfter s client.requestId (-1)) }
    | .walk, .walking rows => some (client.walk rows)
    | .send, .sending row rows => some (client.send row rows)
    | .resume, .sent row rows =>
        if client.channel.length ≤ capacity then some (client.resume row rows) else none
    | .close, .closing => some { client.close .finished with observer := .waiting }
    | .status, _ => some (client.status (statusOf s client.requestId))
    | .receive, _ =>
        match client.channel with
        | [] => none
        | token :: tokens =>
            some { client with channel := tokens, emitted := client.emitted ++ [token] }
    | .finish, _ => if client.channel = [] then client.closed.map client.finish else none
    | .abandon, _ => some { client with outcome := some .abandoned }
    | _, _ => none

/-- The broker with the clients of the host, which lives in the same process. -/
structure System where
  broker : State := {}
  clients : List Client := []
  deriving DecidableEq, Repr

inductive SystemAction where
  | broker (action : SqliteBroker.Action)
  | stream (prompt : String) (maxTokens : ℤ)
  | client (c : ℕ) (action : ClientAction)
  deriving DecidableEq, Repr

/-- The death of the process. -/
def Client.kill (client : Client) : Client :=
  { client with outcome := some (client.outcome.getD .abandoned) }

def survivors (clients : List Client) : SqliteBroker.Action → List Client
  | .crash => clients.map Client.kill
  | _ => clients

def step (lines : List String) (s : System) : SystemAction → Option System
  | .broker action => do
      let broker ← (SqliteBroker.machine lines).step s.broker action
      some { broker := broker, clients := survivors s.clients action }
  | .stream prompt maxTokens =>
      some
        { broker := SqliteBroker.insert s.broker prompt maxTokens
          clients := s.clients ++ [{ requestId := s.broker.nextId }] }
  | .client c action => do
      let client ← s.clients[c]?
      let next ← clientStep s.broker client action
      some { s with clients := s.clients.set c next }

def machine (lines : List String) : Machine System SystemAction where
  step := step lines

def sequential (s : System) : SystemAction → Bool
  | .broker action => SqliteBroker.sequential s.broker action
  | _ => true

/-! ## What a client has forwarded -/

def Client.forwarded (client : Client) : List Token := client.emitted ++ client.channel

def SeenFinal (tokens : List Token) : Prop := ∃ token ∈ tokens, token.isFinal = true

/-- The observer, after `n` forwarded tokens, against the rows of the request. -/
def ObserverHolds (rows : List TokenRow) (forwarded : List Token) (lastSeenIdx : ℤ) :
    ObserverPhase → Prop
  | .waiting => lastSeenIdx + 1 = forwarded.length
  | .walking rest => lastSeenIdx + 1 = forwarded.length ∧
      ∃ passed, passed ++ rest <+: rows ∧ passed.length ≤ forwarded.length
  | .sending row rest => lastSeenIdx = forwarded.length ∧
      ∃ passed, passed ++ row :: rest <+: rows ∧ passed.length = forwarded.length
  | .sent row rest => lastSeenIdx + 1 = forwarded.length ∧
      ∃ passed, passed ++ row :: rest <+: rows ∧ passed.length + 1 = forwarded.length
  | .closing => lastSeenIdx + 1 = forwarded.length ∧ SeenFinal forwarded
  | .stopped => True

/-- A client of a request with these rows; `canceled` says that the request has been. -/
structure Client.Follows (rows : List TokenRow) (canceled : Prop) (client : Client) : Prop where
  forwards : client.forwarded <+: rows.map Token.ofRow
  observer : ObserverHolds rows client.forwarded client.lastSeenIdx client.observer
  finished : client.closed = some .finished → SeenFinal client.forwarded ∨ canceled
  completed : client.outcome = some .completed →
    client.channel = [] ∧ client.closed = some .finished

section Follows

variable {rows later : List TokenRow} {canceled stillCanceled : Prop} {client : Client}

theorem ObserverHolds.mono (hgrows : rows <+: later) {forwarded : List Token} {lastSeenIdx : ℤ}
    {phase : ObserverPhase} (hholds : ObserverHolds rows forwarded lastSeenIdx phase) :
    ObserverHolds later forwarded lastSeenIdx phase := by
  cases phase with
  | waiting => exact hholds
  | walking rest =>
      obtain ⟨hseen, passed, hfront, hlength⟩ := hholds
      exact ⟨hseen, passed, hfront.trans hgrows, hlength⟩
  | sending row rest =>
      obtain ⟨hseen, passed, hfront, hlength⟩ := hholds
      exact ⟨hseen, passed, hfront.trans hgrows, hlength⟩
  | sent row rest =>
      obtain ⟨hseen, passed, hfront, hlength⟩ := hholds
      exact ⟨hseen, passed, hfront.trans hgrows, hlength⟩
  | closing => exact hholds
  | stopped => trivial

/-- The broker appends rows, and a canceled request stays canceled. -/
theorem Client.Follows.mono (hfollows : client.Follows rows canceled) (hgrows : rows <+: later)
    (hcanceled : canceled → stillCanceled) : client.Follows later stillCanceled where
  forwards := hfollows.forwards.trans (hgrows.map Token.ofRow)
  observer := hfollows.observer.mono hgrows
  finished := fun hclosed => (hfollows.finished hclosed).imp_right hcanceled
  completed := hfollows.completed

/-- The rows that have been passed are the forwarded ones. -/
theorem forwarded_eq_map {forwarded : List Token} {passed rest : List TokenRow}
    (hforwards : forwarded <+: rows.map Token.ofRow) (hfront : passed ++ rest <+: rows)
    (hlength : passed.length = forwarded.length) : forwarded = passed.map Token.ofRow := by
  have hpassed : passed.map Token.ofRow <+: rows.map Token.ofRow :=
    ((List.prefix_append passed rest).trans hfront).map Token.ofRow
  refine (List.prefix_of_prefix_length_le hforwards hpassed ?_).eq_of_length ?_
  · rw [List.length_map, hlength]
  · rw [List.length_map, hlength]

theorem idx_of_passed {passed rest : List TokenRow} {row : TokenRow} (hindexed : Indexed rows)
    (hfront : passed ++ row :: rest <+: rows) : row.idx = passed.length := by
  refine (hindexed passed.length row ?_).1
  obtain ⟨behind, rfl⟩ := hfront
  simp

theorem Client.Follows.walk (hfollows : client.Follows rows canceled) (hindexed : Indexed rows)
    {rest : List TokenRow} (hphase : client.observer = .walking rest) :
    (client.walk rest).Follows rows canceled := by
  have hobserver := hfollows.observer
  rw [hphase] at hobserver
  obtain ⟨hseen, passed, hfront, hlength⟩ := hobserver
  cases rest with
  | nil => exact ⟨hfollows.forwards, hseen, hfollows.finished, hfollows.completed⟩
  | cons row rest =>
      have hidx := idx_of_passed hindexed hfront
      rw [Client.walk]
      split_ifs with hnew
      · -- a row beyond the highest index is the next one
        refine ⟨hfollows.forwards, ?_, hfollows.finished, hfollows.completed⟩
        have hnext : passed.length = client.forwarded.length := by omega
        exact ⟨by rw [hidx, hnext]; rfl, passed, hfront, hnext⟩
      · refine ⟨hfollows.forwards, ?_, hfollows.finished, hfollows.completed⟩
        refine ⟨hseen, passed ++ [row], by simpa using hfront, ?_⟩
        have hpassed : passed.length < client.forwarded.length := by omega
        rw [List.length_append, List.length_singleton]
        exact hpassed

theorem Client.Follows.send (hfollows : client.Follows rows canceled)
    (hnone : client.outcome = none) {row : TokenRow} {rest : List TokenRow}
    (hphase : client.observer = .sending row rest) :
    (client.send row rest).Follows rows canceled := by
  have hobserver := hfollows.observer
  rw [hphase] at hobserver
  obtain ⟨hseen, passed, hfront, hlength⟩ := hobserver
  rw [Client.send]
  split
  · next hopen =>
      have hforwarded := forwarded_eq_map hfollows.forwards hfront hlength
      have hmore : client.emitted ++ (client.channel ++ [Token.ofRow row]) =
          (passed ++ [row]).map Token.ofRow := by
        rw [← List.append_assoc, List.map_append, ← hforwarded]
        rfl
      refine ⟨?_, ?_, ?_, ?_⟩
      · rw [Client.forwarded, hmore]
        exact ((List.prefix_append (passed ++ [row]) rest).trans (by simpa using hfront)).map _
      · have hcount : (client.emitted ++ (client.channel ++ [Token.ofRow row])).length =
            passed.length + 1 := by
          rw [hmore, List.length_map, List.length_append, List.length_singleton]
        refine ⟨?_, passed, hfront, hcount.symm⟩
        simp only [Client.forwarded, hcount]
        rw [hseen, ← hlength]
        rfl
      · intro hclosed
        exact absurd (hopen.symm.trans hclosed) nofun
      · intro hcompleted
        exact absurd (hnone.symm.trans hcompleted) nofun
  · exact ⟨hfollows.forwards, trivial, hfollows.finished, hfollows.completed⟩
  · exact ⟨hfollows.forwards, hfollows.observer, hfollows.finished, nofun⟩

theorem Client.Follows.resume (hfollows : client.Follows rows canceled) {row : TokenRow}
    {rest : List TokenRow} (hphase : client.observer = .sent row rest) :
    (client.resume row rest).Follows rows canceled := by
  have hobserver := hfollows.observer
  rw [hphase] at hobserver
  obtain ⟨hseen, passed, hfront, hlength⟩ := hobserver
  have hnext : passed ++ [row] ++ rest <+: rows := by simpa using hfront
  have hcount : (passed ++ [row]).length = client.forwarded.length := by simpa using hlength
  refine ⟨hfollows.forwards, ?_, hfollows.finished, hfollows.completed⟩
  rw [Client.resume]
  split_ifs with hfinal
  · refine ⟨hseen, Token.ofRow row, ?_, by simpa [Token.ofRow] using hfinal⟩
    have hforwarded := forwarded_eq_map hfollows.forwards hnext hcount
    have hrow : row ∈ passed ++ [row] := List.mem_append_right passed (List.mem_singleton_self row)
    exact hforwarded ▸ List.mem_map_of_mem hrow
  · exact ⟨hseen, passed ++ [row], hnext, hcount.le⟩

/-- A close counts only where the channel is open. -/
theorem Client.Follows.close (hfollows : client.Follows rows canceled)
    {completion : Completion}
    (hfinished : completion = .finished → SeenFinal client.forwarded ∨ canceled) :
    (client.close completion).Follows rows canceled := by
  refine ⟨hfollows.forwards, hfollows.observer, ?_, ?_⟩
  · intro hclosed
    simp only [Client.close, Option.some.injEq] at hclosed
    cases hbefore : client.closed with
    | none =>
        rw [hbefore, Option.getD_none] at hclosed
        exact hfinished hclosed
    | some first =>
        rw [hbefore, Option.getD_some] at hclosed
        exact hfollows.finished (hbefore.trans (congrArg some hclosed))
  · intro hcompleted
    obtain ⟨hempty, hclosed⟩ := hfollows.completed hcompleted
    exact ⟨hempty, by rw [Client.close, hclosed]; rfl⟩

end Follows

/-! ## What a client sees -/

section Tables

variable {s : State}

theorem indexed_rowsOf (hinv : SqliteBroker.Inv s) (requestId : ℤ) :
    Indexed (rowsOf s requestId) := by
  rcases List.eq_nil_or_concat (rowsOf s requestId) with hnil | ⟨rows, row, hrows⟩
  · rw [hnil]
    exact SqliteBroker.indexed_nil
  · have hmem : row ∈ rowsOf s requestId := by simp [hrows]
    rw [rowsOf, List.mem_filter, decide_eq_true_eq] at hmem
    obtain ⟨hrow, rfl⟩ := hmem
    obtain ⟨request, hrequest, hid⟩ := hinv.toTables.exists_request hrow
    rw [← hid]
    exact (hinv.consistent request hrequest).indexed

/-- The query gives the rows of the request in the order in which they were inserted. -/
theorem tokensAfter_eq {requestId : ℤ} (hindexed : Indexed (rowsOf s requestId)) :
    tokensAfter s requestId (-1) = rowsOf s requestId := by
  have hall : ((tokenRows s).filter fun row => row.requestId = requestId ∧ row.idx > -1) =
      rowsOf s requestId := by
    refine List.filter_congr fun row hrow => ?_
    by_cases hid : row.requestId = requestId
    · have hmem : row ∈ rowsOf s requestId := by
        rw [rowsOf, List.mem_filter, decide_eq_true_eq]
        exact ⟨hrow, hid⟩
      obtain ⟨j, hj⟩ := List.getElem?_of_mem hmem
      have hidx := (hindexed j row hj).1
      simp only [hid, true_and, decide_true, decide_eq_true_eq]
      omega
    · simp [hid]
  have hsorted : (rowsOf s requestId).Pairwise fun a b => a.idx ≤ b.idx := by
    rw [List.pairwise_iff_getElem]
    intro i j hi hj hij
    rw [(hindexed i _ (List.getElem?_eq_getElem hi)).1,
      (hindexed j _ (List.getElem?_eq_getElem hj)).1]
    omega
  rw [tokensAfter, hall]
  exact hsorted.insertionSort_eq

theorem hasStatus_of_statusOf {requestId : ℤ} {status : RequestStatus}
    (hstatus : statusOf s requestId = some status) : HasStatus s requestId status := by
  rw [statusOf, Option.map_eq_some_iff] at hstatus
  obtain ⟨row, hfind, rfl⟩ := hstatus
  exact ⟨row, List.mem_of_find?_eq_some hfind, by simpa using List.find?_some hfind, rfl⟩

def Client.Watches (s : State) (client : Client) : Prop :=
  client.Follows (rowsOf s client.requestId) (HasStatus s client.requestId .canceled)

theorem Client.Watches.status {client : Client} (hwatches : client.Watches s) :
    (client.status (statusOf s client.requestId)).Follows (rowsOf s client.requestId)
      (HasStatus s client.requestId .canceled) := by
  unfold Client.status
  split
  · exact hwatches.close nofun
  · next hstatus => exact hwatches.close fun _ => .inr (hasStatus_of_statusOf hstatus)
  · exact hwatches

inductive ClientMoves (s : State) (client : Client) : Client → Prop
  | observe (hphase : client.observer = .waiting) : ClientMoves s client
      { client with observer := .walking (tokensAfter s client.requestId (-1)) }
  | walk {rows : List TokenRow} (hphase : client.observer = .walking rows) :
      ClientMoves s client (client.walk rows)
  | send {row : TokenRow} {rows : List TokenRow} (hphase : client.observer = .sending row rows) :
      ClientMoves s client (client.send row rows)
  | resume {row : TokenRow} {rows : List TokenRow} (hphase : client.observer = .sent row rows) :
      ClientMoves s client (client.resume row rows)
  | close (hphase : client.observer = .closing) :
      ClientMoves s client { client.close .finished with observer := .waiting }
  | status : ClientMoves s client (client.status (statusOf s client.requestId))
  | receive {token : Token} {tokens : List Token} (hchannel : client.channel = token :: tokens) :
      ClientMoves s client
        { client with channel := tokens, emitted := client.emitted ++ [token] }
  | finish {completion : Completion} (hempty : client.channel = [])
      (hclosed : client.closed = some completion) : ClientMoves s client (client.finish completion)
  | abandon : ClientMoves s client { client with outcome := some .abandoned }

theorem clientMoves_of_step {client next : Client} {action : ClientAction}
    (hstep : clientStep s client action = some next) :
    client.outcome = none ∧ ClientMoves s client next := by
  unfold clientStep at hstep
  by_cases houtcome : client.outcome = none
  · refine ⟨houtcome, ?_⟩
    rw [if_neg (not_not.mpr houtcome)] at hstep
    split at hstep
    · next hphase =>
        cases hstep
        exact .observe hphase
    · next hphase =>
        cases hstep
        exact .walk hphase
    · next hphase =>
        cases hstep
        exact .send hphase
    · next hphase =>
        obtain ⟨-, hsome⟩ := Option.ite_none_right_eq_some.mp hstep
        cases hsome
        exact .resume hphase
    · next hphase =>
        cases hstep
        exact .close hphase
    · cases hstep
      exact .status
    · split at hstep
      · cases hstep
      · next hchannel =>
          cases hstep
          exact .receive hchannel
    · obtain ⟨hempty, hsome⟩ := Option.ite_none_right_eq_some.mp hstep
      obtain ⟨completion, hclosed, rfl⟩ := Option.map_eq_some_iff.mp hsome
      exact .finish hempty hclosed
    · cases hstep
      exact .abandon
    · cases hstep
  · rw [if_pos houtcome] at hstep
    cases hstep

theorem ClientMoves.requestId {client next : Client} (hmoves : ClientMoves s client next) :
    next.requestId = client.requestId := by
  cases hmoves with
  | @walk rows hphase =>
      cases rows with
      | nil => rfl
      | cons row rows =>
          rw [Client.walk]
          split_ifs <;> rfl
  | send hphase =>
      unfold Client.send
      split <;> rfl
  | status =>
      unfold Client.status
      split <;> rfl
  | @finish completion hempty hclosed => cases completion <;> rfl
  | observe hphase => rfl
  | resume hphase => rfl
  | close hphase => rfl
  | receive hchannel => rfl
  | abandon => rfl

theorem Client.Watches.receive {client : Client} (hwatches : client.Watches s)
    (hnone : client.outcome = none) {token : Token} {tokens : List Token}
    (hchannel : client.channel = token :: tokens) :
    Client.Watches s { client with channel := tokens, emitted := client.emitted ++ [token] } := by
  have hsame : client.emitted ++ [token] ++ tokens = client.forwarded := by
    rw [Client.forwarded, hchannel, List.append_assoc]
    rfl
  refine ⟨?_, ?_, ?_, ?_⟩
  · rw [Client.forwarded, hsame]
    exact hwatches.forwards
  · rw [Client.forwarded, hsame]
    exact hwatches.observer
  · rw [Client.forwarded, hsame]
    exact hwatches.finished
  · intro hcompleted
    exact absurd (hnone.symm.trans hcompleted) nofun

theorem Client.Watches.step (hinv : SqliteBroker.Inv s) {client next : Client}
    {action : ClientAction} (hwatches : client.Watches s)
    (hstep : clientStep s client action = some next) : next.Watches s := by
  obtain ⟨hnone, hmoves⟩ := clientMoves_of_step hstep
  have hindexed := indexed_rowsOf hinv client.requestId
  have hobserver := hwatches.observer
  rw [Client.Watches, hmoves.requestId]
  cases hmoves with
  | observe hphase =>
      rw [hphase] at hobserver
      refine ⟨hwatches.forwards, ?_, hwatches.finished, hwatches.completed⟩
      refine ⟨hobserver, [], ?_, Nat.zero_le _⟩
      rw [List.nil_append, tokensAfter_eq hindexed]
  | walk hphase => exact hwatches.walk hindexed hphase
  | send hphase => exact hwatches.send hnone hphase
  | resume hphase => exact hwatches.resume hphase
  | close hphase =>
      rw [hphase] at hobserver
      have hclose := Client.Follows.close hwatches fun _ : Completion.finished = .finished =>
        .inl hobserver.2
      exact ⟨hclose.forwards, hobserver.1, hclose.finished, hclose.completed⟩
  | status => exact hwatches.status
  | receive hchannel => exact hwatches.receive hnone hchannel
  | @finish completion hempty hclosed =>
      cases completion with
      | finished =>
          exact ⟨hwatches.forwards, hwatches.observer, hwatches.finished,
            fun _ => ⟨hempty, hclosed⟩⟩
      | faulted => exact ⟨hwatches.forwards, hwatches.observer, hwatches.finished, nofun⟩
  | abandon => exact ⟨hwatches.forwards, hwatches.observer, hwatches.finished, nofun⟩

end Tables

/-! ## Runs -/

structure Inv (s : System) : Prop where
  broker : SqliteBroker.Inv s.broker
  clients : ∀ client ∈ s.clients, client.Watches s.broker

section Runs

variable {s next : State} {client : Client}

theorem rowsOf_isPrefix (hgrows : s.rows <+: next.rows) (requestId : ℤ) :
    rowsOf s requestId <+: rowsOf next requestId :=
  (hgrows.map SqliteBroker.WrittenRow.row).filter _

theorem canceled_of_keeps (hkeeps : SqliteBroker.StepKeeps s next) {requestId : ℤ}
    (hcanceled : HasStatus s requestId .canceled) : HasStatus next requestId .canceled := by
  obtain ⟨row, hrow, hid, hstatus⟩ := hcanceled
  obtain ⟨after, hafter, hsame, hmove⟩ := hkeeps.moves row hrow
  rw [hstatus] at hmove
  refine ⟨after, hafter, hsame.trans hid, ?_⟩
  generalize after.status = status at hmove
  cases hmove
  rfl

theorem Client.Watches.keeps (hwatches : client.Watches s)
    (hkeeps : SqliteBroker.StepKeeps s next) : client.Watches next :=
  hwatches.mono (rowsOf_isPrefix hkeeps.grows client.requestId) (canceled_of_keeps hkeeps)

theorem Client.Watches.kill (hwatches : client.Watches s) : client.kill.Watches s := by
  refine ⟨hwatches.forwards, hwatches.observer, hwatches.finished, ?_⟩
  intro hcompleted
  refine hwatches.completed ?_
  simp only [Client.kill, Option.some.injEq] at hcompleted
  cases houtcome : client.outcome with
  | none =>
      rw [houtcome, Option.getD_none] at hcompleted
      cases hcompleted
  | some outcome =>
      rw [houtcome, Option.getD_some] at hcompleted
      rw [hcompleted]

theorem watches_of_survives {clients : List Client} (action : SqliteBroker.Action)
    (hclients : ∀ client ∈ clients, client.Watches s) :
    ∀ client ∈ survivors clients action, client.Watches s := by
  cases action with
  | crash =>
      intro client hclient
      obtain ⟨before, hbefore, rfl⟩ := List.mem_map.mp hclient
      exact (hclients before hbefore).kill
  | _ => exact hclients

/-- A client starts before the first row of its request. -/
theorem watches_of_stream (hinv : SqliteBroker.Inv s) (prompt : String) (maxTokens : ℤ) :
    Client.Watches (SqliteBroker.insert s prompt maxTokens) { requestId := s.nextId } := by
  have hempty : rowsOf (SqliteBroker.insert s prompt maxTokens) s.nextId = [] :=
    hinv.toTables.rowsOf_nextId
  rw [Client.Watches, hempty]
  exact ⟨List.nil_prefix, rfl, nofun, nofun⟩

end Runs

section System

variable {lines : List String} {s next : System} {action : SystemAction}

inductive SystemMoves (lines : List String) (s : System) : SystemAction → System → Prop
  | broker {action : SqliteBroker.Action} {broker : State}
      (hbroker : (SqliteBroker.machine lines).step s.broker action = some broker) :
      SystemMoves lines s (.broker action) ⟨broker, survivors s.clients action⟩
  | stream (prompt : String) (maxTokens : ℤ) :
      SystemMoves lines s (.stream prompt maxTokens)
        ⟨SqliteBroker.insert s.broker prompt maxTokens,
          s.clients ++ [{ requestId := s.broker.nextId }]⟩
  | client {c : ℕ} {action : ClientAction} {client after : Client}
      (hclient : s.clients[c]? = some client)
      (hafter : clientStep s.broker client action = some after) :
      SystemMoves lines s (.client c action) { s with clients := s.clients.set c after }

theorem systemMoves_of_step (hstep : (machine lines).step s action = some next) :
    SystemMoves lines s action next := by
  cases action with
  | broker action =>
      simp only [machine, step, Option.bind_eq_bind, Option.bind_eq_some_iff] at hstep
      obtain ⟨broker, hbroker, hnext⟩ := hstep
      cases hnext
      exact .broker hbroker
  | stream prompt maxTokens =>
      cases hstep
      exact .stream prompt maxTokens
  | client c action =>
      simp only [machine, step, Option.bind_eq_bind, Option.bind_eq_some_iff] at hstep
      obtain ⟨client, hclient, after, hafter, hnext⟩ := hstep
      cases hnext
      exact .client hclient hafter

/-- A step of the system is a statement of the broker or leaves its state alone. -/
theorem keeps_of_step (hinv : Inv s) (hstep : (machine lines).step s action = some next) :
    SqliteBroker.StepKeeps s.broker next.broker := by
  cases systemMoves_of_step hstep with
  | broker hbroker => exact SqliteBroker.stepKeeps_of_step hinv.broker hbroker
  | stream prompt maxTokens =>
      have hinsert : (SqliteBroker.machine lines).step s.broker (.insert prompt maxTokens) =
          some (SqliteBroker.insert s.broker prompt maxTokens) := rfl
      exact SqliteBroker.stepKeeps_of_step hinv.broker hinsert
  | client hclient hafter =>
      exact .of_tables rfl rfl fun i requestId hheld hnot => absurd hheld hnot

theorem inv_step (hlines : lines.length < 2 ^ 31) (hinv : Inv s)
    (hsequential : sequential s action = true)
    (hstep : (machine lines).step s action = some next) : Inv next := by
  have hkeeps := keeps_of_step hinv hstep
  have hkept : ∀ client ∈ s.clients, client.Watches next.broker := fun client hclient =>
    (hinv.clients client hclient).keeps hkeeps
  cases systemMoves_of_step hstep with
  | broker hbroker =>
      exact ⟨SqliteBroker.inv_step hlines hinv.broker hsequential hbroker,
        watches_of_survives _ hkept⟩
  | stream prompt maxTokens =>
      refine ⟨hinv.broker.insert prompt maxTokens, ?_⟩
      intro client hclient
      rcases List.mem_append.mp hclient with hold | hnew
      · exact hkept client hold
      · rw [List.mem_singleton.mp hnew]
        exact watches_of_stream hinv.broker prompt maxTokens
  | client hclient hafter =>
      refine ⟨hinv.broker, ?_⟩
      intro other hother
      rcases List.mem_or_eq_of_mem_set hother with hold | rfl
      · exact hinv.clients other hold
      · exact (hinv.clients _ (List.mem_of_getElem? hclient)).step hinv.broker hafter

theorem inv_initial : Inv {} :=
  ⟨SqliteBroker.inv_initial, fun _ hclient => absurd hclient List.not_mem_nil⟩

end System

/-! ## The queue -/

/-- The tables of the broker, and the request that is being processed. -/
structure Queue (s : State) : Prop where
  consistent : ∀ row ∈ s.requests, SqliteBroker.Consistent row.status (rowsOf s row.id)
  single : ∀ i j a b, SqliteBroker.heldAt s i = some a → SqliteBroker.heldAt s j = some b → i = j

/-- What a collector of the flow may rely on. -/
structure Observes (s : State) (client : Client) : Prop where
  emits : client.emitted <+: (rowsOf s client.requestId).map Token.ofRow
  indices : ∀ (j : ℕ) (token : Token), client.emitted[j]? = some token → token.idx = j
  completes : client.outcome = some .completed →
    SeenFinal client.emitted ∨ HasStatus s client.requestId .canceled

theorem queue_of_inv {s : State} (hinv : SqliteBroker.Inv s) : Queue s where
  consistent := hinv.consistent
  single := by
    intro i j a b hi hj
    obtain ⟨p, hp, hheldp⟩ := Option.bind_eq_some_iff.mp hi
    obtain ⟨q, hq, hheldq⟩ := Option.bind_eq_some_iff.mp hj
    refine hinv.single i j p q hp hq ?_ ?_
    · rintro rfl
      cases hheldp
    · rintro rfl
      cases hheldq

theorem Client.Watches.observes {s : State} {client : Client} (hinv : SqliteBroker.Inv s)
    (hwatches : client.Watches s) : Observes s client where
  emits := (List.prefix_append _ _).trans hwatches.forwards
  indices := by
    intro j token htoken
    obtain ⟨rest, hrest⟩ := (List.prefix_append client.emitted client.channel).trans
      hwatches.forwards
    have hrow : ((rowsOf s client.requestId).map Token.ofRow)[j]? = some token := by
      rw [← hrest, List.getElem?_append_left (List.getElem?_eq_some_iff.mp htoken).1]
      exact htoken
    rw [List.getElem?_map, Option.map_eq_some_iff] at hrow
    obtain ⟨row, hrow, rfl⟩ := hrow
    exact (indexed_rowsOf hinv client.requestId j row hrow).1
  completes := by
    intro hcompleted
    obtain ⟨hempty, hclosed⟩ := hwatches.completed hcompleted
    have hfinal := hwatches.finished hclosed
    rw [Client.forwarded, hempty, List.append_nil] at hfinal
    exact hfinal

/-- Over every run with one poll loop at a time: the tables agree with the statuses, each
step moves requests on and takes up the oldest one, and every client emits a prefix of the
rows and completes behind the final one. -/
theorem queue_invariant (catalog : LanguageFeatureCatalog) {actions : List SystemAction}
    {t : System}
    (hrun : (machine (LanguageFeatures.showcase catalog.descriptors)).run {} actions = some t)
    (hsequential : (machine (LanguageFeatures.showcase catalog.descriptors)).RunMeets
      (fun s action => sequential s action = true) {} actions) :
    Queue t.broker ∧ (∀ client ∈ t.clients, Observes t.broker client) ∧
      (machine (LanguageFeatures.showcase catalog.descriptors)).RunMeets
        (fun s action => ∀ next,
          (machine (LanguageFeatures.showcase catalog.descriptors)).step s action = some next →
            SqliteBroker.StepKeeps s.broker next.broker) {} actions := by
  have hpreserve := fun s action next (hinv : Inv s) (hsequential : sequential s action = true)
    (hstep : (machine (LanguageFeatures.showcase catalog.descriptors)).step s action =
      some next) => inv_step catalog.short hinv hsequential hstep
  have hinv := Machine.run_invariant _ hpreserve inv_initial hsequential hrun
  refine ⟨queue_of_inv hinv.broker, ?_, ?_⟩
  · intro client hclient
    exact (hinv.clients client hclient).observes hinv.broker
  · exact Machine.runMeets_imp _ hpreserve
      (fun s action hinv _ next hstep => keeps_of_step hinv hstep) inv_initial hsequential

/-- The client has emitted one of the two rows when the process dies; the next broker leaves
the request as it is. -/
def killedMidway : List SystemAction :=
  [.stream "hi" 256, .broker .start, .broker (.poll 0), .broker (.claim 0 none),
    .broker (.insertRow 0), .client 0 .observe, .client 0 .walk, .broker (.insertRow 0),
    .client 0 .send, .client 0 .status, .client 0 .resume, .client 0 .receive, .broker .crash,
    .broker .start, .broker (.poll 1)]

theorem queue_invariant_killedMidway :
    ∃ t, (machine (LanguageFeatures.showcase LanguageFeatureCatalog.bare.descriptors)).run {}
        killedMidway = some t ∧
      t.broker.rows.length = 2 ∧ t.clients.map (fun client => client.emitted.length) = [1] ∧
      Queue t.broker ∧ ∀ client ∈ t.clients, Observes t.broker client := by
  have hsequential := Machine.runMeets_of_check
    (machine (LanguageFeatures.showcase LanguageFeatureCatalog.bare.descriptors))
    (show Machine.check _ sequential {} killedMidway = true by decide)
  obtain ⟨hqueue, hobserves, -⟩ := queue_invariant .bare rfl hsequential
  exact ⟨_, rfl, rfl, rfl, hqueue, hobserves⟩

end SqliteClient

end NativeInterop
