import NativeInterop.DropOldestRing
import NativeInterop.Evolution
import NativeInterop.Machine
import Mathlib.Order.CompletePartialOrder

/-!
# Traces, logs and metrics of the engine

`EngineTrace` and `EngineLog` keep their records in drop-oldest rings behind a lock each;
`EngineMetrics` accumulates the measurements of the `Dni.Engine` meter behind a lock of its
own.  A `Record` call takes the lock of the metrics twice before it enters the lock of the
ring, so other calls may come in between.

Times are `double`s in the source.  Nothing here depends on their arithmetic: `Us` is any
type with the operations the source uses.
-/

namespace NativeInterop

/-! ## Metrics -/

inductive Transport where
  | ffi
  | http
  | sqlite
  | pb
  deriving DecidableEq, Repr

/-- The `Counter<long>` instruments, with the tags they are recorded under. -/
inductive Counter where
  | spansRecorded
  | spansDropped
  | requests (transport : Transport)
  | agentTurns
  | agentToolCalls (tool : String)
  deriving DecidableEq, Repr

structure DurationAccumulator (Us : Type) where
  count : ℕ
  sum : Us
  min : Us
  max : Us
  deriving DecidableEq, Repr

structure EngineMetrics (Us : Type) where
  spansRecorded : ℕ := 0
  spansDropped : ℕ := 0
  requestsFfi : ℕ := 0
  requestsHttp : ℕ := 0
  requestsSqlite : ℕ := 0
  requestsPb : ℕ := 0
  agentTurns : ℕ := 0
  agentToolCalls : List (String × ℕ) := []
  operationDurations : List (String × DurationAccumulator Us) := []
  deriving DecidableEq, Repr

namespace EngineMetrics

/-- `dictionary[key] = update(dictionary[key])`, from a fresh value where there is none. -/
def upsert {β : Type} (key : String) (fresh : β) (update : β → β) :
    List (String × β) → List (String × β)
  | [] => [(key, update fresh)]
  | (first, value) :: rest =>
      if first = key then (first, update value) :: rest
      else (first, value) :: upsert key fresh update rest

variable {Us : Type}

def addRequest (metrics : EngineMetrics Us) (delta : ℕ) : Transport → EngineMetrics Us
  | .ffi => { metrics with requestsFfi := metrics.requestsFfi + delta }
  | .http => { metrics with requestsHttp := metrics.requestsHttp + delta }
  | .sqlite => { metrics with requestsSqlite := metrics.requestsSqlite + delta }
  | .pb => { metrics with requestsPb := metrics.requestsPb + delta }

def onLongMeasurement (metrics : EngineMetrics Us) (measurement : ℕ) :
    Counter → EngineMetrics Us
  | .spansRecorded => { metrics with spansRecorded := metrics.spansRecorded + measurement }
  | .spansDropped => { metrics with spansDropped := metrics.spansDropped + measurement }
  | .requests transport => metrics.addRequest measurement transport
  | .agentTurns => { metrics with agentTurns := metrics.agentTurns + measurement }
  | .agentToolCalls tool =>
      { metrics with
        agentToolCalls := upsert tool 0 (· + measurement) metrics.agentToolCalls }

def durationCount (metrics : EngineMetrics Us) : ℕ :=
  (metrics.operationDurations.map fun entry => entry.2.count).sum

variable [Zero Us] [Add Us] [LT Us] [DecidableLT Us] [Top Us] [Bot Us]

def freshAccumulator : DurationAccumulator Us where
  count := 0
  sum := 0
  min := ⊤
  max := ⊥

def accumulate (measurement : Us) (acc : DurationAccumulator Us) : DurationAccumulator Us where
  count := acc.count + 1
  sum := acc.sum + measurement
  min := if measurement < acc.min then measurement else acc.min
  max := if acc.max < measurement then measurement else acc.max

/-- The histogram `dni.span.duration`, tagged by operation. -/
def onDoubleMeasurement (metrics : EngineMetrics Us) (op : String) (measurement : Us) :
    EngineMetrics Us :=
  { metrics with
    operationDurations :=
      upsert op freshAccumulator (accumulate measurement) metrics.operationDurations }

theorem sum_count_upsert (op : String) (measurement : Us)
    (durations : List (String × DurationAccumulator Us)) :
    ((upsert op freshAccumulator (accumulate measurement) durations).map
        fun entry => entry.2.count).sum =
      (durations.map fun entry => entry.2.count).sum + 1 := by
  induction durations with
  | nil => rfl
  | cons entry durations ih =>
      obtain ⟨first, acc⟩ := entry
      unfold upsert
      split_ifs
      · simp only [List.map_cons, List.sum_cons, accumulate]
        omega
      · rw [List.map_cons, List.sum_cons, ih, List.map_cons, List.sum_cons]
        omega

theorem durationCount_onDoubleMeasurement (metrics : EngineMetrics Us) (op : String)
    (measurement : Us) :
    (metrics.onDoubleMeasurement op measurement).durationCount = metrics.durationCount + 1 :=
  sum_count_upsert op measurement metrics.operationDurations

end EngineMetrics

/-! ## Spans -/

structure TraceSpan (Us : Type) where
  name : String
  startUs : Us
  durUs : Us
  requestId : Option String
  status : Option String
  toolArgs : Option String
  toolResult : Option String
  deriving DecidableEq, Repr

/-- The `dni_trace_drain` payload. -/
structure TraceDrain (Us : Type) where
  nowUs : Us
  dropped : ℕ
  capacity : ℕ
  spans : List (TraceSpan Us)
  deriving DecidableEq, Repr

def TraceDrain.drained {Us : Type} (drain : TraceDrain Us) : Drained (TraceSpan Us) where
  dropped := drain.dropped
  items := drain.spans

inductive ActivityStatusCode where
  | unset
  | ok
  | error
  deriving DecidableEq, Repr

def ActivityStatusCode.text : ActivityStatusCode → String
  | .unset => "Unset"
  | .ok => "Ok"
  | .error => "Error"

/-- A stopped activity, with its string tags. -/
structure Activity (Us : Type) where
  operationName : String
  duration : Us
  status : ActivityStatusCode
  tags : List (String × String)
  deriving DecidableEq, Repr

namespace EngineTrace

def capacity : ℕ := 512

section Span

variable {Us : Type} [Sub Us] (round : Us → Us)

/-- The first statements of `Record`. -/
def spanOf (activity : Activity Us) (nowUs : Us) : TraceSpan Us where
  name := activity.operationName
  startUs := round (nowUs - activity.duration)
  durUs := round activity.duration
  requestId := activity.tags.lookup "dni.request_id"
  status := if activity.status = .unset then none else some activity.status.text
  toolArgs := activity.tags.lookup "dni.agent.tool_args"
  toolResult := activity.tags.lookup "dni.agent.tool_result"

end Span

/-! ## Concurrent calls -/

/-- How far a `Record` call has come: it adds to `dni.spans.recorded`, records the duration
and enters the lock of the ring. -/
inductive RecordPhase where
  | entered
  | counted
  | timed
  | done
  deriving DecidableEq, Repr

structure RecordCall (Us : Type) where
  span : TraceSpan Us
  durUs : Us
  phase : RecordPhase
  deriving DecidableEq, Repr

/-- `journal` holds the critical sections of the ring in the order of their execution, and
`drains` what the drains among them have returned. -/
structure State (Us : Type) where
  log : DrainRing (TraceSpan Us)
  metrics : EngineMetrics Us
  calls : List (RecordCall Us)
  journal : List (DrainRing.Op (TraceSpan Us))
  drains : List (TraceDrain Us)

/-- The counters other than those of the spans are touched by single calls. -/
inductive Action (Us : Type) where
  | enter (activity : Activity Us) (nowUs : Us)
  | addRecorded (i : ℕ)
  | recordDuration (i : ℕ)
  | commit (i : ℕ)
  | drain (nowUs : Us)
  | recordRequest (transport : Transport)
  | recordAgentTurn
  | recordAgentToolCall (tool : String)
  deriving DecidableEq, Repr

variable {Us : Type}

def initial : State Us where
  log := DrainRing.create capacity (by decide)
  metrics := {}
  calls := []
  journal := []
  drains := []

def setPhase (s : State Us) (i : ℕ) (call : RecordCall Us) (phase : RecordPhase) :
    List (RecordCall Us) :=
  s.calls.set i { call with phase := phase }

/-- The locked section of `Record`; `dni.spans.dropped` is counted inside it. -/
def commit (s : State Us) (i : ℕ) (call : RecordCall Us) : State Us :=
  { s with
    log := s.log.record call.span
    metrics :=
      if s.log.ring.isFull then s.metrics.onLongMeasurement 1 .spansDropped else s.metrics
    calls := setPhase s i call .done
    journal := s.journal ++ [.record call.span] }

/-- What `Drain` returns. -/
def drainOf (round : Us → Us) (s : State Us) (nowUs : Us) : TraceDrain Us where
  nowUs := round nowUs
  dropped := s.log.drained.dropped
  capacity := capacity
  spans := s.log.drained.items

def drain (round : Us → Us) (s : State Us) (nowUs : Us) : State Us :=
  { s with
    log := s.log.drain
    journal := s.journal ++ [.drain]
    drains := s.drains ++ [drainOf round s nowUs] }

def count (s : State Us) (counter : Counter) : State Us :=
  { s with metrics := s.metrics.onLongMeasurement 1 counter }

def addRecorded (s : State Us) (i : ℕ) (call : RecordCall Us) : State Us :=
  { s with
    metrics := s.metrics.onLongMeasurement 1 .spansRecorded
    calls := setPhase s i call .counted }

def callAt (s : State Us) (i : ℕ) (phase : RecordPhase) : Option (RecordCall Us) :=
  s.calls[i]?.filter fun call => call.phase = phase

theorem callAt_eq_some {s : State Us} {i : ℕ} {phase : RecordPhase} {call : RecordCall Us}
    (hcall : callAt s i phase = some call) : s.calls[i]? = some call ∧ call.phase = phase := by
  rw [callAt, Option.filter_eq_some_iff] at hcall
  exact ⟨hcall.1, of_decide_eq_true hcall.2⟩

section Machine

variable [Zero Us] [Add Us] [Sub Us] [LT Us] [DecidableLT Us] [Top Us] [Bot Us]

def recordDuration (s : State Us) (i : ℕ) (call : RecordCall Us) : State Us :=
  { s with
    metrics := s.metrics.onDoubleMeasurement call.span.name call.durUs
    calls := setPhase s i call .timed }

def step (round : Us → Us) (s : State Us) : Action Us → Option (State Us)
  | .enter activity nowUs =>
      some { s with
        calls := s.calls ++ [⟨spanOf round activity nowUs, activity.duration, .entered⟩] }
  | .addRecorded i => (callAt s i .entered).map (addRecorded s i)
  | .recordDuration i => (callAt s i .counted).map (recordDuration s i)
  | .commit i => (callAt s i .timed).map (commit s i)
  | .drain nowUs => some (drain round s nowUs)
  | .recordRequest transport => some (count s (.requests transport))
  | .recordAgentTurn => some (count s .agentTurns)
  | .recordAgentToolCall tool => some (count s (.agentToolCalls tool))

def machine (round : Us → Us) : Machine (State Us) (Action Us) where
  step := step round

inductive Moves (round : Us → Us) (s : State Us) : State Us → Prop
  | enter (call : RecordCall Us) (hphase : call.phase = .entered) :
      Moves round s { s with calls := s.calls ++ [call] }
  | addRecorded {i : ℕ} {call : RecordCall Us} (hcall : s.calls[i]? = some call)
      (hphase : call.phase = .entered) : Moves round s (addRecorded s i call)
  | recordDuration {i : ℕ} {call : RecordCall Us} (hcall : s.calls[i]? = some call)
      (hphase : call.phase = .counted) : Moves round s (recordDuration s i call)
  | commit {i : ℕ} {call : RecordCall Us} (hcall : s.calls[i]? = some call)
      (hphase : call.phase = .timed) : Moves round s (commit s i call)
  | drain (nowUs : Us) : Moves round s (drain round s nowUs)
  | count (counter : Counter) (hrecorded : counter ≠ .spansRecorded)
      (hdropped : counter ≠ .spansDropped) : Moves round s (count s counter)

theorem moves_of_step {round : Us → Us} {s next : State Us} {action : Action Us}
    (hstep : (machine round).step s action = some next) : Moves round s next := by
  cases action with
  | enter activity nowUs =>
      cases hstep
      exact .enter _ rfl
  | addRecorded i =>
      obtain ⟨call, hcall, rfl⟩ := Option.map_eq_some_iff.mp hstep
      exact .addRecorded (callAt_eq_some hcall).1 (callAt_eq_some hcall).2
  | recordDuration i =>
      obtain ⟨call, hcall, rfl⟩ := Option.map_eq_some_iff.mp hstep
      exact .recordDuration (callAt_eq_some hcall).1 (callAt_eq_some hcall).2
  | commit i =>
      obtain ⟨call, hcall, rfl⟩ := Option.map_eq_some_iff.mp hstep
      exact .commit (callAt_eq_some hcall).1 (callAt_eq_some hcall).2
  | drain nowUs =>
      cases hstep
      exact .drain nowUs
  | recordRequest transport =>
      cases hstep
      exact .count _ nofun nofun
  | recordAgentTurn =>
      cases hstep
      exact .count _ nofun nofun
  | recordAgentToolCall tool =>
      cases hstep
      exact .count _ nofun nofun

end Machine

/-! ## The invariant -/

/-- Counted by `dni.spans.recorded`, and not yet in the ring. -/
def isCounted (call : RecordCall Us) : Bool := call.phase = .counted ∨ call.phase = .timed

def isTimed (call : RecordCall Us) : Bool := call.phase = .timed

structure Inv (s : State Us) : Prop where
  refines : DrainRing.Refines capacity s.journal (s.drains.map TraceDrain.drained) s.log
  recorded : s.metrics.spansRecorded = s.log.recordedTotal + s.calls.countP isCounted
  timed : s.metrics.durationCount = s.log.recordedTotal + s.calls.countP isTimed
  dropped : s.metrics.spansDropped = s.log.droppedTotal

theorem inv_initial : Inv (initial : State Us) where
  refines := DrainRing.refines_create capacity (by decide)
  recorded := rfl
  timed := rfl
  dropped := rfl

theorem countP_setPhase (p : RecordCall Us → Bool) (before after : Bool) {s : State Us} {i : ℕ}
    {call : RecordCall Us} {phase : RecordPhase} (hcall : s.calls[i]? = some call)
    (hbefore : p call = before) (hafter : p { call with phase := phase } = after) :
    (setPhase s i call phase).countP p + before.toNat = s.calls.countP p + after.toNat := by
  have hset := countP_set_of_getElem? { call with phase := phase } p hcall
  rw [hbefore, hafter] at hset
  cases before <;> cases after <;> exact hset

/-- The other counters of the meter have nothing to do with the spans. -/
theorem onLongMeasurement_other (metrics : EngineMetrics Us) {counter : Counter}
    (hrecorded : counter ≠ .spansRecorded) (hdropped : counter ≠ .spansDropped) :
    (metrics.onLongMeasurement 1 counter).spansRecorded = metrics.spansRecorded ∧
      (metrics.onLongMeasurement 1 counter).spansDropped = metrics.spansDropped ∧
      (metrics.onLongMeasurement 1 counter).durationCount = metrics.durationCount := by
  cases counter with
  | spansRecorded => exact absurd rfl hrecorded
  | spansDropped => exact absurd rfl hdropped
  | requests transport => cases transport <;> exact ⟨rfl, rfl, rfl⟩
  | agentTurns => exact ⟨rfl, rfl, rfl⟩
  | agentToolCalls tool => exact ⟨rfl, rfl, rfl⟩

section Steps

variable {s : State Us} {i : ℕ} {call : RecordCall Us}

theorem Inv.enter (hinv : Inv s) (hphase : call.phase = .entered) :
    Inv { s with calls := s.calls ++ [call] } where
  refines := hinv.refines
  recorded := by
    rw [List.countP_append, hinv.recorded]
    simp [isCounted, hphase]
  timed := by
    rw [List.countP_append, hinv.timed]
    simp [isTimed, hphase]
  dropped := hinv.dropped

theorem Inv.addRecorded (hinv : Inv s) (hcall : s.calls[i]? = some call)
    (hphase : call.phase = .entered) : Inv (EngineTrace.addRecorded s i call) := by
  have hcounted : (setPhase s i call .counted).countP isCounted = s.calls.countP isCounted + 1 :=
    countP_setPhase isCounted false true hcall (by simp [isCounted, hphase]) rfl
  have htimed : (setPhase s i call .counted).countP isTimed = s.calls.countP isTimed :=
    countP_setPhase isTimed false false hcall (by simp [isTimed, hphase]) rfl
  constructor
  · exact hinv.refines
  · calc s.metrics.spansRecorded + 1
        = s.log.recordedTotal + (s.calls.countP isCounted + 1) := by rw [hinv.recorded]; rfl
      _ = s.log.recordedTotal + (setPhase s i call .counted).countP isCounted := by rw [hcounted]
  · calc s.metrics.durationCount
        = s.log.recordedTotal + s.calls.countP isTimed := hinv.timed
      _ = s.log.recordedTotal + (setPhase s i call .counted).countP isTimed := by rw [htimed]
  · exact hinv.dropped

theorem Inv.commit (hinv : Inv s) (hcall : s.calls[i]? = some call)
    (hphase : call.phase = .timed) : Inv (EngineTrace.commit s i call) := by
  have hcounted : (setPhase s i call .done).countP isCounted + 1 = s.calls.countP isCounted :=
    countP_setPhase isCounted true false hcall (by simp [isCounted, hphase]) rfl
  have htimed : (setPhase s i call .done).countP isTimed + 1 = s.calls.countP isTimed :=
    countP_setPhase isTimed true false hcall (by simp [isTimed, hphase]) rfl
  -- whether the ring is full or not, the metrics differ in `spansDropped` alone
  have hmetrics : (EngineTrace.commit s i call).metrics.spansRecorded = s.metrics.spansRecorded ∧
      (EngineTrace.commit s i call).metrics.durationCount = s.metrics.durationCount ∧
      (EngineTrace.commit s i call).metrics.spansDropped =
        s.metrics.spansDropped + s.log.ring.isFull.toNat := by
    simp only [EngineTrace.commit]
    cases s.log.ring.isFull <;> exact ⟨rfl, rfl, rfl⟩
  obtain ⟨hsame, hsum, hcount⟩ := hmetrics
  constructor
  · exact hinv.refines.record call.span
  · rw [hsame, hinv.recorded, ← hcounted, Nat.add_comm _ 1, ← Nat.add_assoc]
    rfl
  · rw [hsum, hinv.timed, ← htimed, Nat.add_comm _ 1, ← Nat.add_assoc]
    rfl
  · rw [hcount, hinv.dropped]
    rfl

theorem Inv.drain (hinv : Inv s) (round : Us → Us) (nowUs : Us) :
    Inv (EngineTrace.drain round s nowUs) where
  refines := by
    have hrefines := hinv.refines.drain
    simpa [EngineTrace.drain, drainOf, TraceDrain.drained, DrainRing.drained] using hrefines
  recorded := hinv.recorded
  timed := hinv.timed
  dropped := hinv.dropped

theorem Inv.count (hinv : Inv s) {counter : Counter} (hrecorded : counter ≠ .spansRecorded)
    (hdropped : counter ≠ .spansDropped) : Inv (EngineTrace.count s counter) := by
  obtain ⟨hsame, hlost, hsum⟩ := onLongMeasurement_other s.metrics hrecorded hdropped
  exact ⟨hinv.refines, hsame.trans hinv.recorded, hsum.trans hinv.timed,
    hlost.trans hinv.dropped⟩

/-- With no `Record` call in progress nothing is counted ahead of the ring. -/
theorem Inv.quiescent (hinv : Inv s)
    (hidle : ∀ call ∈ s.calls, call.phase = .done) :
    s.metrics.spansRecorded = s.log.recordedTotal ∧
      s.metrics.durationCount = s.log.recordedTotal := by
  have hnone : ∀ p : RecordCall Us → Bool, (∀ call, call.phase = .done → p call = false) →
      s.calls.countP p = 0 := by
    intro p hp
    rw [List.countP_eq_zero]
    intro call hcall
    rw [hp call (hidle call hcall)]
    exact Bool.false_ne_true
  constructor
  · rw [hinv.recorded, hnone isCounted fun call hdone => by simp [isCounted, hdone], Nat.add_zero]
  · rw [hinv.timed, hnone isTimed fun call hdone => by simp [isTimed, hdone], Nat.add_zero]

theorem Inv.recordDuration [Zero Us] [Add Us] [LT Us] [DecidableLT Us] [Top Us] [Bot Us]
    (hinv : Inv s) (hcall : s.calls[i]? = some call) (hphase : call.phase = .counted) :
    Inv (EngineTrace.recordDuration s i call) := by
  have hcounted : (setPhase s i call .timed).countP isCounted = s.calls.countP isCounted :=
    Nat.succ_injective (countP_setPhase isCounted true true hcall (by simp [isCounted, hphase]) rfl)
  have htimed : (setPhase s i call .timed).countP isTimed = s.calls.countP isTimed + 1 :=
    countP_setPhase isTimed false true hcall (by simp [isTimed, hphase]) rfl
  constructor
  · exact hinv.refines
  · calc s.metrics.spansRecorded
        = s.log.recordedTotal + s.calls.countP isCounted := hinv.recorded
      _ = s.log.recordedTotal + (setPhase s i call .timed).countP isCounted := by rw [hcounted]
  · calc (s.metrics.onDoubleMeasurement call.span.name call.durUs).durationCount
        = s.metrics.durationCount + 1 := EngineMetrics.durationCount_onDoubleMeasurement _ _ _
      _ = s.log.recordedTotal + (s.calls.countP isTimed + 1) := by rw [hinv.timed]; rfl
      _ = s.log.recordedTotal + (setPhase s i call .timed).countP isTimed := by rw [htimed]
  · exact hinv.dropped

end Steps

section Runs

variable [Zero Us] [Add Us] [Sub Us] [LT Us] [DecidableLT Us] [Top Us] [Bot Us]

theorem inv_step {round : Us → Us} {s next : State Us} {action : Action Us} (hinv : Inv s)
    (hstep : (machine round).step s action = some next) : Inv next := by
  cases moves_of_step hstep with
  | enter call hphase => exact hinv.enter hphase
  | addRecorded hcall hphase => exact hinv.addRecorded hcall hphase
  | recordDuration hcall hphase => exact hinv.recordDuration hcall hphase
  | commit hcall hphase => exact hinv.commit hcall hphase
  | drain nowUs => exact hinv.drain round nowUs
  | count counter hrecorded hdropped => exact hinv.count hrecorded hdropped

theorem inv_of_run {round : Us → Us} {t : State Us} {actions : List (Action Us)}
    (hrun : (machine round).run initial actions = some t) : Inv t :=
  (machine round).run_invariant_of_step (fun _ _ _ hinv hstep => inv_step hinv hstep) inv_initial
    hrun

end Runs

end EngineTrace

/-! ## Logs -/

inductive LogLevel where
  | trace
  | debug
  | information
  | warning
  | error
  | critical
  | none
  deriving DecidableEq, Repr

namespace LogLevel

def rank : LogLevel → ℕ
  | .trace => 0
  | .debug => 1
  | .information => 2
  | .warning => 3
  | .error => 4
  | .critical => 5
  | .none => 6

def text : LogLevel → String
  | .trace => "Trace"
  | .debug => "Debug"
  | .information => "Information"
  | .warning => "Warning"
  | .error => "Error"
  | .critical => "Critical"
  | .none => "None"

end LogLevel

structure LogRecord (Us : Type) where
  level : String
  category : String
  message : String
  timestampUs : Us
  requestId : Option String
  exception : Option String
  deriving DecidableEq, Repr

structure LogDrain (Us : Type) where
  nowUs : Us
  dropped : ℕ
  capacity : ℕ
  records : List (LogRecord Us)
  deriving DecidableEq, Repr

def LogDrain.drained {Us : Type} (drain : LogDrain Us) : Drained (LogRecord Us) where
  dropped := drain.dropped
  items := drain.records

namespace EngineLog

variable {Us : Type}

def capacity : ℕ := 256

def minLevel : LogLevel := .information

structure State (Us : Type) where
  log : DrainRing (LogRecord Us)
  journal : List (DrainRing.Op (LogRecord Us))
  drains : List (LogDrain Us)

def initial : State Us where
  log := DrainRing.create capacity (by decide)
  journal := []
  drains := []

/-- A call of a `RingLogger`; the exception comes with the name of its type. -/
inductive Action (Us : Type) where
  | log (level : LogLevel) (category message : String) (exception : Option (String × String))
      (nowUs : Us)
  | drain (nowUs : Us)
  deriving DecidableEq, Repr

def isEnabled (level : LogLevel) : Bool :=
  minLevel.rank ≤ level.rank ∧ level ≠ .none

def append (s : State Us) (record : LogRecord Us) : State Us :=
  { s with
    log := s.log.record record
    journal := s.journal ++ [.record record] }

def exceptionText (exception : String × String) : String :=
  exception.1 ++ ": " ++ exception.2

/-- `RingLogger.Log`. -/
def log (round : Us → Us) (s : State Us) (level : LogLevel) (category message : String)
    (exception : Option (String × String)) (nowUs : Us) : State Us :=
  if isEnabled level then
    append s ⟨level.text, category, message, round nowUs, none, exception.map exceptionText⟩
  else s

def drainOf (round : Us → Us) (s : State Us) (nowUs : Us) : LogDrain Us where
  nowUs := round nowUs
  dropped := s.log.drained.dropped
  capacity := capacity
  records := s.log.drained.items

def drain (round : Us → Us) (s : State Us) (nowUs : Us) : State Us where
  log := s.log.drain
  journal := s.journal ++ [.drain]
  drains := s.drains ++ [drainOf round s nowUs]

def machine (round : Us → Us) : Machine (State Us) (Action Us) where
  step := fun s action =>
    match action with
    | .log level category message exception nowUs =>
        some (log round s level category message exception nowUs)
    | .drain nowUs => some (drain round s nowUs)

def Inv (s : State Us) : Prop :=
  DrainRing.Refines capacity s.journal (s.drains.map LogDrain.drained) s.log

theorem inv_step {round : Us → Us} {s next : State Us} {action : Action Us} (hinv : Inv s)
    (hstep : (machine round).step s action = some next) : Inv next := by
  cases action with
  | log level category message exception nowUs =>
      cases hstep
      unfold log
      split_ifs
      · exact DrainRing.Refines.record hinv _
      · exact hinv
  | drain nowUs =>
      cases hstep
      have hrefines := DrainRing.Refines.drain hinv
      simpa [Inv, drain, drainOf, LogDrain.drained, DrainRing.drained] using hrefines

theorem inv_initial : Inv (initial : State Us) :=
  DrainRing.refines_create capacity (by decide)

theorem inv_of_run {round : Us → Us} {t : State Us} {actions : List (Action Us)}
    (hrun : (machine round).run initial actions = some t) : Inv t :=
  (machine round).run_invariant_of_step (fun _ _ _ hinv hstep => inv_step hinv hstep) inv_initial
    hrun

end EngineLog

/-! ## Both rings -/

/-- In every run the rings are bounded queues, and the metrics agree with the trace ring
whenever no `Record` call is in progress. -/
theorem EngineTrace.rings_are_bounded_queues {Us : Type} [Zero Us] [Add Us] [Sub Us] [LT Us]
    [DecidableLT Us] [Top Us] [Bot Us] (round : Us → Us) :
    (∀ (actions : List (Action Us)) (t : State Us),
      (machine round).run initial actions = some t →
      DrainRing.IsBoundedQueue capacity t.journal (t.drains.map TraceDrain.drained) t.log ∧
        ((∀ call ∈ t.calls, call.phase = .done) →
          t.metrics.spansRecorded = t.log.recordedTotal ∧
          t.metrics.spansDropped = t.log.droppedTotal ∧
          t.metrics.durationCount = t.log.recordedTotal)) ∧
    (∀ (actions : List (EngineLog.Action Us)) (t : EngineLog.State Us),
      (EngineLog.machine round).run EngineLog.initial actions = some t →
      DrainRing.IsBoundedQueue EngineLog.capacity t.journal (t.drains.map LogDrain.drained)
        t.log) := by
  constructor
  · intro actions t hrun
    have hinv := inv_of_run hrun
    refine ⟨hinv.refines.isBoundedQueue, fun hidle => ?_⟩
    obtain ⟨hrecorded, htimed⟩ := hinv.quiescent hidle
    exact ⟨hrecorded, hinv.dropped, htimed⟩
  · intro actions t hrun
    exact (EngineLog.inv_of_run hrun).isBoundedQueue

def EngineTrace.featureRun : Activity (Fin 1000) where
  operationName := "pb.execute"
  duration := 7
  status := .ok
  tags := [("dni.request_id", "r1")]

def EngineTrace.featureEnd : Fin 1000 := 9

/-- Two spans whose `Record` calls overlap, with a drain between their locked sections. -/
def EngineTrace.overlapping : List (Action (Fin 1000)) :=
  [.enter featureRun featureEnd, .enter featureRun 10, .addRecorded 1, .recordDuration 1,
    .addRecorded 0, .commit 1, .drain 11, .recordRequest .pb, .recordDuration 0, .commit 0]

def EngineLog.twoLevels : List (Action (Fin 1000)) :=
  [.log .debug "Dni.Engine" "skipped" none 1, .log .error "Dni.Engine" "kept" none 2, .drain 3]

theorem EngineTrace.rings_are_bounded_queues_overlapping :
    (∃ t, (machine id).run initial overlapping = some t ∧ t.drains.map TraceDrain.dropped = [0] ∧
      DrainRing.IsBoundedQueue capacity t.journal (t.drains.map TraceDrain.drained) t.log ∧
      t.metrics.spansRecorded = 2 ∧ t.metrics.spansRecorded = t.log.recordedTotal ∧
      t.metrics.durationCount = t.log.recordedTotal) ∧
    ∃ t, (EngineLog.machine id).run EngineLog.initial EngineLog.twoLevels = some t ∧
      t.log.recordedTotal = 1 ∧
      DrainRing.IsBoundedQueue EngineLog.capacity t.journal (t.drains.map LogDrain.drained)
        t.log := by
  obtain ⟨htrace, hlog⟩ := rings_are_bounded_queues (id : Fin 1000 → Fin 1000)
  constructor
  · refine ⟨_, rfl, rfl, (htrace overlapping _ rfl).1, rfl, ?_⟩
    obtain ⟨hrecorded, -, htimed⟩ := (htrace overlapping _ rfl).2 (by
      intro call hcall
      fin_cases hcall <;> rfl)
    exact ⟨hrecorded, htimed⟩
  · exact ⟨_, rfl, rfl, hlog EngineLog.twoLevels _ rfl⟩

end NativeInterop
