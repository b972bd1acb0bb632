import NativeInterop.AgentStatus
import NativeInterop.Loop
import Mathlib.Tactic

/-!
# The Foreman turn loop

`ForemanAgent.RunTurnAsync` asks a brain what to do next, calls the tool it names and
asks again, until the brain answers or the step cap is reached.  The brain and the tools
are arbitrary: each awaited call either returns or throws, and of an exception the loop
looks at nothing but its type.  Beside the variables of the method a turn keeps record
of the calls it has made.
-/

namespace NativeInterop

namespace Agent

/-! ## The conversation -/

/-- The UTF-16 code units a `string` is made of. -/
def utf16 (text : String) : List UInt16 :=
  text.toList.flatMap fun c =>
    if c.toNat < 0x10000 then [.ofNat c.toNat]
    else [.ofNat (0xD800 + (c.toNat - 0x10000) / 0x400),
      .ofNat (0xDC00 + (c.toNat - 0x10000) % 0x400)]

structure ConversationTurn where
  query : List UInt16
  answer : List UInt16
  deriving DecidableEq, Repr

namespace ConversationSession

def maxTurns : ℕ := 6

def maxQueryChars : ℕ := 500

def maxAnswerChars : ℕ := 800

def truncatedSuffix : String := "…(truncated)"

def clamp (units : List UInt16) (max : ℕ) : List UInt16 :=
  if units.length ≤ max then units else units.take max ++ utf16 truncatedSuffix

/-- The oldest turns go, one by one, while there are too many. -/
def evict : List ConversationTurn → List ConversationTurn
  | [] => []
  | oldest :: rest =>
      if maxTurns < (oldest :: rest).length then evict rest else oldest :: rest

theorem length_evict_le (turns : List ConversationTurn) : (evict turns).length ≤ maxTurns := by
  induction turns with
  | nil => exact Nat.zero_le _
  | cons oldest rest ih =>
      rw [evict]
      split_ifs with hmany
      · exact ih
      · exact Nat.not_lt.mp hmany

end ConversationSession

structure ConversationSession where
  turns : List ConversationTurn
  bounded : turns.length ≤ ConversationSession.maxTurns
  deriving DecidableEq

def ConversationSession.append (session : ConversationSession) (query answer : String) :
    ConversationSession where
  turns := evict (session.turns ++
    [⟨clamp (utf16 query) maxQueryChars, clamp (utf16 answer) maxAnswerChars⟩])
  bounded := length_evict_le _

/-! ## Brains and tools -/

/-- An exception: the name of its type, and whether that is `OperationCanceledException`
or derived from it. -/
structure Thrown where
  typeName : String
  canceled : Bool
  deriving DecidableEq, Repr

structure ToolCall where
  tool : String
  argsJson : String
  deriving DecidableEq, Repr

structure AgentDecision where
  call : Option ToolCall
  isAnswer : Bool
  deriving DecidableEq, Repr

/-- The call a decision asks for, unless `IsAnswer || Call is null`. -/
def AgentDecision.toolCall? (decision : AgentDecision) : Option ToolCall :=
  if decision.isAnswer then none else decision.call

structure AgentStep where
  kind : String
  detail : String
  result : Option String
  deriving DecidableEq, Repr

def AgentStep.kindToolCall : String := "tool_call"

def AgentStep.kindToolResult : String := "tool_result"

/-- The two steps recorded for one tool call. -/
def AgentStep.ofCall (call : ToolCall) (result : String) : List AgentStep :=
  [⟨kindToolCall, call.tool, some call.argsJson⟩, ⟨kindToolResult, call.tool, some result⟩]

structure AgentContext where
  query : String
  steps : List AgentStep
  history : List ConversationTurn
  deriving DecidableEq, Repr

/-- A brain that only reads its context.  The context grows with every decision of a
turn, so the decisions may be any sequence.  An answer stream passes some fragments to
the sink and then returns or throws. -/
structure AgentBrain where
  decideAsync : AgentContext → Except Thrown AgentDecision
  streamAnswerAsync : AgentContext → List String × Option Thrown
  backendBadge : String

/-- A tool; what it does may depend on the number of calls recorded before. -/
structure ToolDefinition where
  name : String
  invoke : ℕ → String → Except Thrown String

structure ForemanTurnResult where
  answer : String
  stopReason : ForemanStopReason
  toolSteps : ℕ
  deriving DecidableEq, Repr

/-! ## One turn -/

/-- The variables of `RunTurnAsync`, and the calls it has made so far. -/
structure Turn where
  steps : List AgentStep := []
  answer : String := ""
  toolSteps : ℕ := 0
  decisions : List (Except Thrown AgentDecision) := []
  invocations : List ToolCall := []
  streams : List (Option Thrown) := []
  sunk : List String := []
  appended : List (String × String) := []

/-- A turn that has left the loop, with what `RunTurnAsync` returns or throws. -/
structure Ended where
  turn : Turn
  outcome : Except Thrown ForemanTurnResult

namespace Turn

def sink (turn : Turn) (text : String) : Turn :=
  { turn with answer := turn.answer ++ text, sunk := turn.sunk ++ [text] }

def finish (query : String) (turn : Turn) (reason : ForemanStopReason) : Ended where
  turn := { turn with appended := turn.appended ++ [(query, turn.answer)] }
  outcome := .ok ⟨turn.answer, reason, turn.toolSteps⟩

/-- `catch (Exception ex) when (ex is not OperationCanceledException)` around an awaited
call of the brain. -/
def contain (query : String) (turn : Turn) (ex : Thrown) : Ended :=
  if ex.canceled then ⟨turn, .error ex⟩
  else (turn.sink ("(agent error: " ++ ex.typeName ++ ")")).finish query .error

def decided (turn : Turn) (outcome : Except Thrown AgentDecision) : Turn :=
  { turn with decisions := turn.decisions ++ [outcome] }

def record (turn : Turn) (call : ToolCall) (result : String) : Turn :=
  { turn with
    steps := turn.steps ++ AgentStep.ofCall call result
    toolSteps := turn.toolSteps + 1 }

/-- The calls the brain has asked for. -/
def requested (turn : Turn) : List ToolCall :=
  turn.decisions.filterMap fun outcome => outcome.toOption.bind AgentDecision.toolCall?

/-- Some call of the brain has thrown. -/
def Threw (turn : Turn) : Prop :=
  (∃ ex, .error ex ∈ turn.decisions) ∨ ∃ ex, some ex ∈ turn.streams

/-- The brain has asked for one call too many, and has answered all the same. -/
def Capped (turn : Turn) (maxToolSteps : ℕ) : Prop :=
  maxToolSteps < turn.requested.length ∧ turn.streams = [none]

end Turn

structure ForemanAgent where
  tools : List ToolDefinition
  brain : AgentBrain

namespace ForemanAgent

def maxToolSteps : ℕ := 5

def findTool (agent : ForemanAgent) (name : String) : Option ToolDefinition :=
  agent.tools.find? fun tool => tool.name = name

/-- What a tool call comes to: only a cancellation is not contained. -/
def callTool (agent : ForemanAgent) (calls : ℕ) (call : ToolCall) : Except Thrown String :=
  match agent.findTool call.tool with
  | none => .ok "\x7b\"error\":\"unknown tool\"\x7d"
  | some tool =>
      match tool.invoke calls call.argsJson with
      | .ok result => .ok result
      | .error ex =>
          if ex.canceled then .error ex
          else .ok ("\x7b\"error\":\"" ++ ex.typeName ++ "\"\x7d")

def invoked (agent : ForemanAgent) (turn : Turn) (call : ToolCall) : Turn :=
  { turn with invocations :=
      turn.invocations ++ if (agent.findTool call.tool).isSome then [call] else [] }

/-- `TryStreamAnswerAsync`, and the `Finish` that follows it. -/
def streamAnswer (agent : ForemanAgent) (query : String) (history : List ConversationTurn)
    (turn : Turn) (reason : ForemanStopReason) : Ended :=
  let stream := agent.brain.streamAnswerAsync ⟨query, turn.steps, history⟩
  let streamed := stream.1.foldl Turn.sink { turn with streams := turn.streams ++ [stream.2] }
  match stream.2 with
  | none => streamed.finish query reason
  | some ex => streamed.contain query ex

/-- One pass of `while (true)`. -/
def pass (agent : ForemanAgent) (query : String) (history : List ConversationTurn)
    (turn : Turn) : Turn ⊕ Ended :=
  let outcome := agent.brain.decideAsync ⟨query, turn.steps, history⟩
  let decided := turn.decided outcome
  match outcome with
  | .error ex => .inr (decided.contain query ex)
  | .ok decision =>
      match decision.toolCall? with
      | none => .inr (agent.streamAnswer query history decided .answered)
      | some call =>
          if maxToolSteps ≤ turn.toolSteps then
            .inr (agent.streamAnswer query history decided .stepCapReached)
          else
            let invoked := agent.invoked decided call
            match agent.callTool turn.toolSteps call with
            | .error ex => .inr ⟨invoked, .error ex⟩
            | .ok result => .inl (invoked.record call result)

/-- The five ways a pass can go. -/
inductive Passes (agent : ForemanAgent) (query : String) (history : List ConversationTurn)
    (turn : Turn) : Turn ⊕ Ended → Prop
  | threw {ex : Thrown}
      (hdecide : agent.brain.decideAsync ⟨query, turn.steps, history⟩ = .error ex) :
      Passes agent query history turn (.inr ((turn.decided (.error ex)).contain query ex))
  | answers {decision : AgentDecision}
      (hdecide : agent.brain.decideAsync ⟨query, turn.steps, history⟩ = .ok decision)
      (hcall : decision.toolCall? = none) :
      Passes agent query history turn
        (.inr (agent.streamAnswer query history (turn.decided (.ok decision)) .answered))
  | capped {decision : AgentDecision} {call : ToolCall}
      (hdecide : agent.brain.decideAsync ⟨query, turn.steps, history⟩ = .ok decision)
      (hcall : decision.toolCall? = some call) (hcap : maxToolSteps ≤ turn.toolSteps) :
      Passes agent query history turn
        (.inr (agent.streamAnswer query history (turn.decided (.ok decision)) .stepCapReached))
  | canceled {decision : AgentDecision} {call : ToolCall} {ex : Thrown}
      (hdecide : agent.brain.decideAsync ⟨query, turn.steps, history⟩ = .ok decision)
      (hcall : decision.toolCall? = some call) (hbelow : turn.toolSteps < maxToolSteps)
      (htool : agent.callTool turn.toolSteps call = .error ex) :
      Passes agent query history turn
        (.inr ⟨agent.invoked (turn.decided (.ok decision)) call, .error ex⟩)
  | calls {decision : AgentDecision} {call : ToolCall} {result : String}
      (hdecide : agent.brain.decideAsync ⟨query, turn.steps, history⟩ = .ok decision)
      (hcall : decision.toolCall? = some call) (hbelow : turn.toolSteps < maxToolSteps)
      (htool : agent.callTool turn.toolSteps call = .ok result) :
      Passes agent query history turn
        (.inl ((agent.invoked (turn.decided (.ok decision)) call).record call result))

theorem passes (agent : ForemanAgent) (query : String) (history : List ConversationTurn)
    (turn : Turn) : Passes agent query history turn (agent.pass query history turn) := by
  unfold pass
  cases hdecide : agent.brain.decideAsync ⟨query, turn.steps, history⟩ with
  | error ex => exact .threw hdecide
  | ok decision =>
      cases hcall : decision.toolCall? with
      | none =>
          simp only [hcall]
          exact .answers hdecide hcall
      | some call =>
          rcases Nat.lt_or_ge turn.toolSteps maxToolSteps with hbelow | hcap
          · simp only [hcall, if_neg (Nat.not_le.mpr hbelow)]
            cases htool : agent.callTool turn.toolSteps call with
            | error ex => exact .canceled hdecide hcall hbelow htool
            | ok result => exact .calls hdecide hcall hbelow htool
          · simp only [hcall, if_pos hcap]
            exact .capped hdecide hcall hcap

/-- The `while (true)` of a turn: below the cap every pass counts one call more. -/
def loop (agent : ForemanAgent) (query : String) (history : List ConversationTurn) :
    Loop Turn Ended where
  pass := agent.pass query history
  rank turn := maxToolSteps - turn.toolSteps
  lowers := by
    intro turn next hpass
    have hcase := agent.passes query history turn
    rw [hpass] at hcase
    cases hcase with
    | calls hdecide hcall hbelow htool =>
        simp only [Turn.record, invoked, Turn.decided]
        omega

def runTurn (agent : ForemanAgent) (query : String) (history : List ConversationTurn) : Ended :=
  (agent.loop query history).run {}

/-- `RunTurnAsync`, with the shared conversation if there is one. -/
def runTurnAsync (agent : ForemanAgent) (conversation : Option ConversationSession)
    (query : String) : Ended × Option ConversationSession :=
  let ended := agent.runTurn query ((conversation.map ConversationSession.turns).getD [])
  (ended, conversation.map fun session =>
    ended.turn.appended.foldl (fun session turn => session.append turn.1 turn.2) session)

/-! ## What a turn has done when it leaves the loop -/

/-- The steps are the calls and what each came to, in pairs. -/
def Recorded (agent : ForemanAgent) (calls : List ToolCall) (steps : List AgentStep) : Prop :=
  ∃ results : List String,
    results.map .ok = calls.mapIdx agent.callTool ∧
      steps = ((calls.zip results).map fun pair => AgentStep.ofCall pair.1 pair.2).flatten

/-- A turn that goes round: all it has done is calling the tools it was asked to call. -/
structure Running (agent : ForemanAgent) (turn : Turn) : Prop where
  toolSteps_le : turn.toolSteps ≤ maxToolSteps
  decisions_eq : turn.decisions.length = turn.toolSteps
  requested_eq : turn.requested.length = turn.toolSteps
  returned : ∀ ex, .error ex ∉ turn.decisions
  recorded : agent.Recorded turn.requested turn.steps
  invocations_le : turn.invocations.length ≤ turn.toolSteps
  streams_eq : turn.streams = []
  sunk_eq : turn.sunk = []
  answer_eq : turn.answer = ""
  appended_eq : turn.appended = []

/-- The outcome of a turn tells what the turn has done. -/
structure Honest (agent : ForemanAgent) (query : String) (turn : Turn)
    (result : ForemanTurnResult) : Prop where
  invocations_le : turn.invocations.length ≤ maxToolSteps
  decisions_le : turn.decisions.length ≤ maxToolSteps + 1
  streams_le : turn.streams.length ≤ 1
  toolSteps_le : result.toolSteps ≤ maxToolSteps
  toolSteps_eq :
    result.toolSteps = turn.steps.countP fun step => step.kind = AgentStep.kindToolCall
  recorded : agent.Recorded (turn.requested.take result.toolSteps) turn.steps
  answer_eq : result.answer = String.join turn.sunk
  stepCapReached_iff : result.stopReason = .stepCapReached ↔ turn.Capped maxToolSteps
  error_iff : result.stopReason = .error ↔ turn.Threw
  answered_iff : result.stopReason = .answered ↔ ¬ turn.Capped maxToolSteps ∧ ¬ turn.Threw
  appended_eq : turn.appended = [(query, result.answer)]

theorem Recorded.snoc {agent : ForemanAgent} {calls : List ToolCall} {steps : List AgentStep}
    {call : ToolCall} {result : String} (hrecorded : agent.Recorded calls steps)
    (htool : agent.callTool calls.length call = .ok result) :
    agent.Recorded (calls ++ [call]) (steps ++ AgentStep.ofCall call result) := by
  obtain ⟨results, hresults, rfl⟩ := hrecorded
  have hlength : results.length = calls.length := by
    simpa using congrArg List.length hresults
  refine ⟨results ++ [result], ?_, ?_⟩
  · simp [List.mapIdx_append, hresults, htool]
  · rw [List.zip_append hlength.symm]
    simp

theorem Recorded.countP_eq {agent : ForemanAgent} {calls : List ToolCall}
    {steps : List AgentStep} (hrecorded : agent.Recorded calls steps) :
    steps.countP (fun step => step.kind = AgentStep.kindToolCall) = calls.length := by
  obtain ⟨results, hresults, rfl⟩ := hrecorded
  have hlength : results.length = calls.length := by
    simpa using congrArg List.length hresults
  have hone : ∀ pair : ToolCall × String, List.countP
      (fun step => decide (step.kind = AgentStep.kindToolCall))
      (AgentStep.ofCall pair.1 pair.2) = 1 := by
    intro pair
    rfl
  rw [List.countP_flatten, List.map_map]
  simp [Function.comp_def, hone, hlength]

theorem running_start (agent : ForemanAgent) : agent.Running {} := by
  constructor <;> simp [Recorded, Turn.requested]

theorem requested_decided (turn : Turn) (outcome : Except Thrown AgentDecision) :
    (turn.decided outcome).requested =
      turn.requested ++ (outcome.toOption.bind AgentDecision.toolCall?).toList := by
  simp only [Turn.requested, Turn.decided, List.filterMap_append, List.filterMap_cons,
    List.filterMap_nil]
  cases outcome.toOption.bind AgentDecision.toolCall? <;> rfl

theorem Running.record {agent : ForemanAgent} {turn : Turn} {decision : AgentDecision}
    {call : ToolCall} {result : String} (hrunning : agent.Running turn)
    (hcall : decision.toolCall? = some call) (hbelow : turn.toolSteps < maxToolSteps)
    (htool : agent.callTool turn.toolSteps call = .ok result) :
    agent.Running ((agent.invoked (turn.decided (.ok decision)) call).record call result) := by
  have hrequested : (turn.decided (.ok decision)).requested = turn.requested ++ [call] := by
    rw [requested_decided]
    simp [Except.toOption, hcall]
  constructor
  · exact hbelow
  · simpa [Turn.record, invoked, Turn.decided] using hrunning.decisions_eq
  · have hlength := congrArg List.length hrequested
    rw [List.length_append, hrunning.requested_eq] at hlength
    exact hlength
  · simpa [Turn.record, invoked, Turn.decided] using hrunning.returned
  · rw [← hrunning.requested_eq] at htool
    have hsnoc := hrunning.recorded.snoc htool
    rw [← hrequested] at hsnoc
    exact hsnoc
  · have hinvocations := hrunning.invocations_le
    simp only [Turn.record, invoked, Turn.decided, List.length_append]
    split_ifs <;> simp <;> omega
  · exact hrunning.streams_eq
  · exact hrunning.sunk_eq
  · exact hrunning.answer_eq
  · exact hrunning.appended_eq

theorem Running.pass {agent : ForemanAgent} {query : String}
    {history : List ConversationTurn} {turn next : Turn} (hrunning : agent.Running turn)
    (hpass : agent.pass query history turn = .inl next) : agent.Running next := by
  have hcase := agent.passes query history turn
  rw [hpass] at hcase
  cases hcase with
  | calls hdecide hcall hbelow htool => exact hrunning.record hcall hbelow htool

theorem foldl_sink (fragments : List String) (turn : Turn) :
    fragments.foldl Turn.sink turn =
      { turn with
        answer := turn.answer ++ String.join fragments
        sunk := turn.sunk ++ fragments } := by
  induction fragments generalizing turn with
  | nil => simp
  | cons fragment rest ih =>
      rw [List.foldl_cons, ih]
      simp [Turn.sink, String.append_assoc]

/-- What a turn is like when it is about to finish, after one last decision. -/
structure Closing (agent : ForemanAgent) (outcome : Except Thrown AgentDecision)
    (before turn : Turn) : Prop where
  running : agent.Running before
  steps_eq : turn.steps = before.steps
  toolSteps_eq : turn.toolSteps = before.toolSteps
  decisions_eq : turn.decisions = before.decisions ++ [outcome]
  invocations_eq : turn.invocations = before.invocations
  appended_eq : turn.appended = []
  streams_le : turn.streams.length ≤ 1
  answer_eq : turn.answer = String.join turn.sunk

theorem Closing.sink {agent : ForemanAgent} {outcome : Except Thrown AgentDecision}
    {before turn : Turn} (hclosing : agent.Closing outcome before turn) (text : String) :
    agent.Closing outcome before (turn.sink text) where
  running := hclosing.running
  steps_eq := hclosing.steps_eq
  toolSteps_eq := hclosing.toolSteps_eq
  decisions_eq := hclosing.decisions_eq
  invocations_eq := hclosing.invocations_eq
  appended_eq := hclosing.appended_eq
  streams_le := hclosing.streams_le
  answer_eq := by simp [Turn.sink, hclosing.answer_eq]

theorem Closing.honest {agent : ForemanAgent} {outcome : Except Thrown AgentDecision}
    {before turn : Turn} (hclosing : agent.Closing outcome before turn) (query : String)
    {reason : ForemanStopReason}
    (hcapped : reason = .stepCapReached ↔ turn.Capped maxToolSteps)
    (hthrew : reason = .error ↔ turn.Threw) :
    agent.Honest query (turn.finish query reason).turn
      ⟨turn.answer, reason, turn.toolSteps⟩ := by
  have hrunning := hclosing.running
  have hinvocations := hrunning.invocations_le
  have htoolSteps := hrunning.toolSteps_le
  have hdecisions := hrunning.decisions_eq
  have hrequested : turn.requested.take turn.toolSteps = before.requested := by
    have hsame : turn.requested = (before.decided outcome).requested := by
      simp only [Turn.requested, Turn.decided, hclosing.decisions_eq]
    rw [hsame, requested_decided, hclosing.toolSteps_eq, ← hrunning.requested_eq,
      List.take_left]
  constructor
  · simp only [Turn.finish, hclosing.invocations_eq]
    omega
  · simp only [Turn.finish, hclosing.decisions_eq, List.length_append, List.length_singleton]
    omega
  · exact hclosing.streams_le
  · exact hclosing.toolSteps_eq ▸ htoolSteps
  · simp only [Turn.finish, hclosing.steps_eq, hrunning.recorded.countP_eq,
      hrunning.requested_eq, hclosing.toolSteps_eq]
  · simp only [Turn.finish, hclosing.steps_eq]
    exact hrequested ▸ hrunning.recorded
  · exact hclosing.answer_eq
  · exact hcapped
  · exact hthrew
  · have hthird : reason = .answered ↔ reason ≠ .stepCapReached ∧ reason ≠ .error := by
      cases reason <;> simp
    exact hthird.trans (and_congr hcapped.not hthrew.not)
  · simp [Turn.finish, hclosing.appended_eq]

theorem canceled_of_callTool {agent : ForemanAgent} {calls : ℕ} {call : ToolCall} {ex : Thrown}
    (htool : agent.callTool calls call = .error ex) : ex.canceled = true := by
  unfold callTool at htool
  split at htool
  · cases htool
  · split at htool
    · cases htool
    · split_ifs at htool with hcanceled
      cases htool
      exact hcanceled

/-! ## Cancelled turns -/

/-- The answer stream asked for with these steps throws a cancellation. -/
def StreamCancelled (agent : ForemanAgent) (query : String) (history : List ConversationTurn)
    (steps : List AgentStep) : Prop :=
  ∃ ex, (agent.brain.streamAnswerAsync ⟨query, steps, history⟩).2 = some ex ∧
    ex.canceled = true

/-- What is awaited after so many calls, with these steps, throws a cancellation: the
decision, or else the tool it names or the answer stream. -/
def CancelledAt (agent : ForemanAgent) (query : String) (history : List ConversationTurn)
    (calls : ℕ) (steps : List AgentStep) : Prop :=
  match agent.brain.decideAsync ⟨query, steps, history⟩ with
  | .error ex => ex.canceled = true
  | .ok decision =>
      match decision.toolCall? with
      | none => agent.StreamCancelled query history steps
      | some call =>
          if calls < maxToolSteps then ∃ ex, agent.callTool calls call = .error ex
          else agent.StreamCancelled query history steps

/-- The calls and steps with which the brain is asked in the course of a turn. -/
inductive Asked (agent : ForemanAgent) (query : String) (history : List ConversationTurn) :
    ℕ → List AgentStep → Prop
  | first : Asked agent query history 0 []
  | again {calls : ℕ} {steps : List AgentStep} {decision : AgentDecision} {call : ToolCall}
      {result : String} (hasked : Asked agent query history calls steps)
      (hdecide : agent.brain.decideAsync ⟨query, steps, history⟩ = .ok decision)
      (hcall : decision.toolCall? = some call) (hbelow : calls < maxToolSteps)
      (htool : agent.callTool calls call = .ok result) :
      Asked agent query history (calls + 1) (steps ++ AgentStep.ofCall call result)

/-- Something awaited in the course of the turn throws a cancellation. -/
def Cancelled (agent : ForemanAgent) (query : String) (history : List ConversationTurn) : Prop :=
  ∃ calls steps, agent.Asked query history calls steps ∧
    agent.CancelledAt query history calls steps

theorem Running.closing {agent : ForemanAgent} {turn : Turn} (hrunning : agent.Running turn)
    (outcome : Except Thrown AgentDecision) :
    agent.Closing outcome turn (turn.decided outcome) where
  running := hrunning
  steps_eq := rfl
  toolSteps_eq := rfl
  decisions_eq := rfl
  invocations_eq := rfl
  appended_eq := hrunning.appended_eq
  streams_le := by simp [Turn.decided, hrunning.streams_eq]
  answer_eq := by simp [Turn.decided, hrunning.sunk_eq, hrunning.answer_eq]

theorem Closing.stream {agent : ForemanAgent} {outcome : Except Thrown AgentDecision}
    {before turn : Turn} (hclosing : agent.Closing outcome before turn)
    (hstreams : turn.streams = []) (fragments : List String) (thrown : Option Thrown) :
    agent.Closing outcome before
      (fragments.foldl Turn.sink { turn with streams := turn.streams ++ [thrown] }) where
  running := hclosing.running
  steps_eq := by rw [foldl_sink, hclosing.steps_eq]
  toolSteps_eq := by rw [foldl_sink, hclosing.toolSteps_eq]
  decisions_eq := by rw [foldl_sink, hclosing.decisions_eq]
  invocations_eq := by rw [foldl_sink, hclosing.invocations_eq]
  appended_eq := by rw [foldl_sink, hclosing.appended_eq]
  streams_le := by simp [foldl_sink, hstreams]
  answer_eq := by simp [foldl_sink, hclosing.answer_eq]

/-- A contained exception ends the turn with an error. -/
theorem Closing.contain {agent : ForemanAgent} {outcome : Except Thrown AgentDecision}
    {before turn : Turn} (hclosing : agent.Closing outcome before turn) (query : String)
    {ex : Thrown} (hcontained : ex.canceled = false) (hstreams : turn.streams ≠ [none])
    (hthrew : turn.Threw) :
    ∃ result, (turn.contain query ex).outcome = .ok result ∧
      agent.Honest query (turn.contain query ex).turn result := by
  have heq : turn.contain query ex =
      (turn.sink ("(agent error: " ++ ex.typeName ++ ")")).finish query .error := by
    simp [Turn.contain, hcontained]
  rw [heq]
  refine ⟨_, rfl, (hclosing.sink _).honest query ?_ ?_⟩
  · simp [Turn.Capped, Turn.sink, hstreams]
  · exact iff_of_true rfl hthrew

theorem streamAnswer_none {agent : ForemanAgent} {query : String}
    {history : List ConversationTurn} {turn : Turn} {reason : ForemanStopReason}
    (hstream : (agent.brain.streamAnswerAsync ⟨query, turn.steps, history⟩).2 = none) :
    agent.streamAnswer query history turn reason =
      ((agent.brain.streamAnswerAsync ⟨query, turn.steps, history⟩).1.foldl Turn.sink
        { turn with streams := turn.streams ++ [none] }).finish query reason := by
  simp [streamAnswer, hstream]

theorem streamAnswer_some {agent : ForemanAgent} {query : String}
    {history : List ConversationTurn} {turn : Turn} {reason : ForemanStopReason} {ex : Thrown}
    (hstream : (agent.brain.streamAnswerAsync ⟨query, turn.steps, history⟩).2 = some ex) :
    agent.streamAnswer query history turn reason =
      ((agent.brain.streamAnswerAsync ⟨query, turn.steps, history⟩).1.foldl Turn.sink
        { turn with streams := turn.streams ++ [some ex] }).contain query ex := by
  simp [streamAnswer, hstream]

theorem streamAnswer_cancelled {agent : ForemanAgent} {query : String}
    {history : List ConversationTurn} (turn : Turn) (reason : ForemanStopReason)
    (hcancelled : agent.StreamCancelled query history turn.steps) :
    ∃ ex, (agent.streamAnswer query history turn reason).outcome = .error ex ∧
      ex.canceled = true := by
  obtain ⟨ex, hstream, hcanceled⟩ := hcancelled
  rw [streamAnswer_some hstream]
  exact ⟨ex, by simp [Turn.contain, hcanceled], hcanceled⟩

/-- An answer stream that is not cancelled ends the turn with the given reason, or with
an error if it throws. -/
theorem Running.streamAnswer {agent : ForemanAgent} {turn : Turn}
    (hrunning : agent.Running turn) (query : String) (history : List ConversationTurn)
    (decision : AgentDecision) {reason : ForemanStopReason} (hreason : reason ≠ .error)
    (hcapped : reason = .stepCapReached ↔
      maxToolSteps < (turn.decided (.ok decision)).requested.length)
    (hstream : ¬ agent.StreamCancelled query history turn.steps) :
    ∃ result,
      (agent.streamAnswer query history (turn.decided (.ok decision)) reason).outcome =
        .ok result ∧
      agent.Honest query
        (agent.streamAnswer query history (turn.decided (.ok decision)) reason).turn result := by
  have hclosing := hrunning.closing (.ok decision)
  cases hthrown : (agent.brain.streamAnswerAsync ⟨query, turn.steps, history⟩).2 with
  | none =>
      have heq : agent.streamAnswer query history (turn.decided (.ok decision)) reason = _ :=
        streamAnswer_none hthrown
      rw [heq]
      refine ⟨_, rfl, (hclosing.stream hrunning.streams_eq _ none).honest query ?_ ?_⟩
      · simp only [foldl_sink, Turn.Capped, Turn.requested] at hcapped ⊢
        simpa [Turn.decided, hrunning.streams_eq] using hcapped
      · simp only [foldl_sink, Turn.Threw]
        simpa [Turn.decided, hrunning.streams_eq, hreason] using hrunning.returned
  | some ex =>
      have hcontained : ex.canceled = false := by
        rw [← Bool.not_eq_true]
        intro hcanceled
        exact hstream ⟨ex, hthrown, hcanceled⟩
      have heq : agent.streamAnswer query history (turn.decided (.ok decision)) reason = _ :=
        streamAnswer_some hthrown
      rw [heq]
      apply (hclosing.stream hrunning.streams_eq _ (some ex)).contain query hcontained
      · simp [foldl_sink, Turn.decided, hrunning.streams_eq]
      · exact Or.inr ⟨ex, by simp [foldl_sink]⟩

theorem Running.exit {agent : ForemanAgent} {query : String}
    {history : List ConversationTurn} {turn : Turn} {ended : Ended}
    (hrunning : agent.Running turn)
    (huncancelled : ¬ agent.CancelledAt query history turn.toolSteps turn.steps)
    (hpass : agent.pass query history turn = .inr ended) :
    ∃ result, ended.outcome = .ok result ∧ agent.Honest query ended.turn result := by
  have htoolSteps := hrunning.toolSteps_le
  have hcase := agent.passes query history turn
  rw [hpass] at hcase
  cases hcase with
  | @threw ex hdecide =>
      simp only [CancelledAt, hdecide, Bool.not_eq_true] at huncancelled
      apply (hrunning.closing (.error ex)).contain query huncancelled
      · simp [Turn.decided, hrunning.streams_eq]
      · exact Or.inl ⟨ex, by simp [Turn.decided]⟩
  | @answers decision hdecide hcall =>
      simp only [CancelledAt, hdecide, hcall] at huncancelled
      apply hrunning.streamAnswer query history decision (by simp) _ huncancelled
      rw [requested_decided]
      simpa [Except.toOption, hcall, hrunning.requested_eq] using htoolSteps
  | @capped decision call hdecide hcall hcap =>
      simp only [CancelledAt, hdecide, hcall, if_neg (Nat.not_lt.mpr hcap)] at huncancelled
      apply hrunning.streamAnswer query history decision (by simp) _ huncancelled
      rw [requested_decided]
      simp only [Except.toOption, Option.bind_some, hcall, Option.toList_some,
        List.length_append, hrunning.requested_eq, List.length_singleton, true_iff]
      omega
  | canceled hdecide hcall hbelow htool =>
      simp [CancelledAt, hdecide, hcall, hbelow, htool] at huncancelled

/-- A cancelled call ends the turn with its exception, and nothing is appended. -/
theorem exit_of_cancelledAt {agent : ForemanAgent} {query : String}
    {history : List ConversationTurn} {turn : Turn}
    (hcancelled : agent.CancelledAt query history turn.toolSteps turn.steps) :
    ∃ ended ex, agent.pass query history turn = .inr ended ∧ ended.outcome = .error ex ∧
      ex.canceled = true := by
  have hcase := agent.passes query history turn
  generalize hresult : agent.pass query history turn = passed at hcase
  cases hcase with
  | @threw ex hdecide =>
      simp only [CancelledAt, hdecide] at hcancelled
      exact ⟨_, ex, rfl, by simp [Turn.contain, hcancelled], hcancelled⟩
  | @answers decision hdecide hcall =>
      simp only [CancelledAt, hdecide, hcall] at hcancelled
      obtain ⟨ex, houtcome, hcanceled⟩ :=
        streamAnswer_cancelled (turn.decided (.ok decision)) .answered hcancelled
      exact ⟨_, ex, rfl, houtcome, hcanceled⟩
  | @capped decision call hdecide hcall hcap =>
      simp only [CancelledAt, hdecide, hcall, if_neg (Nat.not_lt.mpr hcap)] at hcancelled
      obtain ⟨ex, houtcome, hcanceled⟩ :=
        streamAnswer_cancelled (turn.decided (.ok decision)) .stepCapReached hcancelled
      exact ⟨_, ex, rfl, houtcome, hcanceled⟩
  | @canceled decision call ex hdecide hcall hbelow htool =>
      exact ⟨_, ex, rfl, rfl, canceled_of_callTool htool⟩
  | calls hdecide hcall hbelow htool =>
      simp [CancelledAt, hdecide, hcall, hbelow, htool] at hcancelled

theorem reaches_asked {agent : ForemanAgent} {query : String}
    {history : List ConversationTurn} {turn : Turn}
    (hreaches : (agent.loop query history).Reaches {} turn) :
    agent.Asked query history turn.toolSteps turn.steps := by
  induction hreaches with
  | refl => exact .first
  | @tail middle turn _ hpass ih =>
      have hcase := agent.passes query history middle
      rw [show agent.pass query history middle = .inl turn from hpass] at hcase
      cases hcase with
      | calls hdecide hcall hbelow htool => exact ih.again hdecide hcall hbelow htool

theorem Asked.reaches {agent : ForemanAgent} {query : String}
    {history : List ConversationTurn} {calls : ℕ} {steps : List AgentStep}
    (hasked : agent.Asked query history calls steps) :
    ∃ turn, (agent.loop query history).Reaches {} turn ∧ turn.toolSteps = calls ∧
      turn.steps = steps := by
  induction hasked with
  | first => exact ⟨{}, .refl, rfl, rfl⟩
  | @again calls steps decision call result _ hdecide hcall hbelow htool ih =>
      obtain ⟨turn, hreaches, rfl, rfl⟩ := ih
      have hpass : (agent.loop query history).pass turn =
          .inl ((agent.invoked (turn.decided (.ok decision)) call).record call result) := by
        simp [loop, pass, hdecide, hcall, Nat.not_le.mpr hbelow, htool]
      exact ⟨_, hreaches.tail hpass, rfl, rfl⟩

/-- A turn of which nothing is cancelled returns, and what it returns is honest. -/
theorem runTurn_honest {agent : ForemanAgent} {query : String}
    {history : List ConversationTurn} (huncancelled : ¬ agent.Cancelled query history) :
    ∃ result, (agent.runTurn query history).outcome = .ok result ∧
      agent.Honest query (agent.runTurn query history).turn result := by
  obtain ⟨last, hrunning, hreaches, hexit⟩ :=
    (agent.loop query history).exists_exit (fun _ _ hrunning hpass => Running.pass hrunning hpass)
      agent.running_start
  apply hrunning.exit _ hexit
  intro hcancelled
  exact huncancelled ⟨_, _, reaches_asked hreaches, hcancelled⟩

theorem runTurn_cancelled {agent : ForemanAgent} {query : String}
    {history : List ConversationTurn} (hcancelled : agent.Cancelled query history) :
    ∃ ex, (agent.runTurn query history).outcome = .error ex ∧ ex.canceled = true := by
  obtain ⟨calls, steps, hasked, hat⟩ := hcancelled
  obtain ⟨turn, hreaches, rfl, rfl⟩ := hasked.reaches
  obtain ⟨ended, ex, hpass, houtcome, hcanceled⟩ := exit_of_cancelledAt hat
  have hended : agent.runTurn query history = ended := by
    rw [runTurn, Loop.run_of_reaches _ hreaches]
    exact Loop.run_of_inr _ hpass
  rw [hended]
  exact ⟨ex, houtcome, hcanceled⟩

theorem not_cancelled_of_returned {agent : ForemanAgent} {query : String}
    {history : List ConversationTurn} {result : ForemanTurnResult}
    (hreturned : (agent.runTurn query history).outcome = .ok result) :
    ¬ agent.Cancelled query history := by
  intro hcancelled
  obtain ⟨ex, houtcome, _⟩ := runTurn_cancelled hcancelled
  rw [hreturned] at houtcome
  cases houtcome

theorem honest_of_returned {agent : ForemanAgent} {query : String}
    {history : List ConversationTurn} {result : ForemanTurnResult}
    (hreturned : (agent.runTurn query history).outcome = .ok result) :
    agent.Honest query (agent.runTurn query history).turn result := by
  obtain ⟨other, houtcome, hhonest⟩ := runTurn_honest (not_cancelled_of_returned hreturned)
  rw [hreturned] at houtcome
  cases houtcome
  exact hhonest

/-! ## Contained brains and tools -/

end ForemanAgent

/-- No call of the brain throws a cancellation. -/
structure AgentBrain.Contained (brain : AgentBrain) : Prop where
  decide : ∀ ctx ex, brain.decideAsync ctx = .error ex → ex.canceled = false
  stream : ∀ ctx ex, (brain.streamAnswerAsync ctx).2 = some ex → ex.canceled = false

def ToolDefinition.Contained (tool : ToolDefinition) : Prop :=
  ∀ calls args ex, tool.invoke calls args = .error ex → ex.canceled = false

namespace ForemanAgent

theorem callTool_contained {agent : ForemanAgent}
    (htools : ∀ tool ∈ agent.tools, tool.Contained) (calls : ℕ) (call : ToolCall) :
    ∃ result, agent.callTool calls call = .ok result := by
  unfold callTool
  split
  · exact ⟨_, rfl⟩
  · next tool hfind =>
      split
      · exact ⟨_, rfl⟩
      · next ex hinvoke =>
          have hcontained := htools tool (List.mem_of_find?_eq_some hfind) _ _ ex hinvoke
          rw [if_neg (by simp [hcontained])]
          exact ⟨_, rfl⟩

theorem not_cancelled {agent : ForemanAgent} (hbrain : agent.brain.Contained)
    (htools : ∀ tool ∈ agent.tools, tool.Contained) (query : String)
    (history : List ConversationTurn) : ¬ agent.Cancelled query history := by
  rintro ⟨calls, steps, -, hat⟩
  have hstream : ¬ agent.StreamCancelled query history steps := by
    rintro ⟨ex, hthrown, hcanceled⟩
    rw [hbrain.stream _ ex hthrown] at hcanceled
    cases hcanceled
  unfold CancelledAt at hat
  split at hat
  · next ex hdecide =>
      rw [hbrain.decide _ ex hdecide] at hat
      cases hat
  · split at hat
    · exact hstream hat
    · next call _ =>
        split_ifs at hat
        · obtain ⟨ex, htool⟩ := hat
          obtain ⟨result, hresult⟩ := callTool_contained htools calls call
          rw [hresult] at htool
          cases htool
        · exact hstream hat

/-- Every turn ends after a bounded number of calls, says what it has done, and is
appended to the conversation once. -/
theorem runTurnAsync_honest {agent : ForemanAgent} (hbrain : agent.brain.Contained)
    (htools : ∀ tool ∈ agent.tools, tool.Contained)
    (conversation : Option ConversationSession) (query : String) :
    ∃ result, (agent.runTurnAsync conversation query).1.outcome = .ok result ∧
      agent.Honest query (agent.runTurnAsync conversation query).1.turn result ∧
      (agent.runTurnAsync conversation query).2 =
        conversation.map fun session => session.append query result.answer := by
  obtain ⟨result, houtcome, hhonest⟩ := runTurn_honest (not_cancelled hbrain htools query
    ((conversation.map ConversationSession.turns).getD []))
  refine ⟨result, houtcome, hhonest, ?_⟩
  simp [runTurnAsync, hhonest.appended_eq]

/-- The runaway brain of the harness: it asks for the same tool over and over. -/
def greedy : ForemanAgent where
  tools := [⟨"engine_stats", fun _ _ => .ok "\x7b\x7d"⟩]
  brain :=
    { decideAsync := fun _ => .ok ⟨some ⟨"engine_stats", "\x7b\x7d"⟩, false⟩
      streamAnswerAsync := fun _ => (["out", " of steps"], none)
      backendBadge := "scripted" }

theorem runTurnAsync_honest_greedy :
    ∃ result,
      (greedy.runTurnAsync (some ⟨[], by decide⟩) "how much memory?").1.outcome = .ok result ∧
      greedy.Honest "how much memory?"
        (greedy.runTurnAsync (some ⟨[], by decide⟩) "how much memory?").1.turn result ∧
      (greedy.runTurnAsync (some ⟨[], by decide⟩) "how much memory?").2 =
        some (ConversationSession.append ⟨[], by decide⟩ "how much memory?" result.answer) := by
  apply runTurnAsync_honest
  · exact ⟨nofun, nofun⟩
  · intro tool hmem calls args ex hinvoke
    rw [List.mem_singleton.mp hmem] at hinvoke
    cases hinvoke

theorem runTurn_greedy :
    (greedy.runTurn "how much memory?" []).outcome = .ok ⟨"out of steps", .stepCapReached, 5⟩ ∧
      (greedy.runTurn "how much memory?" []).turn.sunk = ["out", " of steps"] := by
  have hfirst := Loop.run_of_inl (greedy.loop "how much memory?" []) (s := {}) rfl
  rw [runTurn, hfirst, Loop.run_of_inl _ rfl, Loop.run_of_inl _ rfl, Loop.run_of_inl _ rfl,
    Loop.run_of_inl _ rfl, Loop.run_of_inr _ rfl]
  exact ⟨rfl, rfl⟩

end ForemanAgent

end Agent

end NativeInterop
