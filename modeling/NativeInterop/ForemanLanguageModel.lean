import NativeInterop.ForemanAgent
import NativeInterop.SessionStream
import Mathlib.Tactic

/-!
# A Foreman turn as a language model

`ForemanLanguageModel.GenerateAsync` runs a turn on a task of its own.  The sink of the
turn writes into an unbounded channel; when the turn has returned, its status follows as
one more fragment, and however the task ends, it completes the channel.  The iterator
yields what is in the channel and then awaits the task, of whose exceptions it swallows
the cancellations.
-/

namespace NativeInterop

namespace Agent

namespace ForemanLanguageModel

/-- What the task has written when a turn has answered with these fragments. -/
def written (answers : List String) (status : AgentSessionStatus) : List String :=
  answers ++ [statusFragment status]

def status (agent : ForemanAgent) (result : ForemanTurnResult) : AgentSessionStatus where
  stopReason := result.stopReason
  toolSteps := BitVec.ofNat 32 result.toolSteps
  backend := agent.brain.backendBadge

/-- What `runTask` writes into the channel, and the exception it ends with. -/
def runTask (agent : ForemanAgent) (query : String) (history : List ConversationTurn) :
    List String × Option Thrown :=
  let ended := agent.runTurn query history
  match ended.outcome with
  | .ok result => (written ended.turn.sunk (status agent result), none)
  | .error ex => (ended.turn.sunk, some ex)

def generateAsync (agent : ForemanAgent) (query : String) (history : List ConversationTurn) :
    Generation :=
  let task := runTask agent query history
  { fragments := task.1
    faults := match task.2 with
      | none => false
      | some ex => !ex.canceled }

theorem generateAsync_of_returned {agent : ForemanAgent} {query : String}
    {history : List ConversationTurn} {result : ForemanTurnResult}
    (hreturned : (agent.runTurn query history).outcome = .ok result) :
    generateAsync agent query history =
      ⟨written (agent.runTurn query history).turn.sunk (status agent result), false⟩ := by
  simp [generateAsync, runTask, hreturned]

/-! ## The status comes last -/

/-- The turn has returned, and its fragments are what it has passed to the sink and then
one status fragment, which carries its stop reason and its tool steps. -/
def StatusLast (agent : ForemanAgent) (query : String) (history : List ConversationTurn) :
    Prop :=
  ∃ result, (agent.runTurn query history).outcome = .ok result ∧
    (generateAsync agent query history).fragments =
      written (agent.runTurn query history).turn.sunk (status agent result)

/-- Whenever a consumer of the session has received the final marker, it has received
the status of the turn right before it. -/
def FinalAfterStatus (agent : ForemanAgent) (query : String)
    (history : List ConversationTurn) : Prop :=
  ∀ capacity acts s,
    SessionStream.machine.run (.start capacity (generateAsync agent query history)) acts =
      some s →
    (∀ act ∈ acts, act.works = true) → ∀ token ∈ s.received, token.isFinal = true →
      ∃ earlier index result, (agent.runTurn query history).outcome = .ok result ∧
        s.received = earlier ++ [⟨index, statusFragment (status agent result), false⟩, token]

theorem statusLast_iff (agent : ForemanAgent) (query : String)
    (history : List ConversationTurn) :
    StatusLast agent query history ↔ ¬ agent.Cancelled query history := by
  constructor
  · rintro ⟨result, hreturned, _⟩
    exact ForemanAgent.not_cancelled_of_returned hreturned
  · intro huncancelled
    obtain ⟨result, hreturned, _⟩ := ForemanAgent.runTurn_honest huncancelled
    exact ⟨result, hreturned, by rw [generateAsync_of_returned hreturned]⟩

theorem stream_written (answers : List String) (status : AgentSessionStatus) :
    InferenceOrchestrator.stream (written answers status) =
      InferenceOrchestrator.tokens answers ++
        [⟨BitVec.ofNat 32 answers.length, statusFragment status, false⟩,
          .final (BitVec.ofNat 32 (answers.length + 1))] := by
  simp [InferenceOrchestrator.stream, InferenceOrchestrator.tokens, written,
    List.mapIdx_append]

theorem StatusLast.finalAfterStatus {agent : ForemanAgent} {query : String}
    {history : List ConversationTurn} (hlast : StatusLast agent query history) :
    FinalAfterStatus agent query history := by
  obtain ⟨result, hreturned, hfragments⟩ := hlast
  intro capacity acts s hrun _ token hmem hfinal
  have hprefix := (SessionStream.invariant_of_run hrun).received_isPrefix
  have hwhole := InferenceOrchestrator.eq_stream_of_final hprefix hmem hfinal
  rw [hfragments, stream_written] at hwhole
  have htoken : token =
      .final (BitVec.ofNat 32 ((agent.runTurn query history).turn.sunk.length + 1)) := by
    rw [hwhole] at hmem
    simp only [List.mem_append, List.mem_cons, List.not_mem_nil, or_false] at hmem
    rcases hmem with hanswer | rfl | hmarker
    · rw [InferenceOrchestrator.isFinal_of_mem_tokens hanswer] at hfinal
      cases hfinal
    · cases hfinal
    · exact hmarker
  exact ⟨_, _, result, hreturned, htoken ▸ hwhole⟩

/-- The fragment a client takes for the status. -/
def leadsControl (fragment : String) : Bool :=
  fragment.toList.head? = some '\x01'

theorem leadsControl_statusFragment (status : AgentSessionStatus) :
    leadsControl (statusFragment status) = true := by
  simp [leadsControl, statusFragment, statusMarker]

theorem countP_leadsControl_written (answers : List String) (status : AgentSessionStatus) :
    (written answers status).countP leadsControl = 1 ↔
      ∀ fragment ∈ answers, leadsControl fragment = false := by
  rw [written, List.countP_append, List.countP_singleton, leadsControl_statusFragment]
  simp [List.countP_eq_zero]

/-- The status comes last, exactly once, if and only if nothing the turn awaits throws a
cancellation; the clients see it once if and only if moreover no answer fragment looks
like one. -/
theorem status_last_once_iff (agent : ForemanAgent) (query : String)
    (history : List ConversationTurn) :
    (StatusLast agent query history ∧ FinalAfterStatus agent query history ↔
      ¬ agent.Cancelled query history) ∧
    (StatusLast agent query history ∧
        (generateAsync agent query history).fragments.countP leadsControl = 1 ↔
      ¬ agent.Cancelled query history ∧
        ∀ fragment ∈ (agent.runTurn query history).turn.sunk, leadsControl fragment = false) := by
  constructor
  · rw [← statusLast_iff]
    exact ⟨And.left, fun hlast => ⟨hlast, hlast.finalAfterStatus⟩⟩
  · rw [← statusLast_iff]
    apply and_congr_right
    rintro ⟨result, _, hfragments⟩
    rw [hfragments]
    exact countP_leadsControl_written _ _

/-- A brain that searches the manuals, and a search that times out. -/
def timedOut : ForemanAgent where
  tools := [⟨"search_manuals", fun _ _ => .error ⟨"TaskCanceledException", true⟩⟩]
  brain :=
    { decideAsync := fun _ => .ok ⟨some ⟨"search_manuals", "\x7b\x7d"⟩, false⟩
      streamAnswerAsync := fun _ => (["see chapter 4"], none)
      backendBadge := "scripted" }

theorem generateAsync_timedOut : generateAsync timedOut "fault E7" [] = ⟨[], false⟩ := by
  have hrun := Loop.run_of_inr (timedOut.loop "fault E7" []) (s := {}) rfl
  simp only [generateAsync, runTask, ForemanAgent.runTurn, hrun]
  rfl

/-- The turn that timed out has no status, and its consumer receives the final marker. -/
theorem status_missing :
    ¬ (StatusLast timedOut "fault E7" [] ∧ FinalAfterStatus timedOut "fault E7" []) ∧
    ∃ s, SessionStream.machine.run (.start 64 (generateAsync timedOut "fault E7" []))
        [.pump .fetch, .pump .enterWrite, .pump .write, .read] = some s ∧
      s.received = [.final 0] := by
  constructor
  · rintro ⟨⟨result, _, hfragments⟩, _⟩
    rw [generateAsync_timedOut] at hfragments
    simp [written] at hfragments
  · rw [generateAsync_timedOut]
    exact ⟨_, rfl, rfl⟩

/-! ## The stream decodes -/

theorem mapM_parse_written_iff {width : ℕ} (hwidth : 32 ≤ width) (answers : List String)
    (status : AgentSessionStatus) :
    (written answers status).mapM (parseAgentFragment width) =
        some (answers.map .answer ++
          [.status ⟨status.stopReason, status.toolSteps.toInt, status.backend⟩]) ↔
      ∀ fragment ∈ answers, leadsControl fragment = false := by
  induction answers with
  | nil => simp [written, parse_statusFragment hwidth]
  | cons fragment rest ih =>
      have hfirst := parse_eq_answer_iff width fragment
      rw [written, List.cons_append, ← written, List.mapM_cons, List.forall_mem_cons, ← ih]
      simp only [leadsControl, decide_eq_false_iff_not, ← hfirst]
      constructor
      · intro hmap
        obtain ⟨parsed, hparsed, hrest⟩ := Option.bind_eq_some_iff.mp hmap
        obtain ⟨others, hothers, heq⟩ := Option.bind_eq_some_iff.mp hrest
        simp only [Option.pure_def, Option.some.injEq, List.map_cons, List.cons_append,
          List.cons.injEq] at heq
        rw [heq.1] at hparsed
        rw [heq.2] at hothers
        exact ⟨hparsed, hothers⟩
      · rintro ⟨hparsed, hrest⟩
        rw [hparsed, hrest]
        rfl

/-- The answer fragments in order, then the status. -/
def decoded (answers : List String) (status : AgentSessionStatus) : List AgentFragment :=
  answers.map .answer ++ [.status ⟨status.stopReason, status.toolSteps.toInt, status.backend⟩]

theorem toInt_toolSteps {agent : ForemanAgent} {query : String}
    {history : List ConversationTurn} {result : ForemanTurnResult}
    (hreturned : (agent.runTurn query history).outcome = .ok result) :
    (status agent result).toolSteps.toInt = result.toolSteps := by
  have hle := (ForemanAgent.honest_of_returned hreturned).toolSteps_le
  simp only [ForemanAgent.maxToolSteps] at hle
  have hsmall : (status agent result).toolSteps.toNat = result.toolSteps := by
    rw [status, BitVec.toNat_ofNat]
    omega
  rw [BitVec.toInt_eq_toNat_of_lt (by omega), hsmall]

/-- What `GenerateAsync` yields comes back as the answer fragments and the status of the
turn if and only if no answer fragment begins with the control character; and so it does
whatever the answer and the status are. -/
theorem agent_stream_decodes {agent : ForemanAgent} {query : String}
    {history : List ConversationTurn} {result : ForemanTurnResult}
    (hreturned : (agent.runTurn query history).outcome = .ok result) :
    (((generateAsync agent query history).fragments.mapM parseAgentFragmentKotlin =
          some ((agent.runTurn query history).turn.sunk.map .answer ++
            [.status ⟨result.stopReason, result.toolSteps, agent.brain.backendBadge⟩]) ∧
        (generateAsync agent query history).fragments.mapM parseAgentFragmentSwift =
          some ((agent.runTurn query history).turn.sunk.map .answer ++
            [.status ⟨result.stopReason, result.toolSteps, agent.brain.backendBadge⟩])) ↔
      ∀ fragment ∈ (agent.runTurn query history).turn.sunk, leadsControl fragment = false) ∧
    ∀ answers status,
      ((written answers status).mapM parseAgentFragmentKotlin = some (decoded answers status) ∧
        (written answers status).mapM parseAgentFragmentSwift =
          some (decoded answers status)) ↔
      ∀ fragment ∈ answers, leadsControl fragment = false := by
  have hboth : ∀ answers status,
      ((written answers status).mapM parseAgentFragmentKotlin = some (decoded answers status) ∧
        (written answers status).mapM parseAgentFragmentSwift =
          some (decoded answers status)) ↔
      ∀ fragment ∈ answers, leadsControl fragment = false := by
    intro answers status
    have hkotlin := mapM_parse_written_iff (le_refl 32) answers status
    have hswift := mapM_parse_written_iff (show 32 ≤ 64 by decide) answers status
    rw [parseAgentFragmentKotlin, parseAgentFragmentSwift, decoded, hkotlin, hswift, and_self]
  refine ⟨?_, hboth⟩
  have hturn := hboth (agent.runTurn query history).turn.sunk (status agent result)
  rw [decoded, toInt_toolSteps hreturned] at hturn
  rw [generateAsync_of_returned hreturned]
  exact hturn

theorem agent_stream_decodes_greedy :
    (generateAsync .greedy "how much memory?" []).fragments.mapM parseAgentFragmentKotlin =
      some [.answer "out", .answer " of steps", .status ⟨.stepCapReached, 5, "scripted"⟩] := by
  obtain ⟨hreturned, hsunk⟩ := ForemanAgent.runTurn_greedy
  have hdecodes := (agent_stream_decodes hreturned).1
  rw [hsunk] at hdecodes
  exact (hdecodes.mpr (by decide)).1

/-- A brain whose answer begins with the control character. -/
def marked : ForemanAgent where
  tools := []
  brain :=
    { decideAsync := fun _ => .ok ⟨none, true⟩
      streamAnswerAsync := fun _ => (["\x01 is SOH"], none)
      backendBadge := "scripted" }

theorem generateAsync_marked :
    (marked.runTurn "what is SOH?" []).outcome = .ok ⟨"\x01 is SOH", .answered, 0⟩ ∧
      (generateAsync marked "what is SOH?" []).fragments =
        written ["\x01 is SOH"] ⟨.answered, 0, "scripted"⟩ := by
  have hrun := Loop.run_of_inr (marked.loop "what is SOH?" []) (s := {}) rfl
  simp only [generateAsync, runTask, ForemanAgent.runTurn, hrun]
  exact ⟨rfl, rfl⟩

/-- Its stream does not decode to the answer and the status of the turn. -/
theorem marked_answer_lost :
    (marked.runTurn "what is SOH?" []).outcome = .ok ⟨"\x01 is SOH", .answered, 0⟩ ∧
      (generateAsync marked "what is SOH?" []).fragments.mapM parseAgentFragmentKotlin ≠
        some [.answer "\x01 is SOH", .status ⟨.answered, 0, "scripted"⟩] ∧
      (generateAsync marked "what is SOH?" []).fragments.mapM parseAgentFragmentSwift ≠
        some [.answer "\x01 is SOH", .status ⟨.answered, 0, "scripted"⟩] := by
  obtain ⟨houtcome, hfragments⟩ := generateAsync_marked
  have hcontrol : ¬ ∀ fragment ∈ ["\x01 is SOH"], leadsControl fragment = false := by decide
  rw [hfragments]
  refine ⟨houtcome, ?_, ?_⟩
  · intro hdecodes
    exact hcontrol ((mapM_parse_written_iff (le_refl 32) _ _).mp hdecodes)
  · intro hdecodes
    exact hcontrol ((mapM_parse_written_iff (show 32 ≤ 64 by decide) _ _).mp hdecodes)

end ForemanLanguageModel

end Agent

end NativeInterop
