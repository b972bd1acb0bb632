import NativeInterop.TurnScreens
import Mathlib.Tactic

/-!
# The Foreman screen on Android

The job of a turn in `AgentViewModel` never asks whether it has been cancelled.  A
cancelled coroutine resumes, from wherever it is suspended, with a
`CancellationException`; `runCatching` catches it like any other failure, and what
follows is written to the last turn, whichever turn that has become.
-/

namespace NativeInterop

namespace Agent

namespace AgentViewModel

variable {Span : Type}

/-- `ask` comes with what `QueryInput.sanitize` makes of the query, and with the fragments
of its flow, which may complete or fail at any of them.  `cancellation` is the resumption
of a cancelled job. -/
inductive Action (Span : Type) where
  | ask (query : Option String) (stream : List AgentFragment)
  | cancel
  | fragment (job : ℕ)
  | drained (job : ℕ) (spans : List Span)
  | completed (job : ℕ)
  | failed (job : ℕ) (message : String)
  | cancellation (job : ℕ) (message : String)
  deriving DecidableEq, Repr

def Action.job? : Action Span → Option ℕ
  | .fragment i => some i
  | .drained i _ => some i
  | .completed i => some i
  | .failed i _ => some i
  | .cancellation i _ => some i
  | _ => none

def ask (s : Screen Span) (query : String) (stream : List AgentFragment) : Screen Span :=
  s.cancelCurrent.startTurn query stream

def cancel (s : Screen Span) : Screen Span :=
  { s.cancelCurrent with running := false }

def step (s : Screen Span) : Action Span → Option (Screen Span)
  | .ask none _ => some s
  | .ask (some query) stream => some (ask s query stream)
  | .cancel => some (cancel s)
  | .fragment i => do
      let job ← s.jobs[i]?
      let fragment ← job.next?
      if job.phase = .collecting ∧ job.cancelled = false then some (s.receive i fragment) else none
  | .drained i spans => do
      let job ← s.jobs[i]?
      match job.phase, job.cancelled with
      | .draining status, false => some (s.applyStatus i status spans)
      | _, _ => none
  | .completed i => do
      let job ← s.jobs[i]?
      if job.phase = .collecting ∧ job.cancelled = false then some (s.complete i) else none
  | .failed i message => do
      let job ← s.jobs[i]?
      if job.phase = .collecting ∧ job.cancelled = false then some (s.failTurn i message) else none
  | .cancellation i message => do
      let job ← s.jobs[i]?
      if job.live = true ∧ job.cancelled = true then some (s.failTurn i message) else none

def machine : Machine (Screen Span) (Action Span) where
  step := step

/-! ## Isolation -/

/-- The step leaves the turns after the job's own, the flag and the error as they are. -/
structure Unseen (s next : Screen Span) (i : ℕ) : Prop where
  newer : ∀ k, i < k → next.turns[k]? = s.turns[k]?
  running : next.running = s.running
  error : next.error = s.error

def Stale (s : Screen Span) (i : ℕ) : Prop :=
  ∃ job, s.jobs[i]? = some job ∧ (job.cancelled = true ∨ i + 1 < s.jobs.length)

/-- A superseded or cancelled job that moves changes nothing outside its own turn. -/
def StepIsolated (s : Screen Span) (action : Action Span) : Prop :=
  ∀ i next, action.job? = some i → Stale s i → machine.step s action = some next →
    Unseen s next i

/-- A cancelled job has nothing to write: the last turn is already an error with the same
text, nothing is running, and its own turn has been resolved. -/
def nothingToWrite (s : Screen Span) (i : ℕ) (message : String) : Bool :=
  s.error = some (Screen.failureText message) && !s.running &&
    (s.turns.getLast?.all fun turn => turn.outcome = .error) &&
    (s.turns[i]?.all fun turn => turn.outcome ≠ .streaming)

/-- No cancelled job resumes with something to write. -/
def harmless (s : Screen Span) : Action Span → Bool
  | .cancellation i message => nothingToWrite s i message
  | _ => true

/-- The ways a job can move: an uncancelled one as its flow has it, a cancelled one only
by failing. -/
inductive Moves (s : Screen Span) (i : ℕ) (job : TurnJob) : Action Span → Screen Span → Prop
  | fragment {fragment : AgentFragment} (hnext : job.next? = some fragment)
      (hactive : job.active = true) : Moves s i job (.fragment i) (s.receive i fragment)
  | drained (status : AgentTurnStatus) (spans : List Span) (hactive : job.active = true) :
      Moves s i job (.drained i spans) (s.applyStatus i status spans)
  | completed (hactive : job.active = true) : Moves s i job (.completed i) (s.complete i)
  | failed (message : String) (hactive : job.active = true) :
      Moves s i job (.failed i message) (s.failTurn i message)
  | cancellation (message : String) (hcancelled : job.cancelled = true) :
      Moves s i job (.cancellation i message) (s.failTurn i message)

theorem active_of_collecting {job : TurnJob}
    (hjob : job.phase = .collecting ∧ job.cancelled = false) : job.active = true := by
  simp [TurnJob.active, TurnJob.live, hjob]

theorem moves_of_step {s next : Screen Span} {action : Action Span} {i : ℕ}
    (htarget : action.job? = some i) (hstep : machine.step s action = some next) :
    ∃ job, s.jobs[i]? = some job ∧ Moves s i job action next := by
  cases action with
  | ask query stream => cases htarget
  | cancel => cases htarget
  | fragment target =>
      cases htarget
      simp only [machine, step, Option.bind_eq_bind, Option.bind_eq_some_iff] at hstep
      obtain ⟨job, hjob, fragment, hnext, hstep⟩ := hstep
      split_ifs at hstep with hcollecting
      cases hstep
      exact ⟨job, hjob, .fragment hnext (active_of_collecting hcollecting)⟩
  | drained target spans =>
      cases htarget
      simp only [machine, step, Option.bind_eq_bind, Option.bind_eq_some_iff] at hstep
      obtain ⟨job, hjob, hstep⟩ := hstep
      split at hstep
      · next status hphase huncancelled =>
          cases hstep
          refine ⟨job, hjob, .drained status spans ?_⟩
          simp [TurnJob.active, TurnJob.live, hphase, huncancelled]
      · cases hstep
  | completed target =>
      cases htarget
      simp only [machine, step, Option.bind_eq_bind, Option.bind_eq_some_iff] at hstep
      obtain ⟨job, hjob, hstep⟩ := hstep
      split_ifs at hstep with hcollecting
      cases hstep
      exact ⟨job, hjob, .completed (active_of_collecting hcollecting)⟩
  | failed target message =>
      cases htarget
      simp only [machine, step, Option.bind_eq_bind, Option.bind_eq_some_iff] at hstep
      obtain ⟨job, hjob, hstep⟩ := hstep
      split_ifs at hstep with hcollecting
      cases hstep
      exact ⟨job, hjob, .failed message (active_of_collecting hcollecting)⟩
  | cancellation target message =>
      cases htarget
      simp only [machine, step, Option.bind_eq_bind, Option.bind_eq_some_iff] at hstep
      obtain ⟨job, hjob, hstep⟩ := hstep
      split_ifs at hstep with hcancelled
      cases hstep
      exact ⟨job, hjob, .cancellation message hcancelled.2⟩

/-- On Android a turn may be streaming as long as its own job lives. -/
abbrev Inv (s : Screen Span) : Prop := s.Inv TurnJob.live

theorem live_of_active {job : TurnJob} (hactive : job.active = true) : job.live = true :=
  (Bool.and_eq_true_iff.mp hactive).1

theorem modify_last_eq_self {turns : List (ForemanTurn Span)}
    {write : ForemanTurn Span → ForemanTurn Span}
    (hlast : ∀ turn, turns.getLast? = some turn → write turn = turn) :
    turns.modify (turns.length - 1) write = turns := by
  apply List.ext_getElem?
  intro k
  by_cases hk : turns.length - 1 = k
  · subst hk
    rw [List.getElem?_modify_eq, ← List.getLast?_eq_getElem?]
    cases hturn : turns.getLast? with
    | none => rfl
    | some turn => rw [Option.map_eq_map, Option.map_some, hlast turn hturn]
  · rw [List.getElem?_modify_ne _ _ hk]

/-- What a cancelled job does when it has nothing to write. -/
theorem failTurn_eq_finish {s : Screen Span} {i : ℕ} {message : String}
    (hnothing : nothingToWrite s i message = true) :
    s.failTurn i message = s.setJob i TurnJob.finish := by
  simp only [nothingToWrite, Bool.and_eq_true, decide_eq_true_eq, Bool.not_eq_true',
    Option.all_eq_true] at hnothing
  obtain ⟨⟨⟨herror, hrunning⟩, hlast⟩, -⟩ := hnothing
  have hfail : s.turns.modify (s.turns.length - 1) ForemanTurn.fail = s.turns := by
    apply modify_last_eq_self
    intro turn hturn
    rw [ForemanTurn.fail, ← hlast turn hturn]
  have hresolve : s.turns.modify (s.turns.length - 1) ForemanTurn.resolve = s.turns := by
    apply modify_last_eq_self
    intro turn hturn
    rw [ForemanTurn.resolve, hlast turn hturn, if_neg (by simp)]
  simp only [Screen.failTurn, Screen.complete, Screen.updateLastTurn, Screen.setJob, hfail,
    hresolve, ← herror, ← hrunning]

theorem Moves.inv {s next : Screen Span} {action : Action Span} {i : ℕ} {job : TurnJob}
    (hinv : Inv s) (hjob : s.jobs[i]? = some job) (hmoves : Moves s i job action next)
    (hharmless : harmless s action = true) : Inv next := by
  cases hmoves with
  | fragment hnext hactive => exact hinv.receive (fun _ => live_of_active) hjob hactive hnext
  | drained status spans hactive => exact hinv.applyStatus hjob hactive status spans
  | completed hactive => exact hinv.complete hjob hactive
  | failed message hactive => exact hinv.failTurn hjob hactive message
  | cancellation message hcancelled =>
      rw [failTurn_eq_finish hharmless]
      apply hinv.moveStale hjob (by simp [TurnJob.active, hcancelled]) job.answered_finish
        job.active_finish
      intro turn hturn hstreaming
      simp [harmless, nothingToWrite, hturn, hstreaming] at hharmless

theorem inv_cancel {s : Screen Span} (hinv : Inv s) : Inv (cancel s) := by
  refine hinv.stop id ?_ rfl rfl (fun _ => rfl) (fun _ houtcome => houtcome) ?_
  · rw [List.modify_id]
    exact Screen.cancelCurrent_turns
  · intro k turn job _ hlive _
    exact hlive

theorem inv_ask {s : Screen Span} (hinv : Inv s) (query : String) (stream : List AgentFragment) :
    Inv (ask s query stream) :=
  (inv_cancel hinv).startTurn rfl query stream rfl

theorem inv_step {s next : Screen Span} {action : Action Span} (hinv : Inv s)
    (hharmless : harmless s action = true) (hstep : machine.step s action = some next) :
    Inv next := by
  cases htarget : action.job? with
  | some i =>
      obtain ⟨job, hjob, hmoves⟩ := moves_of_step htarget hstep
      exact hmoves.inv hinv hjob hharmless
  | none =>
      cases action with
      | ask query stream =>
          cases query with
          | none =>
              cases hstep
              exact hinv
          | some query =>
              cases hstep
              exact inv_ask hinv query stream
      | cancel =>
          cases hstep
          exact inv_cancel hinv
      | fragment | drained | completed | failed | cancellation => cases htarget

theorem stepIsolated_of_harmless {s : Screen Span} {action : Action Span} (hinv : Inv s)
    (hharmless : harmless s action = true) : StepIsolated s action := by
  intro i next htarget hstale hstep
  obtain ⟨job, hjob, hmoves⟩ := moves_of_step htarget hstep
  obtain ⟨other, hother, hcase⟩ := hstale
  rw [hjob] at hother
  cases hother
  have hinactive : job.active = false := by
    rcases hcase with hcancelled | hsuperseded
    · simp [TurnJob.active, hcancelled]
    · rw [← Bool.not_eq_true]
      intro hactive
      have hnewest := (hinv.newest i job hjob hactive).1
      omega
  cases hmoves with
  | cancellation message hcancelled =>
      rw [failTurn_eq_finish hharmless]
      exact ⟨fun _ _ => rfl, rfl, rfl⟩
  | fragment hnext hactive =>
      rw [hinactive] at hactive
      cases hactive
  | drained status spans hactive =>
      rw [hinactive] at hactive
      cases hactive
  | completed hactive =>
      rw [hinactive] at hactive
      cases hactive
  | failed message hactive =>
      rw [hinactive] at hactive
      cases hactive

/-- As long as no cancelled job resumes with something to write, turns are isolated. -/
theorem turns_isolated_of_harmless {t : Screen Span} {actions : List (Action Span)}
    (hrun : machine.run {} actions = some t)
    (hharmless : machine.RunMeets (fun s action => harmless s action = true) {} actions) :
    t.Isolated ∧ machine.RunMeets StepIsolated {} actions := by
  have hpreserve : ∀ (s : Screen Span) (action : Action Span) (next : Screen Span), Inv s →
      harmless s action = true → machine.step s action = some next → Inv next :=
    fun _ _ _ hinv hharmless hstep => inv_step hinv hharmless hstep
  have hinit : Inv ({} : Screen Span) := Screen.inv_initial _
  constructor
  · exact (machine.run_invariant hpreserve hinit hharmless hrun).isolated fun _ hlive => hlive
  · exact machine.runMeets_imp hpreserve
      (fun _ _ hinv hharmless => stepIsolated_of_harmless hinv hharmless) hinit hharmless

/-- Two turns, one after the other. -/
def oneByOne : List (Action Unit) :=
  [.ask (some "a") [.answer "one", .status ⟨.answered, 0, "router"⟩], .fragment 0, .fragment 0,
    .drained 0 [], .completed 0, .ask (some "b") [.answer "two"], .fragment 1, .cancel]

theorem turns_isolated_of_harmless_oneByOne :
    ∃ t, machine.run {} oneByOne = some t ∧
      machine.RunMeets (fun s action => harmless s action = true) {} oneByOne ∧
      t.turns.map (fun turn => (turn.answer, turn.outcome)) =
        [("one", .answered), ("two", .streaming)] ∧
      t.Isolated ∧ machine.RunMeets StepIsolated {} oneByOne := by
  have hrun : machine.run {} oneByOne = some
      { turns := [{ query := "a", answer := "one", outcome := .answered, backend := "router" },
          { query := "b", answer := "two" }]
        jobs := [⟨[.answer "one", .status ⟨.answered, 0, "router"⟩], 2, .done, true⟩,
          ⟨[.answer "two"], 1, .collecting, true⟩]
        current := some 1 } := by
    decide
  have hharmless : machine.RunMeets (fun s action => harmless s action = true) {} oneByOne :=
    machine.runMeets_of_check (by decide)
  exact ⟨_, hrun, hharmless, rfl, turns_isolated_of_harmless hrun hharmless⟩

/-- The second turn is asked for while the trace is drained for the first. -/
def supersedeDraining : List (Action Unit) :=
  [.ask (some "a") [.status ⟨.answered, 0, "router"⟩], .fragment 0, .ask (some "b") [.answer "two"]]

/-- The first job then resumes, and fails the second turn. -/
theorem not_isolated_supersedeDraining :
    ∃ s t, machine.run {} supersedeDraining = some s ∧
      machine.step s (.cancellation 0 "StandaloneCoroutine was cancelled") = some t ∧
      s.running = true ∧ s.error = none ∧
      s.turns.map ForemanTurn.outcome = [.streaming, .streaming] ∧
      t.running = false ∧
      t.error = some "Foreman turn failed: StandaloneCoroutine was cancelled" ∧
      t.turns.map ForemanTurn.outcome = [.streaming, .error] ∧
      t.jobs.map TurnJob.active = [false, true] ∧ ¬ t.Isolated ∧
      ¬ StepIsolated s (.cancellation 0 "StandaloneCoroutine was cancelled") := by
  refine ⟨_, _, rfl, rfl, rfl, rfl, rfl, rfl, rfl, rfl, rfl, ?_, ?_⟩
  · intro hisolated
    have hrunning := hisolated.running_iff.mpr ⟨_, rfl, rfl⟩
    cases hrunning
  · intro hstep
    have hunseen := hstep 0 _ rfl ⟨_, rfl, .inl rfl⟩ rfl
    cases hunseen.running

end AgentViewModel

end Agent

end NativeInterop
