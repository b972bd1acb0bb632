import NativeInterop.TurnScreens
import Mathlib.Tactic

/-!
# The Foreman screen on iOS

`ForemanViewModel` is confined to the main actor.  The task of a turn looks at
`Task.isCancelled` wherever it resumes: at a fragment, after the drained trace, after a
failure and before its epilogue.  Whoever supersedes or cancels a turn resolves it.
-/

namespace NativeInterop

namespace Agent

namespace ForemanViewModel

variable {Span : Type}

/-- `ask` comes with what `QueryInput.sanitize` makes of the query, and with the stream
that the service will deliver for it; the stream may end or fail at any fragment. -/
inductive Action (Span : Type) where
  | ask (query : Option String) (stream : List AgentFragment)
  | cancel
  | fragment (task : ℕ)
  | drained (task : ℕ) (spans : List Span)
  | finished (task : ℕ)
  | failed (task : ℕ) (message : String)
  deriving DecidableEq, Repr

def Action.task? : Action Span → Option ℕ
  | .fragment i => some i
  | .drained i _ => some i
  | .finished i => some i
  | .failed i _ => some i
  | _ => none

def ask (s : Screen Span) (query : String) (stream : List AgentFragment) : Screen Span :=
  (s.cancelCurrent.updateLastTurn ForemanTurn.resolve).startTurn query stream

def cancel (s : Screen Span) : Screen Span :=
  { s.cancelCurrent.updateLastTurn ForemanTurn.resolve with running := false, current := none }

/-- The body of the loop: a cancelled task leaves it and returns. -/
def onFragment (s : Screen Span) (i : ℕ) (job : TurnJob) (fragment : AgentFragment) :
    Screen Span :=
  if job.cancelled then s.setJob i TurnJob.finish else s.receive i fragment

/-- The rest of `applyStatus`, and back to the loop. -/
def onDrained (s : Screen Span) (i : ℕ) (job : TurnJob) (status : AgentTurnStatus)
    (spans : List Span) : Screen Span :=
  if job.cancelled then s.setJob i TurnJob.resume else s.applyStatus i status spans

def onFinished (s : Screen Span) (i : ℕ) (job : TurnJob) : Screen Span :=
  if job.cancelled then s.setJob i TurnJob.finish else s.complete i

def onFailed (s : Screen Span) (i : ℕ) (job : TurnJob) (message : String) : Screen Span :=
  if job.cancelled then s.setJob i TurnJob.finish else s.failTurn i message

def step (s : Screen Span) : Action Span → Option (Screen Span)
  | .ask none _ => some s
  | .ask (some query) stream => some (ask s query stream)
  | .cancel => some (cancel s)
  | .fragment i => do
      let job ← s.jobs[i]?
      let fragment ← job.next?
      if job.phase = .collecting then some (onFragment s i job fragment) else none
  | .drained i spans => do
      let job ← s.jobs[i]?
      match job.phase with
      | .draining status => some (onDrained s i job status spans)
      | _ => none
  | .finished i => do
      let job ← s.jobs[i]?
      if job.phase = .collecting then some (onFinished s i job) else none
  | .failed i message => do
      let job ← s.jobs[i]?
      if job.phase = .collecting then some (onFailed s i job message) else none

def machine : Machine (Screen Span) (Action Span) where
  step := step

/-! ## Isolation -/

/-- The ways a task can move. -/
inductive Moves (s : Screen Span) (i : ℕ) (job : TurnJob) : Screen Span → Prop
  | fragment {fragment : AgentFragment} (hnext : job.next? = some fragment)
      (hphase : job.phase = .collecting) : Moves s i job (onFragment s i job fragment)
  | drained {status : AgentTurnStatus} (spans : List Span)
      (hphase : job.phase = .draining status) : Moves s i job (onDrained s i job status spans)
  | finished (hphase : job.phase = .collecting) : Moves s i job (onFinished s i job)
  | failed (message : String) (hphase : job.phase = .collecting) :
      Moves s i job (onFailed s i job message)

theorem moves_of_step {s next : Screen Span} {action : Action Span} {i : ℕ}
    (htask : action.task? = some i) (hstep : machine.step s action = some next) :
    ∃ job, s.jobs[i]? = some job ∧ Moves s i job next := by
  cases action with
  | ask query stream => cases htask
  | cancel => cases htask
  | fragment task =>
      cases htask
      simp only [machine, step, Option.bind_eq_bind, Option.bind_eq_some_iff] at hstep
      obtain ⟨job, hjob, fragment, hnext, hstep⟩ := hstep
      split_ifs at hstep with hphase
      cases hstep
      exact ⟨job, hjob, .fragment hnext hphase⟩
  | drained task spans =>
      cases htask
      simp only [machine, step, Option.bind_eq_bind, Option.bind_eq_some_iff] at hstep
      obtain ⟨job, hjob, hstep⟩ := hstep
      split at hstep
      · next status hphase =>
          cases hstep
          exact ⟨job, hjob, .drained spans hphase⟩
      · cases hstep
  | finished task =>
      cases htask
      simp only [machine, step, Option.bind_eq_bind, Option.bind_eq_some_iff] at hstep
      obtain ⟨job, hjob, hstep⟩ := hstep
      split_ifs at hstep with hphase
      cases hstep
      exact ⟨job, hjob, .finished hphase⟩
  | failed task message =>
      cases htask
      simp only [machine, step, Option.bind_eq_bind, Option.bind_eq_some_iff] at hstep
      obtain ⟨job, hjob, hstep⟩ := hstep
      split_ifs at hstep with hphase
      cases hstep
      exact ⟨job, hjob, .failed message hphase⟩

/-- A task moves only while it is live. -/
theorem Moves.live {s next : Screen Span} {i : ℕ} {job : TurnJob} (hmoves : Moves s i job next) :
    job.live = true := by
  cases hmoves with
  | fragment hnext hphase => simp [TurnJob.live, hphase]
  | drained spans hphase => simp [TurnJob.live, hphase]
  | finished hphase => simp [TurnJob.live, hphase]
  | failed message hphase => simp [TurnJob.live, hphase]

/-- A cancelled task writes nothing that is shown. -/
theorem Moves.unseen {s next : Screen Span} {i : ℕ} {job : TurnJob} (hmoves : Moves s i job next)
    (hcancelled : job.cancelled = true) :
    next.turns = s.turns ∧ next.running = s.running ∧ next.error = s.error := by
  cases hmoves with
  | fragment => simp [onFragment, hcancelled, Screen.setJob]
  | drained => simp [onDrained, hcancelled, Screen.setJob]
  | finished => simp [onFinished, hcancelled, Screen.setJob]
  | failed => simp [onFailed, hcancelled, Screen.setJob]

/-- On iOS a turn is streaming only while its own task may still write it. -/
abbrev Inv (s : Screen Span) : Prop := s.Inv TurnJob.active

theorem Moves.inv_of_cancelled {s next : Screen Span} {i : ℕ} {job : TurnJob} (hinv : Inv s)
    (hjob : s.jobs[i]? = some job) (hmoves : Moves s i job next)
    (hcancelled : job.cancelled = true) : Inv next := by
  have hstale : job.active = false := by simp [TurnJob.active, hcancelled]
  have hmove : ∀ update : TurnJob → TurnJob, (update job).answered = job.answered →
      (update job).active = false → Inv (s.setJob i update) := by
    intro update hanswer hmoved
    apply hinv.moveStale hjob hstale hanswer hmoved
    intro turn _ _ hactive
    rw [hstale] at hactive
    cases hactive
  cases hmoves with
  | fragment =>
      rw [onFragment, if_pos hcancelled]
      exact hmove _ rfl job.active_finish
  | drained =>
      rw [onDrained, if_pos hcancelled]
      exact hmove _ rfl (by simp [TurnJob.active, TurnJob.resume, hcancelled])
  | finished =>
      rw [onFinished, if_pos hcancelled]
      exact hmove _ rfl job.active_finish
  | failed =>
      rw [onFailed, if_pos hcancelled]
      exact hmove _ rfl job.active_finish

theorem Moves.inv_of_active {s next : Screen Span} {i : ℕ} {job : TurnJob} (hinv : Inv s)
    (hjob : s.jobs[i]? = some job) (hmoves : Moves s i job next)
    (huncancelled : ¬ job.cancelled = true) : Inv next := by
  have hactive : job.active = true := by simp [TurnJob.active, hmoves.live, huncancelled]
  cases hmoves with
  | fragment hnext hphase =>
      rw [onFragment, if_neg huncancelled]
      exact hinv.receive (fun _ hheld => hheld) hjob hactive hnext
  | @drained status spans hphase =>
      rw [onDrained, if_neg huncancelled]
      exact hinv.applyStatus hjob hactive status spans
  | finished hphase =>
      rw [onFinished, if_neg huncancelled]
      exact hinv.complete hjob hactive
  | failed message hphase =>
      rw [onFailed, if_neg huncancelled]
      exact hinv.failTurn hjob hactive message

theorem Moves.inv {s next : Screen Span} {i : ℕ} {job : TurnJob} (hinv : Inv s)
    (hjob : s.jobs[i]? = some job) (hmoves : Moves s i job next) : Inv next := by
  by_cases hcancelled : job.cancelled = true
  · exact hmoves.inv_of_cancelled hinv hjob hcancelled
  · exact hmoves.inv_of_active hinv hjob hcancelled

/-- Whoever cancels the current task resolves its turn. -/
theorem inv_stop {s : Screen Span} (hinv : Inv s) (current : Option ℕ) :
    Inv { s.cancelCurrent.updateLastTurn ForemanTurn.resolve with
      running := false, current := current } := by
  refine hinv.stop ForemanTurn.resolve ?_ rfl rfl ForemanTurn.resolve_answer ?_ ?_
  · simp only [Screen.updateLastTurn, Screen.cancelCurrent_turns]
  · intro turn houtcome
    exact absurd houtcome turn.resolve_outcome
  · intro k turn job hjob hactive hlast
    have hnewest := (hinv.newest k job hjob hactive).1
    rw [← hinv.length_eq] at hnewest
    exact absurd (hlast hnewest) turn.resolve_outcome

theorem inv_ask {s : Screen Span} (hinv : Inv s) (query : String) (stream : List AgentFragment) :
    Inv (ask s query stream) := by
  have hstopped := inv_stop hinv none
  exact hstopped.startTurn rfl query stream rfl

theorem inv_step {s next : Screen Span} {action : Action Span} (hinv : Inv s)
    (hstep : machine.step s action = some next) : Inv next := by
  cases htask : action.task? with
  | some i =>
      obtain ⟨job, hjob, hmoves⟩ := moves_of_step htask hstep
      exact hmoves.inv hinv hjob
  | none =>
      cases action with
      | ask query stream =>
          cases query with
          | none =>
              cases hstep
              exact hinv
          | some query =>
              cases hstep
              exact inv_ask hinv query stream
      | cancel =>
          cases hstep
          exact inv_stop hinv none
      | fragment | drained | finished | failed => cases htask

/-- The task of a turn that a later `ask` or a `cancel` has ended. -/
def Stale (s : Screen Span) (i : ℕ) : Prop :=
  ∃ job, s.jobs[i]? = some job ∧ (job.cancelled = true ∨ i + 1 < s.jobs.length)

theorem stale_unseen {s next : Screen Span} {action : Action Span} {i : ℕ} (hinv : Inv s)
    (htask : action.task? = some i) (hstale : Stale s i)
    (hstep : machine.step s action = some next) :
    next.turns = s.turns ∧ next.running = s.running ∧ next.error = s.error := by
  obtain ⟨job, hjob, hmoves⟩ := moves_of_step htask hstep
  obtain ⟨other, hother, hcase⟩ := hstale
  rw [hjob] at hother
  cases hother
  apply hmoves.unseen
  rcases hcase with hcancelled | hsuperseded
  · exact hcancelled
  · rw [← Bool.not_eq_false]
    intro huncancelled
    have hactive : job.active = true := by simp [TurnJob.active, hmoves.live, huncancelled]
    have hnewest := (hinv.newest i job hjob hactive).1
    omega

/-- However the tasks of all turns interleave with `ask` and `cancel`, turns are isolated
and a superseded or cancelled task changes nothing that is shown. -/
theorem turns_isolated {t : Screen Span} {actions : List (Action Span)}
    (hrun : machine.run {} actions = some t) :
    t.Isolated ∧
      ∀ action i next, action.task? = some i → Stale t i → machine.step t action = some next →
        next.turns = t.turns ∧ next.running = t.running ∧ next.error = t.error := by
  have hinv : Inv t :=
    machine.run_invariant_of_step (fun _ _ _ hinv hstep => inv_step hinv hstep)
      (Screen.inv_initial _) hrun
  constructor
  · apply hinv.isolated
    intro job hactive
    exact (Bool.and_eq_true_iff.mp hactive).1
  · intro action i next htask hstale hstep
    exact stale_unseen hinv htask hstale hstep

/-- The first turn is superseded while its trace is drained. -/
def supersede : List (Action Unit) :=
  [.ask (some "a") [.answer "one", .status ⟨.answered, 0, "router"⟩], .fragment 0, .fragment 0,
    .ask (some "b") [.answer "two"], .drained 0 [], .fragment 1, .finished 0]

theorem turns_isolated_supersede :
    ∃ t, machine.run {} supersede = some t ∧ Stale t 0 ∧
      t.turns.map (fun turn => (turn.answer, turn.outcome)) =
        [("one", .error), ("two", .streaming)] ∧ t.running = true ∧ t.Isolated := by
  have hrun : machine.run {} supersede = some
      { turns := [{ query := "a", answer := "one", outcome := .error },
          { query := "b", answer := "two" }]
        running := true
        jobs := [⟨[.answer "one", .status ⟨.answered, 0, "router"⟩], 2, .done, true⟩,
          ⟨[.answer "two"], 1, .collecting, false⟩]
        current := some 1 } := by
    decide
  exact ⟨_, hrun, ⟨_, rfl, .inl rfl⟩, rfl, rfl, (turns_isolated hrun).1⟩

end ForemanViewModel

end Agent

end NativeInterop
