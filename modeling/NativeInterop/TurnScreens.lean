import NativeInterop.AgentStatus
import NativeInterop.Machine
import Mathlib.Tactic

/-!
# The Foreman screens

The view models of the two clients keep a list of turns, a running flag and an error
text, and start one job for every turn.  All of it is written on the main thread, from
one suspension point of a job to its next, and every write to a turn goes to the last
turn of the list.  This file has what the two screens share: their data, what it means
that turns are isolated, and how the invariant survives a step of the job that may write.
-/

namespace NativeInterop

namespace Agent

inductive TurnOutcome where
  | streaming
  | answered
  | stepCapReached
  | error
  deriving DecidableEq, Repr

def TurnOutcome.ofStopReason : ForemanStopReason → TurnOutcome
  | .answered => .answered
  | .stepCapReached => .stepCapReached
  | .error => .error

structure ForemanTurn (Span : Type) where
  query : String
  answer : String := ""
  outcome : TurnOutcome := .streaming
  toolSteps : ℤ := 0
  backend : Option String := none
  toolSpans : List Span := []
  deriving DecidableEq, Repr

namespace ForemanTurn

variable {Span : Type}

def append (text : String) (turn : ForemanTurn Span) : ForemanTurn Span :=
  { turn with answer := turn.answer ++ text }

/-- What a status makes of the turn, with the spans drained for it. -/
def apply (status : AgentTurnStatus) (spans : List Span) (turn : ForemanTurn Span) :
    ForemanTurn Span :=
  { turn with
    outcome := .ofStopReason status.stopReason
    toolSteps := status.toolSteps
    backend := some status.backend
    toolSpans := spans }

def fail (turn : ForemanTurn Span) : ForemanTurn Span :=
  { turn with outcome := .error }

/-- A turn that no status has resolved ends in an error. -/
def resolve (turn : ForemanTurn Span) : ForemanTurn Span :=
  if turn.outcome = .streaming then turn.fail else turn

@[simp] theorem fail_answer (turn : ForemanTurn Span) : turn.fail.answer = turn.answer := rfl

@[simp] theorem resolve_answer (turn : ForemanTurn Span) : turn.resolve.answer = turn.answer := by
  unfold resolve
  split_ifs <;> rfl

theorem resolve_outcome (turn : ForemanTurn Span) : turn.resolve.outcome ≠ .streaming := by
  unfold resolve
  split_ifs with hstreaming
  · simp [fail]
  · exact hstreaming

theorem apply_outcome (status : AgentTurnStatus) (spans : List Span) (turn : ForemanTurn Span) :
    (turn.apply status spans).outcome ≠ .streaming := by
  simp only [apply]
  cases status.stopReason <;> simp [TurnOutcome.ofStopReason]

end ForemanTurn

/-! ## Jobs -/

/-- Where a job is suspended: at the next fragment of its stream, or while the trace is
drained for a status. -/
inductive JobPhase where
  | collecting
  | draining (status : AgentTurnStatus)
  | done
  deriving DecidableEq, Repr

/-- A turn's job, with the whole stream of its turn and the number of fragments taken. -/
structure TurnJob where
  stream : List AgentFragment
  position : ℕ := 0
  phase : JobPhase := .collecting
  cancelled : Bool := false
  deriving DecidableEq, Repr

namespace TurnJob

def live (job : TurnJob) : Bool := job.phase ≠ .done

def active (job : TurnJob) : Bool := job.live && !job.cancelled

def cancel (job : TurnJob) : TurnJob := { job with cancelled := true }

def finish (job : TurnJob) : TurnJob := { job with phase := .done }

def resume (job : TurnJob) : TurnJob := { job with phase := .collecting }

def take (job : TurnJob) (phase : JobPhase) : TurnJob :=
  { job with position := job.position + 1, phase := phase }

def next? (job : TurnJob) : Option AgentFragment := job.stream[job.position]?

end TurnJob

def AgentFragment.text : AgentFragment → String
  | .answer text => text
  | .status _ => ""

/-- The answer the fragments make up. -/
def answerText (fragments : List AgentFragment) : String :=
  String.join (fragments.map AgentFragment.text)

def TurnJob.answered (job : TurnJob) : String := answerText (job.stream.take job.position)

theorem TurnJob.answered_take {job : TurnJob} {fragment : AgentFragment}
    (hnext : job.next? = some fragment) (phase : JobPhase) :
    (job.take phase).answered = job.answered ++ fragment.text := by
  simp only [TurnJob.answered, TurnJob.take, answerText]
  rw [List.take_add_one, show job.stream[job.position]? = some fragment from hnext]
  simp

@[simp] theorem TurnJob.active_cancel (job : TurnJob) : job.cancel.active = false := by
  simp [active, cancel]

@[simp] theorem TurnJob.active_finish (job : TurnJob) : job.finish.active = false := by
  simp [active, live, finish]

@[simp] theorem TurnJob.live_cancel (job : TurnJob) : job.cancel.live = job.live := rfl

@[simp] theorem TurnJob.live_finish (job : TurnJob) : job.finish.live = false := by
  simp [live, finish]

@[simp] theorem TurnJob.answered_cancel (job : TurnJob) : job.cancel.answered = job.answered := rfl

@[simp] theorem TurnJob.answered_finish (job : TurnJob) : job.finish.answered = job.answered := rfl

/-! ## Screens -/

/-- What is shown, and the jobs: the job of a turn stands at the index of the turn.
`current` is the job that `ask` and `cancel` cancel. -/
structure Screen (Span : Type) where
  turns : List (ForemanTurn Span) := []
  running : Bool := false
  error : Option String := none
  jobs : List TurnJob := []
  current : Option ℕ := none
  deriving DecidableEq, Repr

namespace Screen

variable {Span : Type}

def updateLastTurn (s : Screen Span) (update : ForemanTurn Span → ForemanTurn Span) :
    Screen Span :=
  { s with turns := s.turns.modify (s.turns.length - 1) update }

def setJob (s : Screen Span) (i : ℕ) (update : TurnJob → TurnJob) : Screen Span :=
  { s with jobs := s.jobs.modify i update }

/-- `turnJob?.cancel()`. -/
def cancelCurrent (s : Screen Span) : Screen Span :=
  match s.current with
  | none => s
  | some i => s.setJob i TurnJob.cancel

/-- The new turn of an `ask`, and its job. -/
def startTurn (s : Screen Span) (query : String) (stream : List AgentFragment) : Screen Span where
  turns := s.turns ++ [{ query := query }]
  running := true
  error := none
  jobs := s.jobs ++ [{ stream := stream }]
  current := some s.jobs.length

/-- A fragment, for the job that is to write it. -/
def receive (s : Screen Span) (i : ℕ) : AgentFragment → Screen Span
  | .answer text =>
      (s.updateLastTurn (ForemanTurn.append text)).setJob i fun job => job.take .collecting
  | .status status => s.setJob i fun job => job.take (.draining status)

/-- The end of `applyStatus`, after the trace has been drained. -/
def applyStatus (s : Screen Span) (i : ℕ) (status : AgentTurnStatus) (spans : List Span) :
    Screen Span :=
  (s.updateLastTurn (ForemanTurn.apply status spans)).setJob i TurnJob.resume

/-- The epilogue of a job. -/
def complete (s : Screen Span) (i : ℕ) : Screen Span :=
  { (s.updateLastTurn ForemanTurn.resolve).setJob i TurnJob.finish with running := false }

def failureText (message : String) : String := "Foreman turn failed: " ++ message

/-- A failure of the stream, and the epilogue. -/
def failTurn (s : Screen Span) (i : ℕ) (message : String) : Screen Span :=
  { s.updateLastTurn ForemanTurn.fail with error := some (failureText message) }.complete i

/-- Turns are isolated: the answer of a turn is a prefix of what its own stream says, the
flag follows the newest job, and no turn is left streaming. -/
structure Isolated (s : Screen Span) : Prop where
  length_eq : s.turns.length = s.jobs.length
  answers : ∀ (i : ℕ) (turn : ForemanTurn Span) (job : TurnJob), s.turns[i]? = some turn →
    s.jobs[i]? = some job → ∃ n, turn.answer = answerText (job.stream.take n)
  running_iff : s.running = true ↔ ∃ job, s.jobs.getLast? = some job ∧ job.active = true
  resolved : (∀ job ∈ s.jobs, job.live = false) → ∀ turn ∈ s.turns, turn.outcome ≠ .streaming

/-- The invariant of both screens; `held` tells the jobs whose turn may be streaming. -/
structure Inv (held : TurnJob → Bool) (s : Screen Span) : Prop where
  length_eq : s.turns.length = s.jobs.length
  answers : ∀ (i : ℕ) (turn : ForemanTurn Span) (job : TurnJob), s.turns[i]? = some turn →
    s.jobs[i]? = some job → turn.answer = job.answered
  newest : ∀ (i : ℕ) (job : TurnJob), s.jobs[i]? = some job → job.active = true →
    i + 1 = s.jobs.length ∧ s.current = some i
  running_iff : s.running = true ↔ ∃ (i : ℕ) (job : TurnJob), s.jobs[i]? = some job ∧
    job.active = true
  streaming : ∀ (i : ℕ) (turn : ForemanTurn Span) (job : TurnJob), s.turns[i]? = some turn →
    s.jobs[i]? = some job → turn.outcome = .streaming → held job = true

theorem inv_initial (held : TurnJob → Bool) : Inv held ({} : Screen Span) := by
  constructor <;> simp

theorem Inv.isolated {held : TurnJob → Bool} {s : Screen Span} (hinv : s.Inv held)
    (hheld : ∀ job, held job = true → job.live = true) : s.Isolated where
  length_eq := hinv.length_eq
  answers := fun i turn job hturn hjob => ⟨job.position, hinv.answers i turn job hturn hjob⟩
  running_iff := by
    rw [hinv.running_iff]
    constructor
    · rintro ⟨i, job, hjob, hactive⟩
      have hlast := (hinv.newest i job hjob hactive).1
      refine ⟨job, ?_, hactive⟩
      rw [List.getLast?_eq_getElem?, ← hlast, Nat.add_sub_cancel]
      exact hjob
    · rintro ⟨job, hlast, hactive⟩
      rw [List.getLast?_eq_getElem?] at hlast
      exact ⟨_, job, hlast, hactive⟩
  resolved := by
    intro hdone turn hmem hstreaming
    obtain ⟨i, hturn⟩ := List.getElem?_of_mem hmem
    have hlt : i < s.jobs.length := hinv.length_eq ▸ (List.getElem?_eq_some_iff.mp hturn).1
    have hjob := List.getElem?_eq_getElem hlt
    have hlive := hheld _ (hinv.streaming i turn _ hturn hjob hstreaming)
    rw [hdone _ (List.mem_of_getElem? hjob)] at hlive
    cases hlive

/-! ## Steps of jobs -/

theorem getElem?_modify_eq_some {α : Type*} {items : List α} {i k : ℕ} {update : α → α} {y : α}
    (hy : (items.modify i update)[k]? = some y) :
    ∃ x, items[k]? = some x ∧ ((k = i ∧ y = update x) ∨ (k ≠ i ∧ y = x)) := by
  rw [List.getElem?_modify, Option.map_eq_map, Option.map_eq_some_iff] at hy
  obtain ⟨x, hx, rfl⟩ := hy
  refine ⟨x, hx, ?_⟩
  by_cases hik : i = k
  · exact .inl ⟨hik.symm, by simp [hik]⟩
  · exact .inr ⟨fun h => hik h.symm, by simp [hik]⟩

theorem exists_active_modify_iff {jobs : List TurnJob} {i : ℕ} {job : TurnJob}
    (hjob : jobs[i]? = some job) (update : TurnJob → TurnJob)
    (hothers : ∀ (k : ℕ) (other : TurnJob), jobs[k]? = some other → other.active = true → k = i) :
    (∃ (k : ℕ) (other : TurnJob), (jobs.modify i update)[k]? = some other ∧ other.active = true) ↔
      (update job).active = true := by
  constructor
  · rintro ⟨k, other, hother, hactive⟩
    obtain ⟨old, hold, ⟨rfl, rfl⟩ | ⟨hne, rfl⟩⟩ := getElem?_modify_eq_some hother
    · rw [hjob] at hold
      cases hold
      exact hactive
    · exact absurd (hothers k other hold hactive) hne
  · intro hactive
    exact ⟨i, update job, by simp [hjob], hactive⟩

/-- A turn and its job after both have been written at one index. -/
theorem pair_modify {turns : List (ForemanTurn Span)} {jobs : List TurnJob} {i k : ℕ}
    {job other : TurnJob} {turn : ForemanTurn Span} {write : ForemanTurn Span → ForemanTurn Span}
    {update : TurnJob → TurnJob} (hjob : jobs[i]? = some job)
    (hturn : (turns.modify i write)[k]? = some turn)
    (hother : (jobs.modify i update)[k]? = some other) :
    (∃ old, turns[i]? = some old ∧ turn = write old ∧ other = update job) ∨
      (turns[k]? = some turn ∧ jobs[k]? = some other) := by
  obtain ⟨oldTurn, holdTurn, hturnCase⟩ := getElem?_modify_eq_some hturn
  obtain ⟨oldJob, holdJob, hjobCase⟩ := getElem?_modify_eq_some hother
  by_cases hki : k = i
  · subst hki
    rw [hjob] at holdJob
    cases holdJob
    left
    exact ⟨oldTurn, holdTurn, by simpa using hturnCase, by simpa using hjobCase⟩
  · right
    simp only [hki, false_and, false_or, ne_eq, not_false_eq_true, true_and] at hturnCase hjobCase
    rw [hturnCase, hjobCase]
    exact ⟨holdTurn, holdJob⟩

section Steps

variable {held : TurnJob → Bool} {s : Screen Span} {i : ℕ} {job : TurnJob}

/-- The active job writes the last turn, which is its own. -/
theorem Inv.writeOwn {next : Screen Span} (hinv : s.Inv held) (hjob : s.jobs[i]? = some job)
    (hactive : job.active = true) (write : ForemanTurn Span → ForemanTurn Span)
    (update : TurnJob → TurnJob)
    (hturns : next.turns = s.turns.modify (s.turns.length - 1) write)
    (hjobs : next.jobs = s.jobs.modify i update) (hsame : next.current = s.current)
    (hrunning : next.running = (update job).active)
    (hanswer : ∀ turn, turn.answer = job.answered →
      (write turn).answer = (update job).answered)
    (hstreaming : ∀ turn, (turn.outcome = .streaming → held job = true) →
      (write turn).outcome = .streaming → held (update job) = true) : next.Inv held := by
  obtain ⟨hlast, hcurrent⟩ := hinv.newest i job hjob hactive
  have hown : s.turns.length - 1 = i := by rw [hinv.length_eq, ← hlast, Nat.add_sub_cancel]
  rw [hown] at hturns
  constructor
  · rw [hturns, hjobs, List.length_modify, List.length_modify]
    exact hinv.length_eq
  · intro k turn other hturn hother
    rw [hturns] at hturn
    rw [hjobs] at hother
    obtain ⟨old, hold, rfl, rfl⟩ | ⟨hturn, hother⟩ := pair_modify hjob hturn hother
    · exact hanswer old (hinv.answers i old job hold hjob)
    · exact hinv.answers k turn other hturn hother
  · intro k other hother hother_active
    rw [hjobs] at hother
    rw [hjobs, List.length_modify, hsame]
    obtain ⟨oldJob, hold, ⟨rfl, rfl⟩ | ⟨hne, rfl⟩⟩ := getElem?_modify_eq_some hother
    · exact ⟨hlast, hcurrent⟩
    · exact hinv.newest k other hold hother_active
  · rw [hrunning, hjobs]
    refine (exists_active_modify_iff hjob update ?_).symm
    intro k other hother hother_active
    have hother_last := (hinv.newest k other hother hother_active).1
    omega
  · intro k turn other hturn hother
    rw [hturns] at hturn
    rw [hjobs] at hother
    obtain ⟨old, hold, rfl, rfl⟩ | ⟨hturn, hother⟩ := pair_modify hjob hturn hother
    · exact hstreaming old (hinv.streaming i old job hold hjob)
    · exact hinv.streaming k turn other hturn hother

/-- A job that is not active moves on and writes nothing. -/
theorem Inv.moveStale (hinv : s.Inv held) (hjob : s.jobs[i]? = some job)
    (hstale : job.active = false) {update : TurnJob → TurnJob}
    (hanswer : (update job).answered = job.answered) (hmoved : (update job).active = false)
    (hstreaming : ∀ turn, s.turns[i]? = some turn → turn.outcome = .streaming →
      held job = true → held (update job) = true) :
    Inv held (s.setJob i update) := by
  constructor
  · simpa [setJob] using hinv.length_eq
  · intro k turn other hturn hother
    obtain ⟨oldJob, hold, ⟨rfl, rfl⟩ | ⟨hne, rfl⟩⟩ := getElem?_modify_eq_some hother
    · rw [hjob] at hold
      cases hold
      rw [hanswer]
      exact hinv.answers k turn job hturn hjob
    · exact hinv.answers k turn other hturn hold
  · intro k other hother hactive
    obtain ⟨oldJob, hold, ⟨rfl, rfl⟩ | ⟨hne, rfl⟩⟩ := getElem?_modify_eq_some hother
    · rw [hjob] at hold
      cases hold
      rw [hmoved] at hactive
      cases hactive
    · simpa [setJob] using hinv.newest k other hold hactive
  · show s.running = true ↔ _
    rw [hinv.running_iff]
    constructor
    · rintro ⟨k, other, hother, hactive⟩
      have hne : i ≠ k := by
        rintro rfl
        rw [hjob] at hother
        cases hother
        rw [hstale] at hactive
        cases hactive
      exact ⟨k, other, by simp [setJob, hne, hother], hactive⟩
    · rintro ⟨k, other, hother, hactive⟩
      obtain ⟨oldJob, hold, ⟨rfl, rfl⟩ | ⟨hne, rfl⟩⟩ := getElem?_modify_eq_some hother
      · rw [hjob] at hold
        cases hold
        rw [hmoved] at hactive
        cases hactive
      · exact ⟨k, other, hold, hactive⟩
  · intro k turn other hturn hother houtcome
    obtain ⟨oldJob, hold, ⟨rfl, rfl⟩ | ⟨hne, rfl⟩⟩ := getElem?_modify_eq_some hother
    · rw [hjob] at hold
      cases hold
      exact hstreaming turn hturn houtcome (hinv.streaming k turn job hturn hjob houtcome)
    · exact hinv.streaming k turn other hturn hold houtcome

theorem Inv.receive (hinv : s.Inv held)
    (hheld : ∀ job : TurnJob, job.active = true → held job = true) (hjob : s.jobs[i]? = some job)
    (hactive : job.active = true) {fragment : AgentFragment} (hnext : job.next? = some fragment) :
    (s.receive i fragment).Inv held := by
  have hrunning : s.running = true := hinv.running_iff.mpr ⟨i, job, hjob, hactive⟩
  have huncancelled : job.cancelled = false := by
    simpa using (Bool.and_eq_true_iff.mp hactive).2
  have htaken := job.answered_take hnext
  cases fragment with
  | answer text =>
      have htakes : (job.take .collecting).active = true := by
        simp [TurnJob.active, TurnJob.live, TurnJob.take, huncancelled]
      refine hinv.writeOwn hjob hactive (ForemanTurn.append text)
        (fun job => job.take .collecting) rfl rfl rfl (hrunning.trans htakes.symm) ?_ ?_
      · intro turn hanswer
        rw [htaken, ← hanswer]
        rfl
      · intro turn _ _
        exact hheld _ htakes
  | status status =>
      have htakes : (job.take (.draining status)).active = true := by
        simp [TurnJob.active, TurnJob.live, TurnJob.take, huncancelled]
      refine hinv.writeOwn hjob hactive id (fun job => job.take (.draining status))
        (List.modify_id _ _).symm rfl rfl (hrunning.trans htakes.symm) ?_ ?_
      · intro turn hanswer
        rw [htaken, ← hanswer]
        simp [AgentFragment.text]
      · intro turn _ _
        exact hheld _ htakes

theorem Inv.applyStatus (hinv : s.Inv held) (hjob : s.jobs[i]? = some job)
    (hactive : job.active = true) (status : AgentTurnStatus) (spans : List Span) :
    (s.applyStatus i status spans).Inv held := by
  have hrunning : s.running = true := hinv.running_iff.mpr ⟨i, job, hjob, hactive⟩
  have hresumes : job.resume.active = true := by
    have huncancelled := (Bool.and_eq_true_iff.mp hactive).2
    simpa [TurnJob.active, TurnJob.live, TurnJob.resume] using huncancelled
  refine hinv.writeOwn hjob hactive (ForemanTurn.apply status spans) TurnJob.resume rfl rfl rfl
    (hrunning.trans hresumes.symm) ?_ ?_
  · intro turn hanswer
    exact hanswer
  · intro turn _ houtcome
    exact absurd houtcome (turn.apply_outcome status spans)

theorem Inv.complete (hinv : s.Inv held) (hjob : s.jobs[i]? = some job)
    (hactive : job.active = true) : (s.complete i).Inv held := by
  refine hinv.writeOwn hjob hactive ForemanTurn.resolve TurnJob.finish rfl rfl rfl
    job.active_finish.symm ?_ ?_
  · intro turn hanswer
    rw [turn.resolve_answer, job.answered_finish, hanswer]
  · intro turn _ houtcome
    exact absurd houtcome turn.resolve_outcome

theorem Inv.failTurn (hinv : s.Inv held) (hjob : s.jobs[i]? = some job)
    (hactive : job.active = true) (message : String) : (s.failTurn i message).Inv held := by
  refine hinv.writeOwn hjob hactive (fun turn => turn.fail.resolve) TurnJob.finish ?_ rfl rfl
    job.active_finish.symm ?_ ?_
  · simp only [Screen.failTurn, Screen.complete, updateLastTurn, setJob, List.length_modify,
      List.modify_modify_eq]
    rfl
  · intro turn hanswer
    rw [turn.fail.resolve_answer, turn.fail_answer, job.answered_finish, hanswer]
  · intro turn _ houtcome
    exact absurd houtcome turn.fail.resolve_outcome

theorem cancelCurrent_job {k : ℕ} {other : TurnJob}
    (hother : s.cancelCurrent.jobs[k]? = some other) :
    ∃ old, s.jobs[k]? = some old ∧
      (other = old.cancel ∨ (other = old ∧ s.current ≠ some k)) := by
  unfold cancelCurrent at hother
  split at hother
  · next hcurrent => exact ⟨other, hother, .inr ⟨rfl, by simp [hcurrent]⟩⟩
  · next i hcurrent =>
      obtain ⟨old, hold, ⟨rfl, rfl⟩ | ⟨hne, rfl⟩⟩ := getElem?_modify_eq_some hother
      · exact ⟨old, hold, .inl rfl⟩
      · refine ⟨other, hold, .inr ⟨rfl, ?_⟩⟩
        rw [hcurrent, ne_eq, Option.some.injEq]
        exact fun h => hne h.symm

theorem cancelCurrent_jobs_length : s.cancelCurrent.jobs.length = s.jobs.length := by
  unfold cancelCurrent
  split <;> simp [setJob]

theorem cancelCurrent_turns : s.cancelCurrent.turns = s.turns := by
  unfold cancelCurrent
  split <;> rfl

/-- The current job is cancelled and the last turn is written by the caller. -/
theorem Inv.stop {next : Screen Span} (hinv : s.Inv held)
    (write : ForemanTurn Span → ForemanTurn Span)
    (hturns : next.turns = s.turns.modify (s.turns.length - 1) write)
    (hjobs : next.jobs = s.cancelCurrent.jobs) (hrunning : next.running = false)
    (hanswer : ∀ turn, (write turn).answer = turn.answer)
    (hwrite : ∀ turn, (write turn).outcome = .streaming → turn.outcome = .streaming)
    (hkeep : ∀ (k : ℕ) (turn : ForemanTurn Span) (job : TurnJob), s.jobs[k]? = some job →
      held job = true → (k + 1 = s.turns.length → (write turn).outcome = .streaming) →
      held job.cancel = true) : next.Inv held := by
  have hinactive : ∀ (k : ℕ) (other : TurnJob), s.cancelCurrent.jobs[k]? = some other →
      other.active = false := by
    intro k other hother
    obtain ⟨old, hold, rfl | ⟨rfl, hcurrent⟩⟩ := cancelCurrent_job hother
    · exact old.active_cancel
    · rw [← Bool.not_eq_true]
      intro hactive
      exact hcurrent (hinv.newest k other hold hactive).2
  constructor
  · rw [hturns, hjobs, List.length_modify, cancelCurrent_jobs_length]
    exact hinv.length_eq
  · intro k turn other hturn hother
    rw [hturns] at hturn
    rw [hjobs] at hother
    obtain ⟨oldTurn, holdTurn, hturnCase⟩ := getElem?_modify_eq_some hturn
    obtain ⟨oldJob, holdJob, hjobCase⟩ := cancelCurrent_job hother
    have hold := hinv.answers k oldTurn oldJob holdTurn holdJob
    have hturnAnswer : turn.answer = oldTurn.answer := by
      rcases hturnCase with ⟨-, rfl⟩ | ⟨-, rfl⟩
      · exact hanswer oldTurn
      · rfl
    have hjobAnswer : other.answered = oldJob.answered := by
      rcases hjobCase with rfl | ⟨rfl, -⟩
      · exact oldJob.answered_cancel
      · rfl
    rw [hturnAnswer, hjobAnswer, hold]
  · intro k other hother hactive
    rw [hjobs] at hother
    rw [hinactive k other hother] at hactive
    cases hactive
  · rw [hjobs]
    refine iff_of_false (by simp [hrunning]) ?_
    rintro ⟨k, other, hother, hactive⟩
    rw [hinactive k other hother] at hactive
    cases hactive
  · intro k turn other hturn hother houtcome
    rw [hturns] at hturn
    rw [hjobs] at hother
    obtain ⟨oldTurn, holdTurn, hturnCase⟩ := getElem?_modify_eq_some hturn
    obtain ⟨oldJob, holdJob, hjobCase⟩ := cancelCurrent_job hother
    have hlt := (List.getElem?_eq_some_iff.mp holdTurn).1
    have hstreaming : oldTurn.outcome = .streaming := by
      rcases hturnCase with ⟨-, rfl⟩ | ⟨-, rfl⟩
      · exact hwrite oldTurn houtcome
      · exact houtcome
    have hheld := hinv.streaming k oldTurn oldJob holdTurn holdJob hstreaming
    have hlast : k + 1 = s.turns.length → (write oldTurn).outcome = .streaming := by
      intro hlast
      rcases hturnCase with ⟨-, rfl⟩ | ⟨hne, -⟩
      · exact houtcome
      · omega
    rcases hjobCase with rfl | ⟨rfl, -⟩
    · exact hkeep k oldTurn oldJob holdJob hheld hlast
    · exact hheld

theorem Inv.startTurn (hinv : s.Inv held) (hrunning : s.running = false)
    (query : String) (stream : List AgentFragment)
    (hheld : held { stream := stream } = true) : Inv held (s.startTurn query stream) := by
  have hinactive : ∀ (k : ℕ) (other : TurnJob), s.jobs[k]? = some other →
      other.active = false := by
    intro k other hother
    rw [← Bool.not_eq_true]
    intro hactive
    have htrue := hinv.running_iff.mpr ⟨k, other, hother, hactive⟩
    rw [hrunning] at htrue
    cases htrue
  have hpair : ∀ (k : ℕ) (turn : ForemanTurn Span) (other : TurnJob),
      (s.startTurn query stream).turns[k]? = some turn →
      (s.startTurn query stream).jobs[k]? = some other →
      (turn = { query := query } ∧ other = { stream := stream }) ∨
        (s.turns[k]? = some turn ∧ s.jobs[k]? = some other) := by
    intro k turn other hturn hother
    simp only [Screen.startTurn, List.getElem?_append, hinv.length_eq] at hturn hother
    split_ifs at hturn hother with hlt
    · exact .inr ⟨hturn, hother⟩
    · left
      rw [List.getElem?_singleton] at hturn hother
      split_ifs at hturn hother
      exact ⟨(Option.some.inj hturn).symm, (Option.some.inj hother).symm⟩
  constructor
  · simp [Screen.startTurn, hinv.length_eq]
  · intro k turn other hturn hother
    obtain ⟨rfl, rfl⟩ | ⟨hturn, hother⟩ := hpair k turn other hturn hother
    · rfl
    · exact hinv.answers k turn other hturn hother
  · intro k other hother hactive
    simp only [Screen.startTurn, List.getElem?_append] at hother
    split_ifs at hother with hlt
    · rw [hinactive k other hother] at hactive
      cases hactive
    · rw [List.getElem?_singleton] at hother
      split_ifs at hother with hzero
      have hk : k = s.jobs.length := by omega
      simp [Screen.startTurn, hk]
  · refine iff_of_true rfl ⟨s.jobs.length, { stream := stream }, ?_, rfl⟩
    simp [Screen.startTurn]
  · intro k turn other hturn hother houtcome
    obtain ⟨rfl, rfl⟩ | ⟨hturn, hother⟩ := hpair k turn other hturn hother
    · exact hheld
    · exact hinv.streaming k turn other hturn hother houtcome

end Steps

end Screen

end Agent

end NativeInterop
