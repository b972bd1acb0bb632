import NativeInterop.EngineTrace
import Mathlib.Tactic

/-!
# The Trace screen

`TraceViewModel.drain` empties the span ring off the main thread and then adds the drop
count of the payload to what the screen shows.  `AgentViewModel.applyStatus` empties the
same ring for its tool-call strip, and keeps nothing of the drop count.

A drain is two steps of the model, the read of the ring and the update of the screen, and
any other step may come in between.
-/

namespace NativeInterop

namespace TraceViewModel

variable {Us : Type}

structure UiState (Us : Type) where
  spans : List (TraceSpan Us) := []
  nowUs : Us
  capacity : ℕ := 512
  droppedThisDrain : ℕ := 0
  droppedTotal : ℕ := 0
  lastDrainCount : ℕ := 0
  loading : Bool := false
  error : Option String := none
  selectedRequestId : Option String := none
  deriving DecidableEq, Repr

/-- What comes back through the native call: the payload, `null` where the export failed after
the ring had been emptied, or a text that is not decoded. -/
inductive Delivery where
  | delivered
  | null
  | garbled (message : String)
  deriving DecidableEq, Repr

/-- A drain between its read and its update, with the engine's `_droppedTotal` at the read. -/
structure Read (Us : Type) where
  drain : TraceDrain Us
  delivery : Delivery
  droppedTotal : ℕ
  deriving DecidableEq, Repr

def Read.counted (read : Read Us) : ℕ :=
  match read.delivery with
  | .delivered => read.drain.dropped
  | _ => 0

/-- `waiting` counts the drains that have been launched and have not read; `reads` are those
that have, in the order of their reads. -/
structure State (Us : Type) where
  engine : EngineTrace.State Us
  screen : UiState Us
  waiting : ℕ := 0
  reads : List (Read Us) := []
  strip : List (TraceSpan Us) := []

inductive Action (Us : Type) where
  | engine (action : EngineTrace.Action Us)
  | drain
  | read (nowUs : Us) (delivery : Delivery)
  | complete (k : ℕ)
  | selectRequest (requestId : Option String)
  | applyStatus (toolSteps : ℤ) (nowUs : Us) (delivery : Delivery)
  deriving DecidableEq, Repr

def initial [Zero Us] : State Us where
  engine := EngineTrace.initial
  screen := { nowUs := 0 }

/-! ## The tool-call strip -/

section Strip

variable [LT Us] [DecidableLT Us]

def sortedByStart (spans : List (TraceSpan Us)) : List (TraceSpan Us) :=
  spans.mergeSort fun a b => ¬ b.startUs < a.startUs

/-- `maxByOrNull`, which keeps the first of equals. -/
def latestStart : List (TraceSpan Us) → Option (TraceSpan Us)
  | [] => none
  | span :: spans =>
      some (spans.foldl (fun best other => if best.startUs < other.startUs then other else best)
        span)

def toolSpanPrefix : String := "agent.tool."

/-- The drop count of the payload is not looked at. -/
def turnSpansFrom (drain : Option (TraceDrain Us)) (expectedToolSteps : ℤ) :
    List (TraceSpan Us) :=
  match drain with
  | none => []
  | some drain =>
      let toolSpans := (sortedByStart (drain.spans.filter fun span =>
        span.name.startsWith toolSpanPrefix)).rtake expectedToolSteps.toNat
      let turnSpan := latestStart (drain.spans.filter fun span => span.name = "agent.turn")
      sortedByStart (turnSpan.toList ++ toolSpans)

end Strip

/-! ## Steps -/

def isDrain : EngineTrace.Action Us → Bool
  | .drain _ => true
  | _ => false

/-- The rest of `drain` once the payload is there. -/
def update (screen : UiState Us) (read : Read Us) : UiState Us :=
  match read.delivery with
  | .null => { screen with loading := false, error := some "dni_trace_drain returned null" }
  | .garbled message => { screen with loading := false, error := some message }
  | .delivered =>
      { screen with
        spans := read.drain.spans
        nowUs := read.drain.nowUs
        capacity := read.drain.capacity
        droppedThisDrain := read.drain.dropped
        droppedTotal := screen.droppedTotal + read.drain.dropped
        lastDrainCount := read.drain.spans.length
        loading := false
        selectedRequestId := none }

def readOf (round : Us → Us) (s : State Us) (nowUs : Us) (delivery : Delivery) : Read Us where
  drain := EngineTrace.drainOf round s.engine nowUs
  delivery := delivery
  droppedTotal := s.engine.log.droppedTotal

def read (round : Us → Us) (s : State Us) (nowUs : Us) (delivery : Delivery) : State Us :=
  { s with
    engine := EngineTrace.drain round s.engine nowUs
    waiting := s.waiting - 1
    reads := s.reads ++ [readOf round s nowUs delivery] }

def complete (s : State Us) (k : ℕ) (done : Read Us) : State Us :=
  { s with
    screen := update s.screen done
    reads := s.reads.eraseIdx k }

/-- A read that fails gives `turnSpansFrom` nothing. -/
def applyStatus [LT Us] [DecidableLT Us] (round : Us → Us) (s : State Us) (toolSteps : ℤ)
    (nowUs : Us) (delivery : Delivery) : State Us :=
  { s with
    engine := EngineTrace.drain round s.engine nowUs
    strip := turnSpansFrom
      (if delivery = .delivered then some (EngineTrace.drainOf round s.engine nowUs) else none)
      toolSteps }

section Machine

variable [Zero Us] [Add Us] [Sub Us] [LT Us] [DecidableLT Us] [Top Us] [Bot Us]

def step (round : Us → Us) (s : State Us) : Action Us → Option (State Us)
  | .engine action =>
      if isDrain action then none
      else (EngineTrace.step round s.engine action).map fun engine => { s with engine := engine }
  | .drain =>
      some { s with
        screen := { s.screen with loading := true, error := none }
        waiting := s.waiting + 1 }
  | .read nowUs delivery => if 0 < s.waiting then some (read round s nowUs delivery) else none
  | .complete k => s.reads[k]?.map (complete s k)
  | .selectRequest requestId =>
      some { s with screen := { s.screen with selectedRequestId := requestId } }
  | .applyStatus toolSteps nowUs delivery => some (applyStatus round s toolSteps nowUs delivery)

def machine (round : Us → Us) : Machine (State Us) (Action Us) where
  step := step round

end Machine

/-- Right after a drain has completed, the screen shows as many dropped spans as the engine
had dropped when the drain read the ring. -/
def Discloses (s : State Us) (action : Action Us) : Prop :=
  ∀ k done, action = .complete k → s.reads[k]? = some done →
    (complete s k done).screen.droppedTotal = done.droppedTotal

/-- Nobody but the screen takes a drop count from the ring, no count is lost on its way, and
drains that carry one complete in the order of their reads. -/
def harmless (s : State Us) : Action Us → Bool
  | .read _ delivery => delivery = .delivered ∨ s.engine.log.droppedSinceDrain = 0
  | .applyStatus _ _ _ => s.engine.log.droppedSinceDrain = 0
  | .complete k => k = 0 ∨ (s.reads.take (k + 1)).all fun earlier => earlier.counted = 0
  | _ => true

/-! ## Accounts -/

/-- What has been shown, and what the reads on their way will add: each of them brings the
screen to the total of its own read, and together they make up `settled`. -/
def Accounts (settled shown : ℕ) : List (Read Us) → Prop
  | [] => shown = settled
  | first :: reads =>
      shown + first.counted = first.droppedTotal ∧
        Accounts settled (shown + first.counted) reads

theorem Accounts.append {settled shown total : ℕ} {reads : List (Read Us)} {last : Read Us}
    (haccounts : Accounts settled shown reads) (hlast : settled + last.counted = total)
    (htotal : last.droppedTotal = total) : Accounts total shown (reads ++ [last]) := by
  induction reads generalizing shown with
  | nil =>
      have hshown : shown = settled := haccounts
      exact ⟨by rw [hshown, hlast, htotal], by rw [hshown]; exact hlast⟩
  | cons first reads ih => exact ⟨haccounts.1, ih haccounts.2⟩

theorem all_take_succ {reads : List (Read Us)} {k : ℕ} {first : Read Us}
    (hzero : ((first :: reads).take (k + 1)).all (fun read => read.counted = 0) = true) :
    first.counted = 0 ∧ (reads.take k).all (fun read => read.counted = 0) = true := by
  rw [List.take_succ_cons, List.all_cons, Bool.and_eq_true] at hzero
  exact ⟨of_decide_eq_true hzero.1, hzero.2⟩

/-- A read that is completed out of order, where it and the ones before it carry nothing. -/
theorem Accounts.eraseIdx {settled shown k : ℕ} {reads : List (Read Us)} {done : Read Us}
    (haccounts : Accounts settled shown reads) (hdone : reads[k]? = some done)
    (hzero : (reads.take (k + 1)).all (fun read => read.counted = 0) = true) :
    shown = done.droppedTotal ∧ Accounts settled shown (reads.eraseIdx k) := by
  induction reads generalizing shown k with
  | nil => cases hdone
  | cons first reads ih =>
      obtain ⟨hfirst, hrest⟩ := all_take_succ hzero
      obtain ⟨htotal, htail⟩ := haccounts
      rw [hfirst, Nat.add_zero] at htotal htail
      cases k with
      | zero =>
          cases hdone
          exact ⟨htotal, htail⟩
      | succ k =>
          obtain ⟨hshown, herased⟩ := ih htail hdone hrest
          refine ⟨hshown, ?_⟩
          rw [List.eraseIdx_cons_succ]
          exact ⟨by rw [hfirst, Nat.add_zero]; exact htotal,
            by rw [hfirst, Nat.add_zero]; exact herased⟩

theorem update_droppedTotal (screen : UiState Us) (read : Read Us) :
    (update screen read).droppedTotal = screen.droppedTotal + read.counted := by
  obtain ⟨drain, delivery, droppedTotal⟩ := read
  cases delivery <;> rfl

/-- A harmless completion brings the screen to the total of its read and keeps the accounts. -/
theorem Accounts.complete {s : State Us} {settled k : ℕ} {done : Read Us}
    (haccounts : Accounts settled s.screen.droppedTotal s.reads)
    (hdone : s.reads[k]? = some done) (hharmless : harmless s (.complete k) = true) :
    (update s.screen done).droppedTotal = done.droppedTotal ∧
      Accounts settled (update s.screen done).droppedTotal (s.reads.eraseIdx k) := by
  rw [update_droppedTotal]
  simp only [harmless, decide_eq_true_eq] at hharmless
  rcases hharmless with rfl | hzero
  · cases hreads : s.reads with
    | nil =>
        rw [hreads] at hdone
        cases hdone
    | cons first reads =>
        rw [hreads] at hdone haccounts
        cases hdone
        exact haccounts
  · obtain ⟨hshown, herased⟩ := haccounts.eraseIdx hdone hzero
    have hnone : done.counted = 0 := by
      rw [List.all_eq_true] at hzero
      refine of_decide_eq_true (hzero done ?_)
      apply List.mem_of_getElem? (i := k)
      rw [List.getElem?_take_of_lt (Nat.lt_succ_self k)]
      exact hdone
    rw [hnone, Nat.add_zero]
    exact ⟨hshown, herased⟩

/-! ## Runs -/

/-- Everything the engine has dropped is shown, on its way to the screen, or still in the
ring. -/
def Inv (s : State Us) : Prop :=
  ∃ settled, Accounts settled s.screen.droppedTotal s.reads ∧
    settled + s.engine.log.droppedSinceDrain = s.engine.log.droppedTotal

theorem Inv.read {round : Us → Us} {s : State Us} (hinv : Inv s) {nowUs : Us}
    {delivery : Delivery} (hharmless : harmless s (.read nowUs delivery) = true) :
    Inv (TraceViewModel.read round s nowUs delivery) := by
  obtain ⟨settled, haccounts, htotal⟩ := hinv
  have hcounted : settled + (readOf round s nowUs delivery).counted =
      s.engine.log.droppedTotal := by
    simp only [harmless, decide_eq_true_eq] at hharmless
    rcases hharmless with rfl | hnone
    · exact htotal
    · rw [hnone, Nat.add_zero] at htotal
      cases delivery with
      | delivered =>
          have hdropped : (readOf round s nowUs .delivered).counted =
              s.engine.log.droppedSinceDrain := rfl
          rw [hdropped, hnone, Nat.add_zero, htotal]
      | null => exact htotal
      | garbled message => exact htotal
  exact ⟨s.engine.log.droppedTotal, haccounts.append hcounted rfl, rfl⟩

theorem Inv.complete {s : State Us} (hinv : Inv s) {k : ℕ} {done : Read Us}
    (hdone : s.reads[k]? = some done) (hharmless : harmless s (.complete k) = true) :
    Inv (TraceViewModel.complete s k done) := by
  obtain ⟨settled, haccounts, htotal⟩ := hinv
  exact ⟨settled, (haccounts.complete hdone hharmless).2, htotal⟩

section Runs

variable [Zero Us] [Add Us] [Sub Us] [LT Us] [DecidableLT Us] [Top Us] [Bot Us]

/-- A step of the engine other than a drain drops nothing, or one span that the ring counts. -/
theorem engine_step_dropped {round : Us → Us} {s next : EngineTrace.State Us}
    {action : EngineTrace.Action Us} (hdrain : isDrain action = false)
    (hstep : EngineTrace.step round s action = some next) :
    ∃ n, next.log.droppedSinceDrain = s.log.droppedSinceDrain + n ∧
      next.log.droppedTotal = s.log.droppedTotal + n := by
  cases action with
  | commit i =>
      obtain ⟨call, -, rfl⟩ := Option.map_eq_some_iff.mp hstep
      exact ⟨s.log.ring.isFull.toNat, rfl, rfl⟩
  | drain nowUs => cases hdrain
  | addRecorded i =>
      obtain ⟨call, -, rfl⟩ := Option.map_eq_some_iff.mp hstep
      exact ⟨0, rfl, rfl⟩
  | recordDuration i =>
      obtain ⟨call, -, rfl⟩ := Option.map_eq_some_iff.mp hstep
      exact ⟨0, rfl, rfl⟩
  | enter activity nowUs =>
      cases hstep
      exact ⟨0, rfl, rfl⟩
  | recordRequest transport =>
      cases hstep
      exact ⟨0, rfl, rfl⟩
  | recordAgentTurn =>
      cases hstep
      exact ⟨0, rfl, rfl⟩
  | recordAgentToolCall tool =>
      cases hstep
      exact ⟨0, rfl, rfl⟩

theorem inv_step {round : Us → Us} {s next : State Us} {action : Action Us} (hinv : Inv s)
    (hharmless : harmless s action = true) (hstep : (machine round).step s action = some next) :
    Inv next := by
  cases action with
  | engine action =>
      simp only [machine, step] at hstep
      split_ifs at hstep with hdrain
      obtain ⟨engine, hengine, rfl⟩ := Option.map_eq_some_iff.mp hstep
      obtain ⟨n, hsince, hdropped⟩ :=
        engine_step_dropped (Bool.eq_false_iff.mpr hdrain) hengine
      obtain ⟨settled, haccounts, htotal⟩ := hinv
      refine ⟨settled, haccounts, ?_⟩
      rw [hsince, hdropped, ← Nat.add_assoc, htotal]
  | drain =>
      cases hstep
      exact hinv
  | read nowUs delivery =>
      simp only [machine, step] at hstep
      split_ifs at hstep
      cases hstep
      exact hinv.read hharmless
  | complete k =>
      obtain ⟨done, hdone, rfl⟩ := Option.map_eq_some_iff.mp hstep
      exact hinv.complete hdone hharmless
  | selectRequest requestId =>
      cases hstep
      exact hinv
  | applyStatus toolSteps nowUs delivery =>
      cases hstep
      obtain ⟨settled, haccounts, htotal⟩ := hinv
      have hnone : s.engine.log.droppedSinceDrain = 0 := of_decide_eq_true hharmless
      rw [hnone] at htotal
      exact ⟨settled, haccounts, htotal⟩

/-- Where no other reader takes a drop count and none is lost or overtaken, every drain of
the Trace screen discloses everything that the engine had dropped. -/
theorem drains_disclose_of_harmless (round : Us → Us) {actions : List (Action Us)}
    (hharmless : (machine round).RunMeets (fun s action => harmless s action = true) initial
      actions) :
    (machine round).RunMeets Discloses initial actions := by
  have hpreserve : ∀ (s : State Us) (action : Action Us) (next : State Us), Inv s →
      harmless s action = true → (machine round).step s action = some next → Inv next :=
    fun _ _ _ hinv hharmless hstep => inv_step hinv hharmless hstep
  refine (machine round).runMeets_imp hpreserve ?_ ⟨0, rfl, rfl⟩ hharmless
  intro s action hinv hstep k done haction hdone
  subst haction
  obtain ⟨settled, haccounts, -⟩ := hinv
  exact (haccounts.complete hdone hstep).1

end Runs

/-! ## A reader that does not tell -/

/-- One span, from the end of its activity to the ring. -/
def recordSpan (i : ℕ) : List (Action (Fin 1000)) :=
  [.engine (.enter EngineTrace.featureRun EngineTrace.featureEnd), .engine (.addRecorded i),
    .engine (.recordDuration i), .engine (.commit i)]

def recordSpans (n : ℕ) : List (Action (Fin 1000)) :=
  (List.range n).flatMap recordSpan

/-- The Trace screen drains the ring, and nothing has been dropped. -/
def quietDrain : List (Action (Fin 1000)) :=
  recordSpans 2 ++
    [.applyStatus 1 EngineTrace.featureEnd .delivered, .drain, .drain,
      .read EngineTrace.featureEnd .delivered] ++
    recordSpan 2 ++ [.read EngineTrace.featureEnd .delivered, .complete 1, .complete 0]

theorem drains_disclose_quiet :
    (machine id).RunMeets Discloses initial quietDrain ∧
      ((machine id).run initial quietDrain).map (fun t => t.screen.droppedTotal) = some 0 :=
  ⟨drains_disclose_of_harmless id ((machine id).runMeets_of_check (by decide)), by decide⟩

def recordedSpan : TraceSpan (Fin 1000) :=
  EngineTrace.spanOf id EngineTrace.featureRun EngineTrace.featureEnd

theorem run_recordSpan (s : State (Fin 1000)) :
    ∃ next, (machine id).run s (recordSpan s.engine.calls.length) = some next ∧
      next.engine.calls.length = s.engine.calls.length + 1 ∧
      next.engine.log = s.engine.log.record recordedSpan ∧ next.screen = s.screen ∧
      next.reads = s.reads := by
  simp [recordSpan, recordedSpan, Machine.run_cons, machine, step, isDrain, EngineTrace.step,
    EngineTrace.callAt, EngineTrace.addRecorded, EngineTrace.recordDuration, EngineTrace.commit,
    EngineTrace.setPhase, Option.filter_some, Function.comp_def]

theorem run_recordSpans (n : ℕ) :
    ∃ t, (machine id).run initial (recordSpans n) = some t ∧ t.engine.calls.length = n ∧
      DrainRing.Refines EngineTrace.capacity (List.replicate n (.record recordedSpan)) []
        t.engine.log ∧ t.screen.droppedTotal = 0 ∧ t.reads = [] := by
  induction n with
  | zero => exact ⟨_, rfl, rfl, DrainRing.refines_create EngineTrace.capacity (by decide), rfl, rfl⟩
  | succ n ih =>
      obtain ⟨s, hrun, hcalls, hrefines, hscreen, hreads⟩ := ih
      obtain ⟨t, hnext, hlength, hlog, hsame, hkept⟩ := run_recordSpan s
      rw [hcalls] at hnext hlength
      have hsplit : recordSpans (n + 1) = recordSpans n ++ recordSpan n := by
        simp [recordSpans, List.range_succ]
      refine ⟨t, ?_, hlength, ?_, by rw [hsame, hscreen], by rw [hkept, hreads]⟩
      · rw [hsplit, (machine id).run_append_of_run hrun, hnext]
      · rw [List.replicate_succ', hlog]
        exact hrefines.record recordedSpan

theorem sinceDrain_replicate {α : Type} (n : ℕ) (item : α) :
    (DrainRing.sinceDrain (List.replicate n (.record item : DrainRing.Op α))).length = n := by
  induction n with
  | zero => rfl
  | succ n ih =>
      rw [List.replicate_succ', DrainRing.sinceDrain_record, List.length_append, ih]
      rfl

/-- The agent's status arrives, and then the Trace screen drains. -/
def statusThenDrain : List (Action (Fin 1000)) :=
  [.applyStatus 0 EngineTrace.featureEnd .delivered, .drain,
    .read EngineTrace.featureEnd .delivered, .complete 0]

/-- The status takes the drop count, so the drain of the screen finds none. -/
theorem not_disclosed_statusThenDrain {s : State (Fin 1000)} (hreads : s.reads = [])
    (hdropped : s.engine.log.droppedTotal ≠ s.screen.droppedTotal) :
    ¬ (machine id).RunMeets Discloses s statusThenDrain := by
  intro hmeets
  have hdrain := hmeets.2 _ rfl
  have hread := hdrain.2 _ rfl
  have hcomplete := hread.2 _ rfl
  obtain ⟨engine, screen, waiting, reads, strip⟩ := s
  subst hreads
  exact hdropped (hcomplete.1 0 _ rfl rfl).symm

def agentFirst (n : ℕ) : List (Action (Fin 1000)) := recordSpans n ++ statusThenDrain

theorem not_disclosed_of_overflow {n : ℕ} (hoverflow : EngineTrace.capacity < n) :
    ¬ (machine id).RunMeets Discloses initial (agentFirst n) := by
  intro hmeets
  obtain ⟨t, hrun, -, hrefines, hscreen, hreads⟩ := run_recordSpans n
  refine not_disclosed_statusThenDrain hreads ?_ ((machine id).runMeets_of_append hrun hmeets)
  rw [hrefines.droppedTotal, hrefines.droppedSinceDrain, sinceDrain_replicate, hscreen]
  simp only [List.map_nil, List.sum_nil]
  omega

/-- The ring overflows by one span. -/
theorem not_disclosed_agentFirst :
    ¬ (machine id).RunMeets Discloses initial (agentFirst 513) :=
  not_disclosed_of_overflow (by decide)

end TraceViewModel

end NativeInterop
