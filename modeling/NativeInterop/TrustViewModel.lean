import NativeInterop.KotlinPbTransport
import Mathlib.Tactic

/-!
# The Trust inspector on Android

The inspector shows the posture the engine reports, and a switch for the PQ channel of the
binary transport.  The job behind the switch changes the mode of the transport, sends one
request so that a handshake completes, puts the switch back if that fails, and reads the posture
again.  Meanwhile other screens use the transport, older readings are still on their way to the
main thread, and the view model may be cleared and made anew.
-/

namespace NativeInterop

namespace TrustViewModel

open KotlinPbTransport (Call Answer Pc)

/-- What a call of `setPqEnabled` has been asked for, and what the switch read before. -/
structure Toggle where
  enabled : Bool
  previous : Bool
  deriving DecidableEq, Repr

/-- Where a job of the view model is suspended.  A failure comes with the message of its
exception, if it has one. -/
inductive Job where
  | switching (toggle : Toggle)
  | pinging (toggle : Toggle)
  | pinged (toggle : Toggle) (failure : Option (Option String))
  | reading
  | applying (answer : Except (Option String) (Option ℕ))
  | done
  deriving DecidableEq

/-- What the screen shows.  Of a posture report only the channel counts: with one the binary
transport reads encrypted, without one it reads plaintext. -/
structure UiState where
  report : Option (Option ℕ) := none
  loading : Bool := false
  negotiating : Bool := false
  pqRequested : Bool := false
  error : Option String := none
  deriving DecidableEq, Repr

/-- `caller` is the job whose call has the mutex of the transport. -/
structure State where
  ui : UiState
  jobs : List Job
  transport : KotlinPbTransport.State
  caller : Option ℕ
  deriving DecidableEq

/-- A new view model refreshes. -/
def State.initial : State := ⟨{ loading := true }, [.reading], .initial, none⟩

def negotiationFailed (message : Option String) : String :=
  "PQ negotiation failed: " ++ message.getD "null"

def postureFailed (message : Option String) : String := message.getD "trust~posture failed"

/-! ## Jobs -/

/-- The call a job waits for or has under way. -/
def Job.call : Job → Option Call
  | .switching toggle => some (.setSecure toggle.enabled)
  | .pinging _ => some .withConnection
  | _ => none

def Job.after (job : Job) (ok : Bool) (message : Option String) : Job :=
  match job with
  | .switching toggle => if ok then .pinging toggle else .pinged toggle (some message)
  | .pinging toggle => .pinged toggle (if ok then none else some message)
  | job => job

/-- The switch goes back to where it was if the negotiation has failed. -/
def UiState.negotiated (ui : UiState) (toggle : Toggle) (failure : Option (Option String)) :
    UiState :=
  match failure with
  | none => { ui with negotiating := false }
  | some message =>
      { ui with
        error := some (negotiationFailed message)
        pqRequested := toggle.previous
        negotiating := false }

def UiState.applyPosture (ui : UiState) : Except (Option String) (Option ℕ) → UiState
  | .ok report => { ui with report := some report, loading := false }
  | .error message => { ui with loading := false, error := some (postureFailed message) }

inductive Action where
  | toggle (enabled : Bool)
  | refresh
  | clear
  | enter (job : ℕ)
  | enterOther (call : Call)
  | advance (answer : Answer) (message : Option String)
  | cancelOther
  | publish (connection : ℕ)
  | resume (job : ℕ)
  | read (job : ℕ) (failure : Option (Option String))
  | applyPosture (job : ℕ)
  deriving DecidableEq

def State.setJob (s : State) (i : ℕ) (job : Job) : State := { s with jobs := s.jobs.set i job }

/-- A call has moved on; if it has ended, the job that waits for it goes on. -/
def State.advanced (s : State) (next : KotlinPbTransport.State) (ended : Option Bool)
    (message : Option String) : State :=
  match ended, s.caller with
  | some ok, some i =>
      { s with
        transport := next
        caller := none
        jobs := s.jobs.modify i fun job => job.after ok message }
  | _, _ => { s with transport := next }

/-- The switch is disabled while it negotiates, and nothing else calls `setSecure`. -/
def step (s : State) : Action → Option State
  | .toggle enabled =>
      if s.ui.negotiating then none
      else some { s with
        ui := { s.ui with negotiating := true, pqRequested := enabled, error := none }
        jobs := s.jobs ++ [.switching ⟨enabled, s.ui.pqRequested⟩] }
  | .refresh =>
      some { s with
        ui := { s.ui with loading := true, error := none }
        jobs := s.jobs ++ [.reading] }
  | .clear =>
      let transport :=
        match s.caller with
        | none => s.transport
        | some _ => { s.transport with
            holder := s.transport.holder.map fun holder => { holder with cancelled := true } }
      some ⟨{ loading := true }, [.reading], transport, none⟩
  | .enter i =>
      match s.jobs[i]?.bind Job.call with
      | none => none
      | some call =>
          (KotlinPbTransport.step s.transport (.enter call)).map fun next =>
            { s with transport := next.1, caller := some i }
  | .enterOther call =>
      if (KotlinPbTransport.Action.enter call).switches then none
      else (KotlinPbTransport.step s.transport (.enter call)).map fun next =>
        { s with transport := next.1 }
  | .advance answer message =>
      (KotlinPbTransport.step s.transport (.advance answer)).map fun next =>
        s.advanced next.1 next.2 message
  | .cancelOther =>
      match s.caller with
      | some _ => none
      | none => (KotlinPbTransport.step s.transport .cancel).map fun next =>
          { s with transport := next.1 }
  | .publish connection =>
      (KotlinPbTransport.step s.transport (.publish connection)).map fun next =>
        { s with transport := next.1 }
  | .resume i =>
      match s.jobs[i]? with
      | some (.pinged toggle failure) =>
          some { s.setJob i .reading with ui := s.ui.negotiated toggle failure }
      | _ => none
  | .read i failure =>
      match s.jobs[i]? with
      | some .reading =>
          some (s.setJob i (.applying (match failure with
            | none => .ok s.transport.transport.posture
            | some message => .error message)))
      | _ => none
  | .applyPosture i =>
      match s.jobs[i]? with
      | some (.applying answer) => some { s.setJob i .done with ui := s.ui.applyPosture answer }
      | _ => none

def machine : Machine State Action where
  step := step

/-! ## Who relies on the channel -/

/-- The toggle of a job that still negotiates. -/
def Job.toggle? : Job → Option Toggle
  | .switching toggle => some toggle
  | .pinging toggle => some toggle
  | .pinged toggle _ => some toggle
  | _ => none

/-- The toggle of a job that has changed the mode. -/
def Job.switched : Job → Option Toggle
  | .pinging toggle => some toggle
  | .pinged toggle _ => some toggle
  | _ => none

/-- However the job goes on, the switch may end up on without another handshake. -/
def Job.relies : Job → Bool
  | .switching toggle => toggle.enabled && toggle.previous
  | .pinging toggle => toggle.enabled && toggle.previous
  | .pinged toggle none => toggle.enabled
  | .pinged toggle (some _) => toggle.enabled && toggle.previous
  | _ => false

theorem Job.toggle?_of_switched {job : Job} {toggle : Toggle}
    (hswitched : job.switched = some toggle) : job.toggle? = some toggle := by
  cases job <;> first | exact hswitched | cases hswitched

theorem Job.toggle?_of_relies {job : Job} (hrelies : job.relies = true) :
    ∃ toggle, job.toggle? = some toggle ∧ toggle.enabled = true := by
  unfold Job.relies at hrelies
  split at hrelies
  · exact ⟨_, rfl, (Bool.and_eq_true_iff.mp hrelies).1⟩
  · exact ⟨_, rfl, (Bool.and_eq_true_iff.mp hrelies).1⟩
  · exact ⟨_, rfl, hrelies⟩
  · exact ⟨_, rfl, (Bool.and_eq_true_iff.mp hrelies).1⟩
  · cases hrelies

def State.posture (s : State) : Option ℕ := s.transport.transport.posture

def State.secureMode (s : State) : Bool := s.transport.transport.secureMode

/-- No one shows, or is about to show, a switch that is on. -/
structure State.Unrelied (s : State) : Prop where
  idle : s.ui.negotiating = false → s.ui.pqRequested = false
  jobs : ∀ job ∈ s.jobs, job.relies = false

structure Invariant (s : State) : Prop where
  transport : s.transport.Invariant
  toggling : ∀ job ∈ s.jobs, ∀ toggle, job.toggle? = some toggle →
    s.ui.negotiating = true ∧ s.ui.pqRequested = toggle.enabled
  alone : ∀ (i j : ℕ) (job other : Job), s.jobs[i]? = some job → s.jobs[j]? = some other →
    job.toggle? ≠ none → other.toggle? ≠ none → i = j
  caller : ∀ i, s.caller = some i → ∃ job holder, s.jobs[i]? = some job ∧
    s.transport.holder = some holder ∧ job.call = some holder.pc.call ∧ holder.cancelled = false
  -- A switch no job waits for has been cancelled with the view model that asked for it.
  orphan : s.caller = none → ∀ holder value, s.transport.holder = some holder →
    holder.pc.call = .setSecure value → holder.cancelled = true ∧
      (s.ui.negotiating = false → s.ui.pqRequested = false) ∧
      ∀ job ∈ s.jobs, ∀ toggle, job.toggle? = some toggle →
        job = .switching toggle ∧ toggle.previous = false
  mode : ∀ job ∈ s.jobs, ∀ toggle, job.switched = some toggle → s.secureMode = toggle.enabled
  idle : s.ui.negotiating = false → s.ui.pqRequested = true → s.posture ≠ none
  relied : ∀ job ∈ s.jobs, job.relies = true → s.posture ≠ none

theorem invariant_initial : Invariant State.initial where
  transport := KotlinPbTransport.invariant_initial
  toggling := by
    intro job hmem
    rw [List.mem_singleton.mp hmem]
    exact nofun
  alone := by
    intro i j job other hjob _ htoggle
    rw [List.mem_singleton.mp (List.mem_of_getElem? hjob)] at htoggle
    exact absurd rfl htoggle
  caller := nofun
  orphan := nofun
  mode := by
    intro job hmem
    rw [List.mem_singleton.mp hmem]
    exact nofun
  idle := nofun
  relied := by
    intro job hmem
    rw [List.mem_singleton.mp hmem]
    exact nofun

/-- A switch that changes the mode has no one rely on the channel. -/
theorem Invariant.unrelied {s : State} (hinv : Invariant s) {holder : KotlinPbTransport.Holder}
    {value : Bool} (hheld : s.transport.holder = some holder)
    (hcall : holder.pc.call = .setSecure value) (hvalue : value ≠ s.secureMode) :
    s.Unrelied := by
  cases hcaller : s.caller with
  | none =>
      obtain ⟨-, hidle, hjobs⟩ := hinv.orphan hcaller holder value hheld hcall
      refine ⟨hidle, fun job hmem => ?_⟩
      rw [← Bool.not_eq_true]
      intro hrelies
      obtain ⟨toggle, htoggle, -⟩ := Job.toggle?_of_relies hrelies
      obtain ⟨rfl, hprevious⟩ := hjobs job hmem toggle htoggle
      rw [Job.relies, hprevious, Bool.and_false] at hrelies
      cases hrelies
  | some i =>
      obtain ⟨job, found, hjob, hfound, hwaits, -⟩ := hinv.caller i hcaller
      rw [hheld] at hfound
      cases hfound
      rw [hcall] at hwaits
      cases job with
      | switching toggle =>
          have henabled : toggle.enabled = value := Call.setSecure.inj (Option.some.inj hwaits)
          have hnegotiating := (hinv.toggling _ (List.mem_of_getElem? hjob) _ rfl).1
          refine ⟨fun hidle => absurd (hidle.symm.trans hnegotiating) nofun, ?_⟩
          intro other hmem
          rw [← Bool.not_eq_true]
          intro hrelies
          obtain ⟨found, htoggle, hfound⟩ := Job.toggle?_of_relies hrelies
          obtain ⟨j, hother⟩ := List.getElem?_of_mem hmem
          have hsame : i = j := hinv.alone i j _ other hjob hother (by simp [Job.toggle?])
            (by simp [htoggle])
          subst hsame
          rw [hjob] at hother
          cases hother
          cases htoggle
          have hsecure := hinv.transport.consistent.secure_of_posture (hinv.relied _ hmem hrelies)
          exact hvalue (henabled.symm.trans (hfound.trans hsecure.symm))
      | pinging toggle => cases hwaits
      | pinged | reading | applying | done => cases hwaits

/-! ## Steps of the transport -/

/-- What the jobs and the screen are promised survives a step that leaves them alone. -/
theorem Invariant.ofTransport {s : State} (hinv : Invariant s)
    {next : KotlinPbTransport.State} (htransport : next.Invariant)
    (hmode : next.transport.secureMode = s.secureMode)
    (hposture : s.Unrelied ∨ (s.posture ≠ none → next.transport.posture ≠ none))
    (hcaller : ∀ i, s.caller = some i → ∃ job holder, s.jobs[i]? = some job ∧
      next.holder = some holder ∧ job.call = some holder.pc.call ∧ holder.cancelled = false)
    (horphan : s.caller = none → ∀ holder value, next.holder = some holder →
      holder.pc.call = .setSecure value → ∃ old, s.transport.holder = some old ∧
        old.pc.call = .setSecure value ∧ (old.cancelled = true → holder.cancelled = true)) :
    Invariant { s with transport := next } where
  transport := htransport
  toggling := hinv.toggling
  alone := hinv.alone
  caller := hcaller
  orphan := by
    intro hnone holder value hheld hcall
    obtain ⟨old, hold, holdcall, hkept⟩ := horphan hnone holder value hheld hcall
    obtain ⟨hcancelled, hrest⟩ := hinv.orphan hnone old value hold holdcall
    exact ⟨hkept hcancelled, hrest⟩
  mode := fun job hmem toggle hswitched =>
    hmode.trans (hinv.mode job hmem toggle hswitched)
  idle := by
    intro hidle hon
    rcases hposture with hunrelied | hkept
    · exact absurd (hon.symm.trans (hunrelied.idle hidle)) nofun
    · exact hkept (hinv.idle hidle hon)
  relied := by
    intro job hmem hrelies
    rcases hposture with hunrelied | hkept
    · exact absurd (hrelies.symm.trans (hunrelied.jobs job hmem)) nofun
    · exact hkept (hinv.relied job hmem hrelies)

theorem Invariant.publish {s : State} (hinv : Invariant s) {i : ℕ}
    {result : KotlinPbTransport.State × Option Bool}
    (hstep : KotlinPbTransport.step s.transport (.publish i) = some result) :
    Invariant { s with transport := result.1 } := by
  have htransport := hinv.transport.afterStep hstep
  obtain ⟨next, hnext, rfl⟩ := KotlinPbTransport.step_publish_eq_some hstep
  obtain ⟨c, server, -, -, -, -, -, rfl⟩ :=
    KotlinPbTransport.Transport.publish_eq_some hnext
  refine hinv.ofTransport htransport rfl (.inr fun _ => nofun) hinv.caller ?_
  exact fun _ holder value hheld hcall => ⟨holder, hheld, hcall, id⟩

theorem Invariant.caller_eq_none {s : State} (hinv : Invariant s)
    (hfree : s.transport.holder = none) : s.caller = none := by
  cases hcaller : s.caller with
  | none => rfl
  | some i =>
      obtain ⟨job, holder, -, hheld, -⟩ := hinv.caller i hcaller
      rw [hfree] at hheld
      cases hheld

theorem Invariant.enterOther {s : State} (hinv : Invariant s) {call : Call}
    (hcall : (KotlinPbTransport.Action.enter call).switches = false)
    {result : KotlinPbTransport.State × Option Bool}
    (hstep : KotlinPbTransport.step s.transport (.enter call) = some result) :
    Invariant { s with transport := result.1 } := by
  have htransport := hinv.transport.afterStep hstep
  obtain ⟨hfree, rfl⟩ := KotlinPbTransport.step_enter_eq_some hstep
  refine hinv.ofTransport htransport rfl (.inr id) ?_ ?_
  · intro i hcaller
    rw [hinv.caller_eq_none hfree] at hcaller
    cases hcaller
  · rintro - holder value ⟨⟩ hswitch
    rw [KotlinPbTransport.Call.call_entry] at hswitch
    subst hswitch
    cases hcall

theorem Invariant.cancelOther {s : State} (hinv : Invariant s) (hnone : s.caller = none)
    {result : KotlinPbTransport.State × Option Bool}
    (hstep : KotlinPbTransport.step s.transport .cancel = some result) :
    Invariant { s with transport := result.1 } := by
  have htransport := hinv.transport.afterStep hstep
  obtain ⟨holder, hheld, rfl⟩ := KotlinPbTransport.step_cancel_eq_some hstep
  refine hinv.ofTransport htransport rfl (.inr id) ?_ ?_
  · intro i hcaller
    rw [hnone] at hcaller
    cases hcaller
  · rintro - cancelled value ⟨⟩ hcall
    exact ⟨holder, hheld, hcall, fun _ => rfl⟩

/-- A step of a call takes the channel away only where no one relies on it. -/
theorem Invariant.advance_posture {s : State} (hinv : Invariant s)
    {holder : KotlinPbTransport.Holder} (hheld : s.transport.holder = some holder)
    {next : KotlinPbTransport.Transport} {progress : KotlinPbTransport.Progress}
    (hframe : KotlinPbTransport.Frame holder.pc s.transport.transport next progress) :
    s.Unrelied ∨ (s.posture ≠ none → next.posture ≠ none) := by
  by_cases hstop : ∃ value, holder.pc = .stopping value
  · obtain ⟨value, hpc⟩ := hstop
    have hholds := hinv.transport.holds holder hheld
    rw [hpc] at hholds
    exact .inl (hinv.unrelied hheld (by rw [hpc]; rfl) hholds.1)
  · have hsame := hframe.posture fun value hpc => hstop ⟨value, hpc⟩
    exact .inr fun hposture => by rwa [hsame]

/-- A call moves on, or one that no job waits for ends. -/
theorem Invariant.advanceQuiet {s : State} (hinv : Invariant s) {answer : Answer}
    {result : KotlinPbTransport.State × Option Bool}
    (hstep : KotlinPbTransport.step s.transport (.advance answer) = some result)
    (hquiet : result.2 = none ∨ s.caller = none) :
    Invariant { s with transport := result.1 } := by
  have htransport := hinv.transport.afterStep hstep
  obtain ⟨holder, next, hheld, ⟨pc, hnext, rfl⟩ | ⟨ok, hnext, rfl⟩⟩ :=
    KotlinPbTransport.step_advance_eq_some hstep
  · have hframe := KotlinPbTransport.Transport.advance_frame hnext
    have hcall := hframe.call pc rfl
    refine hinv.ofTransport htransport ?_ (hinv.advance_posture hheld hframe) ?_ ?_
    · apply hframe.secureMode
      intro value hpc
      -- The record of the mode is the last step of a switch.
      rw [hpc] at hnext
      simp only [KotlinPbTransport.Transport.advance, KotlinPbTransport.Pc.atBlock,
        KotlinPbTransport.Transport.proceed] at hnext
      simp only [Bool.false_eq_true, false_and, and_false, if_false] at hnext
      split_ifs at hnext <;> cases hnext
    · intro i hcaller
      obtain ⟨job, found, hjob, hfound, hwaits, hcancelled⟩ := hinv.caller i hcaller
      rw [hheld] at hfound
      cases hfound
      exact ⟨job, _, hjob, rfl, hwaits.trans (congrArg some hcall.symm), hcancelled⟩
    · rintro - moved value ⟨⟩ hswitch
      exact ⟨holder, hheld, hcall.symm.trans hswitch, id⟩
  · have hnone : s.caller = none := hquiet.resolve_left (Option.some_ne_none ok)
    have hframe := KotlinPbTransport.Transport.advance_frame hnext
    refine hinv.ofTransport htransport ?_ (hinv.advance_posture hheld hframe) ?_ ?_
    · by_cases hrecord : ∃ value, holder.pc = .recording value
      · obtain ⟨value, hpc⟩ := hrecord
        have hcancelled := (hinv.orphan hnone holder value hheld (by rw [hpc]; rfl)).1
        rw [hpc, hcancelled] at hnext
        simp only [KotlinPbTransport.Transport.advance, KotlinPbTransport.Pc.atBlock,
          KotlinPbTransport.Transport.proceed] at hnext
        simp only [Bool.false_eq_true, false_and, and_false, if_false, if_true] at hnext
        cases hnext
        rfl
      · exact hframe.secureMode fun value hpc => hrecord ⟨value, hpc⟩
    · intro i hcaller
      rw [hnone] at hcaller
      cases hcaller
    · intro _ moved value hheld
      cases hheld

theorem Invariant.enter {s : State} (hinv : Invariant s) {i : ℕ} {job : Job} {call : Call}
    (hjob : s.jobs[i]? = some job) (hcall : job.call = some call)
    {result : KotlinPbTransport.State × Option Bool}
    (hstep : KotlinPbTransport.step s.transport (.enter call) = some result) :
    Invariant { s with transport := result.1, caller := some i } := by
  have htransport := hinv.transport.afterStep hstep
  obtain ⟨-, rfl⟩ := KotlinPbTransport.step_enter_eq_some hstep
  constructor
  · exact htransport
  · exact hinv.toggling
  · exact hinv.alone
  · rintro j ⟨⟩
    exact ⟨job, _, hjob, rfl, by rw [hcall, KotlinPbTransport.Call.call_entry], rfl⟩
  · exact nofun
  · exact hinv.mode
  · exact hinv.idle
  · exact hinv.relied

/-! ## Steps of the jobs -/

theorem getElem?_set_cases {jobs : List Job} {i j : ℕ} {job other : Job}
    (hother : (jobs.set i job)[j]? = some other) :
    (j = i ∧ other = job) ∨ (j ≠ i ∧ jobs[j]? = some other) := by
  by_cases hsame : i = j
  · subst hsame
    have hlt : i < (jobs.set i job).length := (List.getElem?_eq_some_iff.mp hother).1
    rw [List.length_set] at hlt
    rw [List.getElem?_set_self hlt] at hother
    exact .inl ⟨rfl, (Option.some.inj hother).symm⟩
  · rw [List.getElem?_set_ne hsame] at hother
    exact .inr ⟨fun h => hsame h.symm, hother⟩

theorem Invariant.no_toggle {s : State} (hinv : Invariant s) {i j : ℕ} {job other : Job}
    (hjob : s.jobs[i]? = some job) (htoggle : job.toggle? ≠ none) (hne : j ≠ i)
    (hother : s.jobs[j]? = some other) : other.toggle? = none := by
  by_contra hsome
  exact hne (hinv.alone j i other job hother hjob hsome htoggle)

/-- A job goes on with the toggle it has. -/
theorem Invariant.moveJob {s next : State} (hinv : Invariant s) {i : ℕ} {job moved : Job}
    (hjob : s.jobs[i]? = some job) (hjobs : next.jobs = s.jobs.set i moved)
    (htoggle : moved.toggle? = job.toggle?)
    (hui : next.ui.negotiating = s.ui.negotiating ∧ next.ui.pqRequested = s.ui.pqRequested)
    (htransport : next.transport.Invariant) (hposture : next.posture = s.posture)
    (hmode : ∀ toggle, moved.switched = some toggle → next.secureMode = toggle.enabled)
    (hothers : job.toggle? ≠ none ∨ next.secureMode = s.secureMode)
    (hrelied : moved.relies = true → s.posture ≠ none)
    (hcaller : ∀ i, next.caller = some i → ∃ job holder, next.jobs[i]? = some job ∧
      next.transport.holder = some holder ∧ job.call = some holder.pc.call ∧
      holder.cancelled = false)
    (horphan : next.caller = none → ∀ holder value, next.transport.holder = some holder →
      holder.pc.call = .setSecure value → holder.cancelled = true ∧
        (s.ui.negotiating = false → s.ui.pqRequested = false) ∧
        ∀ job ∈ next.jobs, ∀ toggle, job.toggle? = some toggle →
          job = .switching toggle ∧ toggle.previous = false) : Invariant next := by
  have hmem : ∀ other ∈ next.jobs, other = moved ∨
      ∃ j, j ≠ i ∧ s.jobs[j]? = some other := by
    intro other hother
    rw [hjobs] at hother
    obtain ⟨j, hj⟩ := List.getElem?_of_mem hother
    rcases getElem?_set_cases hj with ⟨-, rfl⟩ | ⟨hne, hold⟩
    · exact .inl rfl
    · exact .inr ⟨j, hne, hold⟩
  constructor
  · exact htransport
  · intro other hother toggle hother?
    rw [hui.1, hui.2]
    rcases hmem other hother with rfl | ⟨j, -, hold⟩
    · exact hinv.toggling job (List.mem_of_getElem? hjob) toggle (htoggle ▸ hother?)
    · exact hinv.toggling other (List.mem_of_getElem? hold) toggle hother?
  · intro j k first second hfirst hsecond hj hk
    rw [hjobs] at hfirst hsecond
    rcases getElem?_set_cases hfirst with ⟨rfl, rfl⟩ | ⟨-, hold⟩
    · rcases getElem?_set_cases hsecond with ⟨rfl, -⟩ | ⟨-, hother⟩
      · rfl
      · exact hinv.alone _ _ _ _ hjob hother (htoggle ▸ hj) hk
    · rcases getElem?_set_cases hsecond with ⟨rfl, rfl⟩ | ⟨-, hother⟩
      · exact hinv.alone _ _ _ _ hold hjob hj (htoggle ▸ hk)
      · exact hinv.alone _ _ _ _ hold hother hj hk
  · exact hcaller
  · rw [hui.1, hui.2]
    exact horphan
  · intro other hother toggle hswitched
    rcases hmem other hother with rfl | ⟨j, hne, hold⟩
    · exact hmode toggle hswitched
    · rcases hothers with hsome | hsame
      · have hnone := hinv.no_toggle hjob hsome hne hold
        rw [Job.toggle?_of_switched hswitched] at hnone
        cases hnone
      · exact hsame.trans (hinv.mode other (List.mem_of_getElem? hold) toggle hswitched)
  · rw [hui.1, hui.2, hposture]
    exact hinv.idle
  · intro other hother hrelies
    rw [hposture]
    rcases hmem other hother with rfl | ⟨j, -, hold⟩
    · exact hrelied hrelies
    · exact hinv.relied other (List.mem_of_getElem? hold) hrelies

/-- A job that does not negotiate goes on without a call. -/
theorem Invariant.settle {s : State} (hinv : Invariant s) {i : ℕ} {job moved : Job}
    (hjob : s.jobs[i]? = some job) (hquiet : job.toggle? = none) (hcalls : job.call = none)
    (hmoved : moved.toggle? = none) {ui : UiState}
    (hui : ui.negotiating = s.ui.negotiating ∧ ui.pqRequested = s.ui.pqRequested) :
    Invariant { s.setJob i moved with ui := ui } := by
  refine hinv.moveJob hjob rfl (hmoved.trans hquiet.symm) hui hinv.transport rfl ?_ (.inr rfl)
    ?_ ?_ ?_
  · intro toggle hswitched
    rw [Job.toggle?_of_switched hswitched] at hmoved
    cases hmoved
  · intro hrelies
    obtain ⟨toggle, htoggle, -⟩ := Job.toggle?_of_relies hrelies
    rw [htoggle] at hmoved
    cases hmoved
  · intro j hcaller
    obtain ⟨other, holder, hother, hheld, hwaits, hcancelled⟩ := hinv.caller j hcaller
    refine ⟨other, holder, ?_, hheld, hwaits, hcancelled⟩
    have hne : i ≠ j := by
      rintro rfl
      rw [hjob] at hother
      cases hother
      rw [hcalls] at hwaits
      cases hwaits
    exact (List.getElem?_set_ne hne).trans hother
  · intro hnone holder value hheld hcall
    obtain ⟨hcancelled, hidle, hjobs⟩ := hinv.orphan hnone holder value hheld hcall
    refine ⟨hcancelled, hidle, fun other hmem toggle htoggle => ?_⟩
    rcases List.mem_or_eq_of_mem_set hmem with hold | rfl
    · exact hjobs other hold toggle htoggle
    · rw [hmoved] at htoggle
      cases htoggle

theorem Invariant.advanceEnded {s : State} (hinv : Invariant s) {answer : Answer}
    {next : KotlinPbTransport.State} {ok : Bool} {i : ℕ} {message : Option String}
    (hstep : KotlinPbTransport.step s.transport (.advance answer) = some (next, some ok))
    (hcaller : s.caller = some i) :
    Invariant { s with
      transport := next
      caller := none
      jobs := s.jobs.modify i fun job => job.after ok message } := by
  have htransport := hinv.transport.afterStep hstep
  obtain ⟨job, holder, hjob, hheld, hwaits, hcancelled⟩ := hinv.caller i hcaller
  have hjobs : (s.jobs.modify i fun job => job.after ok message) =
      s.jobs.set i (job.after ok message) := by
    simp [List.modify_eq_set_getElem?, hjob]
  obtain ⟨found, after, hfound, ⟨pc, -, heq⟩ | ⟨_, hnext, heq⟩⟩ :=
    KotlinPbTransport.step_advance_eq_some hstep
  · cases heq
  cases heq
  rw [hheld] at hfound
  cases hfound
  rw [hcancelled] at hnext
  have hframe := KotlinPbTransport.Transport.advance_frame hnext
  have hmem := List.mem_of_getElem? hjob
  cases job with
  | switching toggle =>
      have hcall : holder.pc.call = .setSecure toggle.enabled := (Option.some.inj hwaits).symm
      obtain ⟨rfl, hmode⟩ := KotlinPbTransport.Transport.switch_ended hcall hnext
      have hposture : after.posture = s.transport.transport.posture := by
        apply hframe.posture
        intro value hpc
        rw [hpc] at hnext
        cases hnext
      refine hinv.moveJob hjob hjobs rfl ⟨rfl, rfl⟩ htransport hposture ?_
        (.inl (by simp [Job.toggle?])) ?_ nofun fun _ _ _ => nofun
      · rintro _ ⟨⟩
        exact hmode
      · exact hinv.relied (.switching toggle) hmem
  | pinging toggle =>
      have hcall : holder.pc.call = .withConnection := (Option.some.inj hwaits).symm
      have hposture : after.posture = s.transport.transport.posture := by
        apply hframe.posture
        intro value hpc
        rw [hpc] at hcall
        cases hcall
      have hmode : after.secureMode = s.transport.transport.secureMode := by
        apply hframe.secureMode
        intro value hpc
        rw [hpc] at hcall
        cases hcall
      have hswitched : s.secureMode = toggle.enabled := hinv.mode _ hmem toggle rfl
      refine hinv.moveJob hjob hjobs rfl ⟨rfl, rfl⟩ htransport hposture ?_
        (.inr hmode) ?_ nofun fun _ _ _ => nofun
      · rintro _ ⟨⟩
        exact hmode.trans hswitched
      · intro hrelies
        cases ok with
        | true =>
            -- The answer came over a channel that is reported.
            obtain ⟨-, connection, hanswers⟩ :=
              KotlinPbTransport.Transport.request_ended hcall hnext
            exact hinv.transport.consistent.reported_of_answers (hswitched.trans hrelies) hanswers
        | false => exact hinv.relied _ hmem hrelies
  | pinged | reading | applying | done => cases hwaits

theorem getElem?_append_cases {jobs : List Job} {i : ℕ} {job added : Job}
    (hjob : (jobs ++ [added])[i]? = some job) :
    jobs[i]? = some job ∨ (i = jobs.length ∧ job = added) := by
  rcases Nat.lt_or_ge i jobs.length with hlt | hge
  · rw [List.getElem?_append_left hlt] at hjob
    exact .inl hjob
  · rw [List.getElem?_append_right hge] at hjob
    have hzero : i - jobs.length = 0 := by
      have := (List.getElem?_eq_some_iff.mp hjob).1
      simpa using this
    rw [hzero] at hjob
    exact .inr ⟨by omega, (Option.some.inj hjob).symm⟩

/-- A new job.  It may only negotiate where no other does. -/
theorem Invariant.launch {s next : State} (hinv : Invariant s) {added : Job}
    (hjobs : next.jobs = s.jobs ++ [added]) (htransport : next.transport = s.transport)
    (hcaller : next.caller = s.caller) (hswitched : added.switched = none)
    (hflags : (added.toggle? = none ∧ next.ui.negotiating = s.ui.negotiating ∧
        next.ui.pqRequested = s.ui.pqRequested) ∨
      (s.ui.negotiating = false ∧ next.ui.negotiating = true ∧
        added = .switching ⟨next.ui.pqRequested, s.ui.pqRequested⟩)) : Invariant next := by
  have hmem : ∀ job ∈ next.jobs, job ∈ s.jobs ∨ job = added := by
    intro job hmem
    rw [hjobs] at hmem
    exact (List.mem_append.mp hmem).imp_right List.mem_singleton.mp
  have hold? : s.ui.negotiating = false → ∀ job ∈ s.jobs, job.toggle? = none := by
    intro hidle job hjob
    by_contra hsome
    obtain ⟨toggle, htoggle⟩ := Option.ne_none_iff_exists'.mp hsome
    exact absurd ((hinv.toggling job hjob toggle htoggle).1.symm.trans hidle) nofun
  constructor
  · exact htransport ▸ hinv.transport
  · intro job hjob toggle htoggle
    rcases hflags with ⟨hquiet, hnegotiating, hon⟩ | ⟨hidle, hnegotiating, rfl⟩
    · rw [hnegotiating, hon]
      rcases hmem job hjob with hold | rfl
      · exact hinv.toggling job hold toggle htoggle
      · rw [hquiet] at htoggle
        cases htoggle
    · rcases hmem job hjob with hold | rfl
      · rw [hold? hidle job hold] at htoggle
        cases htoggle
      · cases htoggle
        exact ⟨hnegotiating, rfl⟩
  · intro i j job other hjob hother hi hj
    rw [hjobs] at hjob hother
    rcases getElem?_append_cases hjob with hfirst | ⟨hlast, rfl⟩
    · rcases getElem?_append_cases hother with hsecond | ⟨hlast, rfl⟩
      · exact hinv.alone i j job other hfirst hsecond hi hj
      · rcases hflags with ⟨hquiet, -⟩ | ⟨hidle, -⟩
        · exact absurd hquiet hj
        · exact absurd (hold? hidle job (List.mem_of_getElem? hfirst)) hi
    · rcases getElem?_append_cases hother with hsecond | ⟨hlast', rfl⟩
      · rcases hflags with ⟨hquiet, -⟩ | ⟨hidle, -⟩
        · exact absurd hquiet hi
        · exact absurd (hold? hidle other (List.mem_of_getElem? hsecond)) hj
      · rw [hlast, hlast']
  · intro i hcalls
    rw [hcaller] at hcalls
    obtain ⟨job, holder, hjob, hrest⟩ := hinv.caller i hcalls
    refine ⟨job, holder, ?_, htransport ▸ hrest⟩
    rw [hjobs]
    exact (List.getElem?_append_left (List.getElem?_eq_some_iff.mp hjob).1).trans hjob
  · intro hnone holder value hheld hcall
    rw [hcaller] at hnone
    rw [htransport] at hheld
    obtain ⟨hcancelled, hidle, hall⟩ := hinv.orphan hnone holder value hheld hcall
    rcases hflags with ⟨hquiet, hnegotiating, hon⟩ | ⟨hfree, hnegotiating, rfl⟩
    · rw [hnegotiating, hon]
      refine ⟨hcancelled, hidle, fun job hjob toggle htoggle => ?_⟩
      rcases hmem job hjob with hold | rfl
      · exact hall job hold toggle htoggle
      · rw [hquiet] at htoggle
        cases htoggle
    · refine ⟨hcancelled, fun hnow => absurd (hnegotiating.symm.trans hnow) nofun, ?_⟩
      intro job hjob toggle htoggle
      rcases hmem job hjob with hold | rfl
      · exact hall job hold toggle htoggle
      · cases htoggle
        exact ⟨rfl, hidle hfree⟩
  · intro job hjob toggle hswitches
    rcases hmem job hjob with hold | rfl
    · exact (congrArg (·.transport.secureMode) htransport).trans
        (hinv.mode job hold toggle hswitches)
    · rw [hswitched] at hswitches
      cases hswitches
  · intro hnegotiating hon
    rcases hflags with ⟨-, hsame, hsame'⟩ | ⟨-, hnow, -⟩
    · rw [State.posture, htransport]
      exact hinv.idle (hsame ▸ hnegotiating) (hsame' ▸ hon)
    · exact absurd (hnow.symm.trans hnegotiating) nofun
  · intro job hjob hrelies
    rw [State.posture, htransport]
    rcases hmem job hjob with hold | rfl
    · exact hinv.relied job hold hrelies
    · rcases hflags with ⟨hquiet, -⟩ | ⟨hfree, -, rfl⟩
      · obtain ⟨toggle, htoggle, -⟩ := Job.toggle?_of_relies hrelies
        rw [hquiet] at htoggle
        cases htoggle
      · exact hinv.idle hfree (Bool.and_eq_true_iff.mp hrelies).2

/-- The view model goes, and what it has under way is cancelled. -/
theorem invariant_clear {transport : KotlinPbTransport.State}
    (htransport : transport.Invariant)
    (hholder : ∀ holder value, transport.holder = some holder →
      holder.pc.call = .setSecure value → holder.cancelled = true) :
    Invariant ⟨{ loading := true }, [.reading], transport, none⟩ where
  transport := htransport
  toggling := invariant_initial.toggling
  alone := invariant_initial.alone
  caller := nofun
  orphan := by
    intro _ holder value hheld hcall
    refine ⟨hholder holder value hheld hcall, fun _ => rfl, ?_⟩
    intro job hmem
    rw [List.mem_singleton.mp hmem]
    exact nofun
  mode := by
    intro job hmem
    rw [List.mem_singleton.mp hmem]
    exact nofun
  idle := nofun
  relied := by
    intro job hmem
    rw [List.mem_singleton.mp hmem]
    exact nofun

/-! ## The end of a negotiation -/

/-- The step is not the end of a switching-off from on that has failed. -/
def State.keepsOff (s : State) : Action → Bool
  | .resume i =>
      match s.jobs[i]? with
      | some (.pinged ⟨false, true⟩ (some _)) => false
      | _ => true
  | _ => true

theorem Invariant.resume {s : State} (hinv : Invariant s) {i : ℕ} {toggle : Toggle}
    {failure : Option (Option String)} (hjob : s.jobs[i]? = some (.pinged toggle failure))
    (hkeeps : s.keepsOff (.resume i) = true) :
    Invariant { s.setJob i .reading with ui := s.ui.negotiated toggle failure } := by
  have hmem := List.mem_of_getElem? hjob
  obtain ⟨hnegotiating, hon⟩ := hinv.toggling _ hmem toggle rfl
  have hquiet : ∀ job ∈ s.jobs.set i .reading, job.toggle? = none := by
    intro job hnow
    obtain ⟨j, hj⟩ := List.getElem?_of_mem hnow
    rcases getElem?_set_cases hj with ⟨-, rfl⟩ | ⟨hne, hold⟩
    · rfl
    · exact hinv.no_toggle hjob (by simp [Job.toggle?]) hne hold
  constructor
  · exact hinv.transport
  · intro job hnow other hother
    rw [hquiet job hnow] at hother
    cases hother
  · intro j k job other hj hk htoggle
    exact absurd (hquiet job (List.mem_of_getElem? hj)) htoggle
  · intro j hcaller
    obtain ⟨job, holder, hj, hheld, hwaits, hcancelled⟩ := hinv.caller j hcaller
    refine ⟨job, holder, ?_, hheld, hwaits, hcancelled⟩
    have hne : i ≠ j := by
      rintro rfl
      rw [hjob] at hj
      cases hj
      cases hwaits
    exact (List.getElem?_set_ne hne).trans hj
  · intro hnone holder value hheld hcall
    have hswitching := ((hinv.orphan hnone holder value hheld hcall).2.2 _ hmem toggle rfl).1
    cases hswitching
  · intro job hnow other hother
    have hnone := hquiet job hnow
    rw [Job.toggle?_of_switched hother] at hnone
    cases hnone
  · intro _ hstill
    apply hinv.relied _ hmem
    cases failure with
    | none => exact hon.symm.trans hstill
    | some message =>
        obtain ⟨enabled, previous⟩ := toggle
        have hprevious : previous = true := hstill
        subst hprevious
        cases enabled with
        | true => rfl
        | false => simp [State.keepsOff, hjob] at hkeeps
  · intro job hnow hrelies
    obtain ⟨other, htoggle, -⟩ := Job.toggle?_of_relies hrelies
    rw [hquiet job hnow] at htoggle
    cases htoggle

/-! ## Every run -/

theorem Invariant.afterStep {s next : State} {action : Action} (hinv : Invariant s)
    (hstep : machine.step s action = some next) (hkeeps : s.keepsOff action = true) :
    Invariant next := by
  simp only [machine] at hstep
  cases action with
  | toggle enabled =>
      simp only [step] at hstep
      split_ifs at hstep with hnegotiating
      cases hstep
      exact hinv.launch rfl rfl rfl rfl (.inr ⟨by simpa using hnegotiating, rfl, rfl⟩)
  | refresh =>
      cases hstep
      exact hinv.launch rfl rfl rfl rfl (.inl ⟨rfl, rfl, rfl⟩)
  | clear =>
      cases hstep
      cases hcaller : s.caller with
      | none =>
          exact invariant_clear hinv.transport
            fun holder value hheld hcall => (hinv.orphan hcaller holder value hheld hcall).1
      | some i =>
          apply invariant_clear
          · refine ⟨hinv.transport.consistent, fun holder hheld => ?_⟩
            obtain ⟨old, hold, rfl⟩ := Option.map_eq_some_iff.mp hheld
            exact hinv.transport.holds old hold
          · intro holder value hheld _
            obtain ⟨old, -, rfl⟩ := Option.map_eq_some_iff.mp hheld
            rfl
  | enter i =>
      simp only [step] at hstep
      split at hstep
      · cases hstep
      · next call hcall =>
          obtain ⟨job, hjob, hcall⟩ := Option.bind_eq_some_iff.mp hcall
          obtain ⟨result, hresult, rfl⟩ := Option.map_eq_some_iff.mp hstep
          exact hinv.enter hjob hcall hresult
  | enterOther call =>
      simp only [step] at hstep
      split_ifs at hstep with hswitches
      obtain ⟨result, hresult, rfl⟩ := Option.map_eq_some_iff.mp hstep
      exact hinv.enterOther (by simpa using hswitches) hresult
  | advance answer message =>
      obtain ⟨⟨after, ended⟩, hresult, rfl⟩ := Option.map_eq_some_iff.mp hstep
      cases ended with
      | none => exact hinv.advanceQuiet hresult (.inl rfl)
      | some ok =>
          cases hcaller : s.caller with
          | none =>
              simp only [State.advanced, hcaller]
              exact hcaller ▸ hinv.advanceQuiet hresult (.inr hcaller)
          | some i =>
              simp only [State.advanced, hcaller]
              exact hinv.advanceEnded hresult hcaller
  | cancelOther =>
      simp only [step] at hstep
      split at hstep
      · cases hstep
      · next hnone =>
          obtain ⟨result, hresult, rfl⟩ := Option.map_eq_some_iff.mp hstep
          exact hnone ▸ hinv.cancelOther hnone hresult
  | publish connection =>
      obtain ⟨result, hresult, rfl⟩ := Option.map_eq_some_iff.mp hstep
      exact hinv.publish hresult
  | resume i =>
      simp only [step] at hstep
      split at hstep
      · next toggle failure hjob =>
          cases hstep
          exact hinv.resume hjob hkeeps
      · cases hstep
  | read i failure =>
      simp only [step] at hstep
      split at hstep
      · next hjob =>
          cases hstep
          exact hinv.settle hjob rfl rfl rfl ⟨rfl, rfl⟩
      · cases hstep
  | applyPosture i =>
      simp only [step] at hstep
      split at hstep
      · next answer hjob =>
          cases hstep
          refine hinv.settle hjob rfl rfl rfl ?_
          cases answer with
          | ok report => exact ⟨rfl, rfl⟩
          | error message => exact ⟨rfl, rfl⟩
      · cases hstep

/-- A switch that reads on, with no negotiation under way, stands for a reported channel of a
running server that requires PQ, in the mode the transport has recorded. -/
def State.Honest (s : State) : Prop :=
  s.ui.negotiating = false → s.ui.pqRequested = true →
    s.posture ≠ none ∧ s.secureMode = true ∧
      ∃ server, s.transport.transport.server = some server ∧ server.requirePq = true

theorem Invariant.honest {s : State} (hinv : Invariant s) : s.Honest := by
  intro hidle hon
  have hconsistent := hinv.transport.consistent
  have hposture := hinv.idle hidle hon
  obtain ⟨i, hi⟩ := Option.ne_none_iff_exists'.mp hposture
  obtain ⟨c, server, -, -, hserver, -, hpq⟩ := hconsistent.reported i hi
  exact ⟨hposture, hconsistent.secure_of_posture hposture, server, hserver, hpq⟩

/-- The failed switching-off puts the switch back on over a transport that is off. -/
theorem Invariant.lies {s next : State} {action : Action} (hinv : Invariant s)
    (hstep : machine.step s action = some next) (hloses : ¬ s.keepsOff action = true) :
    ¬ next.Honest := by
  unfold State.keepsOff at hloses
  split at hloses
  · next i =>
      split at hloses
      · next message hjob =>
          simp only [machine, step, hjob] at hstep
          cases hstep
          intro hhonest
          have hoff : s.secureMode = false :=
            hinv.mode _ (List.mem_of_getElem? hjob) ⟨false, true⟩ rfl
          have hsecure : s.secureMode = true := (hhonest rfl rfl).2.1
          rw [hoff] at hsecure
          cases hsecure
      · exact absurd rfl hloses
  · exact absurd rfl hloses

/-- In every run of the inspector, whatever else uses the transport: the switch is honest in
every state the run passes through if and only if no switching-off from on fails. -/
theorem switch_honest_iff {last : State} {actions : List Action}
    (hrun : machine.run State.initial actions = some last) :
    machine.Throughout State.Honest State.initial actions ↔
      machine.RunMeets (fun s action => s.keepsOff action = true) State.initial actions :=
  machine.throughout_iff (fun _ _ _ hinv hstep hkeeps => hinv.afterStep hstep hkeeps)
    (fun _ hinv => hinv.honest) (fun _ _ _ hinv hstep hloses => hinv.lies hstep hloses)
    invariant_initial hrun

/-- PQ goes on while another screen opens a connection, and the new posture is read. -/
def switchOn : List Action :=
  [.toggle true, .enterOther .openConnection, .advance .ok none, .advance .ok none,
    .enter 1, .advance .ok none, .advance .ok none, .advance .ok none, .advance .ok none,
    .enter 1, .advance .ok none, .advance .ok none, .advance .ok none, .publish 1,
    .advance .ok none, .resume 1, .read 0 none, .applyPosture 0]

theorem switch_honest_iff_switchOn :
    ∃ last, machine.run State.initial switchOn = some last ∧
      last.ui.pqRequested = true ∧ last.ui.report = some (some 1) ∧
      (machine.Throughout State.Honest State.initial switchOn ↔
        machine.RunMeets (fun s action => s.keepsOff action = true) State.initial switchOn) := by
  have hrun : machine.run State.initial switchOn =
      some ⟨⟨some (some 1), false, false, true, none⟩, [.done, .reading],
        ⟨⟨true, some 1, some 1, some 1, [⟨0, false, false⟩, ⟨1, true, true⟩], some ⟨1, true⟩, 2,
          some 1⟩, none⟩, none⟩ := by decide
  exact ⟨_, hrun, rfl, rfl, switch_honest_iff hrun⟩

end TrustViewModel

end NativeInterop
