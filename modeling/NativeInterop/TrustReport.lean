import NativeInterop.TrustViewModel
import Mathlib.Tactic

/-!
# No lock without a handshake

A posture is read when the engine answers and shown some time later, and in between the server
may have been stopped and started again.  Still the inspector shows a channel only if its
connection has completed the handshake, whatever else goes on and also where the switch lies.
-/

namespace NativeInterop

namespace KotlinPbTransport

/-- The server has completed the handshake of a secure connection. -/
def Transport.Negotiated (t : Transport) (i : ℕ) : Prop :=
  ∃ c, t.connections[i]? = some c ∧ c.secure = true ∧ c.published = true

theorem Transport.Consistent.negotiated {t : Transport} (hconsistent : t.Consistent) {i : ℕ}
    (hposture : t.posture = some i) : t.Negotiated i := by
  obtain ⟨c, server, hget, hpublished, hserver, hsame, hpq⟩ := hconsistent.reported i hposture
  have hmode := hconsistent.mode c (List.mem_of_getElem? hget) server hserver hsame
  exact ⟨c, hget, hmode.trans hpq, hpublished⟩

theorem Transport.Negotiated.publish {t next : Transport} {i j : ℕ} (hi : t.Negotiated i)
    (hnext : t.publish j = some next) : next.Negotiated i := by
  obtain ⟨c, hget, hsecure, hpublished⟩ := hi
  obtain ⟨d, server, hgot, -, -, -, hd, rfl⟩ := Transport.publish_eq_some hnext
  by_cases hsame : j = i
  · subst hsame
    have hlt := (List.getElem?_eq_some_iff.mp hget).1
    exact ⟨{ d with published := true }, List.getElem?_set_self hlt, hd, rfl⟩
  · exact ⟨c, (List.getElem?_set_ne hsame).trans hget, hsecure, hpublished⟩

/-- A handshake stays completed. -/
theorem Transport.Negotiated.afterStep {s : State} {action : Action}
    {result : State × Option Bool} {i : ℕ} (hi : s.transport.Negotiated i)
    (hstep : step s action = some result) : result.1.transport.Negotiated i := by
  have hkeeps : ∀ {next : Transport}, (∀ c, s.transport.connections[i]? = some c →
      next.connections[i]? = some c) → next.Negotiated i := by
    intro next hkept
    obtain ⟨c, hget, hrest⟩ := hi
    exact ⟨c, hkept c hget, hrest⟩
  cases action with
  | enter call =>
      obtain ⟨-, rfl⟩ := step_enter_eq_some hstep
      exact hi
  | advance answer =>
      obtain ⟨holder, next, -, ⟨pc, hnext, rfl⟩ | ⟨ok, hnext, rfl⟩⟩ :=
        step_advance_eq_some hstep
      · exact hkeeps ((Transport.advance_frame hnext).connections i)
      · exact hkeeps ((Transport.advance_frame hnext).connections i)
  | cancel =>
      obtain ⟨holder, -, rfl⟩ := step_cancel_eq_some hstep
      exact hi
  | publish connection =>
      obtain ⟨next, hnext, rfl⟩ := step_publish_eq_some hstep
      exact hi.publish hnext

end KotlinPbTransport

namespace TrustViewModel

/-- The channel of a posture that has been read and is on its way to the screen. -/
def Job.channel : Job → Option ℕ
  | .applying (.ok report) => report
  | _ => none

theorem Job.channel_after (job : Job) (ok : Bool) (message : Option String) :
    (job.after ok message).channel = job.channel := by
  cases job with
  | switching toggle => cases ok <;> rfl
  | pinging | pinged | reading | applying | done => rfl

/-- Whoever shows a channel, or is about to, has it from a handshake. -/
structure State.Genuine (s : State) : Prop where
  transport : s.transport.Invariant
  shown : ∀ i, s.ui.report = some (some i) → s.transport.transport.Negotiated i
  read : ∀ job ∈ s.jobs, ∀ i, job.channel = some i → s.transport.transport.Negotiated i

theorem genuine_initial : State.initial.Genuine where
  transport := KotlinPbTransport.invariant_initial
  shown := nofun
  read := by
    intro job hmem i hchannel
    rw [List.mem_singleton.mp hmem] at hchannel
    cases hchannel

namespace State.Genuine

variable {s next : State}

/-- A step on which no channel is read. -/
theorem keep (hgenuine : s.Genuine) (htransport : next.transport.Invariant)
    (hkept : ∀ i, s.transport.transport.Negotiated i → next.transport.transport.Negotiated i)
    (hreport : next.ui.report = s.ui.report)
    (hjobs : ∀ job ∈ next.jobs, job.channel = none ∨ ∃ old ∈ s.jobs, job.channel = old.channel) :
    next.Genuine where
  transport := htransport
  shown := fun i hshown => hkept i (hgenuine.shown i (hreport ▸ hshown))
  read := by
    intro job hmem i hchannel
    rcases hjobs job hmem with hnone | ⟨old, hold, hsame⟩
    · rw [hnone] at hchannel
      cases hchannel
    · exact hkept i (hgenuine.read old hold i (hsame ▸ hchannel))

theorem launch (hgenuine : s.Genuine) {added : Job} (hadded : added.channel = none)
    (hjobs : next.jobs = s.jobs ++ [added]) (htransport : next.transport = s.transport)
    (hreport : next.ui.report = s.ui.report) : next.Genuine := by
  apply hgenuine.keep (htransport ▸ hgenuine.transport) (fun _ => htransport ▸ id) hreport
  intro job hmem
  rw [hjobs] at hmem
  rcases List.mem_append.mp hmem with hold | hnew
  · exact .inr ⟨job, hold, rfl⟩
  · exact .inl (List.mem_singleton.mp hnew ▸ hadded)

theorem setJob (hgenuine : s.Genuine) {i : ℕ} {job : Job} (hchannel : job.channel = none)
    (hjobs : next.jobs = s.jobs.set i job) (htransport : next.transport = s.transport)
    (hreport : next.ui.report = s.ui.report) : next.Genuine := by
  apply hgenuine.keep (htransport ▸ hgenuine.transport) (fun _ => htransport ▸ id) hreport
  intro other hmem
  rw [hjobs] at hmem
  rcases List.mem_or_eq_of_mem_set hmem with hold | rfl
  · exact .inr ⟨other, hold, rfl⟩
  · exact .inl hchannel

theorem ofTransport (hgenuine : s.Genuine) {action : KotlinPbTransport.Action}
    {result : KotlinPbTransport.State × Option Bool}
    (hstep : KotlinPbTransport.step s.transport action = some result)
    (htransport : next.transport = result.1) (hreport : next.ui.report = s.ui.report)
    (hjobs : ∀ job ∈ next.jobs, ∃ old ∈ s.jobs, job.channel = old.channel) : next.Genuine := by
  refine hgenuine.keep (htransport ▸ hgenuine.transport.afterStep hstep) ?_ hreport
    fun job hmem => .inr (hjobs job hmem)
  intro i hi
  rw [htransport]
  exact hi.afterStep hstep

theorem advance (hgenuine : s.Genuine) {answer : KotlinPbTransport.Answer}
    {message : Option String} {result : KotlinPbTransport.State × Option Bool}
    (hstep : KotlinPbTransport.step s.transport (.advance answer) = some result) :
    (s.advanced result.1 result.2 message).Genuine := by
  unfold State.advanced
  split
  · next ok i _ _ =>
      refine hgenuine.ofTransport hstep rfl rfl fun job hmem => ?_
      obtain ⟨j, hj⟩ := List.getElem?_of_mem hmem
      rw [List.getElem?_modify, Option.map_eq_map, Option.map_eq_some_iff] at hj
      obtain ⟨old, hold, rfl⟩ := hj
      refine ⟨old, List.mem_of_getElem? hold, ?_⟩
      split_ifs
      · exact old.channel_after ok message
      · rfl
  · exact hgenuine.ofTransport hstep rfl rfl fun job hmem => ⟨job, hmem, rfl⟩

/-- A posture is read: what it reports has been negotiated by now. -/
theorem readPosture (hgenuine : s.Genuine) (i : ℕ) (failure : Option (Option String)) :
    (s.setJob i (.applying (match failure with
      | none => .ok s.transport.transport.posture
      | some message => .error message))).Genuine where
  transport := hgenuine.transport
  shown := hgenuine.shown
  read := by
    intro job hmem j hchannel
    rcases List.mem_or_eq_of_mem_set hmem with hold | rfl
    · exact hgenuine.read job hold j hchannel
    · cases failure with
      | none => exact hgenuine.transport.consistent.negotiated hchannel
      | some message => cases hchannel

theorem applyPosture (hgenuine : s.Genuine) {i : ℕ}
    {answer : Except (Option String) (Option ℕ)} (hjob : s.jobs[i]? = some (.applying answer)) :
    State.Genuine { s.setJob i .done with ui := s.ui.applyPosture answer } where
  transport := hgenuine.transport
  shown := by
    intro j hshown
    cases answer with
    | ok report =>
        have hreport : report = some j := Option.some.inj hshown
        exact hgenuine.read _ (List.mem_of_getElem? hjob) j hreport
    | error message => exact hgenuine.shown j hshown
  read := by
    intro job hmem j hchannel
    rcases List.mem_or_eq_of_mem_set hmem with hold | rfl
    · exact hgenuine.read job hold j hchannel
    · cases hchannel

/-- The view model goes; what the transport has under way is cancelled at most. -/
theorem clear (hgenuine : s.Genuine) (hstep : machine.step s .clear = some next) :
    next.Genuine := by
  cases hstep
  constructor
  · dsimp only
    split
    · exact hgenuine.transport
    · refine ⟨hgenuine.transport.consistent, fun holder hheld => ?_⟩
      obtain ⟨old, hold, rfl⟩ := Option.map_eq_some_iff.mp hheld
      exact hgenuine.transport.holds old hold
  · intro i hshown
    cases hshown
  · intro job hmem i hchannel
    rw [List.mem_singleton.mp hmem] at hchannel
    cases hchannel

theorem afterStep {action : Action} (hgenuine : s.Genuine)
    (hstep : machine.step s action = some next) : next.Genuine := by
  cases action with
  | clear => exact hgenuine.clear hstep
  | toggle enabled =>
      simp only [machine, step] at hstep
      split_ifs at hstep
      cases hstep
      exact hgenuine.launch rfl rfl rfl rfl
  | refresh =>
      cases hstep
      exact hgenuine.launch rfl rfl rfl rfl
  | enter i =>
      simp only [machine, step] at hstep
      split at hstep
      · cases hstep
      · obtain ⟨result, hresult, rfl⟩ := Option.map_eq_some_iff.mp hstep
        exact hgenuine.ofTransport hresult rfl rfl fun job hmem => ⟨job, hmem, rfl⟩
  | enterOther call =>
      simp only [machine, step] at hstep
      split_ifs at hstep
      obtain ⟨result, hresult, rfl⟩ := Option.map_eq_some_iff.mp hstep
      exact hgenuine.ofTransport hresult rfl rfl fun job hmem => ⟨job, hmem, rfl⟩
  | advance answer message =>
      obtain ⟨result, hresult, rfl⟩ := Option.map_eq_some_iff.mp hstep
      exact hgenuine.advance hresult
  | cancelOther =>
      simp only [machine, step] at hstep
      split at hstep
      · cases hstep
      · obtain ⟨result, hresult, rfl⟩ := Option.map_eq_some_iff.mp hstep
        exact hgenuine.ofTransport hresult rfl rfl fun job hmem => ⟨job, hmem, rfl⟩
  | publish connection =>
      obtain ⟨result, hresult, rfl⟩ := Option.map_eq_some_iff.mp hstep
      exact hgenuine.ofTransport hresult rfl rfl fun job hmem => ⟨job, hmem, rfl⟩
  | resume i =>
      simp only [machine, step] at hstep
      split at hstep
      · next toggle failure _ =>
          cases hstep
          refine hgenuine.setJob rfl rfl rfl ?_
          cases failure <;> rfl
      · cases hstep
  | read i failure =>
      simp only [machine, step] at hstep
      split at hstep
      · cases hstep
        exact hgenuine.readPosture i failure
      · cases hstep
  | applyPosture i =>
      simp only [machine, step] at hstep
      split at hstep
      · next answer hjob =>
          cases hstep
          exact hgenuine.applyPosture hjob
      · cases hstep

end State.Genuine

/-- In every run, also where the switch lies: a channel the inspector shows is that of a secure
connection whose handshake the server has completed. -/
theorem report_genuine {s : State} {actions : List Action}
    (hrun : machine.run State.initial actions = some s) {i : ℕ}
    (hshown : s.ui.report = some (some i)) : s.transport.transport.Negotiated i := by
  have hgenuine : s.Genuine := by
    apply machine.run_invariant_of_step (I := State.Genuine) _ genuine_initial hrun
    intro _ _ _ hbefore hstep
    exact hbefore.afterStep hstep
  exact hgenuine.shown i hshown

/-- The channel is shown while its server is gone. -/
theorem report_genuine_stopped :
    ∃ s, machine.run State.initial (switchOn ++ [.toggle false, .enter 2, .advance .ok none,
        .advance .ok none, .advance .ok none]) = some s ∧
      s.transport.transport.server = none ∧ s.ui.report = some (some 1) ∧
      s.transport.transport.Negotiated 1 := by
  let actions : List Action := switchOn ++ [.toggle false, .enter 2, .advance .ok none,
    .advance .ok none, .advance .ok none]
  have hrun : machine.run State.initial actions =
      some ((machine.run State.initial actions).get rfl) := rfl
  exact ⟨_, hrun, rfl, rfl, report_genuine hrun rfl⟩

end TrustViewModel

end NativeInterop
