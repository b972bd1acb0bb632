import NativeInterop.PbServerInvariant
import Mathlib.Tactic

/-!
# The runs of the framed server

Calls, accesses and peers in any order keep the invariant of the server.  A
request is dispatched in the clear only by an instance that was started without
the require-PQ flag, and the channel the server reports is the one its
connections use.
-/

namespace NativeInterop

namespace PbFrameServer

open PqSecureChannel

theorem Invariant.callStart {s : State} (hinv : Invariant s) (hgate : s.gate = .free)
    (flags : BitVec 32) : Invariant { s with gate := .start .enter flags } := by
  have hconsistent := hinv.consistent
  apply hinv.setGate
  · simp [State.current, hgate]
  · simpa [State.Consistent, hgate] using hconsistent
  · simp [hgate]
  · simp

theorem Invariant.callStop {s : State} (hinv : Invariant s)
    (hgate : s.gate = .free) : Invariant { s with gate := .stop .cancel s.cts } := by
  have hconsistent := hinv.consistent
  apply hinv.setGate
  · simp [State.current, hgate]
  · simpa [State.Consistent, hgate] using hconsistent
  · simp [hgate]
  · simp

theorem Invariant.outcome {s : State} (hinv : Invariant s) {j : ℕ}
    {c c' : Connection} {outcome : Outcome} (hget : s.connections[j]? = some c)
    (hafter : c.after outcome = some c') : Invariant (s.setConnection j c') := by
  apply hinv.setConnection hget
  · exact Connection.after_owner hafter
  · exact Connection.after_completed hafter
  · exact fun _ _ hsafe => hsafe.after hafter
  · exact hinv.not_holder hget (Connection.after_not_publish hafter)

theorem Invariant.step {s next : State} {action : Action} (hinv : Invariant s)
    (hstep : machine.step s action = some next) : Invariant next := by
  simp only [machine, PbFrameServer.step] at hstep
  cases action with
  | callStart flags =>
      by_cases hgate : s.gate = .free
      · simp only [if_pos hgate, Option.some.injEq] at hstep
        subst next
        exact hinv.callStart hgate flags
      · simp [hgate] at hstep
  | startStep =>
      cases hgate : s.gate with
      | start pc flags =>
          simp only [hgate, Option.some.injEq] at hstep
          subst next
          exact hinv.startStep hgate
      | free => simp [hgate] at hstep
      | stop pc target => simp [hgate] at hstep
      | publish j checked => simp [hgate] at hstep
  | startThrow =>
      cases hgate : s.gate with
      | start pc flags =>
          simp only [hgate] at hstep
          by_cases hthrow : pc.mayThrow = true
          · simp only [if_pos hthrow, Option.some.injEq] at hstep
            subst next
            exact hinv.startThrow hgate hthrow
          · simp [hthrow] at hstep
      | free => simp [hgate] at hstep
      | stop pc target => simp [hgate] at hstep
      | publish j checked => simp [hgate] at hstep
  | callStop =>
      by_cases hgate : s.gate = .free
      · simp only [if_pos hgate, Option.some.injEq] at hstep
        subst next
        exact hinv.callStop hgate
      · simp [hgate] at hstep
  | stopStep =>
      cases hgate : s.gate with
      | stop pc target =>
          simp only [hgate, Option.some.injEq] at hstep
          subst next
          exact hinv.stopStep hgate
      | free => simp [hgate] at hstep
      | start pc flags => simp [hgate] at hstep
      | publish j checked => simp [hgate] at hstep
  | accept owner => exact hinv.accept hstep
  | handlerStep j =>
      cases hget : s.connections[j]? with
      | none => simp [hget] at hstep
      | some c =>
          simp only [hget] at hstep
          exact hinv.handlerStep hget hstep
  | publishNested j =>
      cases hget : s.connections[j]? with
      | none => simp [hget] at hstep
      | some c =>
          simp only [hget] at hstep
          exact hinv.publishNested hget hstep
  | outcome j result =>
      cases hget : s.connections[j]? with
      | none => simp [hget] at hstep
      | some c =>
          simp only [hget, Option.map_eq_some_iff] at hstep
          obtain ⟨c', hafter, heq⟩ := hstep
          subst next
          exact hinv.outcome hget hafter

theorem invariant_of_run {s : State} {acts : List Action}
    (hrun : machine.run State.initial acts = some s) : Invariant s :=
  machine.run_invariant_of_step (fun _ _ _ hinv hstep => Invariant.step hinv hstep)
    initial_invariant hrun

/-- In every run, `DispatchAsync` is called for a connection of an instance
started with bit 0 only if the handshake had completed and the cipher was
attached when its frame was read. -/
theorem dispatched_encrypted (acts : List Action) (s : State)
    (hrun : machine.run State.initial acts = some s) :
    ∀ d ∈ s.dispatched, ∃ c inst, s.connections[d.connection]? = some c ∧
      s.instances[c.owner]? = some inst ∧
      (inst.requirePq = true →
        d.handshakeCompleted = true ∧ d.cipherAttached = true) :=
  (invariant_of_run hrun).dispatched

/-- A PQ client served, the server restarted without the flag, and a late
handler of the first instance let through by the flag it reads. -/
def restartActions : List Action :=
  [.callStart 1, .startStep, .startStep, .startStep, .startStep, .startStep,
    .startStep, .startStep, .startStep, .startStep, .accept 0, .accept 0,
    .handlerStep 0, .handlerStep 0, .handlerStep 0,
    .outcome 0 (.handshakeCompleted ⟨"ML-KEM-768", "ML-DSA-65", "AES-256-GCM",
      1184, 1088, 32⟩),
    .handlerStep 0, .handlerStep 0, .handlerStep 0, .handlerStep 0, .handlerStep 0,
    .outcome 0 .frameRead, .handlerStep 0,
    .callStop, .stopStep, .stopStep, .stopStep, .stopStep, .stopStep, .stopStep,
    .stopStep, .stopStep,
    .callStart 0, .startStep, .startStep, .startStep, .startStep, .startStep,
    .startStep, .startStep, .handlerStep 1, .handlerStep 1]

theorem dispatched_encrypted_restart :
    ∃ s, machine.run State.initial restartActions = some s ∧
      s.dispatched = [⟨0, true, true⟩] ∧
      s.connections.map Connection.pc = [.dispatching, .closed] ∧
      ∀ d ∈ s.dispatched, ∃ c inst, s.connections[d.connection]? = some c ∧
        s.instances[c.owner]? = some inst ∧
        (inst.requirePq = true →
          d.handshakeCompleted = true ∧ d.cipherAttached = true) := by
  refine ⟨_, rfl, by decide, by decide, ?_⟩
  exact dispatched_encrypted restartActions _ rfl

/-! ## The reported channel -/

/-- An instance runs from its launch until the `Stop` that cancels it returns. -/
def State.Running (s : State) (i : ℕ) : Prop :=
  ∃ inst, s.instances[i]? = some inst ∧
    (inst.cancelled = false ∨ ∃ pc, s.gate = .stop pc (some i))

def Action.IsHandler (action : Action) (j : ℕ) : Prop :=
  action = .handlerStep j ∨ action = .publishNested j ∨
    ∃ result, action = .outcome j result

theorem handlerStep_posture {s next : State} (hinv : Invariant s) {j : ℕ}
    {c : Connection} (hget : s.connections[j]? = some c)
    (hcancelled : s.cancelled c.owner = true)
    (hstep : s.handlerStep j c = some next) : next.posture = s.posture := by
  unfold State.handlerStep at hstep
  cases hpc : c.pc with
  | publish params =>
      cases hgate : s.gate with
      | free =>
          simp only [hpc, hgate, Option.some.injEq] at hstep
          subst next
          rfl
      | publish holder checked =>
          simp only [hpc, hgate] at hstep
          by_cases hself : holder = j
          · subst holder
            cases checked with
            | true =>
                obtain ⟨found, _, hfound, _, hlive⟩ := hinv.holder j true hgate
                have hsame : found = c := Option.some.inj (hfound.symm.trans hget)
                subst found
                rw [hlive rfl] at hcancelled
                contradiction
            | false =>
                simp only [Bool.false_eq_true, if_false, if_true, hcancelled,
                  Option.some.injEq] at hstep
                subst next
                rfl
          · simp [hself] at hstep
      | start pc flags => simp [hpc, hgate] at hstep
      | stop pc target => simp [hpc, hgate] at hstep
  | readIdentity provider =>
      simp only [hpc] at hstep
      split at hstep <;> simp only [Option.some.injEq] at hstep <;> subst next <;> rfl
  | accepted =>
      simp only [hpc, Option.some.injEq] at hstep
      subst next
      rfl
  | readProvider =>
      simp only [hpc, Option.some.injEq] at hstep
      subst next
      rfl
  | useCipher params =>
      simp only [hpc, Option.some.injEq] at hstep
      subst next
      rfl
  | loop =>
      simp only [hpc, Option.some.injEq] at hstep
      subst next
      rfl
  | received completed attached =>
      simp only [hpc, Option.some.injEq] at hstep
      subst next
      rfl
  | handshake provider identity => simp [hpc] at hstep
  | reading => simp [hpc] at hstep
  | dispatching => simp [hpc] at hstep
  | closed => simp [hpc] at hstep

/-- No step of a handler whose token is cancelled changes what is reported. -/
theorem posture_of_cancelled {s next : State} (hinv : Invariant s)
    {action : Action} {j : ℕ} {c : Connection} (haction : action.IsHandler j)
    (hget : s.connections[j]? = some c) (hcancelled : s.cancelled c.owner = true)
    (hstep : machine.step s action = some next) : next.posture = s.posture := by
  simp only [machine, PbFrameServer.step] at hstep
  rcases haction with haction | haction | ⟨result, haction⟩
  · subst action
    simp only [hget] at hstep
    exact handlerStep_posture hinv hget hcancelled hstep
  · subst action
    simp only [hget, State.publishNested] at hstep
    split at hstep
    · simp only [hcancelled, if_true, Option.some.injEq] at hstep
      subst next
      rfl
    · simp only [hcancelled, if_true, Option.some.injEq] at hstep
      subst next
      rfl
    · cases hstep
  · subst action
    simp only [hget, Option.map_eq_some_iff] at hstep
    obtain ⟨c', _, heq⟩ := hstep
    subst next
    rfl

/-- In every reachable state, reported parameters come from a completed
handshake of a running instance that requires PQ, which is the published one
whenever no call is in progress.  Once a `Stop` has cancelled, no instance is
left uncancelled, and the handler of a cancelled instance never changes what is
reported. -/
theorem posture_honest (acts : List Action) (s : State)
    (hrun : machine.run State.initial acts = some s) :
    (∀ p, s.posture = some p → ∃ c inst, s.connections[p.connection]? = some c ∧
      s.instances[c.owner]? = some inst ∧ inst.requirePq = true ∧
      c.handshakeCompleted = true ∧ s.Running c.owner ∧
      (s.gate = .free → inst.cancelled = false ∧ s.listener = some c.owner)) ∧
    (∀ pc target, s.gate = .stop pc target → pc ≠ .cancel →
      ∀ inst ∈ s.instances, inst.cancelled = true) ∧
    ∀ action next j c, action.IsHandler j → s.connections[j]? = some c →
      s.cancelled c.owner = true → machine.step s action = some next →
      next.posture = s.posture := by
  have hinv := invariant_of_run hrun
  refine ⟨?_, ?_, ?_⟩
  · intro p hp
    obtain ⟨c, inst, hhonest⟩ := hinv.honest p hp
    refine ⟨c, inst, hhonest.connection, hhonest.owner, hhonest.requirePq,
      hhonest.completed, ⟨inst, hhonest.owner, hhonest.running⟩, ?_⟩
    intro hgate
    have hup : inst.cancelled = false := by
      rcases hhonest.running with hup | ⟨pc, hstop⟩
      · exact hup
      · rw [hgate] at hstop
        cases hstop
    have hcurrent := (hinv.live c.owner inst hhonest.owner hup).1
    simp only [State.current, hgate] at hcurrent
    exact ⟨hup, hcurrent⟩
  · intro pc target hgate hpc inst hmem
    obtain ⟨i, hget⟩ := List.getElem?_of_mem hmem
    have hnone : s.current = none := by
      cases pc <;> simp_all [State.current]
    cases hlive : inst.cancelled with
    | true => rfl
    | false => exact (hinv.no_live hnone hget hlive).elim
  · intro action next j c haction hget hcancelled hstep
    exact posture_of_cancelled hinv haction hget hcancelled hstep

/-- Two clients of one PQ server, the handshake of the first one completed. -/
def handshakeActions : List Action :=
  [.callStart 1, .startStep, .startStep, .startStep, .startStep, .startStep,
    .startStep, .startStep, .startStep, .startStep, .accept 0, .accept 0,
    .handlerStep 0, .handlerStep 0, .handlerStep 0,
    .handlerStep 1, .handlerStep 1, .handlerStep 1,
    .outcome 0 (.handshakeCompleted ⟨"ML-KEM-768", "ML-DSA-65", "AES-256-GCM",
      1184, 1088, 32⟩),
    .handlerStep 0, .handlerStep 0, .handlerStep 0, .handlerStep 0]

theorem posture_honest_handshake :
    ∃ s p, machine.run State.initial handshakeActions = some s ∧ s.posture = some p ∧
      ∃ c inst, s.connections[p.connection]? = some c ∧
        s.instances[c.owner]? = some inst ∧ inst.requirePq = true ∧
        c.handshakeCompleted = true ∧ s.Running c.owner ∧
        (s.gate = .free → inst.cancelled = false ∧ s.listener = some c.owner) := by
  refine ⟨_, _, rfl, rfl, ?_⟩
  exact (posture_honest handshakeActions _ rfl).1 _ rfl

end PbFrameServer

end NativeInterop
